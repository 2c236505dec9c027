import MonkeyLang.Proofs.Lexing.Extent
import MonkeyLang.Proofs.Syntax.RelocatedParsing
import MonkeyLang.Proofs.Tree.StructuralText

/-!
# Independence of layout

Blanks between the tokens of a text and the name of its file show in no token but by its place. The
places of tokens show in no tree but by its tokens, in no text of a tree and in no message.
-/
namespace MonkeyLang

/-! ## Texts and messages without places -/

namespace Node

variable (r : Relocation)

theorem commaSeparated_relocate (nodes : List Node) :
    commaSeparated (nodes.map (relocate r)) = (commaSeparated nodes).map (relocate r) := by
  induction nodes with
  | nil => rfl
  | cons node rest ih =>
    cases rest with
    | nil => rfl
    | cons second rest =>
      have separated : ∀ node second rest, commaSeparated (node :: second :: rest) =
          node :: text ", " :: commaSeparated (second :: rest) := fun _ _ _ => rfl
      rw [List.map_cons, List.map_cons, separated, separated, ← List.map_cons, ih, List.map_cons,
        List.map_cons, relocate]

/-- A moved node splits into the moved parts. -/
theorem parts_relocate (node : Node) : (node.relocate r).parts = node.parts.map (relocate r) := by
  cases node with
  | conditional token condition consequence alternative =>
    cases alternative <;> simp [relocate, parts]
  | returnStatement token value => cases value <;> simp [relocate, parts]
  | _ => simp [relocate, parts, commaSeparated_relocate]

theorem isSplit_relocate (node : Node) : (node.relocate r).isSplit = node.isSplit := by
  cases node <;> rfl

theorem renderStack_of_isSplit {node : Node} (split : node.isSplit) (rest : List Node)
    (done : String) : renderStack (node :: rest) done = renderStack (node.parts ++ rest) done := by
  rw [renderStack_eq, renderStack_eq, textOfAll, textOfAll_append, textOfAll_parts split]

theorem renderStack_relocate (stack : List Node) (done : String) :
    renderStack (stack.map (relocate r)) done = renderStack stack done := by
  fun_induction renderStack stack done with
  | case1 done => rw [List.map_nil, renderStack]
  | case2 done rest ih => rw [List.map_cons, relocate, renderStack, ih]
  | case3 done content rest ih => rw [List.map_cons, relocate, renderStack, ih]
  | case4 done typeName rest => rw [List.map_cons, relocate, renderStack]
  | case5 done node rest hne htext hforeign ih =>
    have split : node.isSplit := isSplit_of_ne hne htext hforeign
    rw [List.map_cons, renderStack_of_isSplit (by rw [isSplit_relocate, split]), parts_relocate,
      ← List.map_append, ih]

theorem render_relocate (node : Node) : (node.relocate r).render = node.render := by
  have alone := renderStack_relocate r [node] ""
  rw [List.map_cons, List.map_nil] at alone
  exact alone

end Node

/-! ## Texts that say the same -/

/-- Blanks at a cut inside no token, and the name of the file, leave what a text says as it is. -/
theorem contents_insert_blanks {front back blanks : String}
    (blank : ∀ c ∈ blanks.toList, c.isWhitespace)
    (whole : ∀ extent ∈ extents (front ++ back), ¬ extent.divides front.toList.length)
    (file file' : String) :
    (tokenize (front ++ blanks ++ back) file).map Token.content =
      (tokenize (front ++ back) file').map Token.content := by
  rw [extents, String.toList_append, ← Nat.zero_add front.toList.length] at whole
  obtain ⟨pieces, before⟩ := exists_layoutBefore whole
  have tokens : (Lexer.ofText (front ++ blanks ++ back) file).tokens.map Token.content =
      (Lexer.ofText (front ++ back) file').tokens.map Token.content := by
    simp only [Lexer.tokens, Lexer.ofText, String.toList_append, List.append_assoc]
    rw [Lexer.drain_append before, Lexer.drain_append (before.blanks blank), List.map_append,
      List.map_append, Lexer.tokens_blanks blank]
    congr 1
    · exact Lexer.contents_eq_of_rest_eq rfl
    · exact Lexer.contents_eq_of_rest_eq rfl
  simp only [tokenize, List.map_append, tokens, List.map_cons, Lexer.content_eof, List.map_nil]

/-- What the tokens of a text say tells the outcome of its program, up to places. -/
theorem relocate_runOn_program (lexer : Lexer) :
    (Grammar.program.runOn lexer).relocate (Node.relocate .unplaced) .unplaced =
      Grammar.program.run (.ofContent (.eof, ""))
        ((lexer.tokens.map Token.content).map .ofContent) := by
  rw [← lexer.content_eof, List.map_map]
  exact (Grammar.relocates_program lexer.eof lexer.tokens).symm

/-- Texts that say the same have the same tree up to places, the same text of it, and the same
messages. -/
theorem parse_of_contents_eq {text text' file file' : String}
    (same : (tokenize text file).map Token.content = (tokenize text' file').map Token.content) :
    (parse text file).tree.relocate .unplaced = (parse text' file').tree.relocate .unplaced ∧
      (parse text file).tree.render = (parse text' file').tree.render ∧
      (parse text file).log.messages = (parse text' file').log.messages := by
  have tokens : (Lexer.ofText text file).tokens.map Token.content =
      (Lexer.ofText text' file').tokens.map Token.content := by
    simp only [tokenize, List.map_append, List.map_cons, List.map_nil, Lexer.content_eof] at same
    exact List.append_cancel_right same
  have outcome := relocate_runOn_program (.ofText text file)
  rw [tokens, ← relocate_runOn_program, Outcome.relocate, Outcome.relocate] at outcome
  obtain ⟨tree, -, -, faults⟩ := Outcome.mk.inj outcome
  refine ⟨tree, ?_, ?_⟩
  · rw [parse, parse, ← Node.render_relocate .unplaced, tree, Node.render_relocate]
  · have said (found : List Fault) : (found.map Fault.diagnostic).map Diagnostic.message =
        (found.map (Fault.relocate .unplaced)).map Fault.message := by
      simp [Fault.diagnostic, Fault.message_relocate]
    rw [parse, parse, Log.messages, Log.messages, Log.entries_append, Log.entries_append,
      Log.entries_empty, List.nil_append, List.nil_append, said, said, faults]

/-- Layout and the name of the file do not matter. Blanks at a cut inside no token leave the kinds
and texts of all tokens, and where these agree, so do the trees up to the places of their tokens,
the texts of the trees and the messages. -/
theorem parse_independent_of_layout :
    (∀ front blanks back file file' : String,
      (∀ extent ∈ extents (front ++ back), ¬ extent.divides front.toList.length) →
      (∀ c ∈ blanks.toList, c ∈ [' ', '\t', '\n', '\r']) →
      (tokenize (front ++ blanks ++ back) file).map Token.content =
        (tokenize (front ++ back) file').map Token.content) ∧
    ∀ text text' file file' : String,
      (tokenize text file).map Token.content = (tokenize text' file').map Token.content →
      (parse text file).tree.relocate .unplaced = (parse text' file').tree.relocate .unplaced ∧
      (parse text file).tree.render = (parse text' file').tree.render ∧
      (parse text file).log.messages = (parse text' file').log.messages := by
  constructor
  · intro front blanks back file file' whole blank
    refine contents_insert_blanks (fun c member => ?_) whole file file'
    have cases := blank c member
    simp only [List.mem_cons, List.not_mem_nil, or_false] at cases
    rcases cases with rfl | rfl | rfl | rfl <;> decide
  · intro text text' file file' same
    exact parse_of_contents_eq same

/-- A line may end in front of a string that is never closed: what is missing behind the string is
reported in the same words. -/
theorem parse_independent_of_layout_brokenLine :
    (parse "f(\r\n\t\"b c" "one").log.messages = (parse "f(\"b c" "other").log.messages ∧
    (parse "f(\"b c" "other").log.size = 1 ∧
    (parse "f(\r\n\t\"b c" "one").tree.relocate .unplaced =
      (parse "f(\"b c" "other").tree.relocate .unplaced := by
  have whole : ∀ extent ∈ extents ("f(" ++ "\"b c"), ¬ extent.divides "f(".toList.length := by
    decide +kernel
  have blank : ∀ c ∈ "\r\n\t".toList, c ∈ [' ', '\t', '\n', '\r'] := by simp
  have same := parse_independent_of_layout.1 "f(" "\r\n\t" "\"b c" "one" "other" whole blank
  have split : "f(" ++ "\r\n\t" ++ "\"b c" = "f(\r\n\t\"b c" := by decide
  have joined : "f(" ++ "\"b c" = "f(\"b c" := by decide
  rw [split, joined] at same
  obtain ⟨tree, -, messages⟩ := parse_independent_of_layout.2 _ _ "one" "other" same
  have reported : (parse "f(\"b c" "other").log.size = 1 := by decide +kernel
  exact ⟨messages, reported, tree⟩

end MonkeyLang
