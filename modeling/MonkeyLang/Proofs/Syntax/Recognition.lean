import MonkeyLang.Proofs.Syntax.CleanRun
import MonkeyLang.Proofs.Syntax.Derivation

/-!
# Recognition

A parser recognises a phrase when its clean runs are the readings of that phrase, token for token.
The parser stops on the last token of the phrase, the phrase names what stands behind it. Here the
loops over lists and statements are shown to recognise the phrases of the same form, given that
their items do.
-/
namespace MonkeyLang.Derivation
open MonkeyLang.Grammar MonkeyLang.Parser

/-- The clean runs of the parser are the readings of the phrase. No phrase ends in a semicolon. -/
structure Recognizes {α : Type} (eof : Token) (p : Parser α) (phrase : Phrase α) : Prop where
  sound {tokens left : List Token} {value : α} : Reads p eof tokens value left →
    phrase tokens left.tail value ∧ (currentOf eof left).kind ≠ .semicolon
  complete {tokens rest : List Token} {value : α} : phrase tokens rest value →
    ∃ left, Reads p eof tokens value left ∧ left.tail = rest

/-- Expressions are recognised above every floor, and each starts with a token that can start
one. -/
structure RecognizesAll (eof : Token) (expression : ExpressionParser)
    (inner : Int → Phrase Node) : Prop where
  recognizes (floor : Int) : Recognizes eof (expression floor) (inner floor)
  starts {floor : Int} {tokens rest : List Token} {node : Node} : inner floor tokens rest node →
    (currentOf eof tokens).kind.opening?.isSome

theorem RecognizesAll.sound {eof : Token} {expression : ExpressionParser}
    {inner : Int → Phrase Node} (recognized : RecognizesAll eof expression inner) {floor : Int}
    {tokens left : List Token} {node : Node} (h : Reads (expression floor) eof tokens node left) :
    inner floor tokens left.tail node ∧ (currentOf eof left).kind ≠ .semicolon :=
  (recognized.recognizes floor).sound h

theorem RecognizesAll.complete {eof : Token} {expression : ExpressionParser}
    {inner : Int → Phrase Node} (recognized : RecognizesAll eof expression inner) {floor : Int}
    {tokens rest : List Token} {node : Node} (h : inner floor tokens rest node) :
    ∃ left, Reads (expression floor) eof tokens node left ∧ left.tail = rest :=
  (recognized.recognizes floor).complete h

section

variable {eof : Token} {kind : Kind} {tokens rest left : List Token}

/-- A current token that is not the end is the first of the list. -/
theorem eq_cons_of_currentOf (ended : eof.kind = .eof) (h : (currentOf eof tokens).kind = kind)
    (hk : kind ≠ .eof) : ∃ token rest, tokens = token :: rest ∧ token.kind = kind := by
  cases tokens with
  | nil => exact absurd (h.symm.trans ended) hk
  | cons token rest => exact ⟨token, rest, rfl, h⟩

theorem upcomingOf_of_tail {token : Token} (h : tokens.tail = token :: rest) :
    upcomingOf eof tokens = token := by
  rw [upcomingOf, h, currentOf_cons]

theorem upcomingOf_ne_of_head (ended : eof.kind = .eof) (hk : kind ≠ .eof)
    (h : ∀ token ∈ tokens.tail.head?, token.kind ≠ kind) :
    (upcomingOf eof tokens).kind ≠ kind := by
  intro he
  obtain ⟨token, rest, ht, hkind⟩ := eq_cons_of_currentOf ended he hk
  exact h token (by rw [ht]; rfl) hkind

/-- An expected token stands behind the current one. -/
theorem reads_expect_iff {α : Type} {missing value : α} {found : Parser α}
    (ended : eof.kind = .eof) (hk : kind ≠ .eof) :
    Reads (expect kind missing found) eof tokens value left ↔
      ∃ token rest, tokens.tail = token :: rest ∧ token.kind = kind ∧
        Reads found eof (token :: rest) value left := by
  rw [reads_expect]
  constructor
  · rintro ⟨h, hr⟩
    obtain ⟨token, rest, ht, hkind⟩ := eq_cons_of_currentOf ended h hk
    exact ⟨token, rest, ht, hkind, ht ▸ hr⟩
  · rintro ⟨token, rest, ht, hkind, hr⟩
    rw [upcomingOf_of_tail ht, ht]
    exact ⟨hkind, hr⟩

end

section

variable {eof : Token} {item : Parser Node} {phrase : Phrase Node} {close : Kind}

/-- One turn of a list: moves from the comma to the item behind it. -/
def another (item : Parser Node) (items : List Node) : Parser (List Node) := do
  advance
  return (← item) :: items

theorem reads_another {tokens left : List Token} {items nodes : List Node} :
    Reads (another item items) eof tokens nodes left ↔
      ∃ node, Reads item eof tokens.tail node left ∧ nodes = node :: items := by
  rw [another, reads_advance_bind, reads_bind]
  simp only [reads_pure]
  constructor
  · rintro ⟨node, middle, h, rfl, rfl⟩
    exact ⟨node, h, rfl⟩
  · rintro ⟨node, h, rfl⟩
    exact ⟨node, left, h, rfl, rfl⟩

/-- The loop collects the items in reverse, behind those that it has already. -/
theorem items_of_steps (recognized : Recognizes eof item phrase)
    {start result : List Node} {middle left : List Token}
    (h : Steps (· == .comma) (another item) eof start middle result left)
    {tokens : List Token} {node : Node} {earlier : List Node}
    (hs : start = node :: earlier) (head : phrase tokens middle.tail node) :
    ∃ nodes, Items phrase tokens left.tail nodes ∧ result.reverse = earlier.reverse ++ nodes := by
  induction h generalizing tokens node earlier with
  | stopped => exact ⟨[node], .last head, by rw [hs, List.reverse_cons]⟩
  | step go turn tail ih =>
    obtain ⟨next, hread, hnext⟩ := reads_another.mp turn
    obtain ⟨nodes, hitems, hr⟩ := ih hnext (recognized.sound hread).1
    refine ⟨node :: nodes, .more head (by simpa using go) hitems, ?_⟩
    rw [hr, hs, List.reverse_cons, List.append_assoc, List.singleton_append]

/-- Conversely the loop follows a derivation of items, up to a token that is no comma. -/
theorem steps_of_items (recognized : Recognizes eof item phrase)
    {tokens rest : List Token} {nodes : List Node} (h : Items phrase tokens rest nodes)
    (stop : ∀ token ∈ rest.head?, token.kind ≠ .comma) (earlier : List Node) :
    ∃ node middle left, Reads item eof tokens node middle ∧ left.tail = rest ∧
      Steps (· == .comma) (another item) eof (node :: earlier) middle
        (nodes.reverse ++ earlier) left := by
  induction h generalizing earlier with
  | last head =>
    obtain ⟨left, hread, rfl⟩ := recognized.complete head
    exact ⟨_, left, left, hread, rfl, .stopped fun token ht => by simpa using stop token ht⟩
  | @more tokens behind rest comma node nodes head kind tail ih =>
    obtain ⟨middle, hread, hm⟩ := recognized.complete head
    obtain ⟨next, middle', left, hread', hl, hsteps⟩ := ih stop (node :: earlier)
    match middle, hm with
    | token :: _, rfl =>
      have turn : Reads (another item (node :: earlier)) eof (comma :: behind)
          (next :: node :: earlier) middle' := reads_another.mpr ⟨next, hread', rfl⟩
      refine ⟨node, _, left, hread, hl, ?_⟩
      rw [List.reverse_cons, List.append_assoc, List.singleton_append]
      exact .step (by simp [kind]) turn hsteps

theorem reads_commaList {opener : Token} {tokens left : List Token} {result : Option (List Node)} :
    Reads (commaList close item) eof (opener :: tokens) result left ↔
      if (currentOf eof tokens).kind = close then result = some [] ∧ left = tokens
      else ∃ node middle nodes middle', Reads item eof tokens node middle ∧
        Steps (· == .comma) (another item) eof [node] middle nodes middle' ∧
        Reads (expect close none (pure (some nodes.reverse))) eof middle' result left := by
  rw [commaList, reads_upcoming_bind, upcomingOf_cons]
  split_ifs with h
  · rw [reads_advance_bind, reads_pure, List.tail_cons]
  · rw [reads_advance_bind, reads_bind]
    simp only [reads_bind, List.tail_cons, ← reads_whileNext]
    constructor
    · rintro ⟨node, middle, hread, nodes, middle', hloop, hexpect⟩
      exact ⟨node, middle, nodes, middle', hread, hloop, hexpect⟩
    · rintro ⟨node, middle, nodes, middle', hread, hloop, hexpect⟩
      exact ⟨node, middle, hread, nodes, middle', hloop, hexpect⟩

/-- A clean list is a derived one, and its closing token is left current. -/
theorem listing_of_reads (ended : eof.kind = .eof) (hc : close ≠ .eof)
    (recognized : Recognizes eof item phrase) {opener : Token} {tokens left : List Token}
    {result : Option (List Node)} (h : Reads (commaList close item) eof (opener :: tokens) result left) :
    ∃ nodes, result = some nodes ∧ Listing close phrase tokens left.tail nodes ∧
      (currentOf eof left).kind = close := by
  rw [reads_commaList] at h
  split_ifs at h with hclose
  · obtain ⟨rfl, rfl⟩ := h
    obtain ⟨closer, rest, rfl, hkind⟩ := eq_cons_of_currentOf ended hclose hc
    exact ⟨[], rfl, .empty hkind, hkind⟩
  · obtain ⟨node, middle, nodes, middle', hread, hsteps, hexpect⟩ := h
    obtain ⟨closer, rest, hm, hkind, hr⟩ := (reads_expect_iff ended hc).mp hexpect
    obtain ⟨rfl, rfl⟩ := reads_pure.mp hr
    obtain ⟨items, hitems, he⟩ :=
      items_of_steps recognized hsteps rfl (recognized.sound hread).1
    rw [hm] at hitems
    refine ⟨items, by simpa using he, .items hitems hkind, hkind⟩

theorem Items.head_phrase {tokens rest : List Token} {nodes : List Node}
    (h : Items phrase tokens rest nodes) : ∃ middle node, phrase tokens middle node := by
  cases h with
  | last head => exact ⟨_, _, head⟩
  | more head => exact ⟨_, _, head⟩

/-- A derived list is read cleanly, provided that no item starts with the closing token. -/
theorem reads_of_listing (ended : eof.kind = .eof) (hc : close ≠ .eof) (hcomma : close ≠ .comma)
    (recognized : Recognizes eof item phrase)
    (starts : ∀ tokens rest node, phrase tokens rest node → (currentOf eof tokens).kind ≠ close)
    (opener : Token) {tokens rest : List Token} {nodes : List Node}
    (h : Listing close phrase tokens rest nodes) :
    ∃ closer, closer.kind = close ∧
      Reads (commaList close item) eof (opener :: tokens) (some nodes) (closer :: rest) := by
  cases h with
  | @empty closer rest kind =>
    exact ⟨closer, kind, reads_commaList.mpr (by simp [kind])⟩
  | @items tokens rest closer nodes items kind =>
    refine ⟨closer, kind, reads_commaList.mpr ?_⟩
    obtain ⟨behind, first, hfirst⟩ := items.head_phrase
    rw [if_neg (starts _ _ _ hfirst)]
    obtain ⟨node, middle, left, hread, hl, hsteps⟩ :=
      steps_of_items recognized items (by simp [kind, hcomma]) []
    refine ⟨node, middle, _, left, hread, hsteps, (reads_expect_iff ended hc).mpr ?_⟩
    exact ⟨closer, rest, hl, kind, reads_pure.mpr ⟨by simp, rfl⟩⟩

end

end MonkeyLang.Derivation
