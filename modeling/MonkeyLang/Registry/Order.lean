import MonkeyLang.Registry.Label

/-!
# Order of labels

Labels of one sort have an order. Among labels of several sorts, two meet for which there is none,
and which two these are depends on how the order is sought. It is sought in runs: stretches of
labels that come in ascending or in descending order, lengthened to a least size, each of them put
in order by insertion and then merged with its neighbours. Texts are always of one sort, and their
order is that of sorted texts.
-/
namespace MonkeyLang.Registry

namespace Label

/-- The failure of a label that is compared with an earlier one of another sort. -/
def clash (later earlier : Label) : Failure :=
  .incomparable later.value.typeName earlier.value.typeName

/-! ## Within a run -/

/-- The label that the next one is compared with first: the last one as long as the labels come in
ascending or in descending order, and else the one in the middle of their order. -/
def rival (first : Label) (others : List Label) : Label :=
  let labels := first :: others
  let inOrder := ascending labels
  if labels = inOrder ∨ labels.reverse = inOrder then labels.getLastD first
  else inOrder.getD (inOrder.length / 2) first

/-- The failure within a run, if it has labels of more than one sort. -/
def runFailure? (first : Label) (others : List Label) : Option Failure :=
  (others.find? (!first.comparable ·)).map fun later =>
    clash later (rival first (others.takeWhile first.comparable))

/-- How many labels go on in the direction that is given, ascending or not. A label of another sort
ends the stretch and is part of it. -/
def stretch (up : Bool) (label : Label) : List Label → Nat
  | [] => 0
  | next :: others =>
    if !label.comparable next then 1
    else if label.before next = up then stretch up next others + 1
    else 0

/-- How many labels follow the first one of a run in the direction that they begin with. -/
def follow (first : Label) (others : List Label) : Nat :=
  stretch (others.head?.any first.before) first others

/-- The least size of a run among so many labels: all of them if they are few, and else between 32
and 64 of them, so that they make up no more runs than a power of two. -/
def leastRun (count : Nat) : Nat :=
  if count < 64 then count
  else
    let halvings := count.log2 - 5
    (count >>> halvings) + (if (count >>> halvings) <<< halvings = count then 0 else 1)

/-! ## Between runs -/

/-- A run in ascending order, with the place of its first label among all labels. -/
structure Run where
  start : Nat
  labels : List Label

namespace Run

/-- How many labels a run has. -/
def size (run : Run) : Nat := run.labels.length

/-- Merges two neighbouring runs, beginning with a comparison of their first labels. -/
def merge (left right : Run) : Except Failure Run :=
  match left.labels.head?, right.labels.head? with
  | some earlier, some later =>
    if later.comparable earlier then .ok ⟨left.start, ascending (left.labels ++ right.labels)⟩
    else .error (clash later earlier)
  | _, _ => .ok ⟨left.start, left.labels ++ right.labels⟩

/-- The depth of the border between two neighbouring runs: how often all labels have to be halved
until the middles of the two runs fall into different parts. -/
def depth (count : Nat) (left right : Run) : Nat :=
  let leftMiddle := 2 * left.start + left.size
  let rightMiddle := 2 * right.start + right.size
  ((List.range count).find? fun halvings =>
    (leftMiddle <<< halvings) / count != (rightMiddle <<< halvings) / count).getD count

/-- Merges a run with those before it, as long as the border between the two is deeper than the one
behind the run. Each run before it is given with the border behind that run. -/
def settle (border : Nat) (run : Run) :
    List (Run × Nat) → Except Failure (Run × List (Run × Nat))
  | [] => .ok (run, [])
  | (left, deeper) :: waiting =>
    if border < deeper then do settle border (← left.merge run) waiting
    else .ok (run, (left, deeper) :: waiting)

/-- Merges all runs, the last one given first. Two neighbours are merged from the end on, but if the
run before them is smaller than the last one, it is first merged with the one between them. -/
def mergeAll (last : Run) : List Run → Except Failure Run
  | [] => .ok last
  | [left] => left.merge last
  | left :: before :: waiting =>
    if before.size < last.size then do mergeAll last ((← before.merge left) :: waiting)
    else do mergeAll (← left.merge last) (before :: waiting)
termination_by waiting => waiting.length

end Run

/-- The runs of some labels that start at a place, each of them in order or with its failure. -/
def runsFrom (least start : Nat) : List Label → List (Except Failure Run)
  | [] => []
  | first :: others =>
    let more := max (follow first others) (least - 1)
    let run := match runFailure? first (others.take more) with
      | some failure => .error failure
      | none => .ok ⟨start, ascending (first :: others.take more)⟩
    run :: runsFrom least (start + 1 + more) (others.drop more)
termination_by labels => labels.length
decreasing_by simp only [List.length_drop, List.length_cons]; omega

/-- The runs that are in order so far: the last one, and those before it, each with the border
behind it. -/
structure Progress where
  last : Run
  waiting : List (Run × Nat) := []

/-- Adds a run behind the others, of which some are merged for it. -/
def Progress.add (count : Nat) (progress : Progress) (next : Except Failure Run) :
    Except Failure Progress := do
  let run ← next
  let border := Run.depth count progress.last run
  let (last, waiting) ← Run.settle border progress.last progress.waiting
  return ⟨run, (last, border) :: waiting⟩

/-- Puts different labels in order by runs. -/
def inRuns (labels : List Label) : Except Failure (List Label) :=
  match runsFrom (leastRun labels.length) 0 labels with
  | [] => .ok []
  | first :: others => do
    let progress ← others.foldlM (Progress.add labels.length) { last := ← first }
    return (← Run.mergeAll progress.last (progress.waiting.map Prod.fst)).labels

/-- The failure of different labels that are not all of one sort. -/
def mismatch? : List Label → Option Failure
  | [] => none
  | first :: others =>
    if others.all first.comparable then none
    else match inRuns (first :: others) with
      | .error failure => some failure
      | .ok _ => none

/-- Labels in ascending order, each of them once. -/
def ordered (labels : List Label) : Except Failure (List Label) :=
  match mismatch? (distinct labels) with
  | some failure => .error failure
  | none => .ok (ascending labels)

theorem mismatch?_eq_none {labels : List Label}
    (texts : ∀ label ∈ labels, ∃ content, label = text content) :
    mismatch? labels = none := by
  cases labels with
  | nil => rfl
  | cons first others =>
    obtain ⟨a, rfl⟩ := texts first (.head _)
    rw [mismatch?, if_pos]
    rw [List.all_eq_true]
    intro later found
    obtain ⟨b, rfl⟩ := texts later (.tail _ found)
    rfl

/-- Texts have the order of sorted texts. -/
theorem ordered_text (contents : List String) :
    ordered (contents.map text) = .ok ((Text.sorted contents).map text) := by
  have texts : ∀ label ∈ distinct (contents.map text), ∃ content, label = text content := by
    intro label found
    obtain ⟨content, _, rfl⟩ := List.mem_map.mp (mem_of_mem_distinct found)
    exact ⟨content, rfl⟩
  rw [ordered, mismatch?_eq_none texts, ascending_text]

end Label

end MonkeyLang.Registry
