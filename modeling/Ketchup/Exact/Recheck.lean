/-
**Exact checks after edits.**

A complete exact check of a program leaves a baseline: the answers, and the parts as they were. The check after
the next edit keeps the answers between parts that did not change and measures only those that did and their
neighbours. Any other revision in between, or a check that does not finish, and everything is measured.

* `next_faithful` — a check keeps `Faithful`: what its baseline answers is right, and parts that may touch are answered.
* `run_contact` — over any run of checks, the answers tell which parts are in contact, as all solids measured do.

Two parts that are both their boxes are left out: their boxes are asked, not the answers.
-/

import Ketchup.Exact.Answers
import Ketchup.Library.Lists
import Ketchup.Library.Sweep
import Mathlib.Tactic.Linarith
import Mathlib.Tactic.NormNum

set_option linter.unusedSectionVars false

namespace Ketchup.Exact

structure Part (B : Type) where
  name : String
  body : B
  deriving DecidableEq

/-- What the checks read of a body: its world bounds in x, whether it is solid and whether its solid is just its
box, and how far the oriented boxes of two are apart. -/
class Bodies (B : Type) (R : outParam Type) where
  low : B → R
  high : B → R
  isSolid : B → Bool
  boxIsSolid : B → Bool
  separation : B → B → R
  separation_comm : ∀ one two, separation one two = separation two one

/-- The parts of a program and the pairs it declares distances of. -/
structure Model (B : Type) where
  parts : List (Part B)
  distances : List (String × String)

attribute [local instance] lexOrd

section Check

variable {R B : Type} [Field R] [LinearOrder R] [Bodies B R]

def Model.part? (model : Model B) (name : String) : Option (Part B) := model.parts.find? (·.name = name)

/-- Contact of two parts; unknown is not contact. -/
def touching (shapes : ExactShapes R) (a b : Part B) : Option Bool :=
  match shapes.pair a.name b.name with
  | some pair => some pair.withinContact.inContact
  | none =>
    let separated : Bool := (contactFitMm : R) < Bodies.separation a.body b.body
    if separated || (Bodies.boxIsSolid a.body && Bodies.boxIsSolid b.body) then some !separated else none

def measuredPairs (model : Model B) : BTreeSet (String × String) :=
  .ofList ((model.distances.filter fun pair => (model.part? pair.1).isSome && (model.part? pair.2).isSome).map
    fun pair => key pair.1 pair.2)

/-- Starts beyond the other in x. -/
def beyond (left right : Part B) : Bool := (Bodies.high left.body : R) + contactFitMm < Bodies.low right.body

def addCandidates (names : BTreeSet String) (left right : Part B) : BTreeSet String :=
  if Bodies.boxIsSolid left.body && Bodies.boxIsSolid right.body then names
  else if (contactFitMm : R) < Bodies.separation left.body right.body then names
  else [left, right].foldl
    (fun names part => if Bodies.boxIsSolid part.body then names else names.insert part.name) names

def exactCandidates (model : Model B) : BTreeSet String :=
  let order := (model.parts.filter fun part => Bodies.isSolid part.body).insertionSort fun left right =>
    (Bodies.low left.body : R) ≤ Bodies.low right.body
  let names := .ofList ((measuredPairs model).toList.flatMap fun pair => [pair.1, pair.2])
  sweep beyond addCandidates order names

def rechecked (model : Model B) (candidates unchanged changed : BTreeSet String) : BTreeSet String :=
  let changed := changed.toList.filterMap model.part?
  candidates.filter fun name =>
    !unchanged.contains name ||
      (model.part? name).any fun part => changed.any fun other => (Bodies.separation part.body other.body : R) ≤ contactFitMm

structure Baseline (R B : Type) where
  document : ℕ × ℕ
  parts : BTreeMap String (Part B)
  shapes : ExactShapes R

/-- What the worker measured. -/
structure Answer (R : Type) where
  complete : Bool
  facts : List ((String × String) × ExactPair R)

def addFact (visible : BTreeSet String) (shapes : ExactShapes R) (fact : (String × String) × ExactPair R) : ExactShapes R :=
  if fact.1.1 ∈ visible ∧ fact.1.2 ∈ visible then shapes.insert fact.1.1 fact.1.2 fact.2 else shapes

def namedShapes (facts : List ((String × String) × ExactPair R)) (visible checked : BTreeSet String) (complete : Bool) :
    ExactShapes R :=
  facts.foldl (addFact visible) (if complete then ExactShapes.blank.checkedAgainst checked visible else .blank)

/-- The parts shown, the worker, and whether the report could be derived again. -/
structure Means (R : Type) where
  shown : BTreeSet String
  measure : BTreeSet String → List (String × String) → Answer R
  refined : Bool

/-- Parts as the baseline saw them. -/
def unchanged [DecidableEq B] (model : Model B) (visible : BTreeSet String) (baseline : Baseline R B) : BTreeSet String :=
  visible.filter fun name => (baseline.parts[name]?).any fun before => model.part? name = some before

def Model.partsOf (model : Model B) (names : BTreeSet String) : BTreeMap String (Part B) :=
  (names.toList.filterMap fun name => (model.part? name).map (Prod.mk name)).foldl
    (fun parts part => parts.insert part.1 part.2) ∅

/-- The parts to measure: those that changed and their neighbours, and those of the distances still unknown. -/
def measured (model : Model B) (candidates visible unchanged : BTreeSet String) (distances : List (String × String)) :
    BTreeSet String :=
  (if unchanged.isEmpty then candidates else rechecked model candidates unchanged (visible \ unchanged)) ∪
    .ofList (distances.flatMap fun pair => [pair.1, pair.2])

def verifyCandidates [DecidableEq B] (model : Model B) (document : ℕ × ℕ) (means : Means R) (candidates : BTreeSet String)
    (baseline : Option (Baseline R B)) : Option (Baseline R B) :=
  if candidates.isEmpty then none
  else
    let visible := means.shown.filter fun name => (model.part? name).isSome
    let unchanged := baseline.elim ∅ (unchanged model visible)
    let distances := (measuredPairs model).toList.filter fun pair =>
      !(unchanged.contains pair.1 && unchanged.contains pair.2 &&
        ((baseline.bind fun baseline => baseline.shapes.pair pair.1 pair.2).bind ExactPair.gapMm).isSome)
    let measured := measured model candidates visible unchanged distances
    let kept := unchanged \ measured
    let reused := baseline.elim .blank fun baseline => baseline.shapes.kept unchanged kept visible
    let checked := visible.filter measured.contains
    let requested := distances.filter fun pair => visible.contains pair.1 && visible.contains pair.2
    let answer := if checked.isEmpty then ⟨true, []⟩ else means.measure checked requested
    let shapes := reused.extend (namedShapes answer.facts visible checked answer.complete)
    if answer.complete && means.refined then
      some ⟨document, model.partsOf visible, shapes⟩
    else none


/-! ### What is measured -/

theorem mem_filter {set : BTreeSet String} {holds : String → Bool} {name : String} :
    name ∈ set.filter holds ↔ name ∈ set ∧ holds name = true := by
  rw [Std.ExtTreeSet.mem_filter]
  constructor
  · rintro ⟨held, is⟩
    exact ⟨held, by simpa using is⟩
  · rintro ⟨held, is⟩
    exact ⟨held, by simpa using is⟩

theorem part?_name {model : Model B} {name : String} {part : Part B} (found : model.part? name = some part) :
    part ∈ model.parts ∧ part.name = name := by
  unfold Model.part? at found
  exact ⟨List.mem_of_find?_eq_some found, by simpa using List.find?_some found⟩

theorem partsOf_eq_some {model : Model B} {names : BTreeSet String} {name : String} {part : Part B} :
    (model.partsOf names)[name]? = some part ↔ name ∈ names ∧ model.part? name = some part := by
  have entry : ∀ held : String × Part B, held ∈ names.toList.filterMap (fun name => (model.part? name).map (Prod.mk name)) ↔
      held.1 ∈ names ∧ model.part? held.1 = some held.2 := by
    rintro ⟨held, other⟩
    simp only [List.mem_filterMap, Std.ExtTreeSet.mem_toList, Option.map_eq_some_iff, Prod.mk.injEq]
    constructor
    · rintro ⟨_, among, _, found, rfl, rfl⟩
      exact ⟨among, found⟩
    · rintro ⟨among, found⟩
      exact ⟨held, among, other, found, rfl, rfl⟩
  have lookup : ∀ {part}, name ∈ names → model.part? name = some part → (model.partsOf names)[name]? = some part := by
    intro part among is
    refine BTreeMap.getElem?_foldl_insert ?_ ((entry (name, part)).mpr ⟨among, is⟩)
    rintro ⟨one, first⟩ isOne ⟨two, second⟩ isTwo (rfl : one = two)
    exact congrArg (one, ·) (Option.some.inj (((entry _).mp isOne).2.symm.trans ((entry _).mp isTwo).2))
  constructor
  · intro found
    by_cases listed : ∃ other, name ∈ names ∧ model.part? name = some other
    · obtain ⟨other, among, is⟩ := listed
      exact ⟨among, is.trans ((lookup among is).symm.trans found)⟩
    · rw [Model.partsOf, BTreeMap.getElem?_foldl_insert_other] at found
      · cases Std.ExtTreeMap.getElem?_empty.symm.trans found
      · rintro held among rfl
        exact listed ⟨held.2, (entry held).mp among⟩
  · exact fun held => lookup held.1 held.2

/-- Two solid parts, not both just their boxes. -/
structure Asks (one two : Part B) : Prop where
  solid : Bodies.isSolid one.body = true ∧ Bodies.isSolid two.body = true
  shaped : Bodies.boxIsSolid one.body = false ∨ Bodies.boxIsSolid two.body = false

/-- Neither starts beyond the other in x. -/
def Level (one two : Part B) : Prop := beyond one two = false ∧ beyond two one = false

theorem Asks.symm {one two : Part B} (asks : Asks one two) : Asks two one := ⟨asks.solid.symm, asks.shaped.symm⟩

theorem Level.symm {one two : Part B} (level : Level one two) : Level two one := And.symm level

theorem mem_addCandidates {names : BTreeSet String} {left right : Part B} {name : String} :
    name ∈ addCandidates names left right ↔ name ∈ names ∨
      Bodies.separation left.body right.body ≤ (contactFitMm : R) ∧
        (Bodies.boxIsSolid left.body = false ∧ left.name = name ∨ Bodies.boxIsSolid right.body = false ∧ right.name = name) := by
  unfold addCandidates
  split
  case isTrue boxes => simp_all
  case isFalse =>
    split
    case isTrue far => simp [not_le.mpr far]
    case isFalse close =>
      simp only [List.foldl_cons, List.foldl_nil, not_lt.mp close, true_and]
      cases Bodies.boxIsSolid left.body <;> cases Bodies.boxIsSolid right.body <;> simp [or_comm, or_assoc]
      exact or_left_comm

/-- **A part not just its box is a candidate where it may touch another.** -/
theorem near_candidates {model : Model B} {one two : Part B} (first : one ∈ model.parts) (second : two ∈ model.parts)
    (apart : one ≠ two) (asks : Asks one two) (level : Level one two)
    (close : Bodies.separation one.body two.body ≤ (contactFitMm : R)) (shaped : Bodies.boxIsSolid one.body = false) :
    one.name ∈ exactCandidates model := by
  unfold exactCandidates
  extract_lets order names
  have sorted : order.Pairwise fun left right => (Bodies.low left.body : R) ≤ Bodies.low right.body :=
    List.pairwise_insertionSort _ _
  have listed : ∀ part ∈ model.parts, Bodies.isSolid part.body = true → part ∈ order := fun part among solid =>
    (List.mem_insertionSort _).mpr (List.mem_filter.mpr ⟨among, solid⟩)
  rw [sweep_near]
  swap
  · exact fun left _ => sorted.imp fun {right further} up => by
      simp only [beyond, decide_eq_true_eq]
      exact fun far => far.trans_le up
  -- The pair is visited, in one order or the other.
  have visited : (one, two) ∈ near beyond order ∨ (two, one) ∈ near beyond order :=
    (pair_sublist_or apart (listed one first asks.solid.1) (listed two second asks.solid.2)).imp
      (fun inside => mem_near.mpr ⟨inside, level.1⟩) fun inside => mem_near.mpr ⟨inside, level.2⟩
  have each : ∀ pair ∈ near beyond order, ∀ name, name ∈ addCandidates ∅ pair.1 pair.2 →
      name ∈ (near beyond order).foldl (fun names pair => addCandidates names pair.1 pair.2) names := by
    refine (foldl_each (fun _ => True) (fun (pair : Part B × Part B) (names : BTreeSet String) =>
      ∀ name, name ∈ addCandidates ∅ pair.1 pair.2 → name ∈ names) trivial ?_ ?_).2
    · refine fun so pair _ _ => ⟨trivial, fun name added => ?_⟩
      rw [mem_addCandidates] at added ⊢
      exact .inr (added.resolve_left Std.ExtTreeSet.not_mem_empty)
    · exact fun so pair _ _ other done name added => mem_addCandidates.mpr (.inl (done name added))
  rcases visited with visited | visited
  · exact each _ visited one.name (mem_addCandidates.mpr (.inr ⟨close, .inl ⟨shaped, rfl⟩⟩))
  · exact each _ visited one.name (mem_addCandidates.mpr (.inr ⟨Bodies.separation_comm one.body two.body ▸ close, .inr ⟨shaped, rfl⟩⟩))

/-- **A part that changed or its neighbour is measured.** -/
theorem mem_measured {model : Model B} {visible unchanged : BTreeSet String} {distances : List (String × String)}
    {a b : String} {one two : Part B} (first : model.part? a = some one) (second : model.part? b = some two)
    (seen : b ∈ visible) (apart : a ≠ b) (asks : Asks one two) (level : Level one two)
    (close : Bodies.separation one.body two.body ≤ (contactFitMm : R)) (shaped : Bodies.boxIsSolid one.body = false)
    (changed : a ∈ unchanged → b ∉ unchanged) :
    a ∈ measured model (exactCandidates model) visible unchanged distances := by
  have candidate : a ∈ exactCandidates model := by
    rw [← (part?_name first).2]
    refine near_candidates (part?_name first).1 (part?_name second).1 ?_ asks level close shaped
    rintro rfl
    exact apart ((part?_name first).2.symm.trans (part?_name second).2)
  refine Std.ExtTreeSet.mem_union_of_left ?_
  split
  case isTrue => exact candidate
  case isFalse =>
    refine mem_filter.mpr ⟨candidate, ?_⟩
    by_cases same : a ∈ unchanged
    · -- Its neighbour changed.
      have moved : b ∈ visible \ unchanged := Std.ExtTreeSet.mem_diff_iff.mpr ⟨seen, changed same⟩
      rw [Bool.or_eq_true, first, Option.any_some, List.any_eq_true]
      exact .inr ⟨two, List.mem_filterMap.mpr ⟨b, Std.ExtTreeSet.mem_toList.mpr moved, second⟩, decide_eq_true close⟩
    · have absent : unchanged.contains a = false := Bool.eq_false_iff.mpr (mt Std.ExtTreeSet.contains_iff_mem.mp same)
      simp [absent]

section Named

variable {facts : List ((String × String) × ExactPair R)} {visible checked : BTreeSet String} {shapes : ExactShapes R}
  {names : String × String} {pair : ExactPair R}

theorem addFact_pairs (fact : (String × String) × ExactPair R) :
    (addFact visible shapes fact).pairs[names]? =
      if (fact.1.1 ∈ visible ∧ fact.1.2 ∈ visible) ∧ key fact.1.1 fact.1.2 = names then some fact.2 else shapes.pairs[names]? := by
  unfold addFact
  by_cases seen : fact.1.1 ∈ visible ∧ fact.1.2 ∈ visible
  · rw [if_pos seen, ExactShapes.insert, BTreeMap.getElem?_insert]
    simp only [seen, true_and, and_self]
  · rw [if_neg seen]
    simp only [seen, false_and, if_false]

theorem foldl_addFact_names :
    (facts.foldl (addFact visible) shapes).checked = shapes.checked ∧
      (facts.foldl (addFact visible) shapes).against = shapes.against := by
  refine List.foldlRecOn (motive := fun so : ExactShapes R => so.checked = shapes.checked ∧ so.against = shapes.against) facts _ ⟨rfl, rfl⟩
    fun so held fact _ => ?_
  unfold addFact
  split
  · exact held
  · exact held

theorem foldl_addFact_some (found : (facts.foldl (addFact visible) shapes).pairs[names]? = some pair) :
    shapes.pairs[names]? = some pair ∨
      ∃ fact ∈ facts, (fact.1.1 ∈ visible ∧ fact.1.2 ∈ visible) ∧ key fact.1.1 fact.1.2 = names ∧ fact.2 = pair := by
  induction facts generalizing shapes with
  | nil => exact .inl found
  | cons fact rest ih =>
    rcases ih found with before | ⟨other, among, is⟩
    · rw [addFact_pairs] at before
      split at before
      case isTrue here => exact .inr ⟨fact, List.mem_cons_self, here.1, here.2, Option.some.inj before⟩
      case isFalse => exact .inl before
    · exact .inr ⟨other, List.mem_cons_of_mem _ among, is⟩

theorem foldl_addFact_none (absent : (facts.foldl (addFact visible) shapes).pairs[names]? = none) :
    shapes.pairs[names]? = none ∧
      ∀ fact ∈ facts, fact.1.1 ∈ visible → fact.1.2 ∈ visible → key fact.1.1 fact.1.2 ≠ names := by
  induction facts generalizing shapes with
  | nil => exact ⟨absent, fun _ held => absurd held List.not_mem_nil⟩
  | cons fact rest ih =>
    obtain ⟨before, later⟩ := ih absent
    rw [addFact_pairs] at before
    split at before
    case isTrue => cases before
    case isFalse other =>
      exact ⟨before, List.forall_mem_cons.mpr ⟨fun first second is => other ⟨⟨first, second⟩, is⟩, later⟩⟩

end Named

/-! ### Runs of checks -/

/-- The revisions of a document: the program of each, and what the solids of two parts share in it. -/
structure World (R B : Type) where
  model : ℕ × ℕ → Model B
  facts : ℕ × ℕ → String → String → Facts R

/-- Solids lie in their boxes. -/
structure World.Bounded (world : World R B) : Prop where
  comm : ∀ document a b, world.facts document a b = world.facts document b a
  apart : ∀ document a b one two, (world.model document).part? a = some one → (world.model document).part? b = some two →
    beyond one two = true ∨ (contactFitMm : R) < Bodies.separation one.body two.body → (world.facts document a b).Apart

/-- A check of the revision an edit made. -/
structure Check (R : Type) where
  before : ℕ × ℕ
  after : ℕ × ℕ
  means : Means R

variable (world : World R B)

/-- Parts the edit left as they were have the solids they had. -/
def Check.Edits (check : Check R) : Prop :=
  ∀ a b, (world.model check.before).part? a = (world.model check.after).part? a →
    (world.model check.before).part? b = (world.model check.after).part? b →
    world.facts check.after a b = world.facts check.before a b

/-- What the worker answers is so, and pairs it leaves out when it finishes are apart. -/
structure Check.Measures (check : Check R) : Prop where
  right : ∀ checked requested, ∀ fact ∈ (check.means.measure checked requested).facts,
    fact.2.Right (world.facts check.after fact.1.1 fact.1.2)
  rest : ∀ checked requested, (check.means.measure checked requested).complete = true →
    ∀ a ∈ checked, a ∈ check.means.shown → ∀ b ∈ check.means.shown, a ≠ b →
      (∀ fact ∈ (check.means.measure checked requested).facts, key fact.1.1 fact.1.2 ≠ key a b) →
      (world.facts check.after a b).Apart

/-- What is so of a baseline. -/
structure Faithful (baseline : Baseline R B) : Prop where
  parts : ∀ name part, baseline.parts[name]? = some part → (world.model baseline.document).part? name = some part
  against : ∀ name part, baseline.parts[name]? = some part → name ∈ baseline.shapes.against
  right : ∀ a b one two pair, baseline.parts[a]? = some one → baseline.parts[b]? = some two → a ≠ b → Asks one two →
    baseline.shapes.pair a b = some pair → pair.Right (world.facts baseline.document a b)
  answered : ∀ a b one two, baseline.parts[a]? = some one → baseline.parts[b]? = some two → a ≠ b → Asks one two →
    Level one two → Bodies.separation one.body two.body ≤ (contactFitMm : R) → baseline.shapes.pair a b ≠ none

theorem key_eq {a b c d : String} (same : key a b = key c d) : a = c ∧ b = d ∨ a = d ∧ b = c := by
  rcases key_cases a b with one | one <;> rcases key_cases c d with two | two <;> rw [one, two, Prod.mk.injEq] at same
  · exact .inl same
  · exact .inr same
  · exact .inr same.symm
  · exact .inl same.symm

theorem key_among {set : BTreeSet String} {a b : String} : ((key a b).1 ∈ set ∧ (key a b).2 ∈ set) ↔ a ∈ set ∧ b ∈ set := by
  rcases key_cases a b with is | is <;> rw [is]
  exact and_comm

/-- What answers kept from an earlier check say of the parts now. -/
structure Reuses (document : ℕ × ℕ) (unchanged measured : BTreeSet String) (reused : ExactShapes R) : Prop where
  right : ∀ a b one two pair, (world.model document).part? a = some one → (world.model document).part? b = some two →
    a ≠ b → Asks one two → reused.pairs[key a b]? = some pair → pair.Right (world.facts document a b)
  checked : ∀ a ∈ reused.checked, a ∈ unchanged ∧ a ∉ measured
  rest : ∀ a b one two, (world.model document).part? a = some one → (world.model document).part? b = some two →
    a ≠ b → Asks one two → a ∈ reused.checked → b ∈ unchanged → reused.pairs[key a b]? = none →
    ExactPair.blank.Right (world.facts document a b)
  answered : ∀ a b one two, (world.model document).part? a = some one → (world.model document).part? b = some two →
    a ≠ b → Asks one two → Level one two → Bodies.separation one.body two.body ≤ (contactFitMm : R) →
    a ∈ unchanged → b ∈ unchanged →
    reused.pairs[key a b]? ≠ none ∨ (a ∈ reused.checked ∨ a ∈ measured) ∨ b ∈ reused.checked ∨ b ∈ measured

theorem reuses_blank {document : ℕ × ℕ} {measured : BTreeSet String} : Reuses world document ∅ measured .blank where
  right a b one two pair _ _ _ _ found := by cases Std.ExtTreeMap.getElem?_empty.symm.trans found
  checked a held := absurd held Std.ExtTreeSet.not_mem_empty
  rest a b one two _ _ _ _ held := absurd held Std.ExtTreeSet.not_mem_empty
  answered a b one two _ _ _ _ _ _ held := absurd held Std.ExtTreeSet.not_mem_empty

variable {world}

theorem mem_unchanged [DecidableEq B] {model : Model B} {visible : BTreeSet String} {baseline : Baseline R B} {name : String} :
    name ∈ unchanged model visible baseline ↔
      name ∈ visible ∧ ∃ part, baseline.parts[name]? = some part ∧ model.part? name = some part := by
  rw [unchanged, mem_filter]
  refine and_congr_right fun _ => ?_
  rw [Option.any_eq_true]
  simp only [decide_eq_true_eq]

theorem reuses_kept [DecidableEq B] {baseline : Baseline R B} (faithful : Faithful world baseline) {check : Check R}
    (since : baseline.document = check.before) (edits : check.Edits world) (visible measured : BTreeSet String) :
    let unchanged := unchanged (world.model check.after) visible baseline
    Reuses world check.after unchanged measured (baseline.shapes.kept unchanged (unchanged \ measured) visible) := by
  intro same
  -- Two unchanged parts share what they shared.
  have parts : ∀ {name part}, (world.model check.after).part? name = some part → name ∈ same →
      baseline.parts[name]? = some part := by
    intro name part is held
    obtain ⟨_, other, before, now⟩ := mem_unchanged.mp held
    rw [before, ← now, is]
  have still : ∀ {a b one two}, (world.model check.after).part? a = some one → (world.model check.after).part? b = some two →
      a ∈ same → b ∈ same → world.facts check.after a b = world.facts baseline.document a b := by
    intro a b one two first second heldA heldB
    rw [since]
    refine edits a b ?_ ?_
    · rw [first, ← since]
      exact faithful.parts a one (parts first heldA)
    · rw [second, ← since]
      exact faithful.parts b two (parts second heldB)
  have both : ∀ {a b}, a ∈ same → b ∈ same →
      (baseline.shapes.kept same (same \ measured) visible).pairs[key a b]? = baseline.shapes.pairs[key a b]? := by
    intro a b heldA heldB
    refine Option.ext fun pair => ?_
    rw [ExactShapes.pairs_kept, key_among]
    simp only [heldA, heldB, and_self, and_true]
  constructor
  · intro a b one two pair first second apart asks found
    obtain ⟨before, heldA, heldB⟩ := ExactShapes.pairs_kept.mp found
    obtain ⟨heldA, heldB⟩ := key_among.mp ⟨heldA, heldB⟩
    rw [still first second heldA heldB]
    exact faithful.right a b one two pair (parts first heldA) (parts second heldB) apart asks
      (ExactShapes.pair_eq_some.mpr (.inl before))
  · intro a held
    exact Std.ExtTreeSet.mem_diff_iff.mp (Std.ExtTreeSet.mem_inter_iff.mp held).2
  · intro a b one two first second apart asks checked heldB absent
    obtain ⟨checked, held⟩ := Std.ExtTreeSet.mem_inter_iff.mp checked
    have heldA := (Std.ExtTreeSet.mem_diff_iff.mp held).1
    rw [still first second heldA heldB]
    refine faithful.right a b one two .blank (parts first heldA) (parts second heldB) apart asks
      (ExactShapes.pair_eq_some.mpr (.inr ⟨both heldA heldB ▸ absent, apart, .inl ⟨checked, ?_⟩, rfl⟩))
    exact faithful.against b two (parts second heldB)
  · intro a b one two first second apart asks level close heldA heldB
    rw [both heldA heldB]
    obtain ⟨pair, found⟩ := Option.ne_none_iff_exists'.mp
      (faithful.answered a b one two (parts first heldA) (parts second heldB) apart asks level close)
    have known : ∀ {name}, name ∈ same → name ∈ baseline.shapes.checked →
        name ∈ (baseline.shapes.kept same (same \ measured) visible).checked ∨ name ∈ measured := by
      intro name held checked
      by_cases again : name ∈ measured
      · exact .inr again
      · exact .inl (Std.ExtTreeSet.mem_inter_iff.mpr ⟨checked, Std.ExtTreeSet.mem_diff_iff.mpr ⟨held, again⟩⟩)
    rcases ExactShapes.pair_eq_some.mp found with found | ⟨_, _, either, _⟩
    · exact .inl (found ▸ Option.some_ne_none pair)
    · exact .inr (either.imp (fun checked => known heldA checked.1) fun checked => known heldB checked.1)

/-- **Answers reused and answers measured are right, and answer what may touch.** -/
theorem faithful_extend {document : ℕ × ℕ} (bounded : world.Bounded) {visible unchanged : BTreeSet String}
    {distances : List (String × String)} {reused : ExactShapes R} {facts : List ((String × String) × ExactPair R)} :
    let measured := measured (world.model document) (exactCandidates (world.model document)) visible unchanged distances
    let checked := visible.filter measured.contains
    Reuses world document unchanged measured reused →
    (∀ fact ∈ facts, fact.2.Right (world.facts document fact.1.1 fact.1.2)) →
    (∀ a ∈ checked, ∀ b ∈ visible, a ≠ b → (∀ fact ∈ facts, fact.1.1 ∈ visible → fact.1.2 ∈ visible →
      key fact.1.1 fact.1.2 ≠ key a b) → (world.facts document a b).Apart) →
    Faithful world ⟨document, (world.model document).partsOf visible, reused.extend (namedShapes facts visible checked true)⟩ := by
  intro measured checked reuses right rest
  have names : (namedShapes facts visible checked true).checked = ∅ ∪ checked ∧
      (namedShapes facts visible checked true).against = ∅ ∪ visible := foldl_addFact_names
  have mem_checked : ∀ {name}, name ∈ (reused.extend (namedShapes facts visible checked true)).checked ↔
      name ∈ reused.checked ∨ name ∈ visible ∧ name ∈ measured := by
    intro name
    rw [ExactShapes.extend, Std.ExtTreeSet.mem_union_iff, names.1, Std.ExtTreeSet.mem_union_iff, mem_filter,
      Std.ExtTreeSet.contains_iff_mem, or_iff_right Std.ExtTreeSet.not_mem_empty]
  have seen : ∀ {name}, name ∈ visible → name ∈ (reused.extend (namedShapes facts visible checked true)).against := by
    intro name among
    rw [ExactShapes.extend, Std.ExtTreeSet.mem_union_iff, names.2, Std.ExtTreeSet.mem_union_iff]
    exact .inr (.inr among)
  -- A neighbour of a part that changed is measured, or it is one itself.
  have either : ∀ {a b one two}, (world.model document).part? a = some one → (world.model document).part? b = some two →
      a ∈ visible → b ∈ visible → a ≠ b → Asks one two → Level one two →
      Bodies.separation one.body two.body ≤ (contactFitMm : R) → (a ∈ unchanged → b ∉ unchanged) →
      a ∈ measured ∨ b ∈ measured := by
    intro a b one two first second seenA seenB apart asks level close changed
    rcases asks.shaped with shaped | shaped
    · exact .inl (mem_measured first second seenB apart asks level close shaped changed)
    · exact .inr (mem_measured second first seenA (Ne.symm apart) asks.symm level.symm
        (Bodies.separation_comm one.body two.body ▸ close) shaped fun heldB heldA => changed heldA heldB)
  -- Parts taken to be apart, as one was checked with all.
  have default : ∀ {a b one two}, (world.model document).part? a = some one → (world.model document).part? b = some two →
      a ∈ visible → b ∈ visible → a ≠ b → Asks one two →
      (reused.extend (namedShapes facts visible checked true)).pairs[key a b]? = none →
      a ∈ (reused.extend (namedShapes facts visible checked true)).checked →
      ExactPair.blank.Right (world.facts document a b) := by
    intro a b one two first second seenA seenB apart asks absent held
    rw [ExactShapes.pairs_extend, Option.or_eq_none_iff] at absent
    have fresh := (foldl_addFact_none absent.1).2
    have here : ∀ {one two}, one ∈ visible → two ∈ visible → one ≠ two → key one two = key a b → one ∈ measured →
        (world.facts document one two).Apart := fun seenOne seenTwo differ same among =>
      rest _ (mem_filter.mpr ⟨seenOne, Std.ExtTreeSet.contains_iff_mem.mpr among⟩) _ seenTwo differ
        fun fact held inside inside' => same ▸ fresh fact held inside inside'
    rcases mem_checked.mp held with kept | ⟨_, again⟩
    · obtain ⟨heldA, idle⟩ := reuses.checked a kept
      by_cases heldB : b ∈ unchanged
      · exact reuses.rest a b one two first second apart asks kept heldB absent.2
      · refine right_blank ?_
        by_cases other : b ∈ measured
        · exact bounded.comm document a b ▸ here seenB seenA (Ne.symm apart) (key_comm b a) other
        · by_contra touch
          have level : Level one two ∧ Bodies.separation one.body two.body ≤ (contactFitMm : R) := by
            refine ⟨⟨?_, ?_⟩, ?_⟩
            · by_contra far
              exact touch (bounded.apart document a b one two first second (.inl (by simpa using far)))
            · by_contra far
              rw [bounded.comm document a b] at touch
              exact touch (bounded.apart document b a two one second first (.inl (by simpa using far)))
            · by_contra far
              exact touch (bounded.apart document a b one two first second (.inr (not_le.mp far)))
          rcases either first second seenA seenB apart asks level.1 level.2 fun _ => heldB with among | among
          · exact idle among
          · exact other among
    · exact right_blank (here seenA seenB apart rfl again)
  constructor
  · intro name part found
    exact (partsOf_eq_some.mp found).2
  · intro name part found
    exact seen (partsOf_eq_some.mp found).1
  · intro a b one two pair first second apart asks found
    obtain ⟨seenA, first⟩ := partsOf_eq_some.mp first
    obtain ⟨seenB, second⟩ := partsOf_eq_some.mp second
    rcases ExactShapes.pair_eq_some.mp found with found | ⟨absent, _, held, rfl⟩
    · rw [ExactShapes.pairs_extend, Option.or_eq_some_iff] at found
      rcases found with found | ⟨_, found⟩
      · rcases foldl_addFact_some found with before | ⟨fact, among, _, same, rfl⟩
        · cases Std.ExtTreeMap.getElem?_empty.symm.trans before
        · rcases key_eq same with ⟨rfl, rfl⟩ | ⟨rfl, rfl⟩
          · exact right fact among
          · exact bounded.comm document _ _ ▸ right fact among
      · exact reuses.right a b one two pair first second apart asks found
    · rcases held with held | held
      · exact default first second seenA seenB apart asks absent held.1
      · exact bounded.comm document a b ▸
          default second first seenB seenA (Ne.symm apart) asks.symm (key_comm a b ▸ absent) held.1
  · intro a b one two first second apart asks level close
    obtain ⟨seenA, first⟩ := partsOf_eq_some.mp first
    obtain ⟨seenB, second⟩ := partsOf_eq_some.mp second
    -- Answered where there is an answer or one of the two was checked with all.
    have answered : (reused.extend (namedShapes facts visible checked true)).pairs[key a b]? ≠ none ∨
        a ∈ (reused.extend (namedShapes facts visible checked true)).checked ∨
        b ∈ (reused.extend (namedShapes facts visible checked true)).checked := by
      rw [mem_checked, mem_checked]
      by_cases both : a ∈ unchanged ∧ b ∈ unchanged
      · rcases reuses.answered a b one two first second apart asks level close both.1 both.2 with found | held
        · refine .inl fun absent => found ?_
          rw [ExactShapes.pairs_extend, Option.or_eq_none_iff] at absent
          exact absent.2
        · exact .inr (held.imp (Or.imp_right fun among => ⟨seenA, among⟩) (Or.imp_right fun among => ⟨seenB, among⟩))
      · exact .inr ((either first second seenA seenB apart asks level close fun heldA heldB => both ⟨heldA, heldB⟩).imp
          (fun among => .inr ⟨seenA, among⟩) fun among => .inr ⟨seenB, among⟩)
    intro absent
    rw [ExactShapes.pair, Option.or_eq_none_iff] at absent
    rcases answered with found | held
    · exact found absent.1
    · have checked : a ≠ b ∧ ((reused.extend (namedShapes facts visible checked true)).Checked a b ∨
          (reused.extend (namedShapes facts visible checked true)).Checked b a) :=
        ⟨apart, held.imp (fun held => ⟨held, seen seenB⟩) fun held => ⟨held, seen seenA⟩⟩
      rw [if_pos checked] at absent
      cases absent.2

variable [DecidableEq B]

variable (world) in
/-- The check of a revision, from what the last check left. -/
def next (baseline : Option (Baseline R B)) (check : Check R) : Option (Baseline R B) :=
  verifyCandidates (world.model check.after) check.after check.means (exactCandidates (world.model check.after))
    (baseline.filter fun baseline => baseline.document = check.before)

/-- **A check leaves a baseline that is so.** -/
theorem next_faithful (bounded : world.Bounded) {check : Check R} (edits : check.Edits world)
    (measures : check.Measures world) {baseline : Option (Baseline R B)}
    (faithful : ∀ old, baseline = some old → Faithful world old) :
    ∀ new, next world baseline check = some new → Faithful world new ∧ new.document = check.after ∧
      ∀ name ∈ check.means.shown, new.parts[name]? = (world.model check.after).part? name := by
  intro new is
  unfold next verifyCandidates at is
  split at is
  case isTrue => cases is
  case isFalse =>
    extract_lets visible unchanged distances measured kept reused checked requested answer shapes at is
    split at is
    case isFalse => cases is
    case isTrue done =>
      obtain rfl := Option.some.inj is
      obtain ⟨complete, -⟩ := (Bool.and_eq_true _ _).mp done
      refine ⟨?_, rfl, fun name shown => Option.ext fun part => partsOf_eq_some.trans ?_⟩
      swap
      · refine and_iff_right_of_imp fun found => mem_filter.mpr ⟨shown, ?_⟩
        rw [found]
        rfl
      have reuses : Reuses world check.after unchanged measured reused := by
        cases since : baseline.filter fun baseline => decide (baseline.document = check.before) with
        | none =>
          simp only [unchanged, reused, since]
          exact reuses_blank world
        | some old =>
          obtain ⟨was, same⟩ := Option.filter_eq_some_iff.mp since
          have old := reuses_kept (faithful old was) (of_decide_eq_true same) edits visible measured
          simp only [reused, kept, unchanged, since]
          exact old
      -- What was measured, if anything was.
      have worker : (∀ fact ∈ answer.facts, fact.2.Right (world.facts check.after fact.1.1 fact.1.2)) ∧
          ∀ a ∈ checked, ∀ b ∈ visible, a ≠ b → (∀ fact ∈ answer.facts, fact.1.1 ∈ visible → fact.1.2 ∈ visible →
            key fact.1.1 fact.1.2 ≠ key a b) → (world.facts check.after a b).Apart := by
        by_cases nothing : checked.isEmpty = true
        · have none : checked = ∅ := Std.ExtTreeSet.isEmpty_iff.mp nothing
          simp only [answer, nothing, if_true]
          exact ⟨fun fact held => absurd held List.not_mem_nil, fun a held => absurd (none ▸ held) Std.ExtTreeSet.not_mem_empty⟩
        · simp only [answer, if_neg nothing] at complete ⊢
          refine ⟨measures.right checked requested, fun a held b seen apart fresh => ?_⟩
          have shown := (mem_filter.mp (mem_filter.mp held).1).1
          refine measures.rest checked requested complete a held shown b (mem_filter.mp seen).1 apart fun fact among same => ?_
          rcases key_eq same with ⟨one, two⟩ | ⟨one, two⟩
          · exact fresh fact among (one ▸ (mem_filter.mp held).1) (two ▸ seen) same
          · exact fresh fact among (one ▸ seen) (two ▸ (mem_filter.mp held).1) same
      have all := faithful_extend bounded reuses worker.1 worker.2
      rw [← complete] at all
      exact all

variable (world) in
/-- One check after another, of edits in any order. -/
def run (checks : List (Check R)) : Option (Baseline R B) := checks.foldl (next world) none

theorem run_faithful (bounded : world.Bounded) {checks : List (Check R)}
    (so : ∀ check ∈ checks, check.Edits world ∧ check.Measures world) :
    ∀ baseline, run world checks = some baseline → Faithful world baseline := by
  refine List.foldlRecOn (motive := fun state => ∀ baseline, state = some baseline → Faithful world baseline) checks _
    (fun _ none => nomatch none) fun state faithful check among baseline is => ?_
  exact (next_faithful bounded (so check among).1 (so check among).2 faithful baseline is).1

/-- **After any run of checks, what is kept of two shown parts is right, and tells whether they are in contact.** -/
theorem run_contact (bounded : world.Bounded) {checks : List (Check R)} {last : Check R}
    (so : ∀ check ∈ checks ++ [last], check.Edits world ∧ check.Measures world) {baseline : Baseline R B}
    (ran : run world (checks ++ [last]) = some baseline) {a b : String} {one two : Part B}
    (shownA : a ∈ last.means.shown) (first : (world.model last.after).part? a = some one)
    (shownB : b ∈ last.means.shown) (second : (world.model last.after).part? b = some two)
    (apart : a ≠ b) (asks : Asks one two) :
    (∀ pair, baseline.shapes.pair a b = some pair → pair.Right (world.facts last.after a b)) ∧
      (Level one two → touching baseline.shapes one two = some (world.facts last.after a b).inContact) := by
  rw [run, List.foldl_append] at ran
  have among := List.mem_append_right checks (List.mem_singleton_self last)
  obtain ⟨faithful, document, parts⟩ := next_faithful bounded (so last among).1 (so last among).2
    (run_faithful bounded fun check held => so check (List.mem_append_left _ held)) baseline ran
  have heldA := (parts a shownA).trans first
  have heldB := (parts b shownB).trans second
  have right : ∀ pair, baseline.shapes.pair a b = some pair → pair.Right (world.facts last.after a b) :=
    fun pair found => document ▸ faithful.right a b one two pair heldA heldB apart asks found
  refine ⟨right, fun level => ?_⟩
  rw [touching, (part?_name first).2, (part?_name second).2]
  cases found : baseline.shapes.pair a b with
  | some pair => exact congrArg some (right pair found).inContact
  | none =>
    -- Without an answer their boxes are apart.
    have far : (contactFitMm : R) < Bodies.separation one.body two.body := by
      by_contra close
      exact faithful.answered a b one two heldA heldB apart asks level (not_lt.mp close) found
    rw [(bounded.apart last.after a b one two first second (.inr far)).inContact]
    simp [far]

/-- A check of a program with candidates leaves a baseline when it finishes. -/
theorem next_isSome {check : Check R} {name : String} (candidate : name ∈ exactCandidates (world.model check.after))
    (complete : ∀ checked requested, (check.means.measure checked requested).complete = true)
    (refined : check.means.refined = true) (baseline : Option (Baseline R B)) :
    ∃ new, next world baseline check = some new := by
  unfold next verifyCandidates
  have some : ¬(exactCandidates (world.model check.after)).isEmpty = true := fun empty =>
    absurd (Std.ExtTreeSet.isEmpty_iff.mp empty ▸ candidate) Std.ExtTreeSet.not_mem_empty
  rw [if_neg some]
  extract_lets visible unchanged distances measured kept reused checked requested answer shapes
  have done : answer.complete = true := by
    by_cases nothing : checked.isEmpty = true
    · simp only [answer, nothing, if_true]
    · simp only [answer, if_neg nothing]
      exact complete checked requested
  rw [done, refined]
  exact ⟨_, rfl⟩

end Check

section Moved

/-- Bodies one long. -/
structure Span where
  start : ℚ
  deriving DecidableEq

instance : Bodies Span ℚ where
  low span := span.start
  high span := span.start + 1
  isSolid _ := true
  boxIsSolid _ := false
  separation one two := |one.start - two.start| - 1
  separation_comm one two := by rw [abs_sub_comm]

def share (one two : ℚ) : Facts ℚ :=
  ⟨max 0 (1 - |one - two|), max 0 (1 - |one - two|), if |one - two| = 1 then 1 else 0, max 0 (|one - two| - 1)⟩

/-- A shelf and its side, which the second revision moves a little. -/
def shelves (document : ℕ × ℕ) : Model Span := ⟨[⟨"shelf", ⟨0⟩⟩, ⟨"side", ⟨if document.2 = 0 then 1 else 1.005⟩⟩], []⟩

def moved : World ℚ Span where
  model := shelves
  facts document a b :=
    match (shelves document).part? a, (shelves document).part? b with
    | some one, some two => share one.body.start two.body.start
    | _, _ => ⟨0, 0, 0, 1⟩

/-- All is measured. -/
def look (before after : ℕ × ℕ) : Check ℚ where
  before := before
  after := after
  means := {
    shown := .ofList ["shelf", "side"]
    measure := fun _ _ =>
      let facts := moved.facts after "shelf" "side"
      ⟨true, [(("shelf", "side"), ⟨facts.volume, facts.thickness, facts.area, some facts.distance⟩)]⟩
    refined := true }

theorem share_comm (one two : ℚ) : share one two = share two one := by
  unfold share
  rw [abs_sub_comm]

theorem share_far {one two : ℚ} (far : (contactFitMm : ℚ) < |one - two| - 1) : (share one two).Apart := by
  have positive : (0 : ℚ) < contactFitMm := by norm_num [contactFitMm]
  have none : max 0 (1 - |one - two|) = 0 := max_eq_left (by linarith)
  exact ⟨none, none, if_neg (by linarith), far.trans_le (le_max_right _ _)⟩

theorem moved_bounded : moved.Bounded where
  comm document a b := by
    unfold moved
    dsimp only
    cases (shelves document).part? a <;> cases (shelves document).part? b <;> try rfl
    exact share_comm _ _
  apart document a b one two first second far := by
    have is : moved.facts document a b = share one.body.start two.body.start := by
      unfold moved at first second ⊢
      dsimp only at first second ⊢
      rw [first, second]
    rw [is]
    rcases far with far | far
    · have lies : one.body.start + 1 + contactFitMm < two.body.start := of_decide_eq_true far
      refine share_far ?_
      linarith [neg_le_abs (one.body.start - two.body.start)]
    · exact share_far far

theorem look_so (before after : ℕ × ℕ) : (look before after).Edits moved ∧ (look before after).Measures moved := by
  refine ⟨fun a b first second => ?_, ⟨fun _ _ fact held => ?_, fun _ _ _ a _ shownA b shownB apart fresh => ?_⟩⟩
  · unfold moved look at *
    dsimp only at *
    rw [first, second]
  · rw [List.mem_singleton.mp held]
    exact ⟨rfl, rfl, rfl, fun _ is => (Option.some.inj is).symm, fun none => nomatch none⟩
  · -- The two are all there are.
    have among : ∀ {name}, name ∈ (look before after).means.shown → name = "shelf" ∨ name = "side" := by
      intro name shown
      simpa [look, Std.ExtTreeSet.mem_ofList] using shown
    refine absurd ?_ (fresh _ (List.mem_singleton_self _))
    rcases among shownA with rfl | rfl <;> rcases among shownB with rfl | rfl
    · exact absurd rfl apart
    · rfl
    · exact key_comm _ _
    · exact absurd rfl apart

theorem run_contact_moved : ∃ baseline, run moved ([look (1, 0) (1, 0)] ++ [look (1, 0) (1, 1)]) = some baseline ∧
    touching baseline.shapes (⟨"shelf", ⟨0⟩⟩ : Part Span) ⟨"side", ⟨1.005⟩⟩ = some true := by
  have first : (moved.model (1, 1)).part? "shelf" = some ⟨"shelf", ⟨0⟩⟩ := rfl
  have second : (moved.model (1, 1)).part? "side" = some ⟨"side", ⟨1.005⟩⟩ := rfl
  have asks : Asks (⟨"shelf", ⟨0⟩⟩ : Part Span) ⟨"side", ⟨1.005⟩⟩ := ⟨⟨rfl, rfl⟩, .inl rfl⟩
  have level : Level (⟨"shelf", ⟨0⟩⟩ : Part Span) ⟨"side", ⟨1.005⟩⟩ := by
    constructor <;> norm_num [beyond, Bodies.high, Bodies.low, contactFitMm]
  have candidate : "shelf" ∈ exactCandidates (moved.model (1, 1)) := by
    refine near_candidates (part?_name first).1 (part?_name second).1 (by simp) asks level ?_ rfl
    norm_num [Bodies.separation, contactFitMm]
  obtain ⟨baseline, ran⟩ : ∃ new, next moved (next moved none (look (1, 0) (1, 0))) (look (1, 0) (1, 1)) = some new :=
    next_isSome candidate (fun _ _ => rfl) rfl _
  have so : ∀ check ∈ [look (1, 0) (1, 0)] ++ [look (1, 0) (1, 1)], check.Edits moved ∧ check.Measures moved := by
    intro check held
    rcases List.mem_append.mp held with held | held <;> rw [List.mem_singleton.mp held]
    · exact look_so _ _
    · exact look_so _ _
  have contact := (run_contact moved_bounded so ran (by simp [look]) first (by simp [look]) second (by decide) asks).2 level
  have facts : moved.facts (1, 1) "shelf" "side" = share 0 1.005 := rfl
  refine ⟨baseline, ran, contact.trans (congrArg some ?_)⟩
  rw [show (look (1, 0) (1, 1)).after = (1, 1) from rfl, facts]
  norm_num [share, Facts.inContact, ExactPair.inContact, ExactPair.withinContact, ExactPair.penetrating, ExactPair.touching,
    contactFitMm]

end Moved

end Ketchup.Exact
