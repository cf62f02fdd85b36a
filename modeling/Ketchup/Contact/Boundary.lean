/-
**The index of directed boundary edges.**

Edges lie in slots, and a grid of cells as wide as the tolerance says which slots hold the edges that start
in a cell. A removed edge leaves its slot empty; empty slots at the end are dropped and used again.

* `Holds` — the slots and the cells of a boundary both tell of the edges a plain list holds.
* `run_scans` — every run of calls answers as scanning that list would.
-/

import Ketchup.Contact.Rings
import Mathlib.Algebra.Order.Floor.Ring
import Mathlib.Data.Rat.Floor
import Mathlib.Tactic.Linarith
import Mathlib.Tactic.NormNum
import Std.Data.HashMap.Lemmas

namespace Ketchup.Contact

variable {R : Type} [Field R] [LinearOrder R]

abbrev Edge (R : Type) := Point R × Point R

/-- Edges by slot, and the slots of each cell. -/
structure Boundary (R : Type) where
  edges : List (Option (Edge R)) := []
  cells : Std.HashMap (ℤ × ℤ) (List ℕ) := ∅

/-- A float as `i64`: what lies outside its range is at the end of it. -/
def saturated (value : ℤ) : ℤ := max (-2 ^ 63) (min (2 ^ 63 - 1) value)

/-- Sums of cells wrap. -/
def wrapped (value : ℤ) : ℤ := value.bmod (2 ^ 64)

section Calls

variable [FloorRing R]

def cell (p : Point R) : ℤ × ℤ := (saturated ⌊p.x / eps⌋, saturated ⌊p.y / eps⌋)

namespace Boundary

variable (boundary : Boundary R)

def push (edge : Edge R) : Boundary R where
  edges := boundary.edges ++ [some edge]
  cells := boundary.cells.insert (cell edge.1) (boundary.cells.getD (cell edge.1) [] ++ [boundary.edges.length])

/-- The slots of the nine cells around a point. -/
def around (start : Point R) : List ℕ :=
  [-1, 0, 1].flatMap fun dx => [-1, 0, 1].flatMap fun dy =>
    boundary.cells.getD (wrapped ((cell start).1 + dx), wrapped ((cell start).2 + dy)) []

/-- One slot looked at. There is no answer where there is no such slot. -/
def look (start : Point R) (ends : Point R → Bool) (first : Option ℕ) (index : ℕ) : Option (Option ℕ) :=
  if first.any (· ≤ index) then some first
  else match boundary.edges[index]? with
    | none => none
    | some none => some first
    | some (some edge) => if near edge.1 start && ends edge.2 then some (some index) else some first

def firstFrom (start : Point R) (ends : Point R → Bool) : Option (Option ℕ) :=
  (boundary.around start).foldlM (boundary.look start ends) none

/-- There is no answer where the slot is empty. -/
def remove (index : ℕ) : Option (Boundary R × Edge R) :=
  match boundary.edges[index]? with
  | some (some edge) =>
    let cells := boundary.cells.modify (cell edge.1) fun indices => indices.filter (· ≠ index)
    some (⟨boundary.edges.set index none, cells⟩, edge)
  | _ => none

def pop (boundary : Boundary R) : Option (Boundary R × Option (Edge R)) :=
  match last : boundary.edges.getLast? with
  | none => some (boundary, none)
  | some (some _) => (boundary.remove (boundary.edges.length - 1)).map fun (after, edge) => (after, some edge)
  | some none => pop { boundary with edges := boundary.edges.dropLast }
termination_by boundary.edges.length
decreasing_by
  have some : boundary.edges ≠ [] := by
    rintro empty
    rw [empty] at last
    cases last
  have := List.length_pos_iff.mpr some
  simp only [List.length_dropLast]
  omega

end Boundary

inductive Call (R : Type) where
  | push (edge : Edge R)
  | remove (index : ℕ)
  | pop
  | firstFrom (start : Point R) (ends : Point R → Bool)

/-- What a call tells. A push tells the slot of its edge. -/
inductive Answer (R : Type) where
  | slot (index : ℕ)
  | removed (edge : Edge R)
  | popped (edge : Option (Edge R))
  | first (index : Option ℕ)

def Call.on (boundary : Boundary R) : Call R → Option (Boundary R × Answer R)
  | .push edge => some (boundary.push edge, .slot boundary.edges.length)
  | .remove index => (boundary.remove index).map fun (after, edge) => (after, .removed edge)
  | .pop => boundary.pop.map fun (after, edge) => (after, .popped edge)
  | .firstFrom start ends => (boundary.firstFrom start ends).map fun index => (boundary, .first index)

def run (boundary : Boundary R) : List (Call R) → Option (Boundary R × List (Answer R))
  | [] => some (boundary, [])
  | call :: calls => do
    let (after, answer) ← call.on boundary
    let (last, answers) ← run after calls
    some (last, answer :: answers)

/-- A call takes out by slot only what remains there. -/
def Call.Allowed (boundary : Boundary R) : Call R → Prop
  | .remove index => ∃ edge, boundary.edges[index]? = some (some edge)
  | _ => True

/-- So does each of the calls, after the ones before it. -/
def Allowed (boundary : Boundary R) : List (Call R) → Prop
  | [] => True
  | call :: calls => call.Allowed boundary ∧
    ∀ after answer, call.on boundary = some (after, answer) → Allowed after calls

end Calls

/-! ### The plain scan -/

/-- The remaining edges under their slots, in the order of their insertion. -/
abbrev Held (R : Type) := List (ℕ × Edge R)

/-- What a call does to a plain list, and what it tells. -/
inductive Scanned : Call R → Held R → Held R → Answer R → Prop where
  | push {held edge index} (new : ∀ entry ∈ held, entry.1 < index) :
    Scanned (.push edge) held (held ++ [(index, edge)]) (.slot index)
  | remove {held edge index} (remains : (index, edge) ∈ held) :
    Scanned (.remove index) held (held.filter (·.1 ≠ index)) (.removed edge)
  | none : Scanned .pop [] [] (.popped none)
  | pop {held edge index} : Scanned .pop (held ++ [(index, edge)]) held (.popped (some edge))
  | first {held start ends} : Scanned (.firstFrom start ends) held held
    (.first ((held.find? fun entry => near entry.2.1 start && ends entry.2.2).map (·.1)))

inductive Scans : List (Call R) → Held R → Held R → List (Answer R) → Prop where
  | nil {held} : Scans [] held held []
  | cons {call calls held between last answer answers} (one : Scanned call held between answer)
    (others : Scans calls between last answers) : Scans (call :: calls) held last (answer :: answers)

section Cells

theorem saturated_range (value : ℤ) : -2 ^ 63 ≤ saturated value ∧ saturated value < 2 ^ 63 := by
  unfold saturated
  omega

theorem wrapped_saturated (value : ℤ) : wrapped (saturated value) = saturated value := by
  have := saturated_range value
  apply Int.bmod_eq_of_le <;> omega

theorem saturated_le {one two : ℤ} (le : one ≤ two + 1) : saturated one ≤ saturated two + 1 := by
  unfold saturated
  omega

variable [IsStrictOrderedRing R]

theorem eps_pos : (0 : R) < eps := by
  unfold eps
  norm_num

theorem near_apart {a b : Point R} (close : near a b = true) :
    (a.x - b.x ≤ eps ∧ b.x - a.x ≤ eps) ∧ a.y - b.y ≤ eps ∧ b.y - a.y ≤ eps := by
  have within : (a.x - b.x) * (a.x - b.x) + (a.y - b.y) * (a.y - b.y) ≤ eps * eps := of_decide_eq_true close
  have x : |a.x - b.x| ≤ eps := by
    apply abs_le_of_sq_le_sq _ eps_pos.le
    nlinarith [mul_self_nonneg (a.y - b.y)]
  have y : |a.y - b.y| ≤ eps := by
    apply abs_le_of_sq_le_sq _ eps_pos.le
    nlinarith [mul_self_nonneg (a.x - b.x)]
  rw [abs_le] at x y
  refine ⟨⟨x.2, ?_⟩, y.2, ?_⟩ <;> linarith

variable [FloorRing R]

/-- Numbers no farther apart than the tolerance are in the same cell or in neighbours. -/
theorem floor_le {x y : R} (le : x - y ≤ eps) : ⌊x / eps⌋ ≤ ⌊y / eps⌋ + 1 := by
  have scaled : x / eps ≤ y / eps + 1 := by
    rw [div_add_one eps_pos.ne', div_le_div_iff_of_pos_right eps_pos]
    linarith
  rw [← Int.floor_add_one]
  exact Int.floor_le_floor scaled

/-- What is near is in one of the nine cells around. -/
theorem near_cells {p start : Point R} (close : near p start = true) :
    ∃ dx ∈ [-1, 0, 1], ∃ dy ∈ [-1, 0, 1],
      cell p = (wrapped ((cell start).1 + dx), wrapped ((cell start).2 + dy)) := by
  have apart := near_apart close
  have one := saturated_le (floor_le apart.1.1)
  have two := saturated_le (floor_le apart.1.2)
  have three := saturated_le (floor_le apart.2.1)
  have four := saturated_le (floor_le apart.2.2)
  refine ⟨(cell p).1 - (cell start).1, ?_, (cell p).2 - (cell start).2, ?_, ?_⟩
  · simp only [List.mem_cons, List.not_mem_nil, or_false, cell]
    omega
  · simp only [List.mem_cons, List.not_mem_nil, or_false, cell]
    omega
  · rw [add_sub_cancel, add_sub_cancel]
    exact Prod.ext (wrapped_saturated _).symm (wrapped_saturated _).symm

end Cells

theorem getD_filtered {K : Type} [BEq K] [LawfulBEq K] [Hashable K] [LawfulHashable K] [DecidableEq K]
    (cells : Std.HashMap K (List ℕ)) (key other : K) (keep : ℕ → Bool) :
    (cells.modify key (·.filter keep)).getD other [] =
      if key = other then (cells.getD other []).filter keep else cells.getD other [] := by
  rw [Std.HashMap.getD_modify]
  by_cases same : key = other
  · rw [if_pos (beq_iff_eq.mpr same), if_pos same, same, Std.HashMap.getD_eq_getD_getElem?]
    cases cells[other]? <;> rfl
  · rw [if_neg (mt beq_iff_eq.mp same), if_neg same]

/-! ### Slots and cells -/

/-- What passes a test at a slot. -/
def passes (boundary : Boundary R) (start : Point R) (ends : Point R → Bool) (index : ℕ) : Bool :=
  boundary.edges[index]?.any fun slot => slot.any fun edge => near edge.1 start && ends edge.2

theorem look_eq {boundary : Boundary R} {start : Point R} {ends : Point R → Bool} {index : ℕ} {edge : Edge R}
    (slot : boundary.edges[index]? = some (some edge)) (first : Option ℕ) :
    boundary.look start ends first index =
      some (if passes boundary start ends index then some (first.elim index (min · index)) else first) := by
  have test : passes boundary start ends index = (near edge.1 start && ends edge.2) := by rw [passes, slot]; rfl
  rw [Boundary.look, slot, test]
  cases first with
  | none => by_cases passing : (near edge.1 start && ends edge.2) = true <;> simp [passing]
  | some found =>
    by_cases before : found ≤ index
    · simp [before]
    · have : index ≤ found := by omega
      by_cases passing : (near edge.1 start && ends edge.2) = true <;> simp [passing, before, this]

/-- Of the slots looked at, the lowest that passes. -/
theorem foldlM_look {boundary : Boundary R} {start : Point R} {ends : Point R → Bool} {indices : List ℕ}
    (filled : ∀ index ∈ indices, ∃ edge, boundary.edges[index]? = some (some edge)) (first : Option ℕ) :
    indices.foldlM (boundary.look start ends) first =
      some (first.toList ++ indices.filter (passes boundary start ends)).min? := by
  induction indices generalizing first with
  | nil => cases first <;> simp
  | cons index indices ih =>
    obtain ⟨edge, slot⟩ := filled index List.mem_cons_self
    rw [List.foldlM_cons, look_eq slot]
    refine (ih (fun other among => filled other (List.mem_cons_of_mem index among)) _).trans ?_
    rw [List.filter_cons]
    by_cases passing : passes boundary start ends index = true
    · rw [if_pos passing, if_pos passing]
      cases first with
      | none => rfl
      | some found => rfl
    · rw [if_neg passing, if_neg passing]

variable [FloorRing R]

/-- The slots hold what the list holds, and the cells know where. -/
structure Holds (boundary : Boundary R) (held : Held R) : Prop where
  ascending : held.Pairwise fun one two => one.1 < two.1
  slots : ∀ index edge, (index, edge) ∈ held ↔ boundary.edges[index]? = some (some edge)
  indexed : ∀ key index, index ∈ boundary.cells.getD key [] ↔
    ∃ edge, (index, edge) ∈ held ∧ cell edge.1 = key

variable {boundary : Boundary R} {held : Held R}

theorem empty_holds : Holds ({} : Boundary R) [] where
  ascending := .nil
  slots index edge := by simp
  indexed key index := by simp

theorem Holds.below (holds : Holds boundary held) : ∀ entry ∈ held, entry.1 < boundary.edges.length := by
  intro entry among
  obtain ⟨below, -⟩ := List.getElem?_eq_some_iff.mp ((holds.slots entry.1 entry.2).mp among)
  exact below

/-- A slot holds one edge. -/
theorem Holds.same (holds : Holds boundary held) {index : ℕ} {one two : Edge R}
    (first : (index, one) ∈ held) (second : (index, two) ∈ held) : one = two := by
  rw [holds.slots] at first second
  exact Option.some.inj (Option.some.inj (first.symm.trans second))

theorem Holds.push (holds : Holds boundary held) (edge : Edge R) :
    Holds (boundary.push edge) (held ++ [(boundary.edges.length, edge)]) where
  ascending := by
    rw [List.pairwise_append]
    refine ⟨holds.ascending, List.pairwise_singleton _ _, ?_⟩
    intro entry among other new
    rw [List.mem_singleton.mp new]
    exact holds.below entry among
  slots index other := by
    show _ ↔ (boundary.edges ++ [some edge])[index]? = some (some other)
    rw [List.mem_append, List.mem_singleton, holds.slots, Prod.mk.injEq]
    by_cases old : index < boundary.edges.length
    · rw [List.getElem?_append_left old]
      simp [old.ne]
    · rw [List.getElem?_append_right (not_lt.mp old), List.getElem?_eq_none (not_lt.mp old)]
      by_cases new : index = boundary.edges.length
      · simp [new, eq_comm]
      · rw [List.getElem?_eq_none]
        · simp [new]
        · rw [List.length_singleton]
          omega
  indexed key index := by
    show index ∈ Std.HashMap.getD (boundary.cells.insert _ _) key [] ↔ _
    rw [Std.HashMap.getD_insert]
    by_cases here : cell edge.1 = key
    · simp [here, holds.indexed, or_and_right, exists_or]
    · simp [here, holds.indexed, or_and_right, exists_or]

theorem Holds.remove (holds : Holds boundary held) {index : ℕ} {edge : Edge R} (among : (index, edge) ∈ held) :
    ∃ after, boundary.remove index = some (after, edge) ∧ Holds after (held.filter (·.1 ≠ index)) := by
  have slot := (holds.slots index edge).mp among
  refine ⟨_, by rw [Boundary.remove, slot], ?_⟩
  refine ⟨holds.ascending.filter _, ?_, ?_⟩
  · intro other kept
    show _ ↔ (boundary.edges.set index none)[other]? = some (some kept)
    rw [List.mem_filter, holds.slots, List.getElem?_set]
    by_cases same : index = other
    · simp [same]
    · simp [same, Ne.symm same]
  · intro key other
    show other ∈ Std.HashMap.getD (boundary.cells.modify _ _) key [] ↔ _
    rw [getD_filtered]
    by_cases here : cell edge.1 = key
    · rw [if_pos here, List.mem_filter, holds.indexed]
      simp [and_comm, and_left_comm]
    · rw [if_neg here, holds.indexed]
      refine exists_congr fun kept => and_congr_left fun there => ?_
      -- The slot taken out holds an edge of another cell.
      have apart : (index, kept) ∉ held := fun same => here (by rw [← there, holds.same among same])
      rw [List.mem_filter, decide_eq_true_eq]
      exact ⟨fun held => ⟨held, fun same => apart (same ▸ held)⟩, And.left⟩

theorem held_of_last {length : ℕ} (bound : boundary.edges.length = length + 1) (holds : Holds boundary held)
    {edge : Edge R} (last : boundary.edges[length]? = some (some edge)) :
    ∃ before, held = before ++ [(length, edge)] ∧ held.filter (·.1 ≠ length) = before := by
  have among := (holds.slots length edge).mpr last
  obtain ⟨before, after, rfl⟩ := List.append_of_mem among
  have sorted := holds.ascending
  have none : after = [] := by
    cases after with
    | nil => rfl
    | cons entry after =>
      have below := holds.below entry (by simp)
      have above : length < entry.1 := by
        rw [List.pairwise_append] at sorted
        exact List.rel_of_pairwise_cons sorted.2.1 List.mem_cons_self
      omega
  subst none
  refine ⟨before, rfl, ?_⟩
  rw [List.filter_append, List.filter_eq_self.mpr, List.filter_eq_nil_iff.mpr, List.append_nil]
  · simp
  · intro entry among
    rw [List.pairwise_append] at sorted
    exact decide_eq_true (sorted.2.2 entry among _ List.mem_cons_self).ne

theorem pop_nothing (last : boundary.edges.getLast? = none) : boundary.pop = some (boundary, none) := by
  rw [Boundary.pop]
  split <;> simp_all

theorem pop_removes {edge : Edge R} (last : boundary.edges.getLast? = some (some edge)) :
    boundary.pop = (boundary.remove (boundary.edges.length - 1)).map fun (after, edge) => (after, some edge) := by
  rw [Boundary.pop]
  split <;> simp_all

theorem pop_shrinks (last : boundary.edges.getLast? = some none) :
    boundary.pop = Boundary.pop { boundary with edges := boundary.edges.dropLast } := by
  rw [Boundary.pop]
  split <;> simp_all

/-- An empty slot at the end holds nothing. -/
theorem Holds.shrink (holds : Holds boundary held) (last : boundary.edges.getLast? = some none) :
    Holds { boundary with edges := boundary.edges.dropLast } held where
  ascending := holds.ascending
  slots index edge := by
    have split := List.dropLast_append_getLast? none last
    rw [holds.slots, ← split, List.dropLast_concat]
    by_cases old : index < boundary.edges.dropLast.length
    · rw [List.getElem?_append_left old]
    · rw [List.getElem?_append_right (not_lt.mp old), List.getElem?_eq_none (not_lt.mp old)]
      cases index - boundary.edges.dropLast.length <;> simp
  indexed := holds.indexed

theorem Holds.pop (holds : Holds boundary held) :
    (held = [] ∧ ∃ after, boundary.pop = some (after, none) ∧ Holds after []) ∨
    ∃ before index edge, held = before ++ [(index, edge)] ∧
      ∃ after, boundary.pop = some (after, some edge) ∧ Holds after before := by
  generalize size : boundary.edges.length = length
  induction length generalizing boundary with
  | zero =>
    have empty := List.length_eq_zero_iff.mp size
    have none : held = [] := List.eq_nil_iff_forall_not_mem.mpr fun entry among => by
      have := holds.below entry among
      omega
    subst none
    exact .inl ⟨rfl, boundary, pop_nothing (by rw [empty]; rfl), holds⟩
  | succ length ih =>
    have last : boundary.edges.getLast? = boundary.edges[length]? := by
      rw [List.getLast?_eq_getElem?, size, Nat.add_sub_cancel]
    cases slot : boundary.edges[length]? with
    | none =>
      have := List.getElem?_eq_none_iff.mp slot
      omega
    | some content =>
      rw [slot] at last
      cases content with
      | none =>
        rw [pop_shrinks last]
        exact ih (holds.shrink last) (by rw [List.length_dropLast, size, Nat.add_sub_cancel])
      | some edge =>
        obtain ⟨before, rfl, filtered⟩ := held_of_last size holds slot
        obtain ⟨after, removed, kept⟩ := holds.remove (List.mem_append_right before List.mem_cons_self)
        refine .inr ⟨before, length, edge, rfl, after, ?_, filtered ▸ kept⟩
        rw [pop_removes last, size, Nat.add_sub_cancel, removed]
        rfl

/-! ### Lookups -/

/-- Slots around a point are filled. -/
theorem Holds.filled (holds : Holds boundary held) {start : Point R} {index : ℕ}
    (among : index ∈ boundary.around start) : ∃ edge, (index, edge) ∈ held := by
  simp only [Boundary.around, List.mem_flatMap] at among
  obtain ⟨dx, -, dy, -, here⟩ := among
  obtain ⟨edge, is, -⟩ := (holds.indexed _ _).mp here
  exact ⟨edge, is⟩

theorem Holds.passes (holds : Holds boundary held) {start : Point R} {ends : Point R → Bool} {index : ℕ}
    {edge : Edge R} (among : (index, edge) ∈ held) :
    passes boundary start ends index = (near edge.1 start && ends edge.2) := by
  rw [Contact.passes, (holds.slots index edge).mp among]
  rfl

theorem Holds.firstFrom [IsStrictOrderedRing R] (holds : Holds boundary held) (start : Point R) (ends : Point R → Bool) :
    boundary.firstFrom start ends =
      some ((held.find? fun entry => near entry.2.1 start && ends entry.2.2).map (·.1)) := by
  rw [Boundary.firstFrom, foldlM_look, Option.toList_none, List.nil_append]
  · congr 1
    cases found : held.find? fun entry => near entry.2.1 start && ends entry.2.2 with
    | none =>
      rw [List.find?_eq_none] at found
      rw [Option.map_none, List.min?_eq_none_iff, List.filter_eq_nil_iff]
      intro index among
      obtain ⟨edge, is⟩ := holds.filled among
      rw [holds.passes is]
      exact found _ is
    | some entry =>
      obtain ⟨passing, before, after, rfl, missed⟩ := List.find?_eq_some_iff_append.mp found
      have is : (entry.1, entry.2) ∈ before ++ entry :: after := by simp
      rw [Option.map_some, List.min?_eq_some_iff]
      constructor
      · obtain ⟨close, -⟩ := (Bool.and_eq_true _ _).mp passing
        obtain ⟨dx, one, dy, two, same⟩ := near_cells close
        refine List.mem_filter.mpr ⟨?_, by rw [holds.passes is]; exact passing⟩
        simp only [Boundary.around, List.mem_flatMap]
        exact ⟨dx, one, dy, two, (holds.indexed _ _).mpr ⟨entry.2, is, same⟩⟩
      · intro index among
        obtain ⟨around, hit⟩ := List.mem_filter.mp among
        obtain ⟨edge, held⟩ := holds.filled around
        rw [holds.passes held] at hit
        have sorted := (List.pairwise_append.mp holds.ascending).2.1
        rcases List.mem_append.mp held with early | late
        · have := missed _ early
          simp_all
        · rcases List.mem_cons.mp late with same | later
          · exact (congrArg Prod.fst same).ge
          · exact (List.rel_of_pairwise_cons sorted later).le
  · intro index among
    obtain ⟨edge, is⟩ := holds.filled among
    exact ⟨edge, (holds.slots index edge).mp is⟩

/-! ### Runs -/

variable [IsStrictOrderedRing R]

theorem Holds.scanned (holds : Holds boundary held) {call : Call R} (allowed : call.Allowed boundary) :
    ∃ after answer held', call.on boundary = some (after, answer) ∧ Scanned call held held' answer ∧
      Holds after held' := by
  cases call with
  | push edge => exact ⟨_, _, _, rfl, .push holds.below, holds.push edge⟩
  | remove index =>
    obtain ⟨edge, slot⟩ := allowed
    have among := (holds.slots index edge).mpr slot
    obtain ⟨after, removed, kept⟩ := holds.remove among
    exact ⟨after, _, _, by rw [Call.on, removed]; rfl, .remove among, kept⟩
  | pop =>
    rcases holds.pop with ⟨rfl, after, popped, kept⟩ | ⟨before, index, edge, rfl, after, popped, kept⟩
    · exact ⟨after, _, _, by rw [Call.on, popped]; rfl, .none, kept⟩
    · exact ⟨after, _, _, by rw [Call.on, popped]; rfl, .pop, kept⟩
  | firstFrom start ends =>
    exact ⟨boundary, _, _, by rw [Call.on, holds.firstFrom]; rfl, .first, holds⟩

theorem Holds.scans (holds : Holds boundary held) {calls : List (Call R)} (allowed : Allowed boundary calls) :
    ∃ last answers held', run boundary calls = some (last, answers) ∧ Scans calls held held' answers ∧
      Holds last held' := by
  induction calls generalizing boundary held with
  | nil => exact ⟨boundary, [], held, rfl, .nil, holds⟩
  | cons call calls ih =>
    obtain ⟨after, answer, between, one, scanned, kept⟩ := holds.scanned allowed.1
    obtain ⟨last, answers, held', others, scans, kept⟩ := ih kept (allowed.2 after answer one)
    refine ⟨last, answer :: answers, held', ?_, .cons scanned scans, kept⟩
    rw [run, one]
    show (run after calls).bind _ = _
    rw [others]
    rfl

/-- **The boundary index is the plain scan.** Every run of calls that take out by slot only what remains
there has answers, and a plain list has the same; in the end each slot still names the edge the list has
under it. -/
theorem run_scans {calls : List (Call R)} (allowed : Allowed {} calls) :
    ∃ last answers held, run {} calls = some (last, answers) ∧ Scans calls [] held answers ∧
      (held.Pairwise fun one two => one.1 < two.1) ∧
      ∀ index edge, (index, edge) ∈ held ↔ last.edges[index]? = some (some edge) := by
  obtain ⟨last, answers, held, runs, scans, holds⟩ := empty_holds.scans allowed
  exact ⟨last, answers, held, runs, scans, holds.ascending, holds.slots⟩

/-- Two edges from one point; the first looked up and taken out, the other popped. -/
theorem run_scans_pair :
    ∃ last answers held,
      run {} [.push ((⟨-1, 0⟩, ⟨1, 0⟩) : Edge ℚ), .push (⟨-1, 0⟩, ⟨0, 2⟩), .firstFrom ⟨-1, 0⟩ fun _ => true,
        .remove 0, .pop] = some (last, answers) ∧
      Scans [.push ((⟨-1, 0⟩, ⟨1, 0⟩) : Edge ℚ), .push (⟨-1, 0⟩, ⟨0, 2⟩), .firstFrom ⟨-1, 0⟩ fun _ => true,
        .remove 0, .pop] [] held answers ∧
      (held.Pairwise fun one two => one.1 < two.1) ∧
      ∀ index edge, (index, edge) ∈ held ↔ last.edges[index]? = some (some edge) := by
  refine run_scans ⟨trivial, ?_⟩
  rintro - - ⟨⟩
  refine ⟨trivial, ?_⟩
  rintro - - ⟨⟩
  refine ⟨trivial, ?_⟩
  intro after answer looked
  obtain ⟨_, -, same⟩ := Option.map_eq_some_iff.mp looked
  cases same
  exact ⟨⟨_, rfl⟩, fun _ _ _ => ⟨trivial, fun _ _ _ => trivial⟩⟩

end Ketchup.Contact
