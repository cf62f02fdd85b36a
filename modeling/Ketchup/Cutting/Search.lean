/-
**The search for the least stock is exact when it finishes.**

On measures of whole thousandths of a millimetre:

* `key_inj`: two bars the search takes for alike are;
* `place_exact`: what it found by the end of a part of the search is no more than any completion of the
  bars that part started from, whichever of its branches were cut off;
* `leastStock_exact`: so no plan takes less stock than what it found, or than the plan it was to beat.

It does not search at all for more pieces than `searchedPieces` (`manyRails_not_searched`).
-/

import Ketchup.Cutting.Bars

namespace Ketchup.Cutting

/-! ### The grid -/

/-- A whole number of thousandths. -/
def OnGrid (value : ℚ) : Prop := ∃ thousandths : ℤ, value = thousandths / 1000

theorem OnGrid.zero : OnGrid 0 := ⟨0, by norm_num⟩

theorem OnGrid.add {one two : ℚ} (first : OnGrid one) (second : OnGrid two) : OnGrid (one + two) := by
  obtain ⟨many, rfl⟩ := first
  obtain ⟨more, rfl⟩ := second
  exact ⟨many + more, by push_cast; ring⟩

theorem OnGrid.sub {one two : ℚ} (first : OnGrid one) (second : OnGrid two) : OnGrid (one - two) := by
  obtain ⟨many, rfl⟩ := first
  obtain ⟨more, rfl⟩ := second
  exact ⟨many - more, by push_cast; ring⟩

theorem OnGrid.sum {values : List ℚ} (each : ∀ value ∈ values, OnGrid value) : OnGrid values.sum := by
  induction values with
  | nil => exact OnGrid.zero
  | cons value rest ih =>
    obtain ⟨first, later⟩ := List.forall_mem_cons.mp each
    rw [List.sum_cons]
    exact first.add (ih later)

/-- The tolerance is smaller than the grid. -/
theorem OnGrid.le_of_le_eps {one two : ℚ} (first : OnGrid one) (second : OnGrid two)
    (near : one ≤ two + eps) : one ≤ two := by
  obtain ⟨many, rfl⟩ := first
  obtain ⟨more, rfl⟩ := second
  have less : (many : ℚ) < (more + 1 : ℤ) := by
    rw [eps] at near
    push_cast
    linarith
  have most : many ≤ more := Int.lt_add_one_iff.mp (Int.cast_lt.mp less)
  have cast : (many : ℚ) ≤ more := Int.cast_le.mpr most
  linarith

/-- The greatest measure a program may give. -/
def maxCoordinateMm : ℚ := 1000000

theorem key_onGrid {thousandths : ℤ} (least : 0 ≤ thousandths)
    (most : (thousandths : ℚ) / 1000 ≤ maxCoordinateMm) : key (thousandths / 1000) = thousandths := by
  have whole : (thousandths : ℚ) / 1000 * 1000 = thousandths := by ring
  have small : thousandths ≤ 1000000000 := by
    have cast : (thousandths : ℚ) ≤ (1000000000 : ℤ) := by
      rw [maxCoordinateMm] at most
      push_cast
      linarith
    exact Int.cast_le.mp cast
  have rounds : roundAway (thousandths : ℚ) = thousandths := by
    rw [roundAway, if_pos (by exact_mod_cast least), Int.floor_eq_iff]
    constructor <;> linarith
  rw [key, whole, rounds]
  omega

/-- **The key of a measure on the grid tells it apart.** -/
theorem key_inj {one two : ℚ} (first : OnGrid one) (second : OnGrid two) (least : 0 ≤ one)
    (least' : 0 ≤ two) (most : one ≤ maxCoordinateMm) (most' : two ≤ maxCoordinateMm)
    (same : key one = key two) : one = two := by
  obtain ⟨many, rfl⟩ := first
  obtain ⟨more, rfl⟩ := second
  have nonneg (thousandths : ℤ) (least : 0 ≤ (thousandths : ℚ) / 1000) : 0 ≤ thousandths := by
    have cast : (0 : ℚ) ≤ thousandths := by linarith
    exact_mod_cast cast
  rw [key_onGrid (nonneg many least) most, key_onGrid (nonneg more least') most'] at same
  rw [same]

/-! ### What the search does with a state -/

/-- What `number` and `stock()` let through, on the grid. -/
structure GridStock (lengths : List ℚ) (kerf trim : ℚ) : Prop where
  lengths : ∀ length ∈ lengths, 2 * trim < length ∧ length ≤ maxCoordinateMm ∧ OnGrid length
  kerf : 0 ≤ kerf ∧ OnGrid kerf
  trim : 0 ≤ trim ∧ OnGrid trim

/-- What is usable of a length. -/
def usable (trim length : ℚ) : ℚ := length - 2 * trim

/-- What the search goes on to find: at most this. -/
def Found.Advances (before after : Found) : Prop :=
  before.steps ≤ after.steps ∧ after.bestTotal ≤ before.bestTotal

theorem Found.Advances.refl (found : Found) : found.Advances found := ⟨le_refl _, le_refl _⟩

theorem Found.Advances.trans {first second third : Found} (one : first.Advances second)
    (two : second.Advances third) : first.Advances third :=
  ⟨one.1.trans two.1, two.2.trans one.2⟩

variable {sizes lengths : List ℚ} {kerf trim : ℚ}

theorem place_advances (room remaining : List ℚ) (index : Nat) (bars : List OpenBar) (total : ℚ)
    (found : Found) : found.Advances (place lengths room kerf remaining index bars total found) := by
  refine place_keeps (fun _ _ _ _ => True) found.Advances (fun so advances => ?_)
    (fun _ _ total so _ advances better => ?_) (fun _ _ _ _ _ _ _ _ _ _ => trivial)
    (fun _ _ _ _ _ _ _ _ _ _ => trivial) trivial (.refl found)
  · exact ⟨Nat.le_succ_of_le advances.1, advances.2⟩
  · have positive := eps_pos
    exact ⟨advances.1, (show total ≤ so.bestTotal by linarith).trans advances.2⟩

/-- The room of a kind of bar, and what it costs. -/
def roomOf (lengths : List ℚ) (trim : ℚ) (kind : Nat) : ℚ := (lengths.map (usable trim)).getD kind 0

def costOf (lengths : List ℚ) (kind : Nat) : ℚ := lengths.getD kind 0

/-- Pieces in turn completed from bars that are open. -/
abbrev CompletedAt (lengths : List ℚ) (kerf trim : ℚ) : List ℚ → List (Nat × ℚ) → ℚ → Prop :=
  Completes {kind | kind < lengths.length} (roomOf lengths trim) (costOf lengths) kerf

/-- The bars that are open, as far as they matter. -/
def states (bars : List OpenBar) : List (Nat × ℚ) := bars.map fun bar => (bar.length, bar.taken)

/-- No completion is less than what was found, when it was found within the steps. -/
def Found.Covers (found : Found) (lengths : List ℚ) (kerf trim : ℚ) (remaining : List ℚ)
    (bins : List (Nat × ℚ)) (total : ℚ) : Prop :=
  found.steps ≤ searchSteps → ∀ added, CompletedAt lengths kerf trim remaining bins added →
    found.bestTotal ≤ total + added + eps

theorem Found.Covers.later {before after : Found} {remaining : List ℚ} {bins : List (Nat × ℚ)} {total : ℚ}
    (covers : before.Covers lengths kerf trim remaining bins total) (advances : before.Advances after) :
    after.Covers lengths kerf trim remaining bins total := fun finished added completes =>
  advances.2.trans (covers (advances.1.trans finished) added completes)

theorem Found.Covers.perm {found : Found} {remaining : List ℚ} {bins others : List (Nat × ℚ)} {total : ℚ}
    (covers : found.Covers lengths kerf trim remaining bins total) (perm : bins.Perm others) :
    found.Covers lengths kerf trim remaining others total := fun finished added completes =>
  covers finished added (completes.perm perm.symm)

/-- An open bar on the grid. -/
structure OpenBar.OnGrid (lengths : List ℚ) (trim : ℚ) (bar : OpenBar) : Prop where
  listed : bar.length < lengths.length
  taken : 0 ≤ bar.taken ∧ Cutting.OnGrid bar.taken
  within : bar.taken ≤ roomOf lengths trim bar.length

namespace GridStock

theorem room (grid : GridStock lengths kerf trim) {kind : Nat} (listed : kind < lengths.length) :
    Cutting.OnGrid (roomOf lengths trim kind) ∧ roomOf lengths trim kind ≤ costOf lengths kind ∧
      costOf lengths kind ≤ maxCoordinateMm ∧ 0 ≤ costOf lengths kind := by
  have cost : costOf lengths kind = lengths[kind] := by
    rw [costOf, List.getD_eq_getElem?_getD, List.getElem?_eq_getElem listed, Option.getD_some]
  have room : roomOf lengths trim kind = lengths[kind] - 2 * trim := by
    rw [roomOf, List.getD_eq_getElem?_getD, List.getElem?_map, List.getElem?_eq_getElem listed]
    rfl
  obtain ⟨long, most, onGrid⟩ := grid.lengths _ (List.getElem_mem listed)
  obtain ⟨least, trimGrid⟩ := grid.trim
  refine ⟨?_, ?_, cost ▸ most, ?_⟩
  · rw [room, two_mul]
    exact onGrid.sub (trimGrid.add trimGrid)
  · rw [room, cost]
    linarith
  · rw [cost]
    linarith

/-- Two open bars that the search takes for alike are. -/
theorem alike (grid : GridStock lengths kerf trim) {bar other : OpenBar}
    (first : bar.OnGrid lengths trim) (second : other.OnGrid lengths trim)
    (same : (bar.length, key bar.taken) = (other.length, key other.taken)) :
    (bar.length, bar.taken) = (other.length, other.taken) := by
  obtain ⟨lengths_, keys⟩ := Prod.mk.inj same
  obtain ⟨_, fits, most, _⟩ := grid.room first.listed
  obtain ⟨_, fits', most', _⟩ := grid.room second.listed
  rw [lengths_, key_inj first.taken.2 second.taken.2 first.taken.1 second.taken.1
    (first.within.trans (fits.trans most)) (second.within.trans (fits'.trans most')) keys]

/-- A bar that takes one more piece. -/
theorem longer (grid : GridStock lengths kerf trim) {bar : OpenBar} {size : ℚ} {index : Nat}
    (onGrid : bar.OnGrid lengths trim) (piece : 0 ≤ size ∧ Cutting.OnGrid size)
    (fits : bar.taken + kerf + size ≤ roomOf lengths trim bar.length + eps) :
    OpenBar.OnGrid lengths trim ⟨bar.pieces ++ [index], bar.length, bar.taken + kerf + size⟩ := by
  obtain ⟨kerfLeast, kerfGrid⟩ := grid.kerf
  have needs := (onGrid.taken.2.add kerfGrid).add piece.2
  exact ⟨onGrid.listed, ⟨add_nonneg (add_nonneg onGrid.taken.1 kerfLeast) piece.1, needs⟩,
    needs.le_of_le_eps (grid.room onGrid.listed).1 fits⟩

/-- A new bar with its first piece. -/
theorem opened (grid : GridStock lengths kerf trim) {kind : Nat} {size : ℚ} {index : Nat}
    (listed : kind < lengths.length) (piece : 0 ≤ size ∧ Cutting.OnGrid size)
    (fits : size ≤ roomOf lengths trim kind + eps) : OpenBar.OnGrid lengths trim ⟨[index], kind, size⟩ :=
  ⟨listed, piece, piece.2.le_of_le_eps (grid.room listed).1 fits⟩

end GridStock

section Branches

variable (next : List OpenBar → ℚ → Found → Found) (index : Nat) {later : List ℚ} {bars : List OpenBar}
  {size : ℚ}

theorem states_set (bars : List OpenBar) (position : Nat) (bar : OpenBar) :
    states (bars.set position bar) = (states bars).set position (bar.length, bar.taken) :=
  List.map_set

/-- **Every bar that is open is tried**, or one like it. -/
theorem onBars_cover (grid : GridStock lengths kerf trim)
    (advances : ∀ bars total (found : Found), found.Advances (next bars total found))
    (covers : ∀ bars total found, (∀ bar ∈ bars, bar.OnGrid lengths trim) →
      (next bars total found).Covers lengths kerf trim later (states bars) total)
    (piece : 0 ≤ size ∧ OnGrid size) (opened : ∀ bar ∈ bars, bar.OnGrid lengths trim) (total : ℚ)
    (found : Found) :
    let onBars := bars.zipIdx.foldl (fun (so : Found × List (Nat × ℤ)) bar =>
      let needs := bar.1.taken + kerf + size
      let state := (bar.1.length, key bar.1.taken)
      if (lengths.map (usable trim)).getD bar.1.length 0 + eps < needs ∨ state ∈ so.2 then so
      else
        let longer : OpenBar := ⟨bar.1.pieces ++ [index], bar.1.length, needs⟩
        (next (bars.set bar.2 longer) total so.1, so.2 ++ [state])) (found, [])
    found.Advances onBars.1 ∧ ∀ bar position, bars[position]? = some bar →
      bar.taken + kerf + size ≤ roomOf lengths trim bar.length + eps →
      onBars.1.Covers lengths kerf trim later
        ((states bars).set position (bar.length, bar.taken + kerf + size)) total := by
  intro onBars
  -- a bar is done when its branch is covered, and so is every bar like one that was tried
  let covered (so : Found) (bar : OpenBar) (position : Nat) : Prop :=
    so.Covers lengths kerf trim later
      ((states bars).set position (bar.length, bar.taken + kerf + size)) total
  let inv (so : Found × List (Nat × ℤ)) : Prop := found.Advances so.1 ∧
    ∀ bar position, bars[position]? = some bar → (bar.length, key bar.taken) ∈ so.2 →
      covered so.1 bar position
  let done (bar : OpenBar × Nat) (so : Found × List (Nat × ℤ)) : Prop :=
    bar.1.taken + kerf + size ≤ roomOf lengths trim bar.1.length + eps → covered so.1 bar.1 bar.2
  have each : inv onBars ∧ ∀ bar ∈ bars.zipIdx, done bar onBars := by
    refine foldl_each inv done ⟨.refl found, fun _ _ _ member => absurd member List.not_mem_nil⟩ ?_ ?_
    · rintro so ⟨bar, position⟩ member ⟨far, tried⟩
      have there : bars[position]? = some bar := List.mem_zipIdx_iff_getElem?.mp member
      have sound := opened bar (List.mem_of_getElem? there)
      dsimp only
      split
      case isTrue skipped =>
        refine ⟨⟨far, tried⟩, fun fits => ?_⟩
        rcases skipped with full | again
        · exact absurd fits (not_le.mpr full)
        · exact tried bar position there again
      case isFalse open_ =>
        have fits : bar.taken + kerf + size ≤ roomOf lengths trim bar.length + eps :=
          not_lt.mp fun full => open_ (.inl full)
        have further := advances (bars.set position
          ⟨bar.pieces ++ [index], bar.length, bar.taken + kerf + size⟩) total so.1
        have here : covered (next (bars.set position
            ⟨bar.pieces ++ [index], bar.length, bar.taken + kerf + size⟩) total so.1) bar position := by
          have all := covers (bars.set position
            ⟨bar.pieces ++ [index], bar.length, bar.taken + kerf + size⟩) total so.1 fun other member => by
              rcases List.mem_or_eq_of_mem_set member with old | rfl
              · exact opened other old
              · exact grid.longer sound piece fits
          rw [states_set] at all
          exact all
        refine ⟨⟨far.trans further, fun other place_ isOther member => ?_⟩, fun _ => here⟩
        rcases List.mem_append.mp member with old | new
        · exact (tried other place_ isOther old).later further
        · have same := grid.alike (opened other (List.mem_of_getElem? isOther)) sound
            (List.mem_singleton.mp new)
          obtain ⟨isLength, isTaken⟩ := Prod.mk.inj same
          have one : (states bars)[position]? = some (bar.length, bar.taken) := by
            rw [states, List.getElem?_map, there]
            rfl
          have two : (states bars)[place_]? = some (bar.length, bar.taken) := by
            rw [states, List.getElem?_map, isOther]
            exact congrArg some same
          show Found.Covers _ _ _ _ _ _ _
          rw [isLength, isTaken]
          exact here.perm (set_perm_set one two)
    · rintro so ⟨bar, position⟩ member ⟨far, tried⟩ other isDone
      dsimp only
      split
      case isTrue => exact isDone
      case isFalse => exact fun fits => (isDone fits).later (advances _ _ _)
  exact ⟨each.1.1, fun bar position there =>
    each.2 (bar, position) (List.mem_zipIdx_iff_getElem?.mpr there)⟩

/-- Every length that takes the piece is tried for a new bar. -/
theorem newBars_cover (grid : GridStock lengths kerf trim)
    (advances : ∀ bars total (found : Found), found.Advances (next bars total found))
    (covers : ∀ bars total found, (∀ bar ∈ bars, bar.OnGrid lengths trim) →
      (next bars total found).Covers lengths kerf trim later (states bars) total)
    (piece : 0 ≤ size ∧ OnGrid size) (opened : ∀ bar ∈ bars, bar.OnGrid lengths trim) (total : ℚ)
    (found : Found) :
    let onNew := lengths.zipIdx.foldl (fun so length =>
      if size ≤ (lengths.map (usable trim)).getD length.2 0 + eps then
        next (bars ++ [⟨[index], length.2, size⟩]) (total + length.1) so
      else so) found
    found.Advances onNew ∧ ∀ kind < lengths.length, size ≤ roomOf lengths trim kind →
      onNew.Covers lengths kerf trim later (states bars ++ [(kind, size)])
        (total + costOf lengths kind) := by
  intro onNew
  let done (length : ℚ × Nat) (so : Found) : Prop := size ≤ roomOf lengths trim length.2 →
    so.Covers lengths kerf trim later (states bars ++ [(length.2, size)]) (total + length.1)
  have each : found.Advances onNew ∧ ∀ length ∈ lengths.zipIdx, done length onNew := by
    refine foldl_each found.Advances done (.refl found) ?_ ?_
    · rintro so ⟨length, kind⟩ member far
      have listed := (List.getElem?_eq_some_iff.mp (List.mem_zipIdx_iff_getElem?.mp member)).1
      dsimp only
      split
      case isTrue fits =>
        refine ⟨far.trans (advances _ _ _), fun _ => ?_⟩
        have all := covers (bars ++ [⟨[index], kind, size⟩]) (total + length) so fun other member => by
          rcases List.mem_append.mp member with old | new
          · exact opened other old
          · obtain rfl := List.mem_singleton.mp new
            exact grid.opened listed piece fits
        rw [states, List.map_append] at all
        exact all
      case isFalse short =>
        have positive := eps_pos
        exact ⟨far, fun fits => absurd (fits.trans (le_add_of_nonneg_right positive.le)) short⟩
    · rintro so ⟨length, kind⟩ member far other isDone
      dsimp only
      split
      case isTrue => exact fun fits => (isDone fits).later (advances _ _ _)
      case isFalse => exact isDone
  refine ⟨each.1, fun kind listed fits => ?_⟩
  have cost : costOf lengths kind = lengths[kind] := by
    rw [costOf, List.getD_eq_getElem?_getD, List.getElem?_eq_getElem listed, Option.getD_some]
  rw [cost]
  exact each.2 (lengths[kind], kind)
    (List.mem_zipIdx_iff_getElem?.mpr (List.getElem?_eq_getElem listed)) fits

end Branches

/-- **The search leaves out nothing that would be better.** -/
theorem place_exact (grid : GridStock lengths kerf trim) {remaining : List ℚ} {index : Nat}
    {bars : List OpenBar} {total : ℚ} {found : Found}
    (pieces : ∀ size ∈ remaining, 0 ≤ size ∧ OnGrid size)
    (opened : ∀ bar ∈ bars, bar.OnGrid lengths trim) :
    (place lengths (lengths.map (usable trim)) kerf remaining index bars total found).Covers lengths kerf
      trim remaining (states bars) total := by
  induction remaining generalizing index bars total found with
  | nil =>
    intro finished added completes
    have none_ : added = 0 := by
      cases completes
      rfl
    unfold place at finished ⊢
    dsimp only at finished ⊢
    split at finished
    case isTrue over_ => exact absurd finished (Nat.not_le.mpr over_)
    case isFalse steps =>
      rw [if_neg steps]
      have positive := eps_pos
      split
      · show total ≤ total + added + eps
        linarith
      · next best =>
        show found.bestTotal ≤ total + added + eps
        linarith
  | cons size later ih =>
    obtain ⟨piece, pieces⟩ := List.forall_mem_cons.mp pieces
    intro finished added completes
    have positive := eps_pos
    unfold place at finished ⊢
    dsimp only at finished ⊢
    split at finished
    case isTrue over_ => exact absurd finished (Nat.not_le.mpr over_)
    case isFalse steps =>
      rw [if_neg steps]
      split at finished
      case isTrue cut =>
        -- what does not fit in the open bars needs as much new stock
        rw [if_pos cut]
        have least := completes.nonneg fun kind listed => (grid.room listed).2.2.2
        have lower := completes.lower grid.kerf.1 (fun kind listed => (grid.room listed).2.1)
          fun bin member => by
            obtain ⟨bar, inside, rfl⟩ := List.mem_map.mp member
            exact (opened bar inside).within
        rw [states, List.map_map] at lower
        have most : max ((size :: later).sum -
            (bars.map fun bar => (lengths.map (usable trim)).getD bar.length 0 - bar.taken).sum) 0 ≤
              added := max_le (sub_le_iff_le_add'.mpr lower) least
        show found.bestTotal ≤ total + added + eps
        linarith
      case isFalse uncut =>
        rw [if_neg uncut]
        have advances (bars : List OpenBar) (total : ℚ) (found : Found) : found.Advances
            (place lengths (lengths.map (usable trim)) kerf later (index + 1) bars total found) :=
          place_advances ..
        have covers (bars : List OpenBar) (total : ℚ) (found : Found)
            (opened : ∀ bar ∈ bars, bar.OnGrid lengths trim) :
            (place lengths (lengths.map (usable trim)) kerf later (index + 1) bars total found).Covers
              lengths kerf trim later (states bars) total := ih pieces opened
        obtain ⟨_, onOpen⟩ := onBars_cover (place lengths (lengths.map (usable trim)) kerf later (index + 1))
          index grid advances covers piece opened total { found with steps := found.steps + 1 }
        have onNew := newBars_cover (place lengths (lengths.map (usable trim)) kerf later (index + 1)) index
          grid advances covers piece opened total
        generalize isStates : states bars = bins at completes
        cases completes with
        | @onBin _ taken _ _ before after kind fits rest =>
          have place_ : (states bars)[before.length]? = some (kind, taken) := by
            rw [isStates, List.getElem?_append_right (Nat.le_refl _), Nat.sub_self]
            rfl
          rw [states, List.getElem?_map, Option.map_eq_some_iff] at place_
          obtain ⟨bar, there, is⟩ := place_
          obtain ⟨rfl, rfl⟩ := Prod.mk.inj is
          have all := (onOpen bar before.length there
            (fits.trans (le_add_of_nonneg_right positive.le)))
          rw [isStates, List.set_append_right _ _ (Nat.le_refl _), Nat.sub_self] at all
          exact all.later (onNew _).1 finished added rest
        | @newBin _ more _ _ kind listed fits rest =>
          rw [← isStates] at rest
          rw [← add_assoc total]
          exact (onNew _).2 kind listed fits finished more rest

/-! ### The whole search -/

theorem sizeOf_onGrid (pieces : ∀ size ∈ sizes, 0 ≤ size ∧ OnGrid size) (index : Nat) :
    0 ≤ sizeOf sizes index ∧ OnGrid (sizeOf sizes index) := by
  rw [sizeOf, List.getD_eq_getElem?_getD]
  rcases is : sizes[index]? with _ | size
  · exact ⟨le_refl 0, .zero⟩
  · exact pieces size (List.mem_of_getElem? is)

theorem loadOf_onGrid (kerfGrid : OnGrid kerf) (pieces : ∀ size ∈ sizes, 0 ≤ size ∧ OnGrid size)
    (cut : List Nat) : OnGrid (loadOf sizes kerf cut) := by
  cases cut with
  | nil => exact OnGrid.zero
  | cons first rest =>
    refine (sizeOf_onGrid pieces first).2.add (OnGrid.sum fun value member => ?_)
    obtain ⟨_, inside, rfl⟩ := List.mem_map.mp member
    obtain ⟨index, _, rfl⟩ := List.mem_map.mp inside
    exact kerfGrid.add (sizeOf_onGrid pieces index).2

/-- Every number of a piece gives its size. -/
theorem map_sizeOf_range (sizes : List ℚ) : (List.range sizes.length).map (sizeOf sizes) = sizes := by
  refine List.ext_getElem (by simp) fun index inside _ => ?_
  rw [List.length_map, List.length_range] at inside
  simp [sizeOf, List.getD_eq_getElem?_getD, inside]

/-- Packed bars are a packing of the sizes in bars of the kinds there are. -/
theorem Packed.isPacking (grid : GridStock lengths kerf trim)
    (pieces : ∀ size ∈ sizes, 0 ≤ size ∧ OnGrid size) {bars : List (List Nat × ℚ)}
    (packed : Packed sizes lengths (usable trim) kerf bars) :
    IsPacking {kind | kind < lengths.length} (roomOf lengths trim) kerf sizes
        (bars.map fun bar => (lengths.idxOf bar.2, bar.1.map (sizeOf sizes))) ∧
      ((bars.map fun bar => (lengths.idxOf bar.2, bar.1.map (sizeOf sizes))).map fun bin =>
        costOf lengths bin.1).sum = stockTotal bars := by
  have listed (bar : List Nat × ℚ) (member : bar ∈ bars) :
      lengths[lengths.idxOf bar.2]? = some bar.2 :=
    List.getElem?_idxOf (packed.offered bar member)
  refine ⟨⟨?_, ?_, ?_⟩, ?_⟩
  · rw [List.flatMap_map, ← List.map_flatMap]
    have all := packed.holds.map (sizeOf sizes)
    rwa [map_sizeOf_range] at all
  · intro bin member
    obtain ⟨bar, inside, rfl⟩ := List.mem_map.mp member
    exact (List.getElem?_eq_some_iff.mp (listed bar inside)).1
  · intro bin member
    obtain ⟨bar, inside, rfl⟩ := List.mem_map.mp member
    have kind := (List.getElem?_eq_some_iff.mp (listed bar inside)).1
    have room : roomOf lengths trim (lengths.idxOf bar.2) = usable trim bar.2 := by
      rw [roomOf, List.getD_eq_getElem?_getD, List.getElem?_map, listed bar inside]
      rfl
    refine OnGrid.le_of_le_eps (loadOf_onGrid grid.kerf.2 pieces bar.1) (grid.room kind).1 ?_
    rw [room]
    exact packed.fits bar inside
  · rw [List.map_map, stockTotal]
    congr 1
    refine List.map_congr_left fun bar member => ?_
    rw [Function.comp_apply, costOf, List.getD_eq_getElem?_getD, listed bar member, Option.getD_some]

theorem Packed.onGrid (grid : GridStock lengths kerf trim) {bars : List (List Nat × ℚ)}
    (packed : Packed sizes lengths (usable trim) kerf bars) : OnGrid (stockTotal bars) := by
  refine OnGrid.sum fun value member => ?_
  obtain ⟨bar, inside, rfl⟩ := List.mem_map.mp member
  exact (grid.lengths _ (packed.offered bar inside)).2.2

/-- What the search finds of all pieces. -/
def searched (sizes lengths : List ℚ) (usable : ℚ → ℚ) (kerf bound : ℚ) : Found :=
  place lengths (lengths.map usable) kerf sizes 0 [] 0 ⟨none, bound, 0⟩

/-- `least_stock` ends without reaching the bound on its steps. -/
def EndsInSteps (sizes lengths : List ℚ) (usable : ℚ → ℚ) (kerf bound : ℚ) : Prop :=
  sizes = [] ∨ searchedPieces < sizes.length ∨ (searched sizes lengths usable kerf bound).steps ≤ searchSteps

/-- **The search is exact when it finishes**, for as many pieces as it searches. -/
theorem leastStock_exact (grid : GridStock lengths kerf trim)
    (pieces : ∀ size ∈ sizes, 0 ≤ size ∧ OnGrid size) {plan : List (List Nat × ℚ)}
    (given : Packed sizes lengths (usable trim) kerf plan) (some_ : sizes ≠ [])
    (few : sizes.length ≤ searchedPieces)
    (ends : EndsInSteps sizes lengths (usable trim) kerf (stockTotal plan)) :
    (∀ bars, leastStock sizes lengths (usable trim) kerf (stockTotal plan) = some bars →
      Packed sizes lengths (usable trim) kerf bars ∧
        ∀ other, Packed sizes lengths (usable trim) kerf other → stockTotal bars ≤ stockTotal other) ∧
    (leastStock sizes lengths (usable trim) kerf (stockTotal plan) = none →
      ∀ other, Packed sizes lengths (usable trim) kerf other → stockTotal plan ≤ stockTotal other) := by
  have finished := (ends.resolve_left some_).resolve_left (Nat.not_lt.mpr few)
  have is : leastStock sizes lengths (usable trim) kerf (stockTotal plan) =
      (searched sizes lengths (usable trim) kerf (stockTotal plan)).best :=
    if_neg fun either => either.elim some_ (Nat.not_lt.mpr few)
  have sound := found_sound sizes lengths (usable trim) kerf (stockTotal plan)
  have covers : ∀ other, Packed sizes lengths (usable trim) kerf other →
      (searched sizes lengths (usable trim) kerf (stockTotal plan)).bestTotal ≤ stockTotal other + eps := by
    intro other packed
    obtain ⟨packing, total⟩ := packed.isPacking grid pieces
    have completed : ∃ added ≤ _, CompletedAt lengths kerf trim sizes [] added :=
      completes_of_packing grid.kerf.1 (fun size member => (pieces size member).1)
        (fun kind listed => (grid.room listed).2.2.2) packing
    obtain ⟨added, least, completes⟩ := completed
    have exact_ := place_exact grid pieces (fun bar member => absurd member List.not_mem_nil) finished
      added completes
    rw [total] at least
    rw [searched]
    linarith
  rw [is]
  constructor
  · intro bars found
    obtain ⟨packed, total, _⟩ := sound.packed bars found
    refine ⟨packed, fun other isPacked => ?_⟩
    refine (packed.onGrid grid).le_of_le_eps (isPacked.onGrid grid) ?_
    rw [total]
    exact covers other isPacked
  · intro none_ other isPacked
    refine (given.onGrid grid).le_of_le_eps (isPacked.onGrid grid) ?_
    rw [← sound.none_ none_]
    exact covers other isPacked

/-- Two rails of 1500 mm and three of 1000 mm. -/
def fewRails : List ℚ := [1500, 1500, 1000, 1000, 1000]

/-- The same, after as many of 3000 mm as one plan with more than is searched has. -/
def manyRails : List ℚ := List.replicate 44 3000 ++ fewRails

def railLengths : List ℚ := [3000, 5000]

/-- The rails on bars that are filled one by one. -/
def railPlan (rails : List ℚ) : List (List Nat × ℚ) :=
  greedyBars rails 0 0 railLengths 5000 rails.length (List.range rails.length)

theorem railLengths_grid : GridStock railLengths 0 0 := by
  refine ⟨?_, ⟨le_refl 0, .zero⟩, le_refl 0, .zero⟩
  simp only [railLengths, List.forall_mem_cons, maxCoordinateMm]
  exact ⟨⟨by norm_num, by norm_num, 3000000, by norm_num⟩, ⟨by norm_num, by norm_num, 5000000, by norm_num⟩,
    fun _ member => absurd member List.not_mem_nil⟩

theorem mem_manyRails {size : ℚ} (member : size ∈ manyRails) : size = 3000 ∨ size = 1500 ∨ size = 1000 := by
  simp only [manyRails, fewRails, List.mem_append, List.mem_replicate, List.mem_cons, List.not_mem_nil,
    or_false] at member
  rcases member with ⟨_, rfl⟩ | rfl | rfl | rfl | rfl | rfl
  all_goals simp

theorem manyRails_short (size : ℚ) (member : size ∈ manyRails) : size ≤ 5000 := by
  rcases mem_manyRails member with rfl | rfl | rfl
  all_goals norm_num

theorem manyRails_grid : ∀ size ∈ manyRails, 0 ≤ size ∧ OnGrid size := by
  have onGrid (metres : ℚ) (many : ℤ) (is : metres = many / 1000) (least : 0 ≤ metres) :
      0 ≤ metres ∧ OnGrid metres := ⟨least, many, is⟩
  intro size member
  rcases mem_manyRails member with rfl | rfl | rfl
  · exact onGrid 3000 3000000 (by norm_num) (by norm_num)
  · exact onGrid 1500 1500000 (by norm_num) (by norm_num)
  · exact onGrid 1000 1000000 (by norm_num) (by norm_num)

theorem railPlan_packed {rails : List ℚ} (among : ∀ size ∈ rails, size ∈ manyRails) :
    Packed rails railLengths (usable 0) 0 (railPlan rails) := by
  refine greedyBars_packed (by simp [railLengths]) fun size member => ?_
  have positive := eps_pos
  have most := manyRails_short size (among size member)
  linarith

/-- Five pieces: the search ends, and nothing beats what it found. -/
theorem fewRails_exact :
    (∀ bars, leastStock fewRails railLengths (usable 0) 0 (stockTotal (railPlan fewRails)) = some bars →
      Packed fewRails railLengths (usable 0) 0 bars ∧
        ∀ other, Packed fewRails railLengths (usable 0) 0 other → stockTotal bars ≤ stockTotal other) ∧
    (leastStock fewRails railLengths (usable 0) 0 (stockTotal (railPlan fewRails)) = none →
      ∀ other, Packed fewRails railLengths (usable 0) 0 other →
        stockTotal (railPlan fewRails) ≤ stockTotal other) :=
  leastStock_exact railLengths_grid
    (fun size member => manyRails_grid size (List.mem_append_right _ member))
    (railPlan_packed fun _ member => List.mem_append_right _ member) (by decide) (by decide)
    (.inr (.inr (by decide +kernel)))

/-! The rails of 3000 mm are planned one to a bar: a bar of 5000 mm would take one of 1500 mm with it. -/

theorem foldl_fillNext_full {sizes : List ℚ} {kerf room : ℚ} {filled : ℚ × List Nat} {open_ : List Nat}
    (full : ∀ index ∈ open_, room + eps < filled.1 + kerf + sizeOf sizes index) :
    open_.foldl (fillNext sizes kerf room) filled = filled := by
  induction open_ with
  | nil => rfl
  | cons index open_ ih =>
    obtain ⟨here, rest⟩ := List.forall_mem_cons.mp full
    rw [List.foldl_cons, fillNext, if_neg (not_le.mpr here), ih rest]

theorem sizeOf_long {index : Nat} (long : index < 44) : sizeOf manyRails index = 3000 := by
  rw [sizeOf, manyRails, List.getD_eq_getElem?_getD,
    List.getElem?_append_left (by rwa [List.length_replicate]), List.getElem?_replicate_of_lt long,
    Option.getD_some]

theorem sizeOf_few : ((List.range' 44 5).map (sizeOf manyRails)) = fewRails := by decide +kernel

theorem sizeOf_least {index : Nat} (among : index < 49) : 1000 ≤ sizeOf manyRails index := by
  have member : sizeOf manyRails index ∈ manyRails := by
    rw [sizeOf, List.getD_eq_getElem?_getD,
      List.getElem?_eq_getElem (show index < manyRails.length from among), Option.getD_some]
    exact List.getElem_mem _
  rcases mem_manyRails member with is | is | is
  all_goals norm_num [is]

theorem fill_short {first count : Nat} (is : first + count + 1 = 49) (long : first < 44) :
    fill manyRails 0 3000 (first :: List.range' (first + 1) count) = [first] := by
  rw [fill, sizeOf_long long, foldl_fillNext_full]
  intro index member
  have least := sizeOf_least (show index < 49 by have := List.mem_range'_1.mp member; omega)
  norm_num [eps]
  linarith

theorem fill_longer {first count : Nat} (is : first + count + 1 = 44) :
    fill manyRails 0 5000 (first :: List.range' (first + 1) (count + 5)) = [first, 44] := by
  have full : (List.range' (first + 1) count).foldl (fillNext manyRails 0 5000) (3000, [first]) =
      (3000, [first]) := by
    refine foldl_fillNext_full fun index member => ?_
    rw [sizeOf_long (by have := List.mem_range'_1.mp member; omega)]
    norm_num [eps]
  have few := sizeOf_few
  simp only [List.range', List.map_cons, fewRails, List.map_nil, List.cons.injEq, and_true] at few
  obtain ⟨one, two, three, four, five⟩ := few
  rw [← List.range'_append_1, fill, sizeOf_long (by omega), List.foldl_append, full,
    show first + 1 + count = 44 by omega]
  norm_num [List.range', fillNext, one, two, three, four, five, eps]

theorem nextBar_long {first count : Nat} (is : first + count + 1 = 44) :
    nextBar manyRails 0 0 railLengths 5000 first (first :: List.range' (first + 1) (count + 5)) =
      ([first], 3000) := by
  have half : sizeOf manyRails 44 = 1500 := by decide +kernel
  norm_num [nextBar, railLengths, sizeOf_long (show first < 44 by omega), eps,
    fill_short (show first + (count + 5) + 1 = 49 by omega) (by omega), fill_longer is, maxBy, filled, half]

theorem greedyBars_long {first count : Nat} (is : first + count = 44) :
    greedyBars manyRails 0 0 railLengths 5000 (count + 5) (List.range' first (count + 5)) =
      (List.range' first count).map (fun index => ([index], 3000)) ++
        greedyBars manyRails 0 0 railLengths 5000 5 [44, 45, 46, 47, 48] := by
  induction count generalizing first with
  | zero =>
    obtain rfl : first = 44 := is
    rfl
  | succ count ih =>
    have kept : (first :: List.range' (first + 1) (count + 5)).filter (fun index => index ∉ [first]) =
        List.range' (first + 1) (count + 5) := by
      rw [List.filter_cons_of_neg (by simp), List.filter_eq_self]
      intro index member
      have := List.mem_range'_1.mp member
      simp
      omega
    rw [show count + 1 + 5 = (count + 5) + 1 by omega, List.range'_succ, greedyBars, nextBar_long is, kept,
      ih (by omega), List.range'_succ, List.map_cons, List.cons_append]

theorem railPlan_many : stockTotal (railPlan manyRails) = 44 * 3000 + 8000 := by
  have last : stockTotal (greedyBars manyRails 0 0 railLengths 5000 5 [44, 45, 46, 47, 48]) = 8000 := by
    decide +kernel
  have plan := greedyBars_long (show 0 + 44 = 44 from rfl)
  rw [stockTotal] at last
  rw [railPlan, show manyRails.length = 44 + 5 from rfl, List.range_eq_range', plan, stockTotal, List.map_append,
    List.sum_append, last, List.map_map]
  norm_num [Function.comp_def]

/-- Forty-nine pieces are not searched, and their plan is not the least stock. -/
theorem manyRails_not_searched :
    EndsInSteps manyRails railLengths (usable 0) 0 (stockTotal (railPlan manyRails)) ∧
      leastStock manyRails railLengths (usable 0) 0 (stockTotal (railPlan manyRails)) = none ∧
      GridStock railLengths 0 0 ∧ (∀ size ∈ manyRails, 0 ≤ size ∧ OnGrid size) ∧
      Packed manyRails railLengths (usable 0) 0 (railPlan manyRails) ∧
      ∃ other, Packed manyRails railLengths (usable 0) 0 other ∧
        stockTotal other < stockTotal (railPlan manyRails) := by
  refine ⟨.inr (.inl (by decide)), if_pos (.inr (by decide)), railLengths_grid, manyRails_grid,
    railPlan_packed fun _ => id, (List.range 44).map (fun index => ([index], 3000)) ++
      [([44, 45], 3000), ([46, 47, 48], 3000)], ⟨?_, ?_, ?_⟩, ?_⟩
  · decide +kernel
  · decide +kernel
  · decide +kernel
  · rw [railPlan_many, stockTotal, List.map_append, List.map_map]
    norm_num [Function.comp_def]

-- The five rails left over: a bar of 5000 mm for four of them, and one of 3000 mm.
example : stockTotal (railPlan fewRails) = 8000 := by decide +kernel

end Ketchup.Cutting
