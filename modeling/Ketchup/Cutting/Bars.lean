/-
**Bars hold each piece once, within their length.**

`Packed` says what a plan of bars is: each piece is on one bar, and each bar is an offered length that its
pieces, with a kerf between each two neighbours, do not exceed. The bars that are filled one after the
other are packed (`greedyBars_packed`), and so is what the search finds, at less stock than it is to beat
(`leastStock_packed`). `place_keeps` is the rule of the search: what its steps keep, its result has.
Laid out, a bar has its pieces in turn from the trim on, a kerf between two (`layBars_eq`).
-/

import Ketchup.Cutting.Lengths
import Ketchup.Library.Packing

namespace Ketchup.Cutting

/-- The pieces that bars hold. -/
def held (bars : List (List Nat × ℚ)) : List Nat := bars.flatMap Prod.fst

/-- The stock that bars take. -/
def stockTotal (bars : List (List Nat × ℚ)) : ℚ := (bars.map Prod.snd).sum

/-- What pieces take of a bar. -/
def loadOf (sizes : List ℚ) (kerf : ℚ) (cut : List Nat) : ℚ := load kerf (cut.map (sizeOf sizes))

/-- Bars of the offered lengths that hold every piece once, within their usable length. -/
structure Packed (sizes lengths : List ℚ) (usable : ℚ → ℚ) (kerf : ℚ) (bars : List (List Nat × ℚ)) :
    Prop where
  holds : (held bars).Perm (List.range sizes.length)
  offered : ∀ bar ∈ bars, bar.2 ∈ lengths
  fits : ∀ bar ∈ bars, loadOf sizes kerf bar.1 ≤ usable bar.2 + eps

variable {sizes lengths : List ℚ} {kerf : ℚ}

theorem loadOf_append {cut : List Nat} (some_ : cut ≠ []) (index : Nat) :
    loadOf sizes kerf (cut ++ [index]) = loadOf sizes kerf cut + kerf + sizeOf sizes index := by
  rw [loadOf, List.map_append, List.map_singleton, load_append kerf (by simpa using some_)]
  rfl

theorem loadOf_single (index : Nat) : loadOf sizes kerf [index] = sizeOf sizes index := by
  simp [loadOf, load]

/-! ### Bars filled one after the other -/

section Greedy

theorem perm_sublist_filter {taken list : List Nat} (sublist : taken.Sublist list)
    (distinct : list.Nodup) : (taken ++ list.filter fun index => index ∉ taken).Perm list := by
  have same : taken.Perm (list.filter fun index => index ∈ taken) := by
    refine (List.perm_ext_iff_of_nodup (sublist.nodup distinct) (distinct.filter _)).mpr fun index => ?_
    rw [List.mem_filter, decide_eq_true_eq]
    exact ⟨fun member => ⟨sublist.subset member, member⟩, And.right⟩
  refine (same.append_right _).trans ?_
  have parted := List.filter_append_perm (fun index => decide (index ∈ taken)) list
  simpa only [decide_not] using parted

theorem fillNext_takes {room : ℚ} (rest : List Nat) (so : ℚ × List Nat) :
    ∃ taken, taken.Sublist rest ∧
      (rest.foldl (fillNext sizes kerf room) so).2 = so.2 ++ taken := by
  induction rest generalizing so with
  | nil => exact ⟨[], List.Sublist.slnil, (List.append_nil _).symm⟩
  | cons index rest ih =>
    obtain ⟨taken, sublist, same⟩ := ih (fillNext sizes kerf room so index)
    rw [List.foldl_cons, same]
    unfold fillNext
    dsimp only
    split
    · exact ⟨index :: taken, sublist.cons_cons index, by rw [List.append_assoc]; rfl⟩
    · exact ⟨taken, sublist.cons index, rfl⟩

/-- What is filled so far is what the pieces take, and within the room. -/
structure Filling (sizes : List ℚ) (kerf room : ℚ) (so : ℚ × List Nat) : Prop where
  some_ : so.2 ≠ []
  taken : so.1 = loadOf sizes kerf so.2
  within : so.1 ≤ room + eps

theorem Filling.next {room : ℚ} {so : ℚ × List Nat} (filling : Filling sizes kerf room so) (index : Nat) :
    Filling sizes kerf room (fillNext sizes kerf room so index) := by
  unfold fillNext
  dsimp only
  split
  case isTrue fits =>
    refine ⟨by simp, ?_, fits⟩
    rw [loadOf_append filling.some_, ← filling.taken]
  case isFalse => exact filling

theorem fill_fits {room : ℚ} {first : Nat} {rest : List Nat} (fits : sizeOf sizes first ≤ room + eps) :
    loadOf sizes kerf (fill sizes kerf room (first :: rest)) ≤ room + eps := by
  have start : Filling sizes kerf room (sizeOf sizes first, [first]) :=
    ⟨by simp, (loadOf_single first).symm, fits⟩
  have filled : Filling sizes kerf room
      (rest.foldl (fillNext sizes kerf room) (sizeOf sizes first, [first])) :=
    List.foldlRecOn (motive := Filling sizes kerf room) _ _ start
      fun so filling index _ => filling.next index
  show loadOf sizes kerf (rest.foldl (fillNext sizes kerf room) (sizeOf sizes first, [first])).2 ≤ _
  rw [← filled.taken]
  exact filled.within

/-- A bar takes the first piece left, and some of the others. -/
theorem nextBar_takes (trim longest : ℚ) (lengths : List ℚ) (first : Nat) (rest : List Nat) :
    ∃ taken, taken.Sublist rest ∧
      (nextBar sizes kerf trim lengths longest first (first :: rest)).1 = first :: taken := by
  unfold nextBar
  dsimp only
  cases is : maxBy _ _ with
  | none => exact ⟨[], List.nil_sublist _, rfl⟩
  | some bar =>
    obtain ⟨length, _, rfl⟩ := List.mem_map.mp (maxBy_mem is)
    exact fillNext_takes rest _

/-- A bar is of a length that is offered, and its pieces are within it. -/
theorem nextBar_fits {trim longest : ℚ} {first : Nat} {rest : List Nat} (listed : longest ∈ lengths)
    (fits : sizeOf sizes first ≤ longest - 2 * trim + eps) :
    let bar := nextBar sizes kerf trim lengths longest first (first :: rest)
    bar.2 ∈ lengths ∧ loadOf sizes kerf bar.1 ≤ bar.2 - 2 * trim + eps := by
  unfold nextBar
  dsimp only
  cases is : maxBy _ _ with
  | none =>
    have none_ := List.map_eq_nil_iff.mp (maxBy_none.mp is)
    have member : longest ∈ lengths.filter fun length =>
        decide (sizeOf sizes first ≤ length - 2 * trim + eps) :=
      List.mem_filter.mpr ⟨listed, decide_eq_true fits⟩
    rw [none_] at member
    cases member
  | some bar =>
    obtain ⟨length, member, rfl⟩ := List.mem_map.mp (maxBy_mem is)
    obtain ⟨offered, long⟩ := List.mem_filter.mp member
    exact ⟨offered, fill_fits (of_decide_eq_true long)⟩

/-- The bars filled one by one hold every piece once. -/
theorem held_greedyBars {trim longest : ℚ} {lengths : List ℚ} {fuel : Nat} {open_ : List Nat}
    (enough : open_.length ≤ fuel)
    (distinct : open_.Nodup) :
    (held (greedyBars sizes kerf trim lengths longest fuel open_)).Perm open_ := by
  induction fuel generalizing open_ with
  | zero =>
    rw [List.eq_nil_of_length_eq_zero (Nat.le_zero.mp enough)]
    exact List.Perm.nil
  | succ fuel ih =>
    cases open_ with
    | nil => exact List.Perm.nil
    | cons first rest =>
      have takes : ∃ taken, taken.Sublist rest ∧
          (nextBar sizes kerf trim lengths longest first (first :: rest)).1 = first :: taken :=
        nextBar_takes trim longest lengths first rest
      obtain ⟨taken, sublist, is⟩ := takes
      have whole := perm_sublist_filter (sublist.cons_cons first) distinct
      have fewer : ((first :: rest).filter fun index => index ∉ first :: taken).length ≤ fuel := by
        have count := whole.length_eq
        rw [List.length_append, List.length_cons] at count
        rw [List.length_cons] at enough count
        omega
      have later := ih fewer (distinct.filter _)
      unfold greedyBars held
      rw [List.flatMap_cons, is]
      exact (later.append_left _).trans whole

theorem greedyBars_fits {trim longest : ℚ} {fuel : Nat} {open_ : List Nat} (listed : longest ∈ lengths)
    (fits : ∀ index ∈ open_, sizeOf sizes index ≤ longest - 2 * trim + eps) :
    ∀ bar ∈ greedyBars sizes kerf trim lengths longest fuel open_,
      bar.2 ∈ lengths ∧ loadOf sizes kerf bar.1 ≤ bar.2 - 2 * trim + eps := by
  induction fuel generalizing open_ with
  | zero => exact fun bar member => absurd member List.not_mem_nil
  | succ fuel ih =>
    cases open_ with
    | nil => exact fun bar member => absurd member List.not_mem_nil
    | cons first rest =>
      unfold greedyBars
      refine List.forall_mem_cons.mpr ⟨nextBar_fits listed (fits first (List.mem_cons_self ..)), ?_⟩
      exact ih fun index member => fits index (List.mem_filter.mp member).1

/-- **Bars filled one after the other are packed**, where no piece is too long. -/
theorem greedyBars_packed {trim longest : ℚ} (listed : longest ∈ lengths)
    (fits : ∀ size ∈ sizes, size ≤ longest - 2 * trim + eps) :
    Packed sizes lengths (fun length => length - 2 * trim) kerf
      (greedyBars sizes kerf trim lengths longest sizes.length (List.range sizes.length)) := by
  have all_fit : ∀ index ∈ List.range sizes.length,
      sizeOf sizes index ≤ longest - 2 * trim + eps := fun index member => by
    have inside := List.mem_range.mp member
    rw [sizeOf, List.getD_eq_getElem?_getD, List.getElem?_eq_getElem inside, Option.getD_some]
    exact fits _ (List.getElem_mem inside)
  have each : ∀ bar ∈ greedyBars sizes kerf trim lengths longest sizes.length (List.range sizes.length),
      bar.2 ∈ lengths ∧ loadOf sizes kerf bar.1 ≤ bar.2 - 2 * trim + eps := greedyBars_fits listed all_fit
  exact ⟨held_greedyBars List.length_range.le List.nodup_range, fun bar member => (each bar member).1,
    fun bar member => (each bar member).2⟩

end Greedy

/-! ### The search -/

section Search

/-- The pieces that bars in the search hold. -/
def onBars (bars : List OpenBar) : List Nat := bars.flatMap OpenBar.pieces

/-- **What the steps of the search keep, its result has.** -/
theorem place_keeps {room : List ℚ} (inv : List ℚ → Nat → List OpenBar → ℚ → Prop)
    (keeps : Found → Prop)
    (counts : ∀ found, keeps found → keeps { found with steps := found.steps + 1 })
    (finds : ∀ index bars total found, inv [] index bars total → keeps found →
      total < found.bestTotal - eps →
      keeps { found with
        best := some (bars.map fun bar => (bar.pieces, lengths.getD bar.length 0))
        bestTotal := total })
    (onBar : ∀ size later index bars total position bar, inv (size :: later) index bars total →
      bars[position]? = some bar → bar.taken + kerf + size ≤ room.getD bar.length 0 + eps →
      inv later (index + 1) (bars.set position
        ⟨bar.pieces ++ [index], bar.length, bar.taken + kerf + size⟩) total)
    (newBar : ∀ size later index bars total kind length, inv (size :: later) index bars total →
      lengths[kind]? = some length → size ≤ room.getD kind 0 + eps →
      inv later (index + 1) (bars ++ [⟨[index], kind, size⟩]) (total + length))
    {remaining : List ℚ} {index : Nat} {bars : List OpenBar} {total : ℚ} {found : Found}
    (holds : inv remaining index bars total) (before : keeps found) :
    keeps (place lengths room kerf remaining index bars total found) := by
  induction remaining generalizing index bars total found with
  | nil =>
    have counted := counts found before
    unfold place
    dsimp only
    split
    · exact counted
    · split
      case isTrue better => exact finds index bars total _ holds counted better
      case isFalse => exact counted
  | cons size later ih =>
    have counted := counts found before
    unfold place
    dsimp only
    split
    · exact counted
    · split
      · exact counted
      · refine List.foldlRecOn (motive := keeps) _ _ ?_ fun so kept length member => ?_
        · refine List.foldlRecOn (motive := fun so : Found × List (Nat × ℤ) => keeps so.1) _ _ counted
            fun so kept bar member => ?_
          have is := List.mem_zipIdx_iff_getElem?.mp member
          split
          case isTrue => exact kept
          case isFalse open_ =>
            have fits := not_lt.mp fun full => open_ (.inl full)
            exact ih (onBar size later index bars total bar.2 bar.1 holds is fits) kept
        · have is := List.mem_zipIdx_iff_getElem?.mp member
          split
          case isTrue fits => exact ih (newBar size later index bars total _ _ holds is fits) kept
          case isFalse => exact kept

theorem onBars_set {bars : List OpenBar} {index position : Nat} {bar longer : OpenBar}
    (found : bars[position]? = some bar) (longer_ : longer.pieces = bar.pieces ++ [index]) :
    (onBars (bars.set position longer)).Perm (onBars bars ++ [index]) :=
  perm_flatMap_set found longer_

theorem range_succ_perm {bars : List OpenBar} {others : List OpenBar} {index : Nat}
    (holds : (onBars bars).Perm (List.range index))
    (more : (onBars others).Perm (onBars bars ++ [index])) :
    (onBars others).Perm (List.range (index + 1)) := by
  rw [List.range_succ]
  exact more.trans (holds.append_right _)

/-- What is known of one bar in the search. -/
structure OpenBar.Sound (sizes lengths room : List ℚ) (kerf : ℚ) (bar : OpenBar) : Prop where
  some_ : bar.pieces ≠ []
  taken : bar.taken = loadOf sizes kerf bar.pieces
  listed : bar.length < lengths.length
  within : bar.taken ≤ room.getD bar.length 0 + eps

/-- What is known of the bars in the search where the pieces from `index` on remain. -/
structure Searching (sizes lengths room : List ℚ) (kerf : ℚ) (remaining : List ℚ) (index : Nat)
    (bars : List OpenBar) (total : ℚ) : Prop where
  remain : sizes.drop index = remaining
  before : index ≤ sizes.length
  holds : (onBars bars).Perm (List.range index)
  each : ∀ bar ∈ bars, bar.Sound sizes lengths room kerf
  cost : total = (bars.map fun bar => lengths.getD bar.length 0).sum

namespace Searching

variable {room later : List ℚ} {size total : ℚ} {index : Nat} {bars : List OpenBar}

theorem next (searching : Searching sizes lengths room kerf (size :: later) index bars total) :
    sizeOf sizes index = size ∧ sizes.drop (index + 1) = later ∧ index + 1 ≤ sizes.length := by
  have first : sizes[index]? = some size := by
    have head := congrArg (·[0]?) searching.remain
    simpa using head
  refine ⟨by rw [sizeOf, List.getD_eq_getElem?_getD, first, Option.getD_some], ?_, ?_⟩
  · rw [← List.drop_drop, searching.remain]
    rfl
  · exact (List.getElem?_eq_some_iff.mp first).1

theorem onBar {position : Nat} {bar : OpenBar}
    (searching : Searching sizes lengths room kerf (size :: later) index bars total)
    (there : bars[position]? = some bar) (fits : bar.taken + kerf + size ≤ room.getD bar.length 0 + eps) :
    Searching sizes lengths room kerf later (index + 1)
      (bars.set position ⟨bar.pieces ++ [index], bar.length, bar.taken + kerf + size⟩) total := by
  obtain ⟨isSize, remain, before⟩ := searching.next
  have sound := searching.each bar (List.mem_of_getElem? there)
  refine ⟨remain, before, range_succ_perm searching.holds (onBars_set there rfl), ?_, ?_⟩
  · intro other member
    rcases List.mem_or_eq_of_mem_set member with old | rfl
    · exact searching.each other old
    · refine ⟨by simp, ?_, sound.listed, fits⟩
      rw [loadOf_append sound.some_, ← sound.taken, isSize]
  · obtain ⟨inside, rfl⟩ := List.getElem?_eq_some_iff.mp there
    have same : (bars.map fun bar => lengths.getD bar.length 0).set position
        (lengths.getD bars[position].length 0) = bars.map fun bar => lengths.getD bar.length 0 := by
      rw [← List.map_set, List.set_getElem_self]
    rw [searching.cost, List.map_set, same]

theorem newBar {kind : Nat} {length : ℚ}
    (searching : Searching sizes lengths room kerf (size :: later) index bars total)
    (listed : lengths[kind]? = some length) (fits : size ≤ room.getD kind 0 + eps) :
    Searching sizes lengths room kerf later (index + 1) (bars ++ [⟨[index], kind, size⟩])
      (total + length) := by
  obtain ⟨isSize, remain, before⟩ := searching.next
  refine ⟨remain, before, range_succ_perm searching.holds ?_, ?_, ?_⟩
  · unfold onBars
    rw [List.flatMap_append]
    exact List.Perm.refl _
  · intro bar member
    rcases List.mem_append.mp member with old | new
    · exact searching.each bar old
    · obtain rfl := List.mem_singleton.mp new
      exact ⟨by simp, by rw [loadOf_single, isSize], (List.getElem?_eq_some_iff.mp listed).1, fits⟩
  · rw [List.map_append, List.sum_append, searching.cost]
    simp [List.getD_eq_getElem?_getD, listed]

theorem start : Searching sizes lengths room kerf sizes 0 [] 0 :=
  ⟨rfl, Nat.zero_le _, .nil, fun _ member => absurd member List.not_mem_nil, rfl⟩

end Searching

/-- What the search found is packed, and less stock than it was to beat. -/
structure Found.Sound (sizes lengths : List ℚ) (usable : ℚ → ℚ) (kerf bound : ℚ) (found : Found) :
    Prop where
  most : found.bestTotal ≤ bound
  packed : ∀ bars, found.best = some bars → Packed sizes lengths usable kerf bars ∧
    stockTotal bars = found.bestTotal ∧ stockTotal bars < bound
  none_ : found.best = none → found.bestTotal = bound

theorem found_sound (sizes lengths : List ℚ) (usable : ℚ → ℚ) (kerf bound : ℚ) :
    (place lengths (lengths.map usable) kerf sizes 0 [] 0 ⟨none, bound, 0⟩).Sound sizes lengths usable
      kerf bound := by
  refine place_keeps (Searching sizes lengths (lengths.map usable) kerf)
    (Found.Sound sizes lengths usable kerf bound) (fun found sound => ⟨sound.most, sound.packed, sound.none_⟩) ?_
    (fun size later index bars total position bar searching => searching.onBar)
    (fun size later index bars total kind length searching => searching.newBar)
    Searching.start ⟨le_refl _, fun bars is => (nomatch is), fun _ => rfl⟩
  intro index bars total found searching sound better
  have less : total < bound := by
    have most := sound.most
    have positive := eps_pos
    linarith
  have cost : stockTotal (bars.map fun bar => (bar.pieces, lengths.getD bar.length 0)) = total := by
    rw [stockTotal, List.map_map, searching.cost]
    rfl
  refine ⟨less.le, ?_, fun is => (nomatch is)⟩
  intro best is
  obtain rfl := Option.some.inj is
  refine ⟨⟨?_, ?_, ?_⟩, cost, cost.trans_lt less⟩
  · have all : index = sizes.length :=
      Nat.le_antisymm searching.before (List.drop_eq_nil_iff.mp searching.remain)
    have same : held (bars.map fun bar => (bar.pieces, lengths.getD bar.length 0)) = onBars bars := by
      unfold held onBars
      rw [List.flatMap_map]
    rw [same, ← all]
    exact searching.holds
  · intro bar member
    obtain ⟨opened, inside, rfl⟩ := List.mem_map.mp member
    have listed := (searching.each opened inside).listed
    rw [List.getD_eq_getElem?_getD, List.getElem?_eq_getElem listed]
    exact List.getElem_mem listed
  · intro bar member
    obtain ⟨opened, inside, rfl⟩ := List.mem_map.mp member
    have sound := searching.each opened inside
    have within := sound.within
    rw [sound.taken] at within
    simpa [List.getD_eq_getElem?_getD, List.getElem?_eq_getElem sound.listed] using within

/-- **What the search finds is packed**, and takes less stock than it was to beat. -/
theorem leastStock_packed {usable : ℚ → ℚ} {bound : ℚ} {bars : List (List Nat × ℚ)}
    (is : leastStock sizes lengths usable kerf bound = some bars) :
    Packed sizes lengths usable kerf bars ∧ stockTotal bars < bound := by
  unfold leastStock at is
  split at is
  case isTrue => cases is
  case isFalse =>
    obtain ⟨packed, _, less⟩ := (found_sound sizes lengths usable kerf bound).packed bars is
    exact ⟨packed, less⟩

end Search

/-! ### Laying bars -/

/-- Pieces in turn from a place on, a kerf between two. -/
def laidFrom (kerf : ℚ) : ℚ → List Piece → List Placed
  | _, [] => []
  | at_, piece :: rest =>
    ⟨piece.part, [at_], [piece.size 0], false⟩ :: laidFrom kerf (at_ + (piece.size 0 + kerf)) rest

/-- The pieces that are left of some places. -/
def piecesAt (left : List (Option Piece)) (cut : List Nat) : List Piece :=
  cut.filterMap fun index => left[index]?.join

section Laying

variable {left : List (Option Piece)}

theorem piecesAt_none {index : Nat} {cut : List Nat} (is : left[index]?.join = none) :
    piecesAt left (index :: cut) = piecesAt left cut := by
  rw [piecesAt, List.filterMap_cons, is]
  rfl

theorem piecesAt_some {index : Nat} {cut : List Nat} {piece : Piece} (is : left[index]?.join = some piece) :
    piecesAt left (index :: cut) = piece :: piecesAt left cut := by
  rw [piecesAt, List.filterMap_cons, is]
  rfl

theorem piecesAt_held (bars : List (List Nat × ℚ)) :
    piecesAt left (held bars) = bars.flatMap fun bar => piecesAt left bar.1 := by
  simp only [piecesAt, held, List.filterMap_flatMap]

theorem map_laidFrom {A : Type} (view : Placed → A) (viewed : Piece → A)
    (same : ∀ piece at_, view ⟨piece.part, [at_], [piece.size 0], false⟩ = viewed piece) (kerf at_ : ℚ)
    (pieces : List Piece) : (laidFrom kerf at_ pieces).map view = pieces.map viewed := by
  induction pieces generalizing at_ with
  | nil => rfl
  | cons piece rest ih => rw [laidFrom, List.map_cons, same, ih, List.map_cons]

/-- The pieces of a bar are those of its indices, and the others stay. -/
theorem layPieces_eq (kerf : ℚ) (left : List (Option Piece)) (at_ : ℚ) {cut : List Nat}
    (distinct : cut.Nodup) :
    (layPieces kerf left at_ cut).1 = laidFrom kerf at_ (piecesAt left cut) ∧
      ∀ other ∉ cut, (layPieces kerf left at_ cut).2.1[other]?.join = left[other]?.join := by
  induction cut generalizing left at_ with
  | nil => exact ⟨rfl, fun _ _ => rfl⟩
  | cons index cut ih =>
    obtain ⟨apart, distinct⟩ := List.nodup_cons.mp distinct
    unfold layPieces
    cases is : left[index]?.join with
    | none =>
      obtain ⟨pieces, others⟩ := ih left at_ distinct
      rw [piecesAt_none is]
      exact ⟨pieces, fun other absent => others other fun member =>
        absent (List.mem_cons_of_mem _ member)⟩
    | some piece =>
      have kept (other : Nat) (different : index ≠ other) :
          (left.set index none)[other]?.join = left[other]?.join := by
        rw [List.getElem?_set_ne different]
      obtain ⟨pieces, others⟩ := ih (left.set index none) (at_ + (piece.size 0 + kerf)) distinct
      have same : piecesAt (left.set index none) cut = piecesAt left cut :=
        List.filterMap_congr fun other member => kept other fun equal => apart (equal ▸ member)
      rw [piecesAt_some is]
      refine ⟨?_, fun other absent => ?_⟩
      · rw [laidFrom, ← same, ← pieces]
      · obtain ⟨different, absent⟩ := not_or.mp (fun either => absent (List.mem_cons.mpr either))
        exact (others other absent).trans (kept other fun equal => different equal.symm)

/-- **Bars that hold pieces once** are laid with all of theirs. -/
theorem layBars_eq (stock : Stock) (left : List (Option Piece)) {bars : List (List Nat × ℚ)}
    (distinct : (held bars).Nodup) :
    (layBars stock left bars).map (fun layout => (layout.stockMm, layout.pieces)) =
      bars.map fun bar => ([bar.2], laidFrom stock.kerfMm stock.trimMm (piecesAt left bar.1)) := by
  induction bars generalizing left with
  | nil => rfl
  | cons bar bars ih =>
    obtain ⟨here, later, apart⟩ := List.nodup_append.mp
      (show (bar.1 ++ held bars).Nodup from distinct)
    obtain ⟨pieces, others⟩ := layPieces_eq stock.kerfMm left stock.trimMm here
    have same : bars.map (fun other => ([other.2], laidFrom stock.kerfMm stock.trimMm
          (piecesAt (layPieces stock.kerfMm left stock.trimMm bar.1).2.1 other.1))) =
        bars.map fun other => ([other.2], laidFrom stock.kerfMm stock.trimMm (piecesAt left other.1)) := by
      refine List.map_congr_left fun other member => ?_
      have kept : piecesAt (layPieces stock.kerfMm left stock.trimMm bar.1).2.1 other.1 =
          piecesAt left other.1 :=
        List.filterMap_congr fun index inside => others index fun also =>
          apart index also index (List.mem_flatMap.mpr ⟨other, member, inside⟩) rfl
      rw [kept]
    rw [List.map_cons, ← same, ← ih _ later, ← pieces]
    rfl

/-- With all pieces left, all places give all pieces. -/
theorem piecesAt_all (pieces : List Piece) :
    piecesAt (pieces.map some) (List.range pieces.length) = pieces := by
  induction pieces with
  | nil => rfl
  | cons piece rest ih =>
    have first : ((piece :: rest).map some)[0]?.join = some piece := rfl
    rw [List.length_cons, List.range_succ_eq_map, piecesAt_some first, piecesAt, List.filterMap_map]
    exact congrArg (piece :: ·) ih

end Laying

end Ketchup.Cutting
