/-
**A connected run of segments chains, unless it branches.**

The segments that can be reached from one over shared points are a component. Where at most two ends of it
meet at every point, it is one run of the joints, open or closed (`run_covers`), and the walk of
`chainComponent` follows it to its end (`chainComponent_eq`): no such run is left out because it does not
chain.
-/

import Ketchup.Dxf.Chain

set_option linter.unusedSectionVars false

namespace Ketchup.Dxf

open Product (ProfileSegment Vec2)
open Relation

/-! ### Reversed segments -/

@[simp] theorem reverseSegment_startMm (segment : ProfileSegment ℚ) :
    (reverseSegment segment).startMm = segment.endMm := by
  cases segment with
  | spline => simp [reverseSegment, ProfileSegment.startMm, ProfileSegment.endMm]
  | _ => rfl

@[simp] theorem reverseSegment_endMm (segment : ProfileSegment ℚ) :
    (reverseSegment segment).endMm = segment.startMm := by
  cases segment with
  | spline => simp [reverseSegment, ProfileSegment.startMm, ProfileSegment.endMm]
  | _ => rfl

section Runs

variable {B : Type} [LinearOrder B] {bits : Option Point → B} {segments : List LooseSegment}

/-- A segment drawn from one of its ends. -/
def orientedAt (segments : List LooseSegment) (pieceEnd : PieceEnd segments.length) : ProfileSegment ℚ :=
  if pieceEnd.2 then reverseSegment (segmentAt segments pieceEnd.1) else segmentAt segments pieceEnd.1

theorem orientedAt_start (pieceEnd : PieceEnd segments.length) :
    bits (orientedAt segments pieceEnd).startMm = endKey bits segments pieceEnd := by
  obtain ⟨index, side⟩ := pieceEnd
  cases side <;> simp [orientedAt, endKey]

theorem orientedAt_end (pieceEnd : PieceEnd segments.length) :
    bits (orientedAt segments pieceEnd).endMm = endKey bits segments (farEnd pieceEnd) := by
  obtain ⟨index, side⟩ := pieceEnd
  cases side <;> simp [orientedAt, endKey, farEnd]

/-! ### Components -/

theorem mem_endpoints {point : B} {index : Fin segments.length} :
    index ∈ endpoints bits segments point ↔
      ∃ pieceEnd : PieceEnd segments.length, pieceEnd.1 = index ∧ endKey bits segments pieceEnd = point := by
  simp only [endpoints, List.mem_map, mem_endsAt]
  exact exists_congr fun pieceEnd => and_comm

theorem mem_incident {index other : Fin segments.length} : other ∈ incident bits segments index ↔
    ∃ one two : PieceEnd segments.length, one.1 = index ∧ two.1 = other ∧
      endKey bits segments one = endKey bits segments two := by
  rw [incident, List.mem_append, mem_endpoints, mem_endpoints]
  constructor
  · rintro (⟨two, its, same⟩ | ⟨two, its, same⟩)
    · exact ⟨(index, false), two, rfl, its, same.symm⟩
    · exact ⟨(index, true), two, rfl, its, same.symm⟩
  · rintro ⟨⟨_, side⟩, two, rfl, its, same⟩
    cases side with
    | false => exact Or.inl ⟨two, its, same.symm⟩
    | true => exact Or.inr ⟨two, its, same.symm⟩

/-- Two segments share a point. -/
def Incident (bits : Option Point → B) (segments : List LooseSegment) (index other : Fin segments.length) : Prop :=
  other ∈ incident bits segments index

theorem Incident.symm {index other : Fin segments.length} (shares : Incident bits segments index other) :
    Incident bits segments other index := by
  obtain ⟨one, two, first, second, same⟩ := mem_incident.mp shares
  exact mem_incident.mpr ⟨two, one, second, first, same.symm⟩

/-- All segments that can be reached from each of `component`. -/
structure IsComponent (bits : Option Point → B) (segments : List LooseSegment)
    (component : Finset (Fin segments.length)) : Prop where
  closed : ∀ one two : PieceEnd segments.length, endKey bits segments one = endKey bits segments two →
    one.1 ∈ component → two.1 ∈ component
  connected : ∀ index ∈ component, ∀ other ∈ component, ReflTransGen (Incident bits segments) index other

theorem search_isComponent (seed : Fin segments.length) :
    IsComponent bits segments (search (incident bits segments) ∅ [seed]) where
  closed := by
    intro one two same inside
    refine mem_search_iff.mpr ((mem_search_iff.mp inside).tail ?_)
    exact mem_incident.mpr ⟨one, two, rfl, rfl, same⟩
  connected := by
    intro index inside other there
    have symmetric : Std.Symm (Incident bits segments) := ⟨fun _ _ => Incident.symm⟩
    have back : ReflTransGen (Incident bits segments) index seed :=
      ReflTransGen.stdSymm.symm _ _ (mem_search_iff.mp inside)
    exact back.trans (mem_search_iff.mp there)

/-- At most two ends meet at each point of the component. -/
def Unbranched (bits : Option Point → B) (segments : List LooseSegment)
    (component : Finset (Fin segments.length)) : Prop :=
  ∀ pieceEnd : PieceEnd segments.length, pieceEnd.1 ∈ component →
    (endsAt (endKey bits segments) (endKey bits segments pieceEnd)).length ≤ 2

variable {component : Finset (Fin segments.length)} {pieceEnd other : PieceEnd segments.length}

theorem Unbranched.mate (unbranched : Unbranched bits segments component) (inside : pieceEnd.1 ∈ component)
    (apart : other ≠ pieceEnd) (same : endKey bits segments other = endKey bits segments pieceEnd) :
    mate (endKey bits segments) pieceEnd = some other := by
  refine mate_eq_some.mpr (meetAlone_iff.mpr ⟨?_, same, apart⟩)
  refine le_antisymm (unbranched pieceEnd inside) ?_
  have both : [pieceEnd, other] ⊆ endsAt (endKey bits segments) (endKey bits segments pieceEnd) := by
    simp [mem_endsAt, same]
  exact (List.subperm_of_subset (by simp [apart.symm]) both).length_le

theorem IsComponent.closed_compl (isComponent : IsComponent bits segments component) :
    Joints.Closed (joints (endKey bits segments)) componentᶜ := by
  intro one two mated out
  rw [Finset.mem_compl] at out ⊢
  have same := (mate_eq_some.mp mated).2 two |>.mpr (Or.inr rfl)
  exact fun inside => out (isComponent.closed two one same inside)

/-- **A component that does not branch is one run**, from an end that nothing meets, or from any if it is
closed. -/
theorem run_covers (isComponent : IsComponent bits segments component)
    (unbranched : Unbranched bits segments component) (inside : pieceEnd.1 ∈ component)
    (begins : mate (endKey bits segments) pieceEnd = none ∨
      ∀ other : PieceEnd segments.length, other.1 ∈ component → mate (endKey bits segments) other ≠ none) :
    (∀ index, index ∈ component ↔
      ∃ entered ∈ (joints (endKey bits segments)).run componentᶜ pieceEnd, entered.1 = index) ∧
    ∃ last, ((joints (endKey bits segments)).run componentᶜ pieceEnd).getLast? = some last ∧
      ((mate (endKey bits segments) pieceEnd = none ∧ mate (endKey bits segments) (farEnd last) = none) ∨
        mate (endKey bits segments) (farEnd last) = some pieceEnd) := by
  have free : (joints (endKey bits segments)).item pieceEnd ∉ componentᶜ := Finset.notMem_compl.mpr inside
  have closed := isComponent.closed_compl
  obtain ⟨last, ends⟩ : ∃ last, ((joints (endKey bits segments)).run componentᶜ pieceEnd).getLast? = some last :=
    ⟨_, List.getLast?_eq_some_getLast (List.cons_ne_nil pieceEnd _)⟩
  have within : ∀ entered ∈ (joints (endKey bits segments)).run componentᶜ pieceEnd, entered.1 ∈ component := by
    intro entered member
    exact Finset.notMem_compl.mp (Joints.run_fresh free entered member)
  have outer : (mate (endKey bits segments) pieceEnd = none ∧ mate (endKey bits segments) (farEnd last) = none) ∨
      mate (endKey bits segments) (farEnd last) = some pieceEnd := by
    rcases Joints.run_last free closed ends with none | closes
    · rcases begins with nothing | mated
      · exact Or.inl ⟨nothing, none⟩
      · exact absurd none (mated (farEnd last) (within last (List.mem_of_getLast? ends)))
    · exact Or.inr closes
  have after : Joints.Closed (joints (endKey bits segments)) ((joints (endKey bits segments)).usedBy componentᶜ
      ((joints (endKey bits segments)).run componentᶜ pieceEnd)) := by
    refine Joints.closed_usedBy free closed fun next mated => ?_
    rcases outer with ⟨nothing, -⟩ | closes
    · exact absurd (nothing.symm.trans mated) (by simp)
    · have : farEnd last = next :=
        Option.some.inj (((joints (endKey bits segments)).mate_symm _ _ closes).symm.trans mated)
      exact Joints.mem_usedBy.mpr (Or.inr ⟨last, List.mem_of_getLast? ends, this ▸ rfl⟩)
  refine ⟨fun index => ⟨fun member => ?_, ?_⟩, last, ends, outer⟩
  · -- what is entered is entered from each segment that shares a point with it
    have reached := isComponent.connected _ inside index member
    induction reached with
    | refl => exact ⟨pieceEnd, List.mem_cons_self, rfl⟩
    | @tail before next _ shares ih =>
      have there : before ∈ component := by
        obtain ⟨one, two, rfl, rfl, same⟩ := mem_incident.mp shares
        exact isComponent.closed two one same.symm member
      obtain ⟨entered, run, rfl⟩ := ih there
      obtain ⟨one, two, first, rfl, same⟩ := mem_incident.mp shares
      by_cases equal : two = one
      · exact ⟨entered, run, equal ▸ first.symm⟩
      · have mated := unbranched.mate (first ▸ there) equal same.symm
        have taken := after one two mated (Joints.mem_usedBy.mpr (Or.inr ⟨entered, run, first.symm⟩))
        rcases Joints.mem_usedBy.mp taken with out | its
        · exact absurd member (Finset.mem_compl.mp out)
        · exact its
  · rintro ⟨entered, member, rfl⟩
    exact within entered member

/-! ### The walk -/

theorem chainFrom_nil (current : B) : chainFrom bits segments ∅ current = some ([], current) := by
  rw [chainFrom, if_pos rfl]

theorem chainFrom_cons {unused : Finset (Fin segments.length)} {current : B} {index : Fin segments.length}
    (inside : index ∈ unused)
    (least : ((endpoints bits segments current).filter (· ∈ unused)).argmin (ordinalAt segments) = some index)
    {entered : PieceEnd segments.length} (its : entered.1 = index)
    (oriented : (if endKey bits segments (index, false) = current then segmentAt segments index
      else reverseSegment (segmentAt segments index)) = orientedAt segments entered) :
    chainFrom bits segments unused current =
      (chainFrom bits segments (unused.erase index) (endKey bits segments (farEnd entered))).map
        fun rest => (orientedAt segments entered :: rest.1, rest.2) := by
  have some : unused ≠ ∅ := Finset.ne_empty_of_mem inside
  rw [chainFrom, if_neg some]
  split
  next none => exact absurd (none.symm.trans least) (by simp)
  next other found =>
    obtain rfl : other = index := Option.some.inj (found.symm.trans least)
    simp only [oriented, orientedAt_end]

/-- The walk goes on along the run. -/
theorem chainFrom_path (unbranched : Unbranched bits segments component) (used : Finset (Fin segments.length))
    (pieceEnd : PieceEnd segments.length) (inside : pieceEnd.1 ∈ component) (taken : pieceEnd.1 ∈ used)
    (outside : componentᶜ ⊆ used)
    (all : (joints (endKey bits segments)).usedBy used ((joints (endKey bits segments)).path used pieceEnd) =
      Finset.univ) :
    chainFrom bits segments usedᶜ (endKey bits segments (farEnd pieceEnd)) =
      some (((joints (endKey bits segments)).path used pieceEnd).map (orientedAt segments),
        endKey bits segments
          (farEnd (((joints (endKey bits segments)).path used pieceEnd).getLastD pieceEnd))) := by
  induction used, pieceEnd using Joints.path.induct (joints (endKey bits segments)) with
  | case1 used pieceEnd none =>
    rw [Joints.path_none none] at all ⊢
    obtain rfl : used = Finset.univ := all
    rw [Finset.compl_univ, chainFrom_nil]
    rfl
  | case2 used pieceEnd other goes ih =>
    rw [Joints.path_some goes] at all ⊢
    obtain ⟨mated, free⟩ : mate (endKey bits segments) (farEnd pieceEnd) = some other ∧ other.1 ∉ used :=
      Joints.next_eq_some.mp goes
    have far : (farEnd pieceEnd).1 ∈ component := inside
    have within : other.1 ∈ component := Finset.notMem_compl.mp fun out => free (outside out)
    have same : endKey bits segments other = endKey bits segments (farEnd pieceEnd) :=
      (mate_eq_some.mp mated).2 other |>.mpr (Or.inr rfl)
    have unused : other.1 ∈ usedᶜ := Finset.mem_compl.mpr free
    -- the other end at the point is the only one of a segment that is not in the run yet
    have only : ∀ next : PieceEnd segments.length, next.1 ∉ used →
        endKey bits segments next = endKey bits segments (farEnd pieceEnd) → next = other := by
      intro next fresh meets
      have apart : next ≠ farEnd pieceEnd := fun equal => fresh (equal ▸ taken)
      exact Option.some.inj ((unbranched.mate far apart meets).symm.trans mated)
    have least : ((endpoints bits segments (endKey bits segments (farEnd pieceEnd))).filter (· ∈ usedᶜ)).argmin
        (ordinalAt segments) = some other.1 := by
      have there : other.1 ∈ (endpoints bits segments (endKey bits segments (farEnd pieceEnd))).filter (· ∈ usedᶜ) :=
        List.mem_filter.mpr ⟨mem_endpoints.mpr ⟨other, rfl, same⟩, decide_eq_true unused⟩
      cases found : ((endpoints bits segments (endKey bits segments (farEnd pieceEnd))).filter (· ∈ usedᶜ)).argmin
          (ordinalAt segments) with
      | none => exact absurd (List.argmin_eq_none.mp found ▸ there) List.not_mem_nil
      | some index =>
        obtain ⟨listed, fresh⟩ := List.mem_filter.mp (List.argmin_mem found)
        obtain ⟨next, rfl, meets⟩ := mem_endpoints.mp listed
        rw [only next (by simpa using fresh) meets]
    have oriented : (if endKey bits segments (other.1, false) = endKey bits segments (farEnd pieceEnd) then
        segmentAt segments other.1 else reverseSegment (segmentAt segments other.1)) = orientedAt segments other := by
      obtain ⟨index, side⟩ := other
      cases side with
      | false => exact if_pos same
      | true => exact if_neg fun meets => absurd (only (index, false) free meets) (by simp)
    rw [chainFrom_cons unused least rfl oriented, ← Finset.compl_insert]
    have rest := ih within (Finset.mem_insert_self ..) (outside.trans (Finset.subset_insert ..)) all
    refine (congrArg (Option.map _) rest).trans ?_
    rw [Option.map_some, List.map_cons, List.getLastD_cons]

theorem orientedAt_entered {entered : PieceEnd segments.length} {point : B}
    (enters : endKey bits segments entered = point)
    (first : endKey bits segments (entered.1, false) = point → entered.2 = false) :
    (if endKey bits segments (entered.1, false) = point then segmentAt segments entered.1
      else reverseSegment (segmentAt segments entered.1)) = orientedAt segments entered := by
  obtain ⟨index, side⟩ := entered
  cases side with
  | false => exact if_pos enters
  | true => exact if_neg fun meets => absurd (first meets) (by simp)

/-- The walk of a component from a point of it is a run of all its segments. -/
theorem chainFrom_component (isComponent : IsComponent bits segments component)
    (unbranched : Unbranched bits segments component) {start : PieceEnd segments.length}
    (inside : start.1 ∈ component)
    (begins : mate (endKey bits segments) start = none ∨
      ∀ other : PieceEnd segments.length, other.1 ∈ component → mate (endKey bits segments) other ≠ none) :
    ∃ first last : PieceEnd segments.length, first.1 ∈ component ∧
      endKey bits segments first = endKey bits segments start ∧
      ((joints (endKey bits segments)).run componentᶜ first).getLast? = some last ∧
      chainFrom bits segments component (endKey bits segments start) =
        some (((joints (endKey bits segments)).run componentᶜ first).map (orientedAt segments),
          endKey bits segments (farEnd last)) := by
  have there : start.1 ∈ (endpoints bits segments (endKey bits segments start)).filter (· ∈ component) :=
    List.mem_filter.mpr ⟨mem_endpoints.mpr ⟨start, rfl, rfl⟩, decide_eq_true inside⟩
  cases least : ((endpoints bits segments (endKey bits segments start)).filter (· ∈ component)).argmin
      (ordinalAt segments) with
  | none => exact absurd (List.argmin_eq_none.mp least ▸ there) List.not_mem_nil
  | some index =>
    obtain ⟨listed, fresh⟩ := List.mem_filter.mp (List.argmin_mem least)
    have member : index ∈ component := of_decide_eq_true fresh
    -- a segment that begins and ends at the point is entered at its start
    obtain ⟨first, rfl, enters, side⟩ : ∃ first : PieceEnd segments.length, first.1 = index ∧
        endKey bits segments first = endKey bits segments start ∧
        (endKey bits segments (first.1, false) = endKey bits segments start → first.2 = false) := by
      by_cases meets : endKey bits segments (index, false) = endKey bits segments start
      · exact ⟨(index, false), rfl, meets, fun _ => rfl⟩
      · obtain ⟨first, rfl, enters⟩ := mem_endpoints.mp listed
        exact ⟨first, rfl, enters, fun again => absurd again meets⟩
    have begins' : mate (endKey bits segments) first = none ∨
        ∀ other : PieceEnd segments.length, other.1 ∈ component → mate (endKey bits segments) other ≠ none := by
      refine begins.imp (fun none => ?_) id
      rw [← Option.isNone_iff_eq_none, mate_isNone] at none ⊢
      rwa [enters]
    obtain ⟨covers, last, ends, -⟩ := run_covers isComponent unbranched member begins'
    refine ⟨first, last, member, enters, ends, ?_⟩
    have all : (joints (endKey bits segments)).usedBy (insert first.1 componentᶜ)
        ((joints (endKey bits segments)).path (insert first.1 componentᶜ) first) = Finset.univ := by
      refine Finset.eq_univ_iff_forall.mpr fun index => ?_
      change index ∈ (joints (endKey bits segments)).usedBy componentᶜ
        ((joints (endKey bits segments)).run componentᶜ first)
      rw [Joints.mem_usedBy, Finset.mem_compl]
      by_cases its : index ∈ component
      · exact Or.inr ((covers index).mp its)
      · exact Or.inl its
    have rest := chainFrom_path unbranched (insert first.1 componentᶜ) first member
      (Finset.mem_insert_self ..) (Finset.subset_insert ..) all
    rw [Finset.compl_insert, compl_compl] at rest
    rw [chainFrom_cons member least rfl (orientedAt_entered enters side), rest, Option.map_some, Joints.run,
      List.map_cons]
    have same : ((joints (endKey bits segments)).path (insert first.1 componentᶜ) first).getLastD first = last := by
      rw [Joints.run, List.getLast?_cons] at ends
      exact (List.getLastD_eq_getLast? ..).trans (Option.some.inj ends)
    rw [same]
    rfl

/-! ### Open ends -/

theorem degree_eq (isComponent : IsComponent bits segments component) (inside : pieceEnd.1 ∈ component) :
    degree bits segments component (endKey bits segments pieceEnd) =
      (endsAt (endKey bits segments) (endKey bits segments pieceEnd)).length := by
  rw [degree, List.filter_eq_self.mpr, endpoints, List.length_map]
  intro index listed
  obtain ⟨other, rfl, same⟩ := mem_endpoints.mp listed
  exact decide_eq_true (isComponent.closed pieceEnd other same.symm inside)

theorem mem_componentPoints {point : B} : point ∈ componentPoints bits segments component ↔
    ∃ pieceEnd : PieceEnd segments.length, pieceEnd.1 ∈ component ∧ endKey bits segments pieceEnd = point := by
  rw [componentPoints, Finset.mem_union, Finset.mem_image, Finset.mem_image]
  constructor
  · rintro (⟨index, inside, is⟩ | ⟨index, inside, is⟩)
    · exact ⟨(index, false), inside, is⟩
    · exact ⟨(index, true), inside, is⟩
  · rintro ⟨⟨index, side⟩, inside, is⟩
    cases side with
    | false => exact Or.inl ⟨index, inside, is⟩
    | true => exact Or.inr ⟨index, inside, is⟩

/-- The points where one end of the component is, which nothing meets. -/
def openPoints (bits : Option Point → B) (segments : List LooseSegment)
    (component : Finset (Fin segments.length)) : Finset B :=
  (componentPoints bits segments component).filter fun point => degree bits segments component point = 1

theorem mem_openPoints (isComponent : IsComponent bits segments component)
    (unbranched : Unbranched bits segments component) {point : B} : point ∈ openPoints bits segments component ↔
      ∃ pieceEnd : PieceEnd segments.length, pieceEnd.1 ∈ component ∧ endKey bits segments pieceEnd = point ∧
        mate (endKey bits segments) pieceEnd = none := by
  rw [openPoints, Finset.mem_filter, mem_componentPoints]
  constructor
  · rintro ⟨⟨pieceEnd, inside, rfl⟩, one⟩
    refine ⟨pieceEnd, inside, rfl, ?_⟩
    rw [← Option.isNone_iff_eq_none, mate_isNone, ← degree_eq isComponent inside, one]
    decide
  · rintro ⟨pieceEnd, inside, rfl, none⟩
    refine ⟨⟨pieceEnd, inside, rfl⟩, ?_⟩
    have few := unbranched pieceEnd inside
    have two := (mate_isNone pieceEnd).mp (Option.isNone_iff_eq_none.mpr none)
    have some : 0 < (endsAt (endKey bits segments) (endKey bits segments pieceEnd)).length :=
      List.length_pos_of_mem (mem_endsAt.mpr rfl)
    rw [degree_eq isComponent inside]
    omega

/-- The outer ends of an open run are at different points. -/
theorem open_apart (unbranched : Unbranched bits segments component) {first last : PieceEnd segments.length}
    (inside : first.1 ∈ component)
    (ends : ((joints (endKey bits segments)).run componentᶜ first).getLast? = some last)
    (none : mate (endKey bits segments) first = none) :
    endKey bits segments (farEnd last) ≠ endKey bits segments first := by
  intro same
  have free : (joints (endKey bits segments)).item first ∉ componentᶜ := Finset.notMem_compl.mpr inside
  by_cases equal : farEnd last = first
  · have its : last = first :=
      Joints.run_eq_of_item free (List.mem_of_getLast? ends) List.mem_cons_self (equal ▸ rfl : last.1 = first.1)
    exact (joints (endKey bits segments)).far_ne first (its ▸ equal)
  · exact absurd (none.symm.trans (unbranched.mate inside equal same)) (by simp)

/-- There are two open ends, or none and every end has a mate. -/
theorem card_openPoints (isComponent : IsComponent bits segments component)
    (unbranched : Unbranched bits segments component) :
    ((openPoints bits segments component).card = 0 ∧ ∀ other : PieceEnd segments.length,
      other.1 ∈ component → mate (endKey bits segments) other ≠ none) ∨
    (openPoints bits segments component).card = 2 := by
  rcases (openPoints bits segments component).eq_empty_or_nonempty with none | ⟨point, inside⟩
  · refine Or.inl ⟨Finset.card_eq_zero.mpr none, fun other inside nothing => ?_⟩
    have := (mem_openPoints isComponent unbranched).mpr ⟨other, inside, rfl, nothing⟩
    exact absurd (none ▸ this) (Finset.notMem_empty _)
  · obtain ⟨first, member, rfl, none⟩ := (mem_openPoints isComponent unbranched).mp inside
    obtain ⟨covers, last, ends, outer⟩ := run_covers isComponent unbranched member (Or.inl none)
    have noneLast : mate (endKey bits segments) (farEnd last) = Option.none := by
      rcases outer with ⟨-, nothing⟩ | closes
      · exact nothing
      · have := (mate_eq_some.mp closes).symm
        exact absurd (none.symm.trans (mate_eq_some.mpr this)) (by simp)
    have both : openPoints bits segments component =
        {endKey bits segments first, endKey bits segments (farEnd last)} := by
      ext point
      rw [mem_openPoints isComponent unbranched, Finset.mem_insert, Finset.mem_singleton]
      constructor
      · rintro ⟨pieceEnd, within, rfl, unmated⟩
        obtain ⟨entered, run, same⟩ := (covers pieceEnd.1).mp within
        rcases Joints.run_unmated ends run same unmated with rfl | rfl
        · exact Or.inl rfl
        · exact Or.inr rfl
      · rintro (rfl | rfl)
        · exact ⟨first, member, rfl, none⟩
        · exact ⟨farEnd last, (covers last.1).mpr ⟨last, List.mem_of_getLast? ends, rfl⟩, rfl, noneLast⟩
    rw [both]
    exact Or.inr (Finset.card_pair (open_apart unbranched member ends none).symm)

/-- **An unbranched component chains**: its profile is a run of all its segments, closed if the last one ends
where the first one starts. -/
theorem chainComponent_eq (isComponent : IsComponent bits segments component)
    (unbranched : Unbranched bits segments component) {seed : Fin segments.length} (inside : seed ∈ component)
    {maxSegments : Nat} (few : component.card ≤ maxSegments) :
    ∃ first last : PieceEnd segments.length, first.1 ∈ component ∧
      ((joints (endKey bits segments)).run componentᶜ first).getLast? = some last ∧
      (∀ index, index ∈ component ↔
        ∃ entered ∈ (joints (endKey bits segments)).run componentᶜ first, entered.1 = index) ∧
      chainComponent bits segments component seed maxSegments =
        .ok (((joints (endKey bits segments)).run componentᶜ first).map (orientedAt segments),
          decide (endKey bits segments (farEnd last) = endKey bits segments first)) := by
  have straight : ¬∃ point ∈ componentPoints bits segments component,
      degree bits segments component point > 2 := by
    rintro ⟨point, there, many⟩
    obtain ⟨pieceEnd, within, rfl⟩ := mem_componentPoints.mp there
    rw [degree_eq isComponent within] at many
    exact absurd (unbranched pieceEnd within) (Nat.not_le.mpr many)
  have counted := card_openPoints isComponent unbranched
  obtain ⟨start, within, begins, startPoint⟩ : ∃ start : PieceEnd segments.length, start.1 ∈ component ∧
      (mate (endKey bits segments) start = none ∨ ∀ other : PieceEnd segments.length,
        other.1 ∈ component → mate (endKey bits segments) other ≠ none) ∧
      (openPoints bits segments component).min.untopD (endKey bits segments (seed, false)) =
        endKey bits segments start := by
    rcases counted with ⟨none, mated⟩ | two
    · refine ⟨(seed, false), inside, Or.inr mated, ?_⟩
      rw [Finset.card_eq_zero.mp none, Finset.min_empty]
      rfl
    · obtain ⟨point, least⟩ := Finset.min_of_nonempty (Finset.card_pos.mp (two.symm ▸ Nat.two_pos))
      obtain ⟨start, within, rfl, nothing⟩ :=
        (mem_openPoints isComponent unbranched).mp (Finset.mem_of_min least)
      exact ⟨start, within, Or.inl nothing, by rw [least]; rfl⟩
  obtain ⟨first, last, member, enters, ends, walked⟩ := chainFrom_component isComponent unbranched within begins
  have begins' : mate (endKey bits segments) first = none ∨ ∀ other : PieceEnd segments.length,
      other.1 ∈ component → mate (endKey bits segments) other ≠ none := by
    refine begins.imp (fun none => ?_) id
    rw [← Option.isNone_iff_eq_none, mate_isNone] at none ⊢
    rwa [enters]
  obtain ⟨covers, last', ends', outer⟩ := run_covers isComponent unbranched member begins'
  obtain rfl : last' = last := Option.some.inj (ends'.symm.trans ends)
  refine ⟨first, last', member, ends, covers, ?_⟩
  have count : ¬((openPoints bits segments component).card ≠ 0 ∧ (openPoints bits segments component).card ≠ 2) := by
    rcases counted with ⟨none, -⟩ | two
    · exact fun both => both.1 none
    · exact fun both => both.2 two
  have closing : decide ((openPoints bits segments component).card = 0) =
      decide (endKey bits segments (farEnd last') = endKey bits segments first) := by
    refine decide_eq_decide.mpr ?_
    rcases outer with ⟨nothing, -⟩ | closes
    · refine iff_of_false (fun none => ?_) (open_apart unbranched member ends nothing)
      have := (mem_openPoints isComponent unbranched).mpr ⟨first, member, rfl, nothing⟩
      exact absurd (Finset.card_eq_zero.mp none ▸ this) (Finset.notMem_empty _)
    · refine iff_of_true ?_ ((mate_eq_some.mp closes).2 first |>.mpr (Or.inr rfl)).symm
      rcases counted with ⟨none, -⟩ | two
      · exact none
      · obtain ⟨point, there⟩ := Finset.card_pos.mp (two.symm ▸ Nat.two_pos)
        obtain ⟨pieceEnd, within', -, nothing⟩ := (mem_openPoints isComponent unbranched).mp there
        obtain ⟨entered, run, same⟩ := (covers pieceEnd.1).mp within'
        rcases Joints.run_unmated ends run same nothing with rfl | rfl
        · exact absurd (nothing.symm.trans (mate_eq_some.mpr (mate_eq_some.mp closes).symm)) (by simp)
        · exact absurd (nothing.symm.trans closes) (by simp)
  have ended : ¬((decide ((openPoints bits segments component).card = 0) ∧
        endKey bits segments (farEnd last') ≠ endKey bits segments start) ∨
      (¬decide ((openPoints bits segments component).card = 0) ∧
        endKey bits segments (farEnd last') ∉ openPoints bits segments component)) := by
    rintro (⟨closed, apart⟩ | ⟨isOpen, outside⟩)
    · rw [closing] at closed
      exact apart ((of_decide_eq_true closed).trans enters)
    · rcases outer with ⟨-, nothing⟩ | closes
      · refine outside ((mem_openPoints isComponent unbranched).mpr ⟨farEnd last', ?_, rfl, nothing⟩)
        exact (covers last'.1).mpr ⟨last', List.mem_of_getLast? ends, rfl⟩
      · rw [closing] at isOpen
        exact isOpen (decide_eq_true ((mate_eq_some.mp closes).2 first |>.mpr (Or.inr rfl)).symm)
  unfold openPoints at count startPoint closing ended
  simp only [chainComponent]
  rw [if_neg straight, if_neg (Nat.not_lt.mpr few), if_neg count, startPoint, walked]
  simp only
  rw [if_neg ended, closing]

theorem chainComponent_branched (isComponent : IsComponent bits segments component)
    (branched : ¬Unbranched bits segments component) (seed : Fin segments.length) (maxSegments : Nat) :
    chainComponent bits segments component seed maxSegments =
      .error (.ambiguousGeometry, "a T-junction (lines that branch)") ∧
    ∃ point, 3 ≤ degree bits segments component point := by
  unfold Unbranched at branched
  push Not at branched
  obtain ⟨pieceEnd, inside, many⟩ := branched
  rw [← degree_eq isComponent inside] at many
  refine ⟨?_, _, many⟩
  simp only [chainComponent]
  exact if_pos ⟨_, mem_componentPoints.mpr ⟨pieceEnd, inside, rfl⟩, many⟩

theorem chainComponent_long (isComponent : IsComponent bits segments component)
    (unbranched : Unbranched bits segments component) (seed : Fin segments.length) {maxSegments : Nat}
    (many : maxSegments < component.card) :
    chainComponent bits segments component seed maxSegments =
      .error (.tooManySegments, "a run of too many segments") := by
  have straight : ¬∃ point ∈ componentPoints bits segments component,
      degree bits segments component point > 2 := by
    rintro ⟨point, there, more⟩
    obtain ⟨pieceEnd, within, rfl⟩ := mem_componentPoints.mp there
    rw [degree_eq isComponent within] at more
    exact absurd (unbranched pieceEnd within) (Nat.not_le.mpr more)
  simp only [chainComponent]
  rw [if_neg straight, if_pos many]

end Runs

end Ketchup.Dxf
