/-
**Ends moved onto ends of arcs.**

* `mem_nearbyArcEndpoints` — the nine buckets around a point hold every arc end near it.
* `sharedArcEndpoint_eq` — two arc ends near each other become the same one.
* `snapped_traced` — each segment is left out or kept, its ends moved by at most the tolerance onto an
  arc end.
-/

import Ketchup.Dxf.Chain
import Ketchup.Library.Outcome
import Mathlib.Algebra.Order.Floor.Ring
import Mathlib.Tactic.Linarith
import Mathlib.Tactic.FieldSimp

set_option linter.unusedSectionVars false

namespace Ketchup.Dxf

open Product (ProfileSegment Vec2)

/-! ### Buckets -/

theorem epsilon_pos : 0 < dxfGeometryEpsilonMm := by
  norm_num [dxfGeometryEpsilonMm]

theorem Near.symm {point other : Point} (near : Near point other) : Near other point := by
  unfold Near at *
  nlinarith

theorem near_refl (point : Point) : Near point point := by
  have := epsilon_pos
  unfold Near
  nlinarith

/-- Numbers at most the tolerance apart are in the same bucket or in neighbouring ones. -/
theorem floor_neighbours {one other : ℚ} (close : (one - other) ^ 2 ≤ dxfGeometryEpsilonMm ^ 2) :
    ⌊other / dxfGeometryEpsilonMm⌋ - ⌊one / dxfGeometryEpsilonMm⌋ ∈ ([-1, 0, 1] : List ℤ) := by
  have positive := epsilon_pos
  obtain ⟨low, high⟩ := abs_le.mp (abs_le_of_sq_le_sq close positive.le)
  have up : other / dxfGeometryEpsilonMm ≤ one / dxfGeometryEpsilonMm + 1 := by
    rw [div_add_one positive.ne']
    exact div_le_div_of_nonneg_right (by linarith) positive.le
  have down : one / dxfGeometryEpsilonMm ≤ other / dxfGeometryEpsilonMm + 1 := by
    rw [div_add_one positive.ne']
    exact div_le_div_of_nonneg_right (by linarith) positive.le
  have first := Int.floor_le_floor up
  have second := Int.floor_le_floor down
  rw [Int.floor_add_one] at first second
  simp only [List.mem_cons, List.not_mem_nil, or_false]
  omega

theorem mem_nearbyArcEndpoints {point candidate : Point} {arcEndpoints : List Point} :
    candidate ∈ nearbyArcEndpoints point arcEndpoints ↔ candidate ∈ arcEndpoints ∧ Near point candidate := by
  rw [nearbyArcEndpoints]
  simp only [List.mem_dedup, List.mem_flatMap, List.mem_filter, decide_eq_true_eq]
  constructor
  · rintro ⟨_, -, _, -, there, -, near⟩
    exact ⟨there, near⟩
  · rintro ⟨there, near⟩
    have near' := near
    unfold Near at near'
    have xs := @floor_neighbours point.x candidate.x (by nlinarith)
    have ys := @floor_neighbours point.y candidate.y (by nlinarith)
    refine ⟨_, xs, _, ys, there, ?_, near⟩
    simp [connectivityBucket]

/-! ### The end an arc end becomes -/

section Ends

variable {B : Type} [LinearOrder B] {bits : Option Point → B} {points : List Point} {point other after : Point}

/-- `after` is the point itself, or one of `points` within the tolerance of it. -/
def Onto (points : List Point) (point after : Point) : Prop :=
  after = point ∨ after ∈ points ∧ Near point after

theorem sharedArcEndpoint_ok (shared : sharedArcEndpoint bits points point = .ok after) :
    (nearbyArcEndpoints point points).length ≤ 2 ∧
      (((nearbyArcEndpoints point points).argmin fun candidate => bits (some candidate)).getD point) = after := by
  simp only [sharedArcEndpoint] at shared
  split at shared
  · exact absurd shared (by simp)
  next few => exact ⟨Nat.not_lt.mp few, Except.ok.inj shared⟩

theorem sharedArcEndpoint_onto (shared : sharedArcEndpoint bits points point = .ok after) :
    Onto points point after := by
  obtain ⟨-, is⟩ := sharedArcEndpoint_ok shared
  cases least : (nearbyArcEndpoints point points).argmin fun candidate => bits (some candidate) with
  | none => exact Or.inl (by rw [← is, least, Option.getD_none])
  | some candidate =>
    rw [least, Option.getD_some] at is
    exact Or.inr (mem_nearbyArcEndpoints.mp (is ▸ List.argmin_mem least))

/-- **Two arc ends near each other become the same end**, if both can be moved. -/
theorem sharedArcEndpoint_eq (distinct : Function.Injective bits) {after' : Point} (there : point ∈ points)
    (there' : other ∈ points) (near : Near point other) (shared : sharedArcEndpoint bits points point = .ok after)
    (shared' : sharedArcEndpoint bits points other = .ok after') : after = after' := by
  by_cases same : point = other
  · subst same
    exact Except.ok.inj (shared.symm.trans shared')
  obtain ⟨few, is⟩ := sharedArcEndpoint_ok shared
  obtain ⟨few', is'⟩ := sharedArcEndpoint_ok shared'
  -- both look at exactly these two ends
  have both : [point, other].Perm (nearbyArcEndpoints point points) := by
    refine (List.subperm_of_subset (by simp [same]) ?_).perm_of_length_le few
    simp [mem_nearbyArcEndpoints, there, there', near, near_refl]
  have both' : [point, other].Perm (nearbyArcEndpoints other points) := by
    refine (List.subperm_of_subset (by simp [same]) ?_).perm_of_length_le few'
    simp [mem_nearbyArcEndpoints, there, there', near.symm, near_refl]
  have members := both.symm.trans both'
  cases least : (nearbyArcEndpoints point points).argmin fun candidate => bits (some candidate) with
  | none => exact absurd (both.mem_iff.mp List.mem_cons_self) (by simp [List.argmin_eq_none.mp least])
  | some first =>
    cases least' : (nearbyArcEndpoints other points).argmin fun candidate => bits (some candidate) with
    | none => exact absurd (both'.mem_iff.mp List.mem_cons_self) (by simp [List.argmin_eq_none.mp least'])
    | some second =>
      rw [least, Option.getD_some] at is
      rw [least', Option.getD_some] at is'
      have below := List.le_of_mem_argmin (members.mem_iff.mpr (List.argmin_mem least')) least
      have above := List.le_of_mem_argmin (members.mem_iff.mp (List.argmin_mem least)) least'
      exact is ▸ is' ▸ Option.some.inj (distinct (le_antisymm below above))

theorem unambiguousArcEndpoint_onto (moved : unambiguousArcEndpoint points point = .ok after) :
    Onto points point after := by
  rw [unambiguousArcEndpoint] at moved
  split at moved
  · exact Or.inl (Except.ok.inj moved).symm
  next candidate only =>
    refine Or.inr (mem_nearbyArcEndpoints.mp ?_)
    rw [only, ← Except.ok.inj moved]
    exact List.mem_singleton_self _
  · exact absurd moved (by simp)

theorem movedEnds_ok {move : Point → Except DxfImportError Point} {start stop : Point} {ends : Point × Point}
    (moved : movedEnds move start stop = .ok ends) : move start = .ok ends.1 ∧ move stop = .ok ends.2 := by
  obtain ⟨start', first, rest⟩ := bind_ok_iff.mp moved
  obtain ⟨stop', second, rest⟩ := bind_ok_iff.mp rest
  obtain ⟨-, is⟩ := check_ok_iff.mp rest
  cases Except.ok.inj is
  exact ⟨first, second⟩

end Ends

/-! ### What a segment becomes -/

/-- A segment as it was read, and as it is chained. -/
structure Trace where
  origin : LooseSegment
  moved : LooseSegment
  deriving DecidableEq

/-- A line or an arc with its ends moved onto some of `points`; anything else stays. -/
inductive MovedOnto (points : List Point) : ProfileSegment ℚ → ProfileSegment ℚ → Prop
  | same (segment : ProfileSegment ℚ) : MovedOnto points segment segment
  | line {start stop start' stop' : Point} : Onto points start start' → Onto points stop stop' →
      MovedOnto points (.line start stop) (.line start' stop')
  | circularArc {start stop start' stop' center : Point} {clockwise : Bool} :
      Onto points start start' → Onto points stop stop' →
      MovedOnto points (.circularArc start stop center clockwise) (.circularArc start' stop' center clockwise)

def Trace.Moved (points : List Point) (trace : Trace) : Prop :=
  trace.moved.layer = trace.origin.layer ∧ trace.moved.ordinal = trace.origin.ordinal ∧
    MovedOnto points trace.origin.segment trace.moved.segment

/-- An arc ends at the ends its own become. -/
def Trace.Shared {B : Type} [LinearOrder B] (bits : Option Point → B) (points : List Point) (trace : Trace) : Prop :=
  ∀ start stop center clockwise, trace.origin.segment = .circularArc start stop center clockwise →
    ∃ start' stop', trace.moved.segment = .circularArc start' stop' center clockwise ∧
      sharedArcEndpoint bits points start = .ok start' ∧ sharedArcEndpoint bits points stop = .ok stop'

/-- What is taken out and what is kept are the segments there were. -/
theorem takeOut_traced (snap : LooseSegment → Except DxfImportError LooseSegment) (traces : List Trace) :
    ∃ kept out : List Trace,
      (kept.map Trace.origin ++ out.map Trace.origin).Perm (traces.map Trace.origin) ∧
      kept.map Trace.moved = (takeOut snap (traces.map Trace.moved)).1 ∧
      out.map Trace.moved = (takeOut snap (traces.map Trace.moved)).2.map Prod.fst ∧
      (∀ trace ∈ kept, ∃ before ∈ traces, before.origin = trace.origin ∧ snap before.moved = .ok trace.moved) ∧
      ∀ trace ∈ out, trace ∈ traces := by
  induction traces with
  | nil => exact ⟨[], [], .nil, rfl, rfl, by simp, by simp⟩
  | cons head traces ih =>
    obtain ⟨kept, out, perm, keeps, leaves, moved, stay⟩ := ih
    have earlier : ∀ trace ∈ kept, ∃ before ∈ head :: traces,
        before.origin = trace.origin ∧ snap before.moved = .ok trace.moved := by
      intro trace inside
      obtain ⟨before, there, both⟩ := moved trace inside
      exact ⟨before, List.mem_cons_of_mem _ there, both⟩
    cases snaps : snap head.moved with
    | ok after =>
      refine ⟨⟨head.origin, after⟩ :: kept, out, perm.cons _, ?_, ?_, ?_, ?_⟩
      · simp only [takeOut, List.map_cons, List.filterMap_cons, snaps, Except.toOption] at keeps ⊢
        rw [keeps]
      · simpa only [takeOut, List.map_cons, List.filterMap_cons, snaps] using leaves
      · intro trace inside
        rcases List.mem_cons.mp inside with rfl | later
        · exact ⟨head, List.mem_cons_self, rfl, snaps⟩
        · exact earlier trace later
      · exact fun trace inside => List.mem_cons_of_mem _ (stay trace inside)
    | error error =>
      refine ⟨kept, head :: out, ?_, ?_, ?_, earlier, ?_⟩
      · exact List.perm_middle.trans (perm.cons _)
      · simpa only [takeOut, List.map_cons, List.filterMap_cons, snaps, Except.toOption] using keeps
      · simp only [takeOut, List.map_cons, List.filterMap_cons, snaps] at leaves ⊢
        rw [leaves]
      · intro trace inside
        rcases List.mem_cons.mp inside with rfl | later
        · exact List.mem_cons_self
        · exact List.mem_cons_of_mem _ (stay trace later)

section Snaps

variable {B : Type} [LinearOrder B] {bits : Option Point → B} {points : List Point}
  {before after : LooseSegment}

/-- Moving the ends of an arc. -/
theorem snapArc_ok (snaps : snapArc bits points before = .ok after) :
    (⟨before, after⟩ : Trace).Moved points ∧ (⟨before, after⟩ : Trace).Shared bits points ∧
      ((∃ start stop center clockwise, before.segment = .circularArc start stop center clockwise) ∨
        after = before) := by
  unfold snapArc at snaps
  split at snaps
  next start stop center clockwise is =>
    obtain ⟨ends, moved, is'⟩ := bind_ok_iff.mp snaps
    obtain ⟨first, second⟩ := movedEnds_ok moved
    cases Except.ok.inj is'
    refine ⟨⟨rfl, rfl, ?_⟩, ?_, Or.inl ⟨start, stop, center, clockwise, is⟩⟩
    · rw [is]
      exact .circularArc (sharedArcEndpoint_onto first) (sharedArcEndpoint_onto second)
    · intro start' stop' center' clockwise' is'
      cases is.symm.trans is'
      exact ⟨ends.1, ends.2, rfl, first, second⟩
  next other =>
    cases Except.ok.inj snaps
    exact ⟨⟨rfl, rfl, .same _⟩, fun start stop center clockwise is => (other _ _ _ _ is).elim, Or.inr rfl⟩

theorem snapLine_ok (snaps : snapLine points before = .ok after) :
    (⟨before, after⟩ : Trace).Moved points ∧
      ((∃ start stop, before.segment = .line start stop) ∨ after = before) := by
  unfold snapLine at snaps
  split at snaps
  next start stop is =>
    obtain ⟨ends, moved, is'⟩ := bind_ok_iff.mp snaps
    obtain ⟨first, second⟩ := movedEnds_ok moved
    cases Except.ok.inj is'
    refine ⟨⟨rfl, rfl, ?_⟩, Or.inl ⟨start, stop, is⟩⟩
    rw [is]
    exact .line (unambiguousArcEndpoint_onto first) (unambiguousArcEndpoint_onto second)
  next =>
    cases Except.ok.inj snaps
    exact ⟨⟨rfl, rfl, .same _⟩, Or.inr rfl⟩

end Snaps

/-! ### The layer after snapping -/

theorem mem_arcEndpoints {segments : List LooseSegment} {point : Point} : point ∈ arcEndpoints segments ↔
    ∃ segment ∈ segments, ∃ start stop center clockwise,
      segment.segment = .circularArc start stop center clockwise ∧ (point = start ∨ point = stop) := by
  rw [arcEndpoints, List.mem_flatMap]
  refine exists_congr fun segment => and_congr_right fun _ => ?_
  cases is : segment.segment with
  | circularArc start stop center clockwise => simp
  | line => simp
  | cubicBezier => simp
  | spline => simp

theorem Onto.mono {points more : List Point} (subset : points ⊆ more) {point after : Point}
    (onto : Onto points point after) : Onto more point after :=
  onto.imp id fun inside => ⟨subset inside.1, inside.2⟩

theorem MovedOnto.mono {points more : List Point} (subset : points ⊆ more) {before after : ProfileSegment ℚ}
    (moved : MovedOnto points before after) : MovedOnto more before after := by
  cases moved with
  | same => exact .same _
  | line first second => exact .line (first.mono subset) (second.mono subset)
  | circularArc first second => exact .circularArc (first.mono subset) (second.mono subset)

section Layer

variable {B : Type} [LinearOrder B] {bits : Option Point → B}

/-- **Snapping a layer**: each segment is kept, with its ends moved by at most the tolerance onto an end of
an arc, or taken out. -/
theorem snapped_traced (bits : Option Point → B) (segments : List LooseSegment) : ∃ kept out : List Trace,
    (kept.map Trace.origin ++ out.map Trace.origin).Perm segments ∧
    kept.map Trace.moved = (snapLinesToUnambiguousArcEndpoints bits segments).1 ∧
    out.map Trace.moved = (snapLinesToUnambiguousArcEndpoints bits segments).2.map Prod.fst ∧
    (∀ trace ∈ kept, trace.Moved (arcEndpoints segments) ∧ trace.Shared bits (arcEndpoints segments)) ∧
    ∀ trace ∈ out, trace.Moved (arcEndpoints segments) := by
  let read : List Trace := segments.map fun segment => ⟨segment, segment⟩
  have origins : read.map Trace.origin = segments := by simp [read, Function.comp_def]
  have moveds : read.map Trace.moved = segments := by simp [read, Function.comp_def]
  obtain ⟨arcs, out, perm, keeps, leaves, moved, stay⟩ :=
    takeOut_traced (snapArc bits (arcEndpoints segments)) read
  rw [moveds] at keeps leaves
  have arc : ∀ trace ∈ arcs, snapArc bits (arcEndpoints segments) trace.origin = .ok trace.moved := by
    intro trace inside
    obtain ⟨before, there, same, snaps⟩ := moved trace inside
    obtain ⟨segment, -, rfl⟩ := List.mem_map.mp there
    exact same ▸ snaps
  have within : ∀ trace ∈ arcs, trace.origin ∈ segments := by
    intro trace inside
    refine origins ▸ perm.subset (List.mem_append.mpr (Or.inl ?_))
    exact List.mem_map_of_mem inside
  have ends : arcEndpoints (arcs.map Trace.moved) ⊆ arcEndpoints segments := by
    intro point inside
    obtain ⟨segment, there, start, stop, center, clockwise, is, its⟩ := mem_arcEndpoints.mp inside
    obtain ⟨trace, member, rfl⟩ := List.mem_map.mp there
    obtain ⟨-, shared, kind⟩ := snapArc_ok (arc trace member)
    rcases kind with ⟨start', stop', center', clockwise', is'⟩ | same
    · obtain ⟨start'', stop'', is'', first, second⟩ := shared _ _ _ _ is'
      cases is.symm.trans is''
      rcases its with rfl | rfl
      · rcases sharedArcEndpoint_onto first with rfl | ⟨member', -⟩
        · exact mem_arcEndpoints.mpr ⟨_, within trace member, _, _, _, _, is', Or.inl rfl⟩
        · exact member'
      · rcases sharedArcEndpoint_onto second with rfl | ⟨member', -⟩
        · exact mem_arcEndpoints.mpr ⟨_, within trace member, _, _, _, _, is', Or.inr rfl⟩
        · exact member'
    · exact mem_arcEndpoints.mpr ⟨_, within trace member, _, _, _, _, same ▸ is, its⟩
  obtain ⟨lines, out', perm', keeps', leaves', moved', stay'⟩ :=
    takeOut_traced (snapLine (arcEndpoints (arcs.map Trace.moved))) arcs
  refine ⟨lines, out ++ out', ?_, ?_, ?_, ?_, ?_⟩
  · rw [List.map_append]
    refine (List.perm_append_left_iff _).mpr List.perm_append_comm |>.trans ?_
    rw [← List.append_assoc]
    exact (perm'.append_right _).trans (origins ▸ perm)
  · rw [keeps', keeps]
    rfl
  · rw [List.map_append, leaves, leaves', keeps, snapLinesToUnambiguousArcEndpoints, List.map_append]
  · intro trace inside
    obtain ⟨before, there, same, snaps⟩ := moved' trace inside
    obtain ⟨movedArc, shared, kind⟩ := snapArc_ok (arc before there)
    obtain ⟨movedLine, line⟩ := snapLine_ok snaps
    rcases line with ⟨start, stop, is⟩ | stays
    · rcases kind with ⟨start', stop', center, clockwise, is'⟩ | same'
      · obtain ⟨_, _, is'', -⟩ := shared _ _ _ _ is'
        cases is.symm.trans is''
      · have its : before.moved = trace.origin := same'.trans same
        rw [its] at movedLine is
        refine ⟨⟨movedLine.1, movedLine.2.1, movedLine.2.2.mono ends⟩, ?_⟩
        intro start' stop' center clockwise is'
        cases is.symm.trans is'
    · have whole : (⟨before.origin, before.moved⟩ : Trace) = trace := by
        rw [same, ← stays]
      exact whole ▸ ⟨movedArc, shared⟩
  · intro trace inside
    rcases List.mem_append.mp inside with first | second
    · obtain ⟨segment, -, rfl⟩ := List.mem_map.mp (stay trace first)
      exact ⟨rfl, rfl, .same _⟩
    · exact (snapArc_ok (arc trace (stay' trace second))).1

/-- A line is a repeated one or it is not. -/
theorem withoutRepeated_traced (bits : Option Point → B) (duplicateLines : List (B × B)) (traces : List Trace) : ∃ kept out : List Trace,
    (kept ++ out).Perm traces ∧
    kept.map Trace.moved = (withoutRepeated bits duplicateLines (traces.map Trace.moved)).1 ∧
    out.map Trace.moved = (withoutRepeated bits duplicateLines (traces.map Trace.moved)).2 := by
  induction traces generalizing duplicateLines with
  | nil => exact ⟨[], [], .nil, rfl, rfl⟩
  | cons head traces ih =>
    rw [List.map_cons, withoutRepeated]
    split
    · obtain ⟨kept, out, perm, keeps, leaves⟩ := ih duplicateLines
      exact ⟨head :: kept, out, perm.cons _, congrArg _ keeps, leaves⟩
    · split
      · obtain ⟨kept, out, perm, keeps, leaves⟩ := ih duplicateLines
        exact ⟨kept, head :: out, List.perm_middle.trans (perm.cons _), keeps, congrArg _ leaves⟩
      next key _ _ =>
        obtain ⟨kept, out, perm, keeps, leaves⟩ := ih (key :: duplicateLines)
        exact ⟨head :: kept, out, perm.cons _, congrArg _ keeps, leaves⟩

end Layer

end Ketchup.Dxf
