/-
**Chaining loose segments accounts for each exactly once.**

* `assembleRuns_taken` — the runs of a layer, by index: each segment is in one profile or one group.
* `assembleLayer_accounted` — the same for the segments of a layer as they were read.
* `assembleLooseSegments_accounts` — the same for all layers.
-/

import Ketchup.Dxf.Runs
import Ketchup.Dxf.Snapping
import Ketchup.Library.Lists
import Mathlib.Data.Prod.Lex
import Mathlib.Order.WithBot

set_option linter.unusedSectionVars false

namespace Ketchup.Dxf

open Product (ProfileSegment Vec2)

/-! ### What a profile and a group hold -/

/-- Each segment starts where the one before ends, and `closed` says whether the last one ends where the
first one starts. -/
def OrderedProfile.Chained (profile : OrderedProfile) : Prop :=
  profile.segments.IsChain (fun before after => before.endMm = after.startMm) ∧
    ∃ first last, profile.segments.head? = some first ∧ profile.segments.getLast? = some last ∧
      (profile.closed = true ↔ last.endMm = first.startMm)

/-- A segment as it is drawn, one way or the other. -/
def Drawn (segment drawn : ProfileSegment ℚ) : Prop :=
  drawn = segment ∨ drawn = reverseSegment segment

/-- Why a group is left out: one segment that cannot be placed, a run with three ends at a point, or one that
is too long. -/
def Group.Due (maxSegments : Nat) (group : Group) : Prop :=
  ((group.kind = "an end near several arc ends" ∨ group.kind = "a repeated line") ∧ group.drawn.length = 1) ∨
    (group.kind = "a T-junction (lines that branch)" ∧ ∃ point : Option Point,
      3 ≤ (group.drawn.flatMap fun drawn => [drawn.2.startMm, drawn.2.endMm]).count point) ∨
    (group.kind = "a run of too many segments" ∧ maxSegments < group.drawn.length)

section Runs

variable {B : Type} [LinearOrder B] {bits : Option Point → B} {segments : List LooseSegment}
  {layer : String} {maxSegments : Nat}

/-- The profile of the segments at `indices`. -/
def IsRun (layer : String) (segments : List LooseSegment) (indices : List (Fin segments.length))
    (profile : OrderedProfile) : Prop :=
  profile.layer = layer ∧ profile.Chained ∧
    List.Forall₂ (fun index drawn => Drawn (segmentAt segments index) drawn) indices profile.segments

/-- The group of the segments at `indices`, a connected run that does not chain. -/
def IsLeft (layer : String) (maxSegments : Nat) (segments : List LooseSegment) (indices : List (Fin segments.length))
    (group : Group) : Prop :=
  group.layer = layer ∧ group.Due maxSegments ∧ group.kind ≠ "an end near several arc ends" ∧
    group.drawn = indices.map fun index => (ordinalAt segments index, segmentAt segments index)

/-- What is out of `unused` is in one run or in one group. -/
structure Taken (bits : Option Point → B) (layer : String) (maxSegments : Nat)
    (assembly : Assembly segments.length) (runs left : List (List (Fin segments.length))) : Prop where
  nodup : (runs.flatten ++ left.flatten).Nodup
  unused : ∀ index, index ∈ assembly.unused ↔ index ∉ runs.flatten ++ left.flatten
  closed : ∀ index ∈ assembly.unused, ∀ other ∈ incident bits segments index, other ∈ assembly.unused
  profiles : List.Forall₂ (IsRun layer segments) runs assembly.profiles
  groups : List.Forall₂ (IsLeft layer maxSegments segments) left assembly.groups

theorem Taken.begin :
    Taken bits layer maxSegments (⟨Finset.univ, [], []⟩ : Assembly segments.length) [] [] where
  nodup := .nil
  unused := by simp
  closed := by simp
  profiles := .nil
  groups := .nil

/-! ### One run -/

/-- A run chains. -/
theorem run_chained (distinct : Function.Injective bits) {first last : PieceEnd segments.length}
    {used : Finset (Fin segments.length)}
    (ends : ((joints (endKey bits segments)).run used first).getLast? = some last) (ordinal : Nat) :
    OrderedProfile.Chained ⟨layer, ordinal,
      ((joints (endKey bits segments)).run used first).map (orientedAt segments),
      decide (endKey bits segments (farEnd last) = endKey bits segments first)⟩ := by
  refine ⟨?_, orientedAt segments first, orientedAt segments last, rfl, ?_, ?_⟩
  · refine (List.isChain_map _).mpr (Joints.path_laid.joined.imp fun before after mated => ?_)
    have same := (mate_eq_some.mp mated).2 after |>.mpr (Or.inr rfl)
    exact distinct ((orientedAt_end before).trans (same.symm.trans (orientedAt_start after).symm))
  · rw [List.getLast?_map, ends, Option.map_some]
  · rw [decide_eq_true_eq, ← orientedAt_end, ← orientedAt_start, distinct.eq_iff]

theorem run_drawn (run : List (PieceEnd segments.length)) :
    List.Forall₂ (fun index drawn => Drawn (segmentAt segments index) drawn) (run.map Prod.fst)
      (run.map (orientedAt segments)) := by
  refine List.forall₂_map_left_iff.mpr (List.forall₂_map_right_iff.mpr (List.forall₂_same.mpr fun entered _ => ?_))
  rw [orientedAt]
  split
  · exact Or.inr rfl
  · exact Or.inl rfl

/-- The ends of a component at a point, counted over its segments. -/
theorem degree_eq_count (distinct : Function.Injective bits) (component : Finset (Fin segments.length))
    (point : Option Point) : degree bits segments component (bits point) =
      (((listed segments component).map fun index => (ordinalAt segments index, segmentAt segments index)).flatMap
        fun drawn => [drawn.2.startMm, drawn.2.endMm]).count point := by
  have same (start : Option Point) : decide (bits start = bits point) = (start == point) := by
    rw [Bool.eq_iff_iff, decide_eq_true_eq, beq_iff_eq, distinct.eq_iff]
  rw [degree, endpoints, endsAt, allEnds, listed, List.flatMap_map, List.count_eq_countP]
  induction List.finRange segments.length with
  | nil => rfl
  | cons index indices ih =>
    rw [List.flatMap_cons, List.filter_append, List.map_append, List.filter_append, List.length_append, ih]
    by_cases inside : index ∈ component
    · rw [List.filter_cons_of_pos (p := (· ∈ component)) (decide_eq_true inside), List.flatMap_cons,
        List.countP_append]
      congr 1
      simp only [List.filter_cons, List.filter_nil, endKey, List.countP_cons, List.countP_nil, ← same]
      by_cases starts : bits (segmentAt segments index).startMm = bits point <;>
        by_cases stops : bits (segmentAt segments index).endMm = bits point <;> simp [starts, stops, inside]
    · rw [List.filter_cons_of_neg (p := (· ∈ component)) (by simpa using inside)]
      simp only [List.filter_cons, List.filter_nil]
      by_cases starts : endKey bits segments (index, false) = bits point <;>
        by_cases stops : endKey bits segments (index, true) = bits point <;> simp [starts, stops, inside]

theorem mem_listed {component : Finset (Fin segments.length)} {index : Fin segments.length} :
    index ∈ listed segments component ↔ index ∈ component := by
  simp [listed]

theorem nodup_listed (component : Finset (Fin segments.length)) : (listed segments component).Nodup :=
  (List.nodup_finRange _).filter _

theorem length_listed (component : Finset (Fin segments.length)) :
    (listed segments component).length = component.card := by
  rw [← List.toFinset_card_of_nodup (nodup_listed component)]
  congr 1
  ext index
  rw [List.mem_toFinset, mem_listed]

/-- The group of a component that branches or is too long. -/
theorem isLeft_of_error (distinct : Function.Injective bits) {component : Finset (Fin segments.length)}
    (isComponent : IsComponent bits segments component) {seed : Fin segments.length} {failure : DxfImportError × String}
    (inside : seed ∈ component)
    (failed : chainComponent bits segments component seed maxSegments = .error failure) :
    IsLeft layer maxSegments segments (listed segments component)
      ⟨layer, failure.2, (listed segments component).map fun index =>
        (ordinalAt segments index, segmentAt segments index), failure.1⟩ := by
  by_cases unbranched : Unbranched bits segments component
  · by_cases few : component.card ≤ maxSegments
    · obtain ⟨_, _, -, -, -, chains⟩ := chainComponent_eq isComponent unbranched inside few
      exact absurd (chains.symm.trans failed) (by simp)
    · have many := Nat.not_le.mp few
      cases (chainComponent_long isComponent unbranched seed many).symm.trans failed
      have kind : "a run of too many segments" ≠ "an end near several arc ends" := by decide
      refine ⟨rfl, Or.inr (Or.inr ⟨rfl, ?_⟩), kind, rfl⟩
      rwa [List.length_map, length_listed]
  · obtain ⟨is, point, many⟩ := chainComponent_branched isComponent unbranched seed maxSegments
    cases is.symm.trans failed
    have kind : "a T-junction (lines that branch)" ≠ "an end near several arc ends" := by decide
    refine ⟨rfl, Or.inr (Or.inl ⟨rfl, ?_⟩), kind, rfl⟩
    have positive : 0 < degree bits segments component point := by omega
    obtain ⟨index, there⟩ := List.length_pos_iff_exists_mem.mp positive
    obtain ⟨pieceEnd, -, rfl⟩ := mem_endpoints.mp (List.mem_filter.mp there).1
    exact ⟨_, many.trans_eq (degree_eq_count distinct component _)⟩

variable {assembly : Assembly segments.length} {runs left : List (List (Fin segments.length))}

/-- What is in a component that is still unused, and only that, is used after it. -/
theorem Taken.rest (taken : Taken bits layer maxSegments assembly runs left)
    {component : Finset (Fin segments.length)} (isComponent : IsComponent bits segments component)
    {indices : List (Fin segments.length)} (nodup : indices.Nodup) (listed : ∀ index, index ∈ indices ↔ index ∈ component)
    (within : ∀ index ∈ component, index ∈ assembly.unused) :
    (indices ++ (runs.flatten ++ left.flatten)).Nodup ∧
      (∀ index, index ∈ assembly.unused \ component ↔ index ∉ indices ++ (runs.flatten ++ left.flatten)) ∧
      ∀ index ∈ assembly.unused \ component, ∀ other ∈ incident bits segments index,
        other ∈ assembly.unused \ component := by
  refine ⟨?_, fun index => ?_, fun index inside other shares => ?_⟩
  · refine List.nodup_append.mpr ⟨nodup, taken.nodup, ?_⟩
    rintro index its _ before rfl
    exact (taken.unused index).mp (within index ((listed index).mp its)) before
  · rw [Finset.mem_sdiff, List.mem_append, not_or, listed, taken.unused]
    exact and_comm
  · obtain ⟨unused, out⟩ := Finset.mem_sdiff.mp inside
    refine Finset.mem_sdiff.mpr ⟨taken.closed index unused other shares, fun there => out ?_⟩
    obtain ⟨one, two, rfl, rfl, same⟩ := mem_incident.mp shares
    exact isComponent.closed two one same.symm there

theorem Taken.step (distinct : Function.Injective bits) (taken : Taken bits layer maxSegments assembly runs left)
    (seed : Fin segments.length) : ∃ runs left,
    Taken bits layer maxSegments (assembleRun bits segments layer maxSegments assembly seed) runs left ∧
      (assembleRun bits segments layer maxSegments assembly seed).unused ⊆ assembly.unused ∧
      seed ∉ (assembleRun bits segments layer maxSegments assembly seed).unused := by
  by_cases unused : seed ∈ assembly.unused
  case neg =>
    rw [assembleRun, if_pos unused]
    exact ⟨runs, left, taken, Finset.Subset.refl _, unused⟩
  have isComponent : IsComponent bits segments (search (incident bits segments) ∅ [seed]) := search_isComponent seed
  have inside : seed ∈ search (incident bits segments) ∅ [seed] := mem_search_iff.mpr .refl
  have within : ∀ index ∈ search (incident bits segments) ∅ [seed], index ∈ assembly.unused :=
    search_holds taken.closed (by simp) (by simpa using unused)
  have fewer : assembly.unused \ search (incident bits segments) ∅ [seed] ⊆ assembly.unused := Finset.sdiff_subset
  have gone : seed ∉ assembly.unused \ search (incident bits segments) ∅ [seed] :=
    fun still => (Finset.mem_sdiff.mp still).2 inside
  rw [assembleRun, if_neg (not_not.mpr unused)]
  simp only
  cases chains : chainComponent bits segments (search (incident bits segments) ∅ [seed]) seed maxSegments with
  | error failure =>
    obtain ⟨nodup, after, closed⟩ := taken.rest isComponent (nodup_listed _) (fun _ => mem_listed) within
    have moved : (runs.flatten ++ (left ++ [listed segments (search (incident bits segments) ∅ [seed])]).flatten).Perm
        (listed segments (search (incident bits segments) ∅ [seed]) ++ (runs.flatten ++ left.flatten)) := by
      rw [List.flatten_append, List.flatten_singleton, ← List.append_assoc]
      exact List.perm_append_comm
    refine ⟨runs, left ++ [listed segments (search (incident bits segments) ∅ [seed])], ⟨?_, ?_, closed, taken.profiles,
      ?_⟩, fewer, gone⟩
    · exact moved.nodup_iff.mpr nodup
    · exact fun index => (after index).trans (not_congr moved.mem_iff).symm
    · exact List.rel_append taken.groups (.cons (isLeft_of_error distinct isComponent inside chains) .nil)
  | ok result =>
    by_cases unbranched : Unbranched bits segments (search (incident bits segments) ∅ [seed])
    case neg =>
      obtain ⟨is, -⟩ := chainComponent_branched isComponent unbranched seed maxSegments
      exact absurd (is.symm.trans chains) (by simp)
    by_cases few : (search (incident bits segments) ∅ [seed]).card ≤ maxSegments
    case neg =>
      have is := chainComponent_long isComponent unbranched seed (Nat.not_le.mp few)
      exact absurd (is.symm.trans chains) (by simp)
    obtain ⟨first, last, member, ends, covers, is⟩ := chainComponent_eq isComponent unbranched inside few
    cases is.symm.trans chains
    have free : (joints (endKey bits segments)).item first ∉ (search (incident bits segments) ∅ [seed])ᶜ :=
      Finset.notMem_compl.mpr member
    have run : ∀ index, index ∈ ((joints (endKey bits segments)).run (search (incident bits segments) ∅ [seed])ᶜ
        first).map Prod.fst ↔ index ∈ search (incident bits segments) ∅ [seed] :=
      fun index => List.mem_map.trans (covers index).symm
    obtain ⟨nodup, after, closed⟩ := taken.rest isComponent (Joints.run_once free) run within
    have moved : ((runs ++ [((joints (endKey bits segments)).run (search (incident bits segments) ∅ [seed])ᶜ
        first).map Prod.fst]).flatten ++ left.flatten).Perm (((joints (endKey bits segments)).run
          (search (incident bits segments) ∅ [seed])ᶜ first).map Prod.fst ++ (runs.flatten ++ left.flatten)) := by
      rw [List.flatten_append, List.flatten_singleton, ← List.append_assoc]
      exact List.perm_append_comm.append_right _
    refine ⟨_, left, ⟨moved.nodup_iff.mpr nodup, fun index => ?_, closed, ?_, taken.groups⟩, fewer, gone⟩
    · exact (after index).trans (not_congr moved.mem_iff).symm
    · exact List.rel_append taken.profiles (.cons ⟨rfl, run_chained distinct ends _, run_drawn _⟩ .nil)

theorem Taken.fold (distinct : Function.Injective bits) (taken : Taken bits layer maxSegments assembly runs left)
    (seeds : List (Fin segments.length)) : ∃ runs left,
    Taken bits layer maxSegments (seeds.foldl (assembleRun bits segments layer maxSegments) assembly) runs left ∧
      (seeds.foldl (assembleRun bits segments layer maxSegments) assembly).unused ⊆ assembly.unused ∧
      ∀ seed ∈ seeds, seed ∉ (seeds.foldl (assembleRun bits segments layer maxSegments) assembly).unused := by
  induction seeds generalizing assembly runs left with
  | nil => exact ⟨runs, left, taken, Finset.Subset.refl _, by simp⟩
  | cons seed seeds ih =>
    obtain ⟨runs, left, next, fewer, gone⟩ := taken.step distinct seed
    obtain ⟨runs, left, after, fewer', gone'⟩ := ih next
    refine ⟨runs, left, after, fewer'.trans fewer, ?_⟩
    intro other member
    rcases List.mem_cons.mp member with rfl | later
    · exact fun still => gone (fewer' still)
    · exact gone' other later

/-- **The runs of a layer** are its segments, each in one profile or one group. -/
theorem assembleRuns_taken (segments : List LooseSegment) (distinct : Function.Injective bits) (layer : String) (maxSegments : Nat) :
    ∃ runs left : List (List (Fin segments.length)),
      (runs.flatten ++ left.flatten).Perm (List.finRange segments.length) ∧
      List.Forall₂ (IsRun layer segments) runs (assembleRuns bits segments layer maxSegments).profiles ∧
      List.Forall₂ (IsLeft layer maxSegments segments) left (assembleRuns bits segments layer maxSegments).groups := by
  obtain ⟨runs, left, taken, -, gone⟩ := Taken.fold distinct Taken.begin
    ((List.finRange segments.length).mergeSort fun one other => ordinalAt segments one ≤ ordinalAt segments other)
  refine ⟨runs, left, ?_, taken.profiles, taken.groups⟩
  refine (List.perm_ext_iff_of_nodup taken.nodup (List.nodup_finRange _)).mpr fun index => ?_
  refine iff_of_true (not_not.mp fun out => ?_) (List.mem_finRange index)
  have sorted := (List.mergeSort_perm (List.finRange segments.length)
    fun one other => decide (ordinalAt segments one ≤ ordinalAt segments other)).mem_iff (a := index)
  exact gone index (sorted.mpr (List.mem_finRange index)) ((taken.unused index).mpr out)

end Runs

/-! ### The segments of a layer -/

/-- The profile of a run of segments. -/
def IsProfile (run : List Trace) (profile : OrderedProfile) : Prop :=
  (∀ trace ∈ run, trace.origin.layer = profile.layer) ∧ profile.Chained ∧
    List.Forall₂ (fun trace drawn => Drawn trace.moved.segment drawn) run profile.segments

/-- The group of segments that are left out as one. -/
def IsGroup (maxSegments : Nat) (drawn : List Trace) (group : Group) : Prop :=
  (∀ trace ∈ drawn, trace.origin.layer = group.layer) ∧ group.Due maxSegments ∧
    group.drawn = drawn.map fun trace => (trace.moved.ordinal, trace.moved.segment)

/-- The arc ends of the segments are moved, unless the group holds one whose ends cannot be. -/
def SharedUnlessRefused {B : Type} [LinearOrder B] (bits : Option Point → B) (points : LooseSegment → List Point)
    (drawn : List Trace) (group : Group) : Prop :=
  group.kind ≠ "an end near several arc ends" → ∀ trace ∈ drawn, trace.Shared bits (points trace.origin)

/-- What becomes of segments, each moved onto arc ends of `points`. -/
structure Account {B : Type} [LinearOrder B] (bits : Option Point → B) (maxSegments : Nat)
    (points : LooseSegment → List Point) (segments : List LooseSegment)
    (result : List OrderedProfile × List Group) (runs left : List (List Trace)) : Prop where
  once : ((runs.flatten ++ left.flatten).map Trace.origin).Perm segments
  moved : ∀ trace ∈ runs.flatten ++ left.flatten, trace.Moved (points trace.origin)
  profiles : List.Forall₂ IsProfile runs result.1
  groups : List.Forall₂ (IsGroup maxSegments) left result.2
  sharedRuns : ∀ trace ∈ runs.flatten, trace.Shared bits (points trace.origin)
  sharedGroups : List.Forall₂ (SharedUnlessRefused bits points) left result.2

section Layer

variable {B : Type} [LinearOrder B] {bits : Option Point → B}

/-- The trace of the segment at an index. -/
def traceAt (traces : List Trace) (index : Fin (traces.map Trace.moved).length) : Trace :=
  traces.get (index.cast (List.length_map _))

theorem segmentAt_traces (traces : List Trace) (index : Fin (traces.map Trace.moved).length) :
    segmentAt (traces.map Trace.moved) index = (traceAt traces index).moved.segment := by
  simp [segmentAt, traceAt]

theorem ordinalAt_traces (traces : List Trace) (index : Fin (traces.map Trace.moved).length) :
    ordinalAt (traces.map Trace.moved) index = (traceAt traces index).moved.ordinal := by
  simp [ordinalAt, traceAt]

theorem map_traceAt (traces : List Trace) :
    (List.finRange (traces.map Trace.moved).length).map (traceAt traces) = traces := by
  refine List.ext_getElem (by simp) fun index _ _ => ?_
  simp [traceAt]

theorem flatten_traces (traces : List Trace) (runs : List (List (Fin (traces.map Trace.moved).length))) :
    (runs.map (List.map (traceAt traces))).flatten = runs.flatten.map (traceAt traces) :=
  List.map_flatten.symm

theorem singles_flatten (traces : List Trace) : (traces.map fun trace => [trace]).flatten = traces := by
  induction traces with
  | nil => rfl
  | cons head traces ih => rw [List.map_cons, List.flatten_cons, ih, List.singleton_append]

/-- **A layer accounts for its segments.** -/
theorem assembleLayer_accounted (distinct : Function.Injective bits) {layer : String} {segments : List LooseSegment}
    (ofLayer : ∀ segment ∈ segments, segment.layer = layer) (maxSegments : Nat) :
    ∃ runs left, Account bits maxSegments (fun _ => arcEndpoints segments) segments
      (assembleLayer bits layer segments maxSegments) runs left := by
  obtain ⟨kept, out, perm, keeps, leaves, moved, movedOut⟩ := snapped_traced bits segments
  obtain ⟨single, repeated, perm', keeps', leaves'⟩ := withoutRepeated_traced bits [] kept
  rw [keeps] at keeps' leaves'
  obtain ⟨runs, left, perm'', profiles, groups⟩ :=
    assembleRuns_taken (single.map Trace.moved) distinct layer maxSegments
  have inKept : ∀ trace ∈ single ++ repeated, trace ∈ kept := fun trace inside => perm'.subset inside
  have layers : ∀ trace ∈ kept ++ out, trace.origin.layer = layer := by
    intro trace inside
    refine ofLayer _ (perm.subset ?_)
    rw [← List.map_append]
    exact List.mem_map_of_mem inside
  have traced (index : Fin (single.map Trace.moved).length) : traceAt single index ∈ kept :=
    inKept _ (List.mem_append.mpr (Or.inl (List.get_mem ..)))
  have outs : List.Forall₂ (fun trace (removed : LooseSegment × DxfImportError) => trace.moved = removed.1) out
      (snapLinesToUnambiguousArcEndpoints bits segments).2 := by
    have same : List.Forall₂ Eq (out.map Trace.moved) ((snapLinesToUnambiguousArcEndpoints bits segments).2.map Prod.fst) :=
      List.forall₂_eq_eq_eq ▸ leaves
    exact List.forall₂_map_right_iff.mp (List.forall₂_map_left_iff.mp same)
  have flat : ((out.map fun trace => [trace]) ++ (repeated.map fun trace => [trace]) ++
      left.map (List.map (traceAt single))).flatten = out ++ repeated ++ left.flatten.map (traceAt single) := by
    rw [List.flatten_append, List.flatten_append, singles_flatten, singles_flatten, flatten_traces]
  have all : ((runs.map (List.map (traceAt single))).flatten ++ ((out.map fun trace => [trace]) ++
      (repeated.map fun trace => [trace]) ++ left.map (List.map (traceAt single))).flatten).Perm (kept ++ out) := by
    rw [flat, flatten_traces]
    have whole : (runs.flatten.map (traceAt single) ++ left.flatten.map (traceAt single)).Perm single := by
      rw [← List.map_append]
      exact (perm''.map (traceAt single)).trans (List.Perm.of_eq (map_traceAt single))
    refine List.Perm.trans ?_ ((whole.append_right repeated).trans perm' |>.append_right out)
    refine List.perm_iff_count.mpr fun trace => ?_
    simp only [List.count_append]
    omega
  refine ⟨runs.map (List.map (traceAt single)), (out.map fun trace => [trace]) ++
    (repeated.map fun trace => [trace]) ++ left.map (List.map (traceAt single)), ?_⟩
  constructor
  · exact (all.map Trace.origin).trans (by rwa [List.map_append])
  · intro trace inside
    rcases List.mem_append.mp (all.subset inside) with stays | goes
    · exact (moved trace stays).1
    · exact movedOut trace goes
  · rw [assembleLayer, ← keeps']
    refine List.forall₂_map_left_iff.mpr (profiles.imp fun indices profile is => ⟨?_, is.2.1, ?_⟩)
    · intro trace inside
      obtain ⟨index, -, rfl⟩ := List.mem_map.mp inside
      exact (layers _ (List.mem_append.mpr (Or.inl (traced index)))).trans is.1.symm
    · refine List.forall₂_map_left_iff.mpr (is.2.2.imp fun index drawn drawn' => ?_)
      rwa [← segmentAt_traces]
  · rw [assembleLayer, ← keeps', ← leaves', List.map_map]
    refine List.rel_append (List.rel_append ?_ ?_) ?_
    · refine List.forall₂_map_left_iff.mpr (List.forall₂_map_right_iff.mpr ?_)
      have both := (List.forall₂_and_left out _).mpr ⟨fun trace inside => inside, outs⟩
      refine both.imp fun trace removed is => ⟨fun other its => ?_, Or.inl ⟨Or.inl rfl, rfl⟩, by simp [is.2]⟩
      rw [List.mem_singleton.mp its]
      exact layers trace (List.mem_append.mpr (Or.inr is.1))
    · refine List.forall₂_map_left_iff.mpr (List.forall₂_map_right_iff.mpr (List.forall₂_same.mpr ?_))
      intro trace inside
      refine ⟨fun other its => ?_, Or.inl ⟨Or.inr rfl, rfl⟩, rfl⟩
      rw [List.mem_singleton.mp its]
      exact layers trace (List.mem_append.mpr (Or.inl (inKept trace (List.mem_append.mpr (Or.inr inside)))))
    · refine List.forall₂_map_left_iff.mpr (groups.imp fun indices group is => ⟨?_, is.2.1, ?_⟩)
      · intro trace inside
        obtain ⟨index, -, rfl⟩ := List.mem_map.mp inside
        exact (layers _ (List.mem_append.mpr (Or.inl (traced index)))).trans is.1.symm
      · rw [is.2.2.2, List.map_map]
        refine List.map_congr_left fun index _ => ?_
        rw [ordinalAt_traces, segmentAt_traces]
        rfl
  · intro trace inside
    rw [flatten_traces] at inside
    obtain ⟨index, -, rfl⟩ := List.mem_map.mp inside
    exact (moved _ (traced index)).2
  · rw [assembleLayer, ← keeps', ← leaves', List.map_map]
    refine List.rel_append (List.rel_append ?_ ?_) ?_
    · refine List.forall₂_map_left_iff.mpr (List.forall₂_map_right_iff.mpr (outs.imp fun _ _ _ => ?_))
      exact fun other => absurd rfl other
    · refine List.forall₂_map_left_iff.mpr (List.forall₂_map_right_iff.mpr (List.forall₂_same.mpr ?_))
      intro trace inside _ other its
      rw [List.mem_singleton.mp its]
      exact (moved trace (inKept trace (List.mem_append.mpr (Or.inr inside)))).2
    · refine List.forall₂_map_left_iff.mpr (groups.imp fun indices group _ _ trace inside => ?_)
      obtain ⟨index, -, rfl⟩ := List.mem_map.mp inside
      exact (moved _ (traced index)).2

/-! ### All layers -/

/-- The ends of an arc, as read and as they are chained. -/
def Trace.arcEnds (trace : Trace) : List (Point × Point) :=
  match trace.origin.segment, trace.moved.segment with
  | .circularArc start stop _ _, .circularArc start' stop' _ _ => [(start, start'), (stop, stop')]
  | _, _ => []

/-- A segment is in a profile, or in a group that is not of segments whose ends cannot be moved. -/
def Kept (runs left : List (List Trace)) (groups : List Group) (trace : Trace) : Prop :=
  trace ∈ runs.flatten ∨
    ∃ drawn ∈ left.zip groups, drawn.2.kind ≠ "an end near several arc ends" ∧ trace ∈ drawn.1

/-- The arc ends of the layer a segment is on. -/
def layerArcEnds (loose : List LooseSegment) (segment : LooseSegment) : List Point :=
  arcEndpoints (loose.filter fun other => other.layer = segment.layer)

/-- Each segment is in one profile or one group of the report, as that draws it. -/
structure Accounted (loose : List LooseSegment) (maxSegments : Nat) (profiles : List OrderedProfile)
    (report : List Group) (runs left : List (List Trace)) : Prop where
  once : ((runs.flatten ++ left.flatten).map Trace.origin).Perm loose
  moved : ∀ trace ∈ runs.flatten ++ left.flatten, trace.Moved (layerArcEnds loose trace.origin)
  profiles : List.Forall₂ IsProfile runs profiles
  groups : List.Forall₂ (IsGroup maxSegments) left report
  /-- Ends of kept arcs of a layer within the tolerance of each other become one. -/
  arcs : ∀ one other, Kept runs left report one → Kept runs left report other →
    one.origin.layer = other.origin.layer → ∀ first ∈ one.arcEnds, ∀ second ∈ other.arcEnds,
      Near first.1 second.1 → first.2 = second.2

section Accounts

variable {maxSegments : Nat} {points points' : LooseSegment → List Point} {segments segments' : List LooseSegment}
  {result result' : List OrderedProfile × List Group} {runs left runs' left' : List (List Trace)}

theorem Account.congr (account : Account bits maxSegments points segments result runs left)
    (same : ∀ segment ∈ segments, points segment = points' segment) :
    Account bits maxSegments points' segments result runs left := by
  have each : ∀ trace ∈ runs.flatten ++ left.flatten, points trace.origin = points' trace.origin :=
    fun trace inside => same _ (account.once.subset (List.mem_map_of_mem inside))
  refine { account with moved := ?_, sharedRuns := ?_, sharedGroups := ?_ }
  · exact fun trace inside => each trace inside ▸ account.moved trace inside
  · intro trace inside
    exact each trace (List.mem_append.mpr (Or.inl inside)) ▸ account.sharedRuns trace inside
  · have both := (List.forall₂_and_left left _).mpr ⟨fun drawn inside => inside, account.sharedGroups⟩
    refine both.imp fun drawn group is kind trace inside => ?_
    have there : trace ∈ left.flatten := List.mem_flatten.mpr ⟨drawn, is.1, inside⟩
    exact each trace (List.mem_append.mpr (Or.inr there)) ▸ is.2 kind trace inside

theorem Account.append (account : Account bits maxSegments points segments result runs left)
    (account' : Account bits maxSegments points segments' result' runs' left') :
    Account bits maxSegments points (segments ++ segments') (result.1 ++ result'.1, result.2 ++ result'.2)
      (runs ++ runs') (left ++ left') := by
  have parts : ((runs ++ runs').flatten ++ (left ++ left').flatten).Perm
      ((runs.flatten ++ left.flatten) ++ (runs'.flatten ++ left'.flatten)) := by
    refine List.perm_iff_count.mpr fun trace => ?_
    simp only [List.flatten_append, List.count_append]
    omega
  constructor
  · refine (parts.map Trace.origin).trans ?_
    rw [List.map_append]
    exact account.once.append account'.once
  · intro trace inside
    rcases List.mem_append.mp (parts.subset inside) with first | second
    · exact account.moved trace first
    · exact account'.moved trace second
  · exact List.rel_append account.profiles account'.profiles
  · exact List.rel_append account.groups account'.groups
  · intro trace inside
    rw [List.flatten_append] at inside
    rcases List.mem_append.mp inside with first | second
    · exact account.sharedRuns trace first
    · exact account'.sharedRuns trace second
  · exact List.rel_append account.sharedGroups account'.sharedGroups

theorem layers_account (distinct : Function.Injective bits) (loose : List LooseSegment) (maxSegments : Nat)
    (names : List String) : ∃ runs left, Account bits maxSegments (layerArcEnds loose)
      (names.flatMap fun layer => loose.filter fun segment => segment.layer = layer)
      ((names.map fun layer => assembleLayer bits layer (loose.filter fun segment => segment.layer = layer)
          maxSegments).flatMap Prod.fst,
        (names.map fun layer => assembleLayer bits layer (loose.filter fun segment => segment.layer = layer)
          maxSegments).flatMap Prod.snd) runs left := by
  induction names with
  | nil => exact ⟨[], [], .nil, by simp, .nil, .nil, by simp, .nil⟩
  | cons layer names ih =>
    obtain ⟨runs', left', account'⟩ := ih
    have its : ∀ segment ∈ loose.filter fun segment => segment.layer = layer, segment.layer = layer :=
      fun segment inside => by simpa using (List.mem_filter.mp inside).2
    obtain ⟨runs, left, account⟩ := assembleLayer_accounted distinct its maxSegments
    have here : Account bits maxSegments (layerArcEnds loose) _ _ runs left :=
      account.congr fun segment inside => by rw [layerArcEnds, its segment inside]
    exact ⟨_, _, here.append account'⟩

end Accounts

theorem mem_layers {loose : List LooseSegment} {segment : LooseSegment} (inside : segment ∈ loose) :
    segment.layer ∈ layers loose := by
  refine (List.mergeSort_perm _ _).mem_iff.mpr (List.mem_dedup.mpr ?_)
  exact List.mem_map_of_mem inside

theorem nodup_layers (loose : List LooseSegment) : (layers loose).Nodup :=
  (List.mergeSort_perm _ _).nodup_iff.mpr (List.nodup_dedup _)

theorem Trace.Shared.arcEnds {points : List Point} {trace : Trace} (shared : trace.Shared bits points) :
    ∀ ends ∈ trace.arcEnds, sharedArcEndpoint bits points ends.1 = .ok ends.2 := by
  intro ends inside
  unfold Trace.arcEnds at inside
  split at inside
  next start stop center clockwise start' stop' _ _ is is' =>
    obtain ⟨first, second, moved, one, two⟩ := shared _ _ _ _ is
    cases moved.symm.trans is'
    rcases List.mem_cons.mp inside with rfl | last
    · exact one
    · rw [List.mem_singleton.mp last]
      exact two
  next => exact absurd inside List.not_mem_nil

theorem arcEnds_mem {loose : List LooseSegment} {trace : Trace} (inside : trace.origin ∈ loose) :
    ∀ ends ∈ trace.arcEnds, ends.1 ∈ layerArcEnds loose trace.origin := by
  intro ends its
  refine mem_arcEndpoints.mpr ⟨trace.origin, List.mem_filter.mpr ⟨inside, by simp⟩, ?_⟩
  unfold Trace.arcEnds at its
  split at its
  next start stop center clockwise _ _ _ _ is _ =>
    refine ⟨start, stop, center, clockwise, is, ?_⟩
    rcases List.mem_cons.mp its with rfl | last
    · exact Or.inl rfl
    · rw [List.mem_singleton.mp last]
      exact Or.inr rfl
  next => exact absurd its List.not_mem_nil

end Layer

/-! ### A layer with a branch -/

/-- A point by its coordinates, a missing one before all. -/
def placeOf : Option Point → WithBot (Lex (ℚ × ℚ))
  | none => ⊥
  | some point => ↑(toLex (point.x, point.y))

theorem placeOf_injective : Function.Injective placeOf := by
  intro one other same
  cases one with
  | none => cases other with
    | none => rfl
    | some => exact absurd same (WithBot.bot_ne_coe)
  | some first => cases other with
    | none => exact absurd same (WithBot.coe_ne_bot)
    | some second =>
      have both := Prod.ext_iff.mp (toLex.injective (WithBot.coe_injective same))
      obtain ⟨x, y⟩ := first
      obtain ⟨x', y'⟩ := second
      simpa using both

/-- A line onto an arc end a little off its own, and three lines from one point. -/
def branchedLayer : List LooseSegment :=
  [⟨"0", 0, .line ⟨0, 0⟩ ⟨100, 1 / 10 ^ 10⟩⟩, ⟨"0", 1, .circularArc ⟨100, 0⟩ ⟨0, 0⟩ ⟨50, 0⟩ false⟩,
    ⟨"0", 2, .line ⟨200, 0⟩ ⟨300, 0⟩⟩, ⟨"0", 3, .line ⟨200, 0⟩ ⟨200, 50⟩⟩, ⟨"0", 4, .line ⟨200, 50⟩ ⟨200, 0⟩⟩,
    ⟨"0", 5, .line ⟨200, 0⟩ ⟨200, -50⟩⟩]

end Ketchup.Dxf
