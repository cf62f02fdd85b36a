/-
**The triangles at a vertex, searched and as they are.**

With every directed edge used once each way, the triangle after one at a vertex is the one across the
edge into that vertex (`Next`); going on so is a permutation of the triangles (`exists_turn`).

* `mem_neighbours_iff` — the neighbours the search follows are the next triangle and the one before.
* `fansAreManifold_iff` — they are two at each triangle, and lead from one triangle at a vertex to all
  of them, exactly when the triangles at each vertex form one cycle (`Fan`).
-/

import Ketchup.Mesh.Edges
import Mathlib.GroupTheory.Perm.Cycle.Basic
import Mathlib.Data.Fintype.EquivFin

namespace Ketchup.Mesh

open Relation

variable {triangles : List Triangle}

/-- A vertex of a triangle. -/
def HasVertex (index : Fin triangles.length) (vertex : Nat) : Prop :=
  vertex = (triangles.get index).1 ∨ vertex = (triangles.get index).2.1 ∨ vertex = (triangles.get index).2.2

/-- No two triangles have the same three vertices. -/
def NoRepeats (triangles : List Triangle) : Prop :=
  ∀ one two : Fin triangles.length, (∀ vertex, HasVertex one vertex ↔ HasVertex two vertex) → one = two

/-- Two triangles have an edge at a vertex in common. -/
def Shares (vertex : Nat) (one two : Fin triangles.length) : Prop :=
  ∃ far, (HasEdge one (vertex, far) ∨ HasEdge one (far, vertex)) ∧ (HasEdge two (vertex, far) ∨ HasEdge two (far, vertex))

/-- **The triangles at a vertex form one cycle**, in which neighbours share an edge at that vertex. -/
def Fan (triangles : List Triangle) (vertex : Nat) : Prop :=
  (∃ index : Fin triangles.length, HasVertex index vertex) ∧
    ∃ turn : Equiv.Perm (Fin triangles.length), turn.IsCycleOn {index | HasVertex index vertex} ∧
      ∀ index, HasVertex index vertex → Shares vertex index (turn index)

/-- The triangle across the edge into a vertex. -/
def Next (vertex : Nat) (one two : Fin triangles.length) : Prop := ∃ far, HasEdge one (far, vertex) ∧ HasEdge two (vertex, far)

/-! ### One triangle -/

section Triangle

variable {index : Fin triangles.length} {vertex : Nat}

theorem hasVertex_of_edge {edge : ℕ × ℕ} (has : HasEdge index edge) : HasVertex index edge.1 ∧ HasVertex index edge.2 := by
  unfold HasEdge edgesOf at has
  simp only [List.mem_cons, List.not_mem_nil, or_false] at has
  rcases has with rfl | rfl | rfl <;> simp [HasVertex]

/-- The edges of a triangle as one of its vertices sees them. -/
theorem around (has : HasVertex index vertex) :
    ∃ before after, HasEdge index (before, vertex) ∧ HasEdge index (vertex, after) ∧
      ∀ other, HasVertex index other ↔ other = vertex ∨ other = before ∨ other = after := by
  unfold HasVertex HasEdge edgesOf at *
  rcases has with rfl | rfl | rfl
  · refine ⟨_, _, List.mem_cons_of_mem _ (List.mem_cons_of_mem _ List.mem_cons_self), List.mem_cons_self, fun other => ?_⟩
    tauto
  · refine ⟨_, _, List.mem_cons_self, List.mem_cons_of_mem _ List.mem_cons_self, fun other => ?_⟩
    tauto
  · refine ⟨_, _, List.mem_cons_of_mem _ List.mem_cons_self,
      List.mem_cons_of_mem _ (List.mem_cons_of_mem _ List.mem_cons_self), fun other => ?_⟩
    tauto

variable {count : Nat} (proper : Proper triangles count)

include proper

theorem into_unique {one two : Nat} (hasOne : HasEdge index (one, vertex)) (hasTwo : HasEdge index (two, vertex)) : one = two := by
  obtain ⟨⟨first, second, third⟩, -⟩ := proper _ (List.get_mem triangles index)
  unfold HasEdge edgesOf at hasOne hasTwo
  simp only [List.mem_cons, Prod.mk.injEq, List.not_mem_nil, or_false] at hasOne hasTwo
  grind

theorem from_unique {one two : Nat} (hasOne : HasEdge index (vertex, one)) (hasTwo : HasEdge index (vertex, two)) : one = two := by
  obtain ⟨⟨first, second, third⟩, -⟩ := proper _ (List.get_mem triangles index)
  unfold HasEdge edgesOf at hasOne hasTwo
  simp only [List.mem_cons, Prod.mk.injEq, List.not_mem_nil, or_false] at hasOne hasTwo
  grind

/-- No triangle has an edge both ways. -/
theorem not_both {edge : ℕ × ℕ} (has : HasEdge index edge) : ¬HasEdge index edge.swap := by
  obtain ⟨⟨first, second, third⟩, -⟩ := proper _ (List.get_mem triangles index)
  unfold HasEdge edgesOf at *
  simp only [List.mem_cons, List.not_mem_nil, or_false, Prod.ext_iff, Prod.fst_swap, Prod.snd_swap] at *
  grind

end Triangle

/-! ### Going around a vertex -/

variable {count : Nat} (proper : Proper triangles count) (once : EdgesOnce triangles)

section Turn

variable {vertex : Nat} {one two : Fin triangles.length}

theorem Next.left (next : Next vertex one two) : HasVertex one vertex := by
  obtain ⟨far, into, -⟩ := next
  exact (hasVertex_of_edge into).2

theorem Next.right (next : Next vertex one two) : HasVertex two vertex := by
  obtain ⟨far, -, onward⟩ := next
  exact (hasVertex_of_edge onward).1

theorem Next.shares (next : Next vertex one two) : Shares vertex one two := by
  obtain ⟨far, into, onward⟩ := next
  exact ⟨far, Or.inr into, Or.inl onward⟩

include once in
theorem exists_next (has : HasVertex one vertex) : ∃ two, Next vertex one two := by
  obtain ⟨before, -, into, -⟩ := around has
  obtain ⟨two, hasTwo, -⟩ := (once one _ into).2
  exact ⟨two, before, into, hasTwo⟩

include once in
theorem exists_previous (has : HasVertex two vertex) : ∃ one, Next vertex one two := by
  obtain ⟨-, after, -, onward, -⟩ := around has
  obtain ⟨one, hasOne, -⟩ := (once two _ onward).2
  exact ⟨one, after, hasOne, onward⟩

include proper in
theorem Next.ne (next : Next vertex one two) : one ≠ two := by
  rintro rfl
  obtain ⟨far, into, onward⟩ := next
  exact not_both proper into onward

include proper in
/-- A triangle that were both next and before would have the same three vertices. -/
theorem Next.not_back (noRepeats : NoRepeats triangles) (next : Next vertex one two) : ¬Next vertex two one := by
  intro back
  refine next.ne proper (noRepeats one two fun other => ?_)
  obtain ⟨before, after, into, onward, whole⟩ := around next.left
  obtain ⟨otherBefore, otherAfter, otherInto, otherOnward, otherWhole⟩ := around next.right
  obtain ⟨far, nextInto, nextOnward⟩ := next
  obtain ⟨near, backInto, backOnward⟩ := back
  rw [whole, otherWhole, into_unique proper into nextInto, from_unique proper onward backOnward,
    into_unique proper otherInto backInto, from_unique proper otherOnward nextOnward]
  tauto

include proper once

theorem next_unique {three : Fin triangles.length} (nextTwo : Next vertex one two) (nextThree : Next vertex one three) :
    two = three := by
  obtain ⟨far, into, onward⟩ := nextTwo
  obtain ⟨also, intoAlso, onwardAlso⟩ := nextThree
  obtain rfl := into_unique proper into intoAlso
  exact (once one _ into).2.unique onward onwardAlso

theorem previous_unique {three : Fin triangles.length} (nextOne : Next vertex one three) (nextTwo : Next vertex two three) :
    one = two := by
  obtain ⟨far, into, onward⟩ := nextOne
  obtain ⟨also, intoAlso, onwardAlso⟩ := nextTwo
  obtain rfl := from_unique proper onward onwardAlso
  exact (once three _ onward).2.unique into intoAlso

theorem mem_neighbours_iff : two ∈ neighbours triangles vertex one ↔ Next vertex one two ∨ Next vertex two one := by
  -- the entry of an edge lists the triangles on its two sides, in some order
  have sides : ∀ {index : Fin triangles.length} {edge : ℕ × ℕ}, HasEdge index edge → ∃ other, HasEdge other edge.swap ∧
      ((edgeUses triangles (keyOf edge)).triangles = [index, other] ∨
        (edgeUses triangles (keyOf edge)).triangles = [other, index]) := by
    intro index edge has
    obtain ⟨other, hasSwap, perm⟩ := usesOf_perm proper once has
    refine ⟨other, hasSwap, ?_⟩
    rw [edgeUses_eq]
    exact List.perm_pair.mp (perm.map Prod.snd)
  unfold neighbours edgeKeys
  rw [List.mem_dedup, List.mem_flatMap]
  constructor
  · rintro ⟨_, inside, led⟩
    obtain ⟨⟨edge, index⟩, has, rfl⟩ := List.mem_map.mp inside
    rw [mem_directed] at has
    obtain ⟨other, hasSwap, is⟩ := sides has
    unfold beside at led
    split at led
    · next there =>
      have ends : vertex = edge.1 ∨ vertex = edge.2 := by
        simp only [keyOf] at there
        omega
      have between : (one = index ∧ two = other) ∨ (one = other ∧ two = index) := by
        rcases is with is | is <;> simp only [is] at led <;> grind
      have either : ∀ {left right : Fin triangles.length}, HasEdge left edge → HasEdge right edge.swap →
          Next vertex left right ∨ Next vertex right left := by
        intro left right hasLeft hasRight
        rcases ends with rfl | rfl
        · exact Or.inr ⟨edge.2, hasRight, hasLeft⟩
        · exact Or.inl ⟨edge.1, hasLeft, hasRight⟩
      rcases between with ⟨rfl, rfl⟩ | ⟨rfl, rfl⟩
      · exact either has hasSwap
      · exact (either has hasSwap).symm
    · exact absurd led List.not_mem_nil
  · have listed : ∀ {left right : Fin triangles.length}, Next vertex left right →
        (one = left ∧ two = right) ∨ (one = right ∧ two = left) →
        ∃ key ∈ (directed triangles).map fun use => keyOf use.1, two ∈ beside triangles vertex one key := by
      rintro left right ⟨far, into, onward⟩ between
      obtain ⟨other, hasSwap, is⟩ := sides into
      obtain rfl : other = right := (once left _ into).2.unique hasSwap onward
      refine ⟨keyOf (far, vertex), List.mem_map.mpr ⟨((far, vertex), left), mem_directed.mpr into, rfl⟩, ?_⟩
      unfold beside
      rw [if_pos (by simp only [keyOf]; omega)]
      rcases is with is | is <;> simp only [is] <;> grind
    rintro (next | back)
    · exact listed next (Or.inl ⟨rfl, rfl⟩)
    · exact listed back (Or.inr ⟨rfl, rfl⟩)

/-- **Going on around a vertex is a permutation**, that leaves the other triangles alone. -/
theorem exists_turn (vertex : Nat) : ∃ turn : Equiv.Perm (Fin triangles.length),
    (∀ index, HasVertex index vertex → Next vertex index (turn index)) ∧
      ∀ index, ¬HasVertex index vertex → turn index = index := by
  classical
  have total : ∀ index : Fin triangles.length, ∃ other, if HasVertex index vertex then Next vertex index other else other = index := by
    intro index
    by_cases has : HasVertex index vertex
    · simpa only [has, if_true] using exists_next once has
    · simp only [has, if_false, exists_eq]
  choose turn turns using total
  have goes : ∀ index, HasVertex index vertex → Next vertex index (turn index) := by
    intro index has
    simpa only [has, if_true] using turns index
  have stays : ∀ index, ¬HasVertex index vertex → turn index = index := by
    intro index apart
    simpa only [apart, if_false] using turns index
  have injective : Function.Injective turn := by
    intro left right same
    by_cases hasLeft : HasVertex left vertex <;> by_cases hasRight : HasVertex right vertex
    · exact previous_unique proper once (goes left hasLeft) (same ▸ goes right hasRight)
    · exact absurd ((stays right hasRight ▸ same) ▸ (goes left hasLeft).right) hasRight
    · exact absurd ((stays left hasLeft ▸ same).symm ▸ (goes right hasRight).right) hasLeft
    · rwa [stays left hasLeft, stays right hasRight] at same
  exact ⟨Equiv.ofBijective turn (Finite.injective_iff_bijective.mp injective), goes, stays⟩

end Turn

/-! ### The search -/

theorem mem_incident {vertex : Nat} {index : Fin triangles.length} :
    index ∈ incident triangles vertex ↔ HasVertex index vertex := by
  simp [incident, HasVertex]

include proper once

/-- Each triangle at a vertex has two neighbours there. -/
theorem neighbours_length (noRepeats : NoRepeats triangles) {vertex : Nat} {index : Fin triangles.length}
    (has : HasVertex index vertex) : (neighbours triangles vertex index).length = 2 := by
  obtain ⟨after, next⟩ := exists_next once has
  obtain ⟨before, previous⟩ := exists_previous once has
  have apart : after ≠ before := by
    rintro rfl
    exact next.not_back proper noRepeats previous
  have nodup : (neighbours triangles vertex index).Nodup := List.nodup_dedup _
  have perm : (neighbours triangles vertex index).Perm [after, before] := by
    refine (List.perm_ext_iff_of_nodup nodup (by simpa using apart)).mpr fun other => ?_
    rw [mem_neighbours_iff proper once, List.mem_cons, List.mem_singleton]
    constructor
    · rintro (also | also)
      · exact Or.inl (next_unique proper once also next)
      · exact Or.inr (previous_unique proper once also previous)
    · rintro (rfl | rfl)
      · exact Or.inl next
      · exact Or.inr previous
  exact perm.length_eq

/-- Triangles that share an edge at a vertex are neighbours there. -/
theorem mem_neighbours_of_shares {vertex : Nat} {one two : Fin triangles.length} (shares : Shares vertex one two)
    (apart : one ≠ two) : two ∈ neighbours triangles vertex one := by
  rw [mem_neighbours_iff proper once]
  obtain ⟨far, hasOne, hasTwo⟩ := shares
  rcases hasOne with onward | into <;> rcases hasTwo with onwardTwo | intoTwo
  · exact absurd ((once one _ onward).1.unique onward onwardTwo) apart
  · exact Or.inr ⟨far, intoTwo, onward⟩
  · exact Or.inl ⟨far, into, onwardTwo⟩
  · exact absurd ((once one _ into).1.unique into intoTwo) apart

theorem reached_hasVertex {vertex : Nat} {start other : Fin triangles.length} (has : HasVertex start vertex)
    (reached : ReflTransGen (fun one two => two ∈ neighbours triangles vertex one) start other) : HasVertex other vertex := by
  induction reached with
  | refl => exact has
  | tail _ led _ =>
    rcases (mem_neighbours_iff proper once).mp led with next | back
    · exact next.right
    · exact back.left

/-- One cycle is searched whole. -/
theorem reached_of_cycle {vertex : Nat} {turn : Equiv.Perm (Fin triangles.length)}
    (cycle : turn.IsCycleOn {index | HasVertex index vertex})
    (shares : ∀ index, HasVertex index vertex → Shares vertex index (turn index))
    {start other : Fin triangles.length} (hasStart : HasVertex start vertex) (hasOther : HasVertex other vertex) :
    ReflTransGen (fun one two => two ∈ neighbours triangles vertex one) start other := by
  obtain ⟨times, -, rfl⟩ := (cycle.2 hasStart hasOther).exists_pow_eq'
  clear hasOther
  induction times with
  | zero => exact .refl
  | succ times ih =>
    have has := reached_hasVertex proper once hasStart ih
    rw [pow_succ', Equiv.Perm.mul_apply]
    by_cases same : (turn ^ times) start = turn ((turn ^ times) start)
    · rwa [← same]
    · exact ih.tail (mem_neighbours_of_shares proper once (shares _ has) same)

/-- What is searched whole is one cycle. -/
theorem cycle_of_reached {vertex : Nat} {start : Fin triangles.length}
    (reached : ∀ other, HasVertex other vertex →
      ReflTransGen (fun one two => two ∈ neighbours triangles vertex one) start other) :
    ∃ turn : Equiv.Perm (Fin triangles.length), turn.IsCycleOn {index | HasVertex index vertex} ∧
      ∀ index, HasVertex index vertex → Shares vertex index (turn index) := by
  obtain ⟨turn, goes, stays⟩ := exists_turn proper once vertex
  have turned : ∀ {one two}, Next vertex one two → turn one = two :=
    fun next => next_unique proper once (goes _ next.left) next
  have sameCycle : ∀ other, ReflTransGen (fun one two => two ∈ neighbours triangles vertex one) start other →
      turn.SameCycle start other := by
    intro other reached
    induction reached with
    | refl => exact .refl _ _
    | tail _ led ih =>
      rcases (mem_neighbours_iff proper once).mp led with next | back
      · rw [← turned next]
        exact ih.apply_right
      · rw [← turned back] at ih
        exact Equiv.Perm.sameCycle_apply_right.mp ih
  refine ⟨turn, ⟨?_, fun one hasOne two hasTwo => ?_⟩, fun index has => (goes index has).shares⟩
  · refine ⟨fun index has => (goes index has).right, turn.injective.injOn, fun index has => ?_⟩
    obtain ⟨before, previous⟩ := exists_previous once has
    exact ⟨before, previous.left, turned previous⟩
  · exact (sameCycle one (reached one hasOne)).symm.trans (sameCycle two (reached two hasTwo))

/-- **Two neighbours each, and all reached: one cycle at each vertex.** -/
theorem fansAreManifold_iff (noRepeats : NoRepeats triangles) (vertexCount : Nat) :
    fansAreManifold triangles vertexCount = true ↔ ∀ vertex < vertexCount, Fan triangles vertex := by
  unfold fansAreManifold
  rw [List.all_eq_true]
  refine forall_congr' fun vertex => ?_
  rw [List.mem_range]
  refine imp_congr_right fun _ => ?_
  have members := @mem_incident triangles vertex
  cases faces : incident triangles vertex with
  | nil =>
    simp only [faces, List.not_mem_nil, false_iff] at members
    simp [Fan, members]
  | cons start faces' =>
    rw [faces] at members
    have hasStart := members.mp List.mem_cons_self
    have two : (start :: faces').all (fun face => (neighbours triangles vertex face).length = 2) = true := by
      simp only [List.all_eq_true, decide_eq_true_eq]
      exact fun face inside => neighbours_length proper once noRepeats (members.mp inside)
    simp only [two, Bool.true_and, decide_eq_true_eq, Finset.ext_iff, mem_explore_iff, List.mem_toFinset, members]
    constructor
    · intro all
      exact ⟨⟨start, hasStart⟩, cycle_of_reached proper once fun other has => (all other).mpr has⟩
    · rintro ⟨-, turn, cycle, shares⟩ other
      exact ⟨reached_hasVertex proper once hasStart, reached_of_cycle proper once cycle shares hasStart⟩

end Ketchup.Mesh
