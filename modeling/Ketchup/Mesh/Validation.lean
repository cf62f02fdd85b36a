/-
**A mesh is accepted exactly when it is a closed oriented manifold.**

`validateMeshBody_iff`: for a mesh within the limits, of proper triangles no two of which have the same
vertices, with areas and a volume, validation succeeds if and only if each directed edge is used once,
its reverse once, and the triangles at each vertex form one cycle.

The smallest numbers of vertices and triangles need no hypothesis: across the edges of one triangle
lie three others, and the first of them has a fourth vertex (`four_le`).
-/

import Ketchup.Mesh.Fans
import Mathlib.Tactic.Linarith
import Mathlib.Tactic.NormNum

namespace Ketchup.Mesh

variable {triangles : List Triangle}

/-! ### The loop -/

theorem hasVertex_iff_mem_canonical {index : Fin triangles.length} {vertex : Nat} :
    HasVertex index vertex ↔ vertex ∈ canonical (triangles.get index) := by
  unfold canonical HasVertex
  rw [(List.mergeSort_perm _ _).mem_iff]
  simp

/-- Triangles with different vertices are different in order too. -/
theorem canonical_nodup (noRepeats : NoRepeats triangles) : (triangles.map canonical).Nodup := by
  rw [List.nodup_iff_injective_get]
  intro one two same
  have length : (triangles.map canonical).length = triangles.length := List.length_map _
  have alike := noRepeats (one.cast length) (two.cast length) fun vertex => by
    rw [hasVertex_iff_mem_canonical, hasVertex_iff_mem_canonical]
    simp only [List.get_eq_getElem, List.getElem_map, Fin.val_cast] at same ⊢
    rw [same]
  exact Fin.cast_injective length alike

/-- **The loop over triangles without a fault**: nothing is left for the compensation. -/
theorem measure_eq_ok {vertices : List Point3} (proper : Proper triangles vertices.length)
    (areas : ∀ triangle ∈ triangles, meshAreaEpsilon < areaMeasure vertices triangle) {seen : List (List Nat)}
    (fresh : (triangles.map canonical).Nodup) (apart : ∀ triangle ∈ triangles, canonical triangle ∉ seen) (volume : ℚ) :
    measure vertices seen volume 0 triangles = .ok (volume + (triangles.map (volumeTerm vertices)).sum) := by
  induction triangles generalizing seen volume with
  | nil => simp [measure]
  | cons triangle triangles ih =>
    rw [List.map_cons, List.nodup_cons] at fresh
    unfold measure
    rw [if_neg (not_not.mpr (proper _ List.mem_cons_self)), if_neg (apart _ List.mem_cons_self),
      if_neg (not_le.mpr (areas _ List.mem_cons_self))]
    have exact : volume + (volumeTerm vertices triangle - 0) - volume - (volumeTerm vertices triangle - 0) = 0 := by ring
    simp only [exact]
    rw [ih (fun other inside => proper _ (List.mem_cons_of_mem _ inside))
      (fun other inside => areas _ (List.mem_cons_of_mem _ inside)) fresh.2 ?_, List.map_cons, List.sum_cons]
    · ring_nf
    · intro other inside
      rw [List.mem_cons, not_or]
      refine ⟨fun same => fresh.1 ?_, apart _ (List.mem_cons_of_mem _ inside)⟩
      rw [← same]
      exact List.mem_map_of_mem inside

/-! ### Across the edges of a triangle -/

section Across

variable {count : Nat} (proper : Proper triangles count) (once : EdgesOnce triangles) (noRepeats : NoRepeats triangles)

include proper noRepeats

/-- The triangle across an edge has a vertex that is not one of this triangle. -/
theorem across {index other : Fin triangles.length} {edge : ℕ × ℕ} (has : HasEdge index edge)
    (hasSwap : HasEdge other edge.swap) : ∃ far, HasVertex other far ∧ ¬HasVertex index far := by
  by_contra none_far
  push Not at none_far
  have next : Next edge.2 index other := ⟨edge.1, has, hasSwap⟩
  obtain ⟨before, after, into, onward, whole⟩ := around next.right
  obtain ⟨ownBefore, ownAfter, ownInto, ownOnward, ownWhole⟩ := around next.left
  have back : after = edge.1 := from_unique proper onward hasSwap
  have own : ownBefore = edge.1 := into_unique proper ownInto has
  subst back own
  -- the third vertex of the one could only be that of the other
  have third := (ownWhole before).mp (none_far before ((whole before).mpr (Or.inr (Or.inl rfl))))
  have apart : before ≠ edge.2 := into.ne proper
  have same : before = ownAfter := by
    rcases third with same | same | same
    · exact absurd same apart
    · refine absurd ?_ (not_both proper onward)
      rw [same] at into
      exact into
    · exact same
  refine next.ne proper (noRepeats index other fun vertex => ?_)
  rw [whole, ownWhole, same]
  tauto

include once

/-- A closed mesh with a triangle has four, and four vertices. -/
theorem four_le (some_triangle : triangles ≠ []) : 4 ≤ count ∧ 4 ≤ triangles.length := by
  obtain ⟨index⟩ : Nonempty (Fin triangles.length) := ⟨⟨0, List.length_pos_iff.mpr some_triangle⟩⟩
  obtain ⟨⟨first, second, third⟩, belowOne, belowTwo, belowThree⟩ := proper _ (List.get_mem triangles index)
  set triangle := triangles.get index with is
  have hasOne : HasEdge index (triangle.1, triangle.2.1) := List.mem_cons_self
  have hasTwo : HasEdge index (triangle.2.1, triangle.2.2) := List.mem_cons_of_mem _ List.mem_cons_self
  have hasThree : HasEdge index (triangle.2.2, triangle.1) :=
    List.mem_cons_of_mem _ (List.mem_cons_of_mem _ List.mem_cons_self)
  obtain ⟨one, overOne, -⟩ := (once _ _ hasOne).2
  obtain ⟨two, overTwo, -⟩ := (once _ _ hasTwo).2
  obtain ⟨three, overThree, -⟩ := (once _ _ hasThree).2
  -- with two edges of the triangle it would have all of its vertices
  have distinct : ∀ {start middle far : Nat} {left right : Fin triangles.length}, HasEdge index (start, middle) →
      HasEdge index (middle, far) → HasEdge left (middle, start) → HasEdge right (far, middle) → left ≠ right := by
    rintro start middle far left _ hasStart hasFar overStart overFar rfl
    have next : Next middle index left := ⟨start, hasStart, overStart⟩
    exact next.not_back proper noRepeats ⟨far, overFar, hasFar⟩
  have apart : ∀ {edge : ℕ × ℕ} {other : Fin triangles.length}, HasEdge index edge → HasEdge other edge.swap → index ≠ other :=
    fun has hasSwap => Next.ne proper ⟨_, has, hasSwap⟩
  constructor
  · obtain ⟨far, hasFar, new⟩ := across proper noRepeats hasOne overOne
    have below : far < count := by
      obtain ⟨-, below⟩ := proper _ (List.get_mem triangles one)
      rcases hasFar with rfl | rfl | rfl <;> omega
    simp only [HasVertex, ← is, not_or] at new
    omega
  · have four : ([index, one, two, three] : List (Fin triangles.length)).Nodup := by
      simp only [List.nodup_cons, List.mem_cons, List.not_mem_nil, or_false, not_or, not_false_eq_true, List.nodup_nil,
        and_true]
      exact ⟨⟨apart hasOne overOne, apart hasTwo overTwo, apart hasThree overThree⟩,
        ⟨distinct hasOne hasTwo overOne overTwo, (distinct hasThree hasOne overThree overOne).symm⟩,
        distinct hasTwo hasThree overTwo overThree⟩
    simpa using four.length_le_card

end Across

/-! ### Validation -/

/-- **A mesh is accepted exactly when it is a closed oriented manifold.** -/
theorem validateMeshBody_iff (spec : MeshBodySpec) (schema : spec.schema = meshBodySchemaV1)
    (authority : spec.authority.holds = true) (vertexLimit : spec.verticesMm.length ≤ maxMeshVertices)
    (triangleLimit : spec.triangles.length ≤ maxMeshTriangles) (within : ∀ point ∈ spec.verticesMm, inBounds point = true)
    (proper : Proper spec.triangles spec.verticesMm.length) (noRepeats : NoRepeats spec.triangles)
    (areas : ∀ triangle ∈ spec.triangles, meshAreaEpsilon < areaMeasure spec.verticesMm triangle)
    (volume : meshVolumeEpsilon < (spec.triangles.map (volumeTerm spec.verticesMm)).sum) :
    validateMeshBody spec = .ok () ↔
      EdgesOnce spec.triangles ∧ ∀ vertex < spec.verticesMm.length, Fan spec.triangles vertex := by
  have some_triangle : spec.triangles ≠ [] := by
    intro none
    rw [none, List.map_nil, List.sum_nil] at volume
    norm_num [meshVolumeEpsilon] at volume
  have measured := measure_eq_ok proper areas (canonical_nodup noRepeats) (fun _ _ => List.not_mem_nil) 0
  have header : headerHolds spec = true ↔ 4 ≤ spec.verticesMm.length ∧ 4 ≤ spec.triangles.length := by
    simp only [headerHolds, schema, authority, vertexLimit, triangleLimit, List.all_eq_true.mpr within, decide_true,
      Bool.true_and, Bool.and_true, Bool.and_eq_true, decide_eq_true_eq]
  have accepts : validateMeshBody spec = .ok () ↔ headerHolds spec = true ∧ edgesHold spec.triangles = true ∧
      fansAreManifold spec.triangles spec.verticesMm.length = true := by
    have thick := not_le.mpr volume
    unfold validateMeshBody
    rw [measured, zero_add]
    by_cases header : headerHolds spec = true
    · by_cases edges : edgesHold spec.triangles = true <;>
        by_cases fans : fansAreManifold spec.triangles spec.verticesMm.length = true <;>
          simp [header, edges, fans, thick, bind, Except.bind, pure, Except.pure, throw, throwThe, MonadExceptOf.throw]
    · simp [header, bind, Except.bind, throw, throwThe, MonadExceptOf.throw]
  rw [accepts, header, edgesHold_iff proper]
  constructor
  · rintro ⟨-, once, fans⟩
    exact ⟨once, (fansAreManifold_iff proper once noRepeats _).mp fans⟩
  · rintro ⟨once, fans⟩
    exact ⟨four_le proper once noRepeats some_triangle, once, (fansAreManifold_iff proper once noRepeats _).mpr fans⟩

/-! ### A tetrahedron -/

def tetrahedronFaces : List Triangle := [(0, 2, 1), (0, 1, 3), (0, 3, 2), (1, 2, 3)]

/-- A tetrahedron at the origin, of one size. -/
def tetrahedron (size : ℚ) : MeshBodySpec where
  schema := meshBodySchemaV1
  verticesMm := [(0, 0, 0), (size, 0, 0), (0, size, 0), (0, 0, size)]
  triangles := tetrahedronFaces
  authority := .importedStl 1

theorem tetrahedronFaces_proper : Proper tetrahedronFaces 4 := by
  unfold Proper
  decide

theorem tetrahedronFaces_noRepeats : NoRepeats tetrahedronFaces := by
  have apart : ∀ one two : Fin tetrahedronFaces.length,
      (∀ vertex < 4, HasVertex one vertex ↔ HasVertex two vertex) → one = two := by
    unfold HasVertex
    decide
  exact fun one two same => apart one two fun vertex _ => same vertex

theorem tetrahedronFaces_once : EdgesOnce tetrahedronFaces := (edgesHold_iff tetrahedronFaces_proper).mp (by decide)

theorem tetrahedronFaces_fan : ∀ vertex < 4, Fan tetrahedronFaces vertex := by
  have adjacent : ∀ vertex < 4, ∃ start : Fin tetrahedronFaces.length, HasVertex start vertex ∧
      ∀ other, HasVertex other vertex → other = start ∨ other ∈ neighbours tetrahedronFaces vertex start := by
    unfold HasVertex
    decide +kernel
  intro vertex below
  obtain ⟨start, has, near⟩ := adjacent vertex below
  have reached : ∀ other, HasVertex other vertex →
      Relation.ReflTransGen (fun one two => two ∈ neighbours tetrahedronFaces vertex one) start other := by
    intro other hasOther
    rcases near other hasOther with rfl | near
    · exact .refl
    · exact .single near
  exact ⟨⟨start, has⟩, cycle_of_reached tetrahedronFaces_proper tetrahedronFaces_once reached⟩

theorem tetrahedron_areas {size : ℚ} (large : 1 ≤ size) : ∀ triangle ∈ (tetrahedron size).triangles,
    meshAreaEpsilon < areaMeasure (tetrahedron size).verticesMm triangle := by
  have square : 1 ≤ size ^ 4 := one_le_pow₀ large
  have below : meshAreaEpsilon < 1 := by norm_num [meshAreaEpsilon]
  intro triangle inside
  have measure : areaMeasure (tetrahedron size).verticesMm triangle = size ^ 4 ∨
      areaMeasure (tetrahedron size).verticesMm triangle = size ^ 4 + size ^ 4 + size ^ 4 := by
    simp only [tetrahedron, tetrahedronFaces, List.mem_cons, List.not_mem_nil, or_false] at inside
    rcases inside with rfl | rfl | rfl | rfl
    · exact Or.inl (by simp [areaMeasure, pointAt, tetrahedron, subtract, cross]; ring)
    · exact Or.inl (by simp [areaMeasure, pointAt, tetrahedron, subtract, cross]; ring)
    · exact Or.inl (by simp [areaMeasure, pointAt, tetrahedron, subtract, cross]; ring)
    · exact Or.inr (by simp [areaMeasure, pointAt, tetrahedron, subtract, cross]; ring)
  rcases measure with measure | measure <;> linarith

theorem tetrahedron_volume {size : ℚ} (large : 1 ≤ size) :
    meshVolumeEpsilon < ((tetrahedron size).triangles.map (volumeTerm (tetrahedron size).verticesMm)).sum := by
  have cube : 1 ≤ size ^ 3 := one_le_pow₀ large
  have below : meshVolumeEpsilon < 1 := by norm_num [meshVolumeEpsilon]
  have sum : ((tetrahedron size).triangles.map (volumeTerm (tetrahedron size).verticesMm)).sum = size ^ 3 := by
    simp [volumeTerm, pointAt, tetrahedron, tetrahedronFaces, subtract]
    ring
  linarith

theorem tetrahedron_within {size : ℚ} (large : 1 ≤ size) (small : size ≤ maxCoordinateMm) :
    ∀ point ∈ (tetrahedron size).verticesMm, inBounds point = true := by
  have nonneg : |size| = size := abs_of_nonneg (by linarith)
  have bound : (0 : ℚ) ≤ maxCoordinateMm := by linarith
  simp [tetrahedron, inBounds, nonneg, small, bound]

theorem validateMeshBody_iff_small : validateMeshBody (tetrahedron 1) = .ok () ↔
    EdgesOnce (tetrahedron 1).triangles ∧ ∀ vertex < (tetrahedron 1).verticesMm.length, Fan (tetrahedron 1).triangles vertex :=
  validateMeshBody_iff (tetrahedron 1) rfl (by decide) (by decide) (by decide)
    (tetrahedron_within le_rfl (by norm_num [maxCoordinateMm])) tetrahedronFaces_proper tetrahedronFaces_noRepeats
    (tetrahedron_areas le_rfl) (tetrahedron_volume le_rfl)

/-- A closed tetrahedron of two kilometres is refused. -/
theorem validateMeshBody_far : ¬∀ spec : MeshBodySpec, spec.schema = meshBodySchemaV1 → spec.authority.holds = true →
    Proper spec.triangles spec.verticesMm.length → NoRepeats spec.triangles →
    (∀ triangle ∈ spec.triangles, meshAreaEpsilon < areaMeasure spec.verticesMm triangle) →
    meshVolumeEpsilon < (spec.triangles.map (volumeTerm spec.verticesMm)).sum →
    (validateMeshBody spec = .ok () ↔
      EdgesOnce spec.triangles ∧ ∀ vertex < spec.verticesMm.length, Fan spec.triangles vertex) := by
  intro holds
  have accepted := (holds (tetrahedron 2000000) rfl (by decide) tetrahedronFaces_proper tetrahedronFaces_noRepeats
    (tetrahedron_areas (by norm_num)) (tetrahedron_volume (by norm_num))).mpr ⟨tetrahedronFaces_once, tetrahedronFaces_fan⟩
  have refused : headerHolds (tetrahedron 2000000) = false := by
    have beyond : ¬(2000000 : ℚ) ≤ maxCoordinateMm := by norm_num [maxCoordinateMm]
    simp [headerHolds, tetrahedron, inBounds, beyond]
  simp [validateMeshBody, refused, bind, Except.bind, throw, throwThe, MonadExceptOf.throw] at accepted

end Ketchup.Mesh
