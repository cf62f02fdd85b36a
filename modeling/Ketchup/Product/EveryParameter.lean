/-
**Which parameters are read back.**

Three functions go by the kind of a feature, and they do not name the same kinds: the distance of an extended
surface, the tolerance of a knit one and the elevations of a lofted one are listed, and not read. Of all
other kinds each listed parameter is read back, but for the size of a rectangle in a sketch that is too small
to be drawn as one (`reads_back_iff`).
-/

import Ketchup.Product.ProfileRectangles

namespace Ketchup.Product

open Ketchup.Graph

variable {E : Type} {validateFeatureKind : FeatureKind ℚ → ℚ → Except E Unit} {kind : FeatureKind ℚ}
  {descriptor : ParameterDescriptor} {featureId : FeatureId} {dimension : Dimension ℚ} {toleranceMm : ℚ}

/-- The kinds whose parameters are read at all. -/
def FeatureKind.IsRead : FeatureKind ℚ → Prop
  | surfaceExtend _ _ | surfaceKnit _ _ _ | surfaceBody _ => False
  | _ => True

/-- The size of a rectangle in a sketch is one it can be drawn with, or is refused. -/
def FeatureKind.Drawable (kind : FeatureKind ℚ) (path : List String) (valueMm : ℚ) : Prop :=
  match kind with
  | sketch _ => path.head? = some "bounds" → valueMm ≤ profileEpsilonMm ∨ epsilonMm < valueMm
  | _ => True

theorem not_readsBack {target : FeatureParameterTarget}
    (unread : featureKindParameterValue kind target.path.segments = none) :
    ¬ReadsBack validateFeatureKind kind target dimension toleranceMm := by
  intro back
  obtain ⟨value, read⟩ := back.read
  rw [unread] at read
  cases read

theorem readsBack_profile {segments : List (ProfileSegment ℚ)} {closed : Bool}
    (formed : (FeatureKind.profile segments closed).WellFormed)
    (listed : descriptor ∈ (FeatureKind.profile segments closed).parameterDescriptors) :
    ReadsBack validateFeatureKind (.profile segments closed) (descriptor.target featureId) dimension
      toleranceMm := by
  have place := listed_profile formed listed
  obtain ⟨⟨path⟩, valueType⟩ := descriptor
  cases place with
  | bounds drawn is => exact readsBack_rectangle formed drawn is
  | point its axis => exact readsBack_segment formed its axis

/-- **Which parameters are read back**: those of the kinds that are read, unless the size of a rectangle in a
sketch is set to one too small to be drawn. -/
theorem reads_back_iff (formed : kind.WellFormed) (listed : descriptor ∈ kind.parameterDescriptors) :
    ReadsBack validateFeatureKind kind (descriptor.target featureId) dimension toleranceMm ↔
      kind.IsRead ∧ kind.Drawable descriptor.path.segments dimension.millimetres := by
  cases kind with
  | sketch spec => exact (readsBack_sketch_iff formed listed).trans (and_iff_right trivial).symm
  | profile segments closed => exact iff_of_true (readsBack_profile formed listed) ⟨trivial, trivial⟩
  | workplane spec =>
    exact iff_of_true ((plain_workplane listed).readsBack fun _ _ is => by cases is) ⟨trivial, trivial⟩
  | pad spec => exact iff_of_true ((plain_pad listed).readsBack fun _ _ is => by cases is) ⟨trivial, trivial⟩
  | revolve source axisStartMm axisEndMm angleDegrees =>
    exact iff_of_true ((plain_revolve listed).readsBack fun _ _ is => by cases is) ⟨trivial, trivial⟩
  | edgeFinish target edges finish amount stations mode sides =>
    exact iff_of_true ((plain_edgeFinish listed).readsBack fun _ _ is => by cases is) ⟨trivial, trivial⟩
  | sheetMetal spec =>
    exact iff_of_true ((plain_sheetMetal listed).readsBack fun _ _ is => by cases is) ⟨trivial, trivial⟩
  | loft sections guide continuity =>
    exact iff_of_true ((plain_loft listed).readsBack fun _ _ is => by cases is) ⟨trivial, trivial⟩
  | shell target removedFaces thickness direction | surfaceThicken target thickness direction
  | faceOffset target face distance | planarOffset source distance | draft spec | weldmentMember spec =>
    exact iff_of_true ((plain_single rfl listed rfl rfl rfl).readsBack fun _ _ is => by cases is)
      ⟨trivial, trivial⟩
  | surfaceExtend target distance | surfaceKnit surfaces tolerance makeSolid | surfaceBody spec =>
    exact iff_of_false (not_readsBack rfl) fun both => both.1
  | _ => cases listed

/-- An offset of 5 mm from feature 3. -/
def offset5 : FeatureKind ℚ := .planarOffset 3 ⟨"5 mm", 5⟩

theorem offset_reads_back :
    ReadsBack (E := Unit) (fun _ _ => .ok ()) offset5 ((described .length ["distance"]).target 4)
      ⟨"7 mm", 7⟩ epsilonMm :=
  have formed : offset5.WellFormed := trivial
  have listed : described .length ["distance"] ∈ offset5.parameterDescriptors := List.mem_singleton_self _
  (reads_back_iff formed listed).mpr ⟨trivial, trivial⟩

/-- The tolerance of a knit surface is listed and can be set, and is not read. -/
theorem knit_not_read_back :
    ¬∀ (kind : FeatureKind ℚ) (descriptor : ParameterDescriptor) (dimension : Dimension ℚ), kind.WellFormed →
      descriptor ∈ kind.parameterDescriptors →
      ReadsBack (E := Unit) (fun _ _ => .ok ()) kind (descriptor.target 4) dimension epsilonMm := by
  intro all
  have back := all (.surfaceKnit [1, 2] ⟨"0.1 mm", 1 / 10⟩ false) (described .length ["tolerance"])
    ⟨"0.2 mm", 2 / 10⟩ trivial (List.mem_singleton_self _)
  obtain ⟨value, read⟩ := back.read
  cases read

end Ketchup.Product
