/-
**The manifest of a Viewer package.**

`Manifest` is everything the Viewer shows besides the geometry itself. Its numbers are of a type
`Double` says the operations of: the source's are IEEE doubles, and nothing here rests on how those
round.
-/

import Ketchup.Library.Ordered
import Mathlib.Data.Rat.Defs

namespace Ketchup.Viewer

/-- The operations of an `f64`. -/
class Double (F : Type) where
  isFinite : F → Bool
  add : F → F → F
  sub : F → F → F
  mul : F → F → F
  div : F → F → F
  abs : F → F
  sqrt : F → F
  lt : F → F → Bool
  le : F → F → Bool
  /-- The number a literal stands for. -/
  literal : ℚ → F

/-- Exact numbers, for a package that has none or only whole ones. -/
@[reducible] def exactNumbers : Double ℚ where
  isFinite _ := true
  add := (· + ·)
  sub := (· - ·)
  mul := (· * ·)
  div := (· / ·)
  abs := fun value => if value < 0 then -value else value
  sqrt := id
  lt first second := decide (first < second)
  le first second := decide (first ≤ second)
  literal := id

/-- `[f64; 3]`. -/
structure Point (F : Type) where
  x : F
  y : F
  z : F
  deriving DecidableEq

namespace Point

variable {F : Type}

def toList (point : Point F) : List F := [point.x, point.y, point.z]

end Point

/-- The identity of the snapshot a package was exported from. -/
structure Source where
  documentId : Nat
  revision : Nat
  canonicalDigest : String
  deriving DecidableEq

inductive FittedProjection
  | perspective
  | orthographic
  deriving DecidableEq

/-- Dimensions in the axes of a definition. -/
inductive LocalDimensions (F : Type)
  | localBounds (minMm maxMm : Point F)
  | authoredAxes (sizeMm : Point F)
  deriving DecidableEq

structure Definition (F : Type) where
  id : Nat
  name : String
  note : Option String
  material : Option String
  colorSrgb : Option (UInt8 × UInt8 × UInt8)
  localDimensions : Option (LocalDimensions F)
  deriving DecidableEq

/-- One step below the root: into a group or a nested occurrence of a definition. -/
inductive PathStep
  | group (ownerDefinitionId localId : Nat)
  | occurrence (ownerDefinitionId localId : Nat)
  deriving DecidableEq

namespace PathStep

def ownerDefinitionId : PathStep → Nat
  | group owner _ => owner
  | occurrence owner _ => owner

def localId : PathStep → Nat
  | group _ id => id
  | occurrence _ id => id

def isGroup : PathStep → Bool
  | group .. => true
  | occurrence .. => false

end PathStep

/-- Stable path of an occurrence from its root component. -/
structure InstancePath where
  rootOccurrenceId : Nat
  steps : List PathStep
  deriving DecidableEq

section Keys

attribute [local instance] lexOrd

def PathStep.key : PathStep → Nat × Nat × Nat
  | group owner id => (0, owner, id)
  | occurrence owner id => (1, owner, id)

theorem PathStep.key_injective : PathStep.key.Injective := by
  rintro (⟨owner, id⟩ | ⟨owner, id⟩) (⟨owner', id'⟩ | ⟨owner', id'⟩) same
  all_goals simp_all [PathStep.key]

instance : Ord PathStep := ⟨compareOn PathStep.key⟩
instance : Std.TransOrd PathStep := transOrd_of_key PathStep.key
instance : Std.LawfulEqOrd PathStep := lawfulEqOrd_of_key PathStep.key PathStep.key_injective

def InstancePath.key (path : InstancePath) : Nat × List PathStep :=
  (path.rootOccurrenceId, path.steps)

theorem InstancePath.key_injective : InstancePath.key.Injective := by
  rintro ⟨root, steps⟩ ⟨root', steps'⟩ same
  simpa [InstancePath.key] using same

instance : Ord InstancePath := ⟨compareOn InstancePath.key⟩
instance : Std.TransOrd InstancePath := transOrd_of_key InstancePath.key
instance : Std.LawfulEqOrd InstancePath :=
  lawfulEqOrd_of_key InstancePath.key InstancePath.key_injective

end Keys

/-- One placed component. -/
structure Occurrence where
  name : String
  path : InstancePath
  definitionId : Nat
  glbNode : Nat
  note : Option String
  material : Option String
  colorSrgb : Option (UInt8 × UInt8 × UInt8)
  attributes : BTreeMap String String

inductive Projection (F : Type)
  | orthographic (shortSpanMm : F)
  | perspective (shortFovRadians : F) (lensShiftShort : F × F)
  deriving DecidableEq

structure Camera (F : Type) where
  eyeMm : Point F
  targetMm : Point F
  up : Point F
  projection : Projection F
  deriving DecidableEq

inductive DisplayStyle
  | shaded
  | shadedEdges
  | wireframe
  deriving DecidableEq

structure Section (F : Type) where
  normal : Point F
  offsetMm : F
  deriving DecidableEq

/-- A saved view. -/
structure Scene (F : Type) where
  id : Nat
  name : String
  camera : Camera F
  hidden : List InstancePath
  style : DisplayStyle
  section_ : Option (Section F)
  visibleDimensions : List Nat
  deriving DecidableEq

/-- One end of a dimension: a point on a component or in world space. -/
structure Anchor (F : Type) where
  occurrence : Option InstancePath
  pointMm : Point F
  deriving DecidableEq

inductive LengthUnit
  | millimetre
  | centimetre
  | metre
  | inch
  deriving DecidableEq

structure Dimension (F : Type) where
  id : Nat
  from_ : Anchor F
  to_ : Anchor F
  labelOffsetMm : Point F
  valueMm : F
  displayUnit : LengthUnit
  deriving DecidableEq

structure Manifest (F : Type) where
  source : Source
  definitions : List (Definition F)
  occurrences : List Occurrence
  scenes : List (Scene F)
  dimensions : List (Dimension F)
  startScene : Option Nat
  fittedProjection : Option FittedProjection

end Ketchup.Viewer
