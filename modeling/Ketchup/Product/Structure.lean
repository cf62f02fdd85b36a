/-
**The structure of a product.**

Parts are occurrences of definitions, at the top level or inside a definition (`LocalOccurrence`), and
hang in groups. Each collection holds its entries by their id. An instance path leads from an occurrence
through local groups and local occurrences to a part.
-/

import Ketchup.Library.Ordered
import Ketchup.Product.FeatureKind

namespace Ketchup.Product

/-! ### Identifiers -/

abbrev OccurrenceId := Nat
abbrev GroupId := Nat
abbrev LocalOccurrenceId := Nat
abbrev LocalGroupId := Nat
abbrev TagId := Nat

structure LocalOccurrenceKey where
  definitionId : DefinitionId
  localId : LocalOccurrenceId
  deriving DecidableEq

structure LocalGroupKey where
  definitionId : DefinitionId
  localId : LocalGroupId
  deriving DecidableEq

inductive InstancePathStep
  | group (localId : LocalGroupId)
  | occurrence (localId : LocalOccurrenceId)
  deriving DecidableEq

structure InstancePath where
  root : OccurrenceId
  steps : List InstancePathStep
  deriving DecidableEq

def InstancePath.withStep (path : InstancePath) (step : InstancePathStep) : InstancePath :=
  { path with steps := path.steps ++ [step] }

section Keys

attribute [local instance] lexOrd

def LocalOccurrenceKey.key (entry : LocalOccurrenceKey) : Nat × Nat :=
  (entry.definitionId, entry.localId)

theorem LocalOccurrenceKey.key_injective : LocalOccurrenceKey.key.Injective := by
  rintro ⟨definition, localId⟩ ⟨definition', localId'⟩ same
  simpa [LocalOccurrenceKey.key] using same

instance : Ord LocalOccurrenceKey := ⟨compareOn LocalOccurrenceKey.key⟩
instance : Std.TransOrd LocalOccurrenceKey := transOrd_of_key LocalOccurrenceKey.key
instance : Std.LawfulEqOrd LocalOccurrenceKey :=
  lawfulEqOrd_of_key LocalOccurrenceKey.key LocalOccurrenceKey.key_injective

def LocalGroupKey.key (entry : LocalGroupKey) : Nat × Nat := (entry.definitionId, entry.localId)

theorem LocalGroupKey.key_injective : LocalGroupKey.key.Injective := by
  rintro ⟨definition, localId⟩ ⟨definition', localId'⟩ same
  simpa [LocalGroupKey.key] using same

instance : Ord LocalGroupKey := ⟨compareOn LocalGroupKey.key⟩
instance : Std.TransOrd LocalGroupKey := transOrd_of_key LocalGroupKey.key
instance : Std.LawfulEqOrd LocalGroupKey :=
  lawfulEqOrd_of_key LocalGroupKey.key LocalGroupKey.key_injective

/-- Steps into groups come before steps to occurrences. -/
def InstancePathStep.key : InstancePathStep → Nat × Nat
  | group localId => (0, localId)
  | occurrence localId => (1, localId)

theorem InstancePathStep.key_injective : InstancePathStep.key.Injective := by
  intro first second same
  cases first <;> cases second <;> simp_all [InstancePathStep.key]

instance : Ord InstancePathStep := ⟨compareOn InstancePathStep.key⟩
instance : Std.TransOrd InstancePathStep := transOrd_of_key InstancePathStep.key
instance : Std.LawfulEqOrd InstancePathStep :=
  lawfulEqOrd_of_key InstancePathStep.key InstancePathStep.key_injective

def InstancePath.key (path : InstancePath) : Nat × List InstancePathStep := (path.root, path.steps)

theorem InstancePath.key_injective : InstancePath.key.Injective := by
  rintro ⟨root, steps⟩ ⟨root', steps'⟩ same
  simpa [InstancePath.key] using same

instance : Ord InstancePath := ⟨compareOn InstancePath.key⟩
instance : Std.TransOrd InstancePath := transOrd_of_key InstancePath.key
instance : Std.LawfulEqOrd InstancePath :=
  lawfulEqOrd_of_key InstancePath.key InstancePath.key_injective

end Keys

/-! ### Entries -/

structure Color where
  red : UInt8
  green : UInt8
  blue : UInt8
  deriving DecidableEq

structure Tag where
  name : String
  visible : Bool
  deriving DecidableEq

structure Body where
  name : String
  visible : Bool
  /-- The Boolean feature that used the body up. -/
  consumedBy : Option FeatureId
  deriving DecidableEq

/-- The bodies a feature works on and the one it makes. -/
structure FeatureBodyOwnership where
  inputBodyIds : List BodyId
  outputBodyId : Option BodyId
  deriving DecidableEq

/-- What is placed: the features of its bodies, and its own parts and groups, each with a local id. -/
structure Definition where
  name : String
  featureIds : List FeatureId
  bodies : BTreeMap BodyId Body
  activeBodyId : BodyId
  featureBodyOwnership : BTreeMap FeatureId FeatureBodyOwnership
  localOccurrenceIds : List LocalOccurrenceId
  localGroupIds : List LocalGroupId

section Entries

variable (R : Type)

structure Occurrence where
  definitionId : DefinitionId
  name : String
  transform : Transform R
  parent : Option GroupId
  /-- It is shown only while all its tags are visible. -/
  tags : List TagId
  visible : Bool
  color : Option Color

structure Group where
  name : String
  transform : Transform R
  parent : Option GroupId

structure LocalOccurrence where
  definitionId : DefinitionId
  name : String
  transform : Transform R
  parent : Option LocalGroupId
  tags : List TagId
  visible : Bool
  color : Option Color

structure LocalGroup where
  name : String
  transform : Transform R
  parent : Option LocalGroupId

/-- Entries outside the structure that name parts, each of which is to be there. -/
inductive PartReferenceKind
  | collection
  | grounding
  | assemblyMate
  | assemblyJoint
  | pinJoint
  | assemblyRecipe
  | productionCode
  deriving DecidableEq

structure PartReference where
  kind : PartReferenceKind
  path : InstancePath
  deriving DecidableEq

/-- The collections of a product that say what is placed where. -/
structure ProductModel where
  definitions : BTreeMap DefinitionId Definition
  occurrences : BTreeMap OccurrenceId (Occurrence R)
  groups : BTreeMap GroupId (Group R)
  localOccurrences : BTreeMap LocalOccurrenceKey (LocalOccurrence R)
  localGroups : BTreeMap LocalGroupKey (LocalGroup R)
  tags : BTreeMap TagId Tag
  instanceTransformOverrides : BTreeMap InstancePath (Transform R)
  partReferences : List PartReference

end Entries

variable {R : Type}

/-- The parent of a group that is there. -/
def ProductModel.groupParent (product : ProductModel R) (id : GroupId) : Option (Option GroupId) :=
  product.groups[id]?.map Group.parent

def ProductModel.localGroupParent (product : ProductModel R) (definitionId : DefinitionId)
    (id : LocalGroupId) : Option (Option LocalGroupId) :=
  product.localGroups[(⟨definitionId, id⟩ : LocalGroupKey)]?.map LocalGroup.parent

end Ketchup.Product
