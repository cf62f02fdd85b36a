/-
**Snapshots of older formats, brought up to date and put back for checking.**

`upgrade` changes the product a file of an older format stores into the present form; `writerForm`
takes the identity form of the product read from it back to what its writer hashed. Between the two
the product is read and written by its serde form, in which every map is in the order of its keys
(`identityForm`): of the maps a conversion renames keys of, these are the two keyed by a parameter.
Derived fields are units in an identity form, here as for the writer, and no conversion names one.
-/

import Ketchup.Library.Fields
import Ketchup.Library.Paths
import Mathlib.Algebra.Ring.Int.Defs
import Mathlib.Algebra.Ring.Nat
import Mathlib.Data.String.Basic
import Mathlib.Data.Prod.Lex

namespace Ketchup.Persistence.OldFormats

open Fields

/-! ### Sheet metal as files stored it before format 101 -/

section SheetMetal

structure Dimension (R : Type) where
  sourceToken : String
  millimetres : R

structure FlangeV1 (R : Type) where
  edge : String
  length : Dimension R
  angleDegrees : R
  innerRadius : Dimension R

structure SheetMetalV1 (R : Type) where
  width : Dimension R
  depth : Dimension R
  thickness : Dimension R
  kFactor : R
  flanges : List (FlangeV1 R)

structure SheetMetalBend (R : Type) where
  parent : Option Nat
  edge : Nat
  length : Dimension R
  angleDegrees : R
  innerRadius : Dimension R

structure SheetMetalSpec (R : Type) where
  baseMm : List (R × R)
  thickness : Dimension R
  kFactor : R
  bends : List (SheetMetalBend R)

/-- The old side names in their old order, each with the rectangle edge it became. -/
def sides : List (String × Nat) := [("MinX", 3), ("MaxX", 1), ("MinY", 0), ("MaxY", 2)]

variable {R : Type}

/-- The position of the side in the old order. -/
def FlangeV1.side (flange : FlangeV1 R) : Option Nat := sides.findIdx? fun entry => entry.1 = flange.edge

/-- The bend an old flange becomes, with the flange's place in the list. -/
def FlangeV1.bend (flange : FlangeV1 R) (old : Nat) : Option (Nat × SheetMetalBend R) := do
  let side ← flange.side
  let entry ← sides[side]?
  some (old, ⟨none, entry.2, flange.length, flange.angleDegrees, flange.innerRadius⟩)

/-- For each old flange in order, the index of its bend. -/
def bendOfFlange (bends : List (Nat × SheetMetalBend R)) : List Nat :=
  bends.zipIdx.foldl (fun found bend => found.set bend.1.1 bend.2) (List.replicate bends.length 0)

def SheetMetalV1.toCurrent [Zero R] (record : SheetMetalV1 R) : Option (SheetMetalSpec R × List Nat) := do
  let width := record.width.millimetres
  let depth := record.depth.millimetres
  let bends ← record.flanges.zipIdx.mapM fun flange => flange.1.bend flange.2
  let bends := bends.mergeSort fun one two => one.2.edge ≤ two.2.edge
  some (⟨[(0, 0), (width, 0), (width, depth), (0, depth)], record.thickness, record.kFactor, bends.map Prod.snd⟩,
    bendOfFlange bends)

/-- `str::parse` of an index. No list is longer than `usize` counts, so that a greater number is no index either. -/
def parseUsize (text : String) : Option Nat :=
  match text.toList with
  | '+' :: digits => parseIndex (String.ofList digits)
  | digits => parseIndex (String.ofList digits)

/-- The parameter path of the bend an old flange path `flanges.N.x` became. -/
def bendPath (path : String) (bendOfFlange : List Nat) : Option String := do
  let (index, rest) ← (stripPrefix "flanges." path).bind (splitOnce '.')
  let bend ← (parseUsize index).bind fun index => bendOfFlange[index]?
  some ("bends." ++ (toString bend ++ String.singleton '.' ++ rest))

/-- The old flange path a bend path `bends.N.x` was read from. -/
def flangePath (path : String) (bendOfFlange : List Nat) : Option String := do
  let (index, rest) ← (stripPrefix "bends." path).bind (splitOnce '.')
  let flange ← (parseUsize index).bind fun index => bendOfFlange.findIdx? (· = index)
  some ("flanges." ++ (toString flange ++ String.singleton '.' ++ rest))

end SheetMetal

/-! ### Parameter targets -/

/-- An integer as a `u64`. -/
def asU64 (value : Value) : Option Nat :=
  value.asInteger.bind fun number => if 0 ≤ number ∧ number < 2 ^ 64 then some number.toNat else none

/-- The feature and the path of a parameter target: a map with `feature_id`, `path` and `value_type`. -/
def targetOf (entries : List FieldEntry) : Option (Nat × String) := do
  let feature ← field "feature_id" (.map entries)
  let path ← field "path" (.map entries)
  let _ ← field "value_type" (.map entries)
  let feature ← asU64 feature
  let path ← path.asText
  some (feature, path)

/-- A target with the path it is renamed to. -/
def retarget (rename : Nat → String → Option String) (entries : List FieldEntry) : List FieldEntry :=
  match (targetOf entries).bind fun target => rename target.1 target.2 with
  | some renamed => atEntry "path" (fun entry => (entry.1, .text renamed)) entries
  | none => entries

mutual

/-- Renames the path of every parameter target. A path is a text, with no targets inside, so that it
may be renamed after all that the map holds. -/
def renameParameterPaths (rename : Nat → String → Option String) : Value → Value
  | .map entries => .map (retarget rename (renameInEntries rename entries))
  | .array items => .array (renameInItems rename items)
  | .tag number item => .tag number (renameParameterPaths rename item)
  | other => other

def renameInItems (rename : Nat → String → Option String) : List Value → List Value
  | [] => []
  | item :: items => renameParameterPaths rename item :: renameInItems rename items

def renameInEntries (rename : Nat → String → Option String) : List FieldEntry → List FieldEntry
  | [] => []
  | (key, item) :: entries =>
    (renameParameterPaths rename key, renameParameterPaths rename item) :: renameInEntries rename entries

end

/-! ### The conversions -/

/-- Why the sheet metal of a feature is not read. -/
inductive PayloadError where
  | notDeserialized
  | unknownFlangeSide
  deriving DecidableEq

structure PersistenceError where
  sheetMetal : Nat
  error : PayloadError

/-- The serde forms of sheet metal, as its derives generate them. -/
structure SheetMetalSerde (R : Type) where
  deserialized : Value → Option (SheetMetalV1 R)
  serialized : SheetMetalSpec R → Value

structure StoredSheetMetal where
  stored : Value
  bendOfFlange : List Nat

/-- The payload of a feature kind, where it is sheet metal. -/
def sheetMetalPayload : Value → Option Value
  | .map [(name, payload)] => if name.asText = some "SheetMetal" then some payload else none
  | _ => none

/-- The `SheetMetal` payload of every feature, by feature. -/
def sheetMetalKinds (product : Value) : List (Nat × Value) :=
  match field "features" product with
  | some (.map features) => features.filterMap fun entry => do
      let id ← asU64 entry.1
      let payload ← (field "kind" entry.2).bind sheetMetalPayload
      some (id, payload)
  | _ => []

def overPayload (change : Value → Value) (kind : Value) : Value :=
  match kind with
  | .map [(name, payload)] => if name.asText = some "SheetMetal" then .map [(name, change payload)] else kind
  | _ => kind

/-- The `SheetMetal` payloads changed. -/
def overSheetMetal (change : Nat → Value → Value) : Value → Value :=
  overField "features" (overEntries fun key feature =>
    match asU64 key with
    | some id => overField "kind" (overPayload (change id)) feature
    | none => feature)

section Conversions

variable {R : Type} [Zero R] (serde : SheetMetalSerde R)

/-- A payload in its present form, with the bends of its flanges. -/
def readPayload (id : Nat) (payload : Value) : Except PersistenceError (Value × List Nat) :=
  match serde.deserialized payload with
  | none => .error ⟨id, .notDeserialized⟩
  | some record =>
    match record.toCurrent with
    | none => .error ⟨id, .unknownFlangeSide⟩
    | some (spec, bendOfFlange) => .ok (serde.serialized spec, bendOfFlange)

/-- What was read for a feature; the last where an id were there twice. -/
def foundFor (read : List (Nat × StoredSheetMetal)) (id : Nat) : Option StoredSheetMetal :=
  (read.reverse.find? (·.1 = id)).map Prod.snd

def readFormat100SheetMetal (product : Value) : Except PersistenceError (Value × List (Nat × StoredSheetMetal)) := do
  let read ← (sheetMetalKinds product).mapM fun kind => do
    let current ← readPayload serde kind.1 kind.2
    return (kind.1, (⟨kind.2, current.2⟩ : StoredSheetMetal))
  let replaced := overSheetMetal (fun id payload =>
    match readPayload serde id payload with
    | .ok current => current.1
    | .error _ => payload) product
  if read.isEmpty then return (replaced, read)
  return (renameParameterPaths (fun feature path =>
    (foundFor read feature).bind fun stored => bendPath path stored.bendOfFlange) replaced, read)

/-- Puts back what `readFormat100SheetMetal` rewrote. The ids of the features of a product differ, so that
a record is put back once. -/
def restoreFormat100SheetMetal (product : Value) (read : List (Nat × StoredSheetMetal)) : Value :=
  if read.isEmpty then product
  else overSheetMetal (fun id payload => ((foundFor read id).map StoredSheetMetal.stored).getD payload)
    (renameParameterPaths (fun feature path =>
      (foundFor read feature).bind fun stored => flangePath path stored.bendOfFlange) product)

/-- The names of format 99 for those of format 98, or as `direction` turns a pair of them. -/
def renameFormat98Fields (product : Value) (direction : String × String → String × String) : Value :=
  let joints := direction ("dowel_joints", "pin_joints")
  let jointSpec := direction ("dowel", "pin")
  let recipeJoint := direction ("dowel_joint_id", "pin_joint_id")
  overField "assembly_recipe" (overField "joinery" (overEntries fun _ item => renameField recipeJoint.1 recipeJoint.2 id item))
    (renameField joints.1 joints.2 (overEntries fun _ joint => renameField jointSpec.1 jointSpec.2 id joint) product)

/-- An optional tag as a set of tags. -/
def tagsOfTag : Value → Value
  | .null => .array []
  | id => .array [id]

/-- A set of at most one tag as an optional tag. -/
def tagOfTags : Value → Value
  | .array [] => .null
  | .array [id] => id
  | other => other

def format101OccurrenceTags (product : Value) (back : Bool) : Value :=
  ["occurrences", "local_occurrences"].foldl (fun product occurrences =>
    overField occurrences (overEntries fun _ occurrence =>
      if back then renameField "tags" "tag" tagOfTags occurrence else renameField "tag" "tags" tagsOfTag occurrence) product)
    product

def derived : String := "Derived"

def participantOfDerived (old : Value) : Value := .map [(.text derived, old)]

def derivedOfParticipant (participant : Value) : Value :=
  match participant with
  | .map [(name, item)] => if name.asText = some derived then item else participant
  | _ => participant

def format102JointParticipants (product : Value) (back : Bool) : Value :=
  overField "joints" (overEntries fun _ joint =>
    ["participant_a", "participant_b"].foldl (fun joint name =>
      overField name (if back then derivedOfParticipant else participantOfDerived) joint) joint) product

/-! ### Reading and checking -/

/-- The order of the keys of a map keyed by parameter: by feature, path and kind of value. -/
def targetKey (key : Value) : Nat ×ₗ String ×ₗ Nat :=
  toLex (((field "feature_id" key).bind asU64).getD 0,
    toLex (((field "path" key).bind Value.asText).getD "",
      ["Length", "Angle", "Scalar"].idxOf (((field "value_type" key).bind Value.asText).getD "")))

/-- A map keyed by parameter in order. -/
def sorted : Value → Value
  | .map entries => .map (entries.mergeSort fun one two => targetKey one.1 ≤ targetKey two.1)
  | other => other

/-- The maps keyed by parameter. -/
def targetMaps : List String := ["feature_parameter_bindings", "feature_parameter_provenance"]

/-- A product as it is written again once it was read. -/
def identityForm (product : Value) : Value := targetMaps.foldl (fun product name => overField name sorted product) product

/-- The product of an older format in the present form. -/
def upgrade (format : Nat) (product : Value) : Except PersistenceError (Value × List (Nat × StoredSheetMetal)) := do
  let product := if format < 99 then renameFormat98Fields product id else product
  let (product, sheetMetal) ← if format < 101 then readFormat100SheetMetal serde product else pure (product, [])
  let product := if format < 102 then format101OccurrenceTags product false else product
  let product := if format < 103 then format102JointParticipants product false else product
  return (product, sheetMetal)

/-- The identity form of a product as the writer of an older format hashed it. -/
def writerForm (format : Nat) (sheetMetal : List (Nat × StoredSheetMetal)) (form : Value) : Value :=
  let form := restoreFormat100SheetMetal form sheetMetal
  let form := if format < 103 then format102JointParticipants form true else form
  let form := if format < 102 then format101OccurrenceTags form true else form
  if format < 99 then renameFormat98Fields form Prod.swap else form

/-- What is compared with the product that was stored. -/
def checkedForm (format : Nat) (product : Value) : Except PersistenceError Value := do
  let (upgraded, sheetMetal) ← upgrade serde format product
  return writerForm format sheetMetal (identityForm upgraded)

end Conversions

/-! ### Role categories -/

structure Category where
  id : Nat
  name : String

structure ClassificationDimension where
  name : String
  categories : List Category

def validatorRoleDimensionV1 : String := "ketchup.validator-role.v1"

/-- The function names of format 99 with those of format 100. -/
def renamedRoles : List (String × String) :=
  [("furniture.shelf", "physics.beam"), ("furniture.case", "physics.freestanding"),
    ("manufacturing.hinge-cup", "manufacturing.cup-bore"), ("spatial.furniture", "spatial.occupant")]

/-- The name a role category gets, where it has an old one. -/
def newRoleName (name : String) : Option String :=
  renamedRoles.findSome? fun role => do
    let rest ← stripPrefix role.1 name
    if rest.toList = [] ∨ rest.toList.head? = some '.' ∨ rest.toList.head? = some ':' then some (role.2 ++ rest) else none

/-- The categories that are renamed: those whose new name no category has. -/
def renamedCategories (dimension : ClassificationDimension) : List (Nat × String) :=
  (dimension.categories.filterMap fun category => (newRoleName category.name).map fun name => (category.id, name)).filter
    fun renamed => dimension.categories.all fun category => category.name ≠ renamed.2

def renameFormat99RoleCategories (dimensions : List ClassificationDimension) : List ClassificationDimension :=
  dimensions.map fun dimension =>
    if dimension.name ≠ validatorRoleDimensionV1 then dimension
    else (renamedCategories dimension).foldl (fun dimension renamed =>
      { dimension with categories := dimension.categories.map fun category =>
          if category.id = renamed.1 then { category with name := renamed.2 } else category }) dimension

end Ketchup.Persistence.OldFormats
