/-
**Cutting plans.**

`plans` takes the parts it is given by name, gathers those of one material and one section or
thickness, and cuts each group from the stock of its material.
-/

import Ketchup.Cutting.Sheets

namespace Ketchup.Cutting

/-- The parts of one material and section or thickness. -/
structure Group where
  section_ : List ℚ
  pieces : List Piece
  unplaced : List Unplaced

/-- A material, and the keys of a section. -/
structure GroupKey where
  material : String
  keys : List ℤ
  deriving DecidableEq

section Keys

attribute [local instance] lexOrd

def GroupKey.key (group : GroupKey) : String × List ℤ := (group.material, group.keys)

theorem GroupKey.key_injective : GroupKey.key.Injective := by
  rintro ⟨material, keys⟩ ⟨material', keys'⟩ same
  simpa [GroupKey.key] using same

instance : Ord GroupKey := ⟨compareOn GroupKey.key⟩
instance : Std.TransOrd GroupKey := transOrd_of_key GroupKey.key
instance : Std.LawfulEqOrd GroupKey := lawfulEqOrd_of_key GroupKey.key GroupKey.key_injective

end Keys

abbrev Groups := BTreeMap GroupKey Group

/-- How much of one stock size a plan uses. -/
structure StockUse where
  sizeMm : List ℚ
  count : Nat

structure CuttingPlan where
  material : String
  kind : StockKind
  sectionMm : List ℚ
  kerfMm : ℚ
  trimMm : ℚ
  stock : List StockUse
  layouts : List Layout
  usedPercent : ℚ
  unplaced : List Unplaced

/-- A part on sheets whose grain has a direction: it must not lie turned, or must, or its axis runs
through its thickness. -/
inductive Grain
  | free
  | along (turned : Bool)
  | through (name : String)

def grainOf (part : Part) (stock : Stock) (order : List (Fin 3)) : Grain :=
  match stock.kind, stock.along with
  | .sheets, some name =>
    match part.namedAxis name with
    | none => .free
    | some axis =>
      match order.findIdx? (· = axis) with
      | some 0 => .along false
      | some 1 => .along true
      | _ => .through name
  | _, _ => .free

/-- The part of a name that has stock. -/
def ProgramModel.stocked (model : ProgramModel) (byName : BTreeMap String Part) (name : String) :
    Option (Part × String × Stock) := do
  let part ← byName[name]?
  let material ← part.material
  let stock ← model.stock[material]?
  return (part, material, stock)

/-- The section of bars, or the thickness of sheets, a part is cut from. -/
def sectionOf (part : Part) (stock : Stock) : List ℚ :=
  match stock.kind with
  | .lengths => (blank part (some stock)).1.drop 1
  | .sheets => (blank part (some stock)).1.drop 2

/-- The length and the width of the blank of a part, as a piece. -/
def pieceOf (part : Part) (stock : Stock) (turned : Option Bool) : Piece where
  part := part.name
  size := ![(blank part (some stock)).1.getD 0 0, (blank part (some stock)).1.getD 1 0]
  size_nonneg := Fin.forall_fin_two.mpr ⟨blank_nonneg .., blank_nonneg ..⟩
  turned := turned

/-- One part more in a group. -/
def Group.add (group : Group) (part : Part) (stock : Stock) : Group :=
  match grainOf part stock (blank part (some stock)).2 with
  | .free => { group with pieces := group.pieces ++ [pieceOf part stock none] }
  | .along turned => { group with pieces := group.pieces ++ [pieceOf part stock (some turned)] }
  | .through name =>
    { group with unplaced := group.unplaced ++ [⟨part.name, .throughThickness name⟩] }

def addStocked (groups : Groups) (part : Part) (material : String) (stock : Stock) : Groups :=
  let section_ := sectionOf part stock
  let groupKey : GroupKey := ⟨material, section_.map key⟩
  let group := groups[groupKey]?.getD ⟨section_, [], []⟩
  groups.insert groupKey (group.add part stock)

def addPart (model : ProgramModel) (byName : BTreeMap String Part) (groups : Groups)
    (name : String) : Groups :=
  match model.stocked byName name with
  | none => groups
  | some (part, material, stock) => addStocked groups part material stock

/-- Largest first, then longest, then by name. -/
def Piece.atMost (left right : Piece) : Bool :=
  let area (piece : Piece) := piece.size 0 * max (piece.size 1) 1
  ((compare (area right) (area left)).then
    ((compare (right.size 0) (left.size 0)).then (compare left.part right.part))).isLE

def product (sizes : List ℚ) : ℚ := sizes.prod

def countStock (counts : BTreeMap (List ℤ) StockUse) (layout : Layout) :
    BTreeMap (List ℤ) StockUse :=
  let sizeKey := layout.stockMm.map key
  let use_ := counts[sizeKey]?.getD ⟨layout.stockMm, 0⟩
  counts.insert sizeKey { use_ with count := use_.count + 1 }

def cutStock (stock : Stock) (pieces : List Piece) : List Layout × List Unplaced :=
  match stock.sizes with
  | .lengths sizesMm => cutLengths stock sizesMm pieces
  | .sheets sizesMm => cutSheets stock sizesMm pieces

/-- The plan of a group. -/
def planOf (material : String) (stock : Stock) (group : Group) : CuttingPlan :=
  let sorted := group.pieces.insertionSort fun left right => left.atMost right = true
  let extra := (sorted.drop maxPieces).map fun piece => ⟨piece.part, .moreThanPlanned⟩
  let cut := cutStock stock (sorted.take maxPieces)
  let used := (cut.1.flatMap fun layout => layout.pieces.map fun piece => product piece.sizeMm).sum
  let whole := (cut.1.map fun layout => product layout.stockMm).sum
  { material := material
    kind := stock.kind
    sectionMm := group.section_
    kerfMm := stock.kerfMm
    trimMm := stock.trimMm
    stock := ((cut.1.foldl countStock ∅).toList).map Prod.snd
    layouts := cut.1
    usedPercent := percent used whole
    unplaced := group.unplaced ++ extra ++ cut.2 }

/-- Every cutting plan of the parts of these names whose material has stock. -/
def plans (model : ProgramModel) (names : List String) : List CuttingPlan :=
  let groups := names.foldl (addPart model model.partsByName) ∅
  groups.toList.filterMap fun group =>
    (model.stock[group.1.material]?).map fun stock => planOf group.1.material stock group.2

end Ketchup.Cutting
