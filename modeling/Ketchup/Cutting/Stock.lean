/-
**Stock, and the blanks cut from it.**

A program gives a material one stock (`stockOf`): bars of some lengths, or sheets of some sizes. The
blank of a part is the box it is cut from, its axes in the order the stock asks for. Measures are
exact numbers of millimetres.
-/

import Ketchup.Library.Outcome
import Ketchup.Library.Lists
import Mathlib.Data.Fin.VecNotation
import Mathlib.Data.Fintype.Basic
import Mathlib.Tactic.FinCases
import Mathlib.Tactic.Linarith
import Mathlib.Tactic.NormNum
import Mathlib.Tactic.Ring

namespace Ketchup.Cutting

def maxPieces : Nat := 5000

/-- A piece fits a space it fills exactly. -/
def eps : ℚ := 1 / 1000000

theorem eps_pos : 0 < eps := by norm_num [eps]

inductive StockKind
  /-- Bars of a cross-section, each piece cut to its length. -/
  | lengths
  /-- Sheets of a thickness, each piece a rectangle. -/
  | sheets
  deriving DecidableEq

/-- A sheet has two axes. -/
scoped instance sheetAxes : NeZero (2 : ℕ) := ⟨Nat.succ_ne_zero 1⟩

/-- A length along a sheet and one across it. -/
abbrev Size := Fin 2 → ℚ

/-- The sizes of a stock; a sheet has its longer side first. -/
inductive StockSizes
  | lengths (sizesMm : List ℚ)
  | sheets (sizesMm : List Size)

/-- What a material is cut from. -/
structure Stock where
  sizes : StockSizes
  kerfMm : ℚ
  trimMm : ℚ
  /-- The attribute of a part that names the axis to run along a sheet. -/
  along : Option String

def Stock.kind (stock : Stock) : StockKind :=
  match stock.sizes with
  | .lengths _ => .lengths
  | .sheets _ => .sheets

/-- The size of every stock on each of its sides. -/
def StockSizes.sides : StockSizes → List (List ℚ)
  | lengths sizesMm => sizesMm.map fun length => [length]
  | sheets sizesMm => sizesMm.map fun size => [size 0, size 1]

/-- What `stock()` is given. -/
inductive StockInput
  | lengths (given : List ℚ)
  | sheets (given : List (ℚ × ℚ))

inductive StockError
  | negative (what : String) (value : ℚ)
  | noSize
  | shorterThanTrim (size : List ℚ)
  | alongLengths
  deriving DecidableEq

def StockInput.sizes : StockInput → StockSizes
  | .lengths given => .lengths given
  | .sheets given => .sheets (given.map fun sheet => ![max sheet.1 sheet.2, min sheet.1 sheet.2])

def measure (value : ℚ) (what : String) : Except StockError ℚ :=
  if value < 0 then .error (.negative what value) else .ok value

/-- `stock()`: what it checks of the measures it is given. -/
def stockOf (input : StockInput) (kerf trim : ℚ) (along : Option String) :
    Except StockError Stock := do
  let kerfMm ← measure kerf "kerf"
  let trimMm ← measure trim "trim"
  let stock : Stock := ⟨input.sizes, kerfMm, trimMm, along⟩
  refuseIf (stock.sizes.sides = []) .noSize
  let short := stock.sizes.sides.find? fun size => size.any fun side => decide (side ≤ 2 * trimMm)
  short.elim (.ok ()) fun size => .error (.shorterThanTrim size)
  refuseIf (stock.kind = .lengths ∧ along.isSome) .alongLengths
  return stock

/-- A stock some `stock()` gives. -/
def Stock.Accepted (stock : Stock) : Prop :=
  ∃ input kerf trim along, stockOf input kerf trim along = .ok stock

/-- **What an accepted stock is.** -/
structure Stock.Sound (stock : Stock) : Prop where
  kerf : 0 ≤ stock.kerfMm
  trim : 0 ≤ stock.trimMm
  some : stock.sizes.sides ≠ []
  wide : ∀ size ∈ stock.sizes.sides, ∀ side ∈ size, 2 * stock.trimMm < side

theorem measure_ok {value result : ℚ} {what : String} (ok : measure value what = .ok result) :
    0 ≤ result := by
  unfold measure at ok
  split at ok
  · cases ok
  case isFalse least => exact Except.ok.inj ok ▸ not_lt.mp least

theorem Stock.Accepted.sound {stock : Stock} (accepted : stock.Accepted) : stock.Sound := by
  obtain ⟨input, kerf, trim, along, ok⟩ := accepted
  obtain ⟨kerfMm, isKerf, ok⟩ := bind_ok ok
  obtain ⟨trimMm, isTrim, ok⟩ := bind_ok ok
  obtain ⟨_, given, ok⟩ := bind_ok ok
  obtain ⟨_, long, ok⟩ := bind_ok ok
  obtain ⟨_, _, ok⟩ := bind_ok ok
  cases ok
  refine ⟨measure_ok isKerf, measure_ok isTrim, refuseIf_ok.mp given, fun size among side inside => ?_⟩
  by_contra short
  cases found : input.sizes.sides.find? fun size => size.any fun side =>
      decide (side ≤ 2 * trimMm) with
  | some first =>
    rw [show (StockInput.sizes input).sides.find? _ = some first from found] at long
    cases long
  | none =>
    have none_ := List.find?_eq_none.mp found size among
    exact none_ (List.any_eq_true.mpr ⟨side, inside, decide_eq_true (not_lt.mp short)⟩)

/-! ### Blanks -/

/-- A part, with the sizes of its blank along its local axes: `blank_size_along` of the attribute that
names an axis of the material. -/
structure Part where
  name : String
  material : Option String
  attributes : BTreeMap String String
  blankSizeAlong : String → Fin 3 → ℚ
  blankSize_nonneg : ∀ along axis, 0 ≤ blankSizeAlong along axis

/-- The parts of a program and the stock of its materials. -/
structure ProgramModel where
  parts : List Part
  stock : BTreeMap String Stock

/-- The last part of a name. -/
def ProgramModel.partsByName (model : ProgramModel) : BTreeMap String Part :=
  model.parts.foldl (fun byName part => byName.insert part.name part) ∅

def lengthAxis : String := "length_axis"
def thicknessAxis : String := "thickness_axis"
def materialAxis : String := "material:axis"

/-- The local axis an attribute names. -/
def Part.namedAxis (part : Part) (name : String) : Option (Fin 3) :=
  match part.attributes[name]? with
  | some value =>
    if value = "x" ∨ value = "X" then some 0
    else if value = "y" ∨ value = "Y" then some 1
    else if value = "z" ∨ value = "Z" then some 2
    else none
  | none => none

def longestFirst (extent : Fin 3 → ℚ) (axes : List (Fin 3)) : List (Fin 3) :=
  axes.insertionSort fun left right => extent right ≤ extent left

/-- The blank of a part, and the local axis each of its sizes is along. -/
def blank (part : Part) (stock : Option Stock) : List ℚ × List (Fin 3) :=
  let kind :=
    match stock with
    | some stock => stock.kind
    | none =>
      if thicknessAxis ∈ part.attributes ∧ lengthAxis ∉ part.attributes then .sheets else .lengths
  let extent := part.blankSizeAlong ((stock.bind Stock.along).getD materialAxis)
  let others (axis : Fin 3) := longestFirst extent [axis + 1, axis + 2]
  let order :=
    match kind, part.namedAxis lengthAxis, part.namedAxis thicknessAxis with
    | .lengths, some axis, _ => axis :: others axis
    | .lengths, none, some axis =>
      (others axis).take 1 ++ longestFirst extent (axis :: (others axis).drop 1)
    | .sheets, _, some axis => others axis ++ [axis]
    | _, _, _ => longestFirst extent [0, 1, 2]
  (order.map extent, order)

theorem blank_nonneg (part : Part) (stock : Option Stock) (index : Nat) :
    0 ≤ (blank part stock).1.getD index 0 := by
  unfold blank
  dsimp only
  rw [List.getD_eq_getElem?_getD, List.getElem?_map]
  cases (_ : List (Fin 3))[index]? with
  | none => exact le_refl _
  | some axis => exact part.blankSize_nonneg _ axis

end Ketchup.Cutting
