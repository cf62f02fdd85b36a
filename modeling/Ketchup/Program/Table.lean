/-
**A plain table written as CSV.**

Text is written after an apostrophe where a spreadsheet would run it as a formula (`guarded`), and in quotes
where it has a mark that ends a field. What is written reads back as the cells that are shown
(`csv_reads_back`), of any table each of whose lines has a cell: a line without cells reads as one empty cell.
-/

import Ketchup.Library.Csv
import Ketchup.Library.Text

namespace Ketchup.Program

/-- The operations of `f64` that writing a number uses. -/
class Decimals (F : Type) where
  /-- `10.0.powi(decimals)`. -/
  tenTo : Nat → F
  mul : F → F → F
  div : F → F → F
  round : F → F
  /-- `value == 0.0`. -/
  isZero : F → Bool
  zero : F
  /-- `to_string`. -/
  display : F → String

/-- The marks of a number that is displayed, `NaN` and `inf` among them. -/
def numberMarks : List Char := ['-', '.', '0', '1', '2', '3', '4', '5', '6', '7', '8', '9', 'N', 'a', 'i', 'n', 'f']

/-- Numbers are displayed with their marks alone. -/
def Displays (F : Type) [Decimals F] : Prop :=
  ∀ value : F, ∀ mark ∈ (Decimals.display value).toList, mark ∈ numberMarks

inductive Cell (F : Type)
  | text (text : String)
  /-- Written to a thousandth. -/
  | number (value : F)
  /-- Written to the given number of decimals. -/
  | decimal (value : F) (decimals : Nat)
  | count (count : Nat)
  deriving DecidableEq

structure Table (F : Type) where
  header : List String
  rows : List (List (Cell F))

/-- How numbers are written: with a decimal comma the columns are split on `;`, with a point on `,`. -/
inductive DecimalSeparator
  | comma
  | point
  deriving DecidableEq

def DecimalSeparator.column : DecimalSeparator → Char
  | comma => ';'
  | point => ','

section Writing

variable {F : Type} [Decimals F]

open Decimals in
/-- Rounded, so no binary noise. -/
def numberText (value : F) (decimals : Nat) : String :=
  let scale : F := tenTo decimals
  let rounded := div (round (mul value scale)) scale
  let rounded := if isZero rounded then zero else rounded
  display rounded

def DecimalSeparator.number (decimal : DecimalSeparator) (value : F) (decimals : Nat) : String :=
  let text := numberText value decimals
  match decimal with
  | comma => String.ofList (text.toList.map fun mark => if mark = '.' then ',' else mark)
  | point => text

/-- The marks that make a spreadsheet run a text. -/
def formulaMarks : List Char := ['=', '+', '-', '@', '\t', '\r']

/-- A text that would be run, after an apostrophe. -/
def guarded (text : String) : String :=
  if text.toList.head?.any (· ∈ formulaMarks) then String.ofList ('\'' :: text.toList) else text

/-- A text cell. -/
def csvText (text : String) (column : Char) : List Char := Csv.field column (guarded text).toList

def csvCell (decimal : DecimalSeparator) : Cell F → List Char
  | .text text => csvText text decimal.column
  | .number value => (decimal.number value 3).toList
  | .decimal value decimals => (decimal.number value decimals).toList
  | .count count => (toString count).toList

/-- Cells with the separator between them, and a line break. -/
def csvLine (decimal : DecimalSeparator) (cells : List (List Char)) : List Char :=
  List.intercalate [decimal.column] cells ++ ['\n']

/-- `\u{feff}`, which keeps diacritics. -/
def byteOrderMark : Char := Char.ofNat 0xFEFF

def Table.csv (table : Table F) (decimal : DecimalSeparator) : String :=
  String.ofList (byteOrderMark ::
    (csvLine decimal (table.header.map fun name => csvText name decimal.column) ++
      table.rows.flatMap fun row => csvLine decimal (row.map (csvCell decimal))))

/-! ### Reading back -/

/-- What a cell shows. -/
def Cell.shown (decimal : DecimalSeparator) : Cell F → String
  | .text content => guarded content
  | .number value => decimal.number value 3
  | .decimal value decimals => decimal.number value decimals
  | .count pieces => toString pieces

/-- The lines of a table, as they are shown. -/
def Table.shown (table : Table F) (decimal : DecimalSeparator) : List (List String) :=
  table.header.map guarded :: table.rows.map fun row => row.map (Cell.shown decimal)

/-- A reader of UTF-8 bytes, which passes over the byte order mark. -/
def readTable (column : Char) (bytes : Bytes) : Option (List (List String)) :=
  (String.fromUTF8? ⟨bytes.toArray⟩).bind fun text =>
    Csv.readCsv column (if text.toList.head? = some byteOrderMark then text.toList.tail else text.toList)

theorem separates (decimal : DecimalSeparator) : Csv.Separates decimal.column := by
  cases decimal with
  | _ => exact ⟨by decide, by decide, by decide⟩

theorem number_plain (displays : Displays F) (decimal : DecimalSeparator) (value : F) (decimals : Nat) :
    ∀ mark ∈ (decimal.number value decimals).toList, ¬Csv.Special decimal.column mark := by
  intro mark there
  cases decimal with
  | point =>
    have plain : numberMarks.all fun mark => decide ¬Csv.Special ',' mark := by decide
    exact of_decide_eq_true (List.all_eq_true.mp plain mark (displays _ mark there))
  | comma =>
    rw [DecimalSeparator.number, String.toList_ofList] at there
    obtain ⟨before, its, rfl⟩ := List.mem_map.mp there
    have plain : numberMarks.all fun before => decide ¬Csv.Special ';' (if before = '.' then ',' else before) := by
      decide
    exact of_decide_eq_true (List.all_eq_true.mp plain before (displays _ before its))

theorem count_plain (decimal : DecimalSeparator) (count : Nat) :
    ∀ mark ∈ (toString count).toList, ¬Csv.Special decimal.column mark := by
  intro mark there
  have digit : mark.isDigit = true := by
    rw [show toString count = count.repr from rfl, Nat.toList_repr] at there
    exact Nat.isDigit_of_mem_toDigits (by decide : 0 < 10) (by decide) there
  rintro (rfl | rfl | rfl | rfl)
  · cases decimal <;> exact absurd digit (by decide)
  all_goals exact absurd digit (by decide)

/-- Each cell is written as a field that shows what the cell shows. -/
theorem csvCell_eq (displays : Displays F) (decimal : DecimalSeparator) (cell : Cell F) :
    csvCell decimal cell = Csv.field decimal.column (cell.shown decimal).toList := by
  cases cell with
  | text text => rfl
  | number value => exact (Csv.field_plain (number_plain displays decimal value 3)).symm
  | decimal value decimals => exact (Csv.field_plain (number_plain displays decimal value decimals)).symm
  | count count => exact (Csv.field_plain (count_plain decimal count)).symm

theorem csv_eq (displays : Displays F) (table : Table F) (decimal : DecimalSeparator) :
    table.csv decimal =
      String.ofList (byteOrderMark :: (table.shown decimal).flatMap (Csv.record decimal.column)) := by
  have header : csvLine decimal (table.header.map fun name => csvText name decimal.column) =
      Csv.record decimal.column (table.header.map guarded) := by
    rw [csvLine, Csv.record, List.map_map]
    rfl
  have line (row : List (Cell F)) : csvLine decimal (row.map (csvCell decimal)) =
      Csv.record decimal.column (row.map (Cell.shown decimal)) := by
    rw [csvLine, Csv.record, List.map_map]
    congr 2
    refine List.map_congr_left fun cell _ => csvCell_eq displays decimal cell
  rw [Table.csv, Table.shown, List.flatMap_cons, header, List.flatMap_map]
  simp only [line]

/-- **An exported table reads back**, where each line has a cell. -/
theorem csv_reads_back (displays : Displays F) {table : Table F} (header : table.header ≠ [])
    (rows : ∀ row ∈ table.rows, row ≠ []) (decimal : DecimalSeparator) :
    readTable decimal.column (utf8 (table.csv decimal)) = some (table.shown decimal) := by
  have some_ : ∀ fields ∈ table.shown decimal, fields ≠ [] := by
    intro fields there
    rcases List.mem_cons.mp there with rfl | there
    · exact fun none_ => header (List.map_eq_nil_iff.mp none_)
    · obtain ⟨row, its, rfl⟩ := List.mem_map.mp there
      exact fun none_ => rows row its (List.map_eq_nil_iff.mp none_)
  rw [readTable, fromUTF8?_utf8, Option.bind_some, csv_eq displays, String.toList_ofList,
    if_pos (List.head?_cons ..), List.tail_cons]
  exact Csv.readCsv_records (separates decimal) some_

end Writing

end Ketchup.Program
