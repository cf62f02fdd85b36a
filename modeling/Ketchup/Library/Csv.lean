/-
**Comma-separated text and its reader.**

`readCsv` reads records by the grammar of RFC 4180, with any mark between fields and a line break of LF as of
CR LF: a field is plain, or stands in quotes with each of its quotes doubled. `field` writes one, in quotes
where it needs them. A field that is written is read as itself (`read_field`), and so are records of at least
one field each (`readCsv_records`).
-/

import Mathlib.Data.List.Basic

namespace Ketchup.Csv

/-- Where a reader is in a field. -/
inductive State
  /-- Before the first mark of a field. -/
  | start
  | plain
  | quoted
  /-- After a quote in a quoted field: it ends the field, or is the first of two. -/
  | closing
  /-- After a CR that ends a record. -/
  | carriage
  deriving DecidableEq

/-- What a reader has: of a field, the fields of the record before it, and the records before that. -/
structure Reading where
  state : State
  field : List Char
  row : List String
  rows : List (List String)
  deriving DecidableEq

namespace Reading

def endField (reading : Reading) : Reading :=
  { reading with state := .start, field := [], row := reading.row ++ [String.ofList reading.field] }

def endRecord (reading : Reading) : Reading :=
  ⟨.start, [], [], reading.rows ++ [reading.row ++ [String.ofList reading.field]]⟩

def add (reading : Reading) (state : State) (mark : Char) : Reading :=
  { reading with state, field := reading.field ++ [mark] }

/-- The next mark, which outside quotes may end the field or the record. -/
def step (column : Char) (reading : Reading) (mark : Char) : Option Reading :=
  if reading.state = .quoted then
    some (if mark = '"' then { reading with state := .closing } else reading.add .quoted mark)
  else if reading.state = .carriage then if mark = '\n' then some reading.endRecord else none
  else if mark = column then some reading.endField
  else if mark = '\n' then some reading.endRecord
  else if mark = '\r' then some { reading with state := .carriage }
  else if mark = '"' then
    if reading.state = .start then some { reading with state := .quoted }
    else if reading.state = .closing then some (reading.add .quoted mark)
    else none
  else if reading.state = .closing then none
  else some (reading.add .plain mark)

/-- The records at the end of the text; the last one needs no line break. -/
def finish (reading : Reading) : Option (List (List String)) :=
  if reading.state = .quoted ∨ reading.state = .carriage then none
  else if reading.state = .start ∧ reading.row = [] then some reading.rows
  else some reading.endRecord.rows

end Reading

/-- The records of a text. -/
def readCsv (column : Char) (text : List Char) : Option (List (List String)) :=
  (text.foldlM (Reading.step column) ⟨.start, [], [], []⟩).bind Reading.finish

/-- The marks that a plain field has none of. -/
def Special (column mark : Char) : Prop := mark = column ∨ mark = '"' ∨ mark = '\n' ∨ mark = '\r'

instance (column mark : Char) : Decidable (Special column mark) :=
  inferInstanceAs (Decidable (_ ∨ _ ∨ _ ∨ _))

/-- Each quote doubled. -/
def doubled (text : List Char) : List Char := text.flatMap fun mark => if mark = '"' then ['"', '"'] else [mark]

/-- A field, in quotes where it has a special mark. -/
def field (column : Char) (text : List Char) : List Char :=
  if text.any fun mark => decide (Special column mark) then '"' :: (doubled text ++ ['"']) else text

/-- A mark that can stand between fields. -/
structure Separates (column : Char) : Prop where
  noQuote : column ≠ '"'
  noLineFeed : column ≠ '\n'
  noReturn : column ≠ '\r'

/-- Fields with the separator between them, and a line break. -/
def record (column : Char) (fields : List String) : List Char :=
  List.intercalate [column] (fields.map fun text => field column text.toList) ++ ['\n']

section Fields

variable {column : Char} {row : List String} {rows : List (List String)}

/-- The marks of a plain field, one after another. -/
theorem read_plain {got text : List Char} (plain : ∀ mark ∈ text, ¬Special column mark) :
    text.foldlM (Reading.step column) ⟨.plain, got, row, rows⟩ = some ⟨.plain, got ++ text, row, rows⟩ := by
  induction text generalizing got with
  | nil => rw [List.append_nil]; rfl
  | cons mark text ih =>
    have its := plain mark List.mem_cons_self
    simp only [Special, not_or] at its
    have next : Reading.step column ⟨.plain, got, row, rows⟩ mark = some ⟨.plain, got ++ [mark], row, rows⟩ := by
      simp [Reading.step, its, Reading.add]
    rw [List.foldlM_cons, next, Option.bind_eq_bind, Option.bind_some,
      ih fun mark there => plain mark (List.mem_cons_of_mem _ there), List.append_assoc, List.singleton_append]

variable (separates : Separates column)

include separates

/-- The marks inside quotes, each quote twice. -/
theorem read_doubled {got text : List Char} :
    (doubled text).foldlM (Reading.step column) ⟨.quoted, got, row, rows⟩ =
      some ⟨.quoted, got ++ text, row, rows⟩ := by
  induction text generalizing got with
  | nil => rw [List.append_nil]; rfl
  | cons mark text ih =>
    rw [doubled, List.flatMap_cons, List.foldlM_append]
    have next : (if mark = '"' then ['"', '"'] else [mark]).foldlM (Reading.step column)
        ⟨.quoted, got, row, rows⟩ = some ⟨.quoted, got ++ [mark], row, rows⟩ := by
      by_cases quote : mark = '"'
      · simp [quote, Reading.step, Reading.add, separates.noQuote.symm]
      · simp [quote, Reading.step, Reading.add]
    rw [next, Option.bind_eq_bind, Option.bind_some]
    exact ih.trans (by rw [List.append_assoc, List.singleton_append])

omit separates in
/-- A text without special marks is written as it is. -/
theorem field_plain {text : List Char} (plain : ∀ mark ∈ text, ¬Special column mark) : field column text = text := by
  refine if_neg ?_
  simpa [List.any_eq_true] using plain

/-- A field that is written is read as itself, and the reader is where it may end. -/
theorem read_field (row : List String) (rows : List (List String)) (text : List Char) :
    ∃ state, (state = .start ∨ state = .plain ∨ state = .closing) ∧
      (field column text).foldlM (Reading.step column) ⟨.start, [], row, rows⟩ = some ⟨state, text, row, rows⟩ := by
  by_cases special : ∃ mark ∈ text, Special column mark
  · have quoted : field column text = '"' :: (doubled text ++ ['"']) := by
      refine if_pos ?_
      simpa [List.any_eq_true] using special
    rw [quoted]
    refine ⟨.closing, .inr (.inr rfl), ?_⟩
    have opens : Reading.step column ⟨.start, [], row, rows⟩ '"' = some ⟨.quoted, [], row, rows⟩ := by
      simp [Reading.step, separates.noQuote.symm]
    rw [List.foldlM_cons, opens, Option.bind_eq_bind, Option.bind_some, List.foldlM_append,
      read_doubled separates]
    simp [Reading.step]
  · push Not at special
    rw [field_plain special]
    cases text with
    | nil => exact ⟨.start, .inl rfl, rfl⟩
    | cons mark text =>
      have its := special mark List.mem_cons_self
      simp only [Special, not_or] at its
      have begins : Reading.step column ⟨.start, [], row, rows⟩ mark = some ⟨.plain, [mark], row, rows⟩ := by
        simp [Reading.step, its, Reading.add]
      refine ⟨.plain, .inr (.inl rfl), ?_⟩
      rw [List.foldlM_cons, begins, Option.bind_eq_bind, Option.bind_some,
        read_plain fun mark there => special mark (List.mem_cons_of_mem _ there), List.singleton_append]

omit separates in
theorem step_column {state : State} (ends : state = .start ∨ state = .plain ∨ state = .closing)
    (text : List Char) : Reading.step column ⟨state, text, row, rows⟩ column =
      some ⟨.start, [], row ++ [String.ofList text], rows⟩ := by
  rcases ends with rfl | rfl | rfl
  all_goals simp [Reading.step, Reading.endField]

theorem step_lineFeed {state : State} (ends : state = .start ∨ state = .plain ∨ state = .closing)
    (text : List Char) : Reading.step column ⟨state, text, row, rows⟩ '\n' =
      some ⟨.start, [], [], rows ++ [row ++ [String.ofList text]]⟩ := by
  rcases ends with rfl | rfl | rfl
  all_goals simp [Reading.step, Reading.endRecord, separates.noLineFeed.symm]

theorem read_record {first : String} {others : List String} :
    (record column (first :: others)).foldlM (Reading.step column) ⟨.start, [], row, rows⟩ =
      some ⟨.start, [], [], rows ++ [row ++ first :: others]⟩ := by
  induction others generalizing first row with
  | nil =>
    obtain ⟨state, ends, read⟩ := read_field separates row rows first.toList
    rw [record, List.map_singleton, List.intercalate_singleton, List.foldlM_append, read, Option.bind_eq_bind,
      Option.bind_some, List.foldlM_cons, step_lineFeed separates ends, String.ofList_toList]
    rfl
  | cons second others ih =>
    obtain ⟨state, ends, read⟩ := read_field separates row rows first.toList
    have rest : record column (first :: second :: others) =
        field column first.toList ++ column :: record column (second :: others) := by
      simp only [record, List.map_cons, List.intercalate_cons_cons, List.append_assoc, List.cons_append,
        List.nil_append]
    rw [rest, List.foldlM_append, read, Option.bind_eq_bind, Option.bind_some, List.foldlM_cons,
      step_column ends, Option.bind_eq_bind, Option.bind_some, String.ofList_toList, ih, List.append_assoc,
      List.singleton_append]

/-- **Records that are written are read as themselves.** -/
theorem readCsv_records {records : List (List String)} (some_ : ∀ fields ∈ records, fields ≠ []) :
    readCsv column (records.flatMap (record column)) = some records := by
  have all (rows : List (List String)) :
      (records.flatMap (record column)).foldlM (Reading.step column) ⟨.start, [], [], rows⟩ =
        some ⟨.start, [], [], rows ++ records⟩ := by
    induction records generalizing rows with
    | nil => rw [List.append_nil]; rfl
    | cons fields records ih =>
      have filled := some_ fields List.mem_cons_self
      cases fields with
      | nil => exact absurd rfl filled
      | cons first others =>
        rw [List.flatMap_cons, List.foldlM_append, read_record separates, Option.bind_eq_bind, Option.bind_some,
          ih fun fields there => some_ fields (List.mem_cons_of_mem _ there), List.append_assoc]
        rfl
  rw [readCsv, all, Option.bind_some]
  rfl

end Fields

end Ketchup.Csv
