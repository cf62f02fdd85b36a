/-
**The stored zip archive of an export, and the names of its columns.**

`storedZip` writes each file twice, as itself after a header and as an entry of the directory; a value that
does not fit its field panics, which is `none` here. Every archive that is written is read by the rules of the
format as the files it was written of (`storedZip_reads_back`).

Columns have the names A to Z, AA and so on (`columnName`): every name is of one column (`columnName_bijective`).
-/

import Ketchup.Library.Zip
import Ketchup.Program.Table
import Mathlib.Data.UInt

namespace Ketchup.Program

open Zip

/-! ### Archives -/

def crc32 (bytes : Bytes) : UInt32 :=
  ~~~(bytes.foldl
    (fun crc byte =>
      (List.range 8).foldl (fun crc _ => if crc &&& 1 = 1 then (crc >>> 1) ^^^ 0xEDB88320 else crc >>> 1)
        (crc ^^^ byte.toUInt32))
    0xFFFFFFFF)

/-- A number in a field of so many bytes (`u16_le`, `u32_le`). -/
def fieldLe (field : Nat × Nat) : Option Bytes :=
  if field.2 < 256 ^ field.1 then some (littleEndian field.1 field.2) else none

def fieldsLe (fields : List (Nat × Nat)) : Option Bytes := (fields.mapM fieldLe).map List.flatten

/-- 1980-01-01, the earliest date there is. -/
def dosDate : Nat := 0x21

/-- The fields of a header, of a file or of its entry in the directory. -/
def headerFields (signature offset : Nat) (name data : Bytes) : List (Nat × Nat) :=
  [(4, signature)] ++
    (if signature = centralSignature then [(2, 20)] else []) ++
    [(2, 20), (2, 0), (2, 0), (2, 0), (2, dosDate), (4, (crc32 data).toNat), (4, data.length),
      (4, data.length), (2, name.length), (2, 0)] ++
    if signature = centralSignature then [(2, 0), (2, 0), (2, 0), (4, 0), (4, offset)] else []

def writeHeader (signature offset : Nat) (name : String) (data : Bytes) : Option Bytes :=
  (fieldsLe (headerFields signature offset (utf8 name) data)).map (· ++ utf8 name)

/-- The archive and the directory with one more file. -/
def addFile (written : Bytes × Bytes) (file : String × Bytes) : Option (Bytes × Bytes) := do
  let offset := written.1.length
  let head ← writeHeader localSignature offset file.1 file.2
  let entry ← writeHeader centralSignature offset file.1 file.2
  some (written.1 ++ head ++ file.2, written.2 ++ entry)

/-- A ZIP archive with every file stored uncompressed. -/
def storedZip (files : List (String × Bytes)) : Option Bytes := do
  let (archive, directory) ← files.foldlM addFile ([], [])
  let ending ← fieldsLe [(4, endSignature), (2, 0), (2, 0), (2, files.length), (2, files.length),
    (4, directory.length), (4, archive.length), (2, 0)]
  some (archive ++ directory ++ ending)

theorem fieldsLe_eq_some {fields : List (Nat × Nat)} {bytes : Bytes} :
    fieldsLe fields = some bytes ↔ (∀ field ∈ fields, field.2 < 256 ^ field.1) ∧ bytes = writeFields fields := by
  unfold fieldsLe
  induction fields generalizing bytes with
  | nil => simp [writeFields, eq_comm]
  | cons field fields ih =>
    rw [List.mapM_cons, List.forall_mem_cons]
    by_cases fits : field.2 < 256 ^ field.1
    · rw [fieldLe, if_pos fits, and_iff_right fits]
      have rest : writeFields (field :: fields) = littleEndian field.1 field.2 ++ writeFields fields := rfl
      cases all : fields.mapM fieldLe with
      | none =>
        rw [all] at ih
        refine iff_of_false (fun is => by cases is) fun both => ?_
        have written := ih.mpr ⟨both.1, rfl⟩
        cases written
      | some parts =>
        rw [all] at ih
        have parts_ := (@ih parts.flatten).mp rfl
        rw [rest, ← parts_.2, and_iff_right parts_.1]
        simp [eq_comm]
    · rw [fieldLe, if_neg fits]
      exact iff_of_false (fun is => by cases is) fun both => fits both.1.1

theorem writeHeader_eq_some {signature offset : Nat} {name : String} {data bytes : Bytes} :
    writeHeader signature offset name data = some bytes ↔
      (∀ field ∈ headerFields signature offset (utf8 name) data, field.2 < 256 ^ field.1) ∧
        bytes = writeFields (headerFields signature offset (utf8 name) data) ++ utf8 name := by
  rw [writeHeader, Option.map_eq_some_iff]
  constructor
  · rintro ⟨fields, written, rfl⟩
    obtain ⟨fits, rfl⟩ := fieldsLe_eq_some.mp written
    exact ⟨fits, rfl⟩
  · rintro ⟨fits, rfl⟩
    exact ⟨_, fieldsLe_eq_some.mpr ⟨fits, rfl⟩, rfl⟩

/-- A file that is written is read at its offset, from its entry. -/
theorem readEntry_written {name : String} {data head entry before after rest : Bytes}
    (one : writeHeader localSignature before.length name data = some head)
    (two : writeHeader centralSignature before.length name data = some entry) :
    readEntry crc32 (before ++ (head ++ (data ++ after))) (entry ++ rest) =
      some ((utf8 name, data), rest) := by
  obtain ⟨fits, rfl⟩ := writeHeader_eq_some.mp one
  obtain ⟨fits', rfl⟩ := writeHeader_eq_some.mp two
  have central : readCentral (writeFields (headerFields centralSignature before.length (utf8 name) data) ++
      utf8 name ++ rest) = some (told (crc32 data).toNat data.length (utf8 name), before.length, rest) := by
    rw [List.append_assoc]
    exact readCentral_written fits'
  have head : readLocal (writeFields (headerFields localSignature before.length (utf8 name) data) ++
      utf8 name ++ (data ++ after)) = some (told (crc32 data).toNat data.length (utf8 name), data ++ after) := by
    rw [List.append_assoc]
    exact readLocal_written fits
  rw [readEntry, central, Option.bind_some, List.drop_left, head, Option.bind_some]
  simp only [told, readBytes_append, Option.bind_some, and_self, if_true]

/-- What files add to an archive is read from what they add to its directory. -/
theorem addFiles_read {files : List (String × Bytes)} {archive directory : Bytes} {written : Bytes × Bytes}
    (done : files.foldlM addFile (archive, directory) = some written) :
    ∃ bodies entries, written = (archive ++ bodies, directory ++ entries) ∧
      ∀ after, readEntries crc32 (archive ++ bodies ++ after) files.length entries =
        some (files.map fun file => (utf8 file.1, file.2)) := by
  induction files generalizing archive directory with
  | nil =>
    obtain rfl := Option.some.inj done
    exact ⟨[], [], by simp, fun after => rfl⟩
  | cons file files ih =>
    rw [List.foldlM_cons] at done
    obtain ⟨next, added, done⟩ := Option.bind_eq_some_iff.mp done
    obtain ⟨head, one, added⟩ := Option.bind_eq_some_iff.mp added
    obtain ⟨entry, two, added⟩ := Option.bind_eq_some_iff.mp added
    obtain rfl := Option.some.inj added
    obtain ⟨bodies, entries, rfl, read⟩ := ih done
    refine ⟨head ++ (file.2 ++ bodies), entry ++ entries, by simp, fun after => ?_⟩
    have place : archive ++ (head ++ (file.2 ++ bodies)) ++ after =
        archive ++ (head ++ (file.2 ++ (bodies ++ after))) := by simp
    have place' : archive ++ head ++ file.2 ++ bodies ++ after =
        archive ++ (head ++ (file.2 ++ (bodies ++ after))) := by simp
    have others := read after
    rw [place'] at others
    rw [place, List.length_cons, readEntries, readEntry_written one two, Option.bind_some, others]
    rfl

/-- **Every archive that is written is read as the files it was written of.** -/
theorem storedZip_reads_back {files : List (String × Bytes)} {archive : Bytes}
    (written : storedZip files = some archive) :
    readZip crc32 archive = some (files.map fun file => (utf8 file.1, file.2)) := by
  obtain ⟨⟨bodies, entries⟩, done, written⟩ := Option.bind_eq_some_iff.mp written
  obtain ⟨ending, closed, written⟩ := Option.bind_eq_some_iff.mp written
  obtain rfl := Option.some.inj written
  obtain ⟨fits, rfl⟩ := fieldsLe_eq_some.mp closed
  obtain ⟨_, _, both, read⟩ := addFiles_read done
  obtain ⟨rfl, rfl⟩ := Prod.mk.inj both
  exact readZip_written fits rfl (read _)

/-! ### Columns -/

/-- The letter of a place. -/
def letter (place : Nat) : Char := Char.ofNat (65 + place)

/-- Spreadsheet column letters: 0 is A, 25 is Z, 26 is AA. -/
def columnName (index : Nat) : List Char :=
  if index < 26 then [letter (index % 26)]
  else columnName (index / 26 - 1) ++ [letter (index % 26)]
termination_by index
decreasing_by omega

/-- The place of a letter. -/
def place (mark : Char) : Nat := mark.toNat - 65

/-- The number of a name, whose letters are digits from 1 to 26. -/
def nameValue (name : List Char) : Nat := name.foldl (fun before mark => 26 * before + (place mark + 1)) 0

/-- A name that a spreadsheet gives to a column. -/
def IsColumnName (name : List Char) : Prop := name ≠ [] ∧ ∀ mark ∈ name, 65 ≤ mark.toNat ∧ mark.toNat ≤ 90

theorem nameValue_append (before : List Char) (mark : Char) :
    nameValue (before ++ [mark]) = 26 * nameValue before + (place mark + 1) := by
  rw [nameValue, List.foldl_append]
  rfl

theorem place_letter {index : Nat} (less : index < 26) : place (letter index) = index := by
  have all : ∀ index < 26, place (letter index) = index := by decide
  exact all index less

theorem letter_toNat {index : Nat} (less : index < 26) :
    65 ≤ (letter index).toNat ∧ (letter index).toNat ≤ 90 := by
  have all : ∀ index < 26, 65 ≤ (letter index).toNat ∧ (letter index).toNat ≤ 90 := by decide
  exact all index less

theorem letter_place {mark : Char} (is : 65 ≤ mark.toNat ∧ mark.toNat ≤ 90) : letter (place mark) = mark := by
  rw [letter, place, Nat.add_sub_cancel' is.1]
  exact Char.ofNat_toNat mark

theorem columnName_isColumnName (index : Nat) : IsColumnName (columnName index) := by
  fun_induction columnName index with
  | case1 index less =>
    refine ⟨List.cons_ne_nil _ _, fun mark there => ?_⟩
    obtain rfl := List.mem_singleton.mp there
    exact letter_toNat (Nat.mod_lt _ (by omega))
  | case2 index more ih =>
    refine ⟨by simp, fun mark there => ?_⟩
    rcases List.mem_append.mp there with before | last
    · exact ih.2 mark before
    · obtain rfl := List.mem_singleton.mp last
      exact letter_toNat (Nat.mod_lt _ (by omega))

theorem nameValue_columnName (index : Nat) : nameValue (columnName index) = index + 1 := by
  fun_induction columnName index with
  | case1 index less =>
    rw [Nat.mod_eq_of_lt less, ← List.nil_append [letter index], nameValue_append, place_letter less]
    simp [nameValue]
  | case2 index more ih =>
    rw [nameValue_append, ih, place_letter (Nat.mod_lt _ (by omega))]
    omega

theorem nameValue_pos {name : List Char} (some_ : name ≠ []) : 0 < nameValue name := by
  rw [← List.dropLast_append_getLast some_, nameValue_append]
  omega

theorem columnName_nameValue {name : List Char} (is : IsColumnName name) :
    columnName (nameValue name - 1) = name := by
  obtain ⟨some_, letters⟩ := is
  induction name using List.reverseRecOn with
  | nil => exact absurd rfl some_
  | append_singleton before mark ih =>
    have mark_ := letters mark (List.mem_append_right _ (List.mem_singleton_self _))
    have small : place mark < 26 := by
      unfold place
      omega
    rw [nameValue_append]
    have number : 26 * nameValue before + (place mark + 1) - 1 = 26 * nameValue before + place mark := by omega
    rw [number, columnName]
    by_cases first : before = []
    · subst first
      have none_ : nameValue [] = 0 := rfl
      rw [none_, if_pos (by omega), show (26 * 0 + place mark) % 26 = place mark by omega, letter_place mark_]
      rfl
    · have more := nameValue_pos first
      have quotient : (26 * nameValue before + place mark) / 26 - 1 = nameValue before - 1 := by omega
      have rest : (26 * nameValue before + place mark) % 26 = place mark := by omega
      rw [if_neg (by omega), quotient, rest, letter_place mark_,
        ih first fun mark there => letters mark (List.mem_append_left _ there)]

/-- Every name is of one column, and every column has one. -/
theorem columnName_bijective : Set.BijOn columnName Set.univ {name | IsColumnName name} := by
  refine ⟨fun index _ => columnName_isColumnName index, fun first _ second _ same => ?_, fun name is => ?_⟩
  · have values := congrArg nameValue same
    rw [nameValue_columnName, nameValue_columnName] at values
    omega
  · exact ⟨nameValue name - 1, trivial, columnName_nameValue is⟩

/-! ### Exports -/

section Exports

variable {F : Type} [Decimals F]

/-- The names and the bytes of an archive, read back. -/
def storedEntries (archive : Bytes) : Option (List (String × Bytes)) :=
  (readZip crc32 archive).bind fun files =>
    files.mapM fun file => (String.fromUTF8? ⟨file.1.toArray⟩).map fun name => (name, file.2)

theorem storedEntries_storedZip {files : List (String × Bytes)} {archive : Bytes}
    (written : storedZip files = some archive) : storedEntries archive = some files := by
  rw [storedEntries, storedZip_reads_back written, Option.bind_some, mapM_eq_some_iff, List.map_map]
  refine List.map_congr_left fun file _ => ?_
  simp only [Function.comp_apply, fromUTF8?_utf8, Option.map_some]

/-- What is read of a table, of files and of the columns is what was written. -/
structure ReadsBack (table : Table F) (files : List (String × Bytes)) : Prop where
  csv : ∀ decimal : DecimalSeparator,
    readTable decimal.column (utf8 (table.csv decimal)) = some (table.shown decimal)
  zip : ∀ archive, storedZip files = some archive → storedEntries archive = some files
  columns : Set.BijOn columnName Set.univ {name | IsColumnName name}

end Exports

/-- Whole numbers, which are displayed without a point. -/
instance wholeNumbers : Decimals Int where
  tenTo decimals := 10 ^ decimals
  mul := (· * ·)
  div := Int.tdiv
  round := id
  isZero value := value = 0
  zero := 0
  display := toString

theorem mem_numberMarks {mark : Char} (digit : mark.isDigit = true) : mark ∈ numberMarks := by
  obtain ⟨low, high⟩ : 48 ≤ mark.toNat ∧ mark.toNat ≤ 57 := by
    simpa [Char.isDigit, UInt32.le_iff_toNat_le] using digit
  have all : ∀ code ≤ 57, 48 ≤ code → Char.ofNat code ∈ numberMarks := by decide
  rw [← Char.ofNat_toNat mark]
  exact all mark.toNat high low

theorem wholeNumbers_displays : Displays Int := by
  intro value mark there
  have digits {number : Nat} (its : mark ∈ number.repr.toList) : mark ∈ numberMarks := by
    rw [Nat.toList_repr] at its
    exact mem_numberMarks (Nat.isDigit_of_mem_toDigits (by decide : 0 < 10) (by decide) its)
  cases value with
  | ofNat number => exact digits there
  | negSucc number =>
    have sign : (Decimals.display (Int.negSucc number)).toList = '-' :: (number + 1).repr.toList := by
      show (String.append "-" (number + 1).repr).toList = _
      exact String.toList_append ..
    rw [sign, List.mem_cons] at there
    rcases there with rfl | its
    · decide
    · exact digits its

def shelfTable : Table Int where
  header := ["name", "length_mm"]
  rows := [[.text "=SUM(1)", .number 300], [.text "a;b \"c\" & <d>", .number 1250]]

end Ketchup.Program
