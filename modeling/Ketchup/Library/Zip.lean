/-
**A reader of zip archives whose files are stored.**

`readZip` goes by the end record at the end of the archive to the directory, and by each entry of the directory
to the file: the headers have their signatures, agree with each other, say that the file is stored, and have
the checksum of its bytes. Names are bytes here. A header is a run of little-endian numbers (`readFields`).
-/

import Ketchup.Library.Places
import Ketchup.Library.Text

namespace Ketchup.Zip

/-! ### Runs of numbers -/

/-- Numbers of given widths off the front, and what follows. -/
def readFields : List Nat → Bytes → Option (List Nat × Bytes)
  | [], bytes => some ([], bytes)
  | width :: widths, bytes =>
    if bytes.length < width then none
    else (readFields widths (bytes.drop width)).map fun read =>
      (ofLittleEndian (bytes.take width) :: read.1, read.2)

/-- Numbers with their widths, one after another. -/
def writeFields (fields : List (Nat × Nat)) : Bytes := fields.flatMap fun field => littleEndian field.1 field.2

theorem readFields_write {fields : List (Nat × Nat)} (fits : ∀ field ∈ fields, field.2 < 256 ^ field.1)
    (rest : Bytes) : readFields (fields.map Prod.fst) (writeFields fields ++ rest) =
      some (fields.map Prod.snd, rest) := by
  induction fields with
  | nil => rfl
  | cons field fields ih =>
    have long : (littleEndian field.1 field.2).length = field.1 := littleEndian_length ..
    rw [writeFields, List.flatMap_cons, List.map_cons, readFields, List.append_assoc, if_neg (by
        rw [List.length_append]
        omega), List.drop_left' long, List.take_left' long,
      ofLittleEndian_littleEndian (fits field List.mem_cons_self)]
    rw [show fields.flatMap (fun field => littleEndian field.1 field.2) = writeFields fields from rfl,
      ih fun field there => fits field (List.mem_cons_of_mem _ there)]
    rfl

/-- So many bytes off the front, and what follows. -/
def readBytes (length : Nat) (bytes : Bytes) : Option (Bytes × Bytes) :=
  if bytes.length < length then none else some (bytes.take length, bytes.drop length)

theorem readBytes_append (bytes rest : Bytes) : readBytes bytes.length (bytes ++ rest) = some (bytes, rest) := by
  rw [readBytes, if_neg (by rw [List.length_append]; omega), List.take_left, List.drop_left]

/-! ### Archives -/

def localSignature : Nat := 0x04034b50
def centralSignature : Nat := 0x02014b50
def endSignature : Nat := 0x06054b50

def localWidths : List Nat := [4, 2, 2, 2, 2, 2, 4, 4, 4, 2, 2]
def centralWidths : List Nat := [4, 2, 2, 2, 2, 2, 2, 4, 4, 4, 2, 2, 2, 2, 2, 4, 4]
def endWidths : List Nat := [4, 2, 2, 2, 2, 4, 4, 2]

/-- A file as its header and the directory both tell of it. -/
structure Told where
  flags : Nat
  method : Nat
  checksum : Nat
  stored : Nat
  size : Nat
  name : Bytes
  deriving DecidableEq

/-- An entry of the directory: what it tells, where the file is, and the entries after it. -/
def readCentral (directory : Bytes) : Option (Told × Nat × Bytes) :=
  (readFields centralWidths directory).bind fun read =>
    match read with
    | ([signature, _, _, flags, method, _, _, checksum, stored, size, nameLength, extra, comment, _, _, _, offset],
        rest) =>
      if signature ≠ centralSignature then none
      else (readBytes nameLength rest).bind fun name =>
        (readBytes (extra + comment) name.2).map fun after =>
          (⟨flags, method, checksum, stored, size, name.1⟩, offset, after.2)
    | _ => none

/-- The header of a file, and what follows it. -/
def readLocal (bytes : Bytes) : Option (Told × Bytes) :=
  (readFields localWidths bytes).bind fun read =>
    match read with
    | ([signature, _, flags, method, _, _, checksum, stored, size, nameLength, extra], rest) =>
      if signature ≠ localSignature then none
      else (readBytes nameLength rest).bind fun name =>
        (readBytes extra name.2).map fun after => (⟨flags, method, checksum, stored, size, name.1⟩, after.2)
    | _ => none

section Reading

variable (checksum : Bytes → UInt32)

/-- The name and the bytes of the first file of the directory, and the entries after it. -/
def readEntry (archive directory : Bytes) : Option ((Bytes × Bytes) × Bytes) :=
  (readCentral directory).bind fun central =>
    (readLocal (archive.drop central.2.1)).bind fun head =>
      (readBytes head.1.size head.2).bind fun data =>
        if head.1 = central.1 ∧ head.1.method = 0 ∧ head.1.stored = head.1.size ∧
            head.1.checksum = (checksum data.1).toNat then
          some ((head.1.name, data.1), central.2.2)
        else none

/-- The files of a directory of so many entries. -/
def readEntries (archive : Bytes) : Nat → Bytes → Option (List (Bytes × Bytes))
  | 0, directory => if directory = [] then some [] else none
  | count + 1, directory =>
    (readEntry checksum archive directory).bind fun read =>
      (readEntries archive count read.2).map fun files => read.1 :: files

/-- The names and the bytes of the files of an archive without a comment. -/
def readZip (archive : Bytes) : Option (List (Bytes × Bytes)) :=
  if archive.length < 22 then none
  else (readFields endWidths (archive.drop (archive.length - 22))).bind fun read =>
    match read with
    | ([signature, disk, first, here, count, size, offset, comment], _) =>
      if signature = endSignature ∧ disk = 0 ∧ first = 0 ∧ here = count ∧ comment = 0 ∧
          offset + size + 22 = archive.length then
        readEntries checksum archive count ((archive.drop offset).take size)
      else none
    | _ => none

end Reading

/-! ### What is written -/

/-- What both headers tell of a file that is stored. -/
def told (checksum size : Nat) (name : Bytes) : Told := ⟨0, 0, checksum, size, size, name⟩

section Written

variable {needed time date crc size : Nat} {name rest : Bytes}

theorem readLocal_written
    (fits : ∀ field ∈ [(4, localSignature), (2, needed), (2, 0), (2, 0), (2, time), (2, date), (4, crc),
      (4, size), (4, size), (2, name.length), (2, 0)], field.2 < 256 ^ field.1) :
    readLocal (writeFields [(4, localSignature), (2, needed), (2, 0), (2, 0), (2, time), (2, date), (4, crc),
      (4, size), (4, size), (2, name.length), (2, 0)] ++ (name ++ rest)) = some (told crc size name, rest) := by
  have fields := readFields_write fits (name ++ rest)
  rw [readLocal]
  simp only [List.map_cons, List.map_nil] at fields
  rw [show localWidths = [4, 2, 2, 2, 2, 2, 4, 4, 4, 2, 2] from rfl, fields]
  have none_ := readBytes_append [] rest
  simp only [Option.bind_some, ne_eq, not_true_eq_false, if_false, readBytes_append]
  rw [show readBytes 0 rest = some ([], rest) from none_]
  rfl

theorem readCentral_written {made offset : Nat}
    (fits : ∀ field ∈ [(4, centralSignature), (2, made), (2, needed), (2, 0), (2, 0), (2, time), (2, date),
      (4, crc), (4, size), (4, size), (2, name.length), (2, 0), (2, 0), (2, 0), (2, 0), (4, 0), (4, offset)],
      field.2 < 256 ^ field.1) :
    readCentral (writeFields [(4, centralSignature), (2, made), (2, needed), (2, 0), (2, 0), (2, time),
      (2, date), (4, crc), (4, size), (4, size), (2, name.length), (2, 0), (2, 0), (2, 0), (2, 0), (4, 0),
      (4, offset)] ++ (name ++ rest)) = some (told crc size name, offset, rest) := by
  have fields := readFields_write fits (name ++ rest)
  rw [readCentral]
  simp only [List.map_cons, List.map_nil] at fields
  rw [show centralWidths = [4, 2, 2, 2, 2, 2, 2, 4, 4, 4, 2, 2, 2, 2, 2, 4, 4] from rfl, fields]
  have none_ := readBytes_append [] rest
  simp only [Option.bind_some, ne_eq, not_true_eq_false, if_false, readBytes_append, Nat.add_zero]
  rw [show readBytes 0 rest = some ([], rest) from none_]
  rfl

theorem readZip_written {checksum : Bytes → UInt32} {bodies entries ending : Bytes} {count : Nat}
    {files : List (Bytes × Bytes)}
    (fits : ∀ field ∈ [(4, endSignature), (2, 0), (2, 0), (2, count), (2, count), (4, entries.length),
      (4, bodies.length), (2, 0)], field.2 < 256 ^ field.1)
    (is : ending = writeFields [(4, endSignature), (2, 0), (2, 0), (2, count), (2, count), (4, entries.length),
      (4, bodies.length), (2, 0)])
    (read : readEntries checksum (bodies ++ (entries ++ ending)) count entries = some files) :
    readZip checksum (bodies ++ entries ++ ending) = some files := by
  have size : ending.length = 22 := by
    rw [is]
    simp [writeFields]
  have whole : (bodies ++ entries ++ ending).length = bodies.length + entries.length + 22 := by
    rw [List.length_append, List.length_append, size]
  have last : (bodies ++ entries ++ ending).drop ((bodies ++ entries ++ ending).length - 22) = ending := by
    refine List.drop_left' ?_
    rw [whole, Nat.add_sub_cancel, List.length_append]
  have directory : ((bodies ++ entries ++ ending).drop bodies.length).take entries.length = entries := by
    rw [List.append_assoc, List.drop_left, List.take_left]
  have fields := readFields_write fits []
  rw [List.append_nil, ← is] at fields
  rw [readZip, if_neg (by rw [whole]; omega), last, show endWidths = [4, 2, 2, 2, 2, 4, 4, 2] from rfl]
  simp only [List.map_cons, List.map_nil] at fields
  rw [fields]
  rw [← List.append_assoc] at read
  simp only [Option.bind_some, whole, and_self, if_true, directory, read]

end Written

end Ketchup.Zip
