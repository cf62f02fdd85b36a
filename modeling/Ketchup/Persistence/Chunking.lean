/-
**Chunking loses nothing.**

* `chunks_consecutive`, `chunks_sizes`: the chunks of bytes follow each other from the first byte to the
  last, none empty and none longer than 64 KiB;
* `writeAll_ok`: what is written of one text after another against one table assembles to each of them
  from the table read back, as far as SHA-256 tells the texts and their chunks apart;
* `readChunk_inside`, `readChunks_inside`: an entry of a table is read only if it is one of the two forms,
  within what is stored;
* `assemble_iff`: a chunk list is put together only if all its numbers name chunks that make up the
  length and the sum it states.
-/

import Ketchup.Persistence.HistoryRoundTrip

set_option linter.unusedSectionVars false

namespace Ketchup.Persistence

/-! ### The chunks of bytes -/

theorem boundary_le_maxChunk (bytes : Bytes) : boundary bytes ≤ maxChunk := by
  have most : min bytes.length maxChunk ≤ maxChunk := Nat.min_le_right ..
  unfold boundary
  dsimp only
  split
  · exact most
  · next long =>
    rcases found : findBoundary 0 minChunk _ with _ | place
    · exact most
    · have bounds := findBoundary_bounds found
      rw [List.length_drop, List.length_take] at bounds
      rw [Option.getD_some]
      omega

/-- The chunks go on from one place to another, each from where the one before ends. -/
def Consecutive : Nat → List Chunk → Nat → Prop
  | start, [], stop => start = stop
  | start, chunk :: rest, stop => chunk.start = start ∧ Consecutive (start + chunk.length) rest stop

variable [Sha256Sum]

theorem chunksFrom_consecutive {bytes : Bytes} {most start : Nat}
    (enough : bytes.length ≤ start + most) (within : start ≤ bytes.length) :
    Consecutive start (chunksFrom bytes most start) bytes.length := by
  induction most generalizing start with
  | zero => exact Nat.le_antisymm within enough
  | succ most ih =>
    rw [chunksFrom]
    split
    case isTrue left =>
      have some_left : 0 < (bytes.drop start).length := by rw [List.length_drop]; omega
      obtain ⟨some_taken, within⟩ := boundary_bounds some_left
      rw [List.length_drop] at within
      have less : bytes.length ≤ start + boundary (bytes.drop start) + most := by omega
      have inside : start + boundary (bytes.drop start) ≤ bytes.length := by omega
      exact ⟨rfl, ih less inside⟩
    case isFalse done => exact Nat.le_antisymm within (Nat.not_lt.mp done)

/-- **The chunks follow each other** from the first byte to the last. -/
theorem chunks_consecutive (bytes : Bytes) : Consecutive 0 (chunks bytes) bytes.length :=
  chunksFrom_consecutive (Nat.le_of_eq (Nat.zero_add _).symm) (Nat.zero_le _)

theorem chunksFrom_sizes {bytes : Bytes} {most start : Nat} :
    ∀ chunk ∈ chunksFrom bytes most start, 0 < chunk.length ∧ chunk.length ≤ maxChunk := by
  induction most generalizing start with
  | zero =>
    intro chunk member
    cases member
  | succ most ih =>
    rw [chunksFrom]
    split
    case isTrue left =>
      have some_left : 0 < (bytes.drop start).length := by rw [List.length_drop]; omega
      exact List.forall_mem_cons.mpr ⟨⟨(boundary_bounds some_left).1, boundary_le_maxChunk _⟩, ih⟩
    case isFalse =>
      intro chunk member
      cases member

/-- **No chunk is empty or longer than 64 KiB.** -/
theorem chunks_sizes (bytes : Bytes) :
    ∀ chunk ∈ chunks bytes, 0 < chunk.length ∧ chunk.length ≤ maxChunk :=
  chunksFrom_sizes

/-! ### One text after another through one table -/

/-- The records of texts written in their order against one table. -/
def ChunkTable.writeAll (table : ChunkTable) :
    List Bytes → Except PersistenceError (ChunkTable × List Bytes)
  | [] => .ok (table, [])
  | bytes :: rest => do
    let (written, record) ← table.write bytes (Sha256Sum.sum bytes) (chunks bytes)
    let (final, records) ← written.writeAll rest
    return (final, record :: records)

/-- All that a document and texts written beside it hash. -/
def hashedAll (document : Bytes) (written : List Bytes) : Set Bytes :=
  {text | ∃ whole ∈ document :: written, text ∈ hashedWith whole}

/-- A record names bytes: their length, their sum and chunk numbers that assemble to them. -/
def RecordOf (pieces : List Bytes) (bytes record : Bytes) : Prop :=
  ∃ numbers : List Nat, record = u64Form bytes.length ++ Sha256Sum.sum bytes ++
      (u32Form numbers.length ++ numbers.flatMap u32Form) ∧
    (HistorySnapshot.chunks bytes.length (Sha256Sum.sum bytes) (numbers.flatMap u32Form)).assemble
      pieces = .ok bytes

section Written

variable {document : Bytes} {texts : Set Bytes} {table : ChunkTable} {entries : List (Bytes × Bytes)}

open ChunkTable in
/-- **Each text assembles** from the last table, whatever was written after it. -/
theorem writeAll_ok (distinct : Sha256Sum.Distinguishes texts) {written : List Bytes}
    (sound : Sound document texts table entries) (inside : ∀ bytes ∈ written, hashedWith bytes ⊆ texts)
    {final : ChunkTable} {records : List Bytes} (ok : table.writeAll written = .ok (final, records)) :
    ∃ more, Sound document texts final (entries ++ more) ∧ final.Extends table ∧
      List.Forall₂ (RecordOf ((entries ++ more).map Prod.snd)) written records := by
  induction written generalizing table entries records with
  | nil =>
    cases ok
    exact ⟨[], by rwa [List.append_nil], .refl _, .nil⟩
  | cons bytes rest ih =>
    obtain ⟨⟨next, record⟩, isNext, later⟩ := bind_ok ok
    obtain ⟨⟨last, others⟩, isLast, done⟩ := bind_ok later
    cases done
    obtain ⟨own, others_⟩ := List.forall_mem_cons.mp inside
    obtain ⟨more, nextSound, extendsNext, lists, rfl, _⟩ := write_ok sound own isNext
    obtain ⟨yet, finalSound, extendsFinal, all⟩ := ih nextSound others_ isLast
    rw [List.append_assoc] at finalSound all
    refine ⟨more ++ yet, finalSound, extendsFinal.trans extendsNext, .cons ?_ all⟩
    refine ⟨final.numbersIn bytes, ?_, assemble_listed finalSound distinct own (lists.later extendsFinal)⟩
    rw [← listForm_later lists extendsFinal, listForm]

end Written

/-! ### What is read -/

/-- A reader went on to another, past what it read, without leaving the bytes. -/
structure Reader.Passed (reader after : Reader) (read : Bytes) : Prop where
  bytes : after.bytes = reader.bytes
  cursor : after.cursor = reader.cursor + read.length
  within : after.cursor ≤ reader.bytes.length
  unread : reader.unread = read ++ after.unread

theorem Reader.Passed.refl {reader : Reader} (within : reader.cursor ≤ reader.bytes.length) :
    reader.Passed reader [] :=
  ⟨rfl, rfl, within, rfl⟩

theorem Reader.Passed.trans {reader middle after : Reader} {first second : Bytes}
    (one : reader.Passed middle first) (two : middle.Passed after second) :
    reader.Passed after (first ++ second) where
  bytes := two.bytes.trans one.bytes
  cursor := by rw [two.cursor, one.cursor, List.length_append, Nat.add_assoc]
  within := one.bytes ▸ two.within
  unread := by rw [one.unread, two.unread, List.append_assoc]

theorem take_passed {length : Nat} {reader after : Reader} {taken : Bytes}
    (ok : take length reader = .ok (taken, after)) :
    reader.Passed after taken ∧ taken.length = length := by
  unfold take at ok
  dsimp only at ok
  split at ok
  case isFalse => cases ok
  case isTrue within =>
    cases ok
    have size : ((reader.bytes.drop reader.cursor).take length).length = length := by
      rw [List.length_take, List.length_drop]
      omega
    refine ⟨⟨rfl, congrArg _ size.symm, within, ?_⟩, size⟩
    rw [Reader.unread, Reader.unread, ← List.drop_drop]
    exact (List.take_append_drop length _).symm

theorem u8_passed {reader after : Reader} {value : UInt8} (ok : u8 reader = .ok (value, after)) :
    reader.Passed after (u8Form value) := by
  obtain ⟨⟨taken, next⟩, isTaken, done⟩ := bind_ok ok
  cases done
  obtain ⟨passed, one⟩ := take_passed isTaken
  obtain ⟨byte, rfl⟩ := List.length_eq_one_iff.mp one
  exact passed

theorem u32_passed {reader after : Reader} {value : Nat} (ok : u32 reader = .ok (value, after)) :
    reader.Passed after (u32Form value) ∧ value ≤ u32Max := by
  obtain ⟨⟨taken, next⟩, isTaken, done⟩ := bind_ok ok
  cases done
  obtain ⟨passed, four⟩ := take_passed isTaken
  have form : u32Form (ofLittleEndian taken) = taken := by
    rw [u32Form, ← four, littleEndian_ofLittleEndian]
  have small := ofLittleEndian_lt taken
  rw [four] at small
  exact ⟨form.symm ▸ passed, Nat.le_sub_one_of_lt small⟩

/-- The two forms of an entry of the table, and the chunk each stands for. -/
inductive EntryOf (document : Bytes) : Bytes → Bytes → Prop
  | inline (piece : Bytes) (fits : piece.length ≤ u32Max) :
    EntryOf document (u8Form 0 ++ u32Form piece.length ++ piece) piece
  | inDocument (start length : Nat) (startFits : start ≤ u32Max) (lengthFits : length ≤ u32Max)
    (within : start + length ≤ document.length) :
    EntryOf document (u8Form 1 ++ u32Form start ++ u32Form length) (slice document start length)

theorem reads_entry {document entry piece : Bytes} (is : EntryOf document entry piece) :
    Reads (readChunk document) entry 0 0 piece := by
  cases is with
  | inline _ fits => exact ChunkTable.reads_inlineChunk fits
  | inDocument start length startFits lengthFits within =>
    exact ChunkTable.reads_documentChunk startFits lengthFits within

/-- **A chunk is read only from one of the two forms**, within the bytes there are. -/
theorem readChunk_inside {document piece : Bytes} {reader after : Reader}
    (ok : readChunk document reader = .ok (piece, after)) :
    ∃ entry, EntryOf document entry piece ∧ reader.Passed after entry := by
  obtain ⟨⟨kind, next⟩, isKind, later⟩ := bind_ok ok
  have kindPassed := u8_passed isKind
  dsimp only at later
  split at later
  · obtain ⟨⟨length, second⟩, isLength, taken⟩ := bind_ok later
    obtain ⟨lengthPassed, fits⟩ := u32_passed isLength
    obtain ⟨passed, rfl⟩ := take_passed taken
    exact ⟨_, .inline piece fits, (kindPassed.trans lengthPassed).trans passed⟩
  · obtain ⟨⟨start, second⟩, isStart, later⟩ := bind_ok later
    obtain ⟨⟨length, third⟩, isLength, later⟩ := bind_ok later
    obtain ⟨startPassed, startFits⟩ := u32_passed isStart
    obtain ⟨lengthPassed, lengthFits⟩ := u32_passed isLength
    obtain ⟨⟨⟨⟩, fourth⟩, isWithin, done⟩ := bind_ok later
    unfold ensure at isWithin
    by_cases within : start + length ≤ document.length
    · rw [if_pos within] at isWithin
      cases isWithin
      cases done
      exact ⟨_, .inDocument start length startFits lengthFits within,
        (kindPassed.trans startPassed).trans lengthPassed⟩
    · rw [if_neg within] at isWithin
      cases isWithin
  · cases later

theorem parseEach_inside {document : Bytes} {count : Nat} {reader after : Reader} {pieces : List Bytes}
    (within : reader.cursor ≤ reader.bytes.length)
    (ok : parseEach (readChunk document) count reader = .ok (pieces, after)) :
    ∃ entries, List.Forall₂ (EntryOf document) entries pieces ∧ reader.Passed after entries.flatten ∧
      pieces.length = count := by
  induction count generalizing reader pieces with
  | zero =>
    cases ok
    exact ⟨[], .nil, .refl within, rfl⟩
  | succ count ih =>
    obtain ⟨⟨piece, next⟩, isPiece, later⟩ := bind_ok ok
    obtain ⟨⟨others, last⟩, isOthers, done⟩ := bind_ok later
    cases done
    obtain ⟨entry, isEntry, passed⟩ := readChunk_inside isPiece
    obtain ⟨entries, areEntries, allPassed, rfl⟩ := ih (passed.bytes ▸ passed.within) isOthers
    exact ⟨entry :: entries, .cons isEntry areEntries, passed.trans allPassed, rfl⟩

/-- **A table is read only if each of its entries is one of the two forms**: of so many as it states, at
most the limit, and all within the bytes there are. -/
theorem readChunks_inside {schema : Nat} {document : Bytes} {reader after : Reader} {pieces : List Bytes}
    (chunked : 4 ≤ schema) (ok : readChunks schema document reader = .ok (pieces, after)) :
    ∃ entries, List.Forall₂ (EntryOf document) entries pieces ∧
      reader.Passed after (u32Form pieces.length ++ entries.flatten) ∧
      pieces.length ≤ maxCollectionItems := by
  unfold readChunks at ok
  rw [if_neg (Nat.not_lt.mpr chunked)] at ok
  obtain ⟨⟨count, counted⟩, isCounted, later⟩ := bind_ok ok
  obtain ⟨⟨value, next⟩, isValue, limited⟩ := bind_ok isCounted
  obtain ⟨⟨⟨⟩, second⟩, isCount, done⟩ := bind_ok limited
  cases done
  unfold countItems at isCount
  dsimp only at isCount
  split at isCount
  · cases isCount
  · next room =>
    cases isCount
    obtain ⟨passed, _⟩ := u32_passed isValue
    obtain ⟨entries, are, allPassed, rfl⟩ := parseEach_inside (passed.bytes ▸ passed.within) later
    refine ⟨entries, are, ?_, by omega⟩
    exact passed.trans ⟨allPassed.bytes, allPassed.cursor, allPassed.within, allPassed.unread⟩

/-! ### What is put together -/

/-- Chunks that a list of numbers names, one after another. -/
def Named (pieces : List Bytes) (numbers : List Nat) (found : List Bytes) : Prop :=
  List.Forall₂ (fun number part => pieces[number]? = some part) numbers found

theorem parts_iff {pieces found : List Bytes} {length total sum : Nat} {numbers : List Nat}
    (room : total ≤ length) :
    HistorySnapshot.parts pieces length total numbers = .ok (sum, found) ↔
      Named pieces numbers found ∧ sum = total + found.flatten.length ∧ sum ≤ length := by
  induction numbers generalizing total found sum with
  | nil =>
    constructor
    · intro ok
      cases ok
      exact ⟨.nil, rfl, room⟩
    · rintro ⟨named, rfl, _⟩
      cases named
      rfl
  | cons number rest ih =>
    rw [HistorySnapshot.parts]
    constructor
    · intro ok
      rcases place : pieces[number]? with _ | part
      · rw [place] at ok
        cases ok
      · rw [place] at ok
        dsimp only at ok
        split at ok
        · cases ok
        · next fits =>
          obtain ⟨⟨last, others⟩, isRest, done⟩ := bind_ok ok
          cases done
          obtain ⟨named, rfl, most⟩ := (ih (Nat.not_lt.mp fits)).mp isRest
          refine ⟨.cons place named, ?_, most⟩
          rw [List.flatten_cons, List.length_append, Nat.add_assoc]
    · rintro ⟨named, rfl, most⟩
      cases named with
      | cons place others =>
        rename_i part later
        rw [List.flatten_cons, List.length_append] at most
        have fits : total + part.length ≤ length := by omega
        have isRest : HistorySnapshot.parts pieces length (total + part.length) rest =
            .ok (total + part.length + later.flatten.length, later) :=
          (ih fits).mpr ⟨others, rfl, by omega⟩
        rw [place]
        dsimp only
        rw [if_neg (Nat.not_lt.mpr fits), isRest]
        show Except.ok _ = Except.ok _
        rw [List.flatten_cons, List.length_append, Nat.add_assoc]

/-- **A chunk list is put together only if each number names a chunk** and all of them have the length
and the sum that it states. -/
theorem assemble_iff {pieces : List Bytes} {length : Nat} {checksum numbers bytes : Bytes} :
    (HistorySnapshot.chunks length checksum numbers).assemble pieces = .ok bytes ↔
      ∃ found, Named pieces (numbersOf numbers) found ∧ bytes = found.flatten ∧
        bytes.length = length ∧ Sha256Sum.sum bytes = checksum := by
  rw [HistorySnapshot.assemble]
  constructor
  · intro ok
    obtain ⟨⟨total, found⟩, isFound, later⟩ := bind_ok ok
    obtain ⟨named, rfl, _⟩ := (parts_iff (Nat.zero_le _)).mp isFound
    dsimp only at later
    split at later
    · cases later
    · next same =>
      unfold HistorySnapshot.checked at later
      split at later
      · next summed =>
        cases later
        exact ⟨found, named, rfl, by simpa using same, summed⟩
      · cases later
  · rintro ⟨found, named, rfl, rfl, rfl⟩
    have isFound : HistorySnapshot.parts pieces found.flatten.length 0 (numbersOf numbers) =
        .ok (found.flatten.length, found) :=
      (parts_iff (Nat.zero_le _)).mpr ⟨named, (Nat.zero_add _).symm, Nat.le_refl _⟩
    rw [isFound]
    show (if found.flatten.length ≠ found.flatten.length then _ else _) = _
    rw [if_neg (not_not_intro rfl)]
    exact if_pos rfl

/-! ### All of it -/

/-- A table starts with the chunks of `document.bin`. -/
def documentTable (document : Bytes) : Except PersistenceError ChunkTable :=
  (chunks document).foldlM ChunkTable.addDocumentChunk .empty

/-- **Chunking loses nothing.** The chunks of bytes go from the first byte to the last and are the bytes;
every text written through a table assembles from the table read back; and a table or a chunk list that
is not well formed is refused, whatever else the reader holds. -/
theorem chunking_loses_nothing :
    (∀ bytes, Consecutive 0 (chunks bytes) bytes.length ∧
      (∀ chunk ∈ chunks bytes, 0 < chunk.length ∧ chunk.length ≤ maxChunk) ∧
      (chunks bytes).flatMap (Chunk.content bytes) = bytes) ∧
    (∀ (document : Bytes) (written : List Bytes) (start final : ChunkTable) (records : List Bytes),
      documentTable document = .ok start → start.writeAll written = .ok (final, records) →
      Sha256Sum.Distinguishes (hashedAll document written) → final.numbers.size ≤ maxCollectionItems →
      ∃ pieces, Reads (readChunks historySchema document)
          (u32Form final.numbers.size ++ final.bytes) final.numbers.size 0 pieces ∧
        List.Forall₂ (RecordOf pieces) written records) ∧
    (∀ (schema : Nat) (document : Bytes) (reader after : Reader) (pieces : List Bytes),
      4 ≤ schema → readChunks schema document reader = .ok (pieces, after) →
      ∃ entries, List.Forall₂ (EntryOf document) entries pieces ∧
        reader.Passed after (u32Form pieces.length ++ entries.flatten) ∧
        pieces.length ≤ maxCollectionItems) ∧
    (∀ (pieces : List Bytes) (length : Nat) (checksum numbers bytes : Bytes),
      (HistorySnapshot.chunks length checksum numbers).assemble pieces = .ok bytes ↔
        ∃ found, Named pieces (numbersOf numbers) found ∧ bytes = found.flatten ∧
          bytes.length = length ∧ Sha256Sum.sum bytes = checksum) := by
  refine ⟨fun bytes => ⟨chunks_consecutive bytes, chunks_sizes bytes, chunks_cover bytes⟩, ?_,
    fun schema document reader after pieces => readChunks_inside,
    fun pieces length checksum numbers bytes => assemble_iff⟩
  intro document written start final records isStart isFinal distinct few
  have inside (whole : Bytes) (member : whole ∈ document :: written) :
      hashedWith whole ⊆ hashedAll document written := fun text hashed => ⟨whole, member, hashed⟩
  obtain ⟨entries, startSound⟩ := documentChunks_ok ChunkTable.sound_empty
    (fun chunk member => ⟨member, inside document (List.mem_cons_self ..) (Or.inr ⟨chunk, member, rfl⟩)⟩)
    isStart
  obtain ⟨more, finalSound, _, all⟩ := writeAll_ok distinct startSound
    (fun bytes member => inside bytes (List.mem_cons_of_mem _ member)) isFinal
  exact ⟨_, reads_chunks finalSound few, all⟩

end Ketchup.Persistence
