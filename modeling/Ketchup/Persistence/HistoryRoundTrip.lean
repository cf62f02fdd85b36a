/-
**A history that was written is read.**

`Readable` is what the reader asks of the revisions that the writer does not check: ids that grow
below the next one, batch digests, origins and checkpoint names it accepts. Under it, and where
SHA-256 tells the texts at hand apart, reading what `encodeHistory` wrote gives every revision back
(`readHistoryRecords_encodeHistory`).

The writer and the reader go through the revisions together: `Tracks` relates how far the two are, and
`revisions_read` keeps it from one revision to the next. Chunk numbers are those of the table at the
end, in which no number has changed since it was given.
-/

import Ketchup.Persistence.ChunkTable

set_option linter.unusedSectionVars false

namespace Ketchup.Persistence

open Ketchup.Document
open HistoryRevision

/-! ### What the reader asks -/

def principalFits : ProposalPrincipal → Prop
  | .human id | .plugin id => id ≤ u64Max
  | .manualClient | .localAssistant => True

def originFits : RevisionOrigin → Prop
  | .initial => True
  | .principal principal => principalFits principal
  | .rollback principal targetRevision => principalFits principal ∧ targetRevision ≤ u64Max

/-- What the reader asks of one revision. -/
structure ReadableFields (index : Nat) (fields : RevisionFields) : Prop where
  id_fits : fields.id ≤ u64Max
  digest : validBatchDigest fields.batchDigest = true
  origin_fits : originFits fields.origin
  origin : acceptsOrigin index fields.id fields.origin = true
  checkpoint : ∀ name, fields.checkpoint = some name → DocumentStore.validCheckpointName name = true

/-- What the reader asks of the revisions from `start` on. -/
structure ReadableFrom (start : Nat) (revisions : List RevisionFields) : Prop where
  each : ∀ index fields, revisions[index]? = some fields → ReadableFields (start + index) fields
  increasing : (revisions.map RevisionFields.id).Pairwise (· < ·)
  names : (revisions.filterMap RevisionFields.checkpoint).Nodup

/-- **What the reader asks of a history.** -/
structure Readable (revisions : List RevisionFields) (nextRevisionId : Nat) : Prop where
  from_first : ReadableFrom 0 revisions
  below : ∀ fields ∈ revisions, fields.id < nextRevisionId
  next_fits : nextRevisionId ≤ u64Max

theorem ReadableFrom.head {start : Nat} {fields : RevisionFields} {rest : List RevisionFields}
    (readable : ReadableFrom start (fields :: rest)) : ReadableFields start fields :=
  readable.each 0 fields rfl

theorem ReadableFrom.tail {start : Nat} {fields : RevisionFields} {rest : List RevisionFields}
    (readable : ReadableFrom start (fields :: rest)) : ReadableFrom (start + 1) rest where
  each index other place := by
    have here := readable.each (index + 1) other place
    rwa [show start + (index + 1) = start + 1 + index by omega] at here
  increasing := (List.pairwise_cons.mp readable.increasing).2
  names := by
    have names := readable.names
    rw [List.filterMap_cons] at names
    split at names
    · exact names
    · exact (List.nodup_cons.mp names).2

theorem validBatchDigest_size {digest : String} (valid : validBatchDigest digest = true) :
    digest.utf8ByteSize ≤ 16 := by
  unfold validBatchDigest at valid
  rw [Bool.or_eq_true, Bool.and_eq_true] at valid
  rcases valid with empty | ⟨size, _⟩
  · rw [String.isEmpty_iff.mp empty]
    exact Nat.zero_le _
  · rw [beq_iff_eq.mp size]

theorem validCheckpointName_size {name : String}
    (valid : DocumentStore.validCheckpointName name = true) : name.utf8ByteSize ≤ 80 := by
  unfold DocumentStore.validCheckpointName at valid
  simp only [Bool.and_eq_true, decide_eq_true_eq] at valid
  exact valid.1.1.2

/-! ### Fields -/

theorem reads_principal {principal : ProposalPrincipal} (fits : principalFits principal) :
    Reads readRevisionPrincipal (principalForm principal) 0 0 principal := by
  unfold readRevisionPrincipal
  cases principal with
  | manualClient => exact (reads_u8 0).map rfl
  | human id => exact (reads_u8 1).bind ((reads_u64 fits).map rfl)
  | localAssistant => exact (reads_u8 2).map rfl
  | plugin id => exact (reads_u8 3).bind ((reads_u64 fits).map rfl)

theorem reads_origin {origin : RevisionOrigin} (fits : originFits origin) :
    Reads readRevisionOrigin (originForm origin) 0 0 origin := by
  unfold readRevisionOrigin
  cases origin with
  | initial => exact (reads_u8 0).map rfl
  | principal principal => exact (reads_u8 1).bind ((reads_principal fits).map rfl)
  | rollback principal targetRevision =>
    exact (reads_u8 2).bind ((reads_principal fits.1).append ((reads_u64 fits.2).map rfl))
      (List.append_assoc _ _ _)

/-- The bytes of a name that may be there. -/
def nameSize (checkpoint : Option String) : Nat := checkpoint.elim 0 String.utf8ByteSize

theorem nameSize_le {checkpoint : Option String} (valid : ∀ name, checkpoint = some name →
    DocumentStore.validCheckpointName name = true) : nameSize checkpoint ≤ 80 := by
  cases checkpoint with
  | none => exact Nat.zero_le _
  | some name => exact validCheckpointName_size (valid name rfl)

theorem pushString_ok {value : String} {bytes : Bytes} (ok : pushString value = .ok bytes) :
    bytes = u32Form value.utf8ByteSize ++ utf8 value ∧ value.utf8ByteSize ≤ u32Max := by
  obtain ⟨count, counted, ok⟩ := bind_ok ok
  obtain ⟨rfl, fits⟩ := u32Count_ok counted
  cases ok
  exact ⟨rfl, fits⟩

theorem reads_checkpoint {checkpoint : Option String} {bytes : Bytes}
    (ok : checkpointForm checkpoint = .ok bytes) :
    Reads readCheckpoint bytes (nameSize checkpoint) (nameSize checkpoint) checkpoint := by
  unfold readCheckpoint
  cases checkpoint with
  | none =>
    cases ok
    exact (reads_u8 0).map rfl
  | some name =>
    obtain ⟨form, pushed, ok⟩ := bind_ok ok
    obtain ⟨rfl, fits⟩ := pushString_ok pushed
    cases ok
    exact (reads_u8 1).bind ((reads_string fits).map rfl) rfl (Nat.zero_add _).symm
      (Nat.zero_add _).symm

/-! ### Programs and snapshots -/

variable [Sha256Sum]

/-- A program as the records name it against a table. -/
def programIn (table : ChunkTable) (json : Bytes) : HistoryProgram :=
  .chunks json.length (Sha256Sum.sum json) ((table.numbersIn json).flatMap u32Form)

def snapshotIn (table : ChunkTable) (bytes : Bytes) : HistorySnapshot :=
  .chunks bytes.length (Sha256Sum.sum bytes) ((table.numbersIn bytes).flatMap u32Form)

theorem numbersIn_length (table : ChunkTable) (bytes : Bytes) :
    (table.numbersIn bytes).length = (chunks bytes).length := List.length_map _

theorem reads_numbersIn (table : ChunkTable) {bytes : Bytes}
    (few : (chunks bytes).length ≤ maxCollectionItems) :
    Reads chunkNumbers
      (u32Form (table.numbersIn bytes).length ++ (table.numbersIn bytes).flatMap u32Form)
      (chunks bytes).length 0 ((table.numbersIn bytes).flatMap u32Form) := by
  rw [← numbersIn_length table] at few ⊢
  exact reads_chunkNumbers few

theorem reads_chunkList {table : ChunkTable} {bytes : Bytes} {maxLength : Nat}
    (fits : bytes.length ≤ u64Max) (within : bytes.length ≤ maxLength)
    (few : (chunks bytes).length ≤ maxCollectionItems) :
    Reads (readChunkList maxLength) (table.listForm bytes) (chunks bytes).length 0
      (bytes.length, Sha256Sum.sum bytes, (table.numbersIn bytes).flatMap u32Form) := by
  unfold readChunkList ChunkTable.listForm
  have numbers := reads_numbersIn table few
  exact (reads_u64 fits).bind ((reads_ensure within).after
    ((reads_take_of_length (Sha256Sum.sum_length bytes)).append (numbers.map rfl)))

theorem reads_programChunks {table : ChunkTable} {json : Bytes} {previous : Option HistoryProgram}
    (within : json.length ≤ maxRuleProgramBytes) (few : (chunks json).length ≤ maxCollectionItems) :
    Reads (readProgram historySchema previous) (u8Form 3 ++ table.listForm json)
      (chunks json).length 0 (some (programIn table json)) := by
  have list : Reads (readChunkList maxRuleProgramBytes) (table.listForm json) (chunks json).length 0
      (json.length, Sha256Sum.sum json, (table.numbersIn json).flatMap u32Form) :=
    reads_chunkList (within.trans (by decide)) within few
  exact (reads_u8 3).bind ((reads_ensure (by decide)).after (list.map rfl))

theorem reads_programAsPrevious {previous : Option HistoryProgram} (held : previous.isSome) :
    Reads (readProgram historySchema previous) (u8Form 2) 0 0 previous := by
  have passes : 4 ≤ historySchema ∧ previous.isSome = true := ⟨by decide, held⟩
  refine (reads_u8 2).map ?_
  show ensure (4 ≤ historySchema ∧ previous.isSome = true) _ >>= _ = _
  rw [ensure, if_pos passes]
  rfl

theorem reads_noProgram (previous : Option HistoryProgram) :
    Reads (readProgram historySchema previous) (u8Form 0) 0 0 none :=
  (reads_u8 0).map rfl

theorem reads_snapshotChunks {table : ChunkTable} {bytes : Bytes} {document : Option Bytes}
    (fits : bytes.length ≤ u64Max) (few : (chunks bytes).length ≤ maxCollectionItems) :
    Reads (readHistorySnapshot historySchema document) (u8Form 1 ++ table.listForm bytes)
      (chunks bytes).length 0 (snapshotIn table bytes) := by
  have numbers := reads_numbersIn table few
  exact (reads_u8 1).bind ((reads_u64 fits).append
    ((reads_take_of_length (Sha256Sum.sum_length bytes)).append (numbers.map rfl)))
    (by simp only [ChunkTable.listForm, List.append_assoc])

theorem reads_currentSnapshot (document : Bytes) :
    Reads (readHistorySnapshot historySchema (some document)) (u8Form 0) 0 0 (.document document) :=
  (reads_u8 0).map rfl

/-! ### Writer and reader together -/

/-- How far the writer and the reader are, with the chunk numbers of a table. -/
structure Tracks (budget : HistoryBudget) (final : ChunkTable) (texts : Set Bytes)
    (writer : HistoryWriter) (scan : HistoryScan) : Prop where
  assembled : scan.assembled = writer.assembled
  within : writer.assembled ≤ budget.snapshots
  programBytes : scan.programBytes = writer.programBytes
  read_written : ∀ program ∈ scan.programs, ∃ json, hashedWith json ⊆ texts ∧
    program = programIn final json ∧ Sha256Sum.sum json ∈ writer.programs
  written_read : ∀ digest ∈ writer.programs, ∃ json, hashedWith json ⊆ texts ∧
    Sha256Sum.sum json = digest ∧ programIn final json ∈ scan.programs

theorem mem_texts {texts : Set Bytes} {whole : Bytes} (inside : hashedWith whole ⊆ texts) :
    whole ∈ texts := inside (Or.inl rfl)

theorem checkAssembled_ok {entry : String} {assembled bytes budget total : Nat}
    (ok : checkAssembled entry assembled bytes budget = .ok total) :
    total = assembled + bytes ∧ assembled + bytes ≤ budget := by
  unfold checkAssembled at ok
  dsimp only at ok
  split at ok
  · cases ok
  · next within =>
    cases ok
    exact ⟨rfl, Nat.le_of_not_lt within⟩

theorem addItems_ok {items more budget total : Nat} (ok : addItems items more budget = .ok total) :
    total = items + more ∧ items + more ≤ budget := by
  unfold addItems at ok
  dsimp only at ok
  split at ok
  · cases ok
  · next within =>
    cases ok
    exact ⟨rfl, Nat.le_of_not_lt within⟩

/-- The reader counts a program exactly where the writer did. -/
theorem countProgram_tracks {final : ChunkTable} {texts : Set Bytes} {writer : HistoryWriter}
    {scan : HistoryScan} {budget : HistoryBudget} {json : Bytes} {programBytes : Nat}
    (distinct : Sha256Sum.Distinguishes texts) (inside : hashedWith json ⊆ texts)
    (tracks : Tracks budget final texts writer scan)
    (ok : writer.countProgram budget (Sha256Sum.sum json) json.length = .ok programBytes) :
    ∃ counted, scan.countProgram budget true (some (programIn final json)) = .ok counted ∧
      Tracks budget final texts { writer with
        programs := writer.programs.insert (Sha256Sum.sum json), programBytes } counted ∧
      counted = { scan with programs := counted.programs, programBytes := counted.programBytes } ∧
      programIn final json ∈ counted.programs := by
  unfold HistoryWriter.countProgram at ok
  by_cases held : Sha256Sum.sum json ∈ writer.programs
  · obtain ⟨other, otherInside, same, read⟩ := tracks.written_read _ held
    have equal : other = json := distinct (mem_texts otherInside) (mem_texts inside) same
    rw [equal] at read
    rw [if_pos (Std.ExtTreeSet.contains_iff_mem.mpr held)] at ok
    cases ok
    refine ⟨scan, if_neg (fun new => new.2 read),
      ⟨tracks.assembled, tracks.within, tracks.programBytes, ?_, ?_⟩, rfl, read⟩
    · intro program member
      obtain ⟨json, inside, is, written⟩ := tracks.read_written program member
      exact ⟨json, inside, is, BTreeSet.mem_insert.mpr (Or.inr written)⟩
    · intro digest member
      rcases BTreeSet.mem_insert.mp member with rfl | old
      · exact ⟨json, inside, rfl, read⟩
      · exact tracks.written_read digest old
  · have new : programIn final json ∉ scan.programs := by
      intro member
      obtain ⟨other, _, is, written⟩ := tracks.read_written _ member
      injection is with _ same _
      rw [same] at held
      exact held written
    rw [if_neg (mt Std.ExtTreeSet.contains_iff_mem.mp held)] at ok
    obtain ⟨rfl, within⟩ := checkAssembled_ok ok
    refine ⟨{ scan with
        programs := programIn final json :: scan.programs
        programBytes := scan.programBytes + json.length }, ?_,
      ⟨tracks.assembled, tracks.within, congrArg (· + json.length) tracks.programBytes, ?_, ?_⟩,
      rfl, List.mem_cons_self ..⟩
    · show (if true = true ∧ programIn final json ∉ scan.programs then _ else _) = _
      rw [if_pos ⟨rfl, new⟩, checkAssembled, tracks.programBytes, if_neg (by omega)]
      rfl
    · intro program member
      rcases List.mem_cons.mp member with rfl | old
      · exact ⟨json, inside, rfl, BTreeSet.mem_insert.mpr (Or.inl rfl)⟩
      · obtain ⟨json, inside, is, written⟩ := tracks.read_written program old
        exact ⟨json, inside, is, BTreeSet.mem_insert.mpr (Or.inr written)⟩
    · intro digest member
      rcases BTreeSet.mem_insert.mp member with rfl | old
      · exact ⟨json, inside, rfl, List.mem_cons_self ..⟩
      · obtain ⟨json, inside, is, read⟩ := tracks.written_read digest old
        exact ⟨json, inside, is, List.mem_cons_of_mem _ read⟩

theorem countProgram_held {final : ChunkTable} {scan : HistoryScan} {budget : HistoryBudget}
    {held : Option Bytes}
    (read : ∀ json, held = some json → programIn final json ∈ scan.programs) :
    scan.countProgram budget true (held.map (programIn final)) = .ok scan := by
  cases held with
  | none => rfl
  | some json => exact if_neg fun new => new.2 (read json rfl)

theorem Tracks.of_records {budget : HistoryBudget} {final : ChunkTable} {texts : Set Bytes}
    {writer after : HistoryWriter} {scan counted : HistoryScan}
    (tracks : Tracks budget final texts writer scan)
    (assembled : counted.assembled = after.assembled)
    (within : after.assembled ≤ budget.snapshots) (programs : after.programs = writer.programs) (programBytes : after.programBytes =
      writer.programBytes) (same : counted.programs = scan.programs)
    (sameBytes : counted.programBytes = scan.programBytes) : Tracks budget final texts after counted where
  assembled := assembled
  within := within
  programBytes := by rw [sameBytes, programBytes, tracks.programBytes]
  read_written := by rw [same, programs]; exact tracks.read_written
  written_read := by rw [same, programs]; exact tracks.written_read

section Revisions

variable {R : Type} [HistoryRevision R] {document : Bytes} {texts : Set Bytes}
  {budget : HistoryBudget} {writer after : HistoryWriter} {entries : List (Bytes × Bytes)}

/-- What a history hashes of a revision is among the texts, and its program is one a reader takes. -/
structure Written (texts : Set Bytes) (revision : R) : Prop where
  sha256 : (encoded revision).sha256 = Sha256Sum.sum (encoded revision).bytes
  snapshot : hashedWith (encoded revision).bytes ⊆ texts
  program : ∀ json, programJson revision = .ok (some json) →
    json.length ≤ maxRuleProgramBytes ∧ hashedWith json ⊆ texts

/-- A program that is among the texts, with its chunks in a table. -/
def ListedProgram (texts : Set Bytes) (table : ChunkTable) (held : Option Bytes) : Prop :=
  ∀ json, held = some json → hashedWith json ⊆ texts ∧ table.Lists json

theorem listForm_later {table later : ChunkTable} {bytes : Bytes} (lists : table.Lists bytes)
    (extends_ : later.Extends table) : later.listForm bytes = table.listForm bytes := by
  unfold ChunkTable.listForm
  rw [ChunkTable.numbersIn_later lists extends_]

/-- The program that stands with a revision: that of the one before where it is the same. -/
def heldProgram (asPrevious : Bool) (held : Option Bytes) (revision : R) :
    Except PersistenceError (Option Bytes) :=
  if asPrevious then .ok held else programJson revision

/-- **The program of a revision** is read as it was written. -/
theorem program_ok {asPrevious : Bool} {held : Option Bytes} {revision : R}
    (few : budget.items ≤ maxCollectionItems) (distinct : Sha256Sum.Distinguishes texts)
    (sound : ChunkTable.Sound document texts writer.table entries)
    (written : Written texts revision) (listed : ListedProgram texts writer.table held)
    (isSome : asPrevious = true → held.isSome = true)
    (ok : writer.program budget asPrevious revision = .ok after) :
    ∃ now form, heldProgram asPrevious held revision = .ok now ∧
      (∃ more, ChunkTable.Sound document texts after.table (entries ++ more)) ∧
      after.table.Extends writer.table ∧ ListedProgram texts after.table now ∧
      after.records = writer.records ++ form ∧ after.assembled = writer.assembled ∧
      ∃ count, after.items = writer.items + count ∧
      ∀ final : ChunkTable, final.Extends after.table → ∀ scan, Tracks budget final texts writer scan →
        (∀ json, held = some json → programIn final json ∈ scan.programs) →
        Reads (readProgram historySchema (held.map (programIn final))) form count 0
          (now.map (programIn final)) ∧
        ∃ counted, scan.countProgram budget true (now.map (programIn final)) = .ok counted ∧
          Tracks budget final texts after counted ∧
          counted = { scan with
            programs := counted.programs, programBytes := counted.programBytes } ∧
          ∀ json, now = some json → programIn final json ∈ counted.programs := by
  unfold HistoryWriter.program at ok
  unfold heldProgram
  split at ok
  case isTrue same =>
    cases ok
    rw [if_pos same]
    refine ⟨held, u8Form 2, rfl, ⟨[], by rwa [List.append_nil]⟩, .refl _, listed, rfl, rfl, 0, rfl,
      fun final extends_ scan tracks read => ⟨?_, scan, countProgram_held read,
        tracks.of_records tracks.assembled tracks.within rfl rfl rfl rfl, rfl, read⟩⟩
    exact reads_programAsPrevious (by rw [Option.isSome_map]; exact isSome same)
  case isFalse different =>
    rw [if_neg different]
    obtain ⟨json, isJson, ok⟩ := bind_ok ok
    rcases json with _ | json
    · cases ok
      refine ⟨none, u8Form 0, isJson, ⟨[], by rwa [List.append_nil]⟩, .refl _, nofun, rfl, rfl, 0,
        rfl, fun final extends_ scan tracks read => ⟨reads_noProgram _, scan, rfl,
          tracks.of_records tracks.assembled tracks.within rfl rfl rfl rfl, rfl, nofun⟩⟩
    · obtain ⟨programBytes, counted, ok⟩ := bind_ok ok
      obtain ⟨items, isItems, ok⟩ := bind_ok ok
      obtain ⟨rfl, within⟩ := addItems_ok isItems
      obtain ⟨⟨table, list⟩, isList, ok⟩ := bind_ok ok
      cases ok
      obtain ⟨small, inside⟩ := written.program json isJson
      obtain ⟨more, later, extends_, lists, rfl, _⟩ := ChunkTable.write_ok sound inside isList
      refine ⟨some json, u8Form 3 ++ table.listForm json, isJson, ⟨more, later⟩, extends_, ?_,
        List.append_assoc _ _ _, rfl, (chunks json).length, rfl,
        fun final extendsFinal scan tracks read => ⟨?_, ?_⟩⟩
      · rintro _ ⟨⟩
        exact ⟨inside, lists⟩
      · rw [← listForm_later lists extendsFinal]
        exact reads_programChunks small (by omega)
      · obtain ⟨scanned, isScanned, tracked, kept, member⟩ :=
          countProgram_tracks distinct inside tracks counted
        refine ⟨scanned, isScanned, tracked.of_records tracked.assembled tracked.within rfl rfl rfl rfl, kept, ?_⟩
        rintro _ ⟨⟩
        exact member

/-- A snapshot as the records name it: the current one is the document. -/
def snapshotOf (final : ChunkTable) (document : Bytes) (isCurrent : Bool) (revision : R) :
    HistorySnapshot :=
  if isCurrent then .document document else snapshotIn final (encoded revision).bytes

/-- **The snapshot of a revision** is read as it was written. -/
theorem snapshot_ok {isCurrent : Bool} {revision : R} (few : budget.items ≤ maxCollectionItems)
    (sound : ChunkTable.Sound document texts writer.table entries)
    (written : Written texts revision)
    (ok : writer.snapshot budget isCurrent revision = .ok after) :
    ∃ form, (∃ more, ChunkTable.Sound document texts after.table (entries ++ more)) ∧
      after.table.Extends writer.table ∧
      (isCurrent = false → after.table.Lists (encoded revision).bytes) ∧
      after.records = writer.records ++ form ∧
      ∃ count, after.items = writer.items + count ∧
      ∀ final : ChunkTable, final.Extends after.table →
        Reads (readHistorySnapshot historySchema (if isCurrent then some document else none)) form
          count 0 (snapshotOf final document isCurrent revision) ∧
        ∀ scan, Tracks budget final texts writer scan → ∀ record : HistoryRecord,
          record.encodedSnapshot = snapshotOf final document isCurrent revision →
          ∃ kept, scan.keepRecord budget true record = .ok kept ∧
            Tracks budget final texts after kept ∧
            kept = { scan with records := scan.records ++ [record], assembled := kept.assembled } := by
  unfold HistoryWriter.snapshot at ok
  unfold snapshotOf
  rcases isCurrent with _ | _
  · obtain ⟨assembled, isAssembled, ok⟩ := bind_ok ok
    obtain ⟨rfl, inBudget⟩ := checkAssembled_ok isAssembled
    obtain ⟨items, isItems, ok⟩ := bind_ok ok
    obtain ⟨rfl, within⟩ := addItems_ok isItems
    obtain ⟨⟨table, list⟩, isList, ok⟩ := bind_ok ok
    obtain ⟨_, _, ok⟩ := bind_ok ok
    cases ok
    rw [written.sha256] at isList
    obtain ⟨more, later, extends_, lists, rfl, fits⟩ :=
      ChunkTable.write_ok sound written.snapshot isList
    refine ⟨u8Form 1 ++ table.listForm (encoded revision).bytes, ⟨more, later⟩, extends_,
      fun _ => lists, List.append_assoc _ _ _, (chunks (encoded revision).bytes).length, rfl,
      fun final extendsFinal => ⟨?_, fun scan tracks record is => ?_⟩⟩
    · rw [← listForm_later lists extendsFinal]
      exact reads_snapshotChunks fits (by omega)
    · have length : record.encodedSnapshot.assembledLen = (encoded revision).bytes.length := by
        rw [is]
        rfl
      refine ⟨{ scan with
          records := scan.records ++ [record]
          assembled := scan.assembled + (encoded revision).bytes.length }, ?_,
        tracks.of_records (congrArg (· + _) tracks.assembled) inBudget rfl rfl rfl rfl, rfl⟩
      show (checkAssembled _ _ _ _).bind _ = _
      rw [length, checkAssembled, tracks.assembled, if_neg (by omega)]
      rfl
  · cases ok
    refine ⟨u8Form 0, ⟨[], by rwa [List.append_nil]⟩, .refl _, nofun, rfl, 0, rfl,
      fun final _ => ⟨reads_currentSnapshot document, fun scan tracks record is => ?_⟩⟩
    have length : record.encodedSnapshot.assembledLen = 0 := by
      rw [is]
      rfl
    refine ⟨{ scan with records := scan.records ++ [record] }, ?_,
      tracks.of_records tracks.assembled tracks.within rfl rfl rfl rfl, rfl⟩
    have room := tracks.within
    show (checkAssembled _ _ _ _).bind _ = _
    rw [length, checkAssembled, tracks.assembled, if_neg (by omega)]
    show Except.ok _ = Except.ok _
    rw [Nat.add_zero, ← tracks.assembled]

/-- The header of a revision, with its checkpoint as `name`. -/
def headerForm (of : RevisionFields) (name : Bytes) : Bytes :=
  u64Form of.id ++ (u32Form of.batchDigest.utf8ByteSize ++ utf8 of.batchDigest) ++
    originForm of.origin ++ name

theorem header_ok {revision : R} (ok : writer.header budget revision = .ok after) :
    ∃ name, checkpointForm (fields revision).checkpoint = .ok name ∧
      (fields revision).batchDigest.utf8ByteSize ≤ u32Max ∧
      after = { writer with
        records := writer.records ++ headerForm (fields revision) name
        items := writer.items + (fields revision).batchDigest.utf8ByteSize +
          nameSize (fields revision).checkpoint } := by
  unfold HistoryWriter.header at ok
  obtain ⟨header, isHeader, ok⟩ := bind_ok ok
  obtain ⟨items, isItems, ok⟩ := bind_ok ok
  obtain ⟨rfl, _⟩ := addItems_ok isItems
  obtain ⟨named, isNamed, ok⟩ := bind_ok ok
  cases ok
  obtain ⟨digest, isDigest, isHeader⟩ := bind_ok isHeader
  obtain ⟨rfl, fits⟩ := pushString_ok isDigest
  obtain ⟨name, isName, isHeader⟩ := bind_ok isHeader
  cases isHeader
  refine ⟨name, isName, fits, ?_⟩
  unfold addName at isNamed
  unfold nameSize
  split at isNamed
  case h_1 none =>
    cases isNamed
    rw [none]
    rfl
  case h_2 some =>
    obtain ⟨rfl, _⟩ := addItems_ok isNamed
    rw [some]
    rfl

/-- **A record** is read when its fields are readable where it stands. -/
theorem record_reads {index cursor programCount snapshotCount : Nat} {of : RevisionFields}
    {scan counted kept : HistoryScan} {name programForm snapshotForm : Bytes}
    {now : Option HistoryProgram} {snapshot : HistorySnapshot} (readable : ReadableFields index of)
    (named : checkpointForm of.checkpoint = .ok name) (fits : of.batchDigest.utf8ByteSize ≤ u32Max)
    (later : ∀ id, scan.previousRevisionId = some id → id < of.id)
    (unused : ∀ name, of.checkpoint = some name → name ∉ scan.checkpointNames)
    (program : Reads (readProgram historySchema scan.previousProgram) programForm programCount 0 now)
    (isCounted : scan.countProgram budget true now = .ok counted)
    (names : counted.checkpointNames = scan.checkpointNames)
    (reads : Reads (readHistorySnapshot historySchema (if index = cursor then some document else none))
      snapshotForm snapshotCount 0 snapshot)
    (isKept : ({ counted with
      previousRevisionId := some of.id
      previousProgram := now
      checkpointNames := of.checkpoint.toList ++ counted.checkpointNames } : HistoryScan).keepRecord
        budget true ⟨of, now, snapshot⟩ = .ok kept) :
    Reads (readRecord historySchema cursor false budget document index scan)
      (headerForm of name ++ (programForm ++ snapshotForm))
      (of.batchDigest.utf8ByteSize + nameSize of.checkpoint + (programCount + snapshotCount))
      (of.batchDigest.utf8ByteSize + nameSize of.checkpoint) kept := by
  have after : scan.previousRevisionId.all (· < of.id) = true := by
    rw [Option.all_eq_true]
    exact fun id is => decide_eq_true (later id is)
  have allowed : (of.checkpoint.all fun name => DocumentStore.validCheckpointName name &&
      !counted.checkpointNames.contains name) = true := by
    rw [Option.all_eq_true, names]
    intro name is
    have absent : scan.checkpointNames.contains name = false :=
      Bool.eq_false_iff.mpr fun member => unused name is (List.contains_iff_mem.mp member)
    rw [readable.checkpoint name is, absent]
    rfl
  have authorship : Reads (readAuthorship historySchema index) (originForm of.origin ++ name)
      (nameSize of.checkpoint) (nameSize of.checkpoint) (of.origin, of.checkpoint) :=
    (reads_origin readable.origin_fits).bind ((reads_checkpoint named).map rfl)
  unfold readRecord
  exact (reads_u64 readable.id_fits).bind ((reads_ensure after).after
    ((reads_string fits).append ((reads_ensure readable.digest).after
      (authorship.append (program.append ((reads_liftResult isCounted).after
        ((reads_ensure readable.origin).after ((reads_ensure allowed).after
          (reads.append (reads_liftResult isKept))))))))))
    (by simp only [headerForm, List.append_assoc, List.append_nil])

/-! ### All revisions -/

/-- The programs that stand with revisions, after one with a program. -/
def heldPrograms : Option R → Option Bytes → List R →
    Except PersistenceError (List (Option Bytes))
  | _, _, [] => .ok []
  | previous, held, revision :: rest => do
    let now ← heldProgram (previous.any (sameProgram revision)) held revision
    return now :: (← heldPrograms (some revision) now rest)

/-- The records of revisions from `index` on. -/
def recordsOf (final : ChunkTable) (document : Bytes) (cursor : Nat) :
    Nat → List R → List (Option Bytes) → List HistoryRecord
  | index, revision :: rest, now :: later =>
    ⟨fields revision, now.map (programIn final),
      snapshotOf final document (index == cursor) revision⟩ ::
        recordsOf final document cursor (index + 1) rest later
  | _, _, _ => []

/-- A revision whose program is that of another has one. -/
class LawfulHistoryRevision (R : Type) [HistoryRevision R] : Prop where
  has_program : ∀ (revision previous : R) (json : Option Bytes),
    sameProgram revision previous = true → programJson previous = .ok json → json.isSome = true

/-- The reader before the revisions from `index` on, of which the writer has a program held. -/
structure Before (final : ChunkTable) (held : Option Bytes) (revisions : List R)
    (scan : HistoryScan) : Prop where
  program : scan.previousProgram = held.map (programIn final)
  read : ∀ json, held = some json → programIn final json ∈ scan.programs
  later : ∀ id, scan.previousRevisionId = some id → ∀ revision ∈ revisions, id < (fields revision).id
  unused : ∀ name ∈ scan.checkpointNames, ∀ revision ∈ revisions,
    (fields revision).checkpoint ≠ some name

/-- What the writer did for revisions: the form it put down, with so many items. -/
structure Wrote (document : Bytes) (texts : Set Bytes) (entries : List (Bytes × Bytes))
    (cursor index : Nat) (revisions : List R) (programs : List (Option Bytes))
    (writer after : HistoryWriter) (form : Bytes) (count : Nat) : Prop where
  sound : ∃ more, ChunkTable.Sound document texts after.table (entries ++ more)
  extends_ : after.table.Extends writer.table
  programs : ∀ now ∈ programs, ListedProgram texts after.table now
  snapshots : ∀ offset revision, revisions[offset]? = some revision → index + offset ≠ cursor →
    after.table.Lists (encoded revision).bytes
  records : after.records = writer.records ++ form
  items : after.items = writer.items + count

/-- What the reader makes of that form, by the numbers of a table. -/
def ReadBack (budget : HistoryBudget) (document : Bytes) (texts : Set Bytes) (cursor index : Nat)
    (held : Option Bytes) (revisions : List R) (programs : List (Option Bytes))
    (writer : HistoryWriter) (form : Bytes) (count : Nat) (final : ChunkTable) : Prop :=
  ∀ scan, Tracks budget final texts writer scan → Before final held revisions scan →
    ReadableFrom index (revisions.map fields) →
    ∃ last length, length ≤ 96 * revisions.length ∧
      Reads (readRecords historySchema cursor false budget document revisions.length index scan)
        form count length last ∧
      last.records = scan.records ++ recordsOf final document cursor index revisions programs ∧
      (revisions = [] ∧ last = scan ∨
        ∃ revision ∈ revisions, last.previousRevisionId = some (fields revision).id)

/-- **One revision** is written, and read before the others. -/
theorem revision_ok {asPrevious : Bool} {held : Option Bytes} {index cursor : Nat} {revision : R}
    {headed programmed : HistoryWriter}
    (few : budget.items ≤ maxCollectionItems) (distinct : Sha256Sum.Distinguishes texts)
    (sound : ChunkTable.Sound document texts writer.table entries)
    (written : Written texts revision) (listed : ListedProgram texts writer.table held)
    (isSome : asPrevious = true → held.isSome = true)
    (isHeaded : writer.header budget revision = .ok headed)
    (isProgrammed : headed.program budget asPrevious revision = .ok programmed)
    (isSnapped : programmed.snapshot budget (index == cursor) revision = .ok after) :
    ∃ now form count, heldProgram asPrevious held revision = .ok now ∧
      Wrote document texts entries cursor index [revision] [now] writer after form count ∧
      ∀ final : ChunkTable, final.Extends after.table → ∀ scan,
        Tracks budget final texts writer scan →
        (∀ json, held = some json → programIn final json ∈ scan.programs) →
        scan.previousProgram = held.map (programIn final) →
        ReadableFields index (fields revision) →
        (∀ id, scan.previousRevisionId = some id → id < (fields revision).id) →
        (∀ name, (fields revision).checkpoint = some name → name ∉ scan.checkpointNames) →
        ∃ next length, length ≤ 96 ∧
          Reads (readRecord historySchema cursor false budget document index scan) form count length
            next ∧
          Tracks budget final texts after next ∧
          next.records = scan.records ++ recordsOf final document cursor index [revision] [now] ∧
          next.previousRevisionId = some (fields revision).id ∧
          next.previousProgram = now.map (programIn final) ∧
          (∀ json, now = some json → programIn final json ∈ next.programs) ∧
          next.checkpointNames = (fields revision).checkpoint.toList ++ scan.checkpointNames := by
  obtain ⟨name, named, fits, headedIs⟩ := header_ok isHeaded
  have sameTable : headed.table = writer.table := by rw [headedIs]
  rw [← sameTable] at sound listed
  obtain ⟨now, programForm, isNow, ⟨more, programSound⟩, programExtends, nowListed, programRecords,
    _, programCount, programItems, programReads⟩ :=
    program_ok few distinct sound written listed isSome isProgrammed
  obtain ⟨snapshotForm, ⟨others, snapshotSound⟩, snapshotExtends, snapshotListed, snapshotRecords,
    snapshotCount, snapshotItems, snapshotReads⟩ :=
    snapshot_ok few programSound written isSnapped
  refine ⟨now, headerForm (fields revision) name ++ (programForm ++ snapshotForm),
    (fields revision).batchDigest.utf8ByteSize + nameSize (fields revision).checkpoint +
      (programCount + snapshotCount), isNow,
    ⟨⟨more ++ others, by rwa [← List.append_assoc]⟩, ?_, ?_, ?_, ?_, ?_⟩, ?_⟩
  · rw [← sameTable]
    exact snapshotExtends.trans programExtends
  · intro other member json is
    rw [List.mem_singleton.mp member] at is
    exact (nowListed json is).imp_right fun lists => lists.later snapshotExtends
  · intro offset other place away
    rcases offset with _ | offset
    · cases place
      exact snapshotListed (beq_eq_false_iff_ne.mpr away)
    · cases place
  · rw [snapshotRecords, programRecords, headedIs]
    simp only [List.append_assoc]
  · rw [snapshotItems, programItems, headedIs]
    simp only [Nat.add_assoc]
  · intro final extendsFinal scan tracks read previous readable later unused
    have tracksHeaded : Tracks budget final texts headed scan := by
      rw [headedIs]
      exact tracks.of_records tracks.assembled tracks.within rfl rfl rfl rfl
    obtain ⟨programRead, counted, isCounted, countedTracks, countedIs, nowRead⟩ :=
      programReads final (extendsFinal.trans snapshotExtends) scan tracksHeaded read
    obtain ⟨snapshotRead, keeps⟩ := snapshotReads final extendsFinal
    obtain ⟨kept, isKept, keptTracks, keptIs⟩ := keeps
      { counted with
        previousRevisionId := some (fields revision).id
        previousProgram := now.map (programIn final)
        checkpointNames := (fields revision).checkpoint.toList ++ counted.checkpointNames }
      (countedTracks.of_records countedTracks.assembled countedTracks.within rfl rfl rfl rfl)
      ⟨fields revision, now.map (programIn final),
        snapshotOf final document (index == cursor) revision⟩ rfl
    rw [← previous] at programRead
    have names : counted.checkpointNames = scan.checkpointNames := by rw [countedIs]
    simp only [beq_iff_eq] at snapshotRead
    have short : (fields revision).batchDigest.utf8ByteSize +
        nameSize (fields revision).checkpoint ≤ 96 := by
      have digest := validBatchDigest_size readable.digest
      have name := nameSize_le readable.checkpoint
      omega
    refine ⟨kept, _, short, record_reads readable named fits later unused programRead isCounted names
      snapshotRead isKept, keptTracks, ?_⟩
    rw [keptIs]
    refine ⟨?_, rfl, rfl, nowRead, ?_⟩
    · show counted.records ++ _ = _
      rw [countedIs]
      rfl
    · rw [← names]

theorem Before.next {final : ChunkTable} {held now : Option Bytes} {revision : R} {rest : List R}
    {scan next : HistoryScan} {index : Nat} (before : Before final held (revision :: rest) scan)
    (readable : ReadableFrom index ((revision :: rest).map fields))
    (id : next.previousRevisionId = some (fields revision).id)
    (program : next.previousProgram = now.map (programIn final))
    (read : ∀ json, now = some json → programIn final json ∈ next.programs)
    (names : next.checkpointNames = (fields revision).checkpoint.toList ++ scan.checkpointNames) :
    Before final now rest next where
  program := program
  read := read
  later known is other member := by
    rw [id] at is
    cases is
    exact (List.pairwise_cons.mp readable.increasing).1 _
      (List.mem_map_of_mem (List.mem_map_of_mem member))
  unused name member other isOther := by
    rw [names, List.mem_append] at member
    rcases member with here | earlier
    · have named := Option.mem_toList.mp here
      intro also
      have distinct := readable.names
      rw [List.map_cons, List.filterMap_cons, show (fields revision).checkpoint = some name from named]
        at distinct
      exact (List.nodup_cons.mp distinct).1
        (List.mem_filterMap.mpr ⟨_, List.mem_map_of_mem isOther, also⟩)
    · exact before.unused name earlier other (List.mem_cons_of_mem _ isOther)

/-- **The revisions are read as they were written**, by the numbers of every table the last one of the
writer grows to. -/
theorem revisions_ok [LawfulHistoryRevision R] {previous : Option R} {held : Option Bytes}
    {index cursor : Nat} {revisions : List R} (few : budget.items ≤ maxCollectionItems)
    (distinct : Sha256Sum.Distinguishes texts)
    (sound : ChunkTable.Sound document texts writer.table entries)
    (written : ∀ revision ∈ revisions, Written texts revision)
    (listed : ListedProgram texts writer.table held)
    (isSome : ∀ revision, previous.any (sameProgram revision) = true → held.isSome = true)
    (ok : HistoryWriter.revisions budget cursor previous index revisions writer = .ok after) :
    ∃ programs form count, heldPrograms previous held revisions = .ok programs ∧
      Wrote document texts entries cursor index revisions programs writer after form count ∧
      ∀ final : ChunkTable, final.Extends after.table →
        ReadBack budget document texts cursor index held revisions programs writer form count
          final := by
  induction revisions generalizing previous held index writer entries with
  | nil =>
    cases ok
    refine ⟨[], [], 0, rfl, ⟨⟨[], by rwa [List.append_nil]⟩, .refl _, nofun, nofun,
      (List.append_nil _).symm, rfl⟩, fun final _ scan _ _ _ => ⟨scan, 0, Nat.zero_le _,
        reads_pure scan, (List.append_nil _).symm, Or.inl ⟨rfl, rfl⟩⟩⟩
  | cons revision rest ih =>
    obtain ⟨headed, isHeaded, ok⟩ := bind_ok ok
    obtain ⟨programmed, isProgrammed, ok⟩ := bind_ok ok
    obtain ⟨snapped, isSnapped, ok⟩ := bind_ok ok
    obtain ⟨now, form, count, isNow, wrote, reads⟩ := revision_ok few distinct sound
      (written revision (List.mem_cons_self ..)) listed (isSome revision) isHeaded isProgrammed
      isSnapped
    obtain ⟨more, nextSound⟩ := wrote.sound
    have nowListed := wrote.programs now (List.mem_singleton_self now)
    have nowSome : ∀ other, (some revision).any (sameProgram other) = true → now.isSome = true := by
      intro other same
      unfold heldProgram at isNow
      split at isNow
      case isTrue asPrevious =>
        cases isNow
        exact isSome revision asPrevious
      case isFalse => exact LawfulHistoryRevision.has_program other revision now same isNow
    obtain ⟨programs, others, otherCount, isPrograms, wroteRest, readsRest⟩ := ih nextSound
      (fun other member => written other (List.mem_cons_of_mem _ member)) nowListed nowSome ok
    refine ⟨now :: programs, form ++ others, count + otherCount, ?_, ⟨?_, ?_, ?_, ?_, ?_, ?_⟩, ?_⟩
    · rw [heldPrograms, isNow]
      show (heldPrograms (some revision) now rest).bind _ = _
      rw [isPrograms]
      rfl
    · obtain ⟨last, lastSound⟩ := wroteRest.sound
      exact ⟨more ++ last, by rwa [← List.append_assoc]⟩
    · exact wroteRest.extends_.trans wrote.extends_
    · intro other member json is
      rcases List.mem_cons.mp member with rfl | later
      · exact (nowListed json is).imp_right fun lists => lists.later wroteRest.extends_
      · exact wroteRest.programs other later json is
    · intro offset other place away
      rcases offset with _ | offset
      · exact (wrote.snapshots 0 other place away).later wroteRest.extends_
      · exact wroteRest.snapshots offset other place (by omega)
    · rw [wroteRest.records, wrote.records, List.append_assoc]
    · rw [wroteRest.items, wrote.items, Nat.add_assoc]
    · intro final extendsFinal scan tracks before readable
      obtain ⟨next, length, short, readHere, nextTracks, records, id, program, read, names⟩ :=
        reads final (extendsFinal.trans wroteRest.extends_) scan tracks before.read before.program
          readable.head (fun id is => before.later id is revision (List.mem_cons_self ..))
          (fun name is member => before.unused name member revision (List.mem_cons_self ..) is)
      obtain ⟨last, restLength, restShort, readRest, restRecords, ended⟩ :=
        readsRest final extendsFinal next nextTracks (before.next readable id program read names)
          readable.tail
      refine ⟨last, length + restLength, ?_, readHere.append readRest, ?_, Or.inr ?_⟩
      · rw [List.length_cons]
        omega
      · rw [restRecords, records, List.append_assoc]
        rfl
      · rcases ended with ⟨rfl, rfl⟩ | ⟨other, member, is⟩
        · exact ⟨revision, List.mem_cons_self .., id⟩
        · exact ⟨other, List.mem_cons_of_mem _ member, is⟩

/-! ### The whole history -/

theorem documentChunks_ok {listed : List Chunk} {table later : ChunkTable}
    (sound : ChunkTable.Sound document texts table entries)
    (inside : ∀ chunk ∈ listed, chunk ∈ chunks document ∧ chunk.content document ∈ texts)
    (ok : listed.foldlM ChunkTable.addDocumentChunk table = .ok later) :
    ∃ entries, ChunkTable.Sound document texts later entries := by
  induction listed generalizing table entries with
  | nil =>
    cases ok
    exact ⟨entries, sound⟩
  | cons chunk rest ih =>
    rw [List.foldlM_cons] at ok
    obtain ⟨next, isNext, ok⟩ := bind_ok ok
    obtain ⟨member, text⟩ := inside chunk (List.mem_cons_self ..)
    obtain ⟨more, nextSound, _⟩ := ChunkTable.addDocumentChunk_ok sound member text isNext
    exact ih nextSound (fun other member => inside other (List.mem_cons_of_mem _ member)) ok

theorem reads_chunks {table : ChunkTable} (sound : ChunkTable.Sound document texts table entries)
    (few : table.numbers.size ≤ maxCollectionItems) :
    Reads (readChunks historySchema document) (u32Form table.numbers.size ++ table.bytes)
      table.numbers.size 0 (entries.map Prod.snd) := by
  have each : Reads (parseEach (readChunk document) table.numbers.size) table.bytes 0 0
      (entries.map Prod.snd) := by
    have all : Reads (parseEach (readChunk document) entries.length) (entries.flatMap Prod.fst)
        (entries.map fun _ => 0).sum (entries.map fun _ => 0).sum (entries.map Prod.snd) :=
      reads_parseEach sound.reads
    rw [List.map_const', List.sum_replicate_nat, Nat.mul_zero, ← sound.size, ← sound.bytes] at all
    exact all
  unfold readChunks
  exact (reads_countWithLimit (few.trans (by decide)) few).bind each

theorem parseHistory_reads {cursor count nextRevisionId items length : Nat} {records : Bytes}
    {table : ChunkTable} {last : HistoryScan}
    (sound : ChunkTable.Sound document texts table entries) (some_ : count ≠ 0)
    (most : count ≤ fileHistoryRevisions) (within : cursor < count) (nextFits : nextRevisionId ≤ u64Max)
    (few : table.numbers.size ≤ maxCollectionItems)
    (reads : Reads (readRecords historySchema cursor false budget document count 0 .start) records items
      length last) (later : last.previousRevisionId.any (· < nextRevisionId) = true)
    (itemsFit : count + table.numbers.size + items ≤ budget.items)
    (lengthFits : length ≤ maxStringBytes) :
    readHistoryRecords (historyMagic ++ u16Form historySchema ++ u32Form count ++ u32Form cursor ++
        u64Form nextRevisionId ++ u32Form table.numbers.size ++ table.bytes ++ records) document
        budget false =
      .ok ⟨historySchema, cursor, nextRevisionId, entries.map Prod.snd, last.records⟩ := by
  have small : fileHistoryRevisions ≤ u32Max := by decide
  have body : Reads (readHistoryBody document budget false)
      (historyMagic ++ (u16Form historySchema ++ (u32Form count ++ (u32Form cursor ++
        (u64Form nextRevisionId ++ (u32Form table.numbers.size ++ (table.bytes ++ records)))))))
      (count + (table.numbers.size + items)) length
      (⟨historySchema, cursor, nextRevisionId, entries.map Prod.snd, last.records⟩,
        last.previousRevisionId) := by
    unfold readHistoryBody
    exact (reads_take historyMagic).bind ((reads_ensure rfl).after
      ((reads_u16 (by decide)).append ((reads_ensure (by decide)).after
        ((reads_countWithLimit (most.trans small) most).append
          ((reads_u32 (within.le.trans (most.trans small))).append ((reads_u64 nextFits).append
            ((reads_ensure ⟨some_, within⟩).after ((reads_chunks sound few).append
              (reads.map rfl)))))))))
  obtain ⟨after, isRead, finished⟩ := body.run_to_end
    (show count + (table.numbers.size + items) ≤ budget.items by omega) lengthFits
  simp only [List.append_assoc]
  unfold readHistoryRecords parseHistory
  show Except.map Prod.fst ((readHistoryBody document budget false _).bind _) = _
  rw [isRead]
  show Except.map Prod.fst ((ensure _ _ after).bind _) = _
  rw [finished, ensure, if_pos ⟨rfl, later⟩]
  rfl

/-- What a history is read to, of the revisions it was written of: their records, and chunks the
programs and snapshots assemble from. -/
structure ReadsAs (texts : Set Bytes) (document : Bytes) (cursor nextRevisionId : Nat)
    (revisions : List R) (programs : List (Option Bytes)) (final : ChunkTable)
    (parsed : ParsedHistory) : Prop where
  cursor_eq : parsed.cursor = cursor
  next_eq : parsed.nextRevisionId = nextRevisionId
  records : parsed.records = recordsOf final document cursor 0 revisions programs
  programs : ∀ json, some json ∈ programs →
    (programIn final json).assemble parsed.chunks = .ok json
  snapshots : ∀ index revision, revisions[index]? = some revision → index ≠ cursor →
    (snapshotIn final (encoded revision).bytes).assemble parsed.chunks =
      .ok (encoded revision).bytes

/-- **A history that was written is read**, and its chunks assemble to what was written. -/
theorem readHistoryRecords_encodeHistory [LawfulHistoryRevision R] {revisions : List R}
    {cursor nextRevisionId : Nat} {documentBin : EncodedSnapshot} {bytes : Bytes}
    (few : budget.items ≤ maxCollectionItems) (distinct : Sha256Sum.Distinguishes texts)
    (inside : hashedWith documentBin.bytes ⊆ texts)
    (written : ∀ revision ∈ revisions, Written texts revision)
    (readable : Readable (revisions.map fields) nextRevisionId)
    (ok : encodeHistory revisions cursor nextRevisionId documentBin budget = .ok bytes) :
    ∃ parsed programs final, readHistoryRecords bytes documentBin.bytes budget false = .ok parsed ∧
      heldPrograms none none revisions = .ok programs ∧
      ReadsAs texts documentBin.bytes cursor nextRevisionId revisions programs final parsed := by
  unfold encodeHistory at ok
  dsimp only at ok
  split at ok
  · cases ok
  next counts =>
  obtain ⟨table, isTable, ok⟩ := bind_ok ok
  obtain ⟨writer, isWriter, ok⟩ := bind_ok ok
  obtain ⟨items, isItems, ok⟩ := bind_ok ok
  obtain ⟨place, isPlace, ok⟩ := bind_ok ok
  obtain ⟨size, isSize, ok⟩ := bind_ok ok
  obtain ⟨placeIs, _⟩ := u32Count_ok isPlace
  obtain ⟨sizeIs, _⟩ := u32Count_ok isSize
  cases ok
  obtain ⟨_, itemsFit⟩ := addItems_ok isItems
  obtain ⟨start, startSound⟩ := documentChunks_ok ChunkTable.sound_empty
    (fun chunk member => ⟨member, inside (Or.inr ⟨chunk, member, rfl⟩)⟩) isTable
  have none_listed : ListedProgram texts table none := fun json held => nomatch held
  have none_before : ∀ revision : R, (none : Option R).any (sameProgram revision) = true →
      (none : Option Bytes).isSome = true := fun revision same => nomatch same
  obtain ⟨programs, form, count, isPrograms, wrote, reads⟩ :=
    revisions_ok few distinct startSound written none_listed none_before isWriter
  obtain ⟨more, sound⟩ := wrote.sound
  have starts : Tracks budget writer.table texts
      ⟨table, [], 0, ∅, 0, revisions.length⟩ HistoryScan.start :=
    ⟨rfl, Nat.zero_le _, rfl, nofun, fun digest member => absurd member Std.ExtTreeSet.not_mem_empty⟩
  have before : Before writer.table none revisions HistoryScan.start :=
    ⟨rfl, fun json held => (nomatch held), fun id is => (nomatch is),
      fun name member => absurd member (by simp [HistoryScan.start])⟩
  obtain ⟨last, length, short, readAll, records, ended⟩ :=
    reads writer.table (.refl _) .start starts before readable.from_first
  have later : last.previousRevisionId.any (· < nextRevisionId) = true := by
    rcases ended with ⟨rfl, _⟩ | ⟨revision, member, is⟩
    · exact absurd (Or.inl rfl) counts
    · rw [is, Option.any_some]
      exact decide_eq_true (readable.below _ (List.mem_map_of_mem member))
  have itemsAre : writer.items = revisions.length + count := wrote.items
  have isRead := parseHistory_reads sound (by omega) (by omega) (by omega) readable.next_fits
    (by omega) readAll later (by omega) (by unfold fileHistoryRevisions maxStringBytes at *; omega)
  have form_eq : writer.records = form := wrote.records
  rw [← form_eq, ← placeIs, ← sizeIs] at isRead
  refine ⟨_, programs, writer.table, isRead, isPrograms, placeIs, rfl, records, ?_, ?_⟩
  · intro json member
    obtain ⟨json_inside, lists⟩ := wrote.programs _ member json rfl
    exact ChunkTable.assemble_listed sound distinct json_inside lists
  · intro index revision place away
    have lists := wrote.snapshots index revision place (by omega)
    exact ChunkTable.assemble_listed sound distinct
      (written revision (List.mem_of_getElem? place)).snapshot lists

end Revisions

end Ketchup.Persistence
