/-
**`history.bin`.**

Format 5 holds the distinct chunks of all snapshots and programs once, those the current snapshot has
as ranges of `document.bin`, then every revision with its program and snapshot as chunk numbers
(`encodeHistory`). `readHistoryRecords` reads it and the earlier formats, checks what it says of the
revisions, and leaves the chunks to be put together (`HistorySnapshot.assemble`).
-/

import Ketchup.Document.Store
import Ketchup.Persistence.HistoryChunks
import Ketchup.Persistence.Reader

namespace Ketchup.Persistence

open Ketchup.Document

def historyMagic : Bytes := utf8 "KETCHUPHST"
def historySchema : Nat := 5

/-- Most revisions a native file's history may hold. -/
def fileHistoryRevisions : Nat := 4096

/-- What the chunks of a history may assemble to. -/
structure HistoryBudget where
  snapshots : Nat
  programs : Nat
  items : Nat

def historyBudget : HistoryBudget where
  snapshots := 2 * 1024 * 1024 * 1024
  programs := 256 * 1024 * 1024
  items := maxCollectionItems

def historyRevisionsEntry : String := "the revisions of history.bin"
def historyProgramsEntry : String := "the programs of history.bin"

/-- What was assembled so far and more of an entry, within a budget. -/
def checkAssembled (entry : String) (assembled bytes budget : Nat) : Except PersistenceError Nat :=
  let total := assembled + bytes
  if budget < total then .error (.tooLarge entry total budget) else .ok total

/-- Items so far and more, within the item budget a reader of them keeps. -/
def addItems (items more budget : Nat) : Except PersistenceError Nat :=
  let total := items + more
  if budget < total then .error .resourceLimit else .ok total

/-- Items so far and those of a name that may be there. -/
def addName (items : Nat) (checkpoint : Option String) (budget : Nat) :
    Except PersistenceError Nat :=
  match checkpoint with
  | none => .ok items
  | some name => addItems items name.utf8ByteSize budget

structure EncodedSnapshot where
  sha256 : Bytes
  bytes : Bytes
  deriving DecidableEq

/-- What a history says of a revision beside its program and snapshot. -/
structure RevisionFields where
  id : Nat
  batchDigest : String
  origin : RevisionOrigin
  checkpoint : Option String
  deriving DecidableEq

/-- A revision as `encodeHistory` writes it: one of a store, or one a work-recovery checkpoint
assembles from its steps. -/
class HistoryRevision (R : Type) where
  fields : R → RevisionFields
  /-- It has a program, and that is the one of the other. -/
  sameProgram : R → R → Bool
  programJson : R → Except PersistenceError (Option Bytes)
  encoded : R → EncodedSnapshot

open HistoryRevision

/-! ### Writing -/

def principalForm : ProposalPrincipal → Bytes
  | .manualClient => u8Form 0
  | .human id => u8Form 1 ++ u64Form id
  | .localAssistant => u8Form 2
  | .plugin id => u8Form 3 ++ u64Form id

def originForm : RevisionOrigin → Bytes
  | .initial => u8Form 0
  | .principal principal => u8Form 1 ++ principalForm principal
  | .rollback principal targetRevision =>
    u8Form 2 ++ principalForm principal ++ u64Form targetRevision

def checkpointForm : Option String → Except PersistenceError Bytes
  | none => .ok (u8Form 0)
  | some name => return u8Form 1 ++ (← pushString name)

/-- `write_revision_header`. -/
def revisionHeader (fields : RevisionFields) : Except PersistenceError Bytes :=
  return u64Form fields.id ++ (← pushString fields.batchDigest) ++ originForm fields.origin ++
    (← checkpointForm fields.checkpoint)

/-- The distinct chunks of a history, numbered in the order they are written. -/
structure ChunkTable where
  numbers : BTreeMap Bytes Nat
  bytes : Bytes

namespace ChunkTable

def empty : ChunkTable := ⟨∅, []⟩

/-- A chunk under the next number. -/
def add (table : ChunkTable) (sha256 entry : Bytes) : Except PersistenceError (ChunkTable × Nat) :=
  return (⟨table.numbers.insert sha256 table.numbers.size, table.bytes ++ entry⟩,
    ← u32Count table.numbers.size)

/-- A chunk that is a byte range of `document.bin`. -/
def addDocumentChunk (table : ChunkTable) (chunk : Chunk) : Except PersistenceError ChunkTable :=
  if table.numbers.contains chunk.sha256 then .ok table
  else do
    let start ← u32Count chunk.start
    let length ← u32Count chunk.length
    return (← table.add chunk.sha256 (u8Form 1 ++ u32Form start ++ u32Form length)).1

/-- The number of a chunk of the bytes; one not in the table yet is stored in it. -/
def number (bytes : Bytes) (table : ChunkTable) (chunk : Chunk) :
    Except PersistenceError (ChunkTable × Nat) :=
  match table.numbers[chunk.sha256]? with
  | some number => .ok (table, number)
  | none => do
    if bytes.length < chunk.start + chunk.length then .error .lengthOverflow
    else
      let content := chunk.content bytes
      table.add chunk.sha256 (u8Form 0 ++ u32Form (← u32Count content.length) ++ content)

def numberAll (bytes : Bytes) : ChunkTable → List Chunk →
    Except PersistenceError (ChunkTable × List Nat)
  | table, [] => .ok (table, [])
  | table, chunk :: rest => do
    let (table, number) ← table.number bytes chunk
    let (table, numbers) ← numberAll bytes table rest
    return (table, number :: numbers)

/-- Bytes as their length, SHA-256 and chunk numbers. -/
def write (table : ChunkTable) (bytes sha256 : Bytes) (chunks : List Chunk) :
    Except PersistenceError (ChunkTable × Bytes) := do
  let length ← u64Len bytes.length
  let count ← u32Count chunks.length
  let (table, numbers) ← numberAll bytes table chunks
  return (table, u64Form length ++ sha256 ++ u32Form count ++ numbers.flatMap u32Form)

end ChunkTable

/-- How far a history is written. -/
structure HistoryWriter where
  table : ChunkTable
  records : Bytes
  assembled : Nat
  programs : BTreeSet Bytes
  programBytes : Nat
  items : Nat

section Writing

variable [Sha256Sum] {R : Type} [HistoryRevision R]

/-- The bytes of the distinct programs with one more of a checksum. -/
def HistoryWriter.countProgram (budget : HistoryBudget) (checksum : Bytes) (length : Nat)
    (writer : HistoryWriter) : Except PersistenceError Nat :=
  if writer.programs.contains checksum then .ok writer.programBytes
  else checkAssembled historyProgramsEntry writer.programBytes length budget.programs

/-- A program into the records. -/
def HistoryWriter.program (budget : HistoryBudget) (asPrevious : Bool) (revision : R)
    (writer : HistoryWriter) : Except PersistenceError HistoryWriter := do
  if asPrevious then return { writer with records := writer.records ++ u8Form 2 }
  else match ← programJson revision with
    | none => return { writer with records := writer.records ++ u8Form 0 }
    | some encoded =>
      let checksum := Sha256Sum.sum encoded
      let programBytes ← writer.countProgram budget checksum encoded.length
      let items ← addItems writer.items (chunks encoded).length budget.items
      let (table, list) ← writer.table.write encoded checksum (chunks encoded)
      return { writer with
        table := table
        records := writer.records ++ u8Form 3 ++ list
        programs := writer.programs.insert checksum
        programBytes := programBytes
        items := items }

/-- The snapshot of a revision into the records: the current one is `document.bin`. -/
def HistoryWriter.snapshot (budget : HistoryBudget) (isCurrent : Bool) (revision : R)
    (writer : HistoryWriter) : Except PersistenceError HistoryWriter := do
  if isCurrent then return { writer with records := writer.records ++ u8Form 0 }
  else
    let snapshot := encoded revision
    let assembled ← checkAssembled historyRevisionsEntry writer.assembled snapshot.bytes.length
      budget.snapshots
    let items ← addItems writer.items (chunks snapshot.bytes).length budget.items
    let (table, list) ← writer.table.write snapshot.bytes snapshot.sha256 (chunks snapshot.bytes)
    let _ ← addItems items table.numbers.size budget.items
    return { writer with
      table := table
      records := writer.records ++ u8Form 1 ++ list
      assembled := assembled
      items := items }

def HistoryWriter.header (budget : HistoryBudget) (revision : R) (writer : HistoryWriter) :
    Except PersistenceError HistoryWriter := do
  let header ← revisionHeader (fields revision)
  let items ← addItems writer.items (fields revision).batchDigest.utf8ByteSize budget.items
  let items ← addName items (fields revision).checkpoint budget.items
  return { writer with records := writer.records ++ header, items := items }

/-- The revisions from `index` on, after `previous`. -/
def HistoryWriter.revisions (budget : HistoryBudget) (cursor : Nat) :
    Option R → Nat → List R → HistoryWriter → Except PersistenceError HistoryWriter
  | _, _, [], writer => .ok writer
  | previous, index, revision :: rest, writer => do
    let writer ← writer.header budget revision
    let writer ← writer.program budget (previous.any (sameProgram revision)) revision
    let writer ← writer.snapshot budget (index == cursor) revision
    revisions budget cursor (some revision) (index + 1) rest writer

def encodeHistory (revisions : List R) (cursor nextRevisionId : Nat) (documentBin : EncodedSnapshot)
    (budget : HistoryBudget) : Except PersistenceError Bytes := do
  let count := revisions.length
  if count = 0 ∨ fileHistoryRevisions < count ∨ count ≤ cursor then .error .resourceLimit
  else
    let table ← (chunks documentBin.bytes).foldlM ChunkTable.addDocumentChunk .empty
    let writer ← HistoryWriter.revisions budget cursor none 0 revisions
      ⟨table, [], 0, ∅, 0, count⟩
    let _ ← addItems writer.items writer.table.numbers.size budget.items
    return historyMagic ++ u16Form historySchema ++ u32Form count ++ u32Form (← u32Count cursor) ++
      u64Form nextRevisionId ++ u32Form (← u32Count writer.table.numbers.size) ++
      writer.table.bytes ++ writer.records

end Writing

/-! ### What a history names -/

/-- Chunk numbers, four bytes each. -/
def numbersOf : Bytes → List Nat
  | first :: second :: third :: fourth :: rest =>
    ofLittleEndian [first, second, third, fourth] :: numbersOf rest
  | _ => []

/-- The program of a revision as the file names it. -/
inductive HistoryProgram
  /-- Stored whole, before format 5. -/
  | inline (bytes : Bytes)
  | chunks (length : Nat) (checksum numbers : Bytes)
  deriving DecidableEq

/-- The snapshot of a revision as the file names it. -/
inductive HistorySnapshot
  /-- The current revision: `document.bin`. -/
  | document (bytes : Bytes)
  /-- Stored whole, before format 4. -/
  | whole (bytes checksum : Bytes)
  | chunks (length : Nat) (checksum numbers : Bytes)
  deriving DecidableEq

namespace HistorySnapshot

/-- The checksum of its bytes; `document` is that of `document.bin`. -/
def checksum (document : Bytes) : HistorySnapshot → Bytes
  | .document _ => document
  | .whole _ checksum | .chunks _ checksum _ => checksum

/-- Bytes it assembles to beyond what the file holds. -/
def assembledLen : HistorySnapshot → Nat
  | .document _ | .whole _ _ => 0
  | .chunks length _ _ => length

def len : HistorySnapshot → Nat
  | .document bytes | .whole bytes _ => bytes.length
  | .chunks length _ _ => length

/-- The chunks of a list, summed as far as the length the file names. -/
def parts (chunks : List Bytes) (length : Nat) : Nat → List Nat →
    Except PersistenceError (Nat × List Bytes)
  | total, [] => .ok (total, [])
  | total, number :: rest =>
    match chunks[number]? with
    | none => .error .invalidRevisionHistory
    | some part =>
      if length < total + part.length then .error .invalidRevisionHistory
      else do
        let (total, later) ← parts chunks length (total + part.length) rest
        return (total, part :: later)

variable [Sha256Sum]

def checked (bytes checksum : Bytes) : Except PersistenceError Bytes :=
  if Sha256Sum.sum bytes = checksum then .ok bytes else .error .historyChecksumMismatch

/-- The snapshot bytes, checked against their checksum. -/
def assemble (pieces : List Bytes) : HistorySnapshot → Except PersistenceError Bytes
  | .document bytes => .ok bytes
  | .whole bytes checksum => checked bytes checksum
  | .chunks length checksum numbers => do
    let (total, found) ← parts pieces length 0 (numbersOf numbers)
    if total ≠ length then .error .historyChecksumMismatch
    else checked found.flatten checksum

end HistorySnapshot

/-- The program JSON, checked against its checksum. -/
def HistoryProgram.assemble [Sha256Sum] (pieces : List Bytes) :
    HistoryProgram → Except PersistenceError Bytes
  | .inline bytes => .ok bytes
  | .chunks length checksum numbers =>
    (HistorySnapshot.chunks length checksum numbers).assemble pieces

structure HistoryRecord where
  fields : RevisionFields
  ruleProgram : Option HistoryProgram
  encodedSnapshot : HistorySnapshot

/-- A history as the file names it. -/
structure ParsedHistory where
  schema : Nat
  cursor : Nat
  nextRevisionId : Nat
  chunks : List Bytes
  records : List HistoryRecord

/-! ### Reading -/

def readRevisionPrincipal : Parse ProposalPrincipal := do
  match ← u8 with
  | 0 => return .manualClient
  | 1 => return .human (← u64)
  | 2 => return .localAssistant
  | 3 => return .plugin (← u64)
  | _ => refuse .invalidRevisionHistory

def readRevisionOrigin : Parse RevisionOrigin := do
  match ← u8 with
  | 0 => return .initial
  | 1 => return .principal (← readRevisionPrincipal)
  | 2 =>
    let principal ← readRevisionPrincipal
    return .rollback principal (← u64)
  | _ => refuse .invalidRevisionHistory

def readCheckpoint : Parse (Option String) := do
  match ← u8 with
  | 0 => return none
  | 1 => return some (← string)
  | _ => refuse .invalidRevisionHistory

/-- The chunk numbers of a chunk list. -/
def chunkNumbers : Parse Bytes := do
  let count ← countWithLimit maxCollectionItems
  take (count * 4)

/-- Length, SHA-256 and chunk numbers of at most so many bytes. -/
def readChunkList (maxLength : Nat) : Parse (Nat × Bytes × Bytes) := do
  let length ← u64
  ensure (length ≤ maxLength) .resourceLimit
  let checksum ← take 32
  return (length, checksum, ← chunkNumbers)

/-- One distinct chunk: stored here, or a byte range of `document.bin`. -/
def readChunk (document : Bytes) : Parse Bytes := do
  match ← u8 with
  | 0 =>
    let length ← u32
    take length
  | 1 =>
    let start ← u32
    let length ← u32
    ensure (start + length ≤ document.length) .invalidRevisionHistory
    return slice document start length
  | _ => refuse .invalidRevisionHistory

/-- The distinct chunks, from format 4. -/
def readChunks (schema : Nat) (document : Bytes) : Parse (List Bytes) := do
  if schema < 4 then return []
  else
    let chunkCount ← countWithLimit maxCollectionItems
    parseEach (readChunk document) chunkCount

def readProgram (schema : Nat) (previous : Option HistoryProgram) :
    Parse (Option HistoryProgram) := do
  if schema < 3 then return none
  else match ← u8 with
    | 0 => return none
    | 1 =>
      let length ← u32
      ensure (length ≤ maxRuleProgramBytes) .resourceLimit
      return some (.inline (← take length))
    | 3 =>
      ensure (5 ≤ schema) .invalidRevisionHistory
      let (length, checksum, numbers) ← readChunkList maxRuleProgramBytes
      return some (.chunks length checksum numbers)
    | 2 =>
      ensure (4 ≤ schema ∧ previous.isSome) .invalidRevisionHistory
      return previous
    | _ => refuse .invalidRevisionHistory

/-- The snapshot of a revision; `document` is given for the current one. -/
def readHistorySnapshot (schema : Nat) (document : Option Bytes) : Parse HistorySnapshot := do
  if schema < 4 then
    let length ← u64
    let checksum ← take 32
    return .whole (← take length) checksum
  else match ← u8 with
    | 0 => match document with
      | some bytes => return .document bytes
      | none => refuse .invalidRevisionHistory
    | 1 =>
      let length ← u64
      let checksum ← take 32
      return .chunks length checksum (← chunkNumbers)
    | _ => refuse .invalidRevisionHistory

/-- `char::is_ascii_digit` or from `a` to `f`, sixteen times, or nothing. -/
def validBatchDigest (digest : String) : Bool :=
  digest.isEmpty || (digest.utf8ByteSize == 16 && digest.toList.all isHexDigit)

/-- An origin a revision at the place may have. -/
def acceptsOrigin (index revisionId : Nat) : RevisionOrigin → Bool
  | .initial => index == 0
  | .principal principal => !principal.isUnidentified
  | .rollback _ targetRevision => decide (targetRevision < revisionId)

/-- How far a history is read. -/
structure HistoryScan where
  records : List HistoryRecord
  previousRevisionId : Option Nat
  previousProgram : Option HistoryProgram
  checkpointNames : List String
  assembled : Nat
  programs : List HistoryProgram
  programBytes : Nat

def HistoryScan.start : HistoryScan := ⟨[], none, none, [], 0, [], 0⟩

/-- A program the history named before is the same one, counted once. -/
def HistoryScan.countProgram (budget : HistoryBudget) (keep : Bool) (program : Option HistoryProgram)
    (scan : HistoryScan) : Except PersistenceError HistoryScan :=
  match program with
  | some (.chunks length checksum numbers) =>
    if keep ∧ .chunks length checksum numbers ∉ scan.programs then do
      let programBytes ← checkAssembled historyProgramsEntry scan.programBytes length budget.programs
      return { scan with
        programs := .chunks length checksum numbers :: scan.programs
        programBytes := programBytes }
    else .ok scan
  | _ => .ok scan

/-- The record of a revision that is kept. -/
def HistoryScan.keepRecord (budget : HistoryBudget) (keep : Bool) (record : HistoryRecord)
    (scan : HistoryScan) : Except PersistenceError HistoryScan :=
  if keep then do
    let assembled ← checkAssembled historyRevisionsEntry scan.assembled
      record.encodedSnapshot.assembledLen budget.snapshots
    return { scan with records := scan.records ++ [record], assembled := assembled }
  else .ok scan

/-- Who made a revision: before format 2, the first was the initial one and the others manual. -/
def readAuthorship (schema index : Nat) : Parse (RevisionOrigin × Option String) := do
  if schema = 1 then return (if index = 0 then .initial else .principal .manualClient, none)
  else
    let origin ← readRevisionOrigin
    return (origin, ← readCheckpoint)

def readRecord (schema cursor : Nat) (currentOnly : Bool) (budget : HistoryBudget)
    (document : Bytes) (index : Nat) (scan : HistoryScan) : Parse HistoryScan := do
  let keep := !currentOnly || index == cursor
  let id ← u64
  ensure (scan.previousRevisionId.all (· < id)) .invalidRevisionHistory
  let batchDigest ← string
  ensure (validBatchDigest batchDigest) .invalidRevisionHistory
  let (origin, checkpoint) ← readAuthorship schema index
  let ruleProgram ← readProgram schema scan.previousProgram
  let scan ← liftResult (scan.countProgram budget keep ruleProgram)
  ensure (acceptsOrigin index id origin) .invalidRevisionHistory
  ensure (checkpoint.all fun name => DocumentStore.validCheckpointName name &&
    !scan.checkpointNames.contains name) .invalidRevisionHistory
  let encodedSnapshot ← readHistorySnapshot schema (if index = cursor then some document else none)
  liftResult ({ scan with
    previousRevisionId := some id
    previousProgram := ruleProgram
    checkpointNames := checkpoint.toList ++ scan.checkpointNames }.keepRecord budget keep
      ⟨⟨id, batchDigest, origin, checkpoint⟩, ruleProgram, encodedSnapshot⟩)

/-- So many records, from `index` on. -/
def readRecords (schema cursor : Nat) (currentOnly : Bool) (budget : HistoryBudget)
    (document : Bytes) : Nat → Nat → HistoryScan → Parse HistoryScan
  | 0, _, scan => return scan
  | count + 1, index, scan => do
    let scan ← readRecord schema cursor currentOnly budget document index scan
    readRecords schema cursor currentOnly budget document count (index + 1) scan

def readFinished : Parse Bool := fun reader => .ok (reader.isFinished, reader)

/-- A history and the id of its last revision. -/
def readHistoryBody (document : Bytes) (budget : HistoryBudget) (currentOnly : Bool) :
    Parse (ParsedHistory × Option Nat) := do
  let magic ← take historyMagic.length
  ensure (magic = historyMagic) .invalidHistoryMagic
  let schema ← u16
  ensure (1 ≤ schema ∧ schema ≤ historySchema) (.unsupportedHistorySchema schema)
  let count ← countWithLimit fileHistoryRevisions
  let cursor ← u32
  let nextRevisionId ← u64
  ensure (count ≠ 0 ∧ cursor < count) .invalidRevisionHistory
  let chunks ← readChunks schema document
  let scan ← readRecords schema cursor currentOnly budget document count 0 .start
  return (⟨schema, if currentOnly then 0 else cursor, nextRevisionId, chunks, scan.records⟩,
    scan.previousRevisionId)

def parseHistory (document : Bytes) (budget : HistoryBudget) (currentOnly : Bool) :
    Parse ParsedHistory := do
  let (history, lastRevisionId) ← readHistoryBody document budget currentOnly
  let finished ← readFinished
  ensure (finished = true ∧ lastRevisionId.any (· < history.nextRevisionId))
    .invalidRevisionHistory
  return history

def readHistoryRecords (bytes document : Bytes) (budget : HistoryBudget) (currentOnly : Bool) :
    Except PersistenceError ParsedHistory :=
  (parseHistory document budget currentOnly (.withItemBudget bytes budget.items)).map Prod.fst

end Ketchup.Persistence
