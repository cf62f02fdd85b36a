/-
**Content-defined chunks.**

An encoded snapshot, or a program, is cut where a rolling hash of its bytes says. Whatever the hash,
the chunks are the bytes in their order (`chunks_cover`), each within them and under its own sum
(`chunks_within`, `chunks_sha256`): a reader only puts the listed chunks together again.
-/

import Ketchup.Library.Sha256

namespace Ketchup.Persistence

def minChunk : Nat := 2 * 1024
def maxChunk : Nat := 64 * 1024

/-- The top bits of the hash that are zero at a boundary. -/
def boundaryMask : UInt64 := (((1 : UInt64) <<< 13) - 1) <<< (64 - 13 : UInt64)

/-- One number of splitmix64. -/
def splitmix (state : UInt64) : UInt64 :=
  let value := (state ^^^ (state >>> 30)) * 0xBF58476D1CE4E5B9
  let value := (value ^^^ (value >>> 27)) * 0x94D049BB133111EB
  value ^^^ (value >>> 31)

/-- The weight of a byte. -/
def gear (byte : UInt8) : UInt64 := splitmix ((byte.toUInt64 + 1) * 0x9E3779B97F4A7C15)

/-- The index after the first byte, from `index` on, at which the hash shows a boundary. -/
def findBoundary : UInt64 → Nat → Bytes → Option Nat
  | _, _, [] => none
  | hash, index, byte :: rest =>
    let hash := (hash <<< 1) + gear byte
    if hash &&& boundaryMask = 0 then some (index + 1) else findBoundary hash (index + 1) rest

def boundary (bytes : Bytes) : Nat :=
  let limit := min bytes.length maxChunk
  if limit ≤ minChunk then limit
  else (findBoundary 0 minChunk ((bytes.take limit).drop minChunk)).getD limit

/-- `bytes[start..start + length]`. -/
def slice (bytes : Bytes) (start length : Nat) : Bytes := (bytes.drop start).take length

structure Chunk where
  start : Nat
  length : Nat
  sha256 : Bytes
  deriving DecidableEq

variable [Sha256Sum]

/-- The chunks from `start` on, at most so many. -/
def chunksFrom (bytes : Bytes) : Nat → Nat → List Chunk
  | 0, _ => []
  | most + 1, start =>
    if start < bytes.length then
      let length := boundary (bytes.drop start)
      ⟨start, length, Sha256Sum.sum (slice bytes start length)⟩ ::
        chunksFrom bytes most (start + length)
    else []

/-- No chunk is empty, so there are no more than bytes. -/
def chunks (bytes : Bytes) : List Chunk := chunksFrom bytes bytes.length 0

/-- What a chunk of bytes is. -/
def Chunk.content (bytes : Bytes) (chunk : Chunk) : Bytes := slice bytes chunk.start chunk.length

omit [Sha256Sum] in
theorem findBoundary_bounds {hash : UInt64} {index found : Nat} {bytes : Bytes}
    (is : findBoundary hash index bytes = some found) :
    index < found ∧ found ≤ index + bytes.length := by
  induction bytes generalizing hash index with
  | nil => cases is
  | cons byte rest ih =>
    rw [findBoundary] at is
    rw [List.length_cons]
    split at is
    · cases is
      omega
    · have later := ih is
      omega

omit [Sha256Sum] in
/-- A chunk takes at least one byte, and none that is not there. -/
theorem boundary_bounds {bytes : Bytes} (some_left : 0 < bytes.length) :
    0 < boundary bytes ∧ boundary bytes ≤ bytes.length := by
  have least : 0 < min bytes.length maxChunk := Nat.lt_min.mpr ⟨some_left, by decide⟩
  have most : min bytes.length maxChunk ≤ bytes.length := Nat.min_le_left ..
  unfold boundary
  dsimp only
  split
  · exact ⟨least, most⟩
  · next long =>
    rcases found : findBoundary 0 minChunk _ with _ | place
    · exact ⟨least, most⟩
    · have bounds := findBoundary_bounds found
      rw [List.length_drop, List.length_take] at bounds
      rw [Option.getD_some]
      omega

theorem chunksFrom_cover {bytes : Bytes} {most start : Nat} (enough : bytes.length ≤ start + most) :
    (chunksFrom bytes most start).flatMap (Chunk.content bytes) = bytes.drop start := by
  induction most generalizing start with
  | zero => rw [chunksFrom, List.flatMap_nil, List.drop_eq_nil_of_le (by omega)]
  | succ most ih =>
    rw [chunksFrom]
    split
    case isTrue left =>
      have some_left : 0 < (bytes.drop start).length := by rw [List.length_drop]; omega
      have bounds := boundary_bounds some_left
      dsimp only
      rw [List.flatMap_cons, ih (by omega), ← List.drop_drop]
      exact List.take_append_drop _ _
    case isFalse done => rw [List.flatMap_nil, List.drop_eq_nil_of_le (by omega)]

/-- **The chunks are the bytes**, in their order. -/
theorem chunks_cover (bytes : Bytes) : (chunks bytes).flatMap (Chunk.content bytes) = bytes :=
  chunksFrom_cover (Nat.le_of_eq (Nat.zero_add _).symm)

theorem chunksFrom_sound {bytes : Bytes} {most start : Nat} {chunk : Chunk}
    (member : chunk ∈ chunksFrom bytes most start) :
    chunk.start + chunk.length ≤ bytes.length ∧
      chunk.sha256 = Sha256Sum.sum (chunk.content bytes) := by
  induction most generalizing start with
  | zero => cases member
  | succ most ih =>
    rw [chunksFrom] at member
    split at member
    case isTrue left =>
      have some_left : 0 < (bytes.drop start).length := by rw [List.length_drop]; omega
      have bounds := boundary_bounds some_left
      rw [List.length_drop] at bounds
      rcases List.mem_cons.mp member with rfl | later
      · refine ⟨?_, rfl⟩
        show start + boundary (bytes.drop start) ≤ bytes.length
        omega
      · exact ih later
    case isFalse => cases member

theorem chunks_within {bytes : Bytes} {chunk : Chunk} (member : chunk ∈ chunks bytes) :
    chunk.start + chunk.length ≤ bytes.length :=
  (chunksFrom_sound member).1

theorem chunks_sha256 {bytes : Bytes} {chunk : Chunk} (member : chunk ∈ chunks bytes) :
    chunk.sha256 = Sha256Sum.sum (chunk.content bytes) :=
  (chunksFrom_sound member).2

/-- A text and its chunks: what a history that holds it hashes. -/
def hashedWith (whole : Bytes) : Set Bytes :=
  {text | text = whole ∨ ∃ chunk ∈ chunks whole, text = chunk.content whole}

end Ketchup.Persistence
