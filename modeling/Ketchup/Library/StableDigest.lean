/-
**The 64-bit digest of document content.**

`StableDigest` is 64-bit FNV-1a over labelled values: a label goes in with its length, a value as its
CBOR form. `finish` writes the hash as sixteen hexadecimal digits.
-/

import Ketchup.Library.Text

namespace Ketchup

/-- The state of the hash. -/
abbrev StableDigest := UInt64

namespace StableDigest

def offset : UInt64 := 0xcbf29ce484222325
def prime : UInt64 := 0x00000100000001b3

/-- One byte into the hash. -/
def byte (digest : StableDigest) (byte : UInt8) : StableDigest :=
  (digest ^^^ byte.toUInt64) * prime

/-- The hash of bytes as they are. -/
def write (digest : StableDigest) (bytes : Bytes) : StableDigest := bytes.foldl byte digest

/-- The hash of bytes after their length. -/
def bytes (digest : StableDigest) (label : Bytes) : StableDigest :=
  digest.write (u64Bytes label.length ++ label)

/-- `{:016x}`. -/
def finish (digest : StableDigest) : String :=
  String.ofList ((List.range 16).map fun index =>
    Nat.digitChar (digest.toNat / 16 ^ (15 - index) % 16))

theorem write_append (digest : StableDigest) (first second : Bytes) :
    digest.write (first ++ second) = (digest.write first).write second :=
  List.foldl_append

/-! ### Collisions -/

/-- Two texts after which the hash is in the same state. -/
structure Collision (digest : StableDigest) (first second : Bytes) : Prop where
  different : first ≠ second
  same : digest.write first = digest.write second

theorem digitChar_injective {first second : Nat} (one : first < 16) (two : second < 16)
    (same : Nat.digitChar first = Nat.digitChar second) : first = second := by
  have decided : ∀ first second : Fin 16,
      Nat.digitChar first = Nat.digitChar second → first = second := by decide
  exact congrArg Fin.val (decided ⟨first, one⟩ ⟨second, two⟩ same)

theorem finish_injective : Function.Injective finish := by
  intro first second same
  have digits := String.ofList_injective same
  refine UInt64.toNat_inj.mp ?_
  have within (digest : StableDigest) : digest.toNat % 16 ^ 16 = digest.toNat :=
    Nat.mod_eq_of_lt digest.toNat_lt
  rw [← within first, ← within second]
  refine mod_eq_of_digits 16 fun index less => ?_
  have at_index := congrArg (fun list => list[15 - index]?) digits
  have place : 15 - (15 - index) = index := by omega
  simp only [List.getElem?_map, List.getElem?_range (show 15 - index < 16 by omega),
    Option.map_some, Option.some.injEq, place] at at_index
  exact digitChar_injective (Nat.mod_lt _ (by decide)) (Nat.mod_lt _ (by decide)) at_index

/-- **Equal digests** are those of equal texts, or show a collision. -/
theorem eq_or_collision (digest : StableDigest) {first second : Bytes}
    (same : (digest.write first).finish = (digest.write second).finish) :
    first = second ∨ Collision digest first second := by
  by_cases equal : first = second
  · exact Or.inl equal
  · exact Or.inr ⟨equal, finish_injective same⟩

end StableDigest

end Ketchup
