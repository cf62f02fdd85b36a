/-
**SHA-256 as the source stores it.**

`Sha256Sum` is the function with its 32 bytes, of which `Sha256.hex` are the digits. That two texts of
a set have different sums is an assumption where it is needed (`Sha256Sum.Distinguishes`), never a law:
no function with 32 bytes tells all texts apart.
-/

import Ketchup.Library.StableDigest
import Mathlib.Data.Set.Function

namespace Ketchup

/-- Two lower-case digits for each byte. -/
def hexDigits (bytes : Bytes) : String :=
  String.ofList (bytes.flatMap fun byte =>
    [Nat.digitChar (byte.toNat / 16), Nat.digitChar (byte.toNat % 16)])

class Sha256Sum extends Sha256 where
  sum : Bytes → Bytes
  sum_length (bytes : Bytes) : (sum bytes).length = 32
  hex_eq (bytes : Bytes) : hex bytes = hexDigits (sum bytes)

/-- No two of the texts have one sum. -/
def Sha256Sum.Distinguishes [Sha256Sum] (texts : Set Bytes) : Prop := Set.InjOn sum texts

theorem Sha256Sum.Distinguishes.mono [Sha256Sum] {texts others : Set Bytes}
    (distinct : Distinguishes texts) (inside : others ⊆ texts) : Distinguishes others :=
  Set.InjOn.mono inside distinct

theorem hexDigits_injective : Function.Injective hexDigits := by
  intro first second same
  have digits := String.ofList_injective same
  induction first generalizing second with
  | nil =>
    cases second with
    | nil => rfl
    | cons => cases digits
  | cons byte rest ih =>
    cases second with
    | nil => cases digits
    | cons other others =>
      simp only [List.flatMap_cons, List.cons_append, List.nil_append, List.cons.injEq] at digits
      obtain ⟨high, low, later⟩ := digits
      have high := StableDigest.digitChar_injective (Nat.div_lt_of_lt_mul byte.toNat_lt)
        (Nat.div_lt_of_lt_mul other.toNat_lt) high
      have low := StableDigest.digitChar_injective (Nat.mod_lt _ (by decide))
        (Nat.mod_lt _ (by decide)) low
      have here : byte = other := UInt8.toNat_inj.mp (by omega)
      rw [here, ih (congrArg String.ofList later) later]

/-- The digits of the bytes themselves, in place of their hash. -/
abbrev bareDigits : Sha256 := ⟨hexDigits⟩

/-- A digit as `{:x}` writes it. -/
def isHexDigit (mark : Char) : Bool :=
  ('0' ≤ mark && mark ≤ '9') || ('a' ≤ mark && mark ≤ 'f')

theorem isHexDigit_digitChar {digit : Nat} (less : digit < 16) :
    isHexDigit (Nat.digitChar digit) = true := by
  have decided : ∀ digit : Fin 16, isHexDigit (Nat.digitChar digit) = true := by decide
  exact decided ⟨digit, less⟩

theorem hexDigits_isHexDigit {bytes : Bytes} {mark : Char} (member : mark ∈ (hexDigits bytes).toList) :
    isHexDigit mark = true := by
  rw [hexDigits, String.toList_ofList, List.mem_flatMap] at member
  obtain ⟨byte, _, either⟩ := member
  rcases List.mem_cons.mp either with rfl | either
  · exact isHexDigit_digitChar (Nat.div_lt_of_lt_mul byte.toNat_lt)
  · rw [List.mem_singleton.mp either]
    exact isHexDigit_digitChar (Nat.mod_lt _ (by decide))

theorem hexDigits_length (bytes : Bytes) : (hexDigits bytes).toList.length = 2 * bytes.length := by
  rw [hexDigits, String.toList_ofList, List.length_flatMap]
  show (bytes.map fun _ => 2).sum = _
  rw [List.map_const', List.sum_replicate_nat, Nat.mul_comm]

/-- A text of hexadecimal digits has a byte for each. -/
theorem utf8ByteSize_of_hexDigits {marks : List Char} (digits : ∀ mark ∈ marks, isHexDigit mark = true) :
    (String.ofList marks).utf8ByteSize = marks.length := by
  induction marks with
  | nil => rfl
  | cons mark rest ih =>
    have digit := digits mark (List.mem_cons_self ..)
    have below : mark.toNat ≤ 127 := by
      simp only [isHexDigit, Bool.or_eq_true, Bool.and_eq_true, decide_eq_true_eq] at digit
      rcases digit with ⟨_, most⟩ | ⟨_, most⟩
      · exact (show mark.toNat ≤ 57 from most).trans (by decide)
      · exact (show mark.toNat ≤ 102 from most).trans (by decide)
    have one : mark.utf8Size = 1 := Char.utf8Size_eq_one_iff.mpr below
    have whole : String.ofList (mark :: rest) = String.singleton mark ++ String.ofList rest :=
      String.toList_injective (by simp)
    rw [whole, String.utf8ByteSize_append, String.utf8ByteSize_singleton, one,
      ih fun other member => digits other (List.mem_cons_of_mem _ member), List.length_cons,
      Nat.add_comm]

section Sums

variable [Sha256Sum]

theorem hexDigit_is {mark : Char} {bytes : Bytes} (member : mark ∈ (Sha256.hex bytes).toList) :
    isHexDigit mark = true := by
  rw [Sha256Sum.hex_eq] at member
  exact hexDigits_isHexDigit member

theorem not_in_hash {mark : Char} {bytes : Bytes} (other : isHexDigit mark = false) :
    mark ∉ (Sha256.hex bytes).toList := fun member => by
  have is := hexDigit_is member
  rw [other] at is
  cases is

theorem hash_length (bytes : Bytes) : (Sha256.hex bytes).toList.length = 64 := by
  rw [Sha256Sum.hex_eq, hexDigits_length, Sha256Sum.sum_length]

theorem hash_size (bytes : Bytes) : (Sha256.hex bytes).utf8ByteSize = 64 := by
  have size := utf8ByteSize_of_hexDigits fun mark (member : mark ∈ (Sha256.hex bytes).toList) =>
    hexDigit_is member
  rwa [String.ofList_toList, hash_length] at size

end Sums

end Ketchup
