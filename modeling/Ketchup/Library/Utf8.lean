/-
**UTF-8 as bytes.**

* `decodeUtf8_eq_some` — what is decoded is the text the bytes encode.
* `encodeChar_parts` — a character is a first byte and at most three that continue it.
* `encode_split` — a cut before a byte that does not continue a character is between characters.
* `ascii_mem_encode` — an ASCII byte of a text is a character of it.
-/

import Ketchup.Library.Text
import Mathlib.Data.List.GetD

namespace Ketchup

/-- The UTF-8 form of characters. -/
def encode (text : List Char) : Bytes := text.flatMap String.utf8EncodeChar

@[simp] theorem encode_nil : encode [] = [] := rfl

@[simp] theorem encode_cons (mark : Char) (text : List Char) :
    encode (mark :: text) = String.utf8EncodeChar mark ++ encode text := rfl

@[simp] theorem encode_append (first second : List Char) : encode (first ++ second) = encode first ++ encode second :=
  List.flatMap_append

theorem utf8_ofList (text : List Char) : utf8 (String.ofList text) = encode text := by
  unfold utf8 String.toUTF8
  simp [String.ofList, List.utf8Encode, encode]

/-- `str::from_utf8`. -/
def decodeUtf8 (bytes : Bytes) : Option (List Char) :=
  (String.fromUTF8? ⟨bytes.toArray⟩).map String.toList

theorem decodeUtf8_encode (text : List Char) : decodeUtf8 (encode text) = some text := by
  rw [decodeUtf8, ← utf8_ofList, fromUTF8?_utf8, Option.map_some, String.toList_ofList]

theorem decodeUtf8_eq_some {bytes : Bytes} {text : List Char} : decodeUtf8 bytes = some text ↔ bytes = encode text := by
  constructor
  · intro decoded
    rw [decodeUtf8, Option.map_eq_some_iff] at decoded
    obtain ⟨string, is, rfl⟩ := decoded
    unfold String.fromUTF8? at is
    split at is
    next valid =>
      rw [← utf8_ofList, String.ofList_toList, ← Option.some.inj is]
      simp [utf8, String.toUTF8, String.fromUTF8]
    next => exact absurd is (by simp)
  · rintro rfl
    exact decodeUtf8_encode text

/-! ### Bytes that continue a character -/

def IsContinuation (byte : UInt8) : Prop := byte &&& 0xC0 = 0x80

instance (byte : UInt8) : Decidable (IsContinuation byte) := inferInstanceAs (Decidable (_ = _))

/-- What holds of all numbers below 256 holds of all bytes. -/
theorem forall_byte {holds : UInt8 → Prop} (each : ∀ value : Fin 256, holds (UInt8.ofNat value)) (byte : UInt8) :
    holds byte := by
  have := each ⟨byte.toNat, byte.toNat_lt⟩
  simpa using this

theorem isContinuation_iff (byte : UInt8) : IsContinuation byte ↔ 128 ≤ byte.toNat ∧ byte.toNat < 192 := by
  revert byte
  refine forall_byte ?_
  unfold IsContinuation
  decide +kernel

theorem isContinuation_ofNat {value : Nat} : IsContinuation (UInt8.ofNat (value % 64 + 128)) := by
  rw [isContinuation_iff, UInt8.toNat_ofNat']
  omega

/-- **A character in UTF-8** is a first byte and at most three that continue it. -/
theorem encodeChar_parts (mark : Char) : ∃ first rest, String.utf8EncodeChar mark = first :: rest ∧
    ¬IsContinuation first ∧ (∀ byte ∈ rest, IsContinuation byte) ∧ rest.length ≤ 3 ∧
    (128 ≤ mark.toNat → ∀ byte ∈ first :: rest, 128 ≤ byte.toNat) ∧
    (mark.toNat < 128 → first = UInt8.ofNat mark.toNat ∧ rest = []) := by
  have top : mark.val.toNat < 0x110000 := by
    have := mark.valid
    unfold UInt32.isValidChar Nat.isValidChar at this
    omega
  have nat : mark.toNat = mark.val.toNat := rfl
  unfold String.utf8EncodeChar
  simp only [isContinuation_iff, nat]
  split
  · refine ⟨_, [], rfl, ?_, by simp, by simp, by omega, fun _ => ⟨rfl, rfl⟩⟩
    rw [UInt8.toNat_ofNat']
    omega
  split
  · refine ⟨_, _, rfl, ?_, ?_, by simp, ?_, by omega⟩
    · rw [UInt8.toNat_ofNat']
      omega
    · simp only [List.mem_cons, List.not_mem_nil, or_false, forall_eq, UInt8.toNat_ofNat']
      omega
    · simp only [List.mem_cons, List.not_mem_nil, or_false, forall_eq_or_imp, forall_eq, UInt8.toNat_ofNat']
      omega
  split
  · refine ⟨_, _, rfl, ?_, ?_, by simp, ?_, by omega⟩
    · rw [UInt8.toNat_ofNat']
      omega
    · simp only [List.mem_cons, List.not_mem_nil, or_false, forall_eq_or_imp, forall_eq, UInt8.toNat_ofNat']
      omega
    · simp only [List.mem_cons, List.not_mem_nil, or_false, forall_eq_or_imp, forall_eq, UInt8.toNat_ofNat']
      omega
  · refine ⟨_, _, rfl, ?_, ?_, by simp, ?_, by omega⟩
    · rw [UInt8.toNat_ofNat']
      omega
    · simp only [List.mem_cons, List.not_mem_nil, or_false, forall_eq_or_imp, forall_eq, UInt8.toNat_ofNat']
      omega
    · simp only [List.mem_cons, List.not_mem_nil, or_false, forall_eq_or_imp, forall_eq, UInt8.toNat_ofNat']
      omega

theorem encodeChar_ascii {mark : Char} (ascii : mark.toNat < 128) :
    String.utf8EncodeChar mark = [UInt8.ofNat mark.toNat] := by
  obtain ⟨first, rest, is, -, -, -, -, parts⟩ := encodeChar_parts mark
  obtain ⟨rfl, rfl⟩ := parts ascii
  exact is

/-- An ASCII byte of a text is a character of it. -/
theorem ascii_mem_encode {text : List Char} {byte : UInt8} (inside : byte ∈ encode text) (ascii : byte.toNat < 128) :
    Char.ofNat byte.toNat ∈ text := by
  obtain ⟨mark, there, its⟩ := List.mem_flatMap.mp inside
  obtain ⟨first, rest, is, -, -, -, wide, parts⟩ := encodeChar_parts mark
  rw [is] at its
  by_cases narrow : mark.toNat < 128
  · obtain ⟨rfl, rfl⟩ := parts narrow
    rw [List.mem_singleton.mp its, UInt8.toNat_ofNat']
    have same : mark.toNat % 2 ^ 8 = mark.toNat := Nat.mod_eq_of_lt (by omega)
    rwa [same, Char.ofNat_toNat]
  · exact absurd (wide (Nat.le_of_not_lt narrow) byte its) (Nat.not_le.mpr ascii)

/-- **A cut before a byte that does not continue a character is between characters.** -/
theorem encode_split {text : List Char} {before after : Bytes} (is : encode text = before ++ after)
    (cut : ∀ byte ∈ after.head?, ¬IsContinuation byte) :
    ∃ one two, text = one ++ two ∧ encode one = before ∧ encode two = after := by
  induction text generalizing before with
  | nil =>
    obtain ⟨rfl, rfl⟩ := List.append_eq_nil_iff.mp is.symm
    exact ⟨[], [], rfl, rfl, rfl⟩
  | cons mark text ih =>
    obtain ⟨first, rest, bytes, -, continues, -⟩ := encodeChar_parts mark
    cases before with
    | nil => exact ⟨[], mark :: text, rfl, rfl, is⟩
    | cons byte before =>
      rw [encode_cons, bytes, List.cons_append, List.cons_append, List.cons.injEq] at is
      obtain ⟨rfl, tail⟩ := is
      rcases List.append_eq_append_iff.mp tail with ⟨more, rfl, its⟩ | ⟨more, whole, its⟩
      · obtain ⟨one, two, rfl, rfl, rfl⟩ := ih its
        exact ⟨mark :: one, two, rfl, by rw [encode_cons, bytes]; rfl, rfl⟩
      · cases more with
        | nil =>
          rw [List.append_nil] at whole
          exact ⟨[mark], text, rfl, by rw [encode_cons, bytes, whole]; simp, its.symm⟩
        | cons head more =>
          -- the cut would be among the bytes that continue this character
          have inside : head ∈ rest := by simp [whole]
          exact absurd (continues head inside) (cut head (by rw [its]; rfl))

/-- After a character in ASCII another begins. -/
theorem encode_ascii_next {text : List Char} {byte next : UInt8} {rest : Bytes}
    (is : encode text = byte :: next :: rest) (ascii : byte.toNat < 128) : ¬IsContinuation next := by
  cases text with
  | nil => exact absurd is (by simp)
  | cons mark text =>
    obtain ⟨first, more, bytes, -, -, -, wide, parts⟩ := encodeChar_parts mark
    rw [encode_cons, bytes, List.cons_append, List.cons.injEq] at is
    obtain ⟨rfl, tail⟩ := is
    have narrow : mark.toNat < 128 := by
      refine Nat.lt_of_not_le fun beyond => ?_
      have := wide beyond first List.mem_cons_self
      omega
    obtain ⟨-, rfl⟩ := parts narrow
    cases text with
    | nil => exact absurd tail (by simp)
    | cons mark text =>
      obtain ⟨first, more, bytes, begins, -⟩ := encodeChar_parts mark
      rw [List.nil_append, encode_cons, bytes, List.cons_append, List.cons.injEq] at tail
      rw [← tail.1]
      exact begins

/-- One of any four bytes of a text begins a character. -/
theorem encode_begins_near {text : List Char} {index : Nat} (inside : index < (encode text).length) :
    ∃ back ≤ 3, ¬IsContinuation ((encode text).getD (index - back) 0) := by
  induction text generalizing index with
  | nil => simp at inside
  | cons mark text ih =>
    obtain ⟨first, rest, bytes, begins, -, short, -⟩ := encodeChar_parts mark
    rw [encode_cons, bytes] at inside ⊢
    by_cases here : index < (first :: rest).length
    · refine ⟨index, by rw [List.length_cons] at here; omega, ?_⟩
      rw [Nat.sub_self]
      exact begins
    · rw [List.length_append] at inside
      have here := Nat.le_of_not_lt here
      have after : index - (first :: rest).length < (encode text).length := by omega
      obtain ⟨back, few, begins⟩ := ih after
      by_cases within : back ≤ index - (first :: rest).length
      · refine ⟨back, few, ?_⟩
        rw [List.getD_append_right _ _ _ _ (by omega)]
        have same : index - back - (first :: rest).length = index - (first :: rest).length - back := by omega
        rwa [same]
      · -- the byte before is the first of the text's rest
        refine ⟨index - (first :: rest).length, by omega, ?_⟩
        rw [List.getD_append_right _ _ _ _ (by omega)]
        have same : index - (index - (first :: rest).length) - (first :: rest).length = 0 := by omega
        have first : index - (first :: rest).length - back = 0 := by omega
        rwa [same, ← first]

end Ketchup
