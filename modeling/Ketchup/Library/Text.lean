/-
**Characters, text and bytes as the source's standard library reads and writes them.**

`isControl`, `isWhitespace` and `trim` follow the Unicode properties behind `char::is_control`,
`char::is_whitespace` and `str::trim`. `u64Bytes` and `stringBytes` are the little-endian,
length-prefixed forms every digest of the source is taken over.
-/

import Mathlib.Algebra.Group.Nat.Defs

namespace Ketchup

/-- Unicode category `Cc`. -/
def isControl (mark : Char) : Bool :=
  mark.toNat < 0x20 || (0x7f ≤ mark.toNat && mark.toNat ≤ 0x9f)

/-- Unicode property `White_Space`. -/
def isWhitespace (mark : Char) : Bool :=
  (0x9 ≤ mark.toNat && mark.toNat ≤ 0xd) || mark.toNat == 0x20 || mark.toNat == 0x85 ||
    mark.toNat == 0xa0 || mark.toNat == 0x1680 || (0x2000 ≤ mark.toNat && mark.toNat ≤ 0x200a) ||
    mark.toNat == 0x2028 || mark.toNat == 0x2029 || mark.toNat == 0x202f ||
    mark.toNat == 0x205f || mark.toNat == 0x3000

/-- A text without the white space at its two ends. -/
def trim (text : String) : String :=
  String.ofList (((text.toList.dropWhile isWhitespace).reverse.dropWhile isWhitespace).reverse)

abbrev Bytes := List UInt8

/-- The largest `u64`. -/
def u64Max : Nat := 2 ^ 64 - 1

/-- `checked_add(1)` on a `u64`. -/
def checkedSucc (value : Nat) : Option Nat :=
  if value < u64Max then some (value + 1) else none

theorem checkedSucc_eq_some {value next : Nat} :
    checkedSucc value = some next ↔ value < u64Max ∧ next = value + 1 := by
  unfold checkedSucc
  by_cases room : value < u64Max
  · rw [if_pos room, Option.some.injEq, eq_comm]
    exact (and_iff_right room).symm
  · rw [if_neg room]
    exact ⟨nofun, fun both => absurd both.1 room⟩

/-- A number is given by its lowest digits. -/
theorem mod_eq_of_digits {base first second : Nat} (width : Nat)
    (same : ∀ index < width, first / base ^ index % base = second / base ^ index % base) :
    first % base ^ width = second % base ^ width := by
  induction width with
  | zero => rw [pow_zero, Nat.mod_one, Nat.mod_one]
  | succ width ih =>
    have lower := ih fun index less => same index (Nat.lt_succ_of_lt less)
    rw [Nat.mod_pow_succ, Nat.mod_pow_succ, lower, same width (Nat.lt_succ_self width)]

/-- The lowest bytes of a number, from the lowest on. -/
def littleEndian (width value : Nat) : Bytes :=
  (List.range width).map fun index => UInt8.ofNat (value / 256 ^ index)

@[simp] theorem littleEndian_length (width value : Nat) : (littleEndian width value).length = width := by
  rw [littleEndian, List.length_map, List.length_range]

theorem littleEndian_inj {width first second : Nat} (one : first < 256 ^ width)
    (two : second < 256 ^ width) (same : littleEndian width first = littleEndian width second) :
    first = second := by
  rw [← Nat.mod_eq_of_lt one, ← Nat.mod_eq_of_lt two]
  refine mod_eq_of_digits width fun index less => ?_
  have digit := congrArg (fun list => list[index]?) same
  simp only [littleEndian, List.getElem?_map, List.getElem?_range less, Option.map_some,
    Option.some.injEq] at digit
  exact congrArg UInt8.toNat digit

/-- `from_le_bytes`. -/
def ofLittleEndian (bytes : Bytes) : Nat := bytes.foldr (fun byte high => byte.toNat + 256 * high) 0

theorem ofLittleEndian_lt (bytes : Bytes) : ofLittleEndian bytes < 256 ^ bytes.length := by
  induction bytes with
  | nil => exact Nat.one_pos
  | cons byte rest ih =>
    have small := byte.toNat_lt
    show byte.toNat + 256 * ofLittleEndian rest < _
    rw [List.length_cons, Nat.pow_succ]
    omega

theorem ofLittleEndian_map (width value : Nat) (digits : Nat → Nat)
    (digit : ∀ index, digits index = value / 256 ^ index) :
    ofLittleEndian ((List.range width).map fun index => UInt8.ofNat (digits index)) =
      value % 256 ^ width := by
  induction width generalizing value digits with
  | zero => simp [ofLittleEndian, Nat.mod_one]
  | succ width ih =>
    have later := ih (value / 256) (fun index => digits (index + 1)) fun index => by
      rw [digit, Nat.div_div_eq_div_mul, ← Nat.pow_succ']
    rw [List.range_succ_eq_map, List.map_cons, List.map_map]
    show (UInt8.ofNat (digits 0)).toNat + 256 * ofLittleEndian (List.map _ _) = _
    have lowest : (UInt8.ofNat (digits 0)).toNat = value % 256 := by
      rw [digit, Nat.pow_zero, Nat.div_one]
      exact UInt8.toNat_ofNat'
    rw [show (fun index => UInt8.ofNat (digits index)) ∘ Nat.succ =
      fun index => UInt8.ofNat (digits (index + 1)) from rfl, later, lowest,
      show 256 ^ (width + 1) = 256 * 256 ^ width from Nat.pow_succ', Nat.mod_mul]

/-- A number comes back from its bytes. -/
theorem ofLittleEndian_littleEndian {width value : Nat} (fits : value < 256 ^ width) :
    ofLittleEndian (littleEndian width value) = value :=
  (ofLittleEndian_map width value _ fun _ => rfl).trans (Nat.mod_eq_of_lt fits)

theorem littleEndian_succ (width value : Nat) :
    littleEndian (width + 1) value = UInt8.ofNat value :: littleEndian width (value / 256) := by
  unfold littleEndian
  rw [List.range_succ_eq_map, List.map_cons, List.map_map, Nat.pow_zero, Nat.div_one]
  refine congrArg _ (List.map_congr_left fun index _ => ?_)
  rw [Function.comp_apply, Nat.div_div_eq_div_mul, ← Nat.pow_succ']

/-- Bytes come back from their number. -/
theorem littleEndian_ofLittleEndian (bytes : Bytes) :
    littleEndian bytes.length (ofLittleEndian bytes) = bytes := by
  induction bytes with
  | nil => rfl
  | cons byte rest ih =>
    have value : ofLittleEndian (byte :: rest) = byte.toNat + 256 * ofLittleEndian rest := rfl
    have less := byte.toNat_lt
    have low : UInt8.ofNat (byte.toNat + 256 * ofLittleEndian rest) = byte := by
      refine UInt8.toNat_inj.mp ?_
      rw [UInt8.toNat_ofNat', Nat.add_mul_mod_self_left]
      exact Nat.mod_eq_of_lt less
    have high : (byte.toNat + 256 * ofLittleEndian rest) / 256 = ofLittleEndian rest := by omega
    rw [List.length_cons, littleEndian_succ, value, low, high, ih]

/-- `to_le_bytes` of a `u64`. -/
def u64Bytes (value : Nat) : Bytes := littleEndian 8 value

/-- A length and the bytes. -/
def fieldBytes (bytes : Bytes) : Bytes := u64Bytes bytes.length ++ bytes

/-- The UTF-8 form of a text. -/
def utf8 (text : String) : Bytes := text.toUTF8.data.toList

theorem utf8_injective : utf8.Injective := by
  intro first second same
  refine String.toByteArray_inj.mp ?_
  exact ByteArray.ext (Array.toList_inj.mp same)

theorem utf8_length (text : String) : (utf8 text).length = text.utf8ByteSize := rfl

theorem fromUTF8?_utf8 (value : String) : String.fromUTF8? ⟨(utf8 value).toArray⟩ = some value := by
  have bytes : (⟨(utf8 value).toArray⟩ : ByteArray) = value.toByteArray := by
    unfold utf8
    rw [Array.toArray_toList]
    rfl
  rw [bytes]
  unfold String.fromUTF8?
  rw [dif_pos value.isValidUTF8]
  rfl

def stringBytes (text : String) : Bytes := fieldBytes (utf8 text)

/-- `str::parse` of a number that no sign stands before. -/
def parseIndex (text : String) : Option Nat :=
  if text.toList ≠ [] ∧ text.toList.all Char.isDigit then some (Nat.ofDigitChars 10 text.toList 0)
  else none

@[simp] theorem parseIndex_repr (index : Nat) : parseIndex index.repr = some index := by
  have digits : (Nat.toDigits 10 index).all Char.isDigit = true := by
    rw [List.all_eq_true]
    intro digit there
    exact Nat.isDigit_of_mem_toDigits (by decide : 0 < 10) (by decide) there
  have some_ : Nat.toDigits 10 index ≠ [] := Nat.toDigits_ne_nil
  rw [parseIndex, Nat.toList_repr, if_pos ⟨some_, digits⟩, Nat.ofDigitChars_ten_toDigits]

theorem parseIndex_toString (index : Nat) : parseIndex (toString index) = some index :=
  parseIndex_repr index

theorem repr_inj {first second : Nat} : first.repr = second.repr ↔ first = second := by
  constructor
  · intro same
    have parsed := congrArg parseIndex same
    rwa [parseIndex_repr, parseIndex_repr, Option.some.injEq] at parsed
  · exact congrArg Nat.repr

/-- SHA-256, in lower-case hexadecimal digits. -/
class Sha256 where
  hex : Bytes → String

end Ketchup
