/-
**Escapes in the texts of a drawing.**

`escaped` writes a character as `\U+XXXX`, two of them where it takes a surrogate pair, and `escapedCharacter`
reads what follows a backslash. `readText` is what a TEXT shows of its value: `unicodeEscapes`, then
`specialCharacters`.

* `escapedCharacter_escaped` — a character escaped is read as itself, whatever follows it.
* `unicodeEscapes_eq`, `specialCharacters_eq` — a text without any is what the loops would make of it.
-/

import Ketchup.Dxf.LineLimit

namespace Ketchup.Dxf

/-- `char::from_u32`. -/
def charFromU32 (value : Nat) : Option Char :=
  if valid : value.isValidChar then some (Char.ofNatAux value valid) else none

/-- `char::encode_utf16`. -/
def encodeUtf16 (mark : Char) : List Nat :=
  if mark.toNat < 0x10000 then [mark.toNat]
  else [0xD800 + (mark.toNat - 0x10000) / 1024, 0xDC00 + (mark.toNat - 0x10000) % 1024]

def upperHexDigit (digit : Nat) : Char := Char.ofNat (if digit < 10 then 48 + digit else 55 + digit)

/-- `{:04X}` of a `u16`. -/
def upperHex4 (unit : Nat) : List Char :=
  [upperHexDigit (unit / 4096 % 16), upperHexDigit (unit / 256 % 16), upperHexDigit (unit / 16 % 16),
    upperHexDigit (unit % 16)]

/-- A character as `\U+XXXX` of each of its UTF-16 units. -/
def escaped (mark : Char) : List Char :=
  (encodeUtf16 mark).flatMap fun unit => '\\' :: 'U' :: '+' :: upperHex4 unit

/-- Four digits in base 16. -/
def hex (digits : List Char) : Option Nat :=
  if digits.length = 4 ∧ digits.all fun mark => (hexValue mark).isSome then
    some (digits.foldl (fun value mark => 16 * value + (hexValue mark).getD 0) 0)
  else none

/-- The low unit that an escape after another stands for. -/
def lowUnit : List Char → Option Nat
  | '\\' :: 'U' :: '+' :: digits => (hex (digits.take 4)).filter fun low => 0xDC00 ≤ low ∧ low < 0xE000
  | _ => none

def replacementCharacter : Char := Char.ofNat 0xFFFD

/-- The character of a double-byte code page: 1 Japanese, 2 Traditional Chinese, 3 Korean, 5 Simplified
Chinese, under their numbers. -/
abbrev DoubleByte := Char → Nat → Option Char

variable (pages : DoubleByte)

/-- The character that the text after a backslash stands for, and how much of it. -/
def escapedCharacter : List Char → Option (Char × Nat)
  | 'U' :: '+' :: rest =>
    (hex (rest.take 4)).bind fun unit =>
      if 0xD800 ≤ unit ∧ unit < 0xDC00 then
        (lowUnit (rest.drop 4)).bind fun low =>
          (charFromU32 (0x10000 + (unit - 0xD800) * 1024 + (low - 0xDC00))).map (·, 13)
      else (charFromU32 unit).map (·, 6)
  | 'M' :: '+' :: page :: rest =>
    if page ∈ ['1', '2', '3', '4', '5'] then
      (hex (rest.take 4)).map fun number =>
        ((if page = '4' then none else pages page number).getD replacementCharacter, 7)
    else none
  | _ => none

/-! ### Reading what was escaped -/

theorem hexValue_upperHexDigit : ∀ digit < 16, hexValue (upperHexDigit digit) = some digit := by decide

theorem hex_upperHex4 {unit : Nat} (fits : unit < 0x10000) : hex (upperHex4 unit) = some unit := by
  have digit : ∀ value, hexValue (upperHexDigit (value % 16)) = some (value % 16) := fun value =>
    hexValue_upperHexDigit _ (Nat.mod_lt _ (by decide))
  unfold hex upperHex4
  simp only [List.length_cons, List.length_nil, List.all_cons, List.all_nil, List.foldl_cons, List.foldl_nil, digit,
    Option.isSome_some, Bool.and_self, and_self, if_pos, Option.getD_some, Option.some.injEq]
  omega

theorem charFromU32_toNat (mark : Char) : charFromU32 mark.toNat = some mark := by
  unfold charFromU32
  exact dif_pos mark.valid

theorem Char.bounds (mark : Char) : mark.toNat < 0xD800 ∨ (0xE000 ≤ mark.toNat ∧ mark.toNat < 0x110000) := by
  have valid := mark.valid
  unfold UInt32.isValidChar Nat.isValidChar at valid
  have nat : mark.toNat = mark.val.toNat := rfl
  omega

@[simp] theorem upperHex4_length (unit : Nat) : (upperHex4 unit).length = 4 := rfl

theorem take_upperHex4 (unit : Nat) (more : List Char) : (upperHex4 unit ++ more).take 4 = upperHex4 unit :=
  List.take_left' (upperHex4_length unit)

theorem drop_upperHex4 (unit : Nat) (more : List Char) : (upperHex4 unit ++ more).drop 4 = more :=
  List.drop_left' (upperHex4_length unit)

theorem escaped_basic {mark : Char} (basic : mark.toNat < 0x10000) :
    escaped mark = '\\' :: 'U' :: '+' :: upperHex4 mark.toNat := by
  unfold escaped encodeUtf16
  rw [if_pos basic]
  simp

theorem escaped_pair {mark : Char} (pair : ¬mark.toNat < 0x10000) :
    escaped mark = '\\' :: 'U' :: '+' :: (upperHex4 (0xD800 + (mark.toNat - 0x10000) / 1024) ++
      '\\' :: 'U' :: '+' :: upperHex4 (0xDC00 + (mark.toNat - 0x10000) % 1024)) := by
  unfold escaped encodeUtf16
  rw [if_neg pair]
  simp

/-- **What a character is escaped to stands for it.** -/
theorem escapedCharacter_escaped (mark : Char) (more : List Char) :
    ∃ code used, escaped mark ++ more = '\\' :: code ∧ escapedCharacter pages code = some (mark, used) ∧
      code.drop used = more := by
  have bounds := Char.bounds mark
  by_cases basic : mark.toNat < 0x10000
  · refine ⟨'U' :: '+' :: (upperHex4 mark.toNat ++ more), 6, by rw [escaped_basic basic]; rfl, ?_, rfl⟩
    rw [escapedCharacter, take_upperHex4, hex_upperHex4 basic, Option.bind_some, if_neg (by omega), charFromU32_toNat]
    rfl
  · refine ⟨'U' :: '+' :: (upperHex4 (0xD800 + (mark.toNat - 0x10000) / 1024) ++
      '\\' :: 'U' :: '+' :: upperHex4 (0xDC00 + (mark.toNat - 0x10000) % 1024) ++ more), 13,
      by rw [escaped_pair basic]; rfl, ?_, ?_⟩
    · rw [escapedCharacter, List.append_assoc, take_upperHex4, drop_upperHex4, hex_upperHex4 (by omega),
        Option.bind_some, if_pos (by omega)]
      rw [List.cons_append, List.cons_append, List.cons_append, lowUnit, take_upperHex4, hex_upperHex4 (by omega)]
      have low : 0xDC00 ≤ 0xDC00 + (mark.toNat - 0x10000) % 1024 ∧ 0xDC00 + (mark.toNat - 0x10000) % 1024 < 0xE000 := by
        omega
      have whole : 0x10000 + (0xD800 + (mark.toNat - 0x10000) / 1024 - 0xD800) * 1024 +
          (0xDC00 + (mark.toNat - 0x10000) % 1024 - 0xDC00) = mark.toNat := by omega
      rw [Option.filter_some, if_pos (by simpa using low), Option.bind_some, whole, charFromU32_toNat]
      rfl
    · rfl

/-! ### Reading the escapes of a text -/

/-- What follows a backslash starts with `U+` or `M+`. -/
def startsEscape (code : List Char) : Bool := code.take 2 == ['U', '+'] || code.take 2 == ['M', '+']

/-- `raw.contains("\\U+") || raw.contains("\\M+")`. -/
def holdsEscape : List Char → Bool
  | [] => false
  | mark :: rest => (mark == '\\' && startsEscape rest) || holdsEscape rest

theorem startsEscape_eq_false {code : List Char} :
    startsEscape code = false ↔ code.take 2 ≠ ['U', '+'] ∧ code.take 2 ≠ ['M', '+'] := by
  rw [startsEscape, Bool.or_eq_false_iff, beq_eq_false_iff_ne, beq_eq_false_iff_ne]

theorem startsEscape_append {code more : List Char} (plain : startsEscape (code ++ more) = false) : startsEscape code = false := by
  have kept : ∀ first : Char, (code ++ more).take 2 ≠ [first, '+'] → code.take 2 ≠ [first, '+'] := by
    intro first other starts
    refine other ?_
    have long : 2 ≤ code.length := by
      have := congrArg List.length starts
      rw [List.length_take] at this
      simp at this
      omega
    rw [List.take_append_of_le_length long, starts]
  rw [startsEscape_eq_false] at plain ⊢
  exact ⟨kept 'U' plain.1, kept 'M' plain.2⟩

theorem holdsEscape_append {value more : List Char} (plain : holdsEscape (value ++ more) = false) :
    holdsEscape value = false ∧ holdsEscape more = false := by
  induction value with
  | nil => exact ⟨rfl, plain⟩
  | cons mark rest ih =>
    obtain ⟨here, later⟩ := Bool.or_eq_false_iff.mp plain
    obtain ⟨rests, mores⟩ := ih later
    refine ⟨Bool.or_eq_false_iff.mpr ⟨?_, rests⟩, mores⟩
    rw [Bool.and_eq_false_iff] at here ⊢
    exact here.imp_right startsEscape_append

theorem holdsEscape_flatten {lines : List (List Char)} (plain : holdsEscape lines.flatten = false) :
    ∀ line ∈ lines, holdsEscape line = false := by
  induction lines with
  | nil => exact fun _ isLine => absurd isLine List.not_mem_nil
  | cons line more ih =>
    obtain ⟨first, later⟩ := holdsEscape_append plain
    exact List.forall_mem_cons.mpr ⟨first, ih later⟩

/-- The loop of `unicode_escapes`, which pushes each character that is no part of an escape. -/
def readEscapes : List Char → List Char
  | [] => []
  | mark :: rest =>
    if mark = '\\' then
      match escapedCharacter pages rest with
      | some (character, used) => character :: readEscapes (rest.drop used)
      | none => '\\' :: readEscapes rest
    else mark :: readEscapes rest
termination_by raw => raw.length

/-- `raw` with each escape its character. -/
def unicodeEscapes (raw : List Char) : List Char := if holdsEscape raw then readEscapes pages raw else raw

theorem escapedCharacter_none {code : List Char} (plain : startsEscape code = false) : escapedCharacter pages code = none := by
  unfold escapedCharacter
  split
  · exact absurd rfl (startsEscape_eq_false.mp plain).1
  · exact absurd rfl (startsEscape_eq_false.mp plain).2
  · rfl

theorem readEscapes_other {mark : Char} (other : mark ≠ '\\') (rest : List Char) :
    readEscapes pages (mark :: rest) = mark :: readEscapes pages rest := by
  rw [readEscapes, if_neg other]

theorem readEscapes_backslash {rest : List Char} (plain : startsEscape rest = false) :
    readEscapes pages ('\\' :: rest) = '\\' :: readEscapes pages rest := by
  rw [readEscapes, if_pos rfl, escapedCharacter_none pages plain]

theorem readEscapes_escaped (mark : Char) (more : List Char) :
    readEscapes pages (escaped mark ++ more) = mark :: readEscapes pages more := by
  obtain ⟨code, used, same, read, left⟩ := escapedCharacter_escaped pages mark more
  rw [same, readEscapes, if_pos rfl, read]
  exact congrArg (mark :: readEscapes pages ·) left

/-- A text that is returned as it is has nothing that the loop would read. -/
theorem readEscapes_plain {raw : List Char} (plain : holdsEscape raw = false) : readEscapes pages raw = raw := by
  induction raw with
  | nil => rw [readEscapes]
  | cons mark rest ih =>
    obtain ⟨here, later⟩ := Bool.or_eq_false_iff.mp plain
    by_cases backslash : mark = '\\'
    · subst backslash
      rw [readEscapes_backslash pages (by simpa using here), ih later]
    · rw [readEscapes_other pages backslash, ih later]

theorem unicodeEscapes_eq (raw : List Char) : unicodeEscapes pages raw = readEscapes pages raw := by
  unfold unicodeEscapes
  split
  · rfl
  · next plain => exact (readEscapes_plain pages (by simpa using plain)).symm

/-! ### Special characters -/

/-- The single character that a code page has for a byte. -/
abbrev SingleByte := Nat → Option Char

variable (codePage : SingleByte)

/-- The character `number` of the code page, or the Unicode character of that number. -/
def numberedCharacter (number : Nat) : Option Char :=
  (if number < 256 then codePage number else none) <|> charFromU32 number

/-- What follows `%%` stands for, and how much of it; nothing of it where it is no code. -/
def specialCode (code : List Char) : Option Char × Nat :=
  match code.head? with
  | some 'c' | some 'C' => (some (Char.ofNat 0x2300), 1)
  | some 'd' | some 'D' => (some '°', 1)
  | some 'p' | some 'P' => (some '±', 1)
  | some '%' => (some '%', 1)
  | some 'u' | some 'U' | some 'o' | some 'O' => (none, 1)
  | _ =>
    if ((code.take 3).takeWhile Char.isDigit).length = 3 then
      (numberedCharacter codePage ((code.take 3).foldl (fun number digit => 10 * number + (digit.toNat - 48)) 0), 3)
    else (some '%', 0)

/-- `raw.contains("%%")`. -/
def holdsSpecial : List Char → Bool
  | [] => false
  | mark :: rest => (mark == '%' && rest.head? == some '%') || holdsSpecial rest

/-- The loop of `special_characters`. -/
def readSpecial : List Char → List Char
  | [] => []
  | mark :: rest =>
    if mark = '%' ∧ rest.head? = some '%' then
      let code := rest.tail
      let (replacement, used) := specialCode codePage code
      replacement.toList ++ (if used = 0 then ['%'] else []) ++ readSpecial (code.drop used)
    else mark :: readSpecial rest
termination_by raw => raw.length

def specialCharacters (raw : List Char) : List Char := if holdsSpecial raw then readSpecial codePage raw else raw

theorem readSpecial_other {mark : Char} (other : mark ≠ '%') (rest : List Char) :
    readSpecial codePage (mark :: rest) = mark :: readSpecial codePage rest := by
  rw [readSpecial, if_neg fun both => other both.1]

theorem readSpecial_percent (rest : List Char) :
    readSpecial codePage ('%' :: '%' :: '%' :: rest) = '%' :: readSpecial codePage rest := by
  rw [readSpecial, if_pos ⟨rfl, rfl⟩]
  rfl

theorem readSpecial_plain {raw : List Char} (plain : holdsSpecial raw = false) : readSpecial codePage raw = raw := by
  induction raw with
  | nil => rw [readSpecial]
  | cons mark rest ih =>
    obtain ⟨here, later⟩ := Bool.or_eq_false_iff.mp plain
    rw [readSpecial, if_neg (by simpa using here), ih later]

theorem specialCharacters_eq (raw : List Char) : specialCharacters codePage raw = readSpecial codePage raw := by
  unfold specialCharacters
  split
  · rfl
  · next plain => exact (readSpecial_plain codePage (by simpa using plain)).symm

/-- What a TEXT shows of its value. -/
def readText (raw : List Char) : List Char := specialCharacters codePage (unicodeEscapes pages raw)

end Ketchup.Dxf
