/-
**The CBOR forms that are hashed.**

`head` is a major type with its argument in the fewest bytes, and the items are built on it: unsigned
integers, texts, arrays, maps with text keys, `null`, and doubles in the narrowest of the three widths
that holds them (`float`).

An item shows where it ends: `Item.eq_of_append`, over `head_append_inj`.
-/

import Ketchup.Library.Text
import Mathlib.Data.List.Basic

namespace Ketchup.Cbor

/-! ### Forms -/

def bigEndian (width value : Nat) : Bytes := (littleEndian width value).reverse

/-- The argument of a head: what the first byte says of it, and the bytes after that. -/
def argument (value : Nat) : Nat × Bytes :=
  if value < 24 then (value, [])
  else if value < 256 ^ 1 then (24, bigEndian 1 value)
  else if value < 256 ^ 2 then (25, bigEndian 2 value)
  else if value < 256 ^ 4 then (26, bigEndian 4 value)
  else if value < 256 ^ 8 then (27, bigEndian 8 value)
  -- No number or length of the source is as large.
  else (31, List.replicate value 0 ++ [1])

def initial (major additional : Nat) : UInt8 := UInt8.ofNat (32 * major + additional)

def head (major value : Nat) : Bytes :=
  initial major (argument value).1 :: (argument value).2

def unsigned (value : Nat) : Bytes := head 0 value

def text (value : String) : Bytes := head 3 value.utf8ByteSize ++ utf8 value

def array (items : List Bytes) : Bytes := head 4 items.length ++ items.flatten

def map (fields : List (String × Bytes)) : Bytes :=
  head 5 fields.length ++ fields.flatMap fun field => text field.1 ++ field.2

def null : Bytes := [initial 7 22]

def option (item : Option Bytes) : Bytes := item.getD null

/-- A variant that holds a value. -/
def variant (name : String) (value : Bytes) : Bytes := map [(name, value)]

/-- A finite double in a format of so many exponent and fraction bits, when that holds it. -/
def narrow? (exponentBits fractionBits sign exponent fraction : Nat) : Option Nat :=
  let bias := 2 ^ (exponentBits - 1) - 1
  let signBit := sign * 2 ^ (exponentBits + fractionBits)
  let dropped := 52 - fractionBits
  if exponent = 0 ∧ fraction = 0 then some signBit
  else if 1023 - bias < exponent ∧ exponent ≤ 1023 + bias then
    if fraction % 2 ^ dropped = 0 then
      some (signBit + (exponent + bias - 1023) * 2 ^ fractionBits + fraction / 2 ^ dropped)
    else none
  else
    -- Too small for a leading one: a multiple of the least number of the format.
    let shift := dropped + (1024 - bias - exponent)
    if 0 < exponent ∧ exponent ≤ 1023 - bias ∧ (2 ^ 52 + fraction) % 2 ^ shift = 0 then
      some (signBit + (2 ^ 52 + fraction) / 2 ^ shift)
    else none

/-- A finite double, by its bits. -/
def float (bits : UInt64) : Bytes :=
  let sign := bits.toNat / 2 ^ 63
  let exponent := bits.toNat / 2 ^ 52 % 2 ^ 11
  let fraction := bits.toNat % 2 ^ 52
  match narrow? 5 10 sign exponent fraction with
  | some half => initial 7 25 :: bigEndian 2 half
  | none => match narrow? 8 23 sign exponent fraction with
    | some single => initial 7 26 :: bigEndian 4 single
    | none => initial 7 27 :: bigEndian 8 bits.toNat

/-! ### Items -/

/-- The first byte of a form, by its major type and what it says of the argument. -/
theorem initial_inj {major other additional another : Nat} (one : major < 8) (two : other < 8)
    (three : additional < 32) (four : another < 32)
    (same : initial major additional = initial other another) :
    major = other ∧ additional = another := by
  have numbers := congrArg UInt8.toNat same
  simp only [initial, UInt8.toNat_ofNat'] at numbers
  omega

theorem argument_lt (value : Nat) : (argument value).1 < 32 := by
  unfold argument
  split_ifs <;> simp only <;> omega

theorem bigEndian_append_inj {width first second : Nat} {rest others : Bytes}
    (one : first < 256 ^ width) (two : second < 256 ^ width)
    (same : bigEndian width first ++ rest = bigEndian width second ++ others) :
    first = second ∧ rest = others := by
  obtain ⟨equal, ends⟩ := List.append_inj same (by simp [bigEndian])
  exact ⟨littleEndian_inj one two (List.reverse_injective equal), ends⟩

theorem replicate_append_inj {first second : Nat} {rest others : Bytes}
    (same : List.replicate first 0 ++ 1 :: rest = List.replicate second 0 ++ 1 :: others) :
    first = second ∧ rest = others := by
  induction first generalizing second with
  | zero => cases second <;> simp_all [List.replicate_succ]
  | succ first ih =>
    cases second with
    | zero => simp [List.replicate_succ] at same
    | succ second =>
      simp only [List.replicate_succ, List.cons_append, List.cons.injEq, true_and] at same
      exact (ih same).imp_left (congrArg Nat.succ)

theorem argument_form (value : Nat) :
    (value < 24 ∧ argument value = (value, [])) ∨
      (∃ index < 4, value < 256 ^ 2 ^ index ∧ argument value = (24 + index, bigEndian (2 ^ index) value)) ∨
      argument value = (31, List.replicate value 0 ++ [1]) := by
  unfold argument
  by_cases within : value < 24
  · exact .inl ⟨within, if_pos within⟩
  rw [if_neg within]
  by_cases one : value < 256 ^ 1
  · exact .inr (.inl ⟨0, by decide, one, if_pos one⟩)
  rw [if_neg one]
  by_cases two : value < 256 ^ 2
  · exact .inr (.inl ⟨1, by decide, two, if_pos two⟩)
  rw [if_neg two]
  by_cases four : value < 256 ^ 4
  · exact .inr (.inl ⟨2, by decide, four, if_pos four⟩)
  rw [if_neg four]
  by_cases eight : value < 256 ^ 8
  · exact .inr (.inl ⟨3, by decide, eight, if_pos eight⟩)
  · exact .inr (.inr (if_neg eight))

/-- An argument shows where it ends. -/
theorem argument_append_inj {value other : Nat} {rest others : Bytes}
    (code : (argument value).1 = (argument other).1)
    (same : (argument value).2 ++ rest = (argument other).2 ++ others) :
    value = other ∧ rest = others := by
  rcases argument_form value with ⟨small, is⟩ | ⟨width, few, fits, is⟩ | is
  all_goals
    rcases argument_form other with ⟨small', is'⟩ | ⟨width', few', fits', is'⟩ | is'
    all_goals
      rw [is, is'] at code same
      dsimp only at code same
  · exact ⟨code, same⟩
  · omega
  · omega
  · omega
  · obtain rfl : width = width' := Nat.add_left_cancel code
    exact bigEndian_append_inj fits fits' same
  · omega
  · omega
  · omega
  · exact replicate_append_inj (by simpa using same)

/-- A head shows its major type, its argument and where it ends. -/
theorem head_append_inj {major other value another : Nat} {rest others : Bytes} (one : major < 8)
    (two : other < 8) (same : head major value ++ rest = head other another ++ others) :
    major = other ∧ value = another ∧ rest = others := by
  obtain ⟨first, after⟩ := List.cons.inj same
  obtain ⟨majors, code⟩ := initial_inj one two (argument_lt value) (argument_lt another) first
  exact ⟨majors, argument_append_inj code after⟩

/-- The bytes of a double after the first. -/
def floatWidth (additional : Nat) : Nat :=
  if additional = 25 then 2 else if additional = 26 then 4 else if additional = 27 then 8 else 0

inductive Item : Bytes → Prop
  /-- An integer has no body, a text has as many bytes as its argument says. -/
  | scalar {major value : Nat} {body : Bytes}
      (shape : major = 0 ∧ body = [] ∨ major = 3 ∧ body.length = value) :
      Item (head major value ++ body)
  /-- An array of so many items, or a map of twice as many. -/
  | container {major value : Nat} {items : List Bytes} (inside : ∀ item ∈ items, Item item)
      (shape : major = 4 ∧ items.length = value ∨ major = 5 ∧ items.length = 2 * value) :
      Item (head major value ++ items.flatten)
  | simple {additional : Nat} {body : Bytes} (small : additional < 32)
      (width : body.length = floatWidth additional) : Item (initial 7 additional :: body)

/-- Items shown to end of themselves do so in a row. -/
theorem flatten_append_inj {items others : List Bytes} {rest after : Bytes}
    (ends : ∀ item ∈ items, ∀ other ∈ others, ∀ {rest after : Bytes},
      item ++ rest = other ++ after → item = other)
    (count : items.length = others.length)
    (same : items.flatten ++ rest = others.flatten ++ after) : items = others := by
  induction items generalizing others with
  | nil => exact (List.length_eq_zero_iff.mp count.symm).symm
  | cons item items ih =>
    match others with
    | [] => cases count
    | other :: others =>
      rw [List.flatten_cons, List.flatten_cons, List.append_assoc, List.append_assoc] at same
      have here := ends item List.mem_cons_self other List.mem_cons_self same
      rw [here, List.append_cancel_left_eq] at same
      rw [here, ih (fun one member another listed => ends one (List.mem_cons_of_mem _ member)
        another (List.mem_cons_of_mem _ listed)) (Nat.succ.inj count) same]

theorem head_ne_simple {major value additional : Nat} {rest after : Bytes} (small : additional < 32)
    (apart : major < 7) : head major value ++ rest ≠ initial 7 additional :: after := by
  intro same
  have first := (List.cons.inj same).1
  have majors := (initial_inj (by omega) (by decide) (argument_lt value) small first).1
  omega

/-- **An item shows where it ends.** -/
theorem Item.eq_of_append {first : Bytes} (one : Item first) :
    ∀ {second : Bytes}, Item second → ∀ {rest others : Bytes},
      first ++ rest = second ++ others → first = second := by
  induction one with
  | @scalar major value body shape =>
    intro second two rest others same
    cases two with
    | @scalar major' value' body' shape' =>
      rw [List.append_assoc, List.append_assoc] at same
      obtain ⟨rfl, rfl, after⟩ := head_append_inj (by omega) (by omega) same
      have length : body.length = body'.length := by
        rcases shape with ⟨is, rfl⟩ | ⟨is, size⟩ <;> rcases shape' with ⟨is', rfl⟩ | ⟨is', size'⟩
        all_goals omega
      rw [(List.append_inj after length).1]
    | @container major' value' items inside shape' =>
      rw [List.append_assoc, List.append_assoc] at same
      have majors := (head_append_inj (by omega) (by omega) same).1
      omega
    | simple small width =>
      rw [List.append_assoc] at same
      exact absurd same (head_ne_simple small (by omega))
  | @container major value items inside shape ih =>
    intro second two rest others same
    cases two with
    | @scalar major' value' body' shape' =>
      rw [List.append_assoc, List.append_assoc] at same
      have majors := (head_append_inj (by omega) (by omega) same).1
      omega
    | @container major' value' items' inside' shape' =>
      rw [List.append_assoc, List.append_assoc] at same
      obtain ⟨rfl, rfl, after⟩ := head_append_inj (by omega) (by omega) same
      rw [flatten_append_inj (fun item member other listed _ _ equal =>
        ih item member (inside' other listed) equal) (by omega) after]
    | simple small width =>
      rw [List.append_assoc] at same
      exact absurd same (head_ne_simple small (by omega))
  | @simple additional body small width =>
    intro second two rest others same
    cases two with
    | scalar shape' =>
      rw [List.append_assoc] at same
      exact absurd same.symm (head_ne_simple small (by omega))
    | container inside' shape' =>
      rw [List.append_assoc] at same
      exact absurd same.symm (head_ne_simple small (by omega))
    | simple small' width' =>
      obtain ⟨initials, after⟩ := List.cons.inj same
      obtain ⟨_, rfl⟩ := initial_inj (by decide) (by decide) small small' initials
      rw [(List.append_inj after (width.trans width'.symm)).1]

/-! ### Forms are items -/

@[simp] theorem item_unsigned (value : Nat) : Item (unsigned value) := by
  rw [unsigned, ← List.append_nil (head 0 value)]
  exact .scalar (Or.inl ⟨rfl, rfl⟩)

@[simp] theorem item_text (value : String) : Item (text value) :=
  .scalar (Or.inr ⟨rfl, utf8_length value⟩)

theorem item_array {items : List Bytes} (inside : ∀ item ∈ items, Item item) :
    Item (array items) :=
  .container inside (Or.inl ⟨rfl, rfl⟩)

theorem item_map {fields : List (String × Bytes)} (inside : ∀ field ∈ fields, Item field.2) :
    Item (map fields) := by
  have flat : (fields.flatMap fun field => text field.1 ++ field.2) =
      (fields.flatMap fun field => [text field.1, field.2]).flatten := by
    induction fields with
    | nil => rfl
    | cons field rest ih =>
      simp [ih fun field member => inside field (List.mem_cons_of_mem _ member)]
  rw [map, flat]
  refine .container (fun item member => ?_) (Or.inr ⟨rfl, ?_⟩)
  · obtain ⟨field, listed, is⟩ := List.mem_flatMap.mp member
    rcases List.mem_cons.mp is with rfl | is
    · exact item_text field.1
    · rw [List.mem_singleton.mp is]
      exact inside field listed
  · simp [List.length_flatMap, Nat.mul_comm]

@[simp] theorem item_null : Item null := .simple (by decide) rfl

theorem item_option {item : Option Bytes} (inside : ∀ value, item = some value → Item value) :
    Item (option item) := by
  cases item with
  | none => exact item_null
  | some value => exact inside value rfl

theorem item_variant {name : String} {value : Bytes} (inside : Item value) :
    Item (variant name value) :=
  item_map fun field member => by rw [List.mem_singleton.mp member]; exact inside

@[simp] theorem item_float (bits : UInt64) : Item (float bits) := by
  unfold float
  dsimp only
  split
  · exact .simple (by decide) (by simp [bigEndian, floatWidth])
  · split
    · exact .simple (by decide) (by simp [bigEndian, floatWidth])
    · exact .simple (by decide) (by simp [bigEndian, floatWidth])

end Ketchup.Cbor
