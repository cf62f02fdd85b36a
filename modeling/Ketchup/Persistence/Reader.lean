/-
**Reading and writing framed bytes.**

`Reader` goes through a slice once, with the counters that bound what a file may make it allocate, and
a `Parse` is a function of the source that takes `&mut Reader`. The `push` forms are what the writers
put down.

`Reads parse written items strings value` says that `parse` takes exactly `written` off the front,
whatever follows, counts that many items and string bytes, and returns `value`. It composes:

* `Reads.bind` — one after the other;
* `reads_repeat` — a counted run of items;
* `reads_u8`, `reads_u16`, `reads_u32`, `reads_u64`, `reads_take`, `reads_string`,
  `reads_countWithLimit`, `reads_boolean` — what the writers put down.
-/

import Ketchup.Document.Product
import Mathlib.Algebra.Ring.Nat

namespace Ketchup.Persistence

open Ketchup.Document

inductive PersistenceError
  | invalidContainerMagic
  | invalidHistoryMagic
  | unsupportedContainerSchema (schema : Nat)
  | unsupportedHistorySchema (schema : Nat)
  | truncated
  | trailingBytes
  | lengthOverflow
  | resourceLimit
  | tooLarge (entry : String) (bytes limit : Nat)
  | invalidUtf8
  | invalidBoolean (value : UInt8)
  | invalidContainerPath (path : String)
  | unsupportedContainerEntry (path : String)
  | duplicateContainerEntry
  | containerChecksumMismatch (path : String)
  | missingDocumentEntry
  | documentEntryNotRequired
  | historyEntryNotRequired
  | programEntryNotRequired
  | invalidBlobHash
  | invalidRevisionHistory
  | historyChecksumMismatch
  | unknownFields (fields : List String)
  | invalidRuleProgram (error : RuleProgramError)
  | payload (reason : String)
  deriving DecidableEq

def maxStringBytes : Nat := 1024 * 1024
def maxCollectionItems : Nat := 500000

structure Reader where
  bytes : Bytes
  cursor : Nat
  collectionItems : Nat
  itemBudget : Nat
  stringBytes : Nat

abbrev Parse (α : Type) := StateT Reader (Except PersistenceError) α

namespace Reader

def withItemBudget (bytes : Bytes) (itemBudget : Nat) : Reader := ⟨bytes, 0, 0, itemBudget, 0⟩

def new (bytes : Bytes) : Reader := withItemBudget bytes maxCollectionItems

/-- What is still to be read. -/
def unread (reader : Reader) : Bytes := reader.bytes.drop reader.cursor

def isFinished (reader : Reader) : Bool := reader.cursor == reader.bytes.length

end Reader

/-! ### Parses -/

def refuse {α : Type} (error : PersistenceError) : Parse α := fun _ => .error error

def take (length : Nat) : Parse Bytes := fun reader =>
  let after := reader.cursor + length
  if after ≤ reader.bytes.length then
    .ok ((reader.bytes.drop reader.cursor).take length, { reader with cursor := after })
  -- No slice ends past the largest `usize`, where the sum overflows.
  else .error (if u64Max < after then .lengthOverflow else .truncated)

def u8 : Parse UInt8 := return (← take 1).headD 0

def u16 : Parse Nat := return ofLittleEndian (← take 2)

def u32 : Parse Nat := return ofLittleEndian (← take 4)

def u64 : Parse Nat := return ofLittleEndian (← take 8)

/-- Counts items against the budget, and refuses more than the limit. -/
def countItems (limit value : Nat) : Parse Unit := fun reader =>
  let collectionItems := reader.collectionItems + value
  if limit < value ∨ reader.itemBudget < collectionItems then .error .resourceLimit
  else .ok ((), { reader with collectionItems })

def countWithLimit (limit : Nat) : Parse Nat := do
  let value ← u32
  countItems limit value
  return value

def u32Max : Nat := 2 ^ 32 - 1

def countString (length : Nat) : Parse Unit := fun reader =>
  let stringBytes := reader.stringBytes + length
  if maxStringBytes < stringBytes then .error .resourceLimit
  else .ok ((), { reader with stringBytes })

def string : Parse String := do
  let length ← countWithLimit u32Max
  countString length
  match String.fromUTF8? ⟨(← take length).toArray⟩ with
  | some value => return value
  | none => refuse .invalidUtf8

def boolean : Parse Bool := do
  match ← u8 with
  | 0 => return false
  | 1 => return true
  | value => refuse (.invalidBoolean value)

def ensure (holds : Prop) [Decidable holds] (error : PersistenceError) : Parse Unit :=
  if holds then return else refuse error

def liftResult {α : Type} (result : Except PersistenceError α) : Parse α := fun reader =>
  result.map (·, reader)

/-- `for _ in 0..count`. -/
def parseEach {α : Type} (parse : Parse α) : Nat → Parse (List α)
  | 0 => return []
  | count + 1 => return (← parse) :: (← parseEach parse count)

/-! ### Written forms -/

def u8Form (value : UInt8) : Bytes := [value]
def u16Form (value : Nat) : Bytes := littleEndian 2 value
def u32Form (value : Nat) : Bytes := littleEndian 4 value
def u64Form (value : Nat) : Bytes := littleEndian 8 value
def boolForm (value : Bool) : Bytes := [if value then 1 else 0]

/-- `value` as the `u32` a count or length is written as. -/
def u32Count (value : Nat) : Except PersistenceError Nat :=
  if value ≤ u32Max then .ok value else .error .lengthOverflow

/-- `value` as the `u64` a byte length is written as. -/
def u64Len (value : Nat) : Except PersistenceError Nat :=
  if value ≤ u64Max then .ok value else .error .lengthOverflow

def pushString (value : String) : Except PersistenceError Bytes :=
  return u32Form (← u32Count value.utf8ByteSize) ++ utf8 value

theorem u32Count_ok {value count : Nat} (ok : u32Count value = .ok count) :
    count = value ∧ value ≤ u32Max := by
  unfold u32Count at ok
  split at ok
  case isTrue within =>
    cases ok
    exact ⟨rfl, within⟩
  case isFalse => cases ok

theorem u64Len_ok {value length : Nat} (ok : u64Len value = .ok length) :
    length = value ∧ value ≤ u64Max := by
  unfold u64Len at ok
  split at ok
  case isTrue within =>
    cases ok
    exact ⟨rfl, within⟩
  case isFalse => cases ok

/-! ### What a parse reads -/

/-- What was written is next, and its items and string bytes are within the limits. -/
structure Reader.Ahead (reader : Reader) (written rest : Bytes) (items strings : Nat) : Prop where
  within : reader.cursor ≤ reader.bytes.length
  unread : reader.unread = written ++ rest
  itemsFit : reader.collectionItems + items ≤ reader.itemBudget
  stringsFit : reader.stringBytes + strings ≤ maxStringBytes

/-- The reader after so many bytes, items and string bytes. -/
def Reader.advance (reader : Reader) (bytes items strings : Nat) : Reader :=
  { reader with
    cursor := reader.cursor + bytes
    collectionItems := reader.collectionItems + items
    stringBytes := reader.stringBytes + strings }

/-- A parse takes what was written off the front, whatever follows. -/
def Reads {α : Type} (parse : Parse α) (written : Bytes) (items strings : Nat) (value : α) : Prop :=
  ∀ (reader : Reader) (rest : Bytes), reader.Ahead written rest items strings →
    parse reader = .ok (value, reader.advance written.length items strings)

namespace Reader.Ahead

variable {reader : Reader} {first second rest : Bytes} {items more strings moreStrings : Nat}

theorem cursor_add_le (ahead : reader.Ahead first rest items strings) :
    reader.cursor + first.length ≤ reader.bytes.length := by
  have length := congrArg List.length ahead.unread
  rw [Reader.unread, List.length_drop, List.length_append] at length
  have within := ahead.within
  omega

theorem first_part
    (ahead : reader.Ahead (first ++ second) rest (items + more) (strings + moreStrings)) :
    reader.Ahead first (second ++ rest) items strings where
  within := ahead.within
  unread := by rw [ahead.unread, List.append_assoc]
  itemsFit := by have fit := ahead.itemsFit; omega
  stringsFit := by have fit := ahead.stringsFit; omega

theorem second_part
    (ahead : reader.Ahead (first ++ second) rest (items + more) (strings + moreStrings)) :
    (reader.advance first.length items strings).Ahead second rest more moreStrings where
  within := ahead.first_part.cursor_add_le
  unread := by
    show reader.bytes.drop (reader.cursor + first.length) = second ++ rest
    rw [← List.drop_drop, ← Reader.unread, ahead.first_part.unread, List.drop_left]
  itemsFit := by
    show reader.collectionItems + items + more ≤ reader.itemBudget
    have fit := ahead.itemsFit
    omega
  stringsFit := by
    show reader.stringBytes + strings + moreStrings ≤ maxStringBytes
    have fit := ahead.stringsFit
    omega

end Reader.Ahead

theorem reads_pure {α : Type} (value : α) : Reads (pure value : Parse α) [] 0 0 value :=
  fun _ _ _ => rfl

theorem Reads.append {α β : Type} {parse : Parse α} {next : α → Parse β} {first second : Bytes}
    {items more strings moreStrings : Nat} {value : α} {result : β}
    (one : Reads parse first items strings value)
    (two : Reads (next value) second more moreStrings result) :
    Reads (parse >>= next) (first ++ second) (items + more) (strings + moreStrings) result := by
  intro reader rest ahead
  have here := one reader (second ++ rest) ahead.first_part
  have there := two _ rest ahead.second_part
  show (parse reader).bind (fun pair => next pair.1 pair.2) = _
  rw [here]
  show next value _ = _
  rw [there, List.length_append]
  simp only [Reader.advance, Nat.add_assoc]

/-- One parse after another, where neither counts anything. -/
theorem Reads.append_free {α β : Type} {parse : Parse α} {next : α → Parse β} {first second : Bytes}
    {value : α} {result : β} (one : Reads parse first 0 0 value)
    (two : Reads (next value) second 0 0 result) : Reads (parse >>= next) (first ++ second) 0 0 result :=
  one.append two

/-- **One parse after another** reads the two written forms, one after the other. -/
theorem Reads.bind {α β : Type} {parse : Parse α} {next : α → Parse β}
    {written first second : Bytes} {total items more length strings moreStrings : Nat} {value : α}
    {result : β} (one : Reads parse first items strings value)
    (two : Reads (next value) second more moreStrings result)
    (bytes : written = first ++ second := by
      first | rfl | simp only [List.append_assoc, List.nil_append, List.append_nil])
    (count : total = items + more := by omega)
    (size : length = strings + moreStrings := by omega) :
    Reads (parse >>= next) written total length result := by
  rw [bytes, count, size]
  exact one.append two

/-- What is made of a value. -/
theorem Reads.map {α β : Type} {parse : Parse α} {next : α → Parse β} {written : Bytes}
    {items strings : Nat} {value : α} {result : β}
    (one : Reads parse written items strings value) (two : next value = pure result) :
    Reads (parse >>= next) written items strings result :=
  one.bind (two ▸ reads_pure result) (List.append_nil _).symm

/-- A step that reads nothing, before others. -/
theorem Reads.after {α β : Type} {step : Parse α} {next : α → Parse β} {written : Bytes}
    {items strings : Nat} {value : α} {result : β} (one : Reads step [] 0 0 value)
    (two : Reads (next value) written items strings result) :
    Reads (step >>= next) written items strings result :=
  one.bind two (List.nil_append _).symm

/-- **A parse of all there is** leaves the reader at the end. -/
theorem Reads.run_to_end {α : Type} {parse : Parse α} {written : Bytes}
    {items strings budget : Nat} {value : α} (reads : Reads parse written items strings value)
    (itemsFit : items ≤ budget) (stringsFit : strings ≤ maxStringBytes) :
    ∃ after, parse (.withItemBudget written budget) = .ok (value, after) ∧
      after.isFinished = true := by
  have ahead : (Reader.withItemBudget written budget).Ahead written [] items strings :=
    ⟨Nat.zero_le _, (List.append_nil _).symm, by rwa [Reader.withItemBudget, Nat.zero_add],
      by rwa [Reader.withItemBudget, Nat.zero_add]⟩
  refine ⟨_, reads _ [] ahead, ?_⟩
  show (0 + written.length == written.length) = true
  rw [Nat.zero_add]
  exact beq_self_eq_true _

theorem reads_ensure {holds : Prop} [Decidable holds] {error : PersistenceError} (true_ : holds) :
    Reads (ensure holds error) [] 0 0 () := by
  unfold ensure
  rw [if_pos true_]
  exact reads_pure ()

theorem reads_liftResult {α : Type} {result : Except PersistenceError α} {value : α}
    (ok : result = .ok value) : Reads (liftResult result) [] 0 0 value := by
  intro reader rest ahead
  rw [ok]
  rfl

theorem reads_take (written : Bytes) : Reads (take written.length) written 0 0 written := by
  intro reader rest ahead
  have front : (reader.bytes.drop reader.cursor).take written.length = written := by
    rw [← Reader.unread, ahead.unread, List.take_left]
  unfold take
  rw [if_pos ahead.cursor_add_le, front]
  rfl

theorem reads_take_of_length {written : Bytes} {length : Nat} (same : written.length = length) :
    Reads (take length) written 0 0 written :=
  same ▸ reads_take written

theorem reads_u8 (value : UInt8) : Reads u8 (u8Form value) 0 0 value :=
  (reads_take [value]).map rfl

theorem reads_number {width value : Nat} (fits : value < 256 ^ width) :
    Reads (do return ofLittleEndian (← take width)) (littleEndian width value) 0 0 value :=
  (reads_take_of_length (littleEndian_length width value)).map
    (congrArg pure (ofLittleEndian_littleEndian fits))

theorem reads_u16 {value : Nat} (fits : value < 2 ^ 16) : Reads u16 (u16Form value) 0 0 value :=
  reads_number fits

theorem reads_u32 {value : Nat} (fits : value ≤ u32Max) : Reads u32 (u32Form value) 0 0 value :=
  reads_number (Nat.lt_of_le_of_lt fits (by decide))

theorem reads_u64 {value : Nat} (fits : value ≤ u64Max) : Reads u64 (u64Form value) 0 0 value :=
  reads_number (Nat.lt_of_le_of_lt fits (by decide))

theorem reads_countItems {limit value : Nat} (fits : value ≤ limit) :
    Reads (countItems limit value) [] value 0 () := by
  intro reader rest ahead
  have within := ahead.itemsFit
  unfold countItems
  rw [if_neg (by omega)]
  rfl

theorem reads_countWithLimit {limit value : Nat} (fits : value ≤ u32Max) (within : value ≤ limit) :
    Reads (countWithLimit limit) (u32Form value) value 0 value := by
  unfold countWithLimit
  exact (reads_u32 fits).bind ((reads_countItems within).map rfl) (List.append_nil _).symm

theorem reads_countString {length : Nat} : Reads (countString length) [] 0 length () := by
  intro reader rest ahead
  have within := ahead.stringsFit
  unfold countString
  rw [if_neg (by omega)]
  rfl

theorem reads_string {value : String} (fits : value.utf8ByteSize ≤ u32Max) :
    Reads string (u32Form value.utf8ByteSize ++ utf8 value) value.utf8ByteSize value.utf8ByteSize
      value := by
  have content : Reads (do
      match String.fromUTF8? ⟨(← take value.utf8ByteSize).toArray⟩ with
      | some value => return value
      | none => refuse .invalidUtf8) (utf8 value) 0 0 value :=
    (reads_take_of_length (utf8_length value)).map (by rw [fromUTF8?_utf8])
  unfold string
  exact (reads_countWithLimit fits fits).bind
    (reads_countString.append content)

theorem reads_boolean (value : Bool) : Reads boolean (boolForm value) 0 0 value := by
  cases value <;> exact (reads_u8 _).map rfl

/-- A counted run of items, each written in its own way. -/
theorem reads_parseEach {α β : Type} {parse : Parse α} {written : β → Bytes}
    {items strings : β → Nat} {value : β → α} {entries : List β}
    (each : ∀ entry ∈ entries,
      Reads parse (written entry) (items entry) (strings entry) (value entry)) :
    Reads (parseEach parse entries.length) (entries.flatMap written) (entries.map items).sum
      (entries.map strings).sum (entries.map value) := by
  induction entries with
  | nil => exact reads_pure []
  | cons entry rest ih =>
    have first := each entry (List.mem_cons_self ..)
    have later := ih fun other member => each other (List.mem_cons_of_mem _ member)
    exact first.bind (later.map rfl) List.flatMap_cons List.sum_cons List.sum_cons

/-! ### What a parse refuses -/

/-- What was written is next, and the counters are within their limits so far. -/
structure Reader.Framed (reader : Reader) (written rest : Bytes) : Prop where
  within : reader.cursor ≤ reader.bytes.length
  unread : reader.unread = written ++ rest
  itemsFit : reader.collectionItems ≤ reader.itemBudget
  stringsFit : reader.stringBytes ≤ maxStringBytes

/-- There is room for so many items and string bytes. -/
def Reader.HasRoom (reader : Reader) (items strings : Nat) : Prop :=
  reader.collectionItems + items ≤ reader.itemBudget ∧ reader.stringBytes + strings ≤ maxStringBytes

/-- A parse reads what was written exactly where there is room for what it counts. -/
structure ReadsWithin {α : Type} (parse : Parse α) (written : Bytes) (items strings : Nat) (value : α) :
    Prop where
  reads : Reads parse written items strings value
  refuses : ∀ (reader : Reader) (rest : Bytes), reader.Framed written rest →
    ¬reader.HasRoom items strings → ∃ error, parse reader = .error error

theorem Reader.Framed.ahead {reader : Reader} {written rest : Bytes} {items strings : Nat}
    (framed : reader.Framed written rest) (room : reader.HasRoom items strings) :
    reader.Ahead written rest items strings :=
  ⟨framed.within, framed.unread, room.1, room.2⟩

/-- A parse that counts nothing refuses nothing. -/
theorem Reads.within {α : Type} {parse : Parse α} {written : Bytes} {value : α}
    (reads : Reads parse written 0 0 value) : ReadsWithin parse written 0 0 value :=
  ⟨reads, fun _ _ framed none_ => absurd ⟨framed.itemsFit, framed.stringsFit⟩ none_⟩

/-- **One parse after another** refuses what either of them does. -/
theorem ReadsWithin.bind {α β : Type} {parse : Parse α} {next : α → Parse β}
    {written first second : Bytes} {total items more length strings moreStrings : Nat} {value : α}
    {result : β} (one : ReadsWithin parse first items strings value)
    (two : ReadsWithin (next value) second more moreStrings result)
    (bytes : written = first ++ second := by
      first | rfl | simp only [List.append_assoc, List.nil_append, List.append_nil])
    (count : total = items + more := by omega)
    (size : length = strings + moreStrings := by omega) :
    ReadsWithin (parse >>= next) written total length result where
  reads := one.reads.bind two.reads bytes count size
  refuses := by
    intro reader rest framed full
    rw [bytes] at framed
    have firstFramed : reader.Framed first (second ++ rest) :=
      ⟨framed.within, by rw [framed.unread, List.append_assoc], framed.itemsFit, framed.stringsFit⟩
    show ∃ error, (parse reader).bind (fun pair => next pair.1 pair.2) = .error error
    by_cases room : reader.HasRoom items strings
    · have ahead := firstFramed.ahead room
      have later : (reader.advance first.length items strings).Framed second rest :=
        ⟨ahead.cursor_add_le, by
          show reader.bytes.drop (reader.cursor + first.length) = second ++ rest
          rw [← List.drop_drop, ← Reader.unread, ahead.unread, List.drop_left], room.1, room.2⟩
      have none_left : ¬(reader.advance first.length items strings).HasRoom more moreStrings := by
        intro both
        refine full ⟨?_, ?_⟩
        · rw [count, ← Nat.add_assoc]
          exact both.1
        · rw [size, ← Nat.add_assoc]
          exact both.2
      obtain ⟨error, refused⟩ := two.refuses _ rest later none_left
      rw [one.reads reader _ ahead]
      exact ⟨error, refused⟩
    · obtain ⟨error, refused⟩ := one.refuses reader _ firstFramed room
      rw [refused]
      exact ⟨error, rfl⟩

theorem ReadsWithin.append {α β : Type} {parse : Parse α} {next : α → Parse β} {first second : Bytes}
    {items more strings moreStrings : Nat} {value : α} {result : β}
    (one : ReadsWithin parse first items strings value)
    (two : ReadsWithin (next value) second more moreStrings result) :
    ReadsWithin (parse >>= next) (first ++ second) (items + more) (strings + moreStrings) result :=
  one.bind two rfl rfl rfl

/-- What is made of a value. -/
theorem ReadsWithin.map {α β : Type} {parse : Parse α} {next : α → Parse β} {written : Bytes}
    {items strings : Nat} {value : α} {result : β}
    (one : ReadsWithin parse written items strings value) (two : next value = pure result) :
    ReadsWithin (parse >>= next) written items strings result :=
  one.bind (two ▸ (reads_pure result).within) (List.append_nil _).symm

theorem countWithLimit_within {limit value : Nat} (fits : value ≤ u32Max) (under : value ≤ limit) :
    ReadsWithin (countWithLimit limit) (u32Form value) value 0 value := by
  have counts : ReadsWithin (countItems limit value) [] value 0 () := by
    refine ⟨reads_countItems under, fun reader rest framed full => ⟨.resourceLimit, ?_⟩⟩
    have exceeds : limit < value ∨ reader.itemBudget < reader.collectionItems + value :=
      Or.inr (Nat.lt_of_not_le fun room => full ⟨room, framed.stringsFit⟩)
    unfold countItems
    exact if_pos exceeds
  unfold countWithLimit
  exact (reads_u32 fits).within.bind (counts.map rfl) (List.append_nil _).symm

theorem string_within {value : String} (fits : value.utf8ByteSize ≤ u32Max) :
    ReadsWithin string (u32Form value.utf8ByteSize ++ utf8 value) value.utf8ByteSize
      value.utf8ByteSize value := by
  have counts : ReadsWithin (countString value.utf8ByteSize) [] 0 value.utf8ByteSize () := by
    refine ⟨reads_countString, fun reader rest framed full => ⟨.resourceLimit, ?_⟩⟩
    have exceeds : maxStringBytes < reader.stringBytes + value.utf8ByteSize :=
      Nat.lt_of_not_le fun room => full ⟨framed.itemsFit, room⟩
    unfold countString
    exact if_pos exceeds
  have content : Reads (do
      match String.fromUTF8? ⟨(← take value.utf8ByteSize).toArray⟩ with
      | some value => return value
      | none => refuse .invalidUtf8) (utf8 value) 0 0 value :=
    (reads_take_of_length (utf8_length value)).map (by rw [fromUTF8?_utf8])
  unfold string
  exact (countWithLimit_within fits fits).bind (counts.append content.within)

/-- A counted run of items, as far as there is room for them. -/
theorem parseEach_within {α β : Type} {parse : Parse α} {written : β → Bytes}
    {items strings : β → Nat} {value : β → α} {entries : List β}
    (each : ∀ entry ∈ entries,
      ReadsWithin parse (written entry) (items entry) (strings entry) (value entry)) :
    ReadsWithin (parseEach parse entries.length) (entries.flatMap written) (entries.map items).sum
      (entries.map strings).sum (entries.map value) := by
  induction entries with
  | nil => exact (reads_pure []).within
  | cons entry rest ih =>
    have first := each entry (List.mem_cons_self ..)
    have later := ih fun other member => each other (List.mem_cons_of_mem _ member)
    exact first.bind (later.map rfl) List.flatMap_cons List.sum_cons List.sum_cons

/-- **A parse of all there is**, where there is no room for it. -/
theorem ReadsWithin.run_refused {α : Type} {parse : Parse α} {written : Bytes}
    {items strings budget : Nat} {value : α} (within : ReadsWithin parse written items strings value)
    (full : ¬(items ≤ budget ∧ strings ≤ maxStringBytes)) :
    ∃ error, parse (.withItemBudget written budget) = .error error := by
  have framed : (Reader.withItemBudget written budget).Framed written [] :=
    ⟨Nat.zero_le _, (List.append_nil _).symm, Nat.zero_le _, Nat.zero_le _⟩
  refine within.refuses _ [] framed fun room => full ?_
  simpa only [Reader.HasRoom, Reader.withItemBudget, Nat.zero_add] using room

end Ketchup.Persistence
