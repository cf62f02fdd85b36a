/-
**Codes whose words need no end mark.**

In a `PrefixCode` a word is read back from any text it begins, so words written one after the other
can be taken apart again: `PrefixCode.append` composes two codes, `PrefixCode.sized` writes a length
before a text of any length, `PrefixCode.list` a length before that many words, and
`PrefixCode.tagged` writes which of two codes follows.
-/

import Ketchup.Library.Text
import Mathlib.Data.Set.Function

namespace Ketchup

variable {A α β : Type}

/-- Of the values that hold no two are written at the start of one text. -/
def PrefixCode (holds : α → Prop) (word : α → List A) : Prop :=
  ∀ ⦃first second : α⦄, holds first → holds second → ∀ ⦃rest rest' : List A⦄,
    word first ++ rest = word second ++ rest' → first = second ∧ rest = rest'

namespace PrefixCode

variable {holds : α → Prop} {word : α → List A} {holds' : β → Prop} {word' : β → List A}

theorem injOn (code : PrefixCode holds word) : Set.InjOn word {value | holds value} := by
  intro first one second two same
  have alone : word first ++ [] = word second ++ [] := by rw [same]
  exact (code one two alone).1

/-- Words of one length. -/
theorem of_length {length : Nat} (long : ∀ value, (word value).length = length)
    (injective : Set.InjOn word {value | holds value}) : PrefixCode holds word := by
  intro first second one two rest rest' same
  obtain ⟨words, rests⟩ := List.append_inj same ((long first).trans (long second).symm)
  exact ⟨injective one two words, rests⟩

/-- Another value that is written as a word of a code. -/
theorem comap (code : PrefixCode holds word) {part : β → α} (injective : part.Injective) :
    PrefixCode (fun value => holds (part value)) (fun value => word (part value)) := by
  intro first second one two rest rest' same
  obtain ⟨parts, rests⟩ := code one two same
  exact ⟨injective parts, rests⟩

/-- One word after the other. -/
theorem append (code : PrefixCode holds word) (code' : PrefixCode holds' word') :
    PrefixCode (fun pair : α × β => holds pair.1 ∧ holds' pair.2)
      (fun pair => word pair.1 ++ word' pair.2) := by
  intro first second one two rest rest' same
  rw [List.append_assoc, List.append_assoc] at same
  obtain ⟨firsts, same⟩ := code one.1 two.1 same
  obtain ⟨seconds, rests⟩ := code' one.2 two.2 same
  exact ⟨Prod.ext firsts seconds, rests⟩

/-- A text after its length. -/
theorem sized {within : Nat → Prop} {size : Nat → List A} (code : PrefixCode within size) :
    PrefixCode (fun text : List A => within text.length) (fun text => size text.length ++ text) := by
  intro first second one two rest rest' same
  rw [List.append_assoc, List.append_assoc] at same
  obtain ⟨lengths, same⟩ := code one two same
  exact List.append_inj same lengths

/-- As many words one after the other. -/
theorem flatMap_inj {first second : List α} (lengths : first.length = second.length)
    (apart : ∀ value ∈ first, ∀ other ∈ second, ∀ ⦃rest rest' : List A⦄,
      word value ++ rest = word other ++ rest' → value = other ∧ rest = rest')
    {rest rest' : List A} (same : first.flatMap word ++ rest = second.flatMap word ++ rest') :
    first = second ∧ rest = rest' := by
  induction first generalizing second with
  | nil =>
    obtain rfl := List.length_eq_zero_iff.mp lengths.symm
    exact ⟨rfl, same⟩
  | cons value values ih =>
    cases second with
    | nil => cases lengths
    | cons other others =>
      rw [List.flatMap_cons, List.flatMap_cons, List.append_assoc, List.append_assoc] at same
      obtain ⟨here, same⟩ := apart value List.mem_cons_self other List.mem_cons_self same
      obtain ⟨later, rests⟩ := ih (Nat.succ.inj lengths) (fun value member other listed =>
        apart value (List.mem_cons_of_mem _ member) other (List.mem_cons_of_mem _ listed)) same
      exact ⟨by rw [here, later], rests⟩

/-- Words after their number. -/
theorem list {within : Nat → Prop} {size : Nat → List A} (count : PrefixCode within size)
    (code : PrefixCode holds word) :
    PrefixCode (fun values : List α => within values.length ∧ ∀ value ∈ values, holds value)
      (fun values => size values.length ++ values.flatMap word) := by
  intro first second one two rest rest' same
  rw [List.append_assoc, List.append_assoc] at same
  obtain ⟨lengths, same⟩ := count one.1 two.1 same
  exact flatMap_inj lengths (fun value member other listed => code (one.2 value member) (two.2 other listed))
    same

/-- Which of two codes follows, and a word of it. -/
theorem tagged (code : PrefixCode holds word) (code' : PrefixCode holds' word') {left right : A}
    (apart : left ≠ right) :
    PrefixCode (Sum.elim holds holds')
      (Sum.elim (fun value => left :: word value) fun value => right :: word' value) := by
  intro first second one two rest rest' same
  cases first with
  | inl first =>
    cases second with
    | inl second =>
      obtain ⟨values, rests⟩ := code one two (List.cons.inj same).2
      exact ⟨congrArg Sum.inl values, rests⟩
    | inr second => exact absurd (List.cons.inj same).1 apart
  | inr first =>
    cases second with
    | inl second => exact absurd (List.cons.inj same).1.symm apart
    | inr second =>
      obtain ⟨values, rests⟩ := code' one two (List.cons.inj same).2
      exact ⟨congrArg Sum.inr values, rests⟩

/-- A value that is written without a word. -/
theorem unit : PrefixCode (fun _ : Unit => True) (fun _ => ([] : List A)) := fun _ _ _ _ _ _ same =>
  ⟨rfl, same⟩

end PrefixCode

/-! ### Numbers and texts -/

theorem u64Bytes_code : PrefixCode (· < 2 ^ 64) u64Bytes :=
  PrefixCode.of_length (fun value => littleEndian_length 8 value)
    fun _ one _ two same => littleEndian_inj one two same

theorem fieldBytes_code : PrefixCode (fun bytes : Bytes => bytes.length < 2 ^ 64) fieldBytes :=
  u64Bytes_code.sized

theorem stringBytes_code :
    PrefixCode (fun text : String => text.utf8ByteSize < 2 ^ 64) stringBytes :=
  fieldBytes_code.comap utf8_injective

end Ketchup
