/-
**Texts taken apart at a mark.**

`components` is `str::split` at a mark, `splitOnce` is `str::split_once`, `stripPrefix` and
`stripSuffix` are `str::strip_prefix` and `str::strip_suffix`. A text that was joined at the mark comes apart into the parts it was joined of
(`components_join`, `splitOnce_join`, `stripPrefix_append`).
-/

import Ketchup.Library.Text
import Mathlib.Data.List.TakeWhile

namespace Ketchup

/-- The parts of a text between the marks. -/
def components (mark : Char) (text : String) : List String :=
  (text.toList.splitOn mark).map String.ofList

/-- The text before the first mark and the text after it. -/
def splitOnce (mark : Char) (text : String) : Option (String × String) :=
  match text.toList.dropWhile (· ≠ mark) with
  | [] => none
  | _ :: rest => some (String.ofList (text.toList.takeWhile (· ≠ mark)), String.ofList rest)

/-- What follows a prefix of a text. -/
def stripPrefix (start text : String) : Option String :=
  if start.toList.isPrefixOf text.toList then
    some (String.ofList (text.toList.drop start.toList.length))
  else none

/-- What comes before a suffix of a text. -/
def stripSuffix (finish text : String) : Option String :=
  if finish.toList.isSuffixOf text.toList then
    some (String.ofList (text.toList.take (text.toList.length - finish.toList.length)))
  else none

section Joined

variable {mark : Char} {first second : String}

/-- **A text joined at a mark** that its first part does not hold comes apart there. -/
theorem components_join (apart : mark ∉ first.toList) :
    components mark (first ++ String.singleton mark ++ second) =
      first :: components mark second := by
  have joined : (first ++ String.singleton mark ++ second).toList =
      first.toList ++ mark :: second.toList := by
    rw [String.toList_append, String.toList_append, String.toList_singleton, List.append_assoc]
    rfl
  have never : ∀ other ∈ first.toList, (other == mark) = false := fun other member =>
    beq_false_of_ne fun same => apart (same ▸ member)
  have isMark : (fun other => other == mark) mark = true := beq_self_eq_true mark
  unfold components List.splitOn
  rw [joined, List.splitOnP_append_cons (p := (· == mark)) _ _ isMark, List.splitOnP_eq_singleton never,
    List.singleton_append, List.map_cons, String.ofList_toList]

/-- A text without the mark is its only part. -/
theorem components_whole (apart : mark ∉ first.toList) : components mark first = [first] := by
  have never : ∀ other ∈ first.toList, (other == mark) = false := fun other member =>
    beq_false_of_ne fun same => apart (same ▸ member)
  unfold components List.splitOn
  rw [List.splitOnP_eq_singleton never, List.map_singleton, String.ofList_toList]

theorem splitOnce_join (apart : mark ∉ first.toList) :
    splitOnce mark (first ++ String.singleton mark ++ second) = some (first, second) := by
  have joined : (first ++ String.singleton mark ++ second).toList =
      first.toList ++ mark :: second.toList := by
    rw [String.toList_append, String.toList_append, String.toList_singleton, List.append_assoc]
    rfl
  have before : ∀ other ∈ first.toList, decide (other ≠ mark) = true := fun other member =>
    decide_eq_true fun same => apart (same ▸ member)
  unfold splitOnce
  rw [joined, List.dropWhile_append_of_pos before, List.takeWhile_append_of_pos before]
  simp

theorem splitOnce_eq_some {text : String} (apart : splitOnce mark text = some (first, second)) :
    text = first ++ String.singleton mark ++ second ∧ mark ∉ first.toList := by
  unfold splitOnce at apart
  split at apart
  · cases apart
  · next stop rest is =>
    obtain ⟨rfl, rfl⟩ := Prod.mk.inj (Option.some.inj apart)
    have isMark : stop = mark := by
      have head := List.head?_dropWhile_not (fun other => decide (other ≠ mark)) text.toList
      rw [is] at head
      simpa using head
    constructor
    · refine String.toList_injective ?_
      rw [String.toList_append, String.toList_append, String.toList_singleton, String.toList_ofList, String.toList_ofList,
        List.append_assoc, List.singleton_append, ← isMark, ← is, isMark]
      exact (List.takeWhile_append_dropWhile).symm
    · rw [String.toList_ofList]
      intro there
      simpa using List.mem_takeWhile_imp there

theorem stripPrefix_append (start text : String) : stripPrefix start (start ++ text) = some text := by
  unfold stripPrefix
  rw [String.toList_append, if_pos (by simp), List.drop_left, String.ofList_toList]

theorem stripPrefix_eq_some {start text rest : String} (found : stripPrefix start text = some rest) :
    text = start ++ rest := by
  unfold stripPrefix at found
  split at found
  case isTrue isPrefix =>
    obtain ⟨others, same⟩ := List.isPrefixOf_iff_prefix.mp isPrefix
    cases found
    rw [← same, List.drop_left]
    exact String.toList_injective (by rw [String.toList_append, String.toList_ofList, same])
  case isFalse => cases found

theorem stripSuffix_append (text finish : String) : stripSuffix finish (text ++ finish) = some text := by
  unfold stripSuffix
  have before : text.toList.length + finish.toList.length - finish.toList.length =
    text.toList.length := Nat.add_sub_cancel ..
  rw [String.toList_append, if_pos (by simp), List.length_append, before, List.take_left,
    String.ofList_toList]

theorem stripSuffix_eq_some {text finish rest : String} (found : stripSuffix finish text = some rest) :
    text = rest ++ finish := by
  unfold stripSuffix at found
  split at found
  case isTrue isSuffix =>
    obtain ⟨others, same⟩ := List.isSuffixOf_iff_suffix.mp isSuffix
    cases found
    have before : others.length + finish.toList.length - finish.toList.length = others.length :=
      Nat.add_sub_cancel ..
    rw [← same, List.length_append, before, List.take_left]
    exact String.toList_injective (by rw [String.toList_append, String.toList_ofList, same])
  case isFalse => cases found

end Joined

end Ketchup
