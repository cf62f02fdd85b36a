/-
**A reader that gives its bytes in any split.**

`Source` is what `Read` promises and no more: a call gives some of the bytes that are left, at least one
where there are any and room for it, or it is interrupted, or it fails. How each call ends is in `turns`;
when they are used up each call gives what it has room for. `gather` reads until it has the bytes wanted or
there are no more, and in whatever split they come it has the same bytes (`gather_eq`).
-/

import Ketchup.Library.Text

namespace Ketchup

/-- How one call of a reader ends. -/
inductive Turn
  /-- It gives so many bytes and one, or as many as it has room for, or as there are. -/
  | upTo (more : Nat)
  | interrupted
  | failed (reason : String)
  deriving DecidableEq

structure Source where
  bytes : Bytes
  turns : List Turn
  deriving DecidableEq

inductive ReadError
  | interrupted
  | other (reason : String)
  deriving DecidableEq

namespace Source

/-- The source with bytes taken off the front. -/
def given (source : Source) (count : Nat) (turns : List Turn) : Source := ⟨source.bytes.drop count, turns⟩

/-- `read` into a buffer with some room. -/
def read (source : Source) (room : Nat) : Except ReadError Bytes × Source :=
  match source.turns with
  | [] => (.ok (source.bytes.take room), source.given room [])
  | .upTo more :: turns =>
    (.ok (source.bytes.take (min room (more + 1))), source.given (min room (more + 1)) turns)
  | .interrupted :: turns => (.error .interrupted, source.given 0 turns)
  | .failed reason :: turns => (.error (.other reason), source.given 0 turns)

/-- What can still happen: calls planned and bytes to give. -/
def left (source : Source) : Nat := source.turns.length + source.bytes.length

/-- No call fails. -/
def Steady (source : Source) : Prop := ∀ reason, Turn.failed reason ∉ source.turns

/-- What a call gives is taken off the front, and it gives something where it can. -/
theorem read_ok {source rest : Source} {room : Nat} {taken : Bytes} (is : source.read room = (.ok taken, rest)) :
    ∃ count ≤ room, taken = source.bytes.take count ∧ rest = source.given count source.turns.tail ∧
      (0 < room → source.bytes ≠ [] → 0 < count) := by
  obtain ⟨bytes, turns⟩ := source
  cases turns with
  | nil =>
    cases is
    exact ⟨room, Nat.le_refl _, rfl, rfl, fun some_ _ => some_⟩
  | cons turn turns =>
    cases turn with
    | upTo more =>
      cases is
      exact ⟨min room (more + 1), Nat.min_le_left .., rfl, rfl, fun some_ _ => by omega⟩
    | _ => cases is

theorem read_error {source rest : Source} {room : Nat} {error : ReadError}
    (is : source.read room = (.error error, rest)) :
    rest = source.given 0 source.turns.tail ∧ source.turns ≠ [] ∧
      ∀ reason, error = .other reason → Turn.failed reason ∈ source.turns := by
  obtain ⟨bytes, turns⟩ := source
  cases turns with
  | nil => cases is
  | cons turn turns =>
    cases turn with
    | upTo more => cases is
    | interrupted =>
      cases is
      exact ⟨rfl, List.cons_ne_nil _ _, fun reason is => by cases is⟩
    | failed reason =>
      cases is
      refine ⟨rfl, List.cons_ne_nil _ _, fun other is => ?_⟩
      cases is
      exact List.mem_cons_self

theorem left_given (source : Source) (count : Nat) : (source.given count source.turns.tail).left =
    (source.turns.length - 1) + (source.bytes.length - count) := by
  simp [left, given]

/-- Each call that gives something or is interrupted leaves less to happen. -/
theorem read_left {source rest : Source} {room : Nat} {result : Except ReadError Bytes}
    (is : source.read room = (result, rest)) (more : result ≠ .ok []) : rest.left < source.left := by
  cases result with
  | error error =>
    obtain ⟨rfl, some_, _⟩ := read_error is
    have := List.length_pos_iff.mpr some_
    rw [left_given, left]
    omega
  | ok taken =>
    obtain ⟨count, _, rfl, rfl, _⟩ := read_ok is
    have given : 0 < count := Nat.pos_of_ne_zero fun none_ => more (by rw [none_, List.take_zero])
    have some_ : 0 < source.bytes.length :=
      List.length_pos_iff.mpr fun none_ => more (by rw [none_, List.take_nil])
    rw [left_given, left]
    omega

theorem Steady.given {source : Source} (steady : source.Steady) (count : Nat) :
    (source.given count source.turns.tail).Steady :=
  fun reason there => steady reason (List.mem_of_mem_tail there)

/-- What is taken in two steps, the second for what the first left to want. -/
theorem take_two (bytes : Bytes) (count want : Nat) (room : count ≤ want) :
    bytes.take count ++ (bytes.drop count).take (want - (bytes.take count).length) = bytes.take want ∧
      (bytes.drop count).drop (want - (bytes.take count).length) = bytes.drop want := by
  by_cases enough : count ≤ bytes.length
  · have sum : want = count + (want - count) := by omega
    rw [List.length_take_of_le enough]
    constructor
    · conv => rhs; rw [sum, List.take_add]
    · rw [List.drop_drop, ← sum]
  · have all : bytes.drop count = [] := List.drop_eq_nil_of_le (by omega)
    have every (some : Nat) (more : count ≤ some) : bytes.take some = bytes :=
      List.take_of_length_le (by omega)
    rw [all, every count (Nat.le_refl _), every want room, List.take_nil, List.append_nil, List.drop_nil]
    exact ⟨rfl, (List.drop_eq_nil_of_le (by omega)).symm⟩

/-- Reads into a buffer until the bytes wanted are there or there are no more, an interrupted call again. It
never asks for more than is wanted; `space` says how much room the buffer has at each length. -/
def gather (space : Nat → Nat) (want : Nat) (source : Source) (got : Bytes) : Except String Bytes × Source :=
  if want ≤ got.length then (.ok got, source)
  else
    match _ : source.read (min (want - got.length) (space got.length + 1)) with
    | (.ok [], rest) => (.ok got, rest)
    | (.ok (byte :: more), rest) => gather space want rest (got ++ byte :: more)
    | (.error .interrupted, rest) => gather space want rest got
    | (.error (.other reason), rest) => (.error reason, rest)
termination_by source.left
decreasing_by
  all_goals exact read_left ‹_› (by simp)

/-- **In whatever split they come, the bytes are the same.** -/
theorem gather_eq (space : Nat → Nat) (want : Nat) (source : Source) (got : Bytes) (steady : source.Steady) :
    ∃ turns, gather space want source got =
        (.ok (got ++ source.bytes.take (want - got.length)), source.given (want - got.length) turns) ∧
      (source.given (want - got.length) turns).Steady := by
  fun_induction gather space want source got with
  | case1 source got enough =>
    refine ⟨source.turns, ?_, steady⟩
    simp [given, Nat.sub_eq_zero_of_le enough]
  | case2 source got some_ rest is =>
    obtain ⟨count, _, taken, rfl, gives⟩ := read_ok is
    have none_ : source.bytes = [] := by
      by_cases some : source.bytes = []
      · exact some
      · have count_ := gives (by omega) some
        exact (List.take_eq_nil_iff.mp taken.symm).resolve_left (by omega)
    exact ⟨source.turns.tail, by simp [given, none_], steady.given _⟩
  | case3 source got some_ byte more rest is ih =>
    obtain ⟨count, room, taken, rfl, _⟩ := read_ok is
    obtain ⟨turns, done, steady⟩ := ih (steady.given _)
    have both := take_two source.bytes count (want - got.length) (by omega)
    rw [taken] at done steady ⊢
    rw [List.length_append, Nat.sub_add_eq] at done steady
    have rest_ : (source.given count source.turns.tail).given (want - got.length - (source.bytes.take count).length)
        turns = source.given (want - got.length) turns := congrArg (Source.mk · turns) both.2
    rw [rest_] at done steady
    refine ⟨turns, ?_, steady⟩
    rw [done, List.append_assoc]
    exact congrArg (fun bytes => (Except.ok (got ++ bytes), _)) both.1
  | case4 source got some_ rest is ih =>
    obtain ⟨rfl, _, _⟩ := read_error is
    exact ih (steady.given 0)
  | case5 source got some_ reason rest is =>
    obtain ⟨_, _, there⟩ := read_error is
    exact absurd (there reason rfl) (steady reason)

end Source

end Ketchup
