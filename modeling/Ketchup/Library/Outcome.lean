/-
**What a call can end in.**

A function of the source returns a value, returns an error, panics, or never returns. `Outcome`
has a case for each, so that a lookup that can miss (`index`) and a loop that may not end are part
of a model and can be proved absent, or found.
-/

import Ketchup.Library.Ordered

namespace Ketchup

inductive Fault (ε : Type)
  /-- `Err`. -/
  | error (error : ε)
  | panic
  /-- The call never returns. -/
  | hang
  deriving DecidableEq

abbrev Outcome (ε α : Type) := Except (Fault ε) α

def fail {ε α : Type} (error : ε) : Outcome ε α := .error (.error error)

/-- A result whose error becomes one of the caller's. -/
def attempt {ε ε' α : Type} (convert : ε → ε') : Except ε α → Outcome ε' α
  | .ok value => .ok value
  | .error error => fail (convert error)

/-- An outcome whose error becomes one of the caller's. -/
def Fault.convert {ε ε' : Type} (convert : ε → ε') : Fault ε → Fault ε'
  | .error reason => .error (convert reason)
  | .panic => .panic
  | .hang => .hang

/-- `map[&key]`: a missing key panics. -/
def index {ε K V : Type} [Ord K] [Std.TransOrd K] (map : BTreeMap K V) (key : K) : Outcome ε V :=
  match map[key]? with
  | some value => .ok value
  | none => .error .panic

/-- `ok_or`. -/
def okOr {ε α : Type} (value : Option α) (error : ε) : Outcome ε α := value.elim (fail error) .ok

theorem okOr_ok_iff {ε α : Type} {value : Option α} {error : ε} {result : α} :
    okOr value error = .ok result ↔ value = some result := by
  cases value with
  | none => exact ⟨nofun, nofun⟩
  | some inner =>
    exact ⟨fun ok => congrArg some (Except.ok.inj ok), fun same => congrArg Except.ok (Option.some.inj same)⟩

/-- Fails where something holds that must not. -/
def refuseIf {ε : Type} (fails : Prop) [Decidable fails] (error : ε) : Except ε Unit :=
  if fails then .error error else .ok ()

theorem refuseIf_ok {ε : Type} {fails : Prop} [Decidable fails] {error : ε} :
    refuseIf fails error = .ok () ↔ ¬fails := by
  unfold refuseIf
  by_cases holds : fails
  · rw [if_pos holds]
    exact ⟨nofun, fun never => absurd holds never⟩
  · rw [if_neg holds]
    exact ⟨fun _ => holds, fun _ => rfl⟩

theorem refuseIf_error {ε : Type} {fails : Prop} [Decidable fails] {error other : ε}
    (failed : refuseIf fails error = .error other) : other = error := by
  unfold refuseIf at failed
  split at failed
  case isTrue => exact (Except.error.inj failed).symm
  case isFalse => cases failed

section Bind

variable {ε α β : Type}

theorem bind_ok {first : Except ε α} {next : α → Except ε β} {result : β}
    (ok : (first >>= next) = .ok result) : ∃ value, first = .ok value ∧ next value = .ok result := by
  cases first with
  | error => cases ok
  | ok value => exact ⟨value, rfl, ok⟩

theorem bind_ok_iff {first : Except ε α} {next : α → Except ε β} {result : β} :
    (first >>= next) = .ok result ↔ ∃ value, first = .ok value ∧ next value = .ok result := by
  refine ⟨bind_ok, fun both => ?_⟩
  obtain ⟨value, one, two⟩ := both
  rw [one]
  exact two

theorem bind_eq_of_ok {first : Except ε α} {next : α → Except ε β} {value : α}
    (ok : first = .ok value) : (first >>= next) = next value := by
  rw [ok]
  rfl

theorem bind_eq_of_error {first : Except ε α} {next : α → Except ε β} {error : ε}
    (failed : first = .error error) : (first >>= next) = .error error := by
  rw [failed]
  rfl

/-- A check before the rest. -/
theorem check_ok_iff {check : Except ε Unit} {next : Except ε β} {result : β} :
    (check >>= fun _ => next) = .ok result ↔ check = .ok () ∧ next = .ok result := by
  rw [bind_ok_iff]
  exact ⟨fun both => ⟨both.choose_spec.1, both.choose_spec.2⟩, fun both => ⟨(), both⟩⟩

theorem attempt_ok {ε' : Type} {convert : ε → ε'} {result : Except ε α} {value : α}
    (ok : attempt convert result = .ok value) : result = .ok value := by
  cases result with
  | error => cases ok
  | ok => exact congrArg Except.ok (Except.ok.inj ok)

theorem ok_of_toOption {result : Except ε α} {value : α} (known : result.toOption = some value) :
    result = .ok value := by
  cases result with
  | error => cases known
  | ok => exact congrArg Except.ok (Option.some.inj known)

theorem mapError_ok {ε' : Type} {convert : ε → ε'} {result : Except ε α} {value : α}
    (ok : result.mapError convert = .ok value) : result = .ok value := by
  cases result with
  | error => cases ok
  | ok => exact congrArg Except.ok (Except.ok.inj ok)

theorem index_ok {K V : Type} [Ord K] [Std.TransOrd K] {map : BTreeMap K V} {key : K} {value : V}
    (ok : (index map key : Outcome ε V) = .ok value) : map[key]? = some value := by
  unfold index at ok
  split at ok
  case h_1 found => rw [found, Except.ok.inj ok]
  case h_2 => cases ok

theorem index_found {K V : Type} [Ord K] [Std.TransOrd K] {map : BTreeMap K V} {key : K} {value : V}
    (found : map[key]? = some value) : (index map key : Outcome ε V) = .ok value := by
  rw [index, found]

/-- A call for each of a list, all of which succeed. -/
theorem mapM_ok_of_each {call : α → Except ε β} {result : α → β} {list : List α}
    (each : ∀ next ∈ list, call next = .ok (result next)) :
    list.mapM call = .ok (list.map result) := by
  induction list with
  | nil => rfl
  | cons next rest ih =>
    rw [List.mapM_cons, each next (List.mem_cons_self ..),
      ih fun other member => each other (List.mem_cons_of_mem _ member)]
    rfl

/-- Calls that together succeed succeed each. -/
theorem each_ok_of_mapM {call : α → Except ε β} {list : List α} {results : List β}
    (ok : list.mapM call = .ok results) {next : α} (member : next ∈ list) :
    ∃ result, call next = .ok result := by
  induction list generalizing results with
  | nil => cases member
  | cons first rest ih =>
    rw [List.mapM_cons] at ok
    obtain ⟨result, here, ok⟩ := bind_ok ok
    obtain ⟨others, later, _⟩ := bind_ok ok
    rcases List.mem_cons.mp member with rfl | member
    · exact ⟨result, here⟩
    · exact ih later member

/-- Each result is of a call of the list. -/
theorem exists_of_mem_mapM {call : α → Except ε β} {list : List α} {results : List β}
    (ok : list.mapM call = .ok results) {result : β} (member : result ∈ results) :
    ∃ next ∈ list, call next = .ok result := by
  induction list generalizing results with
  | nil =>
    obtain rfl := Except.ok.inj ok
    cases member
  | cons first rest ih =>
    rw [List.mapM_cons] at ok
    obtain ⟨here, isHere, ok⟩ := bind_ok ok
    obtain ⟨others, later, ok⟩ := bind_ok ok
    obtain rfl := Except.ok.inj ok
    rcases List.mem_cons.mp member with rfl | member
    · exact ⟨first, List.mem_cons_self .., isHere⟩
    · obtain ⟨next, isIn, is⟩ := ih later member
      exact ⟨next, List.mem_cons_of_mem _ isIn, is⟩

/-- The results are those of the calls of the list. -/
theorem mem_of_mapM {call : α → Except ε β} {list : List α} {results : List β}
    (ok : list.mapM call = .ok results) {result : β} :
    result ∈ results ↔ ∃ next ∈ list, call next = .ok result := by
  refine ⟨exists_of_mem_mapM ok, fun called => ?_⟩
  induction list generalizing results with
  | nil => exact absurd called (by simp)
  | cons first rest ih =>
    rw [List.mapM_cons] at ok
    obtain ⟨one, isOne, ok⟩ := bind_ok ok
    obtain ⟨others, later, ok⟩ := bind_ok ok
    obtain rfl := Except.ok.inj ok
    obtain ⟨next, member, here⟩ := called
    rcases List.mem_cons.mp member with rfl | member
    · rw [Except.ok.inj (here.symm.trans isOne)]
      exact List.mem_cons_self ..
    · exact List.mem_cons_of_mem _ (ih later ⟨next, member, here⟩)

/-- Calls that succeed each succeed together. -/
theorem mapM_total {call : α → Except ε β} {list : List α}
    (each : ∀ next ∈ list, ∃ result, call next = .ok result) :
    ∃ results, list.mapM call = .ok results := by
  induction list with
  | nil => exact ⟨[], rfl⟩
  | cons first rest ih =>
    obtain ⟨one, isOne⟩ := each first (List.mem_cons_self ..)
    obtain ⟨others, later⟩ := ih fun next member => each next (List.mem_cons_of_mem _ member)
    refine ⟨one :: others, ?_⟩
    rw [List.mapM_cons, bind_eq_of_ok isOne, bind_eq_of_ok later]
    rfl

/-- Steps that together succeed succeed each, from some state. -/
theorem each_ok_of_foldlM {step : β → α → Except ε β} {list : List α} {before after : β}
    (ok : list.foldlM step before = .ok after) {next : α} (member : next ∈ list) :
    ∃ here there, step here next = .ok there := by
  induction list generalizing before with
  | nil => cases member
  | cons first rest ih =>
    rw [List.foldlM_cons] at ok
    obtain ⟨there, one, ok⟩ := bind_ok ok
    rcases List.mem_cons.mp member with rfl | member
    · exact ⟨before, there, one⟩
    · exact ih ok member

/-- Steps seen through a view fail and succeed together with steps on the view. -/
theorem foldlM_view {γ : Type} (step : β → α → Except ε β) (viewed : γ → α → Option γ) {view : β → γ}
    (each : ∀ state next, (step state next).toOption.map view = viewed (view state) next) (before : β)
    (list : List α) :
    (list.foldlM step before).toOption.map view = list.foldlM viewed (view before) := by
  induction list generalizing before with
  | nil => rfl
  | cons next rest ih =>
    rw [List.foldlM_cons, List.foldlM_cons, ← each before next]
    cases step before next with
    | error => rfl
    | ok after => exact ih after

/-- Checks of a list succeed together exactly when each does. -/
theorem forM_ok_iff {check : α → Except ε PUnit} {list : List α} :
    list.forM check = .ok () ↔ ∀ next ∈ list, check next = .ok () := by
  induction list with
  | nil => exact iff_of_true rfl nofun
  | cons next rest ih =>
    rw [List.forall_mem_cons, ← ih]
    show (check next).bind _ = _ ↔ _
    cases check next with
    | error error => exact ⟨nofun, fun both => nomatch both.1⟩
    | ok => exact ⟨fun later => ⟨rfl, later⟩, fun both => both.2⟩

/-- Checks of a list fail with the error of one of them. -/
theorem forM_error {check : α → Except ε PUnit} {list : List α} {error : ε}
    (failed : list.forM check = .error error) : ∃ element ∈ list, check element = .error error := by
  induction list with
  | nil => cases failed
  | cons next rest ih =>
    replace failed : (check next).bind (fun _ => rest.forM check) = .error error := failed
    cases first : check next with
    | error other =>
      rw [first] at failed
      cases failed
      exact ⟨next, List.mem_cons_self, first⟩
    | ok value =>
      rw [first] at failed
      obtain ⟨element, there, is⟩ := ih failed
      exact ⟨element, List.mem_cons_of_mem _ there, is⟩

end Bind

end Ketchup
