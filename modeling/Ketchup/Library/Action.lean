/-
**Calls through `&mut self`.**

An `Action` takes a state to an outcome and the state it leaves, which it leaves also where it
fails. `ReadsOnly` actions leave the state as it is, `Atomic` ones do so when they end in an error,
and `Steps` says which changes an action goes through, whatever it ends in. Each has rules for
sequencing, so that a property of a call follows from those of its steps:

* `ReadsOnly.bind`, `ReadsOnly.atomic`, `ReadsOnly.steps`;
* `Atomic.bind_of_readsOnly`, `Atomic.bind_of_total`;
* `Steps.bind`;
* `bind_run_ok`, the steps of a call that returned a value.
-/

import Ketchup.Library.Outcome
import Mathlib.Logic.Relation

namespace Ketchup

/-- A call on a state: what it ends in and the state it leaves. -/
def Action (σ ε α : Type) := σ → Outcome ε α × σ

namespace Action

open Relation

variable {σ ε ε' α β : Type}

instance : Monad (Action σ ε) where
  pure value := fun state => (.ok value, state)
  bind first next := fun state =>
    match first state with
    | (.ok value, after) => next value after
    | (.error fault, after) => (.error fault, after)

def read : Action σ ε σ := fun state => (.ok state, state)

def modify (change : σ → σ) : Action σ ε Unit := fun state => (.ok (), change state)

/-- A computation that only reads values. -/
def lift (outcome : Outcome ε α) : Action σ ε α := fun state => (outcome, state)

def throw (error : ε) : Action σ ε α := lift (fail error)

/-- A call whose error becomes one of the caller's. -/
def mapError (convert : ε → ε') (action : Action σ ε α) : Action σ ε' α := fun state =>
  match action state with
  | (.ok value, after) => (.ok value, after)
  | (.error fault, after) => (.error (fault.convert convert), after)

/-- Goes on with the value or, after an error, with that; a panic goes up. -/
def handle (action : Action σ ε α) (next : α → Action σ ε' β) (recover : ε → Action σ ε' β) :
    Action σ ε' β := fun state =>
  match action state with
  | (.ok value, after) => next value after
  | (.error (.error error), after) => recover error after
  | (.error .panic, after) => (.error .panic, after)
  | (.error .hang, after) => (.error .hang, after)

/-! ### What one step does -/

@[simp]
theorem pure_run (value : α) (state : σ) : (pure value : Action σ ε α) state = (.ok value, state) :=
  rfl

@[simp]
theorem read_run (state : σ) : (read : Action σ ε σ) state = (.ok state, state) := rfl

@[simp]
theorem modify_run (change : σ → σ) (state : σ) :
    (modify change : Action σ ε Unit) state = (.ok (), change state) := rfl

@[simp]
theorem lift_run (outcome : Outcome ε α) (state : σ) :
    (lift outcome : Action σ ε α) state = (outcome, state) := rfl

@[simp]
theorem throw_run (error : ε) (state : σ) :
    (throw error : Action σ ε α) state = (.error (.error error), state) := rfl

theorem bind_run (first : Action σ ε α) (next : α → Action σ ε β) (state : σ) :
    (first >>= next) state =
      match first state with
      | (.ok value, after) => next value after
      | (.error fault, after) => (.error fault, after) := rfl

/-- **A call that returned a value returned one from each of its steps.** -/
theorem bind_run_ok {first : Action σ ε α} {next : α → Action σ ε β} {state : σ} {result : β}
    (ok : ((first >>= next) state).1 = .ok result) :
    ∃ value after, first state = (.ok value, after) ∧ (next value after).1 = .ok result ∧
      ((first >>= next) state).2 = (next value after).2 := by
  rw [bind_run] at ok ⊢
  rcases run : first state with ⟨fault | value, after⟩
  · rw [run] at ok
    cases ok
  · rw [run] at ok
    exact ⟨value, after, rfl, ok, rfl⟩

theorem mapError_run_ok {convert : ε → ε'} {action : Action σ ε α} {state after : σ} {value : α}
    (ok : action.mapError convert state = (.ok value, after)) :
    action state = (.ok value, after) := by
  unfold mapError at ok
  rcases run : action state with ⟨fault | result, final⟩
  · rw [run] at ok
    cases ok
  · rw [run] at ok
    cases ok
    rfl

theorem mapError_run_state (convert : ε → ε') (action : Action σ ε α) (state : σ) :
    (action.mapError convert state).2 = (action state).2 := by
  unfold mapError
  rcases action state with ⟨fault | value, after⟩ <;> rfl

/-! ### Actions that only read -/

def ReadsOnly (action : Action σ ε α) : Prop := ∀ state, (action state).2 = state

theorem readsOnly_pure (value : α) : (pure value : Action σ ε α).ReadsOnly := fun _ => rfl

theorem readsOnly_read : (read : Action σ ε σ).ReadsOnly := fun _ => rfl

theorem readsOnly_lift (outcome : Outcome ε α) : (lift outcome : Action σ ε α).ReadsOnly :=
  fun _ => rfl

theorem readsOnly_throw (error : ε) : (throw error : Action σ ε α).ReadsOnly := fun _ => rfl

theorem ReadsOnly.bind {first : Action σ ε α} {next : α → Action σ ε β} (reads : first.ReadsOnly)
    (rest : ∀ value, (next value).ReadsOnly) : (first >>= next).ReadsOnly := by
  intro state
  have same := reads state
  rw [bind_run]
  rcases run : first state with ⟨fault | value, after⟩
  · rw [run] at same
    exact same
  · rw [run] at same
    exact (rest value after).trans same

/-! ### Atomic actions -/

/-- An error leaves the state as it was. -/
def Atomic (action : Action σ ε α) : Prop :=
  ∀ state error, (action state).1 = .error (.error error) → (action state).2 = state

/-- An action that ends in no error. -/
def Total (action : Action σ ε α) : Prop :=
  ∀ state error, (action state).1 ≠ .error (.error error)

theorem total_pure (value : α) : (pure value : Action σ ε α).Total := nofun

theorem total_modify (change : σ → σ) : (modify change : Action σ ε Unit).Total := nofun

theorem total_read : (read : Action σ ε σ).Total := nofun

theorem Total.bind {first : Action σ ε α} {next : α → Action σ ε β} (total : first.Total)
    (rest : ∀ value, (next value).Total) : (first >>= next).Total := by
  intro state error
  rw [bind_run]
  have never := total state error
  rcases run : first state with ⟨fault | value, after⟩
  · rw [run] at never
    exact fun failed => never (congrArg Except.error (Except.error.inj failed))
  · exact rest value after error

theorem Total.atomic {action : Action σ ε α} (total : action.Total) : action.Atomic :=
  fun state error failed => absurd failed (total state error)

theorem ReadsOnly.atomic {action : Action σ ε α} (reads : action.ReadsOnly) : action.Atomic :=
  fun state _ _ => reads state

/-- What comes before the first change may fail. -/
theorem Atomic.bind_of_readsOnly {first : Action σ ε α} {next : α → Action σ ε β}
    (reads : first.ReadsOnly) (rest : ∀ value, (next value).Atomic) : (first >>= next).Atomic := by
  intro state error
  have same := reads state
  rw [bind_run]
  rcases run : first state with ⟨fault | value, after⟩
  · rw [run] at same
    exact fun _ => same
  · rw [run] at same
    obtain rfl : after = state := same
    exact rest value after error

/-- What comes after an atomic step must not fail. -/
theorem Atomic.bind_of_total {first : Action σ ε α} {next : α → Action σ ε β}
    (atomic : first.Atomic) (rest : ∀ value, (next value).Total) : (first >>= next).Atomic := by
  intro state error
  have kept := atomic state error
  rw [bind_run]
  rcases run : first state with ⟨fault | value, after⟩
  · rw [run] at kept
    exact fun failed => kept (congrArg Except.error (Except.error.inj failed))
  · exact fun failed => absurd failed (rest value after error)

theorem Atomic.mapError {convert : ε → ε'} {action : Action σ ε α} (atomic : action.Atomic) :
    (action.mapError convert).Atomic := by
  intro state error
  have kept := atomic state
  rw [mapError_run_state]
  unfold Action.mapError
  rcases run : action state with ⟨(reason | _ | _) | value, after⟩
  · rw [run] at kept
    exact fun _ => kept reason rfl
  · exact nofun
  · exact nofun
  · exact nofun

theorem Atomic.ite {condition : Prop} [Decidable condition] {yes no : Action σ ε α}
    (first : yes.Atomic) (second : no.Atomic) : (if condition then yes else no).Atomic := by
  split
  · exact first
  · exact second

/-! ### Changes of the state -/

/-- Whatever the action ends in, it went through changes of a kind. -/
def Steps (change : σ → σ → Prop) (action : Action σ ε α) : Prop :=
  ∀ state, ReflTransGen change state (action state).2

variable {change : σ → σ → Prop}

theorem ReadsOnly.steps {action : Action σ ε α} (reads : action.ReadsOnly) :
    action.Steps change := fun state => by
  rw [reads state]

theorem steps_modify {next : σ → σ} (step : ∀ state, change state (next state)) :
    (modify next : Action σ ε Unit).Steps change := fun state => .single (step state)

theorem Steps.bind {first : Action σ ε α} {next : α → Action σ ε β}
    (steps : first.Steps change) (rest : ∀ value, (next value).Steps change) :
    (first >>= next).Steps change := by
  intro state
  have before := steps state
  rw [bind_run]
  rcases run : first state with ⟨fault | value, after⟩
  · rw [run] at before
    exact before
  · rw [run] at before
    exact before.trans (rest value after)

theorem Steps.ite {condition : Prop} [Decidable condition] {yes no : Action σ ε α}
    (first : yes.Steps change) (second : no.Steps change) :
    (if condition then yes else no).Steps change := by
  split
  · exact first
  · exact second

end Action

end Ketchup
