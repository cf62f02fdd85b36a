/-
**Search on finitely many items.**

`search` takes items from a queue and puts what they lead to at its end, `explore` takes them from a stack
and puts what they lead to on it. Each finds what can be reached, and nothing else (`mem_search_iff`,
`mem_explore_iff`).
-/

import Ketchup.Library.Joints
import Mathlib.Logic.Relation

namespace Ketchup

open Relation

variable {I : Type} [DecidableEq I] {leads : I → List I} {found : Finset I} {queue : List I}

/-- The items found from a queue, after those of `found`. -/
def search [Fintype I] (leads : I → List I) (found : Finset I) : List I → Finset I
  | [] => found
  | item :: queue =>
    if item ∈ found then search leads found queue else search leads (insert item found) (queue ++ leads item)
termination_by queue => (foundᶜ.card, queue.length)
decreasing_by
  · exact Prod.Lex.right _ (Nat.lt_succ_self _)
  · exact Prod.Lex.left _ _ (Joints.compl_insert_card_lt ‹_›)

/-- The items found from a stack, after those of `found`. -/
def explore [Fintype I] (leads : I → List I) (found : Finset I) : List I → Finset I
  | [] => found
  | item :: stack =>
    if item ∈ found then explore leads found stack else explore leads (insert item found) ((leads item).reverse ++ stack)
termination_by stack => (foundᶜ.card, stack.length)
decreasing_by
  · exact Prod.Lex.right _ (Nat.lt_succ_self _)
  · exact Prod.Lex.left _ _ (Joints.compl_insert_card_lt ‹_›)

variable [Fintype I]

/-- What a search finds holds whatever is kept from an item to those it leads to. -/
theorem search_holds {kept : I → Prop} (closed : ∀ item, kept item → ∀ other ∈ leads item, kept other)
    (before : ∀ item ∈ found, kept item) (queued : ∀ item ∈ queue, kept item) :
    ∀ item ∈ search leads found queue, kept item := by
  induction found, queue using search.induct leads with
  | case1 found =>
    rw [search]
    exact before
  | case2 found item queue inside ih =>
    rw [search, if_pos inside]
    exact ih before fun other later => queued other (List.mem_cons_of_mem _ later)
  | case3 found item queue fresh ih =>
    rw [search, if_neg fresh]
    have its := queued item List.mem_cons_self
    refine ih ?_ ?_
    · intro other inside
      rcases Finset.mem_insert.mp inside with rfl | held
      · exact its
      · exact before other held
    · intro other inside
      rcases List.mem_append.mp inside with later | led
      · exact queued other (List.mem_cons_of_mem _ later)
      · exact closed item its other led

/-- A search keeps what was found, finds what is queued and follows each item it has found. -/
theorem search_follows (followed : ∀ item ∈ found, ∀ other ∈ leads item, other ∈ found ∨ other ∈ queue) :
    (∀ item ∈ found, item ∈ search leads found queue) ∧ (∀ item ∈ queue, item ∈ search leads found queue) ∧
      ∀ item ∈ search leads found queue, ∀ other ∈ leads item, other ∈ search leads found queue := by
  induction found, queue using search.induct leads with
  | case1 found =>
    rw [search]
    refine ⟨fun _ => id, by simp, fun item inside other led => ?_⟩
    exact (followed item inside other led).resolve_right List.not_mem_nil
  | case2 found item queue inside ih =>
    rw [search, if_pos inside]
    have rest : ∀ each ∈ found, ∀ other ∈ leads each, other ∈ found ∨ other ∈ queue := by
      intro each held other led
      rcases followed each held other led with there | waits
      · exact Or.inl there
      · rcases List.mem_cons.mp waits with rfl | later
        · exact Or.inl inside
        · exact Or.inr later
    obtain ⟨keeps, finds, follows⟩ := ih rest
    refine ⟨keeps, ?_, follows⟩
    intro other waits
    rcases List.mem_cons.mp waits with rfl | later
    · exact keeps _ inside
    · exact finds other later
  | case3 found item queue fresh ih =>
    rw [search, if_neg fresh]
    have rest : ∀ each ∈ insert item found, ∀ other ∈ leads each,
        other ∈ insert item found ∨ other ∈ queue ++ leads item := by
      intro each held other led
      rcases Finset.mem_insert.mp held with rfl | before
      · exact Or.inr (List.mem_append.mpr (Or.inr led))
      · rcases followed each before other led with there | waits
        · exact Or.inl (Finset.mem_insert_of_mem there)
        · rcases List.mem_cons.mp waits with rfl | later
          · exact Or.inl (Finset.mem_insert_self ..)
          · exact Or.inr (List.mem_append.mpr (Or.inl later))
    obtain ⟨keeps, finds, follows⟩ := ih rest
    refine ⟨fun other held => keeps other (Finset.mem_insert_of_mem held), ?_, follows⟩
    intro other waits
    rcases List.mem_cons.mp waits with rfl | later
    · exact keeps _ (Finset.mem_insert_self ..)
    · exact finds other (List.mem_append.mpr (Or.inl later))

/-- **A search finds what can be reached.** -/
theorem mem_search_iff {seed item : I} :
    item ∈ search leads ∅ [seed] ↔ ReflTransGen (fun one other => other ∈ leads one) seed item := by
  constructor
  · refine search_holds (fun one reached other led => reached.tail led) (by simp) ?_ item
    intro other waits
    rw [List.mem_singleton.mp waits]
  · intro reached
    obtain ⟨-, finds, follows⟩ := @search_follows I _ leads ∅ [seed] _ (by simp)
    induction reached with
    | refl => exact finds seed (List.mem_singleton_self _)
    | tail _ led ih => exact follows _ ih _ led

/-! ### With a stack -/

/-- What an exploration finds holds whatever is kept from an item to those it leads to. -/
theorem explore_holds {kept : I → Prop} (closed : ∀ item, kept item → ∀ other ∈ leads item, kept other)
    (before : ∀ item ∈ found, kept item) (stacked : ∀ item ∈ queue, kept item) :
    ∀ item ∈ explore leads found queue, kept item := by
  induction found, queue using explore.induct leads with
  | case1 found =>
    rw [explore]
    exact before
  | case2 found item stack inside ih =>
    rw [explore, if_pos inside]
    exact ih before fun other later => stacked other (List.mem_cons_of_mem _ later)
  | case3 found item stack fresh ih =>
    rw [explore, if_neg fresh]
    have its := stacked item List.mem_cons_self
    refine ih ?_ ?_
    · intro other inside
      rcases Finset.mem_insert.mp inside with rfl | held
      · exact its
      · exact before other held
    · intro other inside
      rcases List.mem_append.mp inside with led | later
      · exact closed item its other (List.mem_reverse.mp led)
      · exact stacked other (List.mem_cons_of_mem _ later)

/-- An exploration keeps what was found, finds what is on the stack and follows each item it has found. -/
theorem explore_follows (followed : ∀ item ∈ found, ∀ other ∈ leads item, other ∈ found ∨ other ∈ queue) :
    (∀ item, item ∈ found ∨ item ∈ queue → item ∈ explore leads found queue) ∧
      ∀ item ∈ explore leads found queue, ∀ other ∈ leads item, other ∈ explore leads found queue := by
  induction found, queue using explore.induct leads with
  | case1 found =>
    rw [explore]
    simp only [List.not_mem_nil, or_false] at followed ⊢
    exact ⟨fun _ => id, followed⟩
  | case2 found item stack inside ih =>
    rw [explore, if_pos inside]
    obtain ⟨finds, follows⟩ := ih fun each held other led => by
      rcases followed each held other led with there | waits
      · exact Or.inl there
      · rcases List.mem_cons.mp waits with rfl | later
        · exact Or.inl inside
        · exact Or.inr later
    refine ⟨fun other held => finds other ?_, follows⟩
    rcases held with there | waits
    · exact Or.inl there
    · rcases List.mem_cons.mp waits with rfl | later
      · exact Or.inl inside
      · exact Or.inr later
  | case3 found item stack fresh ih =>
    rw [explore, if_neg fresh]
    simp only [Finset.mem_insert, List.mem_append, List.mem_reverse] at ih
    obtain ⟨finds, follows⟩ := ih fun each held other led => by
      rcases held with rfl | before
      · exact Or.inr (Or.inl led)
      · rcases followed each before other led with there | waits
        · exact Or.inl (Or.inr there)
        · rcases List.mem_cons.mp waits with rfl | later
          · exact Or.inl (Or.inl rfl)
          · exact Or.inr (Or.inr later)
    refine ⟨fun other held => finds other ?_, follows⟩
    rcases held with there | waits
    · exact Or.inl (Or.inr there)
    · rcases List.mem_cons.mp waits with rfl | later
      · exact Or.inl (Or.inl rfl)
      · exact Or.inr (Or.inr later)

/-- **An exploration finds what can be reached.** -/
theorem mem_explore_iff {seed item : I} :
    item ∈ explore leads ∅ [seed] ↔ ReflTransGen (fun one other => other ∈ leads one) seed item := by
  constructor
  · refine explore_holds (fun one reached other led => reached.tail led) (by simp) ?_ item
    intro other waits
    rw [List.mem_singleton.mp waits]
  · intro reached
    obtain ⟨finds, follows⟩ := @explore_follows I _ leads ∅ [seed] _ (by simp)
    induction reached with
    | refl => exact finds seed (Or.inr (List.mem_singleton_self _))
    | tail _ led ih => exact follows _ ih _ led

end Ketchup
