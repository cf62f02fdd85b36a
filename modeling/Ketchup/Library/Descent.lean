/-
**Depth-first walks.**

`visit` walks from a key to its targets and theirs and refuses a key that leads back to itself. What it
has visited is founded (`visit_acc`): no walk from there goes on forever. `exists_level` numbers the keys
of a founded relation so that each walk goes down, which bounds the depth of any recursion along it.
-/

import Ketchup.Library.Ordered
import Ketchup.Library.Outcome
import Mathlib.Logic.Relation
import Mathlib.Order.WellFounded

set_option linter.unusedSectionVars false

namespace Ketchup

section Visit

variable {K ε : Type} [Ord K] [Std.TransOrd K] [Std.LawfulEqOrd K]

/-- Visits a key and what it leads to, unless it is on the way there (`visiting`) already. -/
def visit (targets : K → Except ε (List K)) (cyclic endless : ε) :
    Nat → BTreeSet K → BTreeSet K → K → Except ε (BTreeSet K)
  | 0, _, _, _ => .error endless
  | fuel + 1, visiting, visited, key =>
    if key ∈ visited then .ok visited
    else if key ∈ visiting then .error cyclic
    else do
      let leads ← targets key
      let visited ← leads.foldlM (visit targets cyclic endless fuel (visiting.insert key)) visited
      return visited.insert key

/-- A key is a target of another. -/
def LeadsTo (targets : K → Except ε (List K)) (target key : K) : Prop :=
  ∃ leads, targets key = .ok leads ∧ target ∈ leads

variable {targets : K → Except ε (List K)} {cyclic endless : ε}

/-- Steps that each add their key, keep what holds of the keys, and drop none. -/
theorem visits_keep {holds : BTreeSet K → Prop} {step : BTreeSet K → K → Except ε (BTreeSet K)}
    (one : ∀ visited result key, holds visited → step visited key = .ok result →
      holds result ∧ key ∈ result ∧ ∀ other ∈ visited, other ∈ result)
    {list : List K} {visited result : BTreeSet K} (before : holds visited)
    (ok : list.foldlM step visited = .ok result) :
    holds result ∧ (∀ key ∈ list, key ∈ result) ∧ ∀ other ∈ visited, other ∈ result := by
  induction list generalizing visited with
  | nil =>
    obtain rfl := Except.ok.inj ok
    exact ⟨before, nofun, fun _ => id⟩
  | cons key rest ih =>
    rw [List.foldlM_cons] at ok
    obtain ⟨next, isNext, ok⟩ := bind_ok ok
    obtain ⟨here, isIn, kept⟩ := one visited next key before isNext
    obtain ⟨after, all, keptAll⟩ := ih here ok
    refine ⟨after, fun other member => ?_, fun other member => keptAll other (kept other member)⟩
    rcases List.mem_cons.mp member with rfl | later
    · exact keptAll other isIn
    · exact all other later

/-- **What was visited is founded**, with the key that was visited last. -/
theorem visit_acc {fuel : Nat} {visiting visited result : BTreeSet K} {key : K}
    (founded : ∀ other ∈ visited, Acc (LeadsTo targets) other)
    (ok : visit targets cyclic endless fuel visiting visited key = .ok result) :
    (∀ other ∈ result, Acc (LeadsTo targets) other) ∧ key ∈ result ∧
      ∀ other ∈ visited, other ∈ result := by
  induction fuel generalizing visiting visited result key with
  | zero => cases ok
  | succ fuel ih =>
    unfold visit at ok
    by_cases known : key ∈ visited
    · rw [if_pos known] at ok
      obtain rfl := Except.ok.inj ok
      exact ⟨founded, known, fun _ => id⟩
    · rw [if_neg known] at ok
      split at ok
      · cases ok
      · obtain ⟨leads, isLeads, ok⟩ := bind_ok ok
        obtain ⟨walked, isWalked, ok⟩ := bind_ok ok
        obtain rfl := Except.ok.inj ok
        obtain ⟨foundedAll, all, kept⟩ := visits_keep (fun _ _ _ before => ih before) founded isWalked
        have here : Acc (LeadsTo targets) key := by
          refine .intro key fun target leadsTo => ?_
          obtain ⟨others, isOthers, member⟩ := leadsTo
          obtain rfl := Except.ok.inj (isLeads.symm.trans isOthers)
          exact foundedAll target (all target member)
        refine ⟨fun other member => ?_, BTreeSet.mem_insert.mpr (.inl rfl), fun other member =>
          BTreeSet.mem_insert.mpr (.inr (kept other member))⟩
        rcases BTreeSet.mem_insert.mp member with rfl | earlier
        · exact here
        · exact foundedAll other earlier

/-- The levels that fall along a relation on keys, each of whose targets is among them. -/
structure Levelled (targets : K → Except ε (List K)) (keys : List K) (level : K → Nat) : Prop where
  known : ∀ key ∈ keys, ∃ leads, targets key = .ok leads ∧ ∀ target ∈ leads, target ∈ keys
  falls : ∀ key ∈ keys, ∀ target, LeadsTo targets target key → level target < level key

/-- Steps that each succeed for the keys of a list succeed for the list. -/
theorem visits_succeed (step : BTreeSet K → K → Except ε (BTreeSet K)) (list : List K)
    (one : ∀ key ∈ list, ∀ visited, ∃ result, step visited key = .ok result) (visited : BTreeSet K) :
    ∃ result, list.foldlM step visited = .ok result := by
  induction list generalizing visited with
  | nil => exact ⟨visited, rfl⟩
  | cons key rest ih =>
    obtain ⟨next, isNext⟩ := one key (List.mem_cons_self ..) visited
    obtain ⟨result, ok⟩ := ih (fun other later => one other (List.mem_cons_of_mem _ later)) next
    exact ⟨result, bind_ok_iff.mpr ⟨next, isNext, ok⟩⟩

/-- **A key is visited** where levels fall along the walks from it, with fuel for its level. -/
theorem visit_of_levelled (cyclic endless : ε) {keys : List K} {level : K → Nat}
    (levelled : Levelled targets keys level) {fuel : Nat} {visiting : BTreeSet K} (visited : BTreeSet K)
    {key : K} (member : key ∈ keys)
    (enough : level key < fuel) (above : ∀ other ∈ visiting, level key < level other) :
    ∃ result, visit targets cyclic endless fuel visiting visited key = .ok result := by
  induction fuel generalizing visiting visited key with
  | zero => exact absurd enough (Nat.not_lt_zero _)
  | succ fuel ih =>
    unfold visit
    by_cases known : key ∈ visited
    · exact ⟨visited, if_pos known⟩
    · rw [if_neg known, if_neg fun again => absurd (above key again) (Nat.lt_irrefl _)]
      obtain ⟨leads, isLeads, inside⟩ := levelled.known key member
      rw [isLeads]
      obtain ⟨walked, isWalked⟩ := visits_succeed
        (visit targets cyclic endless fuel (visiting.insert key)) leads
        (fun target isTarget visited => by
          have falls := levelled.falls key member target ⟨leads, isLeads, isTarget⟩
          refine ih visited (inside target isTarget) (Nat.lt_of_lt_of_le falls (Nat.le_of_lt_succ enough))
            fun other isOther => ?_
          rcases BTreeSet.mem_insert.mp isOther with rfl | earlier
          · exact falls
          · exact falls.trans (above other earlier)) visited
      exact ⟨walked.insert key, bind_ok_iff.mpr ⟨leads, rfl, bind_ok_iff.mpr ⟨walked, isWalked, rfl⟩⟩⟩

end Visit

section Levels

variable {K : Type} {leads : K → K → Prop}

/-- **The keys of a founded relation have levels** that fall along it and are within their number. -/
theorem exists_level (founded : WellFounded leads) (keys : List K) :
    ∃ level : K → Nat, (∀ key, level key ≤ keys.length) ∧
      ∀ key ∈ keys, ∀ target, leads target key → level target < level key := by
  classical
  refine ⟨fun key => keys.countP fun other => Relation.ReflTransGen leads other key,
    fun key => List.countP_le_length, fun key member target isTarget => ?_⟩
  have onward : ∀ other, Relation.ReflTransGen leads other target →
      Relation.ReflTransGen leads other key := fun other walk => walk.tail isTarget
  have back : ¬Relation.ReflTransGen leads key target := fun walk => by
    have cycle : Relation.TransGen leads key key := Relation.TransGen.tail' walk isTarget
    exact founded.transGen.irrefl.irrefl key cycle
  obtain ⟨before, after, rfl⟩ := List.append_of_mem member
  have less (list : List K) :
      list.countP (fun other => Relation.ReflTransGen leads other target) ≤
        list.countP fun other => Relation.ReflTransGen leads other key :=
    List.countP_mono_left fun other _ walk => decide_eq_true (onward other (of_decide_eq_true walk))
  have one := less before
  have two := less after
  simp only [List.countP_append, List.countP_cons, decide_eq_true_eq]
  rw [if_neg back, if_pos Relation.ReflTransGen.refl]
  omega

end Levels

end Ketchup
