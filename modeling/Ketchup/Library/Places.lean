/-
**One element of a list, changed in its place.**

`changeAt` is `get_mut(index)` and `changeFirst` is `iter_mut().find(..)`, each with a change that may
refuse the element. What is read elsewhere afterwards is what was there.
-/

import Mathlib.Data.List.Forall2

namespace Ketchup

variable {A K : Type}

/-- The element at an index, changed. -/
def changeAt (list : List A) (index : Nat) (change : A → Option A) : Option (List A) :=
  (list[index]?.bind change).map (list.set index)

theorem changeAt_eq_some {list after : List A} {index : Nat} {change : A → Option A} :
    changeAt list index change = some after ↔
      ∃ element changed, list[index]? = some element ∧ change element = some changed ∧
        after = list.set index changed := by
  unfold changeAt
  rw [Option.map_eq_some_iff]
  constructor
  · rintro ⟨changed, made, rfl⟩
    obtain ⟨element, at_, made⟩ := Option.bind_eq_some_iff.mp made
    exact ⟨element, changed, at_, made, rfl⟩
  · rintro ⟨element, changed, at_, made, rfl⟩
    exact ⟨changed, Option.bind_eq_some_iff.mpr ⟨element, at_, made⟩, rfl⟩

/-- A change that refuses nothing. -/
theorem changeAt_some {list : List A} {index : Nat} (inside : index < list.length) (change : A → A) :
    changeAt list index (fun element => some (change element)) =
      some (list.set index (change list[index])) :=
  changeAt_eq_some.mpr ⟨_, _, List.getElem?_eq_getElem inside, rfl, rfl⟩

/-- What is at an index after the change. -/
theorem getElem?_changeAt {list after : List A} {index : Nat} {change : A → Option A}
    (done : changeAt list index change = some after) (other : Nat) :
    after[other]? = if other = index then list[index]?.bind change else list[other]? := by
  obtain ⟨element, changed, at_, made, rfl⟩ := changeAt_eq_some.mp done
  obtain ⟨inside, _⟩ := List.getElem?_eq_some_iff.mp at_
  by_cases same : other = index
  · rw [if_pos same, same, List.getElem?_set_self inside, at_, Option.bind_some, made]
  · rw [if_neg same, List.getElem?_set_ne (Ne.symm same)]

theorem length_changeAt {list after : List A} {index : Nat} {change : A → Option A}
    (done : changeAt list index change = some after) : after.length = list.length := by
  obtain ⟨element, changed, at_, made, rfl⟩ := changeAt_eq_some.mp done
  exact List.length_set

/-- Every element has a result where the results are these, one after another. -/
theorem mapM_eq_some_iff {B : Type} {call : A → Option B} {list : List A} {results : List B} :
    list.mapM call = some results ↔ list.map call = results.map some := by
  induction list generalizing results with
  | nil =>
    cases results with
    | nil => exact iff_of_true rfl rfl
    | cons first others => exact iff_of_false (fun is => by cases is) fun is => by cases is
  | cons head rest ih =>
    rw [List.mapM_cons, List.map_cons]
    constructor
    · intro made
      obtain ⟨first, one, made⟩ := Option.bind_eq_some_iff.mp made
      obtain ⟨others, two, made⟩ := Option.bind_eq_some_iff.mp made
      obtain rfl := Option.some.inj made
      rw [one, ih.mp two, List.map_cons]
    · intro same
      cases results with
      | nil => cases same
      | cons first others =>
        obtain ⟨one, two⟩ := List.cons.inj same
        rw [one, ih.mpr two]
        rfl

/-- Where every element has a result, each one's is there. -/
theorem exists_of_mapM_some {B : Type} {call : A → Option B} {list : List A} {results : List B}
    (made : list.mapM call = some results) {element : A} (there : element ∈ list) :
    ∃ result ∈ results, call element = some result := by
  induction list generalizing results with
  | nil => cases there
  | cons head rest ih =>
    rw [List.mapM_cons] at made
    obtain ⟨first, one, made⟩ := Option.bind_eq_some_iff.mp made
    obtain ⟨others, two, made⟩ := Option.bind_eq_some_iff.mp made
    obtain rfl := Option.some.inj made
    rcases List.mem_cons.mp there with rfl | later
    · exact ⟨first, List.mem_cons_self .., one⟩
    · obtain ⟨result, member, is⟩ := ih two later
      exact ⟨result, List.mem_cons_of_mem _ member, is⟩

/-- Each result is of an element. -/
theorem exists_of_mem_mapM_some {B : Type} {call : A → Option B} {list : List A} {results : List B}
    (made : list.mapM call = some results) {result : B} (there : result ∈ results) :
    ∃ element ∈ list, call element = some result := by
  induction list generalizing results with
  | nil =>
    rw [List.mapM_nil] at made
    obtain rfl := Option.some.inj made
    exact absurd there List.not_mem_nil
  | cons head rest ih =>
    rw [List.mapM_cons] at made
    obtain ⟨first, one, made⟩ := Option.bind_eq_some_iff.mp made
    obtain ⟨others, two, made⟩ := Option.bind_eq_some_iff.mp made
    obtain rfl := Option.some.inj made
    rcases List.mem_cons.mp there with rfl | later
    · exact ⟨head, List.mem_cons_self .., one⟩
    · obtain ⟨element, member, is⟩ := ih two later
      exact ⟨element, List.mem_cons_of_mem _ member, is⟩

/-- The first element that is the one looked for, changed. -/
def changeFirst (isIt : A → Bool) (change : A → Option A) : List A → Option (List A)
  | [] => none
  | element :: rest =>
    if isIt element then (change element).map (· :: rest)
    else (changeFirst isIt change rest).map (element :: ·)

/-- The first element that is the one looked for can be changed, where the change is not refused. -/
theorem changeFirst_of_find? {isIt : A → Bool} {change : A → Option A} {list : List A}
    {element changed : A} (found : list.find? isIt = some element) (made : change element = some changed) :
    ∃ after, changeFirst isIt change list = some after := by
  induction list with
  | nil => cases found
  | cons head rest ih =>
    rw [changeFirst]
    by_cases here : isIt head = true
    · rw [List.find?_cons_of_pos here, Option.some.injEq] at found
      rw [if_pos here, found, made]
      exact ⟨_, rfl⟩
    · rw [List.find?_cons_of_neg here] at found
      obtain ⟨later, is⟩ := ih found
      rw [if_neg here, is]
      exact ⟨_, rfl⟩

/-- What is changed was there. -/
theorem find?_isSome_of_changeFirst {isIt : A → Bool} {change : A → Option A} {list after : List A}
    (done : changeFirst isIt change list = some after) : (list.find? isIt).isSome := by
  induction list generalizing after with
  | nil => cases done
  | cons head rest ih =>
    rw [changeFirst] at done
    by_cases here : isIt head = true
    · rw [List.find?_cons_of_pos here]
      rfl
    · rw [if_neg here] at done
      obtain ⟨later, made, _⟩ := Option.map_eq_some_iff.mp done
      rw [List.find?_cons_of_neg here]
      exact ih made

/-- A change that changes the first one into itself changes nothing. -/
theorem changeFirst_same {isIt : A → Bool} {change : A → Option A} {list : List A} {element : A}
    (found : list.find? isIt = some element) (same : change element = some element) :
    changeFirst isIt change list = some list := by
  induction list with
  | nil => cases found
  | cons head rest ih =>
    rw [changeFirst]
    by_cases here : isIt head = true
    · rw [List.find?_cons_of_pos here, Option.some.injEq] at found
      rw [if_pos here, found, same, Option.map_some]
    · rw [List.find?_cons_of_neg here] at found
      rw [if_neg here, ih found, Option.map_some]

/-- Place by place, an element is as it was, or is the one looked for and changed. -/
theorem changeFirst_forall₂ {isIt : A → Bool} {change : A → Option A} {list after : List A}
    (done : changeFirst isIt change list = some after) :
    List.Forall₂ (fun old new => new = old ∨ (isIt old = true ∧ change old = some new)) list after := by
  induction list generalizing after with
  | nil => cases done
  | cons head rest ih =>
    rw [changeFirst] at done
    by_cases here : isIt head = true
    · rw [if_pos here] at done
      obtain ⟨changed, made, rfl⟩ := Option.map_eq_some_iff.mp done
      exact .cons (Or.inr ⟨here, made⟩) (List.forall₂_same.mpr fun _ _ => Or.inl rfl)
    · rw [if_neg here] at done
      obtain ⟨later, made, rfl⟩ := Option.map_eq_some_iff.mp done
      exact .cons (Or.inl rfl) (ih made)

/-- Of two that are looked for, one stays. -/
theorem exists_of_changeFirst {isIt : A → Bool} {change : A → Option A} {list after : List A}
    (done : changeFirst isIt change list = some after) (two : 2 ≤ list.countP isIt) :
    ∃ element ∈ list, isIt element = true ∧ element ∈ after := by
  induction list generalizing after with
  | nil => cases done
  | cons head rest ih =>
    rw [changeFirst] at done
    by_cases here : isIt head = true
    · rw [if_pos here] at done
      obtain ⟨changed, _, rfl⟩ := Option.map_eq_some_iff.mp done
      rw [List.countP_cons_of_pos here] at two
      obtain ⟨element, there, is⟩ := List.countP_pos_iff.mp (show 0 < rest.countP isIt by omega)
      exact ⟨element, List.mem_cons_of_mem _ there, is, List.mem_cons_of_mem _ there⟩
    · rw [if_neg here] at done
      obtain ⟨later, made, rfl⟩ := Option.map_eq_some_iff.mp done
      rw [List.countP_cons_of_neg here] at two
      obtain ⟨element, there, is, stays⟩ := ih made two
      exact ⟨element, List.mem_cons_of_mem _ there, is, List.mem_cons_of_mem _ stays⟩

/-- A relation place by place, over two changes. -/
theorem forall₂_through {related : A → A → Prop}
    (through : ∀ {one two three}, related one two → related two three → related one three)
    {one two three : List A} (first : List.Forall₂ related one two) (second : List.Forall₂ related two three) :
    List.Forall₂ related one three := by
  induction first generalizing three with
  | nil =>
    cases second
    exact .nil
  | cons head _ ih =>
    cases second with
    | cons next rest => exact .cons (through head next) (ih rest)

section Keys

variable [DecidableEq K] {key : A → K} {wanted : K}

/-- Looking for a key, one element at a time. -/
theorem find?_key_cons (head : A) (rest : List A) :
    (head :: rest).find? (fun element => key element = wanted) =
      if key head = wanted then some head else rest.find? fun element => key element = wanted := by
  by_cases found : key head = wanted
  · rw [if_pos found]
    simp [found]
  · rw [if_neg found]
    simp [found]

/-- What is found under a key after a change of an element that keeps its key. -/
theorem find?_changeFirst {change : A → Option A}
    (keeps : ∀ element changed, key element = wanted → change element = some changed → key changed = key element)
    {list after : List A} (done : changeFirst (fun element => key element = wanted) change list = some after)
    (other : K) :
    after.find? (fun element => key element = other) =
      if other = wanted then (list.find? fun element => key element = wanted).bind change
      else list.find? fun element => key element = other := by
  induction list generalizing after with
  | nil => cases done
  | cons element rest ih =>
    rw [changeFirst] at done
    rw [find?_key_cons, find?_key_cons]
    by_cases found : key element = wanted
    · rw [if_pos (decide_eq_true found)] at done
      obtain ⟨changed, made, rfl⟩ := Option.map_eq_some_iff.mp done
      rw [find?_key_cons, keeps element changed found made, found, if_pos rfl, Option.bind_some]
      by_cases same : other = wanted
      · rw [if_pos same, if_pos same.symm, made]
      · rw [if_neg same, if_neg (Ne.symm same), if_neg (Ne.symm same)]
    · rw [if_neg (by rwa [decide_eq_true_eq])] at done
      obtain ⟨later, made, rfl⟩ := Option.map_eq_some_iff.mp done
      rw [find?_key_cons, ih made, if_neg found]
      by_cases here : key element = other
      · have differs : ¬other = wanted := fun same => found (here.trans same)
        rw [if_pos here, if_neg differs, if_pos here]
      · rw [if_neg here, if_neg here]

omit [DecidableEq K] in
/-- The keys are as they were. -/
theorem map_changeFirst {change : A → Option A} {isIt : A → Bool}
    (keeps : ∀ element changed, change element = some changed → key changed = key element)
    {list after : List A} (done : changeFirst isIt change list = some after) :
    after.map key = list.map key := by
  induction list generalizing after with
  | nil => cases done
  | cons element rest ih =>
    rw [changeFirst] at done
    by_cases found : isIt element
    · rw [if_pos found] at done
      obtain ⟨changed, made, rfl⟩ := Option.map_eq_some_iff.mp done
      rw [List.map_cons, List.map_cons, keeps element changed made]
    · rw [if_neg found] at done
      obtain ⟨later, made, rfl⟩ := Option.map_eq_some_iff.mp done
      rw [List.map_cons, List.map_cons, ih made]

/-- With keys all different, an element of a list is the one found under its key. -/
theorem find?_of_mem {list : List A} (distinct : (list.map key).Nodup) {element : A}
    (there : element ∈ list) :
    list.find? (fun other => key other = key element) = some element := by
  induction list with
  | nil => cases there
  | cons head rest ih =>
    rw [List.map_cons, List.nodup_cons] at distinct
    rw [find?_key_cons]
    by_cases same : key head = key element
    · rw [if_pos same]
      rcases List.mem_cons.mp there with rfl | later
      · rfl
      · exact absurd (List.mem_map.mpr ⟨element, later, same.symm⟩) distinct.1
    · rw [if_neg same]
      rcases List.mem_cons.mp there with rfl | later
      · exact absurd rfl same
      · exact ih distinct.2 later

end Keys

end Ketchup
