/-
**Pieces with two ends, laid in runs.**

Each item has two ends, and some ends are mated in pairs. A run begins at one end of an item, leaves it at
its far end and goes on with the mate of that end for as long as the mate's item is still free
(`Joints.run`).

* `run_ends_open_or_closes` — while the items used before are closed under mates, a run ends at an end
  without a mate or at the mate of the end it began at.
* `sweep_covers` — runs from the ends without a mate first and rings after that hold every item once.
* `Covers.mates_joined` — every two mates are neighbours in a run, or close it.
-/

import Mathlib.Data.Fintype.Card
import Mathlib.Data.Finset.BooleanAlgebra
import Mathlib.Data.List.Chain
import Mathlib.Data.List.Infix

set_option linter.unusedSectionVars false

namespace Ketchup

/-! ### Neighbours in a list -/

section Neighbours

variable {A : Type} {list : List A} {first second third : A}

/-- `second` comes right after `first`. -/
def Follows (list : List A) (first second : A) : Prop :=
  [first, second] <:+: list

theorem Follows.mem_left (follows : Follows list first second) : first ∈ list :=
  follows.subset List.mem_cons_self

theorem Follows.mem_right (follows : Follows list first second) : second ∈ list :=
  follows.subset (List.mem_cons_of_mem _ List.mem_cons_self)

theorem Follows.holds {R : A → A → Prop} (chain : list.IsChain R) (follows : Follows list first second) :
    R first second := by
  simpa using chain.infix follows

theorem Follows.cons {head : A} (follows : Follows list first second) : Follows (head :: list) first second :=
  List.infix_cons follows

theorem Follows.head : Follows (first :: second :: list) first second :=
  ⟨[], list, rfl⟩

/-- Every member but the last has one after it. -/
theorem eq_getLast_or_follows {head : A} (member : first ∈ head :: list) :
    (head :: list).getLast? = some first ∨ ∃ next, Follows (head :: list) first next := by
  induction list generalizing head with
  | nil =>
    refine Or.inl ?_
    rw [List.mem_singleton.mp member]
    rfl
  | cons next rest ih =>
    rcases List.mem_cons.mp member with rfl | later
    · exact Or.inr ⟨next, .head⟩
    · rcases ih later with last | ⟨after, follows⟩
      · exact Or.inl (by rwa [List.getLast?_cons_cons])
      · exact Or.inr ⟨after, follows.cons⟩

/-- Every member but the first has one before it. -/
theorem eq_head_or_follows {head : A} (member : second ∈ head :: list) :
    second = head ∨ ∃ before, Follows (head :: list) before second := by
  induction list generalizing head with
  | nil => exact Or.inl (List.mem_singleton.mp member)
  | cons next rest ih =>
    rcases List.mem_cons.mp member with rfl | later
    · exact Or.inl rfl
    · rcases ih later with rfl | ⟨before, follows⟩
      · exact Or.inr ⟨head, .head⟩
      · exact Or.inr ⟨before, follows.cons⟩

/-- The last of a list without repetition has nothing after it. -/
theorem Follows.not_last (nodup : list.Nodup) (follows : Follows list first second) :
    list.getLast? ≠ some first := by
  obtain ⟨before, after, rfl⟩ := follows
  intro last
  have later : first ∈ second :: after := by
    rw [List.append_assoc, List.getLast?_append_of_ne_nil _ (by simp), List.cons_append, List.cons_append,
      List.nil_append, List.getLast?_cons_cons] at last
    exact List.mem_of_getLast? last
  have tail := (List.nodup_append.mp (List.append_assoc .. ▸ nodup)).2.1
  exact (List.nodup_cons.mp tail).1 later

end Neighbours

/-! ### Items, their ends and mates -/

/-- Items with two ends each, some of which are mated in pairs. -/
structure Joints (E I : Type) where
  item : E → I
  far : E → E
  mate : E → Option E
  far_far : ∀ e, far (far e) = e
  far_ne : ∀ e, far e ≠ e
  item_far : ∀ e, item (far e) = item e
  same_item : ∀ a b, item a = item b → a = b ∨ a = far b
  mate_symm : ∀ a b, mate a = some b → mate b = some a
  mate_ne : ∀ e, mate e ≠ some e

namespace Joints

variable {E I : Type} [DecidableEq I] (J : Joints E I)

/-- The end a run goes on with after the item it entered at `e`: the mate of the far end, if its item is
free. -/
def next (used : Finset I) (e : E) : Option E :=
  (J.mate (J.far e)).filter fun other => J.item other ∉ used

variable {J} {used : Finset I} {e other : E}

theorem next_eq_some : J.next used e = some other ↔ J.mate (J.far e) = some other ∧ J.item other ∉ used := by
  simp [next, Option.filter_eq_some_iff]

theorem compl_insert_card_lt [Fintype I] {i : I} (free : i ∉ used) : (insert i used)ᶜ.card < usedᶜ.card :=
  Finset.card_lt_card (Finset.compl_ssubset_compl.mpr (Finset.ssubset_insert free))

variable (J) in
/-- The ends a run enters items at after `e`. -/
def path [Fintype I] (used : Finset I) (e : E) : List E :=
  match _h : J.next used e with
  | none => []
  | some other => other :: path (insert (J.item other) used) other
termination_by usedᶜ.card
decreasing_by exact compl_insert_card_lt (next_eq_some.mp _h).2

variable [Fintype I]

variable (J) in
/-- The ends a run from `e` enters items at. -/
def run (used : Finset I) (e : E) : List E :=
  e :: J.path (insert (J.item e) used) e

variable (J) in
/-- The used items after those of `run`. -/
def usedBy (used : Finset I) (run : List E) : Finset I :=
  run.foldl (fun used e => insert (J.item e) used) used

theorem mem_usedBy {run : List E} {i : I} :
    i ∈ J.usedBy used run ↔ i ∈ used ∨ ∃ e ∈ run, J.item e = i := by
  induction run generalizing used with
  | nil => simp [usedBy]
  | cons head rest ih =>
    have step : J.usedBy used (head :: rest) = J.usedBy (insert (J.item head) used) rest := rfl
    rw [step, ih, Finset.mem_insert, List.exists_mem_cons_iff, eq_comm (a := i)]
    tauto

theorem path_none (none : J.next used e = none) : J.path used e = [] := by
  rw [path]
  split
  · rfl
  · simp_all

theorem path_some (goes : J.next used e = some other) :
    J.path used e = other :: J.path (insert (J.item other) used) other := by
  rw [path]
  split
  · simp_all
  · simp_all

/-- A path is stuck where it ends, and enters each free item once, from mate to mate. -/
structure Laid (J : Joints E I) (used : Finset I) (e : E) (path : List E) : Prop where
  joined : (e :: path).IsChain fun a b => J.mate (J.far a) = some b
  fresh : ∀ a ∈ path, J.item a ∉ used
  once : (path.map J.item).Nodup
  stuck : ∀ last ∈ (e :: path).getLast?, ∀ mate, J.mate (J.far last) = some mate →
    J.item mate ∈ J.usedBy used path

theorem path_laid : Laid J used e (J.path used e) := by
  induction used, e using path.induct J with
  | case1 used e none =>
    rw [path_none none]
    refine ⟨.singleton e, by simp, by simp, ?_⟩
    intro last its mate mated
    obtain rfl : e = last := by simpa using its
    by_contra free
    have goes : J.next used e = some mate := next_eq_some.mpr ⟨mated, free⟩
    exact absurd (none.symm.trans goes) (by simp)
  | case2 used e other goes ih =>
    obtain ⟨mated, free⟩ := next_eq_some.mp goes
    rw [path_some goes]
    refine ⟨.cons_cons mated ih.joined, ?_, ?_, ?_⟩
    · intro a member
      rcases List.mem_cons.mp member with rfl | later
      · exact free
      · exact fun before => ih.fresh a later (Finset.mem_insert_of_mem before)
    · refine List.nodup_cons.mpr ⟨fun repeated => ?_, ih.once⟩
      obtain ⟨a, later, same⟩ := List.mem_map.mp repeated
      exact ih.fresh a later (same ▸ Finset.mem_insert_self ..)
    · intro last its mate mated
      exact ih.stuck last (by simpa using its) mate mated

/-- Mates of used items are used. -/
def Closed (J : Joints E I) (used : Finset I) : Prop :=
  ∀ a b, J.mate a = some b → J.item a ∈ used → J.item b ∈ used

section Run

variable (free : J.item e ∉ used)

include free

theorem run_fresh : ∀ a ∈ J.run used e, J.item a ∉ used := by
  intro a member
  rcases List.mem_cons.mp member with rfl | later
  · exact free
  · exact fun before => path_laid.fresh a later (Finset.mem_insert_of_mem before)

theorem run_once : ((J.run used e).map J.item).Nodup := by
  refine List.nodup_cons.mpr ⟨fun repeated => ?_, path_laid.once⟩
  obtain ⟨a, later, same⟩ := List.mem_map.mp repeated
  exact path_laid.fresh a later (same ▸ Finset.mem_insert_self ..)

theorem run_eq_of_item {a b : E} (ha : a ∈ J.run used e) (hb : b ∈ J.run used e) (same : J.item a = J.item b) :
    a = b :=
  List.inj_on_of_nodup_map (run_once free) ha hb same

/-- **Where a run ends**: at an end without a mate, or at the mate of the end it began at. -/
theorem run_ends_open_or_closes (closed : Closed J used) {last mate : E}
    (ends : (J.run used e).getLast? = some last) (mated : J.mate (J.far last) = some mate) : mate = e := by
  have joined : (J.run used e).IsChain fun a b => J.mate (J.far a) = some b := path_laid.joined
  have member : last ∈ J.run used e := List.mem_of_getLast? ends
  have nodup : (J.run used e).Nodup := (run_once free).of_map
  have back := J.mate_symm _ _ mated
  have taken : J.item mate ∈ J.usedBy used (J.run used e) := path_laid.stuck last ends mate mated
  rcases mem_usedBy.mp taken with before | ⟨inner, inside, same⟩
  · have := closed mate (J.far last) back before
    exact absurd (J.item_far last ▸ this) (run_fresh free last member)
  rcases J.same_item mate inner same.symm with rfl | rfl
  · -- the mate entered an item of the run, so the end before it is this last one
    rcases eq_head_or_follows inside with first | ⟨before, follows⟩
    · exact first
    · have goes : J.mate (J.far before) = some mate := Follows.holds (R := fun a b => J.mate (J.far a) = some b) joined follows
      have fars : J.far before = J.far last := Option.some.inj ((J.mate_symm _ _ goes).symm.trans back)
      have : before = last := by rw [← J.far_far before, fars, J.far_far]
      exact absurd (this ▸ ends) (follows.not_last nodup)
  · -- the mate left an item of the run, so the one after it is this last one, entered at its far end
    rcases eq_getLast_or_follows inside with last' | ⟨next, follows⟩
    · obtain rfl : inner = last := Option.some.inj (last'.symm.trans ends)
      exact absurd mated (J.mate_ne _)
    · have goes : J.mate (J.far inner) = some next := Follows.holds (R := fun a b => J.mate (J.far a) = some b) joined follows
      have nexts : next = J.far last := Option.some.inj (goes.symm.trans back)
      have : next = last := run_eq_of_item free follows.mem_right member (nexts ▸ J.item_far last)
      exact absurd (nexts.symm.trans this) (J.far_ne last)

/-- A run from `e` closes, or ends without a mate. -/
theorem run_last (closed : Closed J used) {last : E} (ends : (J.run used e).getLast? = some last) :
    J.mate (J.far last) = none ∨ J.mate (J.far last) = some e := by
  cases mated : J.mate (J.far last) with
  | none => exact Or.inl rfl
  | some mate => exact Or.inr (congrArg some (run_ends_open_or_closes free closed ends mated))

/-- A run that takes the mate of the end it begins at, if there is one, keeps what is used closed. -/
theorem closed_usedBy (closed : Closed J used)
    (begins : ∀ other, J.mate e = some other → J.item other ∈ J.usedBy used (J.run used e)) :
    Closed J (J.usedBy used (J.run used e)) := by
  have joined : (J.run used e).IsChain fun a b => J.mate (J.far a) = some b := path_laid.joined
  intro a b mated taken
  rcases mem_usedBy.mp taken with before | ⟨inner, inside, same⟩
  · exact mem_usedBy.mpr (Or.inl (closed a b mated before))
  rcases J.same_item a inner same.symm with rfl | rfl
  · rcases eq_head_or_follows inside with rfl | ⟨before, follows⟩
    · exact begins b mated
    · have goes : J.mate (J.far before) = some a :=
        Follows.holds (R := fun a b => J.mate (J.far a) = some b) joined follows
      have : J.far before = b := Option.some.inj ((J.mate_symm _ _ goes).symm.trans mated)
      exact mem_usedBy.mpr (Or.inr ⟨before, follows.mem_left, this ▸ (J.item_far before).symm⟩)
  · rcases eq_getLast_or_follows inside with last | ⟨next, follows⟩
    · rcases run_last free closed last with none | closes
      · exact absurd (none.symm.trans mated) (by simp)
      · have : e = b := Option.some.inj (closes.symm.trans mated)
        exact mem_usedBy.mpr (Or.inr ⟨e, List.mem_cons_self, this ▸ rfl⟩)
    · have goes : J.mate (J.far inner) = some next :=
        Follows.holds (R := fun a b => J.mate (J.far a) = some b) joined follows
      have : next = b := Option.some.inj (goes.symm.trans mated)
      exact mem_usedBy.mpr (Or.inr ⟨next, follows.mem_right, this ▸ rfl⟩)

omit free in
/-- The ends of a run's items that have no mate are its outer ends. -/
theorem run_unmated {last inner a : E} (ends : (J.run used e).getLast? = some last)
    (inside : inner ∈ J.run used e) (same : J.item inner = J.item a) (unmated : J.mate a = none) :
    a = e ∨ a = J.far last := by
  have joined : (J.run used e).IsChain fun a b => J.mate (J.far a) = some b := path_laid.joined
  rcases J.same_item a inner same.symm with rfl | rfl
  · rcases eq_head_or_follows inside with first | ⟨before, follows⟩
    · exact Or.inl first
    · have goes : J.mate (J.far before) = some a :=
        Follows.holds (R := fun a b => J.mate (J.far a) = some b) joined follows
      exact absurd (unmated.symm.trans (J.mate_symm _ _ goes)) (by simp)
  · rcases eq_getLast_or_follows inside with its | ⟨next, follows⟩
    · exact Or.inr (congrArg J.far (Option.some.inj (its.symm.trans ends)))
    · have goes : J.mate (J.far inner) = some next :=
        Follows.holds (R := fun a b => J.mate (J.far a) = some b) joined follows
      exact absurd (unmated.symm.trans goes) (by simp)

end Run

end Joints

/-! ### Runs until every item is used -/

/-- The used items, and the runs they are in. -/
structure Swept (E I : Type) where
  used : Finset I
  runs : List (List E)

namespace Joints

variable {E I : Type} [DecidableEq I] [Fintype I] (J : Joints E I)

/-- A run from `e` after the others. -/
def lay (swept : Swept E I) (e : E) : Swept E I :=
  ⟨J.usedBy swept.used (J.run swept.used e), swept.runs ++ [J.run swept.used e]⟩

/-- A run from `e` if its item is free and nothing meets it there. -/
def layOpen (swept : Swept E I) (e : E) : Swept E I :=
  if J.item e ∉ swept.used ∧ (J.mate e).isNone then J.lay swept e else swept

/-- A run from `e` if its item is free. -/
def layRing (swept : Swept E I) (e : E) : Swept E I :=
  if J.item e ∉ swept.used then J.lay swept e else swept

/-- Runs from the ends that nothing meets first, then rings. -/
def sweep (opens rings : List E) : Swept E I :=
  rings.foldl J.layRing (opens.foldl J.layOpen ⟨∅, []⟩)

/-- The runs hold each used item once, go from mate to mate, and each is open or closes. -/
structure Covers (swept : Swept E I) : Prop where
  used : ∀ i, i ∈ swept.used ↔ ∃ run ∈ swept.runs, ∃ e ∈ run, J.item e = i
  once : (swept.runs.flatten.map J.item).Nodup
  closed : Closed J swept.used
  joined : ∀ run ∈ swept.runs, run.IsChain fun a b => J.mate (J.far a) = some b
  ended : ∀ run ∈ swept.runs, ∃ e last, run.head? = some e ∧ run.getLast? = some last ∧
    ((J.mate e = none ∧ J.mate (J.far last) = none) ∨ J.mate (J.far last) = some e)

variable {J} {swept : Swept E I} {e : E}

theorem Covers.empty : Covers J ⟨∅, []⟩ where
  used := by simp
  once := .nil
  closed := fun _ _ _ taken => absurd taken (Finset.notMem_empty _)
  joined := by simp
  ended := by simp

/-- **One more run**, from an end without a mate or where every free end has one. -/
theorem Covers.lay (covers : Covers J swept) (free : J.item e ∉ swept.used)
    (begins : J.mate e = none ∨ ∀ a, J.item a ∉ swept.used → J.mate a ≠ none) : Covers J (J.lay swept e) := by
  obtain ⟨last, ends⟩ : ∃ last, (J.run swept.used e).getLast? = some last :=
    ⟨_, List.getLast?_eq_some_getLast (List.cons_ne_nil e _)⟩
  have freeLast : J.item (J.far last) ∉ swept.used := by
    rw [J.item_far]
    exact run_fresh free last (List.mem_of_getLast? ends)
  have outer : (J.mate e = none ∧ J.mate (J.far last) = none) ∨ J.mate (J.far last) = some e := by
    rcases run_last free covers.closed ends with none | closes
    · rcases begins with nothing | mated
      · exact Or.inl ⟨nothing, none⟩
      · exact absurd none (mated _ freeLast)
    · exact Or.inr closes
  constructor
  · intro i
    have := covers.used i
    simp only [Joints.lay, mem_usedBy, List.mem_append, List.mem_singleton, or_and_right, exists_or,
      exists_eq_left, this]
  · rw [Joints.lay, List.flatten_append, List.map_append, List.flatten_singleton, List.nodup_append]
    refine ⟨covers.once, run_once free, ?_⟩
    rintro _ before _ after rfl
    obtain ⟨a, inside, same⟩ := List.mem_map.mp before
    obtain ⟨run, there, member⟩ := List.mem_flatten.mp inside
    obtain ⟨b, inside, rfl⟩ := List.mem_map.mp after
    exact run_fresh free b inside ((covers.used _).mpr ⟨run, there, a, member, same⟩)
  · refine closed_usedBy free covers.closed fun other mated => ?_
    rcases outer with ⟨none, -⟩ | closes
    · exact absurd (none.symm.trans mated) (by simp)
    · have : J.far last = other := Option.some.inj ((J.mate_symm _ _ closes).symm.trans mated)
      exact mem_usedBy.mpr (Or.inr ⟨last, List.mem_of_getLast? ends, this ▸ (J.item_far last).symm⟩)
  · intro run there
    rcases List.mem_append.mp there with before | its
    · exact covers.joined run before
    · rw [List.mem_singleton.mp its]
      exact path_laid.joined
  · intro run there
    rcases List.mem_append.mp there with before | its
    · exact covers.ended run before
    · rw [List.mem_singleton.mp its]
      exact ⟨e, last, rfl, ends, outer⟩

theorem used_lay {i : I} (taken : i ∈ swept.used) : i ∈ (J.lay swept e).used :=
  mem_usedBy.mpr (Or.inl taken)

theorem item_used_lay : J.item e ∈ (J.lay swept e).used :=
  mem_usedBy.mpr (Or.inr ⟨e, List.mem_cons_self, rfl⟩)

theorem Covers.opens (covers : Covers J swept) (opens : List E) :
    Covers J (opens.foldl J.layOpen swept) ∧ (∀ i ∈ swept.used, i ∈ (opens.foldl J.layOpen swept).used) ∧
      ∀ e ∈ opens, J.mate e = none → J.item e ∈ (opens.foldl J.layOpen swept).used := by
  induction opens generalizing swept with
  | nil => exact ⟨covers, fun _ => id, by simp⟩
  | cons e opens ih =>
    rw [List.foldl_cons, layOpen]
    by_cases lays : J.item e ∉ swept.used ∧ (J.mate e).isNone
    · rw [if_pos lays]
      obtain ⟨after, kept, taken⟩ := ih (covers.lay lays.1 (Or.inl (Option.isNone_iff_eq_none.mp lays.2)))
      refine ⟨after, fun i inside => kept i (used_lay inside), ?_⟩
      intro a member none
      rcases List.mem_cons.mp member with rfl | later
      · exact kept _ item_used_lay
      · exact taken a later none
    · rw [if_neg lays]
      obtain ⟨after, kept, taken⟩ := ih covers
      refine ⟨after, kept, ?_⟩
      intro a member none
      rcases List.mem_cons.mp member with rfl | later
      · exact kept _ (by_contra fun free => lays ⟨free, Option.isNone_iff_eq_none.mpr none⟩)
      · exact taken a later none

theorem Covers.rings (covers : Covers J swept) (mated : ∀ a, J.mate a = none → J.item a ∈ swept.used)
    (rings : List E) : Covers J (rings.foldl J.layRing swept) ∧
      (∀ i ∈ swept.used, i ∈ (rings.foldl J.layRing swept).used) ∧
      ∀ e ∈ rings, J.item e ∈ (rings.foldl J.layRing swept).used := by
  induction rings generalizing swept with
  | nil => exact ⟨covers, fun _ => id, by simp⟩
  | cons e rings ih =>
    rw [List.foldl_cons, layRing]
    by_cases free : J.item e ∉ swept.used
    · rw [if_pos free]
      have laid := covers.lay free (Or.inr fun a out none => out (mated a none))
      obtain ⟨after, kept, taken⟩ := ih laid fun a none => used_lay (mated a none)
      refine ⟨after, fun i inside => kept i (used_lay inside), ?_⟩
      intro a member
      rcases List.mem_cons.mp member with rfl | later
      · exact kept _ item_used_lay
      · exact taken a later
    · rw [if_neg free]
      obtain ⟨after, kept, taken⟩ := ih covers mated
      refine ⟨after, kept, ?_⟩
      intro a member
      rcases List.mem_cons.mp member with rfl | later
      · exact kept _ (not_not.mp free)
      · exact taken a later

/-- **Every item is in one run**, and each run is open or a ring. -/
theorem sweep_covers {opens rings : List E} (allOpens : ∀ e, e ∈ opens) (allRings : ∀ i, ∃ e ∈ rings, J.item e = i) :
    Covers J (J.sweep opens rings) ∧ ∀ i, i ∈ (J.sweep opens rings).used := by
  obtain ⟨covers, -, taken⟩ := Covers.empty.opens (J := J) opens
  obtain ⟨after, -, all⟩ := covers.rings (fun a none => taken a (allOpens a) none) rings
  refine ⟨after, fun i => ?_⟩
  obtain ⟨e, member, rfl⟩ := allRings i
  exact all e member

/-- `a` and `b` are the outer ends of a run. -/
def Closing (J : Joints E I) (run : List E) (a b : E) : Prop :=
  run.getLast?.map J.far = some a ∧ run.head? = some b

/-- **Mates are joined**, but the two that close a ring. -/
theorem Covers.mates_joined (covers : Covers J swept) {a b : E} (taken : J.item a ∈ swept.used)
    (mated : J.mate a = some b) : ∃ run ∈ swept.runs, (Follows run (J.far a) b ∨ Follows run (J.far b) a) ∨
      Closing J run a b ∨ Closing J run b a := by
  obtain ⟨run, there, inner, inside, same⟩ := (covers.used _).mp taken
  refine ⟨run, there, ?_⟩
  have joined := covers.joined run there
  obtain ⟨e, last, first, ends, outer⟩ := covers.ended run there
  obtain ⟨rest, rfl⟩ : ∃ rest, run = e :: rest := List.head?_eq_some_iff.mp first
  rcases J.same_item a inner same.symm with rfl | rfl
  · rcases eq_head_or_follows inside with rfl | ⟨before, follows⟩
    · rcases outer with ⟨none, -⟩ | closes
      · exact absurd (none.symm.trans mated) (by simp)
      · have : J.far last = b := Option.some.inj ((J.mate_symm _ _ closes).symm.trans mated)
        exact Or.inr (Or.inr ⟨by rw [ends, Option.map_some, this], rfl⟩)
    · have goes : J.mate (J.far before) = some a :=
        Follows.holds (R := fun a b => J.mate (J.far a) = some b) joined follows
      have : J.far before = b := Option.some.inj ((J.mate_symm _ _ goes).symm.trans mated)
      exact Or.inl (Or.inr (by rwa [← this, J.far_far]))
  · rcases eq_getLast_or_follows inside with its | ⟨next, follows⟩
    · obtain rfl : inner = last := Option.some.inj (its.symm.trans ends)
      rcases outer with ⟨-, none⟩ | closes
      · exact absurd (none.symm.trans mated) (by simp)
      · have : e = b := Option.some.inj (closes.symm.trans mated)
        exact Or.inr (Or.inl ⟨by rw [ends, Option.map_some], by rw [← this]; rfl⟩)
    · have goes : J.mate (J.far inner) = some next :=
        Follows.holds (R := fun a b => J.mate (J.far a) = some b) joined follows
      have : next = b := Option.some.inj (goes.symm.trans mated)
      exact Or.inl (Or.inl (by rwa [J.far_far, ← this]))

end Joints

end Ketchup
