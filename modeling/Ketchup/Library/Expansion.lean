/-
**Sets that grow along links.**

`expand` adds an entry to a set and, where it was not there, all it leads to. Entries that are in the set are
taken to have been followed, so an entry that was put there by itself cuts the routes that go through it.
`mem_run_iff` says what a sequence of requests comes to, some to add an entry and some to expand one: what is
named, and what a route leads to on which nothing was named before. `reads_flatten_iff_uncut` says when the
sequences one after the other come to what each comes to by itself.
-/

import Mathlib.Data.Finset.Card

set_option linter.unusedSectionVars false

namespace Ketchup

variable {D : Type} [DecidableEq D] (next : D → List D)

/-- Adds an entry and, where it is new, what is next to it, and so on. -/
def expand : Nat → D → Finset D → Finset D
  | 0, entry, found => insert entry found
  | fuel + 1, entry, found =>
    if entry ∈ found then found
    else (next entry).foldl (fun found other => expand fuel other found) (insert entry found)

/-- A way from one entry to another on which nothing is to be avoided. -/
inductive Route (avoid : D → Prop) : D → D → Prop
  | here {entry : D} : ¬avoid entry → Route avoid entry entry
  | step {entry other target : D} :
      ¬avoid entry → other ∈ next entry → Route avoid other target → Route avoid entry target

variable {next}

namespace Route

theorem mono {avoid less : D → Prop} (weaker : ∀ entry, less entry → avoid entry) {entry target : D}
    (route : Route next avoid entry target) : Route next less entry target := by
  induction route with
  | here free => exact .here (mt (weaker _) free)
  | step free isNext _ ih => exact .step (mt (weaker _) free) isNext ih

theorem free {avoid : D → Prop} {entry target : D} (route : Route next avoid entry target) :
    ¬avoid target := by
  induction route with
  | here free => exact free
  | step _ _ _ ih => exact ih

theorem start_free {avoid : D → Prop} {entry target : D} (route : Route next avoid entry target) :
    ¬avoid entry := by
  cases route with
  | here free => exact free
  | step free _ _ => exact free

/-- A route stays in a set that holds what is next to each of its entries. -/
theorem stays {avoid : D → Prop} {held : Finset D}
    (closed : ∀ entry ∈ held, ¬avoid entry → ∀ other ∈ next entry, other ∈ held) {entry target : D}
    (route : Route next avoid entry target) (start : entry ∈ held) : target ∈ held := by
  induction route with
  | here => exact start
  | step free isNext _ ih => exact ih (closed _ start free _ isNext)

/-- One entry further. -/
theorem onward {avoid : D → Prop} {entry target other : D} (route : Route next avoid entry target)
    (isNext : other ∈ next target) (free : ¬avoid other) : Route next avoid entry other := by
  induction route with
  | here isFree => exact .step isFree isNext (.here free)
  | step isFree isOther _ ih => exact .step isFree isOther (ih isNext)

end Route

/-! ### One entry -/

/-- **What growing from some roots comes to.** -/
structure Expands (next : D → List D) (start : Finset D) (roots : List D) (after : Finset D) : Prop where
  keeps : start ⊆ after
  reached : ∀ entry ∈ roots, entry ∈ after
  sound : ∀ entry ∈ after, entry ∈ start ∨ ∃ root ∈ roots, Route next (· ∈ start) root entry
  closed : ∀ entry ∈ after, entry ∉ start → ∀ other ∈ next entry, other ∈ after

namespace Expands

theorem nil {start : Finset D} : Expands next start [] start where
  keeps := Finset.Subset.refl _
  reached := nofun
  sound _ member := .inl member
  closed _ member missing := absurd member missing

/-- One after the other. -/
theorem append {start between after : Finset D} {one two : List D}
    (first : Expands next start one between) (later : Expands next between two after) :
    Expands next start (one ++ two) after where
  keeps := first.keeps.trans later.keeps
  reached entry member := by
    rcases List.mem_append.mp member with isOne | isTwo
    · exact later.keeps (first.reached entry isOne)
    · exact later.reached entry isTwo
  sound entry member := by
    rcases later.sound entry member with before | ⟨root, isRoot, route⟩
    · rcases first.sound entry before with there | ⟨root, isRoot, route⟩
      · exact .inl there
      · exact .inr ⟨root, List.mem_append_left _ isRoot, route⟩
    · exact .inr ⟨root, List.mem_append_right _ isRoot, route.mono fun _ there => first.keeps there⟩
  closed entry member missing other isNext := by
    by_cases before : entry ∈ between
    · exact later.keeps (first.closed entry before missing other isNext)
    · exact later.closed entry member before other isNext

/-- An entry that is there. -/
theorem there {start : Finset D} {entry : D} (member : entry ∈ start) :
    Expands next start [entry] start :=
  { nil with
    reached := fun _ isRoot => List.mem_singleton.mp isRoot ▸ member
    sound := fun _ there => .inl there }

/-- An entry that is new leads to what is next to it. -/
theorem enter {start after : Finset D} {entry : D} (missing : entry ∉ start)
    (inside : Expands next (insert entry start) (next entry) after) :
    Expands next start [entry] after where
  keeps := (Finset.subset_insert _ _).trans inside.keeps
  reached _ isRoot := by
    rw [List.mem_singleton.mp isRoot]
    exact inside.keeps (Finset.mem_insert_self ..)
  sound other member := by
    rcases inside.sound other member with before | ⟨root, isRoot, route⟩
    · rcases Finset.mem_insert.mp before with rfl | there
      · exact .inr ⟨other, List.mem_singleton_self _, .here missing⟩
      · exact .inl there
    · refine .inr ⟨entry, List.mem_singleton_self _, .step missing isRoot (route.mono fun _ there => ?_)⟩
      exact Finset.mem_insert_of_mem there
  closed other member isNew := by
    by_cases same : other = entry
    · subst same
      exact inside.reached
    · refine inside.closed other member fun before => ?_
      exact (Finset.mem_insert.mp before).elim same isNew

end Expands

/-- **An entry is expanded** with fuel for the keys that are not found yet. -/
theorem expands_expand {keys : Finset D} (listed : ∀ entry, next entry ≠ [] → entry ∈ keys) {fuel : Nat}
    {entry : D} {found : Finset D} (enough : (keys \ found).card ≤ fuel) :
    Expands next found [entry] (expand next fuel entry found) := by
  induction fuel generalizing entry found with
  | zero =>
    rw [expand]
    by_cases member : entry ∈ found
    · rw [Finset.insert_eq_of_mem member]
      exact .there member
    · have last : next entry = [] := by
        by_contra more
        have left : entry ∈ keys \ found := Finset.mem_sdiff.mpr ⟨listed entry more, member⟩
        rw [Finset.card_eq_zero.mp (Nat.le_zero.mp enough)] at left
        cases left
      refine .enter member ?_
      rw [last]
      exact .nil
  | succ fuel ih =>
    rw [expand]
    by_cases member : entry ∈ found
    · rw [if_pos member]
      exact .there member
    rw [if_neg member]
    refine .enter member ?_
    -- All that is next to it is expanded with less fuel, as one more key is found.
    have each : ∀ (others : List D) (found : Finset D), (keys \ found).card ≤ fuel →
        Expands next found others (others.foldl (fun found other => expand next fuel other found) found) := by
      intro others
      induction others with
      | nil => exact fun _ _ => .nil
      | cons other rest each =>
        intro found enough
        have first : Expands next found [other] (expand next fuel other found) := ih enough
        exact first.append (each _ ((Finset.card_le_card
          (Finset.sdiff_subset_sdiff (Finset.Subset.refl _) first.keeps)).trans enough))
    by_cases key : entry ∈ keys
    · refine each _ _ ?_
      have fewer : keys \ insert entry found = (keys \ found).erase entry := by
        rw [Finset.sdiff_insert]
      rw [fewer, Finset.card_erase_of_mem (Finset.mem_sdiff.mpr ⟨key, member⟩)]
      omega
    · rw [not_not.mp (mt (listed entry) key)]
      exact .nil

/-! ### Requests one after the other -/

/-- An entry to add by itself, or one to expand. -/
inductive Request (D : Type)
  | entry (one : D)
  | closing (root : D)
  deriving DecidableEq

def Request.run (next : D → List D) (fuel : Nat) (found : Finset D) : Request D → Finset D
  | .entry one => insert one found
  | .closing root => expand next fuel root found

/-- A request adds the entry by itself. -/
def Named (requests : List (Request D)) (entry : D) : Prop := .entry entry ∈ requests

/-- **What requests come to**: what is named, and what a route leads to on which nothing was named before. -/
def Reads (next : D → List D) (requests : List (Request D)) (entry : D) : Prop :=
  Named requests entry ∨ ∃ before root after, requests = before ++ .closing root :: after ∧
    Route next (Named before) root entry

theorem named_append {one two : List (Request D)} {entry : D} :
    Named (one ++ two) entry ↔ Named one entry ∨ Named two entry := List.mem_append

/-- **What is next to something read is read**, but for what was named. -/
theorem Reads.closed {requests : List (Request D)} {entry other : D} (reads : Reads next requests entry)
    (free : ¬Named requests entry) (isNext : other ∈ next entry) : Reads next requests other := by
  obtain ⟨before, root, after, splits, route⟩ := reads.resolve_left free
  by_cases named : Named before other
  · exact .inl (splits ▸ List.mem_append_left _ named)
  · exact .inr ⟨before, root, after, splits, route.onward isNext named⟩

/-- What is expanded is read. -/
theorem reads_of_closing {requests : List (Request D)} {root : D} (member : .closing root ∈ requests) :
    Reads next requests root := by
  obtain ⟨before, after, rfl⟩ := List.append_of_mem member
  by_cases named : Named before root
  · exact .inl (List.mem_append_left _ named)
  · exact .inr ⟨before, root, after, rfl, .here named⟩

/-- One request more. -/
theorem reads_append_singleton {requests : List (Request D)} {request : Request D} {entry : D} :
    Reads next (requests ++ [request]) entry ↔ Reads next requests entry ∨ request = .entry entry ∨
      ∃ root, request = .closing root ∧ Route next (Named requests) root entry := by
  constructor
  · rintro (named | ⟨before, root, after, splits, route⟩)
    · rcases List.mem_append.mp named with earlier | here
      · exact .inl (.inl earlier)
      · exact .inr (.inl (List.mem_singleton.mp here).symm)
    · rcases List.eq_nil_or_concat after with rfl | ⟨rest, last, rfl⟩
      · obtain ⟨rfl, same⟩ := List.append_inj' splits rfl
        exact .inr (.inr ⟨root, List.singleton_inj.mp same, route⟩)
      · rw [List.concat_eq_append, ← List.cons_append, ← List.append_assoc] at splits
        exact .inl (.inr ⟨before, root, rest, (List.append_inj' splits rfl).1, route⟩)
  · rintro ((named | ⟨before, root, after, rfl, route⟩) | rfl | ⟨root, rfl, route⟩)
    · exact .inl (List.mem_append_left _ named)
    · exact .inr ⟨before, root, after ++ [request], by simp, route⟩
    · exact .inl (List.mem_append_right _ (List.mem_singleton_self _))
    · exact .inr ⟨requests, root, [], rfl, route⟩

/-- **A sequence of requests comes to what it reads.** -/
theorem mem_run_iff {keys : Finset D} (listed : ∀ entry, next entry ≠ [] → entry ∈ keys) {fuel : Nat}
    (enough : keys.card ≤ fuel) {requests : List (Request D)} {entry : D} :
    entry ∈ requests.foldl (Request.run next fuel) ∅ ↔ Reads next requests entry := by
  induction requests using List.reverseRecOn generalizing entry with
  | nil =>
    refine iff_of_false (Finset.notMem_empty _) ?_
    rintro (named | ⟨before, root, after, splits, -⟩)
    · cases named
    · exact List.append_ne_nil_of_right_ne_nil _ (List.cons_ne_nil _ _) splits.symm
  | append_singleton requests request ih =>
    rw [List.foldl_append, List.foldl_cons, List.foldl_nil, reads_append_singleton]
    cases request with
    | entry named =>
      rw [Request.run, Finset.mem_insert, ih, or_comm]
      simp [eq_comm]
    | closing root =>
      rw [Request.run]
      have expands : Expands next (requests.foldl (Request.run next fuel) ∅) [root]
          (expand next fuel root (requests.foldl (Request.run next fuel) ∅)) :=
        expands_expand listed ((Finset.card_le_card Finset.sdiff_subset).trans enough)
      constructor
      · intro member
        rcases expands.sound entry member with before | ⟨_, isRoot, route⟩
        · exact .inl (ih.mp before)
        · obtain rfl := List.mem_singleton.mp isRoot
          exact .inr (.inr ⟨_, rfl, route.mono fun _ named => ih.mpr (.inl named)⟩)
      · rintro (before | same | ⟨_, same, route⟩)
        · exact expands.keeps (ih.mpr before)
        · cases same
        · obtain rfl := Request.closing.inj same
          refine route.stays (fun other member free => ?_) (expands.reached root (List.mem_singleton_self _))
          by_cases before : other ∈ requests.foldl (Request.run next fuel) ∅
          · exact fun _ isNext => expands.keeps (ih.mpr ((ih.mp before).closed free isNext))
          · exact expands.closed other member before

/-! ### Sequences one after the other -/

/-- **Nothing that is named cuts a route of a sequence**: where one by itself goes on from an entry that some
sequence names, what is next to the entry is read all the same. -/
def Uncut (next : D → List D) (sequences : List (List (Request D))) : Prop :=
  ∀ requests ∈ sequences, ∀ before root after, requests = before ++ .closing root :: after →
    ∀ entry, Route next (Named before) root entry → Named sequences.flatten entry →
      ∀ other ∈ next entry, Reads next sequences.flatten other

theorem named_flatten {sequences : List (List (Request D))} {entry : D} :
    Named sequences.flatten entry ↔ ∃ requests ∈ sequences, Named requests entry :=
  List.mem_flatten

/-- What all together read is read by one of them by itself. -/
theorem Reads.of_flatten {sequences : List (List (Request D))} {entry : D}
    (reads : Reads next sequences.flatten entry) : ∃ requests ∈ sequences, Reads next requests entry := by
  rcases reads with named | ⟨before, root, after, splits, route⟩
  · obtain ⟨requests, member, named⟩ := named_flatten.mp named
    exact ⟨requests, member, .inl named⟩
  induction sequences generalizing before with
  | nil => exact absurd splits.symm (List.append_ne_nil_of_right_ne_nil _ (List.cons_ne_nil _ _))
  | cons first rest ih =>
    rw [List.flatten_cons] at splits
    rcases List.append_eq_append_iff.mp splits with ⟨more, rfl, later⟩ | ⟨more, rfl, later⟩
    · obtain ⟨requests, member, reads⟩ := ih more later (route.mono fun _ => List.mem_append_right _)
      exact ⟨requests, List.mem_cons_of_mem _ member, reads⟩
    · cases more with
      | nil =>
        obtain ⟨requests, member, reads⟩ := ih [] later.symm (route.mono fun _ named => nomatch named)
        exact ⟨requests, List.mem_cons_of_mem _ member, reads⟩
      | cons head tail =>
        obtain ⟨rfl, -⟩ := List.cons.inj later
        exact ⟨_, List.mem_cons_self .., .inr ⟨before, root, tail, rfl, route⟩⟩

/-- **All together read what each reads by itself exactly where no route is cut.** -/
theorem reads_flatten_iff_uncut {sequences : List (List (Request D))} :
    (∀ entry, Reads next sequences.flatten entry ↔ ∃ requests ∈ sequences, Reads next requests entry) ↔
      Uncut next sequences := by
  refine ⟨fun same requests member before root after splits entry route _ other isNext => ?_,
    fun uncut entry => ⟨Reads.of_flatten, fun reads => ?_⟩⟩
  · by_cases named : Named before other
    · exact .inl (named_flatten.mpr ⟨requests, member, splits ▸ List.mem_append_left _ named⟩)
    · exact (same other).mpr ⟨requests, member,
        .inr ⟨before, root, after, splits, route.onward isNext named⟩⟩
  · obtain ⟨requests, member, named | ⟨before, root, after, splits, route⟩⟩ := reads
    · exact .inl (named_flatten.mpr ⟨requests, member, named⟩)
    have start : Reads next sequences.flatten root := by
      refine reads_of_closing (List.mem_flatten.mpr ⟨requests, member, ?_⟩)
      exact splits ▸ List.mem_append_right _ (List.mem_cons_self ..)
    -- Along the route each entry is read, whether one of the sequences names it or not.
    have along : ∀ one target, Route next (Named before) one target →
        Route next (Named before) root one → Reads next sequences.flatten one →
          Reads next sequences.flatten target := by
      intro one target rest
      induction rest with
      | here => exact fun _ reads => reads
      | @step here _ _ _ isNext rest ih =>
        intro soFar reads
        refine ih (soFar.onward isNext rest.start_free) ?_
        by_cases named : Named sequences.flatten here
        · exact uncut requests member before root after splits here soFar named _ isNext
        · exact reads.closed named isNext
    exact along root entry route (.here route.start_free) start

end Ketchup
