/-
**The history of a store.**

In every store a run reaches, ids grow along the history and stay below the next one, and each
checkpoint is that of the revision a rollback to its id finds. Two stores of one run that hold a
revision under the same id hold the same content under it.

* `Made.fresh`: a made revision takes the next id, and the one after it is next;
* `Change.ordered`, `Change.advances`: one change keeps the order, and the revisions after it are
  revisions from before or new ones;
* `history_invariant`: both over whole runs.
-/

import Ketchup.Document.Operation

set_option linter.unusedSectionVars false

namespace Ketchup.Document

open Ketchup.Graph Relation

section History

variable {F : Type} {K : Kernel F} [Binary64 F] [Sha256]

/-! ### What holds of a history -/

namespace DocumentStore

def ids (store : DocumentStore K) : List Nat := store.revisions.map Revision.id

/-- The ids grow along the history, and every one was handed out. -/
structure Ordered (store : DocumentStore K) : Prop where
  increasing : store.ids.Pairwise (· < ·)
  below : ∀ id ∈ store.ids, id < store.nextRevisionId

structure HistorySound (store : DocumentStore K) : Prop where
  cursor : store.cursor < store.revisions.length
  increasing : store.ids.Pairwise (· < ·)
  below : ∀ id ∈ store.ids, id < store.nextRevisionId
  /-- A checkpoint is the name of the revision that a rollback to it finds. -/
  checkpoints : ∀ name id, (name, id) ∈ store.checkpoints →
    ∃ revision, store.revisions.find? (fun revision => revision.id == id) = some revision ∧
      revision.checkpoint = some name

end DocumentStore

/-- The same content was committed: a checkpoint and a program may have been put on it since. -/
structure SameContent (earlier later : Revision K) : Prop where
  snapshot : later.snapshot = earlier.snapshot
  batchDigest : later.batchDigest = earlier.batchDigest
  origin : later.origin = earlier.origin

/-- No id stands for one content in a store and for another in a later one. -/
def NoIdReused (earlier later : DocumentStore K) : Prop :=
  ∀ revision ∈ earlier.revisions, ∀ other ∈ later.revisions, revision.id = other.id →
    SameContent revision other

theorem SameContent.refl (revision : Revision K) : SameContent revision revision := ⟨rfl, rfl, rfl⟩

theorem SameContent.trans {first second third : Revision K} (one : SameContent first second)
    (two : SameContent second third) : SameContent first third :=
  ⟨two.snapshot.trans one.snapshot, two.batchDigest.trans one.batchDigest,
    two.origin.trans one.origin⟩

theorem SameContent.id_eq {first second : Revision K} (same : SameContent first second) :
    second.id = first.id := congrArg Snapshot.revisionId same.snapshot

/-- Ids told apart by their order name one revision each. -/
theorem eq_of_id_eq {revisions : List (Revision K)}
    (increasing : (revisions.map Revision.id).Pairwise (· < ·)) {first second : Revision K}
    (one : first ∈ revisions) (two : second ∈ revisions) (same : first.id = second.id) :
    first = second := by
  have distinct : (revisions.map Revision.id).Nodup := increasing.imp fun less => Nat.ne_of_lt less
  exact List.inj_on_of_nodup_map distinct one two same

theorem DocumentStore.Ordered.sound {store : DocumentStore K} (ordered : store.Ordered) :
    store.HistorySound where
  cursor := store.cursor_lt
  increasing := ordered.increasing
  below := ordered.below
  checkpoints name id listed := by
    obtain ⟨revision, member, named⟩ := List.mem_filterMap.mp listed
    obtain ⟨checkpoint, is, pair⟩ := Option.map_eq_some_iff.mp named
    cases pair
    obtain ⟨found, is_found⟩ : ∃ found,
        store.revisions.find? (fun other => other.id == revision.id) = some found :=
      Option.isSome_iff_exists.mp (List.find?_isSome.mpr ⟨revision, member, beq_self_eq_true _⟩)
    have same : found = revision :=
      eq_of_id_eq ordered.increasing (List.mem_of_find?_eq_some is_found) member
        (beq_iff_eq.mp (List.find?_some (p := fun other : Revision K => other.id == revision.id)
          is_found))
    exact ⟨found, is_found, same ▸ is⟩

/-! ### Made revisions -/

theorem nextId_ok {revisionId following : Nat}
    (ok : DocumentStore.nextId (K := K) revisionId = .ok following) : following = revisionId + 1 := by
  unfold DocumentStore.nextId at ok
  split at ok
  case h_1 next some =>
    cases ok
    exact (checkedSucc_eq_some.mp some).2
  case h_2 => cases ok

/-- **A made revision takes the next id**, and leaves the one after it. -/
theorem Made.fresh {store : DocumentStore K} {made : Revision K × Nat} (isMade : Made store made) :
    made.1.id = store.nextRevisionId ∧ made.2 = store.nextRevisionId + 1 := by
  cases isMade with
  | batch ok =>
    unfold DocumentStore.batchRevision at ok
    split at ok
    · cases ok
    split at ok
    · cases ok
    obtain ⟨edit, _, ok⟩ := bind_ok ok
    split at ok
    · cases ok
    obtain ⟨product, _, ok⟩ := bind_ok ok
    obtain ⟨following, next, ok⟩ := bind_ok ok
    obtain ⟨evaluation, _, ok⟩ := bind_ok ok
    obtain ⟨features, _, ok⟩ := bind_ok ok
    cases ok
    exact ⟨rfl, nextId_ok next⟩
  | rollback ok =>
    unfold DocumentStore.rollbackRevision at ok
    split at ok
    · cases ok
    split at ok
    · cases ok
    split at ok
    · cases ok
    dsimp only at ok
    split at ok
    · cases ok
    split at ok
    · cases ok
    next following next =>
      cases ok
      exact ⟨rfl, (checkedSucc_eq_some.mp next).2⟩
  | replacement ok =>
    unfold DocumentStore.replacementRevision at ok
    dsimp only at ok
    split at ok
    · cases ok
    obtain ⟨following, next, ok⟩ := bind_ok ok
    cases ok
    exact ⟨rfl, nextId_ok next⟩
  | source ok =>
    unfold DocumentStore.sourceRevision at ok
    split at ok
    · cases ok
    obtain ⟨_, _, ok⟩ := bind_ok ok
    split at ok
    · cases ok
    obtain ⟨following, next, ok⟩ := bind_ok ok
    cases ok
    exact ⟨rfl, nextId_ok next⟩

/-! ### One change -/

/-- The revisions after are revisions from before, or have ids handed out since. -/
structure Advances (before after : DocumentStore K) : Prop where
  next_le : before.nextRevisionId ≤ after.nextRevisionId
  carried : ∀ revision ∈ after.revisions,
    (∃ old ∈ before.revisions, SameContent old revision) ∨ before.nextRevisionId ≤ revision.id

theorem Advances.refl (store : DocumentStore K) : Advances store store :=
  ⟨Nat.le_refl _, fun revision member => Or.inl ⟨revision, member, .refl revision⟩⟩

theorem Advances.trans {first second third : DocumentStore K} (one : Advances first second)
    (two : Advances second third) : Advances first third := by
  refine ⟨one.next_le.trans two.next_le, fun revision member => ?_⟩
  rcases two.carried revision member with ⟨old, listed, same⟩ | new
  · rcases one.carried old listed with ⟨older, listed, since⟩ | new
    · exact Or.inl ⟨older, listed, since.trans same⟩
    · exact Or.inr (by rw [same.id_eq]; exact new)
  · exact Or.inr (one.next_le.trans new)

/-- Dropping revisions keeps what is left as it was. -/
theorem advances_of_subset {before after : DocumentStore K}
    (next : after.nextRevisionId = before.nextRevisionId)
    (subset : after.revisions ⊆ before.revisions) : Advances before after :=
  ⟨next.ge, fun revision member => Or.inl ⟨revision, subset member, .refl revision⟩⟩

theorem DocumentStore.Ordered.of_sublist {before after : DocumentStore K} (ordered : before.Ordered)
    (next : after.nextRevisionId = before.nextRevisionId)
    (sublist : after.revisions.Sublist before.revisions) : after.Ordered :=
  have ids : after.ids.Sublist before.ids := sublist.map _
  ⟨ordered.increasing.sublist ids, fun id member => by
    rw [next]
    exact ordered.below id (ids.subset member)⟩

theorem mem_pushRevision {store : DocumentStore K} {revision other : Revision K}
    (member : other ∈ (store.pushRevision revision).revisions) :
    other ∈ store.revisions ∨ other = revision := by
  rcases List.mem_append.mp (List.mem_of_mem_drop member) with old | new
  · exact Or.inl (List.mem_of_mem_take old)
  · exact Or.inr (List.mem_singleton.mp new)

theorem pushed_ordered {store : DocumentStore K} {made : Revision K × Nat}
    (fresh : made.1.id = store.nextRevisionId ∧ made.2 = store.nextRevisionId + 1)
    (ordered : store.Ordered) : (store.pushed made).Ordered := by
  obtain ⟨id_eq, next_eq⟩ := fresh
  constructor
  · have kept : (store.revisions.take (store.cursor + 1) ++ [made.1]).map Revision.id |>.Pairwise
        (· < ·) := by
      rw [List.map_append, List.pairwise_append]
      refine ⟨ordered.increasing.sublist ((List.take_sublist _ _).map _), by simp, ?_⟩
      intro id member new is_new
      rw [List.map_singleton, List.mem_singleton] at is_new
      rw [is_new, id_eq]
      exact ordered.below id (((List.take_sublist _ _).map _).subset member)
    exact kept.sublist ((List.drop_sublist _ _).map _)
  · intro id member
    obtain ⟨revision, listed, rfl⟩ := List.mem_map.mp member
    show revision.id < made.2
    rw [next_eq]
    rcases mem_pushRevision listed with old | rfl
    · exact Nat.lt_succ_of_lt (ordered.below _ (List.mem_map_of_mem old))
    · rw [id_eq]
      exact Nat.lt_succ_self _

theorem currentRevision_mem (store : DocumentStore K) : store.currentRevision ∈ store.revisions :=
  List.get_mem _ _

/-- The current revision relabelled keeps every id in its place. -/
theorem setCurrentRevision_ids {store : DocumentStore K} {revision : Revision K}
    (same : revision.id = store.currentRevision.id) :
    (store.setCurrentRevision revision).ids = store.ids := by
  unfold DocumentStore.ids DocumentStore.setCurrentRevision
  rw [List.map_set, same]
  have within : store.cursor < (store.revisions.map Revision.id).length := by
    rw [List.length_map]
    exact store.cursor_lt
  have place : (store.revisions.map Revision.id)[store.cursor] = store.currentRevision.id :=
    List.getElem_map _
  rw [← place, List.set_getElem_self within]

theorem setCurrentRevision_ordered {store : DocumentStore K} {revision : Revision K}
    (same : revision.id = store.currentRevision.id) (ordered : store.Ordered) :
    (store.setCurrentRevision revision).Ordered := by
  refine ⟨?_, ?_⟩
  · rw [setCurrentRevision_ids same]
    exact ordered.increasing
  · rw [setCurrentRevision_ids same]
    exact ordered.below

theorem setCurrentRevision_advances {store : DocumentStore K} {revision : Revision K}
    (same : SameContent store.currentRevision revision) :
    Advances store (store.setCurrentRevision revision) := by
  refine ⟨Nat.le_refl _, fun other member => Or.inl ?_⟩
  rcases List.mem_or_eq_of_mem_set member with old | rfl
  · exact ⟨other, old, .refl other⟩
  · exact ⟨store.currentRevision, currentRevision_mem store, same⟩

theorem Change.ordered {before after : DocumentStore K} (change : Change before after)
    (ordered : before.Ordered) : after.Ordered := by
  cases change with
  | push isMade => exact pushed_ordered isMade.fresh ordered
  | checkpoint | program => exact setCurrentRevision_ordered rfl ordered
  | move | registry | configure | consume => exact ordered.of_sublist rfl (List.Sublist.refl _)
  | discard =>
    exact ordered.of_sublist rfl (List.singleton_sublist.mpr (currentRevision_mem before))
  | drop => exact ordered.of_sublist rfl (List.dropLast_sublist _)

theorem Change.advances {before after : DocumentStore K} (change : Change before after) :
    Advances before after := by
  cases change with
  | push isMade =>
    obtain ⟨id_eq, next_eq⟩ := isMade.fresh
    refine ⟨(Nat.le_succ _).trans next_eq.ge, fun revision member => ?_⟩
    rcases mem_pushRevision member with old | rfl
    · exact Or.inl ⟨revision, old, .refl revision⟩
    · exact Or.inr id_eq.ge
  | checkpoint | program => exact setCurrentRevision_advances ⟨rfl, rfl, rfl⟩
  | move | registry | configure | consume => exact advances_of_subset rfl (List.Subset.refl _)
  | discard =>
    exact advances_of_subset rfl fun revision member => by
      rw [List.mem_singleton.mp member]
      exact currentRevision_mem before
  | drop => exact advances_of_subset rfl (List.dropLast_sublist _).subset

/-! ### Runs -/

theorem changes_ordered {before after : DocumentStore K} (changes : ReflTransGen Change before after)
    (ordered : before.Ordered) : after.Ordered := by
  induction changes with
  | refl => exact ordered
  | tail _ change ih => exact change.ordered ih

theorem changes_advances {before after : DocumentStore K}
    (changes : ReflTransGen Change before after) : Advances before after := by
  induction changes with
  | refl => exact .refl before
  | tail _ change ih => exact ih.trans change.advances

theorem noIdReused_of_advances {before after : DocumentStore K} (ordered : before.Ordered)
    (advances : Advances before after) : NoIdReused before after := by
  intro revision member other listed same
  rcases advances.carried other listed with ⟨old, old_member, content⟩ | new
  · have is_old : old = revision :=
      eq_of_id_eq ordered.increasing old_member member (content.id_eq.symm.trans same.symm)
    exact is_old ▸ content
  · have below := ordered.below revision.id (List.mem_map_of_mem member)
    rw [same] at below
    exact absurd new (Nat.not_le_of_lt below)

theorem states_changes {operations : List (HistoryOperation K)} {start store : DocumentStore K}
    (member : store ∈ HistoryOperation.states start operations) :
    ReflTransGen Change start store := by
  induction operations generalizing start with
  | nil =>
    rw [List.mem_singleton.mp member]
  | cons operation rest ih =>
    rcases List.mem_cons.mp member with rfl | later
    · exact .refl
    · exact (operation.changes start).trans (ih later)

theorem states_noIdReused {operations : List (HistoryOperation K)} {start : DocumentStore K}
    (ordered : start.Ordered) : (HistoryOperation.states start operations).Pairwise NoIdReused := by
  induction operations generalizing start with
  | nil => exact List.pairwise_singleton _ _
  | cons operation rest ih =>
    refine List.pairwise_cons.mpr ⟨fun later member => ?_,
      ih (changes_ordered (operation.changes start) ordered)⟩
    exact noIdReused_of_advances ordered
      (changes_advances ((operation.changes start).trans (states_changes member)))

theorem single_ordered {revision : Revision K} {next : Nat} (below : revision.id < next) :
    (DocumentStore.single revision next).Ordered :=
  ⟨List.pairwise_singleton _ _, fun id member => by
    rw [List.mem_singleton.mp member]
    exact below⟩

/-- A store starts in order. -/
theorem Opening.ordered (opening : Opening K) : opening.store.Ordered := by
  cases opening with
  | product revisionId product store opened =>
    unfold DocumentStore.fromProduct at opened
    obtain ⟨_, _, opened⟩ := bind_ok opened
    obtain ⟨_, _, opened⟩ := bind_ok opened
    obtain ⟨_, _, opened⟩ := bind_ok opened
    obtain ⟨_, _, opened⟩ := bind_ok opened
    obtain ⟨following, next, opened⟩ := bind_ok opened
    obtain ⟨_, _, opened⟩ := bind_ok opened
    cases opened
    exact single_ordered (nextId_ok next ▸ Nat.lt_succ_self revisionId)
  | snapshot snapshot store opened =>
    unfold DocumentStore.fromSnapshot at opened
    obtain ⟨following, next, opened⟩ := bind_ok opened
    obtain ⟨_, _, opened⟩ := bind_ok opened
    cases opened
    exact single_ordered (nextId_ok next ▸ Nat.lt_succ_self snapshot.revisionId)
  | restored history =>
    have kept := (List.take_sublist (history.cursor - (history.cursor - undoRevisions) +
      undoRevisions + 1) _).trans (List.drop_sublist (history.cursor - undoRevisions)
        history.revisions)
    have ids : (Opening.restored history).store.ids.Sublist
        (history.revisions.map fun stored => stored.snapshot.revisionId) := by
      show ((List.map _ _).map _).Sublist _
      rw [List.map_map]
      exact kept.map _
    refine ⟨history.increasing.sublist ids, fun id member => ?_⟩
    obtain ⟨stored, listed, rfl⟩ := List.mem_map.mp (ids.subset member)
    exact history.below stored listed

/-- **The history invariant.** In every store a run reaches the cursor is at a revision, ids grow
along the history and are below the next one, and checkpoints name revisions that are there; and no
id names one content in one store of the run and another in a later one. -/
theorem history_invariant (opening : Opening K) (operations : List (HistoryOperation K)) :
    (∀ store ∈ HistoryOperation.states opening.store operations, store.HistorySound) ∧
      (HistoryOperation.states opening.store operations).Pairwise NoIdReused :=
  ⟨fun _ member => (changes_ordered (states_changes member) opening.ordered).sound,
    states_noIdReused opening.ordered⟩

end History

end Ketchup.Document
