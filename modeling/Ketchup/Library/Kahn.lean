/-
**Topological order by counting dependencies.**

`Kahn.order` counts for each key of a map the dependencies not yet listed, keeps the keys with none
left in an ordered set, and moves the least of them to the end of the list until the set is empty.
It fails on a dependency that is no key and when keys are left over.

* `ReadyOrder done order`: each listed key is new and all its dependencies stand before it;
* `Inv`: the counts, the ready set and the listed part agree; `loop_inv` carries it over the loop,
  one round at a time (`round_inv`);
* `order_ok`: a list `order` returns is a `ReadyOrder` of exactly the keys.
-/

import Ketchup.Library.Closure
import Mathlib.Data.List.Nodup

set_option linter.unusedSectionVars false

namespace Ketchup.Kahn

variable {K V : Type} [Ord K] [DecidableEq K]

inductive Error (K : Type)
  | missing (key : K)
  /-- The least key left over. -/
  | cyclic (key : Option K)
  deriving DecidableEq

structure State (K : Type) [Ord K] where
  indegree : BTreeMap K Nat
  ready : BTreeSet K
  order : List K

section Definitions

variable [Std.TransOrd K]

/-- One dependency of `child` is listed; a key with none left is ready. -/
def release (child : K) (state : State K) : Except (Error K) (State K) :=
  match state.indegree[child]? with
  | none => .error (.missing child)
  | some degree => .ok { state with
      indegree := state.indegree.insert child (degree - 1)
      ready := if degree - 1 = 0 then state.ready.insert child else state.ready }

def releaseAll : List K → State K → Except (Error K) (State K)
  | [], state => .ok state
  | child :: rest, state => do releaseAll rest (← release child state)

variable (dependencies : V → List K) (nodes : BTreeMap K V)

/-- The keys that depend on `key`, once for each time they name it. -/
def dependents (key : K) : List K :=
  nodes.toList.flatMap fun entry =>
    ((dependencies entry.2).filter (· = key)).map fun _ => entry.1

/-- Lists `key` and releases what depends on it. -/
def round (key : K) (state : State K) : Except (Error K) (State K) :=
  releaseAll (dependents dependencies nodes key)
    { state with ready := state.ready.erase key, order := state.order ++ [key] }

def loop : Nat → State K → Except (Error K) (State K)
  | 0, state => .ok state
  | fuel + 1, state =>
    match state.ready.toList.head? with
    | none => .ok state
    | some key => do loop fuel (← round dependencies nodes key state)

def start : State K where
  indegree := nodes.map fun _ value => (dependencies value).length
  ready := Std.ExtTreeSet.ofList
    ((nodes.toList.filter fun entry => (dependencies entry.2).length = 0).map Prod.fst) compare
  order := []

/-- The first dependency, in the order of the entries, that is no key. -/
def firstMissing : Option K :=
  (nodes.toList.flatMap fun entry => dependencies entry.2).find? fun key => !nodes.contains key

/-- The order of the keys. Every round lists another key, so one round for each key and one to see
that none is ready are fuel enough. -/
def order : Except (Error K) (List K) :=
  match firstMissing dependencies nodes with
  | some key => .error (.missing key)
  | none => do
    let state ← loop dependencies nodes (nodes.size + 1) (start dependencies nodes)
    if state.order.length = nodes.size then .ok state.order
    else .error (.cyclic ((state.indegree.toList.find? fun entry => entry.2 ≠ 0).map Prod.fst))

/-- Each listed key is an entry, comes for the first time, and has all its dependencies in what is
done before it. -/
def ReadyOrder : List K → List K → Prop
  | _, [] => True
  | done, key :: rest =>
    (∃ value, nodes[key]? = some value ∧ ∀ dependency ∈ dependencies value, dependency ∈ done) ∧
      key ∉ done ∧ ReadyOrder (done ++ [key]) rest

end Definitions

variable [Std.TransOrd K] [Std.LawfulEqOrd K] {dependencies : V → List K} {nodes : BTreeMap K V}

/-! ### Ready orders -/

theorem ReadyOrder.append {done first second : List K}
    (left : ReadyOrder dependencies nodes done first)
    (right : ReadyOrder dependencies nodes (done ++ first) second) :
    ReadyOrder dependencies nodes done (first ++ second) := by
  induction first generalizing done with
  | nil => simpa using right
  | cons key rest ih =>
    obtain ⟨ready, new, later⟩ := left
    exact ⟨ready, new, ih later (by simpa using right)⟩

/-- What an order lists is new, listed once, and a key. -/
theorem ReadyOrder.nodup {done listed : List K} (legal : ReadyOrder dependencies nodes done listed) :
    listed.Nodup ∧ (∀ key ∈ listed, key ∉ done) ∧ ∀ key ∈ listed, key ∈ nodes := by
  induction listed generalizing done with
  | nil => exact ⟨List.nodup_nil, nofun, nofun⟩
  | cons key rest ih =>
    obtain ⟨⟨value, entry, _⟩, new, later⟩ := legal
    obtain ⟨distinct, fresh, keys⟩ := ih later
    have member : key ∈ nodes := by
      rw [Std.ExtTreeMap.mem_iff_isSome_getElem?, entry]; rfl
    refine ⟨List.nodup_cons.mpr ⟨fun again => fresh key again (by simp), distinct⟩, ?_, ?_⟩
    · intro other listed
      rcases List.mem_cons.mp listed with rfl | listed
      · exact new
      · exact fun held => fresh other listed (List.mem_append_left _ held)
    · intro other listed
      rcases List.mem_cons.mp listed with rfl | listed
      · exact member
      · exact keys other listed

/-- The dependencies of a listed key are done or listed. -/
theorem ReadyOrder.dependencies_mem {done listed : List K} {key dependency : K} {value : V}
    (legal : ReadyOrder dependencies nodes done listed) (member : key ∈ listed)
    (entry : nodes[key]? = some value) (named : dependency ∈ dependencies value) :
    dependency ∈ done ++ listed := by
  induction listed generalizing done with
  | nil => cases member
  | cons head rest ih =>
    obtain ⟨⟨headValue, headEntry, headReady⟩, _, later⟩ := legal
    rcases List.mem_cons.mp member with rfl | member
    · rw [entry, Option.some.injEq] at headEntry
      subst headEntry
      exact List.mem_append_left _ (headReady dependency named)
    · simpa using ih later member

/-! ### The loop -/

/-- The counts, the ready set and the listed keys agree. -/
structure Inv (dependencies : V → List K) (nodes : BTreeMap K V) (state : State K) : Prop where
  /-- A key's count is the number of its dependencies that are not listed. -/
  degree : ∀ key : K, state.indegree[key]? =
    nodes[key]?.map fun value => (dependencies value).countP fun d => decide (d ∉ state.order)
  ready : ∀ key : K, key ∈ state.ready ↔ key ∉ state.order ∧ state.indegree[key]? = some 0
  legal : ReadyOrder dependencies nodes [] state.order

theorem mem_dependents {key child : K} :
    child ∈ dependents dependencies nodes key ↔
      ∃ value, nodes[child]? = some value ∧ key ∈ dependencies value := by
  unfold dependents
  rw [List.mem_flatMap]
  constructor
  · rintro ⟨⟨other, value⟩, listed, member⟩
    obtain ⟨named, found, rfl⟩ := List.mem_map.mp member
    obtain ⟨inside, same⟩ := List.mem_filter.mp found
    rw [decide_eq_true_eq] at same
    exact ⟨value, Std.ExtTreeMap.mem_toList_iff_getElem?_eq_some.mp listed, same ▸ inside⟩
  · rintro ⟨value, entry, named⟩
    refine ⟨(child, value), Std.ExtTreeMap.mem_toList_iff_getElem?_eq_some.mpr entry, ?_⟩
    exact List.mem_map.mpr ⟨key, List.mem_filter.mpr ⟨named, decide_eq_true rfl⟩, rfl⟩

/-- A key is released once for each time it names the one listed. -/
theorem count_dependents {key child : K} {value : V} (entry : nodes[child]? = some value) :
    (dependents dependencies nodes key).count child = (dependencies value).count key := by
  have distinct : (nodes.toList.map Prod.fst).Nodup := by
    rw [Std.ExtTreeMap.map_fst_toList_eq_keys]
    exact nodes.nodup_keys
  have listed := Std.ExtTreeMap.mem_toList_iff_getElem?_eq_some.mpr entry
  have released (list : List K) (other : K) :
      ((list.filter (· = key)).map fun _ => other).count child =
        if other = child then list.count key else 0 := by
    rw [List.map_const', List.count_replicate, ← List.countP_eq_length_filter, List.count]
    refine if_congr (by rw [beq_iff_eq]) (List.countP_congr fun d _ => ?_) rfl
    rw [decide_eq_true_eq, beq_iff_eq]
  unfold dependents
  generalize nodes.toList = entries at distinct listed
  induction entries with
  | nil => cases listed
  | cons head rest ih =>
    rw [List.map_cons, List.nodup_cons] at distinct
    rw [List.flatMap_cons, List.count_append, released]
    rcases List.mem_cons.mp listed with rfl | later
    · have none_ : (rest.flatMap fun entry =>
          ((dependencies entry.2).filter (· = key)).map fun _ => entry.1).count child = 0 := by
        rw [List.count_eq_zero, List.mem_flatMap]
        rintro ⟨other, there, member⟩
        obtain ⟨_, _, same⟩ := List.mem_map.mp member
        exact distinct.1 (List.mem_map.mpr ⟨other, there, same⟩)
      rw [if_pos rfl, none_, Nat.add_zero]
    · have apart : ¬head.1 = child := fun same =>
        distinct.1 (List.mem_map.mpr ⟨(child, value), later, same.symm⟩)
      rw [if_neg apart, Nat.zero_add, ih distinct.2 later]

/-- **Releasing a list of keys** lowers the count of each by the times it is listed and adds those
with none left to the ready set. -/
theorem releaseAll_ok {children : List K} (state : State K)
    (counted : ∀ child ∈ children, ∃ degree, state.indegree[child]? = some degree ∧
      children.count child ≤ degree) :
    ∃ released, releaseAll children state = .ok released ∧ released.order = state.order ∧
      (∀ key : K, released.indegree[key]? = state.indegree[key]?.map (· - children.count key)) ∧
      ∀ key : K, key ∈ released.ready ↔
        key ∈ state.ready ∨ (key ∈ children ∧ state.indegree[key]? = some (children.count key)) := by
  induction children generalizing state with
  | nil => exact ⟨state, rfl, rfl, fun _ => by simp, fun _ => by simp⟩
  | cons child rest ih =>
    obtain ⟨degree, count, enough⟩ := counted child List.mem_cons_self
    rw [List.count_cons_self] at enough
    let lowered : State K := { state with
      indegree := state.indegree.insert child (degree - 1)
      ready := if degree - 1 = 0 then state.ready.insert child else state.ready }
    have step : release child state = .ok lowered := by
      simp only [release, count, lowered]
    have elsewhere : ∀ key, child ≠ key → lowered.indegree[key]? = state.indegree[key]? := by
      intro key other
      simp only [lowered, BTreeMap.getElem?_insert, if_neg other]
    have here : lowered.indegree[child]? = some (degree - 1) := Std.ExtTreeMap.getElem?_insert_self
    obtain ⟨released, run, order, counts, ready⟩ := ih lowered
      fun key member => by
        by_cases same : child = key
        · subst same
          exact ⟨degree - 1, here, Nat.le_sub_of_add_le enough⟩
        · obtain ⟨other, known, above⟩ := counted key (List.mem_cons_of_mem _ member)
          rw [List.count_cons_of_ne same] at above
          exact ⟨other, (elsewhere key same).trans known, above⟩
    refine ⟨released, ?_, order, fun key => ?_, fun key => ?_⟩
    · rw [releaseAll, step]
      exact run
    · rw [counts key]
      by_cases same : child = key
      · subst same
        rw [here, count, List.count_cons_self, Option.map_some, Option.map_some, Nat.sub_sub,
          Nat.add_comm 1]
      · rw [elsewhere key same, List.count_cons_of_ne same]
    · rw [ready key]
      by_cases same : child = key
      · subst same
        -- Another copy is still to come exactly when the count is not down to zero.
        have more : child ∈ rest ↔ 0 < rest.count child := List.count_pos_iff.symm
        rw [here, count, List.count_cons_self, more]
        simp only [lowered, List.mem_cons_self, true_and, Option.some.injEq]
        split
        case isTrue zero =>
          rw [BTreeSet.mem_insert]
          exact iff_of_true (.inl (.inl rfl)) (.inr (by omega))
        case isFalse positive =>
          exact or_congr_right (by omega)
      · have sameReady : key ∈ lowered.ready ↔ key ∈ state.ready := by
          simp only [lowered]
          split
          · rw [BTreeSet.mem_insert]
            exact or_iff_right same
          · rfl
        rw [sameReady, elsewhere key same, List.mem_cons, or_iff_right (Ne.symm same),
          List.count_cons_of_ne same]

/-- Listing one more key lowers a count by the times the key is named. -/
theorem countP_append_listed (named : List K) {listed : List K} {key : K} (fresh : key ∉ listed) :
    (named.countP fun d => decide (d ∉ listed)) =
      (named.countP fun d => decide (d ∉ listed ++ [key])) + named.count key := by
  induction named with
  | nil => rfl
  | cons head rest ih =>
    rw [List.countP_cons, List.countP_cons, List.count_cons, ih]
    by_cases same : head = key
    · subst same
      simp [fresh]
      omega
    · have apart : head ∈ listed ++ [key] ↔ head ∈ listed := by
        rw [List.mem_append, List.mem_singleton]
        exact or_iff_left same
      simp only [apart, beq_iff_eq, if_neg same]
      omega

/-- The listed keys are keys, each once. -/
theorem Inv.subperm {state : State K} (inv : Inv dependencies nodes state) :
    state.order.Subperm nodes.keys := by
  obtain ⟨distinct, _, inside⟩ := inv.legal.nodup
  exact List.subperm_of_subset distinct fun key member => Std.ExtTreeMap.mem_keys.mpr (inside key member)

theorem Inv.length_le {state : State K} (inv : Inv dependencies nodes state) :
    state.order.length ≤ nodes.size := by
  rw [← Std.ExtTreeMap.length_keys]
  exact inv.subperm.length_le

/-- **One round keeps the invariant** and lists one more key. -/
theorem round_inv {state : State K} (inv : Inv dependencies nodes state) {key : K}
    (ready : key ∈ state.ready) :
    ∃ next, round dependencies nodes key state = .ok next ∧ Inv dependencies nodes next ∧
      next.order = state.order ++ [key] := by
  obtain ⟨fresh, zero⟩ := (inv.ready key).mp ready
  have own : ∃ value, nodes[key]? = some value ∧
      ∀ dependency ∈ dependencies value, dependency ∈ state.order := by
    rw [inv.degree key, Option.map_eq_some_iff] at zero
    obtain ⟨value, entry, none⟩ := zero
    refine ⟨value, entry, fun dependency named => ?_⟩
    simpa using List.countP_eq_zero.mp none dependency named
  -- What a key counts is what it still counts after the round and the times it names `key`.
  have split_ : ∀ (child : K) (value : V), nodes[child]? = some value →
      state.indegree[child]? = some
        (((dependencies value).countP fun d => decide (d ∉ state.order ++ [key])) +
          (dependents dependencies nodes key).count child) := by
    intro child value entry
    rw [inv.degree child, entry, Option.map_some, countP_append_listed _ fresh,
      count_dependents entry]
  have counted : ∀ child ∈ dependents dependencies nodes key, ∃ degree,
      state.indegree[child]? = some degree ∧ (dependents dependencies nodes key).count child ≤ degree := by
    intro child member
    obtain ⟨value, entry, _⟩ := mem_dependents.mp member
    exact ⟨_, split_ child value entry, Nat.le_add_left _ _⟩
  obtain ⟨next, run, order, counts, readies⟩ := releaseAll_ok
    { state with ready := state.ready.erase key, order := state.order ++ [key] } counted
  have degree : ∀ other : K, next.indegree[other]? = nodes[other]?.map fun value =>
      (dependencies value).countP fun d => decide (d ∉ next.order) := by
    intro other
    rw [counts other, order]
    show state.indegree[other]?.map _ = _
    match entry : nodes[other]? with
    | none =>
      rw [inv.degree other, entry]
      rfl
    | some value =>
      rw [split_ other value entry, Option.map_some, Option.map_some, Nat.add_sub_cancel]
  have legal : ReadyOrder dependencies nodes [] (state.order ++ [key]) :=
    inv.legal.append ⟨by simpa using own, by simpa using fresh, trivial⟩
  refine ⟨next, run, ⟨degree, fun other => ?_, by rw [order]; exact legal⟩, order⟩
  rw [readies other, order]
  constructor
  · rintro (kept | ⟨member, last⟩)
    · obtain ⟨different, member⟩ := Std.ExtTreeSet.mem_erase.mp kept
      obtain ⟨new, none⟩ := (inv.ready other).mp member
      have stays : next.indegree[other]? = some (0 - (dependents dependencies nodes key).count other) := by
        rw [counts other]
        show state.indegree[other]?.map _ = _
        rw [none, Option.map_some]
      refine ⟨?_, by rwa [Nat.zero_sub] at stays⟩
      rw [List.mem_append, List.mem_singleton]
      rintro (listed | rfl)
      · exact new listed
      · exact different (Std.LawfulEqCmp.compare_eq_iff_eq.mpr rfl)
    · refine ⟨?_, ?_⟩
      · obtain ⟨value, entry, inside⟩ := mem_dependents.mp member
        rw [List.mem_append, List.mem_singleton]
        rintro (listed | rfl)
        · exact fresh (by simpa using inv.legal.dependencies_mem listed entry inside)
        · obtain ⟨own, ownEntry, done⟩ := own
          rw [entry, Option.some.injEq] at ownEntry
          subst ownEntry
          exact fresh (done other inside)
      · rw [counts other]
        show state.indegree[other]?.map _ = _
        rw [last, Option.map_some, Nat.sub_self]
  · rintro ⟨new, none⟩
    rw [counts other] at none
    obtain ⟨degree, before, zero⟩ := Option.map_eq_some_iff.mp none
    by_cases member : other ∈ dependents dependencies nodes key
    · obtain ⟨value, entry, _⟩ := mem_dependents.mp member
      have known := split_ other value entry
      refine .inr ⟨member, ?_⟩
      rw [show state.indegree[other]? = some degree from before] at known
      show state.indegree[other]? = _
      rw [show state.indegree[other]? = some degree from before]
      have least := Option.some.inj known
      exact congrArg some (by omega)
    · rw [List.count_eq_zero_of_not_mem member, Nat.sub_zero] at zero
      refine .inl (Std.ExtTreeSet.mem_erase.mpr ⟨fun same => new ?_, (inv.ready other).mpr
        ⟨fun listed => new (List.mem_append_left _ listed), zero ▸ before⟩⟩)
      rw [Std.LawfulEqCmp.eq_of_compare same]
      exact List.mem_append_right _ (List.mem_singleton.mpr rfl)

/-- The loop keeps the invariant; it stops when no key is ready, which fuel for a round more than there
are keys left lets it reach. -/
theorem loop_inv (fuel : Nat) {state : State K} (inv : Inv dependencies nodes state)
    (enough : nodes.size < state.order.length + fuel) :
    ∃ final, loop dependencies nodes fuel state = .ok final ∧ Inv dependencies nodes final ∧
      ∀ key, key ∉ final.ready := by
  induction fuel generalizing state with
  | zero =>
    have short := inv.length_le
    omega
  | succ fuel ih =>
    rw [loop]
    match least : state.ready.toList.head? with
    | none =>
      refine ⟨state, rfl, inv, fun key member => ?_⟩
      have listed := Std.ExtTreeSet.mem_toList.mpr member
      rw [List.head?_eq_none_iff.mp least] at listed
      cases listed
    | some key =>
      obtain ⟨next, run, nextInv, longer⟩ := round_inv inv
        (Std.ExtTreeSet.mem_toList.mp (List.mem_of_mem_head? least))
      obtain ⟨final, rest, finalInv, done⟩ := ih nextInv (by
        rw [longer, List.length_append, List.length_singleton]
        omega)
      exact ⟨final, by simp only [run]; exact rest, finalInv, done⟩

theorem start_inv : Inv dependencies nodes (start dependencies nodes) where
  degree key := by
    simp only [start, Std.ExtTreeMap.getElem?_map]
    refine congrArg (nodes[key]?.map ·) (funext fun value => ?_)
    simp
  ready key := by
    simp only [start, Std.ExtTreeSet.mem_ofList, List.contains_iff_mem, Std.ExtTreeMap.getElem?_map,
      Option.map_eq_some_iff, List.not_mem_nil, not_false_eq_true, true_and, List.mem_map,
      List.mem_filter, decide_eq_true_eq]
    constructor
    · rintro ⟨⟨other, value⟩, ⟨listed, none⟩, rfl⟩
      exact ⟨value, Std.ExtTreeMap.mem_toList_iff_getElem?_eq_some.mp listed, none⟩
    · rintro ⟨value, entry, none⟩
      exact ⟨(key, value), ⟨Std.ExtTreeMap.mem_toList_iff_getElem?_eq_some.mpr entry, none⟩, rfl⟩
  legal := trivial

variable (dependencies nodes) in
/-- The state the loop ends in. -/
theorem loop_ends : ∃ final, loop dependencies nodes (nodes.size + 1) (start dependencies nodes) = .ok final ∧
    Inv dependencies nodes final ∧ ∀ key, key ∉ final.ready :=
  loop_inv (nodes.size + 1) start_inv (Nat.lt_add_left _ (Nat.lt_succ_self _))

/-- **A list `order` returns is a legal order of exactly the keys.** -/
theorem order_ok {listed : List K} (ok : order dependencies nodes = .ok listed) :
    ReadyOrder dependencies nodes [] listed ∧ ∀ key, key ∈ listed ↔ key ∈ nodes := by
  unfold order at ok
  split at ok
  · cases ok
  obtain ⟨final, run, inv, _⟩ := loop_ends dependencies nodes
  rw [run] at ok
  change (if final.order.length = nodes.size then Except.ok final.order else _) = .ok listed at ok
  split at ok
  case isFalse => cases ok
  case isTrue all =>
    cases ok
    have permutation := inv.subperm.perm_of_length_le
      (Nat.le_of_eq (by rw [Std.ExtTreeMap.length_keys, all]))
    exact ⟨inv.legal, fun key => permutation.mem_iff.trans Std.ExtTreeMap.mem_keys⟩

end Ketchup.Kahn
