/-
**The order of a graph, and what it says of one without an order.**

`validateGraph` and `topologicalOrder` accept the graphs whose dependencies are all there and go round in
no cycle, and the order lists each node after what it depends on. For a graph with a cycle the error
names the least node that leads to one: `order_sound_iff` says when that node is on a cycle itself.
-/

import Ketchup.Graph.Meaning
import Ketchup.Library.Cycles

namespace Ketchup.Graph

open Relation

variable {F : Type}

section Relations

variable (nodes : Nodes F)

/-- Every dependency names a node. -/
abbrev Complete : Prop := Kahn.Complete EvaluatorNode.dependencies nodes

abbrev OnCycle (id : NodeId) : Prop := Kahn.OnCycle EvaluatorNode.dependencies nodes id

abbrev LeadsToCycle (id : NodeId) : Prop := Kahn.LeadsToCycle EvaluatorNode.dependencies nodes id

/-- The checks of an entry that are about it alone. -/
structure EntryChecks (key : NodeId) (node : EvaluatorNode F) : Prop where
  same : key = node.id
  reserved : node.id ≠ 0
  named : ¬(trim node.name).isEmpty
  canonical : node.dependencies.IsChain (· < ·)
  outputs : ∀ source ast outputs allowed, node.kind = .rule source ast outputs allowed →
    validateRuleOutputs node.id node.outputPorts outputs = .ok ()

/-- What the order of a graph and its absence are to mean. -/
structure OrderSound : Prop where
  ordered : (∃ order, topologicalOrder nodes = .ok order) ↔
    Complete nodes ∧ ∀ id, ¬OnCycle nodes id
  validated : validateGraph nodes = .ok () ↔
    (∀ (key : NodeId) (node : EvaluatorNode F), nodes[key]? = some node → EntryChecks key node) ∧
      Complete nodes ∧ ∀ id, ¬OnCycle nodes id
  /-- Each node once, after what it depends on. -/
  order : ∀ order, topologicalOrder nodes = .ok order →
    order.Nodup ∧ (∀ id, id ∈ order ↔ id ∈ nodes) ∧
      ∀ before id after node, order = before ++ id :: after → nodes[id]? = some node →
        ∀ dependency ∈ node.dependencies, dependency ∈ before
  /-- A node named for a cycle is on one. -/
  cycle : ∀ id, topologicalOrder nodes = .error (.dependencyCycle id) ∨
    validateGraph nodes = .error (.dependencyCycle id) → OnCycle nodes id

end Relations

variable {nodes : Nodes F}

/-! ### The order -/

theorem topologicalOrder_isOk_iff :
    (∃ order, topologicalOrder nodes = .ok order) ↔ Complete nodes ∧ ∀ id, ¬OnCycle nodes id := by
  rw [← Kahn.order_isOk_iff]
  unfold topologicalOrder
  constructor
  · rintro ⟨order, ok⟩
    split at ok
    case h_1 listed found => exact ⟨listed, found⟩
    all_goals cases ok
  · rintro ⟨listed, found⟩
    exact ⟨listed, by rw [found]⟩

/-- With every dependency there, a graph without an order has a node named for a cycle. -/
theorem topologicalOrder_named (complete : Complete nodes)
    (none_ : ¬∃ order, topologicalOrder nodes = .ok order) :
    ∃ id, topologicalOrder nodes = .error (.dependencyCycle id) := by
  obtain ⟨final, _, _, is⟩ := Kahn.order_of_complete complete
  unfold topologicalOrder at none_ ⊢
  rw [is] at none_ ⊢
  by_cases all : final.order.length = nodes.size
  · rw [if_pos all] at none_
    exact absurd ⟨_, rfl⟩ none_
  · rw [if_neg all]
    exact ⟨_, rfl⟩

/-- The node named for a cycle is the least that leads to one. -/
theorem topologicalOrder_cycle {id : NodeId}
    (failed : topologicalOrder nodes = .error (.dependencyCycle id)) :
    Complete nodes ∧ LeadsToCycle nodes id ∧ ∀ other, LeadsToCycle nodes other → id ≤ other := by
  unfold topologicalOrder at failed
  split at failed
  case h_1 => cases failed
  case h_2 => cases failed
  case h_3 found is =>
    obtain ⟨complete, key, rfl, leads, least⟩ := Kahn.order_cyclic is
    cases failed
    refine ⟨complete, leads, fun other otherLeads => ?_⟩
    rcases least other otherLeads with same | less
    · exact Nat.le_of_eq same.symm
    · exact Nat.le_of_lt (Nat.compare_eq_lt.mp less)

/-- An order lists each node after what it depends on. -/
theorem ReadyOrder_before {done order before after : List NodeId} {id : NodeId} {node : EvaluatorNode F}
    (legal : Kahn.ReadyOrder EvaluatorNode.dependencies nodes done order)
    (split_ : order = before ++ id :: after) (entry : nodes[id]? = some node) :
    ∀ dependency ∈ node.dependencies, dependency ∈ done ++ before := by
  induction before generalizing done order with
  | nil =>
    subst split_
    obtain ⟨⟨other, known, ready⟩, _, _⟩ := legal
    obtain rfl := Option.some.inj (entry.symm.trans known)
    intro dependency named
    exact List.mem_append_left _ (ready dependency named)
  | cons head rest ih =>
    subst split_
    obtain ⟨_, _, later⟩ := legal
    intro dependency named
    have there := ih later rfl dependency named
    rwa [List.append_assoc] at there

/-! ### The checks -/

theorem validateNodeHeader_ok_iff {id : NodeId} {name : String} {dependencies : List NodeId} :
    validateNodeHeader id name dependencies = .ok () ↔
      id ≠ 0 ∧ ¬(trim name).isEmpty ∧ dependencies.IsChain (· < ·) ∧ id ∉ dependencies := by
  unfold validateNodeHeader
  constructor
  · intro ok
    split at ok
    · cases ok
    split at ok
    · cases ok
    split at ok
    · cases ok
    split at ok
    · cases ok
    next reserved named chain cycle => exact ⟨reserved, by simpa using named, not_not.mp chain, cycle⟩
  · rintro ⟨reserved, named, chain, cycle⟩
    rw [if_neg reserved, if_neg (by simpa using named), if_neg (not_not.mpr chain), if_neg cycle]

theorem validateEntry_ok_iff {key : NodeId} {node : EvaluatorNode F} :
    validateEntry nodes key node = .ok () ↔
      EntryChecks key node ∧ node.id ∉ node.dependencies ∧
        ∀ dependency ∈ node.dependencies, dependency ∈ nodes := by
  unfold validateEntry
  by_cases same : key = node.id
  · rw [if_neg (not_not.mpr same), check_ok_iff, validateNodeHeader_ok_iff]
    have present : (node.dependencies.find? fun dependency => !nodes.contains dependency) = none ↔
        ∀ dependency ∈ node.dependencies, dependency ∈ nodes := by
      rw [List.find?_eq_none]
      refine forall₂_congr fun dependency _ => ?_
      rw [Std.ExtTreeMap.mem_iff_contains]
      simp
    cases missing : node.dependencies.find? fun dependency => !nodes.contains dependency with
    | some dependency =>
      have some_ : ¬∀ dependency ∈ node.dependencies, dependency ∈ nodes := fun all => by
        rw [present.mpr all] at missing
        cases missing
      exact iff_of_false (fun ok => nomatch ok.2) fun ok => some_ ok.2.2
    | none =>
      have all := present.mp missing
      constructor
      · rintro ⟨⟨reserved, named, chain, cycle⟩, ok⟩
        refine ⟨⟨same, reserved, named, chain, fun source ast outputs allowed rule => ?_⟩, cycle, all⟩
        rw [rule] at ok
        exact ok
      · rintro ⟨checks, cycle, _⟩
        refine ⟨⟨checks.reserved, checks.named, checks.canonical, cycle⟩, ?_⟩
        cases rule : node.kind with
        | parameter | expression => rfl
        | rule source ast outputs allowed => exact checks.outputs source ast outputs allowed rule
  · rw [if_pos same]
    exact iff_of_false (fun ok => nomatch ok) fun ok => same ok.1.same

theorem validateGraph_ok_iff :
    validateGraph nodes = .ok () ↔
      (∀ (key : NodeId) (node : EvaluatorNode F), nodes[key]? = some node → EntryChecks key node) ∧
        Complete nodes ∧ ∀ id, ¬OnCycle nodes id := by
  have entries : (nodes.toList.forM fun entry => validateEntry nodes entry.1 entry.2) = .ok () ↔
      ∀ (key : NodeId) (node : EvaluatorNode F), nodes[key]? = some node →
        EntryChecks key node ∧ node.id ∉ node.dependencies ∧
          ∀ dependency ∈ node.dependencies, dependency ∈ nodes := by
    rw [forM_ok_iff]
    constructor
    · intro all key node entry
      exact validateEntry_ok_iff.mp
        (all (key, node) (Std.ExtTreeMap.mem_toList_iff_getElem?_eq_some.mpr entry))
    · intro all entry listed
      exact validateEntry_ok_iff.mpr
        (all entry.1 entry.2 (Std.ExtTreeMap.mem_toList_iff_getElem?_eq_some.mp listed))
  unfold validateGraph
  rw [check_ok_iff, entries, bind_ok_iff]
  constructor
  · rintro ⟨all, order, ordered, _⟩
    exact ⟨fun key node entry => (all key node entry).1, topologicalOrder_isOk_iff.mp ⟨order, ordered⟩⟩
  · rintro ⟨checks, complete, acyclic⟩
    obtain ⟨order, ordered⟩ := topologicalOrder_isOk_iff.mpr ⟨complete, acyclic⟩
    refine ⟨fun key node entry => ⟨checks key node entry, fun itself => ?_, complete key node entry⟩,
      order, ordered, rfl⟩
    have same := (checks key node entry).same
    exact acyclic key (.single ⟨node, entry, same ▸ itself⟩)

/-- The outputs of a rule are not refused for a cycle. -/
theorem validateOutputLoop_error {ruleId id : NodeId} {ports : List String} {fuel count : Nat}
    {stack : List (RuleOutput × Nat)} :
    validateOutputLoop ruleId ports fuel count stack ≠ .error (.dependencyCycle id) := by
  induction fuel generalizing count stack with
  | zero => exact fun is => by cases is
  | succ fuel ih =>
    cases stack with
    | nil => exact fun is => by cases is
    | cons head rest =>
      obtain ⟨output, depth⟩ := head
      rw [validateOutputLoop]
      split
      case isTrue => exact fun is => by cases is
      case isFalse =>
        split
        case isTrue => exact fun is => by cases is
        case isFalse =>
          split
          case isTrue => exact fun is => by cases is
          case isFalse =>
            split
            case isTrue => exact fun is => by cases is
            case isFalse => exact ih

theorem validateEntry_cycle {key id : NodeId} {node : EvaluatorNode F} (entry : nodes[key]? = some node)
    (failed : validateEntry nodes key node = .error (.dependencyCycle id)) : OnCycle nodes id := by
  unfold validateEntry at failed
  split at failed
  case isTrue => cases failed
  case isFalse same =>
    rw [not_not] at same
    cases header : validateNodeHeader node.id node.name node.dependencies with
    | error error =>
      rw [header] at failed
      cases failed
      unfold validateNodeHeader at header
      split at header
      · cases header
      split at header
      · cases header
      split at header
      · cases header
      split at header <;> cases header
      next itself => exact .single ⟨node, same ▸ entry, itself⟩
    | ok checked =>
      rw [header, bind_eq_of_ok rfl] at failed
      split at failed
      case h_1 => cases failed
      case h_2 =>
        split at failed
        case h_1 => exact absurd failed validateOutputLoop_error
        case h_2 => cases failed
        case h_3 => cases failed

/-- Whatever node a check of the graph names for a cycle is on one, if those the order names are. -/
theorem validateGraph_cycle {id : NodeId}
    (failed : validateGraph nodes = .error (.dependencyCycle id)) :
    OnCycle nodes id ∨ topologicalOrder nodes = .error (.dependencyCycle id) := by
  unfold validateGraph at failed
  cases entries : nodes.toList.forM fun entry => validateEntry nodes entry.1 entry.2 with
  | error error =>
    rw [entries] at failed
    cases failed
    obtain ⟨entry, listed, is⟩ := forM_error entries
    exact .inl (validateEntry_cycle (Std.ExtTreeMap.mem_toList_iff_getElem?_eq_some.mp listed) is)
  | ok checked =>
    rw [entries, bind_eq_of_ok rfl] at failed
    cases ordered : topologicalOrder nodes with
    | error error =>
      rw [ordered] at failed
      cases failed
      exact .inr rfl
    | ok order =>
      rw [ordered] at failed
      cases failed

/-! ### Exactly when a named node is on a cycle -/

/-- The order of a graph is sound exactly when the least node that leads to a cycle, if every dependency
is there, lies on one. -/
theorem order_sound_iff (nodes : Nodes F) :
    OrderSound nodes ↔ (Complete nodes → ∀ id, LeadsToCycle nodes id →
      (∀ other, LeadsToCycle nodes other → id ≤ other) → OnCycle nodes id) := by
  constructor
  · intro sound complete id leads least
    have none_ : ¬∃ order, topologicalOrder nodes = .ok order := by
      rw [topologicalOrder_isOk_iff]
      rintro ⟨_, acyclic⟩
      obtain ⟨other, _, cycle⟩ := leads
      exact acyclic other cycle
    obtain ⟨named, failed⟩ := topologicalOrder_named complete none_
    obtain ⟨_, namedLeads, namedLeast⟩ := topologicalOrder_cycle failed
    have same : id = named := Nat.le_antisymm (least named namedLeads) (namedLeast id leads)
    exact same ▸ sound.cycle named (.inl failed)
  · intro onCycle
    refine ⟨topologicalOrder_isOk_iff, validateGraph_ok_iff, fun order ok => ?_, fun id failed => ?_⟩
    · obtain ⟨legal, all⟩ := topologicalOrder_ok ok
      refine ⟨legal.nodup.1, all, fun before id after node split_ entry dependency named => ?_⟩
      have there := ReadyOrder_before legal split_ entry dependency named
      rwa [List.nil_append] at there
    · have named : OnCycle nodes id ∨ topologicalOrder nodes = .error (.dependencyCycle id) :=
        failed.elim .inr validateGraph_cycle
      rcases named with cycle | failed
      · exact cycle
      · obtain ⟨complete, leads, least⟩ := topologicalOrder_cycle failed
        exact onCycle complete id leads least

/-- A node that depends on one of two nodes that depend on each other. -/
def besideCycle : Nodes Int :=
  (((∅ : Nodes Int).insert 1 ⟨1, "shelf", .parameter ⟨"1", 1⟩, [], [], [2], nofun⟩).insert 2
    ⟨2, "width", .parameter ⟨"2", 2⟩, [], [], [3], nofun⟩).insert 3
    ⟨3, "depth", .parameter ⟨"3", 3⟩, [], [], [2], nofun⟩

/-- The error names the node beside the cycle. -/
theorem besideCycle_named : ¬OrderSound besideCycle := by
  intro sound
  have failed : topologicalOrder besideCycle = .error (.dependencyCycle 1) := by decide +kernel
  obtain ⟨last, _, node, entry, named⟩ := TransGen.tail'_iff.mp (sound.cycle 1 (.inl failed))
  have nowhere : ∀ entry ∈ besideCycle.toList, 1 ∉ entry.2.dependencies := by decide +kernel
  exact nowhere (last, node) (Std.ExtTreeMap.mem_toList_iff_getElem?_eq_some.mpr entry) named

end Ketchup.Graph
