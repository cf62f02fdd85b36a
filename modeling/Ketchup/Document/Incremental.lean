/-
**The evaluation a revision keeps is that of a run from scratch.**

A batch edits nodes and evaluates along the way, each time from the report before. Through its
commands, what that report holds of a node stays the node's meaning unless the node reaches one that a
command wrote or deleted (`BatchEdit.Fresh`, `BatchEdit.Fresh.apply`). At the end every such node that
is left is recomputed: a written node is a root, a deleted one has no dependents in a valid graph
(`reaches_recomputed`). So the report of the new revision is correct (`batchRevision_correct`), and
with it that of every revision of a run (`kept_evaluation_is_full`).
-/

import Ketchup.Document.History
import Ketchup.Document.NodesOnly
import Ketchup.Graph.Meaning

set_option linter.unusedSectionVars false

namespace Ketchup.Document

open Ketchup.Graph Relation

section Incremental

variable {F : Type} {K : Kernel F} [Binary64 F] [Sha256]

/-! ### Nodes that reach a touched one -/

inductive Reaches (nodes : Nodes F) (touched : List NodeId) : NodeId → Prop
  | touched {id : NodeId} (member : id ∈ touched) : Reaches nodes touched id
  | dependent {id dependency : NodeId} {node : EvaluatorNode F} (entry : nodes[id]? = some node)
      (depends : dependency ∈ node.dependencies) (reaches : Reaches nodes touched dependency) :
      Reaches nodes touched id

theorem Reaches.mono {nodes : Nodes F} {touched more : List NodeId} (subset : touched ⊆ more)
    {id : NodeId} (reaches : Reaches nodes touched id) : Reaches nodes more id := by
  induction reaches with
  | touched member => exact .touched (subset member)
  | dependent entry depends _ ih => exact .dependent entry depends ih

/-- What reached a touched node still does, or reaches the node written since. -/
theorem Reaches.of_agree {nodes changed : Nodes F} {touched : List NodeId} {target : NodeId}
    (agree : ∀ other, other ≠ target → changed[other]? = nodes[other]?) {id : NodeId}
    (reaches : Reaches nodes touched id) : Reaches changed (target :: touched) id := by
  induction reaches with
  | touched member => exact .touched (List.mem_cons_of_mem _ member)
  | @dependent id dependency node entry depends _ ih =>
    by_cases same : id = target
    · exact .touched (same ▸ List.mem_cons_self)
    · exact .dependent ((agree id same).trans entry) depends ih

/-- A node that is left and reaches a touched one is in a closed set that holds the touched ones that
are left. -/
theorem reaches_recomputed {nodes : Nodes F} {touched : List NodeId} {recomputed : BTreeSet NodeId}
    (valid : validateGraph nodes = .ok ())
    (closed : Closed EvaluatorNode.dependencies nodes recomputed)
    (covers : ∀ id ∈ touched, id ∈ recomputed ∨ nodes[id]? = none) {id : NodeId}
    (reaches : Reaches nodes touched id) (present : id ∈ nodes) : id ∈ recomputed := by
  induction reaches with
  | @touched id member =>
    refine (covers id member).resolve_right fun gone => ?_
    rw [Std.ExtTreeMap.mem_iff_isSome_getElem?, gone] at present
    cases present
  | @dependent id dependency node entry depends _ ih =>
    obtain ⟨entries, _⟩ := validateGraph_ok valid
    exact closed id node entry ⟨dependency, depends, ih ((entries id node entry).present dependency depends)⟩

/-! ### Commands on nodes -/

theorem insertNode_ok {nodes after : Nodes F} {id : NodeId} {E : Type}
    {built : Except GraphError (EvaluatorNode F)}
    (ok : (insertNode nodes id built : Except (CanonicalError E) _) = .ok after) :
    ∃ node, after = nodes.insert id node := by
  unfold insertNode at ok
  split at ok
  case h_1 node => exact ⟨node, (Except.ok.inj ok).symm⟩
  case h_2 => cases ok

/-- A command on nodes inserts a node under its target, or deletes it. -/
inductive Writes (K : Kernel F) (nodes : Nodes F) (command : EvaluatorCommand F) : Nodes F → Prop
  | insert {id : NodeId} (target : command.target? = some id) (node : EvaluatorNode F)
      (root : ∀ collections, evaluatorRoots K collections (.evaluator command) = [id]) :
      Writes K nodes command (nodes.insert id node)
  | delete {id : NodeId} (target : command.target? = some id) :
      Writes K nodes command (nodes.erase id)
  | nothing (target : command.target? = none) : Writes K nodes command nodes

theorem writes_of_insertNode {nodes after : Nodes F} {id : NodeId} {E : Type}
    {command : EvaluatorCommand F} {built : Except GraphError (EvaluatorNode F)}
    (target : command.target? = some id)
    (root : ∀ collections, evaluatorRoots K collections (.evaluator command) = [id])
    (ok : (insertNode nodes id built : Except (CanonicalError E) _) = .ok after) :
    Writes K nodes command after := by
  obtain ⟨node, rfl⟩ := insertNode_ok ok
  exact .insert target node root

theorem nodesAfter_writes {nodes after : Nodes F} {E : Type} {command : EvaluatorCommand F}
    (ok : (nodesAfter nodes command : Except (CanonicalError E) _) = .ok after) :
    Writes K nodes command after := by
  cases command with
  | createEvaluatorNode id name dimension dependencies =>
    rw [nodesAfter, createEvaluatorInput] at ok
    split at ok
    · cases ok
    split at ok
    · cases ok
    exact writes_of_insertNode rfl (fun _ => rfl) ok
  | deleteEvaluatorNode id =>
    rw [nodesAfter] at ok
    split at ok
    · cases ok
      exact .delete rfl
    · cases ok
  | setEvaluatorDimension id dimension =>
    rw [nodesAfter] at ok
    split at ok
    · cases ok
    exact writes_of_insertNode rfl (fun _ => rfl) ok
  | renameEvaluatorNode id name =>
    rw [nodesAfter] at ok
    split at ok
    · cases ok
    exact writes_of_insertNode rfl (fun _ => rfl) ok
  | createExpressionNode id name expression =>
    rw [nodesAfter] at ok
    split at ok
    · cases ok
    exact writes_of_insertNode rfl (fun _ => rfl) ok
  | createRuleNode id name expression inputPorts outputPorts outputs overrideParameters =>
    rw [nodesAfter] at ok
    split at ok
    · cases ok
    exact writes_of_insertNode rfl (fun _ => rfl) ok
  | setNodeExpression id expression =>
    rw [nodesAfter] at ok
    split at ok
    · cases ok
    split at ok
    · cases ok
    · exact writes_of_insertNode rfl (fun _ => rfl) ok
    · exact writes_of_insertNode rfl (fun _ => rfl) ok
  | setRuleOutputs id outputs =>
    rw [nodesAfter] at ok
    split at ok
    · cases ok
    split at ok
    · exact writes_of_insertNode rfl (fun _ => rfl) ok
    · cases ok
    · cases ok
  | recomputeFeatureParameters identity scope =>
    cases ok
    exact .nothing rfl

/-! ### Through a batch -/

/-- The nodes the commands wrote or deleted. -/
def touchedBy (commands : List (CanonicalCommand F K.Command)) : List NodeId :=
  commands.filterMap fun
    | .evaluator command => command.target?
    | .collections _ => none

/-- After some commands of a batch: what the report so far holds of a node that reaches none of those
touched is its meaning, and a touched node is a root or gone. -/
structure BatchEdit.Fresh (edit : BatchEdit K) (commands : List (CanonicalCommand F K.Command)) :
    Prop where
  means : ∀ report, edit.previousEvaluation = some report →
    ∀ (id : NodeId) (evaluation : NodeEvaluation F), report.nodes[id]? = some evaluation →
      ¬ Reaches edit.product.evaluatorNodes (touchedBy commands) id →
        EvaluatesTo edit.product.evaluatorNodes report.identity id evaluation
  roots : ∀ id ∈ touchedBy commands,
    (∃ command ∈ commands, ∀ collections, id ∈ evaluatorRoots K collections command) ∨
      edit.product.evaluatorNodes[id]? = none

theorem mem_touchedBy_cons {command : CanonicalCommand F K.Command}
    {commands : List (CanonicalCommand F K.Command)} :
    touchedBy (command :: commands) = touchedBy (K := K) [command] ++ touchedBy commands :=
  List.filterMap_append (l := [command])

theorem touchedBy_evaluator (command : EvaluatorCommand F) :
    touchedBy (K := K) [.evaluator command] = command.target?.toList := by
  rcases target : command.target? with _ | id <;> simp [touchedBy, target]

theorem BatchEdit.Fresh.roots_mono {edit : BatchEdit K}
    {commands : List (CanonicalCommand F K.Command)} (fresh : edit.Fresh commands)
    (command : CanonicalCommand F K.Command) {id : NodeId} (member : id ∈ touchedBy commands) :
    (∃ other ∈ command :: commands, ∀ collections, id ∈ evaluatorRoots K collections other) ∨
      edit.product.evaluatorNodes[id]? = none :=
  (fresh.roots id member).imp_left fun ⟨other, listed, root⟩ =>
    ⟨other, List.mem_cons_of_mem _ listed, root⟩

/-- A command that leaves the nodes as they are, and whose report holds meanings. -/
theorem BatchEdit.Fresh.of_same_nodes {edit edited : BatchEdit K}
    {commands : List (CanonicalCommand F K.Command)} {command : CanonicalCommand F K.Command}
    (fresh : edit.Fresh commands) (untouched : touchedBy (K := K) [command] = [])
    (nodes : edited.product.evaluatorNodes = edit.product.evaluatorNodes)
    (means : ∀ report, edited.previousEvaluation = some report →
      ∀ (id : NodeId) (evaluation : NodeEvaluation F), report.nodes[id]? = some evaluation →
        ¬ Reaches edit.product.evaluatorNodes (touchedBy commands) id →
          EvaluatesTo edit.product.evaluatorNodes report.identity id evaluation) :
    edited.Fresh (command :: commands) := by
  have same : touchedBy (command :: commands) = touchedBy commands := by
    rw [mem_touchedBy_cons, untouched, List.nil_append]
  refine ⟨?_, ?_⟩
  · rw [nodes, same]
    exact means
  · rw [nodes, same]
    exact fun id member => fresh.roots_mono command member

/-- A command that writes or deletes a node and leaves the report as it is. -/
theorem BatchEdit.Fresh.of_target {edit edited : BatchEdit K}
    {commands : List (CanonicalCommand F K.Command)} {command : CanonicalCommand F K.Command}
    {target : NodeId} (fresh : edit.Fresh commands)
    (touched : touchedBy (K := K) [command] = [target])
    (agree : ∀ other, other ≠ target →
      edited.product.evaluatorNodes[other]? = edit.product.evaluatorNodes[other]?)
    (root : (∀ collections, target ∈ evaluatorRoots K collections command) ∨
      edited.product.evaluatorNodes[target]? = none)
    (previous : edited.previousEvaluation = edit.previousEvaluation) :
    edited.Fresh (command :: commands) := by
  have both : touchedBy (command :: commands) = target :: touchedBy commands := by
    rw [mem_touchedBy_cons, touched, List.singleton_append]
  refine ⟨fun report kept id evaluation held unreached => ?_, fun id member => ?_⟩
  · rw [both] at unreached
    have before := fresh.means report (previous ▸ kept) id evaluation held fun reaches =>
      unreached (reaches.of_agree agree)
    refine before.of_agree (Reaches edited.product.evaluatorNodes (target :: touchedBy commands))
      (fun other away => ?_) (fun _ _ entry ⟨_, depends, reaches⟩ => ?_) unreached
    · exact agree other fun same => away (.touched (same ▸ List.mem_cons_self))
    · exact .dependent entry depends reaches
  · by_cases same : id = target
    · subst same
      exact root.imp_left fun isRoot => ⟨command, List.mem_cons_self, isRoot⟩
    · rw [both, List.mem_cons] at member
      rw [agree id same]
      exact fresh.roots_mono command (member.resolve_left same)

/-- A command that inserts or deletes a node, or leaves the nodes as they are. -/
theorem BatchEdit.Fresh.of_writes {edit : BatchEdit K}
    {commands : List (CanonicalCommand F K.Command)} {command : EvaluatorCommand F}
    (fresh : edit.Fresh commands) {nodes : Nodes F}
    (writes : Writes K edit.product.evaluatorNodes command nodes) :
    BatchEdit.Fresh { edit with product := { edit.product with evaluatorNodes := nodes } }
      (.evaluator command :: commands) := by
  cases writes with
  | insert target node root =>
    refine fresh.of_target ((touchedBy_evaluator command).trans (congrArg _ target)) (fun other away => ?_)
      (Or.inl fun collections => by rw [root]; exact List.mem_cons_self) rfl
    show (edit.product.evaluatorNodes.insert _ node)[other]? = _
    rw [BTreeMap.getElem?_insert, if_neg fun same => away same.symm]
  | delete target =>
    refine fresh.of_target ((touchedBy_evaluator command).trans (congrArg _ target)) (fun other away => ?_) (Or.inr ?_) rfl
    · show (edit.product.evaluatorNodes.erase _)[other]? = _
      rw [BTreeMap.getElem?_erase, if_neg fun same => away same.symm]
    · exact Std.ExtTreeMap.getElem?_erase_self
  | nothing target => exact fresh.of_same_nodes ((touchedBy_evaluator command).trans (congrArg _ target)) rfl fresh.means

theorem recompute_ok {edit edited : BatchEdit K} {identity : EvaluationIdentity}
    {scope : FeatureParameterRecomputeScope} (ok : edit.recompute identity scope = .ok edited) :
    edited.product.evaluatorNodes = edit.product.evaluatorNodes ∧
      ∃ report affected, edited.previousEvaluation = some report ∧
        evaluateAffected edit.product.evaluatorNodes identity edit.previousEvaluation affected =
          .ok report := by
  obtain ⟨⟨report, product⟩, recomputed, ok⟩ := bind_ok ok
  cases ok
  obtain ⟨_, evaluated, recomputed⟩ := bind_ok recomputed
  obtain ⟨_, _, recomputed⟩ := bind_ok recomputed
  cases recomputed
  exact ⟨rfl, report, _, rfl, mapError_ok evaluated⟩

/-- What a recomputation may keep of the report before it is fresh, and so is what it adds. -/
theorem BatchEdit.Fresh.recompute {edit edited : BatchEdit K}
    {commands : List (CanonicalCommand F K.Command)} {identity : EvaluationIdentity}
    {scope : FeatureParameterRecomputeScope} (fresh : edit.Fresh commands)
    (ok : edit.recompute identity scope = .ok edited) :
    edited.Fresh (.evaluator (.recomputeFeatureParameters identity scope) :: commands) := by
  obtain ⟨nodes, report, affected, kept, evaluated⟩ := recompute_ok ok
  refine fresh.of_same_nodes rfl nodes fun _ is id evaluation held unreached => ?_
  obtain rfl : report = _ := Option.some.inj (kept.symm.trans is)
  obtain ⟨_, _, identified, _⟩ := evaluateAffected_ok evaluated
  rw [identified]
  refine evaluateAffected_means (Reaches edit.product.evaluatorNodes (touchedBy commands))
    (fun _ _ entry ⟨_, depends, reaches⟩ => .dependent entry depends reaches) ?_ evaluated held
    unreached
  intro other earlier _ reuse _ away
  obtain ⟨previous, before, same, found⟩ := reusable_some reuse
  exact same ▸ fresh.means previous before other earlier found away

/-- **One command** leaves what it does not reach fresh. -/
theorem BatchEdit.Fresh.apply {edit edited : BatchEdit K}
    {commands : List (CanonicalCommand F K.Command)} {command : CanonicalCommand F K.Command}
    (fresh : edit.Fresh commands) (ok : edit.apply command = .ok edited) :
    edited.Fresh (command :: commands) := by
  obtain ⟨dispatched, dispatch, ok⟩ := bind_ok ok
  have here : dispatched.Fresh (command :: commands) := by
    unfold BatchEdit.dispatch at dispatch
    split at dispatch
    case h_1 => exact fresh.recompute dispatch
    case h_2 command _ =>
      obtain ⟨nodes, after, dispatch⟩ := bind_ok dispatch
      cases dispatch
      exact fresh.of_writes (nodesAfter_writes (attempt_ok after))
    case h_3 command =>
      obtain ⟨_, _, dispatch⟩ := bind_ok dispatch
      cases dispatch
      exact fresh.of_same_nodes rfl rfl fresh.means
  split at ok
  · cases ok
    exact here
  · obtain ⟨journal, _, ok⟩ := bind_ok ok
    cases ok
    exact ⟨here.means, here.roots⟩

/-- **The commands of a batch**, one after the other. -/
theorem BatchEdit.Fresh.applyAll {edit edited : BatchEdit K}
    {done commands : List (CanonicalCommand F K.Command)} (fresh : edit.Fresh done)
    (ok : edit.applyAll commands = .ok edited) : edited.Fresh (commands.reverse ++ done) := by
  induction commands generalizing edit done with
  | nil =>
    cases ok
    exact fresh
  | cons command rest ih =>
    obtain ⟨applied, apply, ok⟩ := bind_ok ok
    simpa using ih (fresh.apply apply) ok

/-! ### The revision of a batch -/

/-- A report a revision keeps is right about its graph. -/
def Revision.EvaluationCorrect (revision : Revision K) : Prop :=
  ∀ report, revision.evaluation = some report →
    report.Correct revision.snapshot.product.evaluatorNodes

theorem settle_ok {current : K.State} {product settled : K.Product}
    {commands : List (CanonicalCommand F K.Command)} {validateDrawingSources : Bool}
    (ok : settle current product commands validateDrawingSources = .ok settled) :
    settled.evaluatorNodes = product.evaluatorNodes := by
  unfold settle at ok
  obtain ⟨_, _, ok⟩ := bind_ok ok
  obtain ⟨_, _, ok⟩ := bind_ok ok
  obtain ⟨_, _, ok⟩ := bind_ok ok
  split at ok
  all_goals
    obtain ⟨_, _, ok⟩ := bind_ok ok
    obtain ⟨_, _, ok⟩ := bind_ok ok
    obtain ⟨_, _, ok⟩ := bind_ok ok
    cases ok
    rfl

/-- **The evaluation of a batch is correct**, when that of the revision it applies to is. -/
theorem batchRevision_correct {store : DocumentStore K} {batch : K.Batch}
    {origin : RevisionOrigin} {validateDrawingSources : Bool} {made : Revision K × Nat}
    (correct : store.currentRevision.EvaluationCorrect)
    (ok : store.batchRevision batch origin validateDrawingSources = .ok made) :
    made.1.EvaluationCorrect := by
  unfold DocumentStore.batchRevision at ok
  split at ok
  · cases ok
  split at ok
  · cases ok
  obtain ⟨edit, applied, ok⟩ := bind_ok ok
  split at ok
  · cases ok
  obtain ⟨product, settled, ok⟩ := bind_ok ok
  obtain ⟨following, _, ok⟩ := bind_ok ok
  obtain ⟨evaluation, evaluated, ok⟩ := bind_ok ok
  obtain ⟨features, _, ok⟩ := bind_ok ok
  cases ok
  have nodes := settle_ok settled
  have evaluated := mapError_ok evaluated
  obtain ⟨identified, valid, identity, outputs, _⟩ := evaluateAffected_ok evaluated
  have fresh : edit.Fresh (batch.commands.reverse ++ []) := by
    refine BatchEdit.Fresh.applyAll ⟨fun report kept id earlier held _ => ?_, fun _ member => ?_⟩
      applied
    · exact (correct report kept).means id earlier held
    · exact absurd member List.not_mem_nil
  rw [List.append_nil] at fresh
  intro report is
  cases is
  refine ⟨valid, identity ▸ identified, fun id evaluation recorded => ?_, outputs⟩
  rw [identity]
  refine evaluateAffected_means_all ?_ evaluated recorded
  intro other earlier skipped reuse present
  obtain ⟨previous, before, same, found⟩ := reusable_some reuse
  -- A node that is kept is not recomputed, so it reaches none that a command touched.
  have unreached : ¬ Reaches product.evaluatorNodes (touchedBy batch.commands.reverse) other := by
    refine fun reaches => skipped (reaches_recomputed valid
      (dependentClosure_closed _) (fun touched member => ?_) reaches present)
    rcases fresh.roots touched member with ⟨command, listed, root⟩ | gone
    · refine Or.inl (dependentClosure_keeps ?_)
      rw [Std.ExtTreeSet.mem_ofList, List.contains_iff_mem]
      exact List.mem_flatMap.mpr ⟨command, List.mem_reverse.mp listed, root _⟩
    · exact Or.inr (by rw [nodes]; exact gone)
  rw [nodes] at unreached ⊢
  exact same ▸ fresh.means previous before other earlier found unreached

/-! ### Runs -/

/-- Every revision of the history keeps a correct report, or none. -/
def DocumentStore.EvaluationsCorrect (store : DocumentStore K) : Prop :=
  ∀ revision ∈ store.revisions, revision.EvaluationCorrect

theorem DocumentStore.EvaluationsCorrect.of_subset {before after : DocumentStore K}
    (correct : before.EvaluationsCorrect) (subset : after.revisions ⊆ before.revisions) :
    after.EvaluationsCorrect :=
  fun revision member => correct revision (subset member)

theorem DocumentStore.EvaluationsCorrect.relabelled {store : DocumentStore K}
    (correct : store.EvaluationsCorrect) {revision : Revision K}
    (right : revision.EvaluationCorrect) :
    (store.setCurrentRevision revision).EvaluationsCorrect := by
  intro other member
  rcases List.mem_or_eq_of_mem_set member with old | rfl
  · exact correct other old
  · exact right

theorem Made.evaluationCorrect {store : DocumentStore K} {made : Revision K × Nat}
    (isMade : Made store made) (correct : store.EvaluationsCorrect) :
    made.1.EvaluationCorrect := by
  have current := correct _ (currentRevision_mem store)
  cases isMade with
  | batch ok => exact batchRevision_correct current ok
  | rollback ok =>
    unfold DocumentStore.rollbackRevision at ok
    split at ok
    · cases ok
    split at ok
    · cases ok
    split at ok
    · cases ok
    dsimp only at ok
    split at ok
    · cases ok
    split at ok
    · cases ok
    cases ok
    exact nofun
  | replacement ok =>
    unfold DocumentStore.replacementRevision at ok
    dsimp only at ok
    split at ok
    · cases ok
    obtain ⟨following, next, ok⟩ := bind_ok ok
    cases ok
    exact nofun
  | source ok =>
    unfold DocumentStore.sourceRevision at ok
    split at ok
    · cases ok
    obtain ⟨_, _, ok⟩ := bind_ok ok
    split at ok
    · cases ok
    obtain ⟨following, next, ok⟩ := bind_ok ok
    cases ok
    exact current

theorem Step.evaluationsCorrect {before after : DocumentStore K} (step : Step before after)
    (correct : before.EvaluationsCorrect) : after.EvaluationsCorrect := by
  have current := correct _ (currentRevision_mem before)
  cases step with
  | evidence collections =>
    unfold DocumentStore.replaceCurrentEvidence
    dsimp only
    split
    · exact correct
    · exact correct.relabelled current
  | change change =>
    cases change with
    | push isMade =>
      intro revision member
      rcases mem_pushRevision member with old | rfl
      · exact correct revision old
      · exact isMade.evaluationCorrect correct
    | checkpoint | program => exact correct.relabelled current
    | move | registry | configure | consume => exact correct
    | discard =>
      exact correct.of_subset fun revision member => by
        rw [List.mem_singleton.mp member]
        exact currentRevision_mem before
    | drop => exact correct.of_subset (List.dropLast_sublist _).subset

theorem steps_evaluationsCorrect {before after : DocumentStore K}
    (steps : ReflTransGen Step before after) (correct : before.EvaluationsCorrect) :
    after.EvaluationsCorrect := by
  induction steps with
  | refl => exact correct
  | tail _ step ih => exact step.evaluationsCorrect ih

theorem Operation.states_steps {operations : List (Operation K)} {start store : DocumentStore K}
    (member : store ∈ Operation.states start operations) : ReflTransGen Step start store := by
  induction operations generalizing start with
  | nil => rw [List.mem_singleton.mp member]
  | cons operation rest ih =>
    rcases List.mem_cons.mp member with rfl | later
    · exact .refl
    · exact (operation.steps start).trans (ih later)

/-- A store starts without an evaluation. -/
theorem Opening.evaluation (opening : Opening K) {revision : Revision K}
    (member : revision ∈ opening.store.revisions) : revision.evaluation = none := by
  cases opening with
  | product revisionId product store opened =>
    unfold DocumentStore.fromProduct at opened
    obtain ⟨_, _, opened⟩ := bind_ok opened
    obtain ⟨_, _, opened⟩ := bind_ok opened
    obtain ⟨_, _, opened⟩ := bind_ok opened
    obtain ⟨_, _, opened⟩ := bind_ok opened
    obtain ⟨following, _, opened⟩ := bind_ok opened
    obtain ⟨_, _, opened⟩ := bind_ok opened
    cases opened
    rw [List.mem_singleton.mp member]
    rfl
  | snapshot snapshot store opened =>
    unfold DocumentStore.fromSnapshot at opened
    obtain ⟨following, _, opened⟩ := bind_ok opened
    obtain ⟨_, _, opened⟩ := bind_ok opened
    cases opened
    rw [List.mem_singleton.mp member]
    rfl
  | restored history =>
    obtain ⟨stored, _, rfl⟩ := List.mem_map.mp member
    rfl

end Incremental

/-- A width, its double and a height, and then another width. -/
def widened : List (Operation Kernel.nodesOnly) :=
  [.history (.applyBatch (.new
     [.evaluator (.createEvaluatorNode 1 "width" ⟨"5", 5⟩ []),
      .evaluator (.createExpressionNode 2 "double" "$1 * 2"),
      .evaluator (.createEvaluatorNode 3 "height" ⟨"4", 4⟩ [])])),
   .history (.applyBatch (.new [.evaluator (.setEvaluatorDimension 1 ⟨"7", 7⟩)]))]

end Ketchup.Document
