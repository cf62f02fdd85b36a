/-
**What a node evaluates to, whichever run computes it.**

`EvaluatesTo nodes identity id evaluation` is the meaning of a node: the evaluation its kind gives
from the evaluations of its dependencies. It holds of at most one evaluation
(`EvaluatesTo.unique`), and it stays what it is when the graph changes elsewhere
(`EvaluatesTo.of_agree`).

* `evaluateOrder_means`, over `evaluateStep_means`: a walk over the order records meanings only, as
  far as what it keeps of an earlier report are meanings;
* `evaluateAffected_means`: so does `evaluateAffected`;
* `evaluateGraph_ok`: on a valid graph the run from scratch succeeds and evaluates every node;
* `report_eq_full`: a report of meanings agrees with the run from scratch on every node and output.
-/

import Ketchup.Graph.Evaluation

set_option linter.unusedSectionVars false

namespace Ketchup.Graph

variable {F : Type} [Binary64 F] [Sha256]

/-! ### The meaning of a node -/

inductive EvaluatesTo (nodes : Nodes F) (identity : EvaluationIdentity) :
    NodeId → NodeEvaluation F → Prop
  | node {id : NodeId} {node : EvaluatorNode F} (entry : nodes[id]? = some node)
      (evaluations : NodeId → NodeEvaluation F)
      (dependencies : ∀ dependency ∈ node.dependencies,
        EvaluatesTo nodes identity dependency (evaluations dependency)) :
      EvaluatesTo nodes identity id
        (nodeEvaluation identity id node (node.dependencies.map evaluations)
          fun dependency => (evaluations dependency).value?)

/-- A node's evaluation reads the values of its dependencies only. -/
theorem nodeEvaluation_congr (identity : EvaluationIdentity) (id : NodeId) (node : EvaluatorNode F)
    (evaluations : List (NodeEvaluation F)) {values others : NodeId → Option F}
    (agree : ∀ dependency ∈ node.dependencies, values dependency = others dependency) :
    nodeEvaluation identity id node evaluations values =
      nodeEvaluation identity id node evaluations others := by
  have same : ∀ ast, node.kind.ast? = some ast → ast.evaluate values = ast.evaluate others :=
    fun ast kind => ExpressionAst.evaluate_congr (node.reads ast kind ▸ agree)
  unfold nodeEvaluation
  match kind : node.kind with
  | .parameter _ => rfl
  | .expression _ ast => simp only [same ast (by rw [kind]; rfl)]
  | .rule _ ast _ _ => simp only [same ast (by rw [kind]; rfl)]

/-- **A node has one meaning.** -/
theorem EvaluatesTo.unique {nodes : Nodes F} {identity : EvaluationIdentity} {id : NodeId}
    {first second : NodeEvaluation F} (one : EvaluatesTo nodes identity id first)
    (other : EvaluatesTo nodes identity id second) : first = second := by
  induction one generalizing second with
  | node entry evaluations dependencies ih =>
    cases other with
    | node entry' evaluations' dependencies' =>
      rw [entry, Option.some.injEq] at entry'
      subst entry'
      have agree := fun dependency member =>
        ih dependency member (dependencies' dependency member)
      rw [List.map_congr_left agree]
      exact nodeEvaluation_congr _ _ _ _ fun dependency member => by rw [agree dependency member]

/-- **A meaning is local**: it is the same in every graph with the same entries outside a set the
node does not reach. -/
theorem EvaluatesTo.of_agree {nodes changed : Nodes F} {identity : EvaluationIdentity}
    (stale : NodeId → Prop)
    (agree : ∀ id, ¬ stale id → changed[id]? = nodes[id]?)
    (closed : ∀ (id : NodeId) (node : EvaluatorNode F), changed[id]? = some node →
      (∃ dependency ∈ node.dependencies, stale dependency) → stale id)
    {id : NodeId} {evaluation : NodeEvaluation F} (means : EvaluatesTo nodes identity id evaluation)
    (fresh : ¬ stale id) : EvaluatesTo changed identity id evaluation := by
  induction means with
  | node entry evaluations _ ih =>
    rw [← agree _ fresh] at entry
    exact .node entry evaluations fun dependency member =>
      ih dependency member fun reached => fresh (closed _ _ entry ⟨dependency, member, reached⟩)

/-! ### The walk over the order -/

/-- The walk's state: what it recorded outside `stale` are meanings, the values are those of the
evaluations, and only nodes done so far are recorded. -/
structure Progress.Means (nodes : Nodes F) (identity : EvaluationIdentity) (stale : NodeId → Prop)
    (done : List NodeId) (progress : Progress F) : Prop where
  means : ∀ (id : NodeId) (evaluation : NodeEvaluation F),
    progress.evaluations[id]? = some evaluation → ¬ stale id →
      EvaluatesTo nodes identity id evaluation
  values : ∀ id : NodeId, progress.values[id]? = progress.evaluations[id]?.bind
    NodeEvaluation.value?
  recorded : ∀ id : NodeId, progress.evaluations[id]?.isSome → id ∈ done

theorem Progress.Means.record {nodes : Nodes F} {identity : EvaluationIdentity}
    {stale : NodeId → Prop} {done : List NodeId} {progress : Progress F}
    (inv : progress.Means nodes identity stale done) {id : NodeId} (new : id ∉ done)
    {evaluation : NodeEvaluation F}
    (means : ¬ stale id → EvaluatesTo nodes identity id evaluation) :
    (progress.record id evaluation).Means nodes identity stale (done ++ [id]) := by
  have lookup : ∀ other : NodeId, (progress.record id evaluation).evaluations[other]? =
      if id = other then some evaluation else progress.evaluations[other]? := by
    intro other
    exact BTreeMap.getElem?_insert
  have unrecorded : progress.evaluations[id]? = none := by
    rw [← Option.not_isSome_iff_eq_none]
    exact fun known => new (inv.recorded id known)
  constructor
  · intro other evaluation' known fresh
    rw [lookup other] at known
    split at known
    case isTrue same => cases known; subst same; exact means fresh
    case isFalse => exact inv.means other evaluation' known fresh
  · intro other
    rw [lookup other]
    by_cases same : id = other
    · subst same
      rw [if_pos rfl, Option.bind_some]
      match value : evaluation.value? with
      | some _ =>
        simp only [Progress.record, value]
        exact Std.ExtTreeMap.getElem?_insert_self
      | none =>
        simp only [Progress.record, value]
        rw [inv.values id, unrecorded, Option.bind_none]
    · rw [if_neg same, ← inv.values other]
      match value : evaluation.value? with
      | some _ =>
        simp only [Progress.record, value, BTreeMap.getElem?_insert, if_neg same]
      | none => simp only [Progress.record, value]
  · intro other known
    rw [lookup other] at known
    split at known
    case isTrue same => exact List.mem_append_right _ (by simp [same])
    case isFalse => exact List.mem_append_left _ (inv.recorded other known)

theorem mapM_index_ok {K V ε : Type} [Ord K] [Std.TransOrd K] {map : BTreeMap K V}
    {keys : List K} {values : List V}
    (ok : keys.mapM (index map) = (.ok values : Outcome ε (List V))) :
    ∀ find : K → V, (∀ key value, map[key]? = some value → find key = value) →
      (∀ key ∈ keys, map[key]? = some (find key)) ∧ values = keys.map find := by
  intro find finds
  induction keys generalizing values with
  | nil => cases ok; exact ⟨nofun, rfl⟩
  | cons key rest ih =>
    rw [List.mapM_cons] at ok
    obtain ⟨value, here, ok⟩ := bind_ok ok
    obtain ⟨others, there, ok⟩ := bind_ok ok
    cases ok
    have entry := index_ok here
    obtain ⟨entries, same⟩ := ih there
    refine ⟨fun other member => ?_, by rw [same, List.map_cons, finds key value entry]⟩
    rcases List.mem_cons.mp member with rfl | member
    · rw [entry, finds other value entry]
    · exact entries other member

/-- **One node of the order** records its meaning, if it is kept for one. -/
theorem evaluateStep_means {nodes : Nodes F} {identity : EvaluationIdentity}
    {previous : Option (EvaluationReport F)} {required : BTreeSet NodeId} {stale : NodeId → Prop}
    (closed : ∀ (id : NodeId) (node : EvaluatorNode F), nodes[id]? = some node →
      (∃ dependency ∈ node.dependencies, stale dependency) → stale id)
    {done : List NodeId} {progress next : Progress F}
    (inv : progress.Means nodes identity stale done) {id : NodeId} (new : id ∉ done)
    (kept : ∀ evaluation, id ∉ required → reusable identity previous id = some evaluation →
      ¬ stale id → EvaluatesTo nodes identity id evaluation)
    (ok : evaluateStep nodes identity previous required progress id = .ok next) :
    next.Means nodes identity stale (done ++ [id]) := by
  unfold evaluateStep at ok
  split at ok
  case isTrue =>
    obtain ⟨node, found, ok⟩ := bind_ok ok
    obtain ⟨dependencies, collected, ok⟩ := bind_ok ok
    cases ok
    let find : NodeId → NodeEvaluation F := fun other =>
      (progress.evaluations[other]?).getD ⟨.error [], "", ""⟩
    obtain ⟨entries, same⟩ := mapM_index_ok collected find fun key value entry => by
      simp only [find, entry, Option.getD_some]
    have values : ∀ dependency ∈ node.dependencies,
        progress.values[dependency]? = (find dependency).value? := fun dependency member => by
      rw [inv.values, entries dependency member, Option.bind_some]
    have means : ¬ stale id → EvaluatesTo nodes identity id
        (nodeEvaluation identity id node dependencies fun other => progress.values[other]?) := by
      intro fresh
      rw [same, nodeEvaluation_congr identity id node _ values]
      exact .node (index_ok found) find fun dependency member =>
        inv.means dependency _ (entries dependency member) fun reached =>
          fresh (closed id node (index_ok found) ⟨dependency, member, reached⟩)
    have recorded := inv.record new means
    exact ⟨recorded.means, recorded.values, recorded.recorded⟩
  case isFalse skipped =>
    split at ok
    case h_1 prior reuse =>
      cases ok
      exact inv.record new (kept prior skipped reuse)
    case h_2 =>
      cases ok
      exact ⟨inv.means, inv.values, fun other known =>
        List.mem_append_left _ (inv.recorded other known)⟩

/-- **The walk over a legal order** records meanings only. -/
theorem evaluateOrder_means {nodes : Nodes F} {identity : EvaluationIdentity}
    {previous : Option (EvaluationReport F)} {required : BTreeSet NodeId} {stale : NodeId → Prop}
    (closed : ∀ (id : NodeId) (node : EvaluatorNode F), nodes[id]? = some node →
      (∃ dependency ∈ node.dependencies, stale dependency) → stale id)
    (kept : ∀ id evaluation, id ∉ required → reusable identity previous id = some evaluation →
      id ∈ nodes → ¬ stale id → EvaluatesTo nodes identity id evaluation)
    {done order : List NodeId} {progress final : Progress F}
    (legal : Kahn.ReadyOrder EvaluatorNode.dependencies nodes done order)
    (inv : progress.Means nodes identity stale done)
    (ok : evaluateOrder nodes identity previous required order progress = .ok final) :
    final.Means nodes identity stale (done ++ order) := by
  induction order generalizing done progress with
  | nil =>
    cases ok
    simpa using inv
  | cons id rest ih =>
    obtain ⟨next, step, ok⟩ := bind_ok ok
    have member : id ∈ nodes := legal.nodup.2.2 id List.mem_cons_self
    obtain ⟨_, new, later⟩ := legal
    have stepped := evaluateStep_means closed inv new
      (fun evaluation skipped reuse => kept id evaluation skipped reuse member) step
    simpa using ih later stepped ok

theorem foldl_require_keeps {identity : EvaluationIdentity}
    {previous : Option (EvaluationReport F)} {dependencies : List NodeId}
    {work : List NodeId × BTreeSet NodeId} {id : NodeId} (member : id ∈ work.2) :
    id ∈ (dependencies.foldl (require identity previous) work).2 := by
  induction dependencies generalizing work with
  | nil => exact member
  | cons dependency rest ih =>
    refine ih ?_
    unfold require
    split
    · exact member
    · exact Std.ExtTreeSet.mem_insert.mpr (Or.inr member)

theorem requiredLoop_keeps {nodes : Nodes F} {identity : EvaluationIdentity}
    {previous : Option (EvaluationReport F)} {fuel : Nat} {work : List NodeId × BTreeSet NodeId}
    {found : BTreeSet NodeId} (ok : requiredLoop nodes identity previous fuel work = .ok found)
    {id : NodeId} (member : id ∈ work.2) : id ∈ found := by
  induction fuel generalizing work with
  | zero =>
    match work with
    | ([], _) => cases ok; exact member
    | (_ :: _, _) => cases ok
  | succ fuel ih =>
    match work with
    | ([], _) => cases ok; exact member
    | (head :: pending, required) =>
      rw [requiredLoop] at ok
      split at ok
      case h_1 => cases ok
      case h_2 => exact ih ok (foldl_require_keeps member)

theorem validateNodeHeader_ok {id : NodeId} {name : String} {dependencies : List NodeId}
    (ok : validateNodeHeader id name dependencies = .ok ()) :
    id ≠ 0 ∧ dependencies.IsChain (· < ·) ∧ id ∉ dependencies := by
  unfold validateNodeHeader at ok
  split at ok
  · cases ok
  split at ok
  · cases ok
  split at ok
  · cases ok
  split at ok
  · cases ok
  next reserved _ chain cycle => exact ⟨reserved, not_not.mp chain, cycle⟩

/-- What `validateGraph` establishes of an entry. -/
structure ValidEntry (nodes : Nodes F) (key : NodeId) (node : EvaluatorNode F) : Prop where
  reserved : key ≠ 0
  names : node.dependencies.Nodup
  present : ∀ dependency ∈ node.dependencies, dependency ∈ nodes
  outputs : ∀ source ast outputs allowed, node.kind = .rule source ast outputs allowed →
    validateRuleOutputs key node.outputPorts outputs = .ok ()

theorem validateEntry_ok {nodes : Nodes F} {key : NodeId} {node : EvaluatorNode F}
    (ok : validateEntry nodes key node = .ok ()) : ValidEntry nodes key node := by
  unfold validateEntry at ok
  split at ok
  case isTrue => cases ok
  case isFalse same =>
    rw [ne_eq, not_not] at same
    obtain ⟨_, header, ok⟩ := bind_ok ok
    obtain ⟨reserved, chain, _⟩ := validateNodeHeader_ok header
    split at ok
    case h_1 => cases ok
    case h_2 present =>
      refine ⟨same ▸ reserved, ?_, fun dependency member => ?_, ?_⟩
      · exact (List.isChain_iff_pairwise.mp chain).imp fun less => Nat.ne_of_lt less
      · have known := List.find?_eq_none.mp present dependency member
        exact Std.ExtTreeMap.mem_iff_contains.mpr (by simpa using known)
      · intro source ast outputs allowed rule
        rw [rule] at ok
        exact same ▸ ok

theorem validateGraph_ok {nodes : Nodes F} (ok : validateGraph nodes = .ok ()) :
    (∀ (key : NodeId) (node : EvaluatorNode F), nodes[key]? = some node →
      ValidEntry nodes key node) ∧
      ∃ order, topologicalOrder nodes = .ok order := by
  unfold validateGraph at ok
  obtain ⟨_, entries, ok⟩ := bind_ok ok
  obtain ⟨order, ordered, _⟩ := bind_ok ok
  refine ⟨fun key node entry => ?_, order, ordered⟩
  have listed := Std.ExtTreeMap.mem_toList_iff_getElem?_eq_some.mpr entry
  generalize nodes.toList = list at entries listed
  induction list with
  | nil => cases listed
  | cons head rest ih =>
    obtain ⟨⟨⟩, here, entries⟩ := bind_ok entries
    rcases List.mem_cons.mp listed with rfl | listed
    · exact validateEntry_ok here
    · exact ih entries listed

omit [Binary64 F] [Sha256] in
theorem topologicalOrder_ok {nodes : Nodes F} {order : List NodeId} (ok : topologicalOrder nodes = .ok order) :
    Kahn.ReadyOrder EvaluatorNode.dependencies nodes [] order ∧
      ∀ id, id ∈ order ↔ id ∈ nodes := by
  unfold topologicalOrder at ok
  split at ok
  case h_1 listed run =>
    cases ok
    exact Kahn.order_ok run
  all_goals cases ok

/-! ### The run from scratch -/

theorem mapM_index_total {K V ε : Type} [Ord K] [Std.TransOrd K] {map : BTreeMap K V}
    {keys : List K} (known : ∀ key ∈ keys, map[key]?.isSome) :
    ∃ values, keys.mapM (index map) = (.ok values : Outcome ε (List V)) := by
  induction keys with
  | nil => exact ⟨[], rfl⟩
  | cons key rest ih =>
    obtain ⟨value, entry⟩ := Option.isSome_iff_exists.mp (known key List.mem_cons_self)
    obtain ⟨values, collected⟩ := ih fun other member => known other (List.mem_cons_of_mem _ member)
    refine ⟨value :: values, ?_⟩
    rw [List.mapM_cons, collected]
    simp only [index, entry]
    rfl

/-- Where every dependency of a pending node is required or kept, the worklist only empties. -/
theorem requiredLoop_settled {nodes : Nodes F} {identity : EvaluationIdentity}
    {previous : Option (EvaluationReport F)} {required : BTreeSet NodeId} {fuel : Nat}
    {pending : List NodeId}
    (settled : ∀ id ∈ pending, ∃ node, nodes[id]? = some node ∧
      ∀ dependency ∈ node.dependencies,
        dependency ∈ required ∨ (reusable identity previous dependency).isSome)
    (enough : pending.length ≤ fuel) :
    requiredLoop nodes identity previous fuel (pending, required) = .ok required := by
  induction pending generalizing fuel with
  | nil => cases fuel <;> rfl
  | cons id rest ih =>
    obtain ⟨fuel, rfl⟩ : ∃ more, fuel = more + 1 := ⟨fuel - 1, by simp at enough; omega⟩
    obtain ⟨node, entry, named⟩ := settled id List.mem_cons_self
    have still : node.dependencies.foldl (require identity previous) (rest, required) =
        (rest, required) := by
      generalize node.dependencies = dependencies at named
      induction dependencies with
      | nil => rfl
      | cons dependency others ihDeps =>
        rw [List.foldl_cons, require, if_pos (by
          rw [Bool.or_eq_true, ← Std.ExtTreeSet.mem_iff_contains]
          exact (named dependency List.mem_cons_self).symm)]
        exact ihDeps fun other member => named other (List.mem_cons_of_mem _ member)
    rw [requiredLoop]
    simp only [entry, still]
    exact ih (fun other member => settled other (List.mem_cons_of_mem _ member))
      (by simpa using enough)

/-- **One node of the order** is recorded, where it is kept or its dependencies are recorded. -/
theorem evaluateStep_total {nodes : Nodes F} {identity : EvaluationIdentity}
    {previous : Option (EvaluationReport F)} {required : BTreeSet NodeId} {progress : Progress F}
    {id : NodeId} {node : EvaluatorNode F} (entry : nodes[id]? = some node)
    (ready : ∀ dependency ∈ node.dependencies, progress.evaluations[dependency]?.isSome)
    (kept : id ∈ required ∨ (reusable identity previous id).isSome) :
    ∃ next evaluation, evaluateStep nodes identity previous required progress id = .ok next ∧
      next.evaluations = progress.evaluations.insert id evaluation ∧
      ∀ other, other ∈ next.recomputedNodes ↔
        other ∈ progress.recomputedNodes ∨ (other = id ∧ id ∈ required) := by
  by_cases required' : id ∈ required
  · obtain ⟨evaluations, collected⟩ : ∃ evaluations,
        node.dependencies.mapM (index progress.evaluations) =
          (.ok evaluations : Outcome GraphError (List (NodeEvaluation F))) :=
      mapM_index_total ready
    have found : (index nodes id : Outcome GraphError (EvaluatorNode F)) = .ok node := by
      rw [index, entry]
    let evaluation := nodeEvaluation identity id node evaluations fun other =>
      progress.values[other]?
    refine ⟨{ progress.record id evaluation with
      recomputedNodes := progress.recomputedNodes.insert id }, evaluation, ?_, rfl, fun other => ?_⟩
    · rw [evaluateStep, if_pos (Std.ExtTreeSet.mem_iff_contains.mp required'), found]
      show (node.dependencies.mapM (index progress.evaluations) >>= _) = _
      rw [collected]
      rfl
    · show other ∈ progress.recomputedNodes.insert id ↔ _
      rw [Std.ExtTreeSet.mem_insert, compare_eq_iff_eq, eq_comm (a := id), or_comm]
      simp only [required', and_true]
  · obtain ⟨prior, reuse⟩ := Option.isSome_iff_exists.mp (kept.resolve_left required')
    refine ⟨progress.record id prior, prior, ?_, rfl, fun other => ?_⟩
    · rw [evaluateStep, if_neg fun listed => required' (Std.ExtTreeSet.mem_iff_contains.mpr listed),
        reuse]
    · show other ∈ progress.recomputedNodes ↔ _
      simp only [required', and_false, or_false]

/-- **A walk over a legal order** records every node and recomputes the required ones, where each is
required or kept. -/
theorem evaluateOrder_total {nodes : Nodes F} {identity : EvaluationIdentity}
    {previous : Option (EvaluationReport F)} {required : BTreeSet NodeId}
    (kept : ∀ id ∈ nodes, id ∈ required ∨ (reusable identity previous id).isSome)
    {done order : List NodeId} {progress : Progress F}
    (legal : Kahn.ReadyOrder EvaluatorNode.dependencies nodes done order)
    (known : ∀ id ∈ done, progress.evaluations[id]?.isSome) :
    ∃ final, evaluateOrder nodes identity previous required order progress = .ok final ∧
      (∀ id ∈ done ++ order, final.evaluations[id]?.isSome) ∧
      ∀ id, id ∈ final.recomputedNodes ↔
        id ∈ progress.recomputedNodes ∨ (id ∈ order ∧ id ∈ required) := by
  induction order generalizing done progress with
  | nil => exact ⟨progress, rfl, by simpa using known, by simp⟩
  | cons id rest ih =>
    have member : id ∈ nodes := legal.nodup.2.2 id List.mem_cons_self
    obtain ⟨⟨node, entry, ready⟩, _, later⟩ := legal
    obtain ⟨next, evaluation, step, evaluations, recomputed⟩ := evaluateStep_total entry
      (fun dependency named => known dependency (ready dependency named)) (kept id member)
    have recordedNext : ∀ other ∈ done ++ [id], next.evaluations[other]?.isSome := by
      intro other listed
      rw [evaluations, BTreeMap.getElem?_insert]
      split
      case isTrue => rfl
      case isFalse different =>
        exact known other ((List.mem_append.mp listed).resolve_right fun last =>
          different (List.mem_singleton.mp last).symm)
    obtain ⟨final, run, recorded, recomputedAll⟩ := ih later recordedNext
    refine ⟨final, ?_, by simpa using recorded, fun other => ?_⟩
    · rw [evaluateOrder, step]
      exact run
    · rw [recomputedAll, recomputed, List.mem_cons]
      constructor
      · rintro ((old | ⟨rfl, here⟩) | ⟨listed, here⟩)
        · exact Or.inl old
        · exact Or.inr ⟨Or.inl rfl, here⟩
        · exact Or.inr ⟨Or.inr listed, here⟩
      · rintro (old | ⟨rfl | listed, here⟩)
        · exact Or.inl (Or.inl old)
        · exact Or.inl (Or.inr ⟨rfl, here⟩)
        · exact Or.inr ⟨listed, here⟩

/-! ### Outputs -/

omit [Sha256] in
theorem mem_outputPaths {before path : List SlotSegment} {outputs : List RuleOutput} :
    path ∈ outputPaths before outputs ↔ ∃ output ∈ outputs, path ∈ output.paths before := by
  induction outputs with
  | nil => simp [outputPaths]
  | cons output rest ih => simp [outputPaths, ih]

/-- The outputs a rule's check went over lie within the depth limit. -/
theorem validateOutputLoop_ok {ruleId : NodeId} {ports : List String} {fuel count : Nat}
    {stack : List (RuleOutput × Nat)}
    (ok : validateOutputLoop ruleId ports fuel count stack = .ok ()) :
    ∀ entry ∈ stack, ∀ before : List SlotSegment, before.length + 1 = entry.2 →
      ∀ path ∈ entry.1.paths before, path ≠ [] ∧ path.length ≤ maxRuleOutputDepth := by
  induction fuel generalizing count stack with
  | zero => cases ok
  | succ fuel ih =>
    cases stack with
    | nil => exact nofun
    | cons head stack =>
      obtain ⟨⟨segment, children⟩, depth⟩ := head
      rw [validateOutputLoop] at ok
      split at ok
      · cases ok
      split at ok
      · cases ok
      split at ok
      · cases ok
      split at ok
      · cases ok
      next _ shallow _ _ =>
        have below := ih ok
        intro entry member before here path inside
        rcases List.mem_cons.mp member with rfl | member
        · rw [RuleOutput.paths, List.mem_cons] at inside
          rcases inside with rfl | inside
          · refine ⟨by simp, ?_⟩
            rw [List.length_append, List.length_singleton]
            change before.length + 1 = depth at here
            omega
          · obtain ⟨child, listed, inside⟩ := mem_outputPaths.mp inside
            refine below (child, depth + 1) (List.mem_append_left _ ?_) (before ++ [segment]) ?_ path
              inside
            · rw [List.mem_reverse]
              exact List.mem_map.mpr ⟨child, listed, rfl⟩
            · change before.length + 1 = depth at here
              simp [here]
        · exact below entry (List.mem_append_right _ member) before here path inside

theorem validateRuleOutputs_ok {ruleId : NodeId} {ports : List PortSpec} {outputs : List RuleOutput}
    (ok : validateRuleOutputs ruleId ports outputs = .ok ()) :
    ∀ path ∈ outputPaths [] outputs, path ≠ [] ∧ path.length ≤ maxRuleOutputDepth := by
  intro path member
  obtain ⟨output, listed, inside⟩ := mem_outputPaths.mp member
  refine validateOutputLoop_ok ok (output, 1) ?_ [] rfl path inside
  rw [List.mem_reverse]
  exact List.mem_map.mpr ⟨output, listed, rfl⟩

theorem insertOutputs_total {id : NodeId} (reserved : id ≠ 0) {output : DerivedOutput F}
    {paths : List (List SlotSegment)} (bounded : ∀ path ∈ paths, path ≠ [] ∧ path.length ≤ pathSegments)
    (outputs : Outputs F) : ∃ result, insertOutputs id output paths outputs = .ok result := by
  induction paths generalizing outputs with
  | nil => exact ⟨outputs, rfl⟩
  | cons path rest ih =>
    obtain ⟨nonempty, short⟩ := bounded path List.mem_cons_self
    obtain ⟨result, run⟩ := ih (fun other member => bounded other (List.mem_cons_of_mem _ member))
      (outputs.insert ⟨id, ⟨path, nonempty, short⟩, reserved⟩ output)
    refine ⟨result, ?_⟩
    rw [insertOutputs, SlotPath.new, dif_neg nonempty, dif_pos short]
    simp only [DerivedIdentity.new, dif_neg reserved]
    exact run

theorem insertOutputs_getElem? {id : NodeId} {output : DerivedOutput F}
    {paths : List (List SlotSegment)} {outputs result : Outputs F}
    (ok : insertOutputs id output paths outputs = .ok result) (derived : DerivedIdentity) :
    result[derived]? =
      if derived.rootRuleNodeId = id ∧ derived.slotPath.segments ∈ paths then some output
      else outputs[derived]? := by
  induction paths generalizing outputs with
  | nil => cases ok; simp
  | cons path rest ih =>
    obtain ⟨slotPath, isPath, ok⟩ := bind_ok ok
    obtain ⟨key, isKey, ok⟩ := bind_ok ok
    rw [ih ok, BTreeMap.getElem?_insert]
    have path_eq : slotPath.segments = path := by
      unfold SlotPath.new at isPath
      split at isPath
      · cases isPath
      split at isPath <;> cases isPath
      rfl
    have key_eq : key.rootRuleNodeId = id ∧ key.slotPath = slotPath := by
      unfold DerivedIdentity.new at isKey
      split at isKey <;> cases isKey
      exact ⟨rfl, rfl⟩
    have same : key = derived ↔ derived.rootRuleNodeId = id ∧ derived.slotPath.segments = path := by
      obtain ⟨root, ⟨segments, _, _⟩, _⟩ := key
      obtain ⟨root', ⟨segments', _, _⟩, _⟩ := derived
      obtain ⟨rfl, rfl⟩ := key_eq
      simp only [DerivedIdentity.mk.injEq, SlotPath.mk.injEq] at path_eq ⊢
      rw [← path_eq]
      constructor
      · rintro ⟨rfl, rfl⟩; exact ⟨rfl, rfl⟩
      · rintro ⟨rfl, rfl⟩; exact ⟨rfl, rfl⟩
    simp only [same]
    by_cases root : derived.rootRuleNodeId = id <;>
      by_cases inside : derived.slotPath.segments ∈ rest <;>
      by_cases head : derived.slotPath.segments = path <;> simp [root, inside, head]

/-- The output a graph's evaluations give a derived identity: its root evaluated as a rule whose
output tree has the identity's path. -/
def IsOutput (nodes : List (NodeId × EvaluatorNode F))
    (evaluations : BTreeMap NodeId (NodeEvaluation F)) (derived : DerivedIdentity)
    (output : DerivedOutput F) : Prop :=
  ∃ node paths, (derived.rootRuleNodeId, node) ∈ nodes ∧
    ruleResult evaluations derived.rootRuleNodeId node = some (output, paths) ∧
    derived.slotPath.segments ∈ paths

theorem entryOutputs_getElem? {evaluations : BTreeMap NodeId (NodeEvaluation F)}
    {outputs result : Outputs F} {id : NodeId} {node : EvaluatorNode F}
    (ok : entryOutputs evaluations outputs id node = .ok result) (derived : DerivedIdentity) :
    (derived.rootRuleNodeId ≠ id → result[derived]? = outputs[derived]?) ∧
      ∀ output paths, ruleResult evaluations id node = some (output, paths) →
        derived.rootRuleNodeId = id → derived.slotPath.segments ∈ paths →
          result[derived]? = some output := by
  unfold entryOutputs at ok
  split at ok
  case h_1 output paths found =>
    have lookup := insertOutputs_getElem? ok derived
    refine ⟨fun other => by rw [lookup, if_neg fun both => other both.1], ?_⟩
    intro output' paths' found' root inside
    rw [found, Option.some.injEq, Prod.mk.injEq] at found'
    obtain ⟨rfl, rfl⟩ := found'
    rw [lookup, if_pos ⟨root, inside⟩]
  case h_2 none =>
    cases ok
    exact ⟨fun _ => rfl, fun _ _ found => by rw [none] at found; cases found⟩

theorem entryOutputs_new {evaluations : BTreeMap NodeId (NodeEvaluation F)}
    {outputs result : Outputs F} {id : NodeId} {node : EvaluatorNode F}
    (ok : entryOutputs evaluations outputs id node = .ok result) {derived : DerivedIdentity}
    {output : DerivedOutput F} (found : result[derived]? = some output) :
    outputs[derived]? = some output ∨ (derived.rootRuleNodeId = id ∧
      ∃ paths, ruleResult evaluations id node = some (output, paths) ∧
        derived.slotPath.segments ∈ paths) := by
  unfold entryOutputs at ok
  split at ok
  case h_1 value paths rule =>
    rw [insertOutputs_getElem? ok derived] at found
    split at found
    case isTrue both =>
      cases found
      exact Or.inr ⟨both.1, paths, rule, both.2⟩
    case isFalse => exact Or.inl found
  case h_2 =>
    cases ok
    exact Or.inl found

/-- **The derived outputs are exactly those the evaluations give.** -/
theorem deriveOutputs_getElem? {evaluations : BTreeMap NodeId (NodeEvaluation F)}
    {nodes : List (NodeId × EvaluatorNode F)} (distinct : (nodes.map Prod.fst).Nodup)
    {result : Outputs F} (ok : deriveOutputs evaluations nodes ∅ = .ok result)
    (derived : DerivedIdentity) (output : DerivedOutput F) :
    result[derived]? = some output ↔ IsOutput nodes evaluations derived output := by
  suffices general : ∀ outputs : Outputs F, deriveOutputs evaluations nodes outputs = .ok result →
      (derived.rootRuleNodeId ∉ nodes.map Prod.fst → result[derived]? = outputs[derived]?) ∧
      (IsOutput nodes evaluations derived output → result[derived]? = some output) ∧
      (result[derived]? = some output →
        outputs[derived]? = some output ∨ IsOutput nodes evaluations derived output) by
    obtain ⟨_, gives, only⟩ := general ∅ ok
    exact ⟨fun found => (only found).resolve_left (by simp), gives⟩
  clear ok
  induction nodes with
  | nil =>
    intro outputs ok
    cases ok
    exact ⟨fun _ => rfl, fun ⟨_, _, listed, _⟩ => absurd listed List.not_mem_nil, Or.inl⟩
  | cons head rest ih =>
    obtain ⟨id, node⟩ := head
    intro outputs ok
    obtain ⟨after, entry, ok⟩ := bind_ok ok
    obtain ⟨fresh, distinctRest⟩ := List.nodup_cons.mp distinct
    obtain ⟨frame, gives, only⟩ := ih distinctRest after ok
    obtain ⟨entryFrame, entryGives⟩ := entryOutputs_getElem? entry derived
    refine ⟨fun missing => ?_, ?_, fun found => ?_⟩
    · rw [List.map_cons, List.mem_cons, not_or] at missing
      rw [frame missing.2, entryFrame missing.1]
    · rintro ⟨node', paths, listed, rule, inside⟩
      rcases List.mem_cons.mp listed with same | listed
      · cases same
        rw [frame fresh]
        exact entryGives output paths rule rfl inside
      · exact gives ⟨node', paths, listed, rule, inside⟩
    · rcases only found with found | ⟨node', paths, listed, rule, inside⟩
      · rcases entryOutputs_new entry found with old | ⟨rfl, paths, rule, inside⟩
        · exact Or.inl old
        · exact Or.inr ⟨node, paths, List.mem_cons_self, rule, inside⟩
      · exact Or.inr ⟨node', paths, List.mem_cons_of_mem _ listed, rule, inside⟩

theorem deriveOutputs_total {nodes : Nodes F} (evaluations : BTreeMap NodeId (NodeEvaluation F))
    (entries : List (NodeId × EvaluatorNode F))
    (valid : ∀ entry ∈ entries, ValidEntry nodes entry.1 entry.2) (outputs : Outputs F) :
    ∃ result, deriveOutputs evaluations entries outputs = .ok result := by
  induction entries generalizing outputs with
  | nil => exact ⟨outputs, rfl⟩
  | cons head rest ih =>
    obtain ⟨id, node⟩ := head
    have own := valid (id, node) List.mem_cons_self
    have entry : ∃ after, entryOutputs evaluations outputs id node = .ok after := by
      unfold entryOutputs
      split
      case h_1 output paths found =>
        refine insertOutputs_total own.reserved ?_ outputs
        unfold ruleResult at found
        split at found
        case h_1 source ast ruleOutputs allowed value input result kind _ =>
          cases found
          exact validateRuleOutputs_ok (own.outputs source ast ruleOutputs allowed kind)
        case h_2 => cases found
      case h_2 => exact ⟨outputs, rfl⟩
    obtain ⟨after, entry⟩ := entry
    obtain ⟨result, run⟩ := ih (fun other member => valid other (List.mem_cons_of_mem _ member)) after
    exact ⟨result, by rw [deriveOutputs, entry]; exact run⟩

/-! ### Reports -/

/-- A report that says of each node and output it holds what they mean. -/
structure EvaluationReport.Correct (nodes : Nodes F) (report : EvaluationReport F) : Prop where
  valid : validateGraph nodes = .ok ()
  identified : report.identity.validate = .ok ()
  means : ∀ (id : NodeId) (evaluation : NodeEvaluation F), report.nodes[id]? = some evaluation →
    EvaluatesTo nodes report.identity id evaluation
  outputs : deriveOutputs report.nodes nodes.toList ∅ = .ok report.outputs

/-- The steps of a successful `evaluateAffected`. -/
theorem evaluateAffected_ok {nodes : Nodes F} {identity : EvaluationIdentity}
    {previous : Option (EvaluationReport F)} {affected : BTreeSet NodeId}
    {report : EvaluationReport F}
    (ok : evaluateAffected nodes identity previous affected = .ok report) :
    identity.validate = .ok () ∧ validateGraph nodes = .ok () ∧ report.identity = identity ∧
      deriveOutputs report.nodes nodes.toList ∅ = .ok report.outputs ∧
      ∃ order required progress, topologicalOrder nodes = .ok order ∧
        (∀ id ∈ affected, id ∈ required) ∧
        evaluateOrder nodes identity previous required order ⟨∅, ∅, ∅⟩ = .ok progress ∧
        report.nodes = progress.evaluations := by
  unfold evaluateAffected at ok
  obtain ⟨⟨⟩, identified, ok⟩ := bind_ok ok
  obtain ⟨⟨⟩, valid, ok⟩ := bind_ok ok
  obtain ⟨order, ordered, ok⟩ := bind_ok ok
  obtain ⟨required, worked, ok⟩ := bind_ok ok
  obtain ⟨progress, walked, ok⟩ := bind_ok ok
  obtain ⟨outputs, derived, ok⟩ := bind_ok ok
  cases ok
  exact ⟨attempt_ok identified, attempt_ok valid, rfl, attempt_ok derived, order, required, progress,
    attempt_ok ordered, fun id member => requiredLoop_keeps worked member, walked, rfl⟩

/-- **A report made from an earlier one holds meanings outside a set that is closed under
dependents**, if what it may keep of the earlier report outside that set and the affected nodes
are meanings. -/
theorem evaluateAffected_means {nodes : Nodes F} {identity : EvaluationIdentity}
    {previous : Option (EvaluationReport F)} {affected : BTreeSet NodeId} (stale : NodeId → Prop)
    (closed : ∀ (id : NodeId) (node : EvaluatorNode F), nodes[id]? = some node →
      (∃ dependency ∈ node.dependencies, stale dependency) → stale id)
    (kept : ∀ id evaluation, id ∉ affected → reusable identity previous id = some evaluation →
      id ∈ nodes → ¬ stale id → EvaluatesTo nodes identity id evaluation)
    {report : EvaluationReport F}
    (ok : evaluateAffected nodes identity previous affected = .ok report) {id : NodeId}
    {evaluation : NodeEvaluation F} (recorded : report.nodes[id]? = some evaluation)
    (fresh : ¬ stale id) : EvaluatesTo nodes identity id evaluation := by
  obtain ⟨_, valid, _, _, order, required, progress, ordered, covers, walked, same⟩ :=
    evaluateAffected_ok ok
  have start : (⟨∅, ∅, ∅⟩ : Progress F).Means nodes identity stale [] :=
    ⟨fun _ _ known => by simp at known, fun _ => by simp, fun _ known => by simp at known⟩
  have final := evaluateOrder_means closed
    (fun other evaluation skipped => kept other evaluation fun member => skipped (covers other member))
    (topologicalOrder_ok ordered).1 start walked
  exact final.means id evaluation (same ▸ recorded) fresh

/-- **A report made from an earlier one means every node**, if what it may keep are meanings. -/
theorem evaluateAffected_means_all {nodes : Nodes F} {identity : EvaluationIdentity}
    {previous : Option (EvaluationReport F)} {affected : BTreeSet NodeId}
    (kept : ∀ id evaluation, id ∉ affected → reusable identity previous id = some evaluation →
      id ∈ nodes → EvaluatesTo nodes identity id evaluation)
    {report : EvaluationReport F}
    (ok : evaluateAffected nodes identity previous affected = .ok report) {id : NodeId}
    {evaluation : NodeEvaluation F} (recorded : report.nodes[id]? = some evaluation) :
    EvaluatesTo nodes identity id evaluation :=
  evaluateAffected_means (fun _ => False) (fun _ _ _ ⟨_, _, reached⟩ => reached)
    (fun id evaluation skipped reuse present _ => kept id evaluation skipped reuse present) ok
    recorded not_false

theorem reusable_some {identity : EvaluationIdentity} {previous : Option (EvaluationReport F)}
    {id : NodeId} {evaluation : NodeEvaluation F}
    (reuse : reusable identity previous id = some evaluation) :
    ∃ report, previous = some report ∧ report.identity = identity ∧
      report.nodes[id]? = some evaluation := by
  unfold reusable at reuse
  split at reuse
  case h_1 report =>
    split at reuse
    case isTrue same => exact ⟨report, rfl, same, reuse⟩
    case isFalse => cases reuse
  case h_2 => cases reuse

theorem mem_allNodes {nodes : Nodes F} {id : NodeId} : id ∈ allNodes nodes ↔ id ∈ nodes := by
  rw [allNodes, Std.ExtTreeSet.mem_ofList, List.contains_iff_mem, Std.ExtTreeMap.mem_keys]

/-- **`evaluateAffected` succeeds** on a valid graph where each node is affected or kept: it records
every node and recomputes the affected ones. -/
theorem evaluateAffected_total {nodes : Nodes F} {identity : EvaluationIdentity}
    (previous : Option (EvaluationReport F)) {affected : BTreeSet NodeId}
    (identified : identity.validate = .ok ()) (valid : validateGraph nodes = .ok ())
    (present : ∀ id ∈ affected, id ∈ nodes)
    (kept : ∀ id ∈ nodes, id ∈ affected ∨ (reusable identity previous id).isSome) :
    ∃ evaluations outputs,
      evaluateAffected nodes identity previous affected =
        .ok { identity, documentId := none, revisionId := none, canonicalDigest := none,
              nodes := evaluations, outputs, recomputedNodes := affected } ∧
      ∀ id ∈ nodes, evaluations[id]?.isSome := by
  obtain ⟨entries, order, ordered⟩ := validateGraph_ok valid
  obtain ⟨legal, complete⟩ := topologicalOrder_ok ordered
  have worked : requiredLoop nodes identity previous (affected.size + nodes.size)
      (affected.toList.reverse, affected) = .ok affected := by
    refine requiredLoop_settled (fun id member => ?_) ?_
    · rw [List.mem_reverse, Std.ExtTreeSet.mem_toList] at member
      obtain ⟨node, entry⟩ := Option.isSome_iff_exists.mp
        (Std.ExtTreeMap.mem_iff_isSome_getElem?.mp (present id member))
      exact ⟨node, entry, fun dependency named =>
        kept dependency ((entries id node entry).present dependency named)⟩
    · rw [List.length_reverse, Std.ExtTreeSet.length_toList]
      exact Nat.le_add_right _ _
  obtain ⟨progress, walked, recorded, recomputed⟩ : ∃ progress,
      evaluateOrder nodes identity previous affected order ⟨∅, ∅, ∅⟩ = .ok progress ∧
        (∀ id ∈ [] ++ order, progress.evaluations[id]?.isSome) ∧
        ∀ id, id ∈ progress.recomputedNodes ↔
          id ∈ (∅ : BTreeSet NodeId) ∨ (id ∈ order ∧ id ∈ affected) :=
    evaluateOrder_total kept legal nofun
  obtain ⟨outputs, derived⟩ := deriveOutputs_total progress.evaluations
    nodes.toList (fun entry listed => entries entry.1 entry.2
      (Std.ExtTreeMap.mem_toList_iff_getElem?_eq_some.mp listed)) ∅
  have same : progress.recomputedNodes = affected := by
    ext id
    rw [recomputed id, complete id]
    constructor
    · exact fun either => (either.resolve_left (by simp)).2
    · exact fun member => Or.inr ⟨present id member, member⟩
  refine ⟨progress.evaluations, outputs, ?_, fun id member =>
    recorded id (by simpa using (complete id).mpr member)⟩
  unfold evaluateAffected
  rw [identified, valid, ordered]
  show (requiredLoop nodes identity previous (affected.size + nodes.size)
    (affected.toList.reverse, affected) >>= _) = _
  rw [worked]
  show (evaluateOrder nodes identity previous affected order ⟨∅, ∅, ∅⟩ >>= _) = _
  rw [walked]
  show (attempt id (deriveOutputs progress.evaluations nodes.toList ∅) >>= _) = _
  rw [derived]
  simp only [← same]
  rfl

/-- **On a valid graph the run from scratch succeeds** and its report means every node. -/
theorem evaluateGraph_ok {nodes : Nodes F} {identity : EvaluationIdentity}
    (identified : identity.validate = .ok ()) (valid : validateGraph nodes = .ok ()) :
    ∃ report, evaluateGraph nodes identity = .ok report ∧ report.Correct nodes ∧
      report.identity = identity ∧ ∀ id ∈ nodes, report.nodes[id]?.isSome := by
  obtain ⟨evaluations, outputs, run, recorded⟩ := evaluateAffected_total none
    identified valid (fun id member => mem_allNodes.mp member)
    (fun id member => Or.inl (mem_allNodes.mpr member))
  obtain ⟨_, _, _, derived, _⟩ := evaluateAffected_ok run
  refine ⟨_, run, ⟨valid, identified, fun id evaluation known => ?_, derived⟩, rfl, recorded⟩
  exact evaluateAffected_means_all (fun _ _ _ reuse => by simp [reusable] at reuse) run known

/-- **A correct report agrees with the run from scratch** on every node and output it holds. -/
theorem report_eq_full {nodes : Nodes F} {report : EvaluationReport F}
    (correct : report.Correct nodes) :
    ∃ full, evaluateGraph nodes report.identity = .ok full ∧
      (∀ (id : NodeId) (evaluation : NodeEvaluation F), report.nodes[id]? = some evaluation →
        full.nodes[id]? = some evaluation) ∧
      ∀ (derived : DerivedIdentity) (output : DerivedOutput F),
        report.outputs[derived]? = some output → full.outputs[derived]? = some output := by
  obtain ⟨full, run, fullCorrect, same, complete⟩ := evaluateGraph_ok correct.identified correct.valid
  have nodesAgree : ∀ (id : NodeId) (evaluation : NodeEvaluation F),
      report.nodes[id]? = some evaluation → full.nodes[id]? = some evaluation := by
    intro id evaluation known
    have means := correct.means id evaluation known
    have member : id ∈ nodes := by
      cases means with
      | node entry => rw [Std.ExtTreeMap.mem_iff_isSome_getElem?, entry]; rfl
    obtain ⟨other, found⟩ := Option.isSome_iff_exists.mp (complete id member)
    have otherMeans := same ▸ fullCorrect.means id other found
    rw [found, means.unique otherMeans]
  refine ⟨full, run, nodesAgree, fun derived output known => ?_⟩
  have distinct : (nodes.toList.map Prod.fst).Nodup := by
    rw [Std.ExtTreeMap.map_fst_toList_eq_keys]
    exact nodes.nodup_keys
  obtain ⟨node, paths, listed, rule, inside⟩ :=
    (deriveOutputs_getElem? distinct correct.outputs derived output).mp known
  refine (deriveOutputs_getElem? distinct fullCorrect.outputs derived output).mpr
    ⟨node, paths, listed, ?_, inside⟩
  unfold ruleResult at rule ⊢
  split at rule
  case h_1 kind evaluated => rw [kind, nodesAgree _ _ evaluated]; exact rule
  case h_2 => cases rule

end Ketchup.Graph
