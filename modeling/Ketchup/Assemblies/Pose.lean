/-
**The pose of a program: each motion moves its side.**

A motion moves the parts in its moving side and the joints between these, those of small sides first. The closing
checks leave of two sides that share a part one inside the other.

* `pose_chain` — a part is moved by the motions around it from the inside out; the parts of an anchor are all moved
  by the same motions, and these move the whole moving side too.
* `pose_order` — the pose does not depend on the order in which motions were declared.
-/

import Ketchup.Assemblies.Instances
import Ketchup.Library.Nested
import Mathlib.Data.List.Pairwise

set_option linter.unusedSectionVars false

namespace Ketchup.Assemblies

/-- What a motion does to the parts and to the joints it moves. -/
structure Moves (G : Type) where
  part : G → G
  joint : G → G

class Articulation (G : Type) where
  /-- None where the axis or the position is not valid. -/
  transform : Motion G → Option (Moves G)

section Pose

variable {T G : Type} [DecidableEq G] [Articulation G]

/-- The names a motion moves. -/
def moving (groups : List Group) (motion : Motion G) : BTreeSet String := memberNames groups motion.endpoints.2

def poseBy (moves : Moves G) (names : BTreeSet String) (model : Model T G) : Model T G :=
  { model with
    parts := model.parts.map fun part => if part.name ∈ names then { part with shape := moves.part part.shape } else part
    joints := model.joints.map fun joint =>
      if joint.parts.1 ∈ names ∧ joint.parts.2 ∈ names then { joint with shape := moves.joint joint.shape } else joint }

def poseAll : List (Motion G × BTreeSet String) → Model T G → Except Problem (Model T G)
  | [], posed => .ok posed
  | (motion, names) :: rest, posed =>
    match Articulation.transform motion with
    | none => .error (.invalidMotion motion.name)
    | some moves => poseAll rest (poseBy moves names posed)

def pose (reference : Model T G) : Except Problem (Model T G) := do
  checkMotions reference
  let motions := reference.motions.map fun motion => (motion, moving reference.groups motion)
  poseAll (motions.insertionSort fun one two => one.2.size ≤ two.2.size) reference

end Pose

section Chains

variable {T G : Type}

/-- What a motion does to a part. -/
def movePart [Articulation G] (shape : G) (motion : Motion G) : G := ((Articulation.transform motion).map fun moves => moves.part shape).getD shape

def moveJoint [Articulation G] (shape : G) (motion : Motion G) : G := ((Articulation.transform motion).map fun moves => moves.joint shape).getD shape

/-- A motion moves what is on its moving side. -/
def carries (groups : List Group) (motion : Motion G) (name : String) : Bool := decide (name ∈ moving groups motion)

theorem carries_iff {groups : List Group} {motion : Motion G} {name : String} :
    carries groups motion name = true ↔ name ∈ moving groups motion := decide_eq_true_iff

/-- The motions that move a name, that of the smallest side first. -/
def carriers (model : Model T G) (name : String) : List (Motion G) :=
  chain (carries model.groups) (fun motion => (moving model.groups motion).size) model.motions name

/-! ### What the checks of motions leave -/

section Checks

variable [DecidableEq G]

/-- The checks of a motion on its own. -/
def Fine (model : Model T G) (motion : Motion G) : Prop :=
  ((model.part? motion.endpoints.1).isSome || model.groups.any (·.name = motion.endpoints.1)) ≠ false ∧
    ((model.part? motion.endpoints.2).isSome || model.groups.any (·.name = motion.endpoints.2)) ≠ false ∧
    validateShared model motion = .ok () ∧
    ∀ name ∈ moving model.groups motion, name ∉ memberNames model.groups motion.endpoints.1

/-- The checks of a motion against another. -/
def Clear (groups : List Group) (motion other : Motion G) : Prop :=
  (∀ name ∈ moving groups motion, name ∈ moving groups other → moving groups motion ≠ moving groups other ∧
      ((∀ name ∈ moving groups motion, name ∈ moving groups other) ∨ ∀ name ∈ moving groups other, name ∈ moving groups motion)) ∧
    ∀ name ∈ memberNames groups motion.endpoints.1, name ∈ moving groups other →
      (∀ name ∈ memberNames groups motion.endpoints.1, name ∈ moving groups other) ∧
        ∀ name ∈ moving groups motion, name ∈ moving groups other

theorem not_isDisjoint_iff {one two : BTreeSet String} : isDisjoint one two = false ↔ ∃ name ∈ one, name ∈ two := by
  rw [← Bool.not_eq_true, isDisjoint_iff]
  simp

theorem checkMotion_ok_iff {model : Model T G} {motion : Motion G} {index : ℕ} :
    checkMotion model (model.motions.map (moving model.groups)) motion index = .ok () ↔
      Fine model motion ∧ ∀ (other : ℕ) (bound : other < model.motions.length), other ≠ index →
        Clear model.groups motion model.motions[other] := by
  unfold checkMotion Fine
  simp only [check_ok_iff, refuseIf_ok, forEach_ok, and_assoc]
  refine and_congr_right fun _ => and_congr_right fun _ => and_congr_right fun _ => ?_
  refine and_congr (by rw [not_isDisjoint_iff]; simp [moving]) ⟨fun each other bound apart => ?_, fun each => ?_⟩
  · have indexed : (moving model.groups model.motions[other], other) ∈ (model.motions.map (moving model.groups)).zipIdx :=
      List.mem_zipIdx_iff_getElem?.mpr (by simp [bound])
    have checked := each _ indexed
    rw [if_neg apart, check_ok_iff, refuseIf_ok, refuseIf_ok, not_isDisjoint_iff, not_isDisjoint_iff, isSubset_iff, isSubset_iff,
      ← Bool.not_eq_true, ← Bool.not_eq_true, isSubset_iff, isSubset_iff] at checked
    obtain ⟨across, driven⟩ := checked
    refine ⟨fun name first second => ?_, fun name first second => ?_⟩
    · have either := not_and.mp across ⟨name, first, second⟩
      rw [not_or, not_and_or, not_not, not_not] at either
      exact either
    · exact not_not.mp (not_and.mp driven ⟨name, first, second⟩)
  · rintro ⟨names, other⟩ indexed
    split
    case isTrue => rfl
    case isFalse apart =>
      obtain ⟨bound, found⟩ := List.getElem?_eq_some_iff.mp (List.mem_zipIdx_iff_getElem?.mp indexed)
      dsimp only at bound found apart ⊢
      rw [List.length_map] at bound
      rw [List.getElem_map] at found
      obtain ⟨across, driven⟩ := each other bound apart
      subst found
      rw [check_ok_iff, refuseIf_ok, refuseIf_ok, not_isDisjoint_iff, not_isDisjoint_iff, isSubset_iff, isSubset_iff,
        ← Bool.not_eq_true, ← Bool.not_eq_true, isSubset_iff, isSubset_iff]
      refine ⟨?_, ?_⟩
      · rintro ⟨⟨name, first, second⟩, crossing⟩
        obtain ⟨different, inside⟩ := across name first second
        rcases crossing with same | ⟨out, out'⟩
        · exact different same
        · exact inside.elim out out'
      · rintro ⟨⟨name, first, second⟩, apart⟩
        exact apart (driven name first second)

/-- **The checks of motions, whatever their order.** -/
theorem checkMotions_ok_iff {model : Model T G} : checkMotions model = .ok () ↔ (∀ motion ∈ model.motions, Fine model motion) ∧
    model.motions.Pairwise fun one two => Clear model.groups one two ∧ Clear model.groups two one := by
  unfold checkMotions
  rw [forEach_ok, List.pairwise_iff_getElem]
  constructor
  · intro each
    have checked : ∀ (index : ℕ) (bound : index < model.motions.length), Fine model model.motions[index] ∧
        ∀ (other : ℕ) (bound : other < model.motions.length), other ≠ index →
          Clear model.groups model.motions[index] model.motions[other] := fun index bound =>
      checkMotion_ok_iff.mp (each (model.motions[index], index) (List.mem_zipIdx_iff_getElem?.mpr (List.getElem?_eq_getElem bound)))
    refine ⟨fun motion among => ?_, fun one two first second less => ?_⟩
    · obtain ⟨index, bound, rfl⟩ := List.getElem_of_mem among
      exact (checked index bound).1
    · exact ⟨(checked one first).2 two second (Nat.ne_of_gt less), (checked two second).2 one first (Nat.ne_of_lt less)⟩
  · rintro ⟨fine, clear⟩ ⟨motion, index⟩ indexed
    obtain ⟨bound, found⟩ := List.getElem?_eq_some_iff.mp (List.mem_zipIdx_iff_getElem?.mp indexed)
    dsimp only at bound found
    subst found
    refine checkMotion_ok_iff.mpr ⟨fine _ (List.getElem_mem bound), fun other bound' apart => ?_⟩
    rcases Nat.lt_or_gt_of_ne apart with less | more
    · exact (clear other index bound' bound less).2
    · exact (clear index other bound bound' more).1

theorem checkMotions_nested {model : Model T G} (ok : checkMotions model = .ok ()) :
    Nested (carries model.groups) (fun motion => (moving model.groups motion).size) model.motions := by
  refine (checkMotions_ok_iff.mp ok).2.imp fun {one two} clear name first second => ?_
  obtain ⟨different, inside⟩ := clear.1.1 name (of_decide_eq_true first) (of_decide_eq_true second)
  rcases inside with inside | inside
  · exact .inl ⟨BTreeSet.size_lt_of_subset inside different, fun other held => decide_eq_true (inside other (of_decide_eq_true held))⟩
  · exact .inr ⟨BTreeSet.size_lt_of_subset inside different.symm,
      fun other held => decide_eq_true (inside other (of_decide_eq_true held))⟩

end Checks

/-! ### The pose -/

section Posed

variable [DecidableEq G] [Articulation G]

/-- Each part and joint moved by the motions that carry it, one after another. -/
def settle (groups : List Group) (motions : List (Motion G)) (model : Model T G) : Model T G :=
  { model with
    parts := model.parts.map fun part => { part with
      shape := (motions.filter (carries groups · part.name)).foldl movePart part.shape }
    joints := model.joints.map fun joint => { joint with
      shape := ((motions.filter (carries groups · joint.parts.1)).filter (carries groups · joint.parts.2)).foldl moveJoint joint.shape } }

theorem settle_nil {groups : List Group} {model : Model T G} : settle groups [] model = model := by
  have parts : model.parts.map (fun part => { part with shape := part.shape }) = model.parts := List.map_id _
  have joints : model.joints.map (fun joint => { joint with shape := joint.shape }) = model.joints := List.map_id _
  unfold settle
  simp only [List.filter_nil, List.foldl_nil]
  rw [parts, joints]

theorem settle_cons {groups : List Group} {motion : Motion G} {motions : List (Motion G)} {model : Model T G} {moves : Moves G}
    (can : Articulation.transform motion = some moves) :
    settle groups (motion :: motions) model = settle groups motions (poseBy moves (moving groups motion) model) := by
  have moved : ∀ shape : G, movePart shape motion = moves.part shape ∧ moveJoint shape motion = moves.joint shape := by
    intro shape
    rw [movePart, moveJoint, can]
    exact ⟨rfl, rfl⟩
  unfold settle poseBy
  dsimp only
  rw [List.map_map, List.map_map]
  congr 1
  · refine List.map_congr_left fun part _ => ?_
    rw [Function.comp_apply]
    by_cases carried : part.name ∈ moving groups motion
    · rw [if_pos carried, List.filter_cons, if_pos (carries_iff.mpr carried), List.foldl_cons, (moved _).1]
    · rw [if_neg carried, List.filter_cons, if_neg (mt carries_iff.mp carried)]
  · refine List.map_congr_left fun joint _ => ?_
    rw [Function.comp_apply]
    by_cases first : joint.parts.1 ∈ moving groups motion
    · rw [List.filter_cons, if_pos (carries_iff.mpr first)]
      by_cases second : joint.parts.2 ∈ moving groups motion
      · rw [if_pos ⟨first, second⟩, List.filter_cons, if_pos (carries_iff.mpr second), List.foldl_cons, (moved _).2]
      · rw [if_neg fun both => second both.2, List.filter_cons, if_neg (mt carries_iff.mp second)]
    · rw [if_neg fun both => first both.1, List.filter_cons, if_neg (mt carries_iff.mp first)]

theorem poseAll_ok_iff {groups : List Group} {motions : List (Motion G)} {model posed : Model T G} :
    poseAll (motions.map fun motion => (motion, moving groups motion)) model = .ok posed ↔
      (∀ motion ∈ motions, (Articulation.transform motion).isSome) ∧ settle groups motions model = posed := by
  induction motions generalizing model with
  | nil =>
    rw [settle_nil]
    exact ⟨fun ok => ⟨fun _ among => absurd among List.not_mem_nil, Except.ok.inj ok⟩, fun both => congrArg Except.ok both.2⟩
  | cons motion motions ih =>
    rw [List.map_cons, poseAll, List.forall_mem_cons]
    cases can : Articulation.transform motion with
    | none => exact ⟨nofun, fun both => absurd both.1.1 (by simp)⟩
    | some moves =>
      dsimp only
      rw [ih, settle_cons can]
      simp

/-- **A part is where its carriers, one after another, put it.** -/
theorem pose_ok_iff {reference posed : Model T G} : pose reference = .ok posed ↔ checkMotions reference = .ok () ∧
    (∀ motion ∈ reference.motions, (Articulation.transform motion).isSome) ∧
    { reference with
      parts := reference.parts.map fun part => { part with shape := (carriers reference part.name).foldl movePart part.shape }
      joints := reference.joints.map fun joint => { joint with
        shape := ((carriers reference joint.parts.1).filter (carries reference.groups · joint.parts.2)).foldl moveJoint joint.shape } } =
      posed := by
  let sorted := reference.motions.insertionSort fun one two =>
    (moving reference.groups one).size ≤ (moving reference.groups two).size
  have order : (reference.motions.map fun motion => (motion, moving reference.groups motion)).insertionSort
      (fun one two => one.2.size ≤ two.2.size) = sorted.map fun motion => (motion, moving reference.groups motion) :=
    (List.map_insertionSort _ _ (fun motion => (motion, moving reference.groups motion)) _ fun _ _ _ _ => Iff.rfl).symm
  unfold pose
  dsimp only
  rw [check_ok_iff, order, poseAll_ok_iff]
  simp only [sorted, List.mem_insertionSort]
  rfl

/-- All that one motion moves is moved by the other, which moves more. -/
def Nests (groups : List Group) (motion other : Motion G) : Prop :=
  moving groups motion ≠ moving groups other ∧ ∀ name ∈ moving groups motion, name ∈ moving groups other

theorem nests_of_inside {groups : List Group} {motion other : Motion G}
    (inside : Inside (carries groups) (fun motion => (moving groups motion).size) motion other) : Nests groups motion other :=
  ⟨fun same => Nat.ne_of_lt inside.1 (congrArg Std.ExtTreeSet.size same),
    fun name held => carries_iff.mp (inside.2 name (carries_iff.mpr held))⟩

/-- A motion that carries part of an anchor carries all of it, and the moving side. -/
theorem anchor_carried {model : Model T G} (ok : checkMotions model = .ok ()) {motion other : Motion G}
    (among : motion ∈ model.motions) (isOther : other ∈ model.motions) {name : String}
    (anchored : name ∈ memberNames model.groups motion.endpoints.1) (carried : name ∈ moving model.groups other) :
    (∀ name ∈ memberNames model.groups motion.endpoints.1, name ∈ moving model.groups other) ∧
      ∀ name ∈ moving model.groups motion, name ∈ moving model.groups other := by
  obtain ⟨fine, clear⟩ := checkMotions_ok_iff.mp ok
  have apart : motion ≠ other := by
    rintro rfl
    exact (fine motion among).2.2.2 name carried anchored
  have : Std.Symm fun one two : Motion G => Clear model.groups one two ∧ Clear model.groups two one := ⟨fun _ _ both => both.symm⟩
  exact (clear.forall among isOther apart).1.2 name anchored carried

/-- What moves the parts of a motion's side, and those of its anchor: `outer` are the motions around it. -/
structure Driven (reference : Model T G) (motion : Motion G) (outer anchor : List (Motion G)) : Prop where
  moved : ∀ name ∈ moving reference.groups motion, ∃ inner, carriers reference name = inner ++ motion :: outer ∧
    ∀ other ∈ inner, Nests reference.groups other motion
  around : ∀ other ∈ outer, Nests reference.groups motion other
  anchored : ∀ name ∈ memberNames reference.groups motion.endpoints.1, carriers reference name = anchor
  shared : anchor.Sublist outer

/-- **Motions move what they hold from the inside out, and an anchor as one with what is around it.** -/
theorem pose_chain {reference posed : Model T G} (ok : pose reference = .ok posed) :
    posed.parts = reference.parts.map (fun part => { part with shape := (carriers reference part.name).foldl movePart part.shape }) ∧
      ∀ motion ∈ reference.motions, ∃ outer anchor, Driven reference motion outer anchor := by
  obtain ⟨checked, _, rfl⟩ := pose_ok_iff.mp ok
  refine ⟨rfl, fun motion among => ?_⟩
  have nested := checkMotions_nested checked
  obtain ⟨outer, around, split, part⟩ := nested.chain_split among
  refine ⟨outer, carriers reference motion.endpoints.1, fun name held => ?_, fun other its => nests_of_inside (around other its), ?_, ?_⟩
  · obtain ⟨inner, is, below⟩ := split name (carries_iff.mpr held)
    exact ⟨inner, is, fun other its => nests_of_inside (below other its)⟩
  · intro name anchored
    refine chain_congr fun other isOther => ?_
    rw [Bool.eq_iff_iff, carries_iff, carries_iff]
    have anchor : motion.endpoints.1 ∈ memberNames reference.groups motion.endpoints.1 := mem_memberNames_iff.mpr .refl
    exact ⟨fun carried => (anchor_carried checked among isOther anchored carried).1 _ anchor,
      fun carried => (anchor_carried checked among isOther anchor carried).1 _ anchored⟩
  · refine part motion.endpoints.1 fun other isOther carried => ?_
    have anchor : motion.endpoints.1 ∈ memberNames reference.groups motion.endpoints.1 := mem_memberNames_iff.mpr .refl
    have held := (anchor_carried checked among isOther anchor (carries_iff.mp carried)).2
    -- The anchor is none of the motion's own side.
    have different : moving reference.groups motion ≠ moving reference.groups other := fun same =>
      ((checkMotions_ok_iff.mp checked).1 motion among).2.2.2 _ (same ▸ carries_iff.mp carried) anchor
    exact ⟨BTreeSet.size_lt_of_subset held different, fun name its => carries_iff.mpr (held name (carries_iff.mp its))⟩

/-- **The pose does not depend on the order of motions.** -/
theorem pose_order {reference posed : Model T G} {motions : List (Motion G)} (perm : reference.motions.Perm motions)
    (ok : pose reference = .ok posed) : pose { reference with motions := motions } = .ok { posed with motions := motions } := by
  obtain ⟨checked, can, rfl⟩ := pose_ok_iff.mp ok
  have still : checkMotions { reference with motions := motions } = .ok () := by
    obtain ⟨fine, clear⟩ := checkMotions_ok_iff.mp checked
    exact checkMotions_ok_iff.mpr ⟨fun motion among => fine motion (perm.mem_iff.mpr among),
      List.Pairwise.perm clear perm fun both => both.symm⟩
  refine pose_ok_iff.mpr ⟨still, fun motion among => can motion (perm.mem_iff.mpr among), ?_⟩
  have same : ∀ name, carriers { reference with motions := motions } name = carriers reference name :=
    fun name => (checkMotions_nested checked).chain_perm perm name
  simp only [same]

end Posed

end Chains

section Rig

/-- Motions that shift what they move along one line. -/
instance : Articulation ℤ := ⟨fun motion => some ⟨(· + motion.shape), (· + motion.shape)⟩⟩

/-- A cart with an arm on a rail. -/
def rig : Model Unit ℤ where
  parts := [⟨"rail", true, none, [], 0⟩, ⟨"cart", true, none, [], 0⟩, ⟨"arm", true, none, [], 2⟩]
  tools := []
  groups := [⟨"rig", false, ["cart", "arm"], false⟩]
  components := []
  instances := []
  joints := []
  motions := [⟨"slide", ("rail", "rig"), false, 30⟩, ⟨"lift", ("cart", "arm"), false, 5⟩]

def rigNames (name : String) : BTreeSet String :=
  if name = "rig" then (((∅ : BTreeSet String).insert "rig").insert "arm").insert "cart" else (∅ : BTreeSet String).insert name

theorem rig_names (name : String) : memberNames rig.groups name = rigNames name := by
  unfold rigNames
  split
  case isTrue is =>
    subst is
    exact memberNames_pair ⟨"rig", false, ["cart", "arm"], false⟩ rfl rfl rfl rfl (by decide)
  case isFalse other =>
    refine memberNames_single ?_
    simpa [rig] using fun is : "rig" = name => other is.symm

theorem pose_rig : ∃ posed, pose rig = .ok posed ∧ posed.parts.map Part.shape = [0, 30, 37] := by
  simp only [pose, checkMotions, checkMotion, validateShared, moving, rig_names]
  exact ⟨_, rfl, rfl⟩

theorem pose_chain_rig : ∃ posed, pose rig = .ok posed ∧
    posed.parts = rig.parts.map (fun part => { part with shape := (carriers rig part.name).foldl movePart part.shape }) ∧
      ∀ motion ∈ rig.motions, ∃ outer anchor, Driven rig motion outer anchor := by
  obtain ⟨posed, ok, _⟩ := pose_rig
  exact ⟨posed, ok, pose_chain ok⟩

theorem pose_order_rig : ∃ posed, pose rig = .ok posed ∧
    pose { rig with motions := rig.motions.reverse } = .ok { posed with motions := rig.motions.reverse } := by
  obtain ⟨posed, ok, _⟩ := pose_rig
  exact ⟨posed, ok, pose_order (List.reverse_perm _).symm ok⟩

end Rig

end Ketchup.Assemblies
