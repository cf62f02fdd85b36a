/-
**Walks up a parent chain.**

`climb` follows the parents of a key to the top and lists them, the key first; before each step it asks
whether to go on (`accept`), as a walk with a budget or one that refuses a key it has seen does.
`Ancestry` is the chain itself: a walk that comes back has listed it (`climb_ok`), and with enough fuel
every chain is listed (`climb_of_ancestry`).

A parent is `none` at the top, and unknown where the key is.
-/

import Ketchup.Library.Outcome
import Mathlib.Data.List.Nodup
import Mathlib.Data.List.Perm.Subperm
import Mathlib.Data.Nat.Find
import Mathlib.Logic.Relation
import Mathlib.Order.WellFounded

namespace Ketchup

variable {K ε : Type}

/-- The chain from a key to the top, of parents that are known. -/
inductive Ancestry (parentOf : K → Option (Option K)) : Option K → List K → Prop
  | top : Ancestry parentOf none []
  | link {key : K} {parent : Option K} {rest : List K} :
      parentOf key = some parent → Ancestry parentOf parent rest →
        Ancestry parentOf (some key) (key :: rest)

/-- Follows the parents, pushing each key on a list. -/
def climb (accept : List K → K → Except ε Unit) (parentOf : K → Option (Option K)) (missing : K → ε)
    (endless : ε) : Nat → List K → Option K → Except ε (List K)
  | _, listed, none => .ok listed
  | 0, _, some _ => .error endless
  | fuel + 1, listed, some key => do
    accept listed key
    match parentOf key with
    | none => .error (missing key)
    | some parent => climb accept parentOf missing endless fuel (listed ++ [key]) parent

variable {accept : List K → K → Except ε Unit} {parentOf : K → Option (Option K)} {missing : K → ε}
  {endless : ε}

namespace Ancestry

/-- A key has one chain. -/
theorem unique {cursor : Option K} {chain chain' : List K} (one : Ancestry parentOf cursor chain)
    (two : Ancestry parentOf cursor chain') : chain = chain' := by
  induction one generalizing chain' with
  | top =>
    cases two
    rfl
  | link known _ ih =>
    cases two with
    | link known' above =>
      have same := Option.some.inj (known.symm.trans known')
      rw [ih (same ▸ above)]

/-- Where a chain goes on, it is the chain of the key met there. -/
theorem suffix {cursor : Option K} {before after : List K} {key : K}
    (chain : Ancestry parentOf cursor (before ++ key :: after)) :
    Ancestry parentOf (some key) (key :: after) := by
  induction before generalizing cursor with
  | nil =>
    cases chain with
    | link known above => exact link known above
  | cons first rest ih =>
    cases chain with
    | link known above => exact ih above

/-- No key comes back on its own chain. -/
theorem nodup {cursor : Option K} {chain : List K} (ancestry : Ancestry parentOf cursor chain) :
    chain.Nodup := by
  induction ancestry with
  | top => exact List.nodup_nil
  | @link key parent rest known above ih =>
    refine List.nodup_cons.mpr ⟨fun member => ?_, ih⟩
    obtain ⟨before, after, is⟩ := List.append_of_mem member
    have again : Ancestry parentOf (some key) (key :: after) := suffix (is ▸ above)
    have same := congrArg List.length ((link known above).unique again)
    rw [is] at same
    simp only [List.length_cons, List.length_append] at same
    omega

theorem known {cursor : Option K} {chain : List K} (ancestry : Ancestry parentOf cursor chain) :
    ∀ key ∈ chain, ∃ parent, parentOf key = some parent := by
  induction ancestry with
  | top => exact nofun
  | link known _ ih =>
    intro key member
    rcases List.mem_cons.mp member with rfl | above
    · exact ⟨_, known⟩
    · exact ih key above

/-- The key a chain starts from is known. -/
theorem known_head {key : K} {chain : List K} (ancestry : Ancestry parentOf (some key) chain) :
    ∃ parent rest, parentOf key = some parent ∧ Ancestry parentOf parent rest ∧ chain = key :: rest := by
  cases ancestry with
  | link known above => exact ⟨_, _, known, above, rfl⟩

/-- A chain is no longer than a list of the keys that are known. -/
theorem length_le {cursor : Option K} {chain keys : List K}
    (ancestry : Ancestry parentOf cursor chain)
    (listed : ∀ key parent, parentOf key = some parent → key ∈ keys) :
    chain.length ≤ keys.length := by
  refine (List.subperm_of_subset ancestry.nodup fun key member => ?_).length_le
  obtain ⟨parent, known⟩ := ancestry.known key member
  exact listed key parent known

end Ancestry

/-- **A walk that comes back has listed the chain.** -/
theorem climb_ok {fuel : Nat} {listed result : List K} {cursor : Option K}
    (ok : climb accept parentOf missing endless fuel listed cursor = .ok result) :
    ∃ chain, result = listed ++ chain ∧ Ancestry parentOf cursor chain := by
  induction fuel generalizing listed cursor with
  | zero =>
    cases cursor with
    | none => exact ⟨[], (Except.ok.inj ok).symm.trans (List.append_nil _).symm, .top⟩
    | some key => cases ok
  | succ fuel ih =>
    cases cursor with
    | none => exact ⟨[], (Except.ok.inj ok).symm.trans (List.append_nil _).symm, .top⟩
    | some key =>
      unfold climb at ok
      cases admitted : accept listed key with
      | error refused =>
        rw [admitted] at ok
        cases ok
      | ok _ =>
        cases known : parentOf key with
        | none =>
          rw [admitted, known] at ok
          cases ok
        | some parent =>
          rw [admitted, known] at ok
          obtain ⟨chain, is, above⟩ := ih ok
          refine ⟨key :: chain, ?_, .link known above⟩
          rw [is, List.append_assoc, List.singleton_append]

/-- **A chain is listed** when the walk has fuel for it and is admitted at each key. -/
theorem climb_of_ancestry {fuel : Nat} {listed chain : List K} {cursor : Option K}
    (ancestry : Ancestry parentOf cursor chain) (enough : chain.length ≤ fuel)
    (admitted : ∀ before key after, chain = before ++ key :: after →
      accept (listed ++ before) key = .ok ()) :
    climb accept parentOf missing endless fuel listed cursor = .ok (listed ++ chain) := by
  induction ancestry generalizing fuel listed with
  | top =>
    rw [List.append_nil]
    cases fuel <;> rfl
  | @link key parent rest known above ih =>
    cases fuel with
    | zero => exact absurd enough (Nat.not_succ_le_zero _)
    | succ fuel =>
      have first := admitted [] key rest rfl
      rw [List.append_nil] at first
      unfold climb
      rw [first, known]
      refine (ih (Nat.le_of_succ_le_succ enough) fun before other after is => ?_).trans ?_
      · rw [List.append_assoc]
        exact admitted (key :: before) other after (by rw [is]; rfl)
      · rw [List.append_assoc, List.singleton_append]

/-- A walk stops with the error of the first key it is not admitted at. -/
theorem climb_refused {fuel : Nat} {listed chain : List K} {cursor : Option K}
    (ancestry : Ancestry parentOf cursor chain) (enough : chain.length ≤ fuel) {before after : List K}
    {key : K} {refused : ε} (splits : chain = before ++ key :: after)
    (earlier : ∀ first other last, before = first ++ other :: last →
      accept (listed ++ first) other = .ok ())
    (here : accept (listed ++ before) key = .error refused) :
    climb accept parentOf missing endless fuel listed cursor = .error refused := by
  induction ancestry generalizing fuel listed before with
  | top => cases before <;> cases splits
  | @link top parent rest known above ih =>
    cases fuel with
    | zero => exact absurd enough (Nat.not_succ_le_zero _)
    | succ fuel =>
      unfold climb
      cases before with
      | nil =>
        obtain ⟨rfl, _⟩ := List.cons.inj splits
        rw [List.append_nil] at here
        rw [here]
        rfl
      | cons first before =>
        obtain ⟨rfl, above⟩ := List.cons.inj splits
        have admitted := earlier [] top before rfl
        rw [List.append_nil] at admitted
        rw [admitted, known]
        refine ih (Nat.le_of_succ_le_succ enough) above (fun first other last is => ?_) ?_
        · rw [List.append_assoc]
          exact earlier (top :: first) other last (by rw [is]; rfl)
        · rw [List.append_assoc]
          exact here

/-- **A walk that is admitted by its length** lists the chain, or stops with the error of the first step
that is not admitted. -/
theorem climb_metered (check : Nat → Except ε Unit) (missing : K → ε) (endless : ε) {fuel : Nat}
    {chain : List K} {cursor : Option K} (ancestry : Ancestry parentOf cursor chain) (enough : chain.length ≤ fuel) :
    ((∀ step < chain.length, check step = .ok ()) ∧
        climb (fun listed _ => check listed.length) parentOf missing endless fuel [] cursor = .ok chain) ∨
      ∃ step error, step < chain.length ∧ check step = .error error ∧
        climb (fun listed _ => check listed.length) parentOf missing endless fuel [] cursor =
          .error error := by
  classical
  by_cases all : ∀ step < chain.length, check step = .ok ()
  · refine .inl ⟨all, ?_⟩
    refine (climb_of_ancestry ancestry enough fun before key after splits => all _ ?_).trans ?_
    · rw [splits, List.nil_append, List.length_append, List.length_cons]
      omega
    · rw [List.nil_append]
  · have some_step : ∃ step, step < chain.length ∧ check step ≠ .ok () := by
      simpa only [not_forall, exists_prop] using all
    obtain ⟨inside, fails⟩ := Nat.find_spec some_step
    have earlier : ∀ step < Nat.find some_step, check step = .ok () := fun step before =>
      not_not.mp fun fails => Nat.find_min some_step before ⟨before.trans inside, fails⟩
    generalize Nat.find some_step = first at inside fails earlier
    cases failed : check first with
    | ok => exact absurd failed fails
    | error error =>
      refine .inr ⟨first, error, inside, failed, ?_⟩
      have length : (chain.take first).length = first := List.length_take_of_le inside.le
      refine climb_refused ancestry enough
        (by rw [List.getElem_cons_drop, List.take_append_drop] : chain =
          chain.take first ++ chain[first] :: chain.drop (first + 1)) ?_ ?_
      · intro front other last splits
        have shorter := congrArg List.length splits
        rw [length, List.length_append, List.length_cons] at shorter
        exact earlier _ (by rw [List.nil_append]; omega)
      · show check _ = _
        rw [List.nil_append, length, failed]

/-- **A walk that refuses a key it has seen** comes back exactly where the chain ends. -/
theorem climb_distinct_ok_iff [DecidableEq K] (refused missing : K → ε) (endless : ε) {keys : List K}
    (listed : ∀ key parent, parentOf key = some parent → key ∈ keys) {fuel : Nat}
    (enough : keys.length ≤ fuel) (cursor : Option K) :
    (∃ result, climb (fun visiting key => refuseIf (key ∈ visiting) (refused key)) parentOf missing
      endless fuel [] cursor = .ok result) ↔ ∃ chain, Ancestry parentOf cursor chain := by
  refine ⟨fun ok => ?_, fun ends => ?_⟩
  · obtain ⟨result, ok⟩ := ok
    obtain ⟨chain, -, ancestry⟩ := climb_ok ok
    exact ⟨chain, ancestry⟩
  · obtain ⟨chain, ancestry⟩ := ends
    refine ⟨[] ++ chain, climb_of_ancestry ancestry ((ancestry.length_le listed).trans enough) ?_⟩
    intro before key after splits
    refine refuseIf_ok.mpr fun again => ?_
    have distinct := ancestry.nodup
    rw [splits] at distinct
    exact List.disjoint_of_nodup_append distinct again (List.mem_cons_self ..)

/-! ### Walks up to a key -/

/-- Follows the parents up to a root, pushing each key on a list, the root the last. -/
def climbTo [DecidableEq K] (root : K) (parentOf : K → Option K) (cyclic : K → ε) (apart : ε) :
    Nat → List K → Option K → Except ε (List K)
  | _, _, none => .error apart
  | 0, _, some _ => .error apart
  | fuel + 1, listed, some key =>
    if key ∈ listed then .error (cyclic key)
    else if key = root then .ok (listed ++ [key])
    else climbTo root parentOf cyclic apart fuel (listed ++ [key]) (parentOf key)

section ClimbTo

variable [DecidableEq K] {root : K} {parents : K → Option K} {cyclic : K → ε} {apart : ε}

/-- **A root on the chain is come to.** -/
theorem climbTo_of_ancestry (same : ∀ key parent, parentOf key = some parent → parents key = parent)
    {inner outer : List K} {cursor : Option K}
    (ancestry : Ancestry parentOf cursor (inner ++ root :: outer)) {fuel : Nat}
    (enough : inner.length < fuel) {listed : List K} (fresh : ∀ key ∈ inner ++ [root], key ∉ listed) :
    climbTo root parents cyclic apart fuel listed cursor = .ok (listed ++ (inner ++ [root])) := by
  induction inner generalizing cursor fuel listed with
  | nil =>
    obtain ⟨fuel, rfl⟩ : ∃ less, fuel = less + 1 := ⟨fuel - 1, by simp at enough; omega⟩
    cases ancestry with
    | link known above =>
      rw [climbTo, if_neg (fresh root (List.mem_singleton_self root)), if_pos rfl, List.nil_append]
  | cons key rest ih =>
    obtain ⟨fuel, rfl⟩ : ∃ less, fuel = less + 1 := ⟨fuel - 1, by omega⟩
    have distinct := ancestry.nodup
    cases ancestry with
    | link known above =>
      have isNew := fresh key (List.mem_cons_self ..)
      have notRoot : key ≠ root := by
        rintro rfl
        exact (List.nodup_cons.mp distinct).1 (List.mem_append_right _ (List.mem_cons_self ..))
      rw [climbTo, if_neg isNew, if_neg notRoot, same key _ known,
        ih above (Nat.lt_of_succ_lt_succ enough), List.append_assoc, List.singleton_append,
        List.cons_append]
      intro other member again
      rcases List.mem_append.mp again with before | here
      · exact fresh other (List.mem_cons_of_mem _ member) before
      · obtain rfl := List.mem_singleton.mp here
        refine (List.nodup_cons.mp distinct).1 ?_
        rcases List.mem_append.mp member with inside | isRoot
        · exact List.mem_append_left _ inside
        · exact absurd (List.mem_singleton.mp isRoot) notRoot

/-- A root that is not on the chain is not come to. -/
theorem climbTo_apart (same : ∀ key parent, parentOf key = some parent → parents key = parent)
    {chain : List K} {cursor : Option K} (ancestry : Ancestry parentOf cursor chain)
    (off : root ∉ chain) {fuel : Nat} {listed : List K} (fresh : ∀ key ∈ chain, key ∉ listed) :
    climbTo root parents cyclic apart fuel listed cursor = .error apart := by
  induction ancestry generalizing fuel listed with
  | top => cases fuel <;> rfl
  | @link key parent rest known above ih =>
    cases fuel with
    | zero => rfl
    | succ fuel =>
      obtain ⟨notRoot, off⟩ := not_or.mp (mt List.mem_cons.mpr off)
      have distinct := (List.nodup_cons.mp (Ancestry.link known above).nodup).1
      rw [climbTo, if_neg (fresh key (List.mem_cons_self ..)), if_neg (Ne.symm notRoot), same key _ known]
      refine ih off fun other member again => ?_
      rcases List.mem_append.mp again with before | here
      · exact fresh other (List.mem_cons_of_mem _ member) before
      · exact distinct (List.mem_singleton.mp here ▸ member)

end ClimbTo

/-! ### Keys above two others -/

/-- A key is reached from another by parent links. -/
def Reaches (parentOf : K → Option (Option K)) : K → K → Prop :=
  Relation.ReflTransGen fun child parent => parentOf child = some (some parent)

/-- The nearest of the keys that two reach: it reaches each of them. -/
structure NearestCommon (parentOf : K → Option (Option K)) (one two key : K) : Prop where
  onOne : Reaches parentOf one key
  onTwo : Reaches parentOf two key
  nearest : ∀ other, Reaches parentOf one other → Reaches parentOf two other →
    Reaches parentOf key other

theorem NearestCommon.symm {one two key : K} (common : NearestCommon parentOf one two key) :
    NearestCommon parentOf two one key :=
  ⟨common.onTwo, common.onOne, fun other onTwo onOne => common.nearest other onOne onTwo⟩

namespace Ancestry

/-- **A chain lists what its key reaches.** -/
theorem mem_iff {key other : K} {chain : List K} (ancestry : Ancestry parentOf (some key) chain) :
    other ∈ chain ↔ Reaches parentOf key other := by
  induction chain generalizing key with
  | nil => cases ancestry
  | cons first rest ih =>
    obtain ⟨parent, above, known, ends, is⟩ := ancestry.known_head
    obtain ⟨rfl, rfl⟩ := List.cons.inj is
    constructor
    · intro member
      rcases List.mem_cons.mp member with rfl | later
      · exact .refl
      · cases parent with
        | none => cases ends; cases later
        | some parent => exact .head known ((ih ends).mp later)
    · intro reached
      rcases Relation.ReflTransGen.cases_head reached with rfl | ⟨parent', known', later⟩
      · exact List.mem_cons_self ..
      · obtain rfl := Option.some.inj (known.symm.trans known')
        exact List.mem_cons_of_mem _ ((ih ends).mpr later)

/-- The chain of a key on a chain is what is left of it there. -/
theorem ends_with {key other : K} {chain above : List K} (ancestry : Ancestry parentOf (some key) chain)
    (ends : Ancestry parentOf (some other) above) (member : other ∈ chain) :
    ∃ before, chain = before ++ above := by
  obtain ⟨before, after, rfl⟩ := List.append_of_mem member
  exact ⟨before, congrArg (before ++ ·) (ancestry.suffix.unique ends)⟩

/-- Two keys on each other's chains are one. -/
theorem antisymm {one two : K} {chain above : List K} (first : Ancestry parentOf (some one) chain)
    (second : Ancestry parentOf (some two) above) (below : two ∈ chain) (back : one ∈ above) :
    one = two := by
  obtain ⟨before, is⟩ := first.ends_with second below
  obtain ⟨before', is'⟩ := second.ends_with first back
  have length := congrArg List.length is
  have length' := congrArg List.length is'
  rw [List.length_append] at length length'
  obtain rfl : before = [] := List.length_eq_zero_iff.mp (by omega)
  obtain ⟨_, _, _, _, rfl⟩ := first.known_head
  obtain ⟨_, _, _, _, rfl⟩ := second.known_head
  exact (List.cons.inj is).1

variable [DecidableEq K] {one two : K} {chain above : List K}

theorem nearest_of_find (first : Ancestry parentOf (some one) chain)
    (second : Ancestry parentOf (some two) above) {key : K}
    (found : chain.find? (fun other => decide (other ∈ above)) = some key) :
    NearestCommon parentOf one two key := by
  obtain ⟨shared, before, after, rfl, apart⟩ := List.find?_eq_some_iff_append.mp found
  refine ⟨first.mem_iff.mp (by simp), second.mem_iff.mp (of_decide_eq_true shared), ?_⟩
  intro other onOne onTwo
  refine first.suffix.mem_iff.mp ?_
  rcases List.mem_append.mp (first.mem_iff.mpr onOne) with earlier | later
  · have shared := second.mem_iff.mpr onTwo
    have clear : ∀ key ∈ before, key ∉ above := by simpa using apart
    exact absurd shared (clear other earlier)
  · exact later

/-- **The first key of a chain that is on the other** is the nearest they share. -/
theorem find_iff_nearest (first : Ancestry parentOf (some one) chain)
    (second : Ancestry parentOf (some two) above) {key : K} :
    chain.find? (fun other => decide (other ∈ above)) = some key ↔
      NearestCommon parentOf one two key := by
  refine ⟨first.nearest_of_find second, fun common => ?_⟩
  have onOne := first.mem_iff.mpr common.onOne
  have onTwo := second.mem_iff.mpr common.onTwo
  rcases found : chain.find? (fun other => decide (other ∈ above)) with _ | met
  · exact absurd (decide_eq_true onTwo) (List.find?_eq_none.mp found key onOne)
  · have nearest := first.nearest_of_find second found
    obtain ⟨before, after, is⟩ := List.append_of_mem onOne
    obtain ⟨before', after', is'⟩ := List.append_of_mem (first.mem_iff.mpr nearest.onOne)
    have ofKey := (is ▸ first).suffix
    have ofMet := (is' ▸ first).suffix
    have below := ofKey.mem_iff.mpr (common.nearest met nearest.onOne nearest.onTwo)
    have back := ofMet.mem_iff.mpr (nearest.nearest key common.onOne common.onTwo)
    rw [ofKey.antisymm ofMet below back]

/-- No key of a chain is on the other exactly where they reach none in common. -/
theorem find_none_iff (first : Ancestry parentOf (some one) chain)
    (second : Ancestry parentOf (some two) above) :
    chain.find? (fun other => decide (other ∈ above)) = none ↔
      ¬∃ key, Reaches parentOf one key ∧ Reaches parentOf two key := by
  rw [List.find?_eq_none]
  constructor
  · rintro apart ⟨key, onOne, onTwo⟩
    exact apart key (first.mem_iff.mpr onOne) (decide_eq_true (second.mem_iff.mpr onTwo))
  · intro apart key member shared
    exact apart ⟨key, first.mem_iff.mp member, second.mem_iff.mp (of_decide_eq_true shared)⟩

end Ancestry

end Ketchup
