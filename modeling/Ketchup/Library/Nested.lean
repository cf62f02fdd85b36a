/-
**Families of which any two that share an element are one inside the other.**

Those of such a family that hold an element are a chain. Sorted by size, the chain of an element does not
depend on the order of the family, and from one of them on it is that of all it holds.
-/

import Mathlib.Data.List.Pairwise
import Mathlib.Data.List.Sort

namespace Ketchup

section Nested

variable {A B : Type} (holds : A → B → Bool) (size : A → ℕ)

/-- Smaller, and inside. -/
def Inside (one two : A) : Prop := size one < size two ∧ ∀ element, holds one element → holds two element

/-- Any two that share an element are one inside the other. -/
def Nested (family : List A) : Prop :=
  family.Pairwise fun one two => ∀ element, holds one element → holds two element → Inside holds size one two ∨ Inside holds size two one

/-- Those that hold an element, the smallest first. -/
def chain (family : List A) (element : B) : List A :=
  (family.insertionSort fun one two => size one ≤ size two).filter (holds · element)

variable {holds size} {family : List A}

theorem Inside.trans {one two three : A} (first : Inside holds size one two) (second : Inside holds size two three) :
    Inside holds size one three :=
  ⟨first.1.trans second.1, fun element held => second.2 element (first.2 element held)⟩

theorem Inside.irrefl {one : A} : ¬Inside holds size one one := fun inside => Nat.lt_irrefl _ inside.1

theorem mem_chain {element : B} {one : A} : one ∈ chain holds size family element ↔ one ∈ family ∧ holds one element := by
  rw [chain, List.mem_filter, List.mem_insertionSort]

theorem Nested.perm {other : List A} (nested : Nested holds size family) (perm : family.Perm other) : Nested holds size other :=
  List.Pairwise.perm nested perm fun either element first second => (either element second first).symm

theorem Nested.inside_or (nested : Nested holds size family) {one two : A} (isOne : one ∈ family) (isTwo : two ∈ family)
    (apart : one ≠ two) {element : B} (first : holds one element) (second : holds two element) :
    Inside holds size one two ∨ Inside holds size two one := by
  have : Std.Symm fun one two : A => ∀ element, holds one element → holds two element →
      Inside holds size one two ∨ Inside holds size two one := ⟨fun _ _ either element second first => (either element first second).symm⟩
  exact List.Pairwise.forall nested isOne isTwo apart element first second

/-- Chains of the same members are the same. -/
theorem strict_ext {one two : List A} (first : one.Pairwise (Inside holds size)) (second : two.Pairwise (Inside holds size))
    (same : ∀ other, other ∈ one ↔ other ∈ two) : one = two := by
  have distinct : ∀ {list : List A}, list.Pairwise (Inside holds size) → list.Nodup := by
    intro list strict
    refine strict.imp fun {one two} inside => ?_
    rintro rfl
    exact Inside.irrefl inside
  have perm := (List.perm_ext_iff_of_nodup (distinct first) (distinct second)).mpr same
  exact perm.eq_of_pairwise (fun _ _ _ _ less more => absurd (less.trans more) Inside.irrefl) first second

theorem Nested.sorted (nested : Nested holds size family) :
    (family.insertionSort fun one two => size one ≤ size two).Pairwise fun one two =>
      ∀ element, holds one element → holds two element → Inside holds size one two := by
  have ordered : (family.insertionSort fun one two => size one ≤ size two).Pairwise fun one two => size one ≤ size two :=
    List.pairwise_insertionSort _ _
  have still := nested.perm (List.perm_insertionSort (fun one two => size one ≤ size two) family).symm
  refine (ordered.and still).imp fun {one two} both element first second => ?_
  exact (both.2 element first second).resolve_right fun inside => absurd inside.1 (Nat.not_lt.mpr both.1)

/-- **What holds an element is a chain.** -/
theorem Nested.chain_strict (nested : Nested holds size family) (element : B) :
    (chain holds size family element).Pairwise (Inside holds size) := by
  rw [chain, List.pairwise_filter]
  exact nested.sorted.imp fun {one two} either first second => either element first second

/-- **The chain does not depend on the order.** -/
theorem Nested.chain_perm {other : List A} (nested : Nested holds size family) (perm : family.Perm other) (element : B) :
    chain holds size other element = chain holds size family element := by
  have same : (chain holds size other element).Perm (chain holds size family element) := by
    refine List.Perm.filter _ ?_
    exact (List.perm_insertionSort _ other).trans (perm.symm.trans (List.perm_insertionSort _ family).symm)
  exact strict_ext ((nested.perm perm).chain_strict element) (nested.chain_strict element) fun _ => same.mem_iff

theorem chain_congr {one two : B} (same : ∀ other ∈ family, holds other one = holds other two) :
    chain holds size family one = chain holds size family two :=
  List.filter_congr fun other among => same other ((List.mem_insertionSort _).mp among)

/-- **From one of the family on, the chains of all it holds are the same**, and the chain of an element that
only those around it hold is a part of this. -/
theorem Nested.chain_split (nested : Nested holds size family) {one : A} (among : one ∈ family) :
    ∃ outer, (∀ other ∈ outer, Inside holds size one other) ∧
      (∀ element, holds one element →
        ∃ inner, chain holds size family element = inner ++ one :: outer ∧ ∀ other ∈ inner, Inside holds size other one) ∧
      ∀ element, (∀ other ∈ family, holds other element → Inside holds size one other) →
        (chain holds size family element).Sublist outer := by
  classical
  let sorted := family.insertionSort fun one two => size one ≤ size two
  refine ⟨sorted.filter fun other => Inside holds size one other, fun other held => by simpa using (List.mem_filter.mp held).2,
    fun element held => ?_, fun element around => ?_⟩
  case refine_2 =>
    have part : chain holds size family element = (sorted.filter fun other => Inside holds size one other).filter (holds · element) := by
      rw [chain, List.filter_filter]
      refine List.filter_congr fun other among => ?_
      rw [eq_comm, Bool.and_eq_left_iff_imp]
      exact fun held => decide_eq_true (around other ((List.mem_insertionSort _).mp among) held)
    rw [part]
    exact List.filter_sublist
  obtain ⟨inner, rest, split⟩ := List.append_of_mem (mem_chain.mpr ⟨among, held⟩)
  have strict := nested.chain_strict element
  rw [split] at strict
  obtain ⟨_, after, before⟩ := List.pairwise_append.mp strict
  have below : ∀ other ∈ inner, Inside holds size other one := fun other its => before other its one List.mem_cons_self
  have above : ∀ other ∈ rest, Inside holds size one other := (List.pairwise_cons.mp after).1
  refine ⟨inner, ?_, below⟩
  -- Those around are what is left of the chain, whichever element it is of.
  have around : (chain holds size family element).filter (fun other => Inside holds size one other) =
      sorted.filter fun other => Inside holds size one other := by
    rw [chain, List.filter_filter]
    refine List.filter_congr fun other _ => ?_
    rw [Bool.and_eq_left_iff_imp]
    exact fun inside => (of_decide_eq_true inside).2 element held
  have none : inner.filter (fun other => Inside holds size one other) = [] :=
    List.filter_eq_nil_iff.mpr fun other its inside => Inside.irrefl ((below other its).trans (of_decide_eq_true inside))
  have all : rest.filter (fun other => Inside holds size one other) = rest :=
    List.filter_eq_self.mpr fun other its => decide_eq_true (above other its)
  have alone : decide (Inside holds size one one) = false := decide_eq_false Inside.irrefl
  rw [split, List.filter_append, List.filter_cons, none, all, alone] at around
  rw [split, ← around]
  rfl

/-- **The chain of an element is what holds it alone, then the chain of what it is below.** -/
theorem Nested.chain_append (nested : Nested holds size family) {alone : List A} {root element : B}
    (around : ∀ other ∈ family, holds other root → holds other element) (strict : alone.Pairwise (Inside holds size))
    (inner : ∀ one ∈ alone, one ∈ family ∧ holds one element ∧ ¬holds one root)
    (all : ∀ other ∈ family, holds other element → other ∈ alone ∨ holds other root) :
    chain holds size family element = alone ++ chain holds size family root := by
  refine strict_ext (nested.chain_strict element) (List.pairwise_append.mpr ⟨strict, nested.chain_strict root, ?_⟩) fun other => ?_
  · intro one isOne other isOther
    obtain ⟨among, held, free⟩ := inner one isOne
    obtain ⟨isOther, higher⟩ := mem_chain.mp isOther
    have apart : one ≠ other := by
      rintro rfl
      exact free higher
    refine (nested.inside_or among isOther apart held (around other isOther higher)).resolve_right fun inside => ?_
    exact free (inside.2 root higher)
  · rw [List.mem_append, mem_chain, mem_chain]
    constructor
    · rintro ⟨isOther, held⟩
      exact (all other isOther held).imp_right fun higher => ⟨isOther, higher⟩
    · rintro (isAlone | ⟨isOther, higher⟩)
      · exact ⟨(inner other isAlone).1, (inner other isAlone).2.1⟩
      · exact ⟨isOther, around other isOther higher⟩

end Nested

end Ketchup
