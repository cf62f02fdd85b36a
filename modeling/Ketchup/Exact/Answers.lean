/-
**Exact answers for pairs of parts.**

The solids of two parts can be measured (`ExactPair`); the answers are kept by the names of the parts. A pair
without an answer was not measured, or is apart: parts of `checked` were measured with all of `against`.

What the solids really share is `Facts`. An answer is `Right` about them when it says the same, or when they
are apart and it leaves out how far.

* `Right.inContact` — a right answer tells contact.
* `pair_kept`, `pair_extend` — what answers kept and answers added say of a pair.
-/

import Ketchup.Library.Ordered
import Mathlib.Algebra.Order.Field.Basic
import Mathlib.Data.Rat.Cast.OfScientific

set_option linter.unusedSectionVars false

namespace Ketchup.Exact

structure ExactPair (R : Type) where
  commonVolumeMm3 : R
  commonThicknessMm : R
  contactAreaMm2 : R
  distanceMm : Option R

section Pairs

variable {R : Type} [Field R] [LinearOrder R]

/-- `CONTACT_FIT_MM`. -/
def contactFitMm : R := 0.01

namespace ExactPair

variable (pair : ExactPair R)

/-- `ExactPair::default`. -/
def blank : ExactPair R := ⟨0, 0, 0, none⟩

def penetrating : Bool := 0 < pair.commonVolumeMm3

def touching : Bool := !pair.penetrating && pair.distanceMm.any (· ≤ contactFitMm)

def inContact : Bool := pair.penetrating || pair.touching

def gapMm : Option R := if pair.inContact then some 0 else pair.distanceMm

def withinContact : ExactPair R :=
  if pair.commonVolumeMm3 ≤ 0 then pair
  else if 0 < pair.commonThicknessMm ∧ pair.commonThicknessMm ≤ contactFitMm then
    { pair with commonVolumeMm3 := 0, distanceMm := some 0 }
  else pair

end ExactPair

/-- What two solids share, and how far apart they are. -/
structure Facts (R : Type) where
  volume : R
  thickness : R
  area : R
  distance : R

namespace Facts

/-- More than the contact tolerance apart. -/
structure Apart (facts : Facts R) : Prop where
  volume : facts.volume = 0
  thickness : facts.thickness = 0
  area : facts.area = 0
  distance : contactFitMm < facts.distance

/-- Contact by the contact rule, all of the facts known. -/
def inContact (facts : Facts R) : Bool :=
  (⟨facts.volume, facts.thickness, facts.area, some facts.distance⟩ : ExactPair R).withinContact.inContact

end Facts

structure ExactPair.Right (pair : ExactPair R) (facts : Facts R) : Prop where
  volume : pair.commonVolumeMm3 = facts.volume
  thickness : pair.commonThicknessMm = facts.thickness
  area : pair.contactAreaMm2 = facts.area
  distance : ∀ distance, pair.distanceMm = some distance → distance = facts.distance
  unknown : pair.distanceMm = none → contactFitMm < facts.distance

variable {pair : ExactPair R} {facts : Facts R}

theorem right_blank (apart : facts.Apart) : ExactPair.blank.Right facts where
  volume := apart.volume.symm
  thickness := apart.thickness.symm
  area := apart.area.symm
  distance _ known := nomatch known
  unknown _ := apart.distance

theorem ExactPair.Right.inContact (right : pair.Right facts) : pair.withinContact.inContact = facts.inContact := by
  obtain ⟨volume, thickness, area, distance⟩ := pair
  obtain ⟨rfl, rfl, rfl, known, unknown⟩ := right
  cases distance with
  | some distance => rw [known distance rfl]; rfl
  | none =>
    -- How far apart makes no difference.
    have far : ¬facts.distance ≤ contactFitMm := not_le.mpr (unknown rfl)
    unfold Facts.inContact ExactPair.withinContact
    dsimp only
    split
    · simp [ExactPair.inContact, ExactPair.touching, ExactPair.penetrating, far]
    · split
      · rfl
      · simp [ExactPair.inContact, ExactPair.touching, ExactPair.penetrating, far]

theorem Facts.Apart.inContact (apart : facts.Apart) : facts.inContact = false := by
  rw [← (right_blank apart).inContact]
  simp [ExactPair.blank, ExactPair.withinContact, ExactPair.inContact, ExactPair.touching, ExactPair.penetrating]

end Pairs

/-! ### Answers by name -/

attribute [local instance] lexOrd

def key (a b : String) : String × String := if (compare a b).isLE then (a, b) else (b, a)

theorem key_comm (a b : String) : key a b = key b a := by
  unfold key
  by_cases one : (compare a b).isLE = true <;> by_cases two : (compare b a).isLE = true
  · have same : a = b := Std.LawfulEqCmp.eq_of_compare (Std.OrientedCmp.isLE_antisymm one two)
    rw [same]
  · rw [if_pos one, if_neg two]
  · rw [if_neg one, if_pos two]
  · have either : ((compare a b).isLE || (compare b a).isLE) = true := isLE_total a b
    rw [Bool.or_eq_true] at either
    exact (either.elim one two).elim

theorem key_cases (a b : String) : key a b = (a, b) ∨ key a b = (b, a) := by
  unfold key
  split
  · exact .inl rfl
  · exact .inr rfl

structure ExactShapes (R : Type) where
  pairs : BTreeMap (String × String) (ExactPair R)
  checked : BTreeSet String
  against : BTreeSet String

namespace ExactShapes

variable {R : Type}

/-- `ExactShapes::default`. -/
def blank : ExactShapes R := ⟨∅, ∅, ∅⟩

variable (shapes : ExactShapes R)

def insert (a b : String) (pair : ExactPair R) : ExactShapes R :=
  { shapes with pairs := shapes.pairs.insert (key a b) pair }

def checkedAgainst (checked against : BTreeSet String) : ExactShapes R :=
  { shapes with checked := shapes.checked ∪ checked, against := shapes.against ∪ against }

/-- What the answers still say once some parts changed. -/
def kept (unchanged kept against : BTreeSet String) : ExactShapes R where
  pairs := shapes.pairs.filter fun names _ => unchanged.contains names.1 && unchanged.contains names.2
  checked := shapes.checked ∩ kept
  against := against

def extend (other : ExactShapes R) : ExactShapes R where
  pairs := shapes.pairs ∪ other.pairs
  checked := shapes.checked ∪ other.checked
  against := shapes.against ∪ other.against

/-- Checked with all, the other one of them. -/
def Checked (a b : String) : Prop := a ∈ shapes.checked ∧ b ∈ shapes.against

instance (a b : String) : Decidable (shapes.Checked a b) := instDecidableAnd

variable [Field R]

def pair (a b : String) : Option (ExactPair R) :=
  shapes.pairs[key a b]?.or (if a ≠ b ∧ (shapes.Checked a b ∨ shapes.Checked b a) then some .blank else none)


variable {shapes} {a b : String} {pair : ExactPair R}

theorem pair_eq_some : shapes.pair a b = some pair ↔
    shapes.pairs[key a b]? = some pair ∨
      shapes.pairs[key a b]? = none ∧ a ≠ b ∧ (shapes.Checked a b ∨ shapes.Checked b a) ∧ pair = .blank := by
  rw [ExactShapes.pair, Option.or_eq_some_iff, Option.ite_none_right_eq_some, Option.some_inj, and_assoc]
  exact or_congr_right (and_congr_right fun _ => and_congr_right fun _ => and_congr_right fun _ => eq_comm)

theorem pair_comm : shapes.pair a b = shapes.pair b a := by
  unfold ExactShapes.pair
  rw [key_comm a b]
  simp only [ne_comm, or_comm]

theorem pairs_kept {unchanged kept against : BTreeSet String} {names : String × String} :
    (shapes.kept unchanged kept against).pairs[names]? = some pair ↔
      shapes.pairs[names]? = some pair ∧ names.1 ∈ unchanged ∧ names.2 ∈ unchanged := by
  rw [ExactShapes.kept, Std.ExtTreeMap.getElem?_filter', Option.filter_eq_some_iff, Bool.and_eq_true]
  rfl

theorem pairs_extend {other : ExactShapes R} {names : String × String} :
    (shapes.extend other).pairs[names]? = other.pairs[names]?.or shapes.pairs[names]? :=
  Std.ExtTreeMap.getElem?_union

end ExactShapes

end Ketchup.Exact
