/-
**Values refreshed one after another, each after what it reads.**

A step gives a key its new value, or none where its value stays; `refresh` takes the keys of a list one
after another. A key is `Settled` where its step gives it the value it has.

* `Legal`: each key of the list is new and comes after all it reads.
* `refresh_settled` — after a legal list every key is settled, where a step reads what the key reads
  and settles the key it is for.
* `refresh_again` — a second refresh changes nothing.
* `refresh_related` — what every step keeps, a refresh keeps.
-/

import Ketchup.Library.Kahn
import Ketchup.Library.Outcome

set_option linter.unusedSectionVars false

namespace Ketchup.Refresh

variable {K V E : Type} [Ord K] [Std.TransOrd K]

abbrev Step (K V E : Type) [Ord K] : Type := BTreeMap K V → K → Except E (Option V)

def put (nodes : BTreeMap K V) (key : K) : Option V → BTreeMap K V
  | none => nodes
  | some value => nodes.insert key value

def refresh (step : Step K V E) : List K → BTreeMap K V → Except E (BTreeMap K V)
  | [], nodes => .ok nodes
  | key :: rest, nodes => do
    let result ← step nodes key
    refresh step rest (put nodes key result)

/-- The step of the key changes nothing. -/
def Settled (step : Step K V E) (nodes : BTreeMap K V) (key : K) : Prop :=
  ∃ result, step nodes key = .ok result ∧ ∀ value, result = some value → nodes[key]? = some value

/-- All that a member reads is a member. -/
def ReadsWithin (reads : K → List K) (keys : List K) : Prop :=
  ∀ key ∈ keys, ∀ other ∈ reads key, other ∈ keys

/-- Each key is new, and what it reads is done. -/
def Legal (reads : K → List K) : List K → List K → Prop
  | _, [] => True
  | done, key :: rest => (∀ other ∈ reads key, other ∈ done) ∧ key ∉ done ∧ Legal reads (done ++ [key]) rest

/-- A step that depends on the key and on what the key reads only, settles the key it is for, and keeps
an invariant. -/
structure Sound (step : Step K V E) (reads : K → List K) (inv : BTreeMap K V → Prop) : Prop where
  keeps : ∀ {nodes key result}, inv nodes → step nodes key = .ok result → inv (put nodes key result)
  settles : ∀ {nodes key result}, inv nodes → step nodes key = .ok result →
    Settled step (put nodes key result) key
  congr : ∀ {nodes other : BTreeMap K V} {key}, inv nodes → inv other → other[key]? = nodes[key]? →
    (∀ there ∈ reads key, other[there]? = nodes[there]?) → step other key = step nodes key

/-- What a key reads by its entry in a map of links. -/
def readsOf {L : Type} (dependencies : L → List K) (links : BTreeMap K L) (key : K) : List K :=
  (links[key]?.map dependencies).getD []

/-- A ready order of the links is legal. -/
theorem Legal.of_ready {L : Type} [DecidableEq K] {dependencies : L → List K} {links : BTreeMap K L}
    {done order : List K} (ready : Kahn.ReadyOrder dependencies links done order) :
    Legal (readsOf dependencies links) done order := by
  induction order generalizing done with
  | nil => trivial
  | cons key rest ih =>
    obtain ⟨⟨link, entry, there⟩, fresh, later⟩ := ready
    refine ⟨?_, fresh, ih later⟩
    simpa [readsOf, entry] using there

variable {step : Step K V E} {reads : K → List K} {inv : BTreeMap K V → Prop}
variable {nodes after : BTreeMap K V} {done order : List K}

theorem ReadsWithin.append {key : K} (within : ReadsWithin reads done) (ready : ∀ other ∈ reads key, other ∈ done) :
    ReadsWithin reads (done ++ [key]) := by
  intro next there other read
  rw [List.mem_append, List.mem_singleton] at there ⊢
  rcases there with there | rfl
  · exact Or.inl (within next there other read)
  · exact Or.inl (ready other read)

variable [Std.LawfulEqOrd K]

theorem getElem?_put_ne {key other : K} (result : Option V) (apart : key ≠ other) :
    (put nodes key result)[other]? = nodes[other]? := by
  cases result with
  | none => rfl
  | some value =>
    rw [put, Std.ExtTreeMap.getElem?_insert, if_neg]
    rwa [Std.LawfulEqCmp.compare_eq_iff_eq]

theorem getElem?_put_self {key : K} {result : Option V} :
    (put nodes key result)[key]? = result.or nodes[key]? := by
  cases result with
  | none => rfl
  | some value => exact Std.ExtTreeMap.getElem?_insert_self

theorem put_of_same {key : K} {result : Option V} (same : ∀ value, result = some value → nodes[key]? = some value) :
    put nodes key result = nodes := by
  apply Std.ExtTreeMap.ext_getElem?
  intro other
  by_cases here : key = other
  · subst here
    rw [getElem?_put_self]
    cases result with
    | none => rfl
    | some value => exact (same value rfl).symm
  · exact getElem?_put_ne result here

/-- The keys done stay settled while another is refreshed. -/
theorem Settled.put {key other : K} {result : Option V} (sound : Sound step reads inv) (holds : inv nodes)
    (within : ReadsWithin reads done) (there : other ∈ done) (fresh : key ∉ done)
    (one : step nodes key = .ok result) (settled : Settled step nodes other) :
    Settled step (put nodes key result) other := by
  have apart : ∀ next ∈ done, (Refresh.put nodes key result)[next]? = nodes[next]? := fun next member =>
    getElem?_put_ne result fun same => fresh (same ▸ member)
  obtain ⟨known, made, same⟩ := settled
  refine ⟨known, ?_, fun value is => ?_⟩
  · rw [sound.congr holds (sound.keeps holds one) (apart other there) fun next read =>
      apart next (within other there next read)]
    exact made
  · rw [apart other there]
    exact same value is

/-- **After a refresh every key is settled.** -/
theorem refresh_settled (sound : Sound step reads inv) (holds : inv nodes) (within : ReadsWithin reads done)
    (legal : Legal reads done order) (settled : ∀ key ∈ done, Settled step nodes key)
    (ran : refresh step order nodes = .ok after) :
    inv after ∧ ∀ key ∈ done ++ order, Settled step after key := by
  induction order generalizing nodes done with
  | nil =>
    obtain rfl := Except.ok.inj ran
    exact ⟨holds, by simpa using settled⟩
  | cons key rest ih =>
    obtain ⟨ready, fresh, legal⟩ := legal
    obtain ⟨result, one, ran⟩ := bind_ok ran
    have settled' : ∀ other ∈ done ++ [key], Settled step (put nodes key result) other := by
      intro other there
      rw [List.mem_append, List.mem_singleton] at there
      rcases there with there | rfl
      · exact (settled other there).put sound holds within there fresh one
      · exact sound.settles holds one
    have both := ih (sound.keeps holds one) (within.append ready) legal settled' ran
    rwa [List.append_assoc] at both

/-- **A refresh of settled keys changes nothing.** -/
theorem refresh_again (settled : ∀ key ∈ order, Settled step nodes key) : refresh step order nodes = .ok nodes := by
  induction order with
  | nil => rfl
  | cons key rest ih =>
    obtain ⟨result, one, same⟩ := settled key List.mem_cons_self
    rw [refresh, bind_eq_of_ok one, put_of_same same]
    exact ih fun other there => settled other (List.mem_cons_of_mem _ there)

/-- What every step keeps, a refresh keeps. -/
theorem refresh_related {related : BTreeMap K V → BTreeMap K V → Prop} (same : ∀ nodes, related nodes nodes)
    (through : ∀ {one two three}, related one two → related two three → related one three)
    (steps : ∀ {nodes key result}, step nodes key = .ok result → related nodes (put nodes key result))
    (ran : refresh step order nodes = .ok after) : related nodes after := by
  induction order generalizing nodes with
  | nil =>
    obtain rfl := Except.ok.inj ran
    exact same nodes
  | cons key rest ih =>
    obtain ⟨result, one, ran⟩ := bind_ok ran
    exact through (steps one) (ih ran)

end Ketchup.Refresh
