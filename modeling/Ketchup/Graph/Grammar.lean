/-
**The grammar of dimension expressions, and the parser against it.**

`Derives levels level tokens tree` is the grammar with its trees: sums of products of unary terms, with
left association, where `levels` bounds how deep a derivation nests. The parser reads left recursion as
a loop, so both directions go through the loop from a tree already read:

* `parseLevel_sound`, over `operatorLoop_sound`: what the parser reads the grammar derives;
* `operatorLoop_fuel`: the loop's fuel is enough, as every round takes a token;
* `parseLevel_complete`, over `Derives.continues`: what the grammar derives the parser reads, up to a
  token that goes on with it;
* `Derives.unique`: the grammar derives one tree of a text.
-/

import Ketchup.Graph.Expression
import Ketchup.Library.Outcome

set_option linter.unusedSectionVars false

namespace Ketchup.Graph

variable {F : Type}

/-- The grammar, within a number of levels. -/
inductive Derives : Nat → Level → List (Token F) → ExpressionAst F → Prop
  | number {levels : Nat} (value : F) :
      Derives (levels + 1) .primary [.number value] (.number value)
  | node {levels : Nat} (id : NodeId) : Derives (levels + 1) .primary [.node id] (.node id)
  | parentheses {levels : Nat} {tokens : List (Token F)} {tree : ExpressionAst F}
      (inner : Derives levels .sum tokens tree) :
      Derives (levels + 1) .primary (.leftParen :: (tokens ++ [.rightParen])) tree
  | primary {levels : Nat} {tokens : List (Token F)} {tree : ExpressionAst F}
      (inner : Derives levels .primary tokens tree) : Derives (levels + 1) .unary tokens tree
  | negate {levels : Nat} {tokens : List (Token F)} {tree : ExpressionAst F}
      (inner : Derives levels .unary tokens tree) :
      Derives (levels + 1) .unary (.minus :: tokens) (.negate tree)
  | unary {levels : Nat} {tokens : List (Token F)} {tree : ExpressionAst F}
      (inner : Derives levels .unary tokens tree) : Derives (levels + 1) .product tokens tree
  | multiply {levels : Nat} {tokens others : List (Token F)} {left right : ExpressionAst F}
      (first : Derives (levels + 1) .product tokens left) (second : Derives levels .unary others right) :
      Derives (levels + 1) .product (tokens ++ .star :: others) (.multiply left right)
  | divide {levels : Nat} {tokens others : List (Token F)} {left right : ExpressionAst F}
      (first : Derives (levels + 1) .product tokens left) (second : Derives levels .unary others right) :
      Derives (levels + 1) .product (tokens ++ .slash :: others) (.divide left right)
  | product {levels : Nat} {tokens : List (Token F)} {tree : ExpressionAst F}
      (inner : Derives levels .product tokens tree) : Derives (levels + 1) .sum tokens tree
  | add {levels : Nat} {tokens others : List (Token F)} {left right : ExpressionAst F}
      (first : Derives (levels + 1) .sum tokens left) (second : Derives levels .product others right) :
      Derives (levels + 1) .sum (tokens ++ .plus :: others) (.add left right)
  | subtract {levels : Nat} {tokens others : List (Token F)} {left right : ExpressionAst F}
      (first : Derives (levels + 1) .sum tokens left) (second : Derives levels .product others right) :
      Derives (levels + 1) .sum (tokens ++ .minus :: others) (.subtract left right)

/-- More levels derive no less. -/
theorem Derives.succ {levels : Nat} {level : Level} {tokens : List (Token F)} {tree : ExpressionAst F}
    (derives : Derives levels level tokens tree) : Derives (levels + 1) level tokens tree := by
  induction derives with
  | number value => exact .number value
  | node id => exact .node id
  | parentheses _ ih => exact .parentheses ih
  | primary _ ih => exact .primary ih
  | negate _ ih => exact .negate ih
  | unary _ ih => exact .unary ih
  | multiply _ _ first second => exact .multiply first second
  | divide _ _ first second => exact .divide first second
  | product _ ih => exact .product ih
  | add _ _ first second => exact .add first second
  | subtract _ _ first second => exact .subtract first second

theorem Derives.mono {levels more : Nat} (le : levels ≤ more) {level : Level} {tokens : List (Token F)}
    {tree : ExpressionAst F} (derives : Derives levels level tokens tree) :
    Derives more level tokens tree := by
  induction le with
  | refl => exact derives
  | step _ ih => exact ih.succ

/-! ### What the parser reads is derived -/

section Sound

variable {operator : Token F → Option (ExpressionAst F → ExpressionAst F → ExpressionAst F)}
  {operand : List (Token F) → Except GraphError (Parsed F)}

/-- The loop goes on with what is derived, where an operator and an operand do. -/
theorem operatorLoop_sound (whole part : List (Token F) → ExpressionAst F → Prop)
    (sound : ∀ {tokens tree after}, operand tokens = .ok (tree, after) →
      ∃ read, tokens = read ++ after ∧ part read tree)
    (combines : ∀ {token combine left right tokens others}, operator token = some combine →
      whole tokens left → part others right → whole (tokens ++ token :: others) (combine left right))
    {fuel : Nat} {left tree : ExpressionAst F} {done tokens after : List (Token F)}
    (start : whole done left)
    (ok : operatorLoop operator operand fuel left tokens = .ok (tree, after)) :
    ∃ read, tokens = read ++ after ∧ whole (done ++ read) tree := by
  induction fuel generalizing left done tokens with
  | zero =>
    rw [operatorLoop] at ok
    cases ok
    exact ⟨[], rfl, by rwa [List.append_nil]⟩
  | succ fuel ih =>
    cases tokens with
    | nil =>
      rw [operatorLoop] at ok
      cases ok
      exact ⟨[], rfl, by rwa [List.append_nil]⟩
    | cons token rest =>
      rw [operatorLoop] at ok
      split at ok
      case h_1 =>
        cases ok
        exact ⟨[], rfl, by rwa [List.append_nil]⟩
      case h_2 combine is =>
        obtain ⟨⟨right, between⟩, here, later⟩ := bind_ok ok
        obtain ⟨others, rfl, derived⟩ := sound here
        obtain ⟨read, rfl, more⟩ := ih (combines is start derived) later
        exact ⟨token :: (others ++ read), by simp, by simpa using more⟩

/-- Every round of the loop takes a token, so the number of tokens is fuel enough. -/
theorem operatorLoop_fuel
    (shrinks : ∀ {tokens tree after}, operand tokens = .ok (tree, after) →
      after.length ≤ tokens.length)
    {fuel : Nat} {left : ExpressionAst F} {tokens : List (Token F)} (enough : tokens.length ≤ fuel) :
    operatorLoop operator operand fuel left tokens =
      operatorLoop operator operand tokens.length left tokens := by
  induction fuel using Nat.strongRecOn generalizing left tokens with
  | _ fuel ih =>
    cases tokens with
    | nil => cases fuel <;> rfl
    | cons token rest =>
      obtain ⟨fuel, rfl⟩ : ∃ less, fuel = less + 1 :=
        ⟨fuel - 1, by rw [List.length_cons] at enough; omega⟩
      rw [List.length_cons, operatorLoop, operatorLoop]
      split
      case h_1 => rfl
      case h_2 combine _ =>
        cases here : operand rest with
        | error reason => rfl
        | ok parsed =>
          obtain ⟨right, after⟩ := parsed
          have less := shrinks here
          rw [List.length_cons] at enough
          show operatorLoop operator operand fuel (combine left right) after =
            operatorLoop operator operand rest.length (combine left right) after
          rw [ih fuel (Nat.lt_succ_self _) (by omega)]
          rcases Nat.lt_or_ge rest.length (fuel + 1) with smaller | larger
          · rw [ih rest.length smaller less]
          · omega

end Sound

theorem sumOperator_derives {token : Token F}
    {combine : ExpressionAst F → ExpressionAst F → ExpressionAst F}
    (is : sumOperator token = some combine) {levels : Nat} {left right : ExpressionAst F}
    {tokens others : List (Token F)} (first : Derives (levels + 1) .sum tokens left)
    (second : Derives levels .product others right) :
    Derives (levels + 1) .sum (tokens ++ token :: others) (combine left right) := by
  cases token <;> cases is
  case plus => exact .add first second
  case minus => exact .subtract first second

theorem productOperator_derives {token : Token F}
    {combine : ExpressionAst F → ExpressionAst F → ExpressionAst F}
    (is : productOperator token = some combine) {levels : Nat} {left right : ExpressionAst F}
    {tokens others : List (Token F)} (first : Derives (levels + 1) .product tokens left)
    (second : Derives levels .unary others right) :
    Derives (levels + 1) .product (tokens ++ token :: others) (combine left right) := by
  cases token <;> cases is
  case star => exact .multiply first second
  case slash => exact .divide first second

variable [Binary64 F]

/-- A term that no minus begins is a primary one. -/
theorem parseLevel_notMinus {levels : Nat} {tokens : List (Token F)}
    (bare : ∀ rest, tokens ≠ .minus :: rest) :
    parseLevel (levels + 1) .unary tokens = parseLevel levels .primary tokens := by
  rw [parseLevel]
  exact bare

/-- **What the parser reads the grammar derives**, and the parser leaves the rest. -/
theorem parseLevel_sound {levels : Nat} {level : Level} {tokens after : List (Token F)}
    {tree : ExpressionAst F} (ok : parseLevel levels level tokens = .ok (tree, after)) :
    ∃ read, tokens = read ++ after ∧ Derives levels level read tree := by
  induction levels generalizing level tokens after tree with
  | zero => cases ok
  | succ levels ih =>
    cases level with
    | sum =>
      obtain ⟨⟨left, between⟩, here, later⟩ := bind_ok ok
      obtain ⟨first, rfl, derived⟩ := ih here
      obtain ⟨more, rfl, whole⟩ := operatorLoop_sound (Derives (levels + 1) .sum) _ ih
        (fun is => sumOperator_derives is) (.product derived) later
      exact ⟨first ++ more, by rw [List.append_assoc], whole⟩
    | product =>
      obtain ⟨⟨left, between⟩, here, later⟩ := bind_ok ok
      obtain ⟨first, rfl, derived⟩ := ih here
      obtain ⟨more, rfl, whole⟩ := operatorLoop_sound (Derives (levels + 1) .product) _ ih
        (fun is => productOperator_derives is) (.unary derived) later
      exact ⟨first ++ more, by rw [List.append_assoc], whole⟩
    | unary =>
      by_cases minus : ∃ rest, tokens = .minus :: rest
      · obtain ⟨rest, rfl⟩ := minus
        obtain ⟨⟨value, between⟩, here, later⟩ := bind_ok ok
        cases later
        obtain ⟨read, rfl, derived⟩ := ih here
        exact ⟨.minus :: read, rfl, .negate derived⟩
      · rw [parseLevel_notMinus fun rest is => minus ⟨rest, is⟩] at ok
        obtain ⟨read, rfl, derived⟩ := ih ok
        exact ⟨read, rfl, .primary derived⟩
    | primary =>
      cases tokens with
      | nil => cases ok
      | cons token rest =>
        cases token with
        | number value =>
          cases ok
          exact ⟨[.number value], rfl, .number value⟩
        | node id =>
          cases ok
          exact ⟨[.node id], rfl, .node id⟩
        | plus | minus | star | slash | rightParen => cases ok
        | leftParen =>
          obtain ⟨⟨value, between⟩, here, later⟩ := bind_ok ok
          obtain ⟨read, rfl, derived⟩ := ih here
          dsimp only at later
          split at later <;> cases later
          exact ⟨.leftParen :: (read ++ [.rightParen]), by simp, .parentheses derived⟩

theorem parseLevel_shrinks {levels : Nat} {level : Level} {tokens after : List (Token F)}
    {tree : ExpressionAst F} (ok : parseLevel levels level tokens = .ok (tree, after)) :
    after.length ≤ tokens.length := by
  obtain ⟨read, rfl, _⟩ := parseLevel_sound ok
  simp

/-! ### What is derived the parser reads -/

/-- No token follows that the operator takes. -/
def Stops {α : Type} (operator : Token F → Option α) (after : List (Token F)) : Prop :=
  ∀ token ∈ after.head?, operator token = none

section Loop

variable {operator : Token F → Option (ExpressionAst F → ExpressionAst F → ExpressionAst F)}
  {operand : List (Token F) → Except GraphError (Parsed F)}

theorem operatorLoop_stops {fuel : Nat} {left : ExpressionAst F} {after : List (Token F)}
    (stops : Stops operator after) :
    operatorLoop operator operand fuel left after = .ok (left, after) := by
  cases fuel with
  | zero => rfl
  | succ fuel =>
    cases after with
    | nil => rfl
    | cons token rest => rw [operatorLoop, stops token rfl]

theorem operatorLoop_takes
    (shrinks : ∀ {tokens tree after}, operand tokens = .ok (tree, after) →
      after.length ≤ tokens.length)
    {token : Token F} {combine : ExpressionAst F → ExpressionAst F → ExpressionAst F}
    (is : operator token = some combine) {left right : ExpressionAst F} {rest after : List (Token F)}
    (here : operand rest = .ok (right, after)) :
    operatorLoop operator operand (token :: rest).length left (token :: rest) =
      operatorLoop operator operand after.length (combine left right) after := by
  rw [List.length_cons, operatorLoop, is]
  simp only [here]
  exact operatorLoop_fuel shrinks (shrinks here)

end Loop

/-- How the parser goes on from a tree it has read at a level. -/
def continueFrom (levels : Nat) (level : Level) (tree : ExpressionAst F) (after : List (Token F)) :
    Except GraphError (Parsed F) :=
  match level with
  | .sum => operatorLoop sumOperator (parseLevel (levels - 1) .product) after.length tree after
  | .product => operatorLoop productOperator (parseLevel (levels - 1) .unary) after.length tree after
  | .unary | .primary => .ok (tree, after)

/-- What follows does not go on with the last part that was read. -/
def Level.Free : Level → List (Token F) → Prop
  | .sum, after => Stops productOperator after
  | .product, _ | .unary, _ | .primary, _ => True

/-- What follows does not go on with what was read at a level. -/
def Level.Ends : Level → List (Token F) → Prop
  | .sum, after => Stops productOperator after ∧ Stops sumOperator after
  | .product, after => Stops productOperator after
  | .unary, _ | .primary, _ => True

theorem continueFrom_ends {levels : Nat} {level : Level} {tree : ExpressionAst F}
    {after : List (Token F)} (ends : level.Ends after) :
    continueFrom levels level tree after = .ok (tree, after) := by
  cases level with
  | sum => exact operatorLoop_stops ends.2
  | product => exact operatorLoop_stops ends
  | unary | primary => rfl

/-- A primary term does not begin with a minus. -/
theorem Derives.notMinus {levels : Nat} {tokens : List (Token F)} {tree : ExpressionAst F}
    (derives : Derives levels .primary tokens tree) (after rest : List (Token F)) :
    tokens ++ after ≠ .minus :: rest := by
  cases derives <;> exact fun same => by cases same

/-- **Through what is derived the parser comes to its tree** and goes on from it. -/
theorem Derives.continues {levels : Nat} {level : Level} {tokens : List (Token F)}
    {tree : ExpressionAst F} (derives : Derives levels level tokens tree) {after : List (Token F)}
    (free : level.Free after) :
    parseLevel levels level (tokens ++ after) = continueFrom levels level tree after := by
  induction derives generalizing after with
  | number value => rfl
  | node id => rfl
  | @parentheses levels tokens tree inner ih =>
    have ends : Level.sum.Ends (.rightParen :: after) :=
      ⟨fun token is => by cases is; rfl, fun token is => by cases is; rfl⟩
    have inside : parseLevel levels .sum (tokens ++ .rightParen :: after) =
        .ok (tree, .rightParen :: after) := (ih ends.1).trans (continueFrom_ends ends)
    rw [List.cons_append, List.append_assoc, List.singleton_append, parseLevel]
    simp only [inside]
    rfl
  | @primary levels tokens tree inner ih =>
    rw [parseLevel_notMinus (inner.notMinus after), ih trivial]
    rfl
  | @negate levels tokens tree inner ih =>
    rw [List.cons_append, parseLevel, ih trivial]
    rfl
  | @unary levels tokens tree inner ih =>
    rw [parseLevel, ih trivial]
    rfl
  | @multiply levels tokens others left right first second one two =>
    rw [List.append_assoc, List.cons_append, one trivial]
    have is : productOperator (.star : Token F) = some .multiply := rfl
    exact operatorLoop_takes parseLevel_shrinks is (two trivial)
  | @divide levels tokens others left right first second one two =>
    rw [List.append_assoc, List.cons_append, one trivial]
    have is : productOperator (.slash : Token F) = some .divide := rfl
    exact operatorLoop_takes parseLevel_shrinks is (two trivial)
  | @product levels tokens tree inner ih =>
    have read : parseLevel levels .product (tokens ++ after) = .ok (tree, after) :=
      (ih trivial).trans (continueFrom_ends (show Level.product.Ends after from free))
    rw [parseLevel]
    simp only [read]
    rfl
  | @add levels tokens others left right first second one two =>
    have read : parseLevel levels .product (others ++ after) = .ok (right, after) :=
      (two trivial).trans (continueFrom_ends (show Level.product.Ends after from free))
    have next : Level.sum.Free (.plus :: (others ++ after)) := fun token is => by cases is; rfl
    have is : sumOperator (.plus : Token F) = some .add := rfl
    rw [List.append_assoc, List.cons_append, one next]
    exact operatorLoop_takes parseLevel_shrinks is read
  | @subtract levels tokens others left right first second one two =>
    have read : parseLevel levels .product (others ++ after) = .ok (right, after) :=
      (two trivial).trans (continueFrom_ends (show Level.product.Ends after from free))
    have next : Level.sum.Free (.minus :: (others ++ after)) := fun token is => by cases is; rfl
    have is : sumOperator (.minus : Token F) = some .subtract := rfl
    rw [List.append_assoc, List.cons_append, one next]
    exact operatorLoop_takes parseLevel_shrinks is read

/-- **What the grammar derives the parser reads**, up to a token that goes on with it. -/
theorem parseLevel_complete {levels : Nat} {level : Level} {tokens after : List (Token F)}
    {tree : ExpressionAst F} (derives : Derives levels level tokens tree) (ends : level.Ends after) :
    parseLevel levels level (tokens ++ after) = .ok (tree, after) := by
  have free : level.Free after := by
    cases level with
    | sum => exact ends.1
    | product | unary | primary => trivial
  exact (derives.continues free).trans (continueFrom_ends ends)

theorem Level.ends_nil (level : Level) : level.Ends ([] : List (Token F)) := by
  cases level with
  | sum => exact ⟨nofun, nofun⟩
  | product => exact nofun
  | unary | primary => trivial

/-- **The whole of a text is read exactly as the grammar derives it.** -/
theorem parseLevel_iff {levels : Nat} {level : Level} {tokens : List (Token F)}
    {tree : ExpressionAst F} :
    parseLevel levels level tokens = .ok (tree, []) ↔ Derives levels level tokens tree := by
  constructor
  · intro ok
    obtain ⟨read, rfl, derived⟩ := parseLevel_sound ok
    rwa [List.append_nil]
  · intro derives
    simpa using parseLevel_complete derives level.ends_nil

/-- **A text has one tree**, however deep its derivations nest. -/
theorem Derives.unique {levels levels' : Nat} {level : Level} {tokens : List (Token F)}
    {first second : ExpressionAst F} (one : Derives levels level tokens first)
    (two : Derives levels' level tokens second) : first = second := by
  have one := parseLevel_iff.mpr (one.mono (Nat.le_max_left levels levels'))
  have two := parseLevel_iff.mpr (two.mono (Nat.le_max_right levels levels'))
  exact congrArg Prod.fst (Except.ok.inj (one.symm.trans two))

end Ketchup.Graph
