/-
**Dimension expressions: the syntax tree, its parser and its value.**

`ExpressionAst.parse` reads sums, products, unary minus, parentheses, numbers and `$id` references
within the byte, token and depth limits of the source. `ExpressionAst.evaluate` computes a value
from the values of the nodes an expression refers to, or the diagnostic that stops it.

Numbers are a type `F` with the operations of `Binary64`: what the evaluator does to an `f64`, with
nothing assumed about rounding.
-/

import Ketchup.Library.Ordered
import Mathlib.Algebra.Group.Nat.Defs
import Mathlib.Tactic.Tauto

namespace Ketchup.Graph

/-- The operations of `f64` that the evaluator uses. -/
class Binary64 (F : Type) where
  add : F → F → F
  sub : F → F → F
  mul : F → F → F
  div : F → F → F
  neg : F → F
  /-- `value == 0.0`. -/
  isZero : F → Bool
  isFinite : F → Bool
  toBits : F → UInt64
  /-- `left == right`. -/
  eq : F → F → Bool
  /-- `value.abs() > MAX_COORDINATE_MM`. -/
  isRemote : F → Bool
  /-- `str::parse::<f64>`. -/
  parse : List Char → Option F
  /-- `to_string`. -/
  display : F → String

abbrev NodeId := Nat

def maxExpressionBytes : Nat := 4096
def maxExpressionTokens : Nat := 1024
def maxExpressionDepth : Nat := 64

inductive GraphError
  | reservedNodeId
  | reservedOverrideId
  | emptyNodeName
  | dependenciesNotCanonical
  | dependencyCycle (id : NodeId)
  | missingDependency (id : NodeId)
  | nodeKeyMismatch
  | expressionLimit
  | invalidNumber
  | invalidNodeReference
  | unexpectedToken
  | unexpectedEnd
  | unclosedParenthesis
  | invalidSemanticKey
  | emptySlotPath
  | slotPathLimit
  | ruleOutputLimit
  | ruleOutputDepthLimit
  | duplicatePort
  | duplicateOverrideParameter
  | invalidOutputProducer
  | emptyOutputPorts
  | unknownOutputPort
  | emptyEvaluationIdentity
  deriving DecidableEq

inductive DiagnosticCode
  | dependencyFailed
  | divisionByZero
  | nonFiniteResult
  deriving DecidableEq

inductive ExpressionAst (F : Type)
  | number (value : F)
  | node (id : NodeId)
  | add (left right : ExpressionAst F)
  | subtract (left right : ExpressionAst F)
  | multiply (left right : ExpressionAst F)
  | divide (left right : ExpressionAst F)
  | negate (value : ExpressionAst F)
  deriving DecidableEq

section Parser

variable {F : Type} [Binary64 F]

inductive Token (F : Type)
  | number (value : F)
  | node (id : NodeId)
  | plus
  | minus
  | star
  | slash
  | leftParen
  | rightParen
  deriving DecidableEq

/-- The text of a number after its first character, and what follows it: digits and points, and
one exponent mark with an optional sign. -/
def scanNumber (exponent : Bool) : List Char → List Char × List Char
  | [] => ([], [])
  | mark :: rest =>
    if mark.isDigit || mark == '.' then
      ((scanNumber exponent rest).map (mark :: ·) id)
    else if (mark == 'e' || mark == 'E') && !exponent then
      match rest with
      | [] => ([mark], [])
      | sign :: after =>
        if sign == '+' || sign == '-' then
          (scanNumber true after).map (fun text => mark :: sign :: text) id
        else
          (scanNumber true (sign :: after)).map (mark :: ·) id
    else ([], mark :: rest)

/-- The value of a run of decimal digits. -/
def decimalValue (digits : List Char) : Nat :=
  digits.foldl (fun value digit => 10 * value + (digit.toNat - '0'.toNat)) 0

/-- The whole numbers among the doubles, as long as they stay below `2 ^ 53` and divisions come out
even. -/
instance : Binary64 Int where
  add := (· + ·)
  sub := (· - ·)
  mul := (· * ·)
  div := (· / ·)
  neg := Neg.neg
  isZero := (· == 0)
  isFinite _ := true
  toBits value :=
    let size := value.natAbs
    let exponent := size.log2
    if size = 0 then 0
    else UInt64.ofNat ((if value < 0 then 2 ^ 63 else 0) + (1023 + exponent) * 2 ^ 52 +
      (size - 2 ^ exponent) * 2 ^ (52 - exponent))
  eq := (· == ·)
  isRemote value := decide (1000000 < value.natAbs)
  parse text := if text.all Char.isDigit && !text.isEmpty then some (decimalValue text) else none
  display := toString

/-- The token at the head of a non-empty text and the text after it; white space has none. -/
def scanToken (mark : Char) (rest : List Char) :
    Except GraphError (Option (Token F) × List Char) :=
  match mark with
  | ' ' | '\t' | '\r' | '\n' => .ok (none, rest)
  | '+' => .ok (some .plus, rest)
  | '-' => .ok (some .minus, rest)
  | '*' => .ok (some .star, rest)
  | '/' => .ok (some .slash, rest)
  | '(' => .ok (some .leftParen, rest)
  | ')' => .ok (some .rightParen, rest)
  | '$' =>
    let digits := rest.takeWhile Char.isDigit
    if digits.isEmpty then .error .invalidNodeReference
    -- `parse::<u64>` refuses what does not fit.
    else if 2 ^ 64 ≤ decimalValue digits then .error .invalidNodeReference
    else if decimalValue digits = 0 then .error .reservedNodeId
    else .ok (some (.node (decimalValue digits)), rest.dropWhile Char.isDigit)
  | mark =>
    if mark.isDigit || mark == '.' then
      let (text, after) := scanNumber false rest
      match Binary64.parse (mark :: text) with
      | some value =>
        if Binary64.isFinite value then .ok (some (.number value), after)
        else .error .invalidNumber
      | none => .error .invalidNumber
    else .error .unexpectedToken

/-- The tokenizer's loop; every round reads at least one character, so the length of the text is
fuel enough. -/
def tokenizeLoop : Nat → List Char → List (Token F) → Except GraphError (List (Token F))
  | _, [], tokens => .ok tokens
  | 0, _ :: _, _ => .error .expressionLimit
  | fuel + 1, mark :: rest, tokens => do
    let (token, after) ← scanToken mark rest
    let tokens := tokens ++ token.toList
    if maxExpressionTokens < tokens.length then .error .expressionLimit
    else tokenizeLoop fuel after tokens

def tokenize (source : List Char) : Except GraphError (List (Token F)) :=
  tokenizeLoop source.length source []

/-- The parser's four functions. -/
inductive Level
  | sum
  | product
  | unary
  | primary

/-- What one parser function returns: the tree it read and the tokens left. -/
abbrev Parsed (F : Type) := ExpressionAst F × List (Token F)

/-- The operator loop of `parse_sum` and `parse_product`: operands of the next level, combined from
the left. Every round takes a token, so the number of tokens is fuel enough. -/
def operatorLoop (operator : Token F → Option (ExpressionAst F → ExpressionAst F → ExpressionAst F))
    (operand : List (Token F) → Except GraphError (Parsed F)) :
    Nat → ExpressionAst F → List (Token F) → Except GraphError (Parsed F)
  | 0, left, tokens => .ok (left, tokens)
  | _ + 1, left, [] => .ok (left, [])
  | fuel + 1, left, token :: rest =>
    match operator token with
    | none => .ok (left, token :: rest)
    | some combine => do
      let (right, after) ← operand rest
      operatorLoop operator operand fuel (combine left right) after

def sumOperator : Token F → Option (ExpressionAst F → ExpressionAst F → ExpressionAst F)
  | .plus => some .add
  | .minus => some .subtract
  | _ => none

def productOperator : Token F → Option (ExpressionAst F → ExpressionAst F → ExpressionAst F)
  | .star => some .multiply
  | .slash => some .divide
  | _ => none

/-- `parse_sum`, `parse_product`, `parse_unary` and `parse_primary` at depth
`maxExpressionDepth + 1 - levels`: each call passes its depth plus one, and `check_depth` refuses a
depth above the limit. -/
def parseLevel : Nat → Level → List (Token F) → Except GraphError (Parsed F)
  | 0, _, _ => .error .expressionLimit
  | levels + 1, .sum, tokens => do
    let (left, after) ← parseLevel levels .product tokens
    operatorLoop sumOperator (parseLevel levels .product) after.length left after
  | levels + 1, .product, tokens => do
    let (left, after) ← parseLevel levels .unary tokens
    operatorLoop productOperator (parseLevel levels .unary) after.length left after
  | levels + 1, .unary, .minus :: rest => do
    let (value, after) ← parseLevel levels .unary rest
    .ok (.negate value, after)
  | levels + 1, .unary, tokens => parseLevel levels .primary tokens
  | _ + 1, .primary, [] => .error .unexpectedEnd
  | levels + 1, .primary, token :: rest =>
    match token with
    | .number value => .ok (.number value, rest)
    | .node id => .ok (.node id, rest)
    | .leftParen => do
      let (value, after) ← parseLevel levels .sum rest
      match after with
      | .rightParen :: after => .ok (value, after)
      | _ => .error .unclosedParenthesis
    | _ => .error .unexpectedToken

def ExpressionAst.parse (source : String) : Except GraphError (ExpressionAst F) := do
  if source.isEmpty || maxExpressionBytes < source.utf8ByteSize then .error .expressionLimit
  else
    let tokens ← tokenize source.toList
    if tokens.isEmpty || maxExpressionTokens < tokens.length then .error .expressionLimit
    else
      let (expression, after) ← parseLevel (maxExpressionDepth + 1) .sum tokens
      if after.isEmpty then .ok expression else .error .unexpectedToken

end Parser

namespace ExpressionAst

variable {F : Type}

def collectDependencies : ExpressionAst F → BTreeSet NodeId → BTreeSet NodeId
  | number _, found => found
  | node id, found => found.insert id
  | add left right, found | subtract left right, found
  | multiply left right, found | divide left right, found =>
    right.collectDependencies (left.collectDependencies found)
  | negate value, found => value.collectDependencies found

/-- The nodes an expression refers to, in order and once each. -/
def dependencies (ast : ExpressionAst F) : List NodeId :=
  (ast.collectDependencies ∅).toList

variable [Binary64 F]

/-- A value is kept only when it is finite. -/
def finite (value : F) : Except DiagnosticCode F :=
  if Binary64.isFinite value then .ok value else .error .nonFiniteResult

def evaluate (values : NodeId → Option F) : ExpressionAst F → Except DiagnosticCode F
  | number value => finite value
  | node id => match values id with
    | some value => finite value
    | none => .error .dependencyFailed
  | add left right => do
    finite (Binary64.add (← left.evaluate values) (← right.evaluate values))
  | subtract left right => do
    finite (Binary64.sub (← left.evaluate values) (← right.evaluate values))
  | multiply left right => do
    finite (Binary64.mul (← left.evaluate values) (← right.evaluate values))
  | divide left right => do
    -- The divisor is computed and tested before the dividend.
    let divisor ← right.evaluate values
    if Binary64.isZero divisor then .error .divisionByZero
    else finite (Binary64.div (← left.evaluate values) divisor)
  | negate value => do finite (Binary64.neg (← value.evaluate values))

omit [Binary64 F] in
theorem mem_collectDependencies {ast : ExpressionAst F} {found : BTreeSet NodeId} {id : NodeId} :
    id ∈ ast.collectDependencies found ↔ id ∈ ast.collectDependencies ∅ ∨ id ∈ found := by
  induction ast generalizing found with
  | number value => simp [collectDependencies]
  | node other => simp [collectDependencies, Std.ExtTreeSet.mem_insert]
  | negate value ih => exact ih
  | add left right ihLeft ihRight | subtract left right ihLeft ihRight
  | multiply left right ihLeft ihRight | divide left right ihLeft ihRight =>
    simp only [collectDependencies]
    rw [ihRight, ihLeft, @ihRight (left.collectDependencies ∅)]
    tauto

/-- An expression's value depends on the values of its dependencies only. -/
theorem evaluate_congr {ast : ExpressionAst F} {values others : NodeId → Option F}
    (agree : ∀ id ∈ ast.dependencies, values id = others id) :
    ast.evaluate values = ast.evaluate others := by
  replace agree : ∀ id ∈ ast.collectDependencies ∅, values id = others id := fun id member =>
    agree id (Std.ExtTreeSet.mem_toList.mpr member)
  induction ast with
  | number value => rfl
  | node id => rw [evaluate, evaluate, agree id (by simp [collectDependencies])]
  | negate value ih => rw [evaluate, evaluate, ih agree]
  | add left right ihLeft ihRight | subtract left right ihLeft ihRight
  | multiply left right ihLeft ihRight | divide left right ihLeft ihRight =>
    have split : ∀ id, id ∈ left.collectDependencies ∅ ∨ id ∈ right.collectDependencies ∅ →
        values id = others id := fun id member =>
      agree id (by rw [collectDependencies, mem_collectDependencies]; exact member.symm)
    rw [evaluate, evaluate, ihLeft fun id member => split id (Or.inl member),
      ihRight fun id member => split id (Or.inr member)]

end ExpressionAst

end Ketchup.Graph
