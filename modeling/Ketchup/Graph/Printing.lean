/-
**Expressions are read exactly as their grammar says, and read back from what is printed.**

`InGrammar source tree` says that a text within the limits is made of tokens from which the grammar
derives the tree. The parser answers a tree exactly then (`parse_iff`), a text has one tree at most,
and no loop of the parser runs out (`parse_is_grammar`).

A tree is printed with parentheses where its level needs them (`ExpressionAst.print`). What is printed
the grammar derives (`print_derives`) and is made of the tokens printed (`text_lexes`), where numbers
have a literal: those that were parsed do (`InGrammar.literals`), and a negative number has none.
-/

import Ketchup.Graph.Grammar
import Ketchup.Graph.Lexical

set_option linter.unusedSectionVars false

namespace Ketchup.Graph

variable {F : Type}

/-! ### Leaves -/

/-- The tokens of a tree's leaves have a property. -/
def ExpressionAst.Leaves (holds : Token F → Prop) : ExpressionAst F → Prop
  | number value => holds (.number value)
  | node id => holds (.node id)
  | add left right | subtract left right | multiply left right | divide left right =>
    left.Leaves holds ∧ right.Leaves holds
  | negate value => value.Leaves holds

/-- The leaves of a tree are tokens of its text. -/
theorem Derives.leaves {levels : Nat} {level : Level} {tokens : List (Token F)}
    {tree : ExpressionAst F} (derives : Derives levels level tokens tree) {holds : Token F → Prop}
    (all : ∀ token ∈ tokens, holds token) : tree.Leaves holds := by
  induction derives with
  | number value => exact all _ List.mem_cons_self
  | node id => exact all _ List.mem_cons_self
  | parentheses _ ih =>
    exact ih fun token member => all token (List.mem_cons_of_mem _ (List.mem_append_left _ member))
  | primary _ ih | unary _ ih | product _ ih => exact ih all
  | negate _ ih => exact ih fun token member => all token (List.mem_cons_of_mem _ member)
  | multiply _ _ one two | divide _ _ one two | add _ _ one two | subtract _ _ one two =>
    exact ⟨one fun token member => all token (List.mem_append_left _ member),
      two fun token member => all token (List.mem_append_right _ (List.mem_cons_of_mem _ member))⟩

theorem Derives.ne_nil {levels : Nat} {level : Level} {tokens : List (Token F)}
    {tree : ExpressionAst F} (derives : Derives levels level tokens tree) : tokens ≠ [] := by
  induction derives with
  | number | node | parentheses | negate => exact List.cons_ne_nil _ _
  | primary _ ih | unary _ ih | product _ ih => exact ih
  | multiply _ _ one _ | divide _ _ one _ | add _ _ one _ | subtract _ _ one _ =>
    exact fun none_ => one (List.append_eq_nil_iff.mp none_).1

/-! ### Printing -/

/-- How far a level of the grammar is above the primary one. -/
def Level.height : Level → Nat
  | .primary => 0
  | .unary => 1
  | .product => 2
  | .sum => 3

/-- A term of one level as a term of another: with parentheses, unless it is one anyway. -/
def asTerm (own level : Level) (tokens : List (Token F)) : List (Token F) :=
  if own.height ≤ level.height then tokens else .leftParen :: (tokens ++ [.rightParen])

/-- A tree as a term of a level, with parentheses where they are needed. -/
def ExpressionAst.print : ExpressionAst F → Level → List (Token F)
  | number value, _ => [.number value]
  | node id, _ => [.node id]
  | add left right, level => asTerm .sum level (left.print .sum ++ .plus :: right.print .product)
  | subtract left right, level =>
    asTerm .sum level (left.print .sum ++ .minus :: right.print .product)
  | multiply left right, level =>
    asTerm .product level (left.print .product ++ .star :: right.print .unary)
  | divide left right, level =>
    asTerm .product level (left.print .product ++ .slash :: right.print .unary)
  | negate value, level => asTerm .unary level (.minus :: value.print .unary)

/-- The levels of a term, given those of what it is at its own level. -/
def levelsAt (own level : Level) (levels : Nat) : Nat :=
  if own.height ≤ level.height then levels + (level.height - own.height)
  else levels + (Level.sum.height - own.height) + 1 + level.height

/-- The levels a tree nests as a term of a level. -/
def ExpressionAst.levels : ExpressionAst F → Level → Nat
  | number _, level | node _, level => levelsAt .primary level 1
  | add left right, level | subtract left right, level =>
    levelsAt .sum level (max (left.levels .sum) (right.levels .product + 1))
  | multiply left right, level | divide left right, level =>
    levelsAt .product level (max (left.levels .product) (right.levels .unary + 1))
  | negate value, level => levelsAt .unary level (value.levels .unary + 1)

/-- A term of one level is one of every level above. -/
theorem Derives.climb {levels : Nat} {own level : Level} {tokens : List (Token F)}
    {tree : ExpressionAst F} (derives : Derives levels own tokens tree)
    (le : own.height ≤ level.height) :
    Derives (levels + (level.height - own.height)) level tokens tree := by
  cases own <;> cases level <;> first
    | exact absurd le (by decide)
    | exact derives
    | exact .primary derives
    | exact .unary derives
    | exact .product derives
    | exact .unary (.primary derives)
    | exact .product (.unary derives)
    | exact .product (.unary (.primary derives))

/-- In parentheses it is one of every level. -/
theorem Derives.asTerm {levels : Nat} {own : Level} {tokens : List (Token F)} {tree : ExpressionAst F}
    (derives : Derives levels own tokens tree) (level : Level) :
    Derives (levelsAt own level levels) level (Graph.asTerm own level tokens) tree := by
  unfold levelsAt Graph.asTerm
  by_cases fits : own.height ≤ level.height
  · rw [if_pos fits, if_pos fits]
    exact derives.climb fits
  · rw [if_neg fits, if_neg fits]
    have whole : Derives (levels + (Level.sum.height - own.height)) .sum tokens tree :=
      derives.climb (by cases own <;> decide)
    exact (Derives.parentheses whole).climb (Nat.zero_le _)

/-- A term and what an operator of its level takes, within the levels of both. -/
theorem levels_join {first second : Nat} (least : 1 ≤ first) :
    ∃ levels, max first (second + 1) = levels + 1 ∧ first ≤ levels + 1 ∧ second ≤ levels :=
  ⟨max first (second + 1) - 1, by omega, by omega, by omega⟩

theorem Derives.levels_pos {levels : Nat} {level : Level} {tokens : List (Token F)}
    {tree : ExpressionAst F} (derives : Derives levels level tokens tree) : 1 ≤ levels := by
  cases derives <;> exact Nat.succ_pos _

/-- **What is printed the grammar derives**, within the levels the tree nests. -/
theorem print_derives (tree : ExpressionAst F) (level : Level) :
    Derives (tree.levels level) level (tree.print level) tree := by
  induction tree generalizing level with
  | number value =>
    have leaf : Derives 1 .primary [.number value] (.number value) := .number value
    exact leaf.asTerm level
  | node id =>
    have leaf : Derives 1 .primary [.node id] (.node id : ExpressionAst F) := .node id
    exact leaf.asTerm level
  | add left right one two =>
    obtain ⟨levels, joined, first, second⟩ := levels_join (one .sum).levels_pos
    refine Derives.asTerm ?_ level
    rw [joined]
    exact .add ((one .sum).mono first) ((two .product).mono second)
  | subtract left right one two =>
    obtain ⟨levels, joined, first, second⟩ := levels_join (one .sum).levels_pos
    refine Derives.asTerm ?_ level
    rw [joined]
    exact .subtract ((one .sum).mono first) ((two .product).mono second)
  | multiply left right one two =>
    obtain ⟨levels, joined, first, second⟩ := levels_join (one .product).levels_pos
    refine Derives.asTerm ?_ level
    rw [joined]
    exact .multiply ((one .product).mono first) ((two .unary).mono second)
  | divide left right one two =>
    obtain ⟨levels, joined, first, second⟩ := levels_join (one .product).levels_pos
    refine Derives.asTerm ?_ level
    rw [joined]
    exact .divide ((one .product).mono first) ((two .unary).mono second)
  | negate value ih => exact Derives.asTerm (.negate (ih .unary)) level

/-! ### Texts of tokens -/

section Texts

variable [Binary64 F]

/-- A text that is read as a number. -/
structure IsLiteral (text : List Char) (value : F) : Prop where
  form : ∃ first tail, text = first :: tail ∧ isNumeric first = true ∧ NumeralTail false tail
  parsed : Binary64.parse text = some value
  finite : Binary64.isFinite value = true

/-- The text of a token, given the texts of numbers. -/
def Token.text (literal : F → List Char) : Token F → List Char
  | number value => literal value
  | node id => '$' :: Nat.toDigits 10 id
  | plus => ['+']
  | minus => ['-']
  | star => ['*']
  | slash => ['/']
  | leftParen => ['(']
  | rightParen => [')']

/-- A token whose text is read as the token. -/
def Token.Spelled (literal : F → List Char) : Token F → Prop
  | number value => IsLiteral (literal value) value
  | node id => 0 < id ∧ id < 2 ^ 64
  | plus | minus | star | slash | leftParen | rightParen => True

/-- The tokens of what is printed are spelled, when the leaves are. -/
theorem print_spelled {literal : F → List Char} {tree : ExpressionAst F}
    (leaves : tree.Leaves (Token.Spelled literal)) (level : Level) :
    ∀ token ∈ tree.print level, token.Spelled literal := by
  have term : ∀ {own level : Level} {tokens : List (Token F)},
      (∀ token ∈ tokens, token.Spelled literal) →
        ∀ token ∈ asTerm own level tokens, token.Spelled literal := by
    intro own level tokens all token member
    unfold asTerm at member
    split at member
    · exact all token member
    · simp only [List.mem_cons, List.mem_append, List.not_mem_nil, or_false] at member
      rcases member with rfl | member | rfl
      · trivial
      · exact all token member
      · trivial
  have joined : ∀ {first second : List (Token F)} {operator : Token F},
      (∀ token ∈ first, token.Spelled literal) → operator.Spelled literal →
        (∀ token ∈ second, token.Spelled literal) →
          ∀ token ∈ first ++ operator :: second, token.Spelled literal := by
    intro first second operator one here two token member
    rcases List.mem_append.mp member with member | member
    · exact one token member
    · rcases List.mem_cons.mp member with rfl | member
      · exact here
      · exact two token member
  induction tree generalizing level with
  | number value => exact fun token member => List.mem_singleton.mp member ▸ leaves
  | node id => exact fun token member => List.mem_singleton.mp member ▸ leaves
  | add left right one two | subtract left right one two | multiply left right one two
  | divide left right one two =>
    exact term (joined (one leaves.1 _) trivial (two leaves.2 _))
  | negate value ih =>
    refine term fun token member => ?_
    rcases List.mem_cons.mp member with rfl | member
    · trivial
    · exact ih leaves _ token member

/-- A number's text holds no blank. -/
theorem NumeralTail.no_blank {exponent : Bool} {text : List Char} (tail : NumeralTail exponent text) :
    ' ' ∉ text := by
  have other : ∀ {mark : Char} {holds : Char → Bool}, holds mark = true → holds ' ' = false →
      ' ' ≠ mark := by
    rintro mark holds is not_ rfl
    rw [is] at not_
    cases not_
  induction tail with
  | nil => exact List.not_mem_nil
  | numeric is _ ih => exact List.not_mem_cons_of_ne_of_not_mem (other is rfl) ih
  | exponent is _ ih => exact List.not_mem_cons_of_ne_of_not_mem (other is rfl) ih
  | signed is signs _ ih =>
    exact List.not_mem_cons_of_ne_of_not_mem (other is rfl)
      (List.not_mem_cons_of_ne_of_not_mem (other signs rfl) ih)

/-- What begins a text up to a blank and holds none is no longer than what is before the blank. -/
theorem prefix_before_blank {text rest longer : List Char} (begins : longer <+: text ++ ' ' :: rest)
    (bare : ' ' ∉ longer) : longer.length ≤ text.length := by
  by_contra more
  rw [Nat.not_le] at more
  obtain ⟨others, whole⟩ := begins
  have here : (longer ++ others)[text.length]? = some ' ' := by rw [whole]; simp
  rw [List.getElem?_append_left more] at here
  exact bare (List.mem_of_getElem? here)

/-- A token's text and a blank are the token. -/
theorem lexes_token {literal : F → List Char} {token : Token F} (spelled : token.Spelled literal)
    {rest : List Char} {tokens : List (Token F)} (later : Lexes rest tokens) :
    Lexes (token.text literal ++ ' ' :: rest) (token :: tokens) := by
  have after : Lexes (' ' :: rest) tokens := .blank rfl later
  cases token with
  | plus | minus | star | slash | leftParen | rightParen => exact .mark rfl after
  | node id =>
    have value : decimalValue (Nat.toDigits 10 id) = id := Nat.ofDigitChars_ten_toDigits
    have node : Lexes ('$' :: (Nat.toDigits 10 id ++ ' ' :: rest))
        (.node (decimalValue (Nat.toDigits 10 id)) :: tokens) := by
      refine .node Nat.toDigits_ne_nil (fun digit member => ?_) (fun next is => ?_) ?_ ?_ after
      · exact Nat.isDigit_of_mem_toDigits (by decide) (by decide) member
      · cases is
        rfl
      · rw [value]
        exact spelled.1
      · rw [value]
        exact spelled.2
    rwa [value] at node
  | number value =>
    obtain ⟨⟨first, tail, text, starts, is⟩, parsed, finite⟩ := spelled
    show Lexes (literal value ++ ' ' :: rest) _
    rw [text] at parsed ⊢
    exact .number starts is (fun longer other begins => prefix_before_blank begins other.no_blank)
      parsed finite after

/-- The texts of tokens, a blank after each. -/
def tokensText (literal : F → List Char) (tokens : List (Token F)) : List Char :=
  tokens.flatMap fun token => token.text literal ++ [' ']

theorem tokensText_lexes {literal : F → List Char} {tokens : List (Token F)}
    (spelled : ∀ token ∈ tokens, token.Spelled literal) : Lexes (tokensText literal tokens) tokens := by
  induction tokens with
  | nil => exact .nil
  | cons token rest ih =>
    have here := lexes_token (spelled token List.mem_cons_self)
      (ih fun other member => spelled other (List.mem_cons_of_mem _ member))
    rw [tokensText, List.flatMap_cons, List.append_assoc]
    exact here

/-- A tree as a text. -/
def ExpressionAst.text (literal : F → List Char) (tree : ExpressionAst F) : String :=
  String.ofList (tokensText literal (tree.print .sum))

/-! ### The parser and the grammar -/

/-- The grammar derives a tree from a text within the limits. -/
def InGrammar (source : String) (tree : ExpressionAst F) : Prop :=
  source.utf8ByteSize ≤ maxExpressionBytes ∧ ∃ tokens, Lexes source.toList tokens ∧
    tokens.length ≤ maxExpressionTokens ∧ Derives (maxExpressionDepth + 1) .sum tokens tree

/-- **The parser answers a tree exactly when the grammar derives it.** -/
theorem parse_iff {source : String} {tree : ExpressionAst F} :
    ExpressionAst.parse source = .ok tree ↔ InGrammar source tree := by
  constructor
  · intro ok
    unfold ExpressionAst.parse at ok
    split at ok
    case isTrue => cases ok
    case isFalse sizes =>
      rw [Bool.or_eq_true, not_or] at sizes
      obtain ⟨tokens, read, ok⟩ := bind_ok ok
      split at ok
      case isTrue => cases ok
      case isFalse =>
        obtain ⟨⟨expression, after⟩, parsed, ok⟩ := bind_ok ok
        dsimp only at ok
        split at ok <;> cases ok
        next whole =>
          obtain ⟨lexes, within⟩ := tokenize_iff.mp read
          obtain rfl := List.isEmpty_iff.mp whole
          exact ⟨by simpa using sizes.2, tokens, lexes, within, parseLevel_iff.mp parsed⟩
  · rintro ⟨size, tokens, lexes, within, derives⟩
    have nonempty : source.isEmpty = false := by
      by_contra empty
      rw [Bool.not_eq_false, String.isEmpty_iff] at empty
      rw [empty] at lexes
      cases lexes
      exact derives.ne_nil rfl
    have some_ : tokens.isEmpty = false := by simpa using derives.ne_nil
    rw [ExpressionAst.parse, nonempty, if_neg (by simpa using size), tokenize_iff.mpr ⟨lexes, within⟩]
    show (if _ then _ else _) = _
    rw [some_, if_neg (by simpa using within), parseLevel_iff.mpr derives]
    rfl

/-- A token that some text is read as. -/
def Token.HasText : Token F → Prop
  | number value => ∃ text, IsLiteral text value
  | node id => 0 < id ∧ id < 2 ^ 64
  | plus | minus | star | slash | leftParen | rightParen => True

theorem Lexes.hasText {text : List Char} {tokens : List (Token F)} (lexes : Lexes text tokens) :
    ∀ token ∈ tokens, token.HasText := by
  induction lexes with
  | nil => exact nofun
  | blank _ _ ih => exact ih
  | mark is _ ih =>
    refine List.forall_mem_cons.mpr ⟨?_, ih⟩
    unfold markToken at is
    split at is <;> cases is <;> trivial
  | node _ _ _ positive fits _ ih => exact List.forall_mem_cons.mpr ⟨⟨positive, fits⟩, ih⟩
  | number starts is _ parsed finite _ ih =>
    exact List.forall_mem_cons.mpr ⟨⟨_, ⟨_, _, rfl, starts, is⟩, parsed, finite⟩, ih⟩

/-- The leaves of a tree that is parsed have texts. -/
theorem InGrammar.hasText {source : String} {tree : ExpressionAst F} (is : InGrammar source tree) :
    tree.Leaves Token.HasText := by
  obtain ⟨_, tokens, lexes, _, derives⟩ := is
  exact derives.leaves lexes.hasText

/-- **Expressions are read as their grammar says.** The parser answers a tree exactly when the grammar
derives it from the text within the limits; a text of tokens has one tree at most, whatever its
derivations nest; a tree whose leaves have texts is read back from what is printed, within the limits;
and neither the tokenizer's loop nor the operators' ever runs out of rounds. -/
theorem parse_is_grammar :
    (∀ (source : String) (tree : ExpressionAst F),
      ExpressionAst.parse source = .ok tree ↔ InGrammar source tree) ∧
    (∀ (source : String) (tree other : ExpressionAst F),
      InGrammar source tree → InGrammar source other → tree = other) ∧
    (∀ (levels levels' : Nat) (tokens : List (Token F)) (tree other : ExpressionAst F),
      Derives levels .sum tokens tree → Derives levels' .sum tokens other → tree = other) ∧
    (∀ (literal : F → List Char) (tree : ExpressionAst F), tree.Leaves (Token.Spelled literal) →
      (tree.text literal).utf8ByteSize ≤ maxExpressionBytes →
      (tree.print .sum).length ≤ maxExpressionTokens →
      tree.levels .sum ≤ maxExpressionDepth + 1 →
        ExpressionAst.parse (tree.text literal) = .ok tree) ∧
    (∀ (fuel : Nat) (text : List Char), text.length ≤ fuel →
      tokenizeLoop fuel text [] = (tokenize text : Except GraphError (List (Token F)))) ∧
    ∀ (fuel levels : Nat) (left : ExpressionAst F) (tokens : List (Token F)), tokens.length ≤ fuel →
      operatorLoop sumOperator (parseLevel levels .product) fuel left tokens =
          operatorLoop sumOperator (parseLevel levels .product) tokens.length left tokens ∧
        operatorLoop productOperator (parseLevel levels .unary) fuel left tokens =
          operatorLoop productOperator (parseLevel levels .unary) tokens.length left tokens := by
  refine ⟨fun source tree => parse_iff, fun source tree other one two => ?_,
    fun levels levels' tokens tree other one two => one.unique two, ?_,
    fun fuel text enough => tokenizeLoop_fuel enough, fun fuel levels left tokens enough => ?_⟩
  · exact Except.ok.inj ((parse_iff.mpr one).symm.trans (parse_iff.mpr two))
  · intro literal tree leaves bytes tokens levels
    refine parse_iff.mpr ⟨bytes, tree.print .sum, ?_, tokens, (print_derives tree .sum).mono levels⟩
    rw [ExpressionAst.text, String.toList_ofList]
    exact tokensText_lexes (print_spelled leaves .sum)
  · exact ⟨operatorLoop_fuel parseLevel_shrinks enough, operatorLoop_fuel parseLevel_shrinks enough⟩

end Texts

/-- A difference whose right side is one, times a negated reference. -/
def spacing : ExpressionAst Int :=
  .multiply (.subtract (.number 4) (.subtract (.number 3) (.number 2))) (.negate (.node 1))

/-- It is read back from `( 4 - ( 3 - 2 ) ) * - $1`. -/
theorem spacing_read_back :
    ExpressionAst.parse (spacing.text fun value => (toString value).toList) = .ok spacing := by
  have digit : ∀ value ∈ [2, 3, 4], IsLiteral (toString (value : Int)).toList value := by
    intro value member
    simp only [List.mem_cons, List.not_mem_nil, or_false] at member
    rcases member with rfl | rfl | rfl <;>
      exact ⟨⟨_, [], rfl, rfl, .nil⟩, by decide, rfl⟩
  refine parse_is_grammar.2.2.2.1 _ spacing ?_ (by decide) (by decide) (by decide)
  exact ⟨⟨digit 4 (by decide), digit 3 (by decide), digit 2 (by decide)⟩, by decide, by decide⟩

/-- No text is read as a negative number, so such a tree is not read back from any. -/
theorem negative_not_printed :
    ∃ tree : ExpressionAst Int, ∀ source : String, ExpressionAst.parse source ≠ .ok tree := by
  refine ⟨.number (-1), fun source ok => ?_⟩
  obtain ⟨text, _, parsed, _⟩ := (parse_iff.mp ok).hasText
  change (if _ then some ((decimalValue text : Nat) : Int) else none) = some (-1) at parsed
  split at parsed
  · have negative := Option.some.inj parsed
    omega
  · cases parsed

end Ketchup.Graph
