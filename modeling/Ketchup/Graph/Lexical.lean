/-
**The tokens of an expression's text.**

`Lexes text tokens` says how a text is made of tokens: blanks, single marks, a reference that takes all
the digits that follow its mark, and a number that takes as much as has the form of one
(`NumeralTail`). The scanner takes exactly that (`scanNumber_longest`, `scanToken_sound`,
`Lexes.scans`), and the tokenizer's rounds never run out (`tokenizeLoop_fuel`).
-/

import Ketchup.Graph.Expression
import Ketchup.Library.Outcome
import Mathlib.Data.List.TakeWhile

set_option linter.unusedSectionVars false

namespace Ketchup.Graph

/-! ### Numerals -/

def isNumeric (mark : Char) : Bool := mark.isDigit || mark == '.'

def isExponent (mark : Char) : Bool := mark == 'e' || mark == 'E'

def isSign (mark : Char) : Bool := mark == '+' || mark == '-'

/-- What may follow the first character of a number: digits and points and, unless one was there, an
exponent mark with a sign or without one. -/
inductive NumeralTail : Bool → List Char → Prop
  | nil {exponent : Bool} : NumeralTail exponent []
  | numeric {exponent : Bool} {mark : Char} {rest : List Char} (is : isNumeric mark = true)
      (tail : NumeralTail exponent rest) : NumeralTail exponent (mark :: rest)
  | exponent {mark : Char} {rest : List Char} (is : isExponent mark = true)
      (tail : NumeralTail true rest) : NumeralTail false (mark :: rest)
  | signed {mark sign : Char} {rest : List Char} (is : isExponent mark = true)
      (signs : isSign sign = true) (tail : NumeralTail true rest) :
      NumeralTail false (mark :: sign :: rest)

theorem isNumeric_not_exponent {mark : Char} (is : isNumeric mark = true) : isExponent mark = false := by
  by_contra both
  rw [Bool.not_eq_false, isExponent, Bool.or_eq_true, beq_iff_eq, beq_iff_eq] at both
  rcases both with rfl | rfl <;> cases is

theorem isSign_not_numeric {mark : Char} (is : isSign mark = true) : isNumeric mark = false := by
  rw [isSign, Bool.or_eq_true, beq_iff_eq, beq_iff_eq] at is
  rcases is with rfl | rfl <;> rfl

theorem numeralTail_numeric {exponent : Bool} {mark : Char} {rest : List Char}
    (is : isNumeric mark = true) (tail : NumeralTail exponent (mark :: rest)) :
    NumeralTail exponent rest := by
  have other := isNumeric_not_exponent is
  cases tail with
  | numeric _ tail => exact tail
  | exponent is' _ => rw [is'] at other; cases other
  | signed is' _ _ => rw [is'] at other; cases other

theorem numeralTail_true {mark : Char} {rest : List Char} (tail : NumeralTail true (mark :: rest)) :
    isNumeric mark = true := by
  cases tail with
  | numeric is _ => exact is

theorem scanNumber_append (exponent : Bool) (whole : List Char) :
    (scanNumber exponent whole).1 ++ (scanNumber exponent whole).2 = whole := by
  fun_induction scanNumber exponent whole with
  | case1 => rfl
  | case2 exponent mark rest is ih => exact congrArg (mark :: ·) ih
  | case3 => rfl
  | case4 exponent mark other is sign after signs ih => exact congrArg (mark :: sign :: ·) ih
  | case5 exponent mark other is sign after signs ih => exact congrArg (mark :: ·) ih
  | case6 => rfl

/-- What the scanner takes goes on with the number. -/
theorem scanNumber_tail (exponent : Bool) (whole : List Char) :
    NumeralTail exponent (scanNumber exponent whole).1 := by
  fun_induction scanNumber exponent whole with
  | case1 => exact .nil
  | case2 exponent mark rest is ih => exact .numeric is ih
  | case3 exponent mark other either =>
    obtain ⟨is, first⟩ := Bool.and_eq_true_iff.mp either
    rw [Bool.not_eq_eq_eq_not.mp first]
    exact .exponent is .nil
  | case4 exponent mark other either sign after signs ih =>
    obtain ⟨is, first⟩ := Bool.and_eq_true_iff.mp either
    rw [Bool.not_eq_eq_eq_not.mp first]
    exact .signed is signs ih
  | case5 exponent mark other either sign after signs ih =>
    obtain ⟨is, first⟩ := Bool.and_eq_true_iff.mp either
    rw [Bool.not_eq_eq_eq_not.mp first]
    exact .exponent is ih
  | case6 => exact .nil

/-- And nothing longer does. -/
theorem scanNumber_longest (exponent : Bool) (whole : List Char) {longer : List Char}
    (tail : NumeralTail exponent longer) (begins : longer <+: whole) :
    longer.length ≤ (scanNumber exponent whole).1.length := by
  fun_induction scanNumber exponent whole generalizing longer with
  | case1 => exact begins.length_le
  | case2 exponent mark rest is ih =>
    cases longer with
    | nil => exact Nat.zero_le _
    | cons head longer =>
      obtain ⟨rfl, later⟩ := List.cons_prefix_cons.mp begins
      exact Nat.succ_le_succ (ih (numeralTail_numeric is tail) later)
  | case3 exponent mark other either => exact begins.length_le
  | case4 exponent mark other either sign after signs ih =>
    cases tail with
    | nil => exact Nat.zero_le _
    | numeric numeric _ =>
      obtain ⟨rfl, _⟩ := List.cons_prefix_cons.mp begins
      exact absurd numeric other
    | @exponent _ rest _ tail =>
      obtain ⟨rfl, later⟩ := List.cons_prefix_cons.mp begins
      cases rest with
      | nil => exact Nat.succ_le_succ (Nat.zero_le _)
      | cons next rest =>
        obtain ⟨rfl, _⟩ := List.cons_prefix_cons.mp later
        exact absurd (numeralTail_true tail) (by rw [isSign_not_numeric signs]; decide)
    | signed _ _ tail =>
      obtain ⟨rfl, later⟩ := List.cons_prefix_cons.mp begins
      obtain ⟨rfl, last⟩ := List.cons_prefix_cons.mp later
      exact Nat.succ_le_succ (Nat.succ_le_succ (ih tail last))
  | case5 exponent mark other either sign after signs ih =>
    cases tail with
    | nil => exact Nat.zero_le _
    | numeric numeric _ =>
      obtain ⟨rfl, _⟩ := List.cons_prefix_cons.mp begins
      exact absurd numeric other
    | exponent _ tail =>
      obtain ⟨rfl, later⟩ := List.cons_prefix_cons.mp begins
      exact Nat.succ_le_succ (ih tail later)
    | signed _ signed _ =>
      obtain ⟨rfl, later⟩ := List.cons_prefix_cons.mp begins
      obtain ⟨rfl, _⟩ := List.cons_prefix_cons.mp later
      exact absurd signed signs
  | case6 exponent mark rest numeric other =>
    cases tail with
    | nil => exact Nat.zero_le _
    | numeric is _ =>
      obtain ⟨rfl, _⟩ := List.cons_prefix_cons.mp begins
      exact absurd is numeric
    | exponent is _ | signed is _ _ =>
      obtain ⟨rfl, _⟩ := List.cons_prefix_cons.mp begins
      exact absurd (Bool.and_eq_true_iff.mpr ⟨is, rfl⟩) other

/-- What the scanner takes is told by its form and its being the longest of it. -/
theorem scanNumber_eq {exponent : Bool} {tail rest : List Char} (is : NumeralTail exponent tail)
    (longest : ∀ longer, NumeralTail exponent longer → longer <+: tail ++ rest →
      longer.length ≤ tail.length) :
    scanNumber exponent (tail ++ rest) = (tail, rest) := by
  have parts := scanNumber_append exponent (tail ++ rest)
  have taken : (scanNumber exponent (tail ++ rest)).1 <+: tail ++ rest := ⟨_, parts⟩
  have less := longest _ (scanNumber_tail exponent (tail ++ rest)) taken
  have more := scanNumber_longest exponent (tail ++ rest) is (List.prefix_append _ _)
  obtain ⟨texts, rests⟩ := List.append_inj parts (Nat.le_antisymm less more)
  exact Prod.ext texts rests

/-! ### Tokens -/

section Tokens

variable {F : Type}

def isBlank (mark : Char) : Bool :=
  mark == ' ' || mark == '\t' || mark == '\r' || mark == '\n'

/-- The tokens of one character. -/
def markToken : Char → Option (Token F)
  | '+' => some .plus
  | '-' => some .minus
  | '*' => some .star
  | '/' => some .slash
  | '(' => some .leftParen
  | ')' => some .rightParen
  | _ => none

variable [Binary64 F]

/-- How a text is made of tokens. -/
inductive Lexes : List Char → List (Token F) → Prop
  | nil : Lexes [] []
  | blank {mark : Char} {rest : List Char} {tokens : List (Token F)} (is : isBlank mark = true)
      (later : Lexes rest tokens) : Lexes (mark :: rest) tokens
  | mark {mark : Char} {token : Token F} {rest : List Char} {tokens : List (Token F)}
      (is : markToken mark = some token) (later : Lexes rest tokens) :
      Lexes (mark :: rest) (token :: tokens)
  /-- A reference takes all the digits there are, and names a node number. -/
  | node {digits rest : List Char} {tokens : List (Token F)} (some_ : digits ≠ [])
      (all : ∀ digit ∈ digits, digit.isDigit = true)
      (ends : ∀ next ∈ rest.head?, next.isDigit = false) (positive : 0 < decimalValue digits)
      (fits : decimalValue digits < 2 ^ 64) (later : Lexes rest tokens) :
      Lexes ('$' :: (digits ++ rest)) (.node (decimalValue digits) :: tokens)
  /-- A number takes as much as has its form, and is read as a finite double. -/
  | number {first : Char} {tail rest : List Char} {value : F} {tokens : List (Token F)}
      (starts : isNumeric first = true) (is : NumeralTail false tail)
      (longest : ∀ longer, NumeralTail false longer → longer <+: tail ++ rest →
        longer.length ≤ tail.length)
      (parsed : Binary64.parse (first :: tail) = some value)
      (finite : Binary64.isFinite value = true) (later : Lexes rest tokens) :
      Lexes (first :: (tail ++ rest)) (.number value :: tokens)

/-- What a scan read begins a text that is made of its token and of what the rest is made of. -/
theorem scanToken_sound {mark : Char} {rest after : List Char} {token : Option (Token F)}
    (ok : scanToken mark rest = .ok (token, after)) {tokens : List (Token F)}
    (later : Lexes after tokens) :
    Lexes (mark :: rest) (token.toList ++ tokens) := by
  unfold scanToken at ok
  split at ok
  case h_1 | h_2 | h_3 | h_4 =>
    cases ok
    exact .blank rfl later
  case h_5 | h_6 | h_7 | h_8 | h_9 | h_10 =>
    cases ok
    exact .mark rfl later
  case h_11 =>
    dsimp only at ok
    split at ok
    · cases ok
    next some_ =>
    split at ok
    · cases ok
    next fits =>
    split at ok
    · cases ok
    next positive =>
    cases ok
    have whole : rest.takeWhile Char.isDigit ++ rest.dropWhile Char.isDigit = rest :=
      List.takeWhile_append_dropWhile
    have node : Lexes ('$' :: (rest.takeWhile Char.isDigit ++ rest.dropWhile Char.isDigit))
        (.node (decimalValue (rest.takeWhile Char.isDigit)) :: tokens) := by
      refine .node (by simpa using some_) (fun digit member => ?_) (fun next is => ?_)
        (Nat.pos_of_ne_zero positive) (Nat.not_le.mp fits) later
      · exact List.mem_takeWhile_imp member
      · have stop := List.head?_dropWhile_not Char.isDigit rest
        rw [is] at stop
        simpa using stop
    rwa [whole] at node
  case h_12 =>
    split at ok
    case isFalse => cases ok
    case isTrue starts =>
      dsimp only at ok
      split at ok
      case h_2 => cases ok
      case h_1 value parsed =>
        split at ok
        case isFalse => cases ok
        case isTrue finite =>
          cases ok
          have whole := scanNumber_append false rest
          have number : Lexes (mark :: ((scanNumber false rest).1 ++ (scanNumber false rest).2))
              (.number value :: tokens) := by
            refine .number starts (scanNumber_tail false rest) (fun longer is begins => ?_) parsed
              finite later
            rw [whole] at begins
            exact scanNumber_longest false rest is begins
          rwa [whole] at number

theorem scanToken_shrinks {mark : Char} {rest after : List Char} {token : Option (Token F)}
    (ok : scanToken mark rest = .ok (token, after)) : after.length ≤ rest.length := by
  unfold scanToken at ok
  split at ok
  case h_11 =>
    dsimp only at ok
    split at ok <;> try cases ok
    split at ok <;> try cases ok
    split at ok <;> cases ok
    exact (List.dropWhile_sublist _).length_le
  case h_12 =>
    split at ok <;> try cases ok
    dsimp only at ok
    split at ok <;> try cases ok
    split at ok <;> cases ok
    have whole := congrArg List.length (scanNumber_append false rest)
    rw [List.length_append] at whole
    omega
  all_goals
    cases ok
    exact Nat.le_refl _

/-! A text that is made of tokens is scanned into them. -/

theorem scanToken_blank {mark : Char} (is : isBlank mark = true) (rest : List Char) :
    (scanToken mark rest : Except GraphError (Option (Token F) × List Char)) = .ok (none, rest) := by
  simp only [isBlank, Bool.or_eq_true, beq_iff_eq] at is
  rcases is with ((rfl | rfl) | rfl) | rfl <;> rfl

theorem scanToken_mark {mark : Char} {token : Token F} (is : markToken mark = some token)
    (rest : List Char) : scanToken mark rest = .ok (some token, rest) := by
  unfold markToken at is
  split at is <;> cases is <;> rfl

theorem scanToken_node {digits rest : List Char} (some_ : digits ≠ [])
    (all : ∀ digit ∈ digits, digit.isDigit = true)
    (ends : ∀ next ∈ rest.head?, next.isDigit = false) (positive : 0 < decimalValue digits)
    (fits : decimalValue digits < 2 ^ 64) :
    (scanToken '$' (digits ++ rest) : Except GraphError (Option (Token F) × List Char)) =
      .ok (some (.node (decimalValue digits)), rest) := by
  have stop : rest.takeWhile Char.isDigit = [] ∧ rest.dropWhile Char.isDigit = rest := by
    cases rest with
    | nil => exact ⟨rfl, rfl⟩
    | cons next rest =>
      have bare := ends next rfl
      exact ⟨by rw [List.takeWhile_cons, bare]; rfl, by rw [List.dropWhile_cons, bare]; rfl⟩
  have taken : (digits ++ rest).takeWhile Char.isDigit = digits := by
    rw [List.takeWhile_append_of_pos all, stop.1, List.append_nil]
  have left : (digits ++ rest).dropWhile Char.isDigit = rest := by
    rw [List.dropWhile_append_of_pos all, stop.2]
  have nonempty : digits.isEmpty = false := by simpa using some_
  show (if ((digits ++ rest).takeWhile Char.isDigit).isEmpty then _ else _) = _
  rw [taken, left, nonempty, if_neg (by decide), if_neg (Nat.not_le.mpr fits),
    if_neg (Nat.ne_of_gt positive)]

theorem scanToken_number {first : Char} {tail rest : List Char} {value : F}
    (starts : isNumeric first = true) (is : NumeralTail false tail)
    (longest : ∀ longer, NumeralTail false longer → longer <+: tail ++ rest →
      longer.length ≤ tail.length)
    (parsed : Binary64.parse (first :: tail) = some value)
    (finite : Binary64.isFinite value = true) :
    scanToken first (tail ++ rest) = .ok (some (.number value), rest) := by
  unfold scanToken
  split <;> try cases starts
  rw [if_pos (by exact starts)]
  simp only [scanNumber_eq is longest, parsed, finite, if_true]

/-! ### The tokenizer -/

/-- **What the tokenizer read the text is made of.** -/
theorem tokenizeLoop_sound {fuel : Nat} {text : List Char} {before tokens : List (Token F)}
    (ok : tokenizeLoop fuel text before = .ok tokens) :
    ∃ read, tokens = before ++ read ∧ Lexes text read ∧
      (before.length ≤ maxExpressionTokens → tokens.length ≤ maxExpressionTokens) := by
  induction fuel generalizing text before with
  | zero =>
    cases text <;> cases ok
    exact ⟨[], (List.append_nil _).symm, .nil, id⟩
  | succ fuel ih =>
    cases text with
    | nil =>
      cases ok
      exact ⟨[], (List.append_nil _).symm, .nil, id⟩
    | cons mark rest =>
      obtain ⟨⟨token, after⟩, scanned, later⟩ := bind_ok ok
      dsimp only at later
      split at later
      case isTrue => cases later
      case isFalse room =>
        obtain ⟨read, rfl, lexes, within⟩ := ih later
        refine ⟨token.toList ++ read, by rw [List.append_assoc], scanToken_sound scanned lexes,
          fun _ => within (Nat.not_lt.mp room)⟩

/-- **What a text is made of the tokenizer reads**, within its limit. -/
theorem tokenizeLoop_complete {text : List Char} {tokens : List (Token F)} (lexes : Lexes text tokens)
    {fuel : Nat} (enough : text.length ≤ fuel) {before : List (Token F)}
    (room : (before ++ tokens).length ≤ maxExpressionTokens) :
    tokenizeLoop fuel text before = .ok (before ++ tokens) := by
  -- A round of the loop, for a text whose first token is scanned.
  have round : ∀ {fuel : Nat} {mark : Char} {rest after : List Char} {token : Option (Token F)}
      {before read : List (Token F)}, scanToken mark rest = .ok (token, after) →
      (before ++ token.toList ++ read).length ≤ maxExpressionTokens →
      tokenizeLoop fuel after (before ++ token.toList) = .ok (before ++ token.toList ++ read) →
      tokenizeLoop (fuel + 1) (mark :: rest) before = .ok (before ++ token.toList ++ read) := by
    intro fuel mark rest after token before read scanned room later
    rw [List.length_append] at room
    rw [tokenizeLoop, scanned]
    show (if maxExpressionTokens < (before ++ token.toList).length then _ else _) = _
    rw [if_neg (by omega), later]
  induction lexes generalizing fuel before with
  | nil => cases fuel <;> simp [tokenizeLoop]
  | @blank mark rest tokens is later ih =>
    obtain ⟨fuel, rfl⟩ : ∃ less, fuel = less + 1 := ⟨fuel - 1, by simp at enough; omega⟩
    have goes := round (scanToken_blank is rest) (by simpa using room)
      (by simpa using ih (by simpa using enough) room)
    simpa using goes
  | @mark mark token rest tokens is later ih =>
    obtain ⟨fuel, rfl⟩ : ∃ less, fuel = less + 1 := ⟨fuel - 1, by simp at enough; omega⟩
    have goes := round (scanToken_mark is rest) (by simpa using room)
      (ih (by simpa using enough) (by simpa using room))
    simpa using goes
  | @node digits rest tokens some_ all ends positive fits later ih =>
    obtain ⟨fuel, rfl⟩ : ∃ less, fuel = less + 1 := ⟨fuel - 1, by simp at enough; omega⟩
    have short : rest.length ≤ fuel := by simp at enough; omega
    have goes := round (scanToken_node some_ all ends positive fits) (by simpa using room)
      (ih short (by simpa using room))
    simpa using goes
  | @number first tail rest value tokens starts is longest parsed finite later ih =>
    obtain ⟨fuel, rfl⟩ : ∃ less, fuel = less + 1 := ⟨fuel - 1, by simp at enough; omega⟩
    have short : rest.length ≤ fuel := by simp at enough; omega
    have goes := round (scanToken_number starts is longest parsed finite) (by simpa using room)
      (ih short (by simpa using room))
    simpa using goes

/-- **The tokenizer reads exactly what a text is made of**, within its limit. -/
theorem tokenize_iff {text : List Char} {tokens : List (Token F)} :
    tokenize text = .ok tokens ↔ Lexes text tokens ∧ tokens.length ≤ maxExpressionTokens := by
  constructor
  · intro ok
    obtain ⟨read, rfl, lexes, within⟩ := tokenizeLoop_sound ok
    exact ⟨by simpa using lexes, within (Nat.zero_le _)⟩
  · rintro ⟨lexes, within⟩
    exact tokenizeLoop_complete lexes (Nat.le_refl _) (by simpa using within)

/-- Every round reads a character, so the tokenizer's rounds never run out. -/
theorem tokenizeLoop_fuel {fuel : Nat} {text : List Char} {before : List (Token F)}
    (enough : text.length ≤ fuel) :
    tokenizeLoop fuel text before = tokenizeLoop text.length text before := by
  induction fuel using Nat.strongRecOn generalizing text before with
  | _ fuel ih =>
    cases text with
    | nil => cases fuel <;> rfl
    | cons mark rest =>
      obtain ⟨fuel, rfl⟩ : ∃ less, fuel = less + 1 :=
        ⟨fuel - 1, by rw [List.length_cons] at enough; omega⟩
      rw [List.length_cons, tokenizeLoop, tokenizeLoop]
      cases scanned : (scanToken mark rest : Except GraphError (Option (Token F) × List Char)) with
      | error reason => rfl
      | ok parts =>
        obtain ⟨token, after⟩ := parts
        have less := scanToken_shrinks scanned
        rw [List.length_cons] at enough
        show (if _ then _ else tokenizeLoop fuel after _) = if _ then _ else tokenizeLoop _ after _
        rw [ih fuel (Nat.lt_succ_self _) (by omega)]
        rcases Nat.lt_or_ge rest.length (fuel + 1) with smaller | larger
        · rw [ih rest.length smaller less]
        · omega

end Tokens

end Ketchup.Graph
