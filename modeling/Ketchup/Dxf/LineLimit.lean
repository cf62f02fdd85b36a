/-
**The line limit of a drawing written.**

`withinLineLimit` walks the code and value lines of a drawing. A value longer than a line holds is cut
into pieces (`mtextPieces`) when it is the text of an MTEXT; any other is refused, naming its entity.

* `mtextPieces_flatten`, `mtextPieces_short` — the pieces are the text, none over 250 bytes.
* `mtextPieces_between` — in UTF-8 every cut is between two characters.
* `mtextPieces_keeps_escapes` — and inside no `\U+XXXX`.
-/

import Ketchup.Library.Utf8

namespace Ketchup.Dxf

/-- A code page: what bytes are read as, and what a character is written as. -/
structure CodePage where
  decode : Bytes → Option (List Char)
  encode : Char → Option Bytes

/-- Why a drawing is not written. -/
inductive DxfEditRefusal where
  | malformed
  | textTooLong (kind : Bytes) (handle : Nat) (code : Int) (characters : Nat)
  deriving DecidableEq

def maxDxfLineChars : Nat := 2049

def mtextPieceChars : Nat := 250

def lineFeed : UInt8 := 10

def carriageReturn : UInt8 := 13

def backslash : UInt8 := 92

/-- The name of an MTEXT's group 0. -/
def mtext : Bytes := [77, 84, 69, 88, 84]

/-! ### Lines -/

/-- `split_inclusive` at line feeds. -/
def splitInclusive : Bytes → List Bytes
  | [] => []
  | byte :: rest =>
    if byte = lineFeed then [byte] :: splitInclusive rest
    else
      match splitInclusive rest with
      | [] => [[byte]]
      | line :: lines => (byte :: line) :: lines

/-- `strip_suffix` of one byte. -/
def stripSuffix (mark : UInt8) (line : Bytes) : Bytes :=
  if line.getLast? = some mark then line.dropLast else line

/-- The length of a line without its end. -/
def valueLength (line : Bytes) : Nat := (stripSuffix carriageReturn (stripSuffix lineFeed line)).length

def valueOf (line : Bytes) : Bytes := line.take (valueLength line)

/-- The characters a text is read as: in the code page, or else in UTF-8; its bytes where it is neither. -/
def characters (page : Option CodePage) (text : Bytes) : Nat :=
  match page with
  | some page => (page.decode text).elim text.length List.length
  | none => (decodeUtf8 text).elim text.length List.length

def tooLong (page : Option CodePage) (text : Bytes) : Bool :=
  maxDxfLineChars < text.length && maxDxfLineChars < characters page text

/-! ### Group codes and handles -/

/-- `str::parse` of an `i32`. -/
def parseI32 : List Char → Option Int
  | '+' :: digits => (parseIndex (String.ofList digits)).bind fun value =>
      if value < 2 ^ 31 then some value else none
  | '-' :: digits => (parseIndex (String.ofList digits)).bind fun value =>
      if value ≤ 2 ^ 31 then some (-value) else none
  | digits => (parseIndex (String.ofList digits)).bind fun value =>
      if value < 2 ^ 31 then some value else none

/-- `char::to_digit` in base 16. -/
def hexValue (mark : Char) : Option Nat :=
  if mark.isDigit then some (mark.toNat - 48)
  else if 'a' ≤ mark ∧ mark ≤ 'f' then some (mark.toNat - 87)
  else if 'A' ≤ mark ∧ mark ≤ 'F' then some (mark.toNat - 55)
  else none

/-- The digits of a number in base 16, an empty list being none. -/
def hexDigitsValue (digits : List Char) : Option Nat :=
  if digits = [] then none
  else digits.foldlM (fun value mark => (hexValue mark).map (16 * value + ·)) 0

/-- `u64::from_str_radix` in base 16. -/
def fromStrRadix16 (hex : List Char) : Option Nat :=
  let digits := match hex with
    | '+' :: digits => digits
    | digits => digits
  (hexDigitsValue digits).bind fun value => if value ≤ u64Max then some value else none

/-- `trim` of characters. -/
def trimmed (marks : List Char) : List Char :=
  ((marks.dropWhile isWhitespace).reverse.dropWhile isWhitespace).reverse

def byteOrderMark : Char := Char.ofNat 0xFEFF

/-- The group code a line holds. -/
def codeOf (line : Bytes) : Option Int :=
  (decodeUtf8 line).bind fun code => parseI32 ((trimmed code).dropWhile (· == byteOrderMark))

/-- The entity the walk is in: its kind and its handle. -/
structure Entity where
  kind : Bytes
  handle : Nat
  deriving DecidableEq

/-- The entity after a group: group 0 begins one, group 5 is its handle. -/
def Entity.reading (entity : Entity) (code : Option Int) (text : Bytes) : Entity :=
  match code with
  | some 0 => ⟨text, 0⟩
  | some 5 => { entity with handle := ((decodeUtf8 text).bind fun hex => fromStrRadix16 (trimmed hex)).getD 0 }
  | _ => entity

/-! ### Pieces -/

/-- `rposition`. -/
def rposition (mark : UInt8) (bytes : Bytes) : Option Nat :=
  (bytes.reverse.findIdx? (· == mark)).map (bytes.length - 1 - ·)

/-- The cut moved back over bytes that continue a character, at most so many. -/
def backOff (text : Bytes) : Nat → Nat → Nat
  | 0, cut => cut
  | steps + 1, cut => if IsContinuation (text.getD cut 0) then backOff text steps (cut - 1) else cut

/-- Where the cut goes before it is moved back: before the last backslash of the window, or at its end. -/
def windowCut (text : Bytes) : Nat :=
  (rposition backslash ((text.drop (mtextPieceChars - 7)).take 7)).elim mtextPieceChars (mtextPieceChars - 7 + ·)

/-- Where a text too long for one piece is cut. -/
def cutOf (text : Bytes) : Nat := backOff text 3 (windowCut text)

/-! Where the last backslash of the window is -/

theorem rposition_eq_some {mark : UInt8} {bytes : Bytes} {place : Nat} (found : rposition mark bytes = some place) :
    bytes[place]? = some mark ∧ ∀ later, place < later → bytes[later]? ≠ some mark := by
  unfold rposition at found
  obtain ⟨index, first, rfl⟩ := Option.map_eq_some_iff.mp found
  obtain ⟨less, is, before⟩ := List.findIdx?_eq_some_iff_getElem.mp first
  rw [List.length_reverse] at less
  rw [List.getElem_reverse, beq_iff_eq] at is
  constructor
  · rw [List.getElem?_eq_getElem (by omega), is]
  · intro later after there
    obtain ⟨bound, is⟩ := List.getElem?_eq_some_iff.mp there
    have earlier := before (bytes.length - 1 - later) (by omega)
    rw [List.getElem_reverse] at earlier
    have same : bytes.length - 1 - (bytes.length - 1 - later) = later := by omega
    simp only [same, is, beq_self_eq_true, not_true_eq_false] at earlier

theorem rposition_eq_none {mark : UInt8} {bytes : Bytes} (found : rposition mark bytes = none) (index : Nat) :
    bytes[index]? ≠ some mark := by
  unfold rposition at found
  rw [Option.map_eq_none_iff, List.findIdx?_eq_none_iff] at found
  intro there
  have := found mark (List.mem_reverse.mpr (List.mem_of_getElem? there))
  simp at this

/-- **The cut of the window**: before its last backslash, or at its end where it has none. -/
theorem windowCut_spec (text : Bytes) :
    (243 ≤ windowCut text ∧ windowCut text < 250 ∧ text[windowCut text]? = some backslash ∧
      ∀ index, windowCut text < index → index < 250 → text[index]? ≠ some backslash) ∨
    (windowCut text = 250 ∧ ∀ index, 243 ≤ index → index < 250 → text[index]? ≠ some backslash) := by
  have inWindow : ∀ offset < 7, ((text.drop 243).take 7)[offset]? = text[243 + offset]? := by
    intro offset less
    rw [List.getElem?_take_of_lt less, List.getElem?_drop]
  unfold windowCut mtextPieceChars
  cases found : rposition backslash ((text.drop (250 - 7)).take 7) with
  | none =>
    refine Or.inr ⟨rfl, fun index low high there => ?_⟩
    refine rposition_eq_none found (index - 243) ?_
    rw [inWindow _ (by omega), Nat.add_sub_cancel' low]
    exact there
  | some offset =>
    obtain ⟨is, after⟩ := rposition_eq_some found
    have less : offset < 7 := by
      obtain ⟨bound, -⟩ := List.getElem?_eq_some_iff.mp is
      rw [List.length_take] at bound
      omega
    rw [inWindow _ less] at is
    refine Or.inl ⟨by simp, by simp; omega, is, fun index later high there => ?_⟩
    have later : 243 + offset < index := later
    refine after (index - 243) (by omega) ?_
    rw [inWindow _ (by omega), Nat.add_sub_cancel' (by omega)]
    exact there

/-- What the moving back passes. -/
theorem backOff_spec (text : Bytes) (steps cut : Nat) (room : steps ≤ cut) :
    backOff text steps cut ≤ cut ∧ cut ≤ backOff text steps cut + steps ∧
      (∀ index, backOff text steps cut < index → index ≤ cut → IsContinuation (text.getD index 0)) ∧
      (IsContinuation (text.getD (backOff text steps cut) 0) → backOff text steps cut + steps = cut) := by
  induction steps generalizing cut with
  | zero => exact ⟨Nat.le_refl _, Nat.le_refl _, fun index more less => absurd more (by simp only [backOff]; omega), fun _ => rfl⟩
  | succ steps ih =>
    unfold backOff
    by_cases continues : IsContinuation (text.getD cut 0)
    · rw [if_pos continues]
      obtain ⟨most, least, passed, stopped⟩ := ih (cut - 1) (by omega)
      refine ⟨by omega, by omega, fun index more less => ?_, fun still => ?_⟩
      · rcases Nat.eq_or_lt_of_le less with rfl | less
        · exact continues
        · exact passed index more (by omega)
      · have := stopped still
        omega
    · rw [if_neg continues]
      exact ⟨Nat.le_refl _, by omega, fun index more less => absurd more (by omega), fun still => absurd still continues⟩

theorem windowCut_bounds (text : Bytes) : 243 ≤ windowCut text ∧ windowCut text ≤ 250 := by
  rcases windowCut_spec text with ⟨low, high, -⟩ | ⟨is, -⟩
  · exact ⟨low, by omega⟩
  · omega

theorem cutOf_bounds (text : Bytes) : 240 ≤ cutOf text ∧ cutOf text ≤ 250 := by
  obtain ⟨low, high⟩ := windowCut_bounds text
  obtain ⟨most, least, -⟩ := backOff_spec text 3 (windowCut text) (by omega)
  unfold cutOf
  omega

/-- A text in pieces, each cut before a backslash that starts an escape across the cut and never inside a
character. -/
def mtextPieces (text : Bytes) : List Bytes :=
  if mtextPieceChars < text.length then text.take (cutOf text) :: mtextPieces (text.drop (cutOf text)) else [text]
termination_by text.length
decreasing_by
  have := cutOf_bounds text
  unfold mtextPieceChars at *
  rw [List.length_drop]
  omega

theorem mtextPieces_long {text : Bytes} (long : mtextPieceChars < text.length) :
    mtextPieces text = text.take (cutOf text) :: mtextPieces (text.drop (cutOf text)) := by
  rw [mtextPieces, if_pos long]

theorem mtextPieces_one {text : Bytes} (short : ¬mtextPieceChars < text.length) : mtextPieces text = [text] := by
  rw [mtextPieces, if_neg short]

theorem mtextPieces_ne_nil (text : Bytes) : mtextPieces text ≠ [] := by
  by_cases long : mtextPieceChars < text.length
  · simp [mtextPieces_long long]
  · simp [mtextPieces_one long]

/-- **The pieces are the text.** -/
theorem mtextPieces_flatten (text : Bytes) : (mtextPieces text).flatten = text := by
  fun_induction mtextPieces text with
  | case1 text long ih => rw [List.flatten_cons, ih, List.take_append_drop]
  | case2 text short => simp

/-- **No piece is over 250 bytes.** -/
theorem mtextPieces_short (text : Bytes) : ∀ piece ∈ mtextPieces text, piece.length ≤ mtextPieceChars := by
  fun_induction mtextPieces text with
  | case1 text long ih =>
    intro piece inside
    rcases List.mem_cons.mp inside with rfl | inside
    · rw [List.length_take]
      exact Nat.le_trans (Nat.min_le_left _ _) (cutOf_bounds text).2
    · exact ih piece inside
  | case2 text short =>
    intro piece inside
    rw [List.mem_singleton.mp inside]
    exact Nat.le_of_not_lt short

/-- A piece before the last is long enough to hold an escape. -/
theorem mtextPieces_long_before {text piece : Bytes} {after : List Bytes} (before : List Bytes) (more : after ≠ [])
    (is : mtextPieces text = before ++ piece :: after) : 240 ≤ piece.length := by
  fun_induction mtextPieces text generalizing before with
  | case1 text long ih =>
    cases before with
    | nil =>
      obtain ⟨rfl, -⟩ := List.cons.inj is
      have := cutOf_bounds text
      unfold mtextPieceChars at long
      rw [List.length_take]
      omega
    | cons first before => exact ih before (List.cons.inj is).2
  | case2 text short =>
    have lengths := congrArg List.length is
    simp only [List.length_append, List.length_cons, List.length_nil] at lengths
    have := List.length_pos_iff.mpr more
    omega

/-! ### Where a text in UTF-8 is cut -/

/-- **A text in UTF-8 is cut between two characters.** -/
theorem cutOf_between {text : List Char} (long : mtextPieceChars < (encode text).length) :
    ∃ one two, text = one ++ two ∧ encode one = (encode text).take (cutOf (encode text)) ∧
      encode two = (encode text).drop (cutOf (encode text)) := by
  have first : ¬IsContinuation ((encode text).getD (cutOf (encode text)) 0) := by
    have bounds := windowCut_bounds (encode text)
    obtain ⟨most, least, passed, stopped⟩ := backOff_spec (encode text) 3 (windowCut (encode text)) (by omega)
    intro continues
    have all := stopped continues
    have inside : windowCut (encode text) < (encode text).length := Nat.lt_of_le_of_lt bounds.2 long
    obtain ⟨back, few, begins⟩ := encode_begins_near inside
    -- one of the four bytes up to the window's cut begins a character
    rcases Nat.eq_or_lt_of_le few with rfl | fewer
    · refine begins ?_
      have same : windowCut (encode text) - 3 = cutOf (encode text) := by unfold cutOf; omega
      rw [same]
      exact continues
    · exact begins (passed _ (by omega) (by omega))
  refine encode_split (List.take_append_drop _ _).symm ?_
  intro byte head continues
  rw [List.head?_drop] at head
  rw [List.getD_eq_getElem?_getD, Option.mem_def.mp head] at first
  exact first continues

/-! ### Escapes -/

def isHexByte (byte : UInt8) : Bool := (hexValue (Char.ofNat byte.toNat)).isSome && byte.toNat < 128

/-- A `\U+XXXX`. -/
def IsEscape (bytes : Bytes) : Prop :=
  ∃ hex : Bytes, bytes = [backslash, 85, 43] ++ hex ∧ hex.length = 4 ∧ hex.all isHexByte

/-- An escape lies across the place between two texts. -/
def CutsEscape (before after : Bytes) : Prop :=
  ∃ first second : Bytes, first ≠ [] ∧ second ≠ [] ∧ IsEscape (first ++ second) ∧
    first <:+ before ∧ second <+: after

theorem IsEscape.length {bytes : Bytes} (escape : IsEscape bytes) : bytes.length = 7 := by
  obtain ⟨hex, rfl, four, -⟩ := escape
  simp [four]

theorem IsEscape.first {bytes : Bytes} (escape : IsEscape bytes) : bytes[0]? = some backslash := by
  obtain ⟨hex, rfl, -⟩ := escape
  rfl

theorem not_hexByte_backslash : isHexByte backslash = false := by decide

/-- After its backslash an escape is in ASCII and holds none. -/
theorem IsEscape.later {bytes : Bytes} (escape : IsEscape bytes) {byte : UInt8} {index : Nat} (later : 0 < index)
    (is : bytes[index]? = some byte) : byte ≠ backslash ∧ byte.toNat < 128 := by
  obtain ⟨hex, rfl, -, digits⟩ := escape
  obtain ⟨index, rfl⟩ : ∃ before, index = before + 1 := ⟨index - 1, by omega⟩
  have inside : byte ∈ (85 : UInt8) :: 43 :: hex := List.mem_of_getElem? is
  rw [List.mem_cons, List.mem_cons] at inside
  rcases inside with rfl | rfl | inside
  · decide
  · decide
  · have digit := List.all_eq_true.mp digits byte inside
    constructor
    · rintro rfl
      rw [not_hexByte_backslash] at digit
      exact absurd digit (by decide)
    · unfold isHexByte at digit
      simp only [Bool.and_eq_true, decide_eq_true_eq] at digit
      exact digit.2

theorem backslash_begins : ¬IsContinuation backslash := by decide

/-- **No escape lies across the cut** of a text in UTF-8. -/
theorem cutOf_keeps_escapes {text : List Char} (long : mtextPieceChars < (encode text).length) :
    ¬CutsEscape ((encode text).take (cutOf (encode text))) ((encode text).drop (cutOf (encode text))) := by
  rintro ⟨first, second, some₁, some₂, escape, ⟨before, front⟩, ⟨after, back⟩⟩
  have bounds := windowCut_bounds (encode text)
  obtain ⟨most, least, passed, -⟩ := backOff_spec (encode text) 3 (windowCut (encode text)) (by omega)
  have cutBounds := cutOf_bounds (encode text)
  have whole : encode text = before ++ (first ++ second) ++ after := by
    rw [← List.append_assoc, front, List.append_assoc, back, List.take_append_drop]
  have cut : before.length + first.length = cutOf (encode text) := by
    have lengths := congrArg List.length front
    unfold mtextPieceChars at long
    rw [List.length_append, List.length_take] at lengths
    omega
  have seven := escape.length
  rw [List.length_append] at seven
  have pos₁ := List.length_pos_iff.mpr some₁
  have pos₂ := List.length_pos_iff.mpr some₂
  -- the bytes of the escape, from where it begins
  have bytes : ∀ index < 7, (encode text)[before.length + index]? = (first ++ second)[index]? := by
    intro index less
    rw [whole, List.append_assoc, List.getElem?_append_right (by omega), List.getElem?_append_left
      (by rw [List.length_append]; omega), Nat.add_sub_cancel_left]
  obtain ⟨byte, atCut⟩ : ∃ byte, (first ++ second)[first.length]? = some byte :=
    ⟨_, List.getElem?_eq_getElem (by rw [List.length_append]; omega)⟩
  obtain ⟨plain, ascii⟩ := escape.later pos₁ atCut
  have here := bytes first.length (by omega)
  rw [atCut, cut] at here
  rcases windowCut_spec (encode text) with ⟨low, high, mark, -⟩ | ⟨edge, without⟩
  · -- the cut is at a backslash of the window, and the escape has none but its first
    by_cases moved : cutOf (encode text) < windowCut (encode text)
    · have continues := passed _ moved (Nat.le_refl _)
      rw [List.getD_eq_getElem?_getD, mark] at continues
      exact backslash_begins continues
    · have same : cutOf (encode text) = windowCut (encode text) := by unfold cutOf at moved ⊢; omega
      rw [same, mark] at here
      exact plain (Option.some.inj here).symm
  · -- the escape begins before the window, so it ends before the window's end
    have begins := bytes 0 (by omega)
    rw [escape.first, Nat.add_zero] at begins
    have early : before.length < 243 := by
      refine Nat.lt_of_not_le fun inside => ?_
      exact without before.length (by omega) (by omega) begins
    obtain ⟨one, two, -, -, rest⟩ := cutOf_between long
    unfold mtextPieceChars at long
    obtain ⟨next, follows⟩ : ∃ next, (encode text)[cutOf (encode text) + 1]? = some next :=
      ⟨_, List.getElem?_eq_getElem (by omega)⟩
    have continues := passed (cutOf (encode text) + 1) (Nat.lt_succ_self _) (by omega)
    rw [List.getD_eq_getElem?_getD, follows] at continues
    obtain ⟨bound₁, is₁⟩ := List.getElem?_eq_some_iff.mp here
    obtain ⟨bound₂, is₂⟩ := List.getElem?_eq_some_iff.mp follows
    have is : encode two = byte :: next :: (encode text).drop (cutOf (encode text) + 1 + 1) := by
      rw [rest, List.drop_eq_getElem_cons bound₁, List.drop_eq_getElem_cons bound₂, is₁, is₂]
    exact encode_ascii_next is ascii continues

/-- **In UTF-8 every cut of a text is between two characters.** -/
theorem mtextPieces_between {text : List Char} {before after : List Bytes}
    (is : mtextPieces (encode text) = before ++ after) :
    ∃ one two, text = one ++ two ∧ encode one = before.flatten ∧ encode two = after.flatten := by
  have whole := mtextPieces_flatten (encode text)
  rw [is, List.flatten_append] at whole
  cases before with
  | nil => exact ⟨[], text, rfl, rfl, whole.symm⟩
  | cons piece before =>
    by_cases long : mtextPieceChars < (encode text).length
    · rw [mtextPieces_long long, List.cons_append, List.cons.injEq] at is
      obtain ⟨one, two, rfl, front, back⟩ := cutOf_between long
      rw [← back] at is
      obtain ⟨one', two', rfl, rest, last⟩ := mtextPieces_between is.2
      exact ⟨one ++ one', two', (List.append_assoc ..).symm,
        by rw [encode_append, front, rest, List.flatten_cons, is.1], last⟩
    · rw [mtextPieces_one long, List.cons_append, List.cons.injEq, List.nil_eq_append_iff] at is
      obtain ⟨is, rfl, rfl⟩ := is
      exact ⟨text, [], by simp, by simp [is], rfl⟩
termination_by before.length

/-- What ends both before an escape's cut and a long enough last piece ends in the piece. -/
theorem CutsEscape.of_append {early before after : Bytes} (cuts : CutsEscape (early ++ before) after)
    (long : 6 ≤ before.length) : CutsEscape before after := by
  obtain ⟨first, second, some₁, some₂, escape, front, back⟩ := cuts
  refine ⟨first, second, some₁, some₂, escape, ?_, back⟩
  have seven := escape.length
  have := List.length_pos_iff.mpr some₂
  rw [List.length_append] at seven
  exact List.suffix_of_suffix_length_le front (List.suffix_append ..) (by omega)

/-- **In UTF-8 no escape lies across a cut.** -/
theorem mtextPieces_keeps_escapes {text : List Char} {before after : List Bytes}
    (is : mtextPieces (encode text) = before ++ after) : ¬CutsEscape before.flatten after.flatten := by
  intro cuts
  have ⟨first, second, some₁, some₂, _, front, back⟩ := cuts
  cases before with
  | nil => exact some₁ (List.suffix_nil.mp front)
  | cons piece before =>
    by_cases long : mtextPieceChars < (encode text).length
    · obtain ⟨one, two, -, -, rest⟩ := cutOf_between long
      have keeps := cutOf_keeps_escapes long
      rw [mtextPieces_long long, List.cons_append, List.cons.injEq, ← rest] at is
      rw [← rest, is.1] at keeps
      cases before with
      | nil =>
        rw [List.nil_append] at is
        rw [← is.2, mtextPieces_flatten] at cuts
        rw [List.flatten_cons, List.flatten_nil, List.append_nil] at cuts
        exact keeps cuts
      | cons next before =>
        refine mtextPieces_keeps_escapes is.2 ?_
        rw [List.flatten_cons] at cuts
        refine cuts.of_append ?_
        have more : after ≠ [] := by
          rintro rfl
          exact some₂ (List.prefix_nil.mp back)
        have := mtextPieces_long_before [] (List.append_ne_nil_of_right_ne_nil before more) is.2
        rw [List.flatten_cons, List.length_append]
        omega
    · rw [mtextPieces_one long, List.cons_append, List.cons.injEq, List.nil_eq_append_iff] at is
      obtain ⟨-, -, rfl⟩ := is
      exact some₂ (List.prefix_nil.mp back)
termination_by before.length

end Ketchup.Dxf
