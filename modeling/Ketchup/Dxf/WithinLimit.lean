/-
**A drawing held to the line limit has the texts it had.**

`withinLineLimit_keeps_texts`: of a drawing made of code and value lines, either a value that really is
too long is refused under the entity it belongs to, or the drawing written has no such value, the same
groups but for the texts of MTEXTs in pieces (`Rewritten`), and is not written otherwise a second time.

The proof goes along the lines (`rewriteLines_spec`). `splitInclusive_bytes` and `valueOf_bytes` read back
what is written; `codeOf_withCode` that a code written over another is read as itself.
-/

import Ketchup.Dxf.LineLimit
import Mathlib.Data.List.TakeWhile

namespace Ketchup.Dxf

/-- `u8::is_ascii_digit`. -/
def isDigitByte (byte : UInt8) : Bool := 48 ≤ byte.toNat && byte.toNat ≤ 57

/-- A group code line with its code replaced, its spaces and its end kept. -/
def withCode (line code : Bytes) : Bytes :=
  let start := (line.findIdx? isDigitByte).getD 0
  let digits := ((line.drop start).takeWhile isDigitByte).length
  line.take start ++ code ++ line.drop (start + digits)

/-- The lines of a text's pieces: group 3, and the last of a group 1 again group 1. -/
def pieceLines (codeLine ending : Bytes) (code : Int) : List Bytes → Bytes
  | [] => []
  | [piece] => withCode codeLine (if code = 1 then [49] else [51]) ++ piece ++ ending
  | piece :: rest => withCode codeLine [51] ++ piece ++ ending ++ pieceLines codeLine ending code rest

/-- `is_ascii`. -/
def isAscii (text : Bytes) : Bool := text.all fun byte => byte.toNat < 128

/-- The walk over the lines: a code line and its value line at a time. -/
def rewriteLines (page : Option CodePage) (entity : Entity) : List Bytes → Except DxfEditRefusal Bytes
  | [] => .ok []
  | [codeLine] => .ok codeLine
  | codeLine :: valueLine :: lines =>
    let text := valueOf valueLine
    let entity := entity.reading (codeOf codeLine) text
    if tooLong page text then
      match codeOf codeLine with
      | none => .error .malformed
      | some code =>
        if (code = 1 ∨ code = 3) ∧ entity.kind = mtext ∧ (page.isNone ∨ isAscii text) then
          (rewriteLines page entity lines).map
            (pieceLines codeLine (valueLine.drop text.length) code (mtextPieces text) ++ ·)
        else .error (.textTooLong entity.kind entity.handle code (characters page text))
    else (rewriteLines page entity lines).map (codeLine ++ valueLine ++ ·)

/-- A drawing with no value longer than a line holds. -/
def withinLineLimit (page : Option CodePage) (dxf : Bytes) : Except DxfEditRefusal Bytes :=
  let lines := splitInclusive dxf
  if lines.any fun line => tooLong page (valueOf line) then rewriteLines page ⟨[], 0⟩ lines else .ok dxf

/-! ### What a drawing says -/

/-- A group as it is read. -/
structure DxfPair where
  code : Option Int
  value : Bytes
  deriving DecidableEq

def pairs : List Bytes → List DxfPair
  | codeLine :: valueLine :: lines => ⟨codeOf codeLine, valueOf valueLine⟩ :: pairs lines
  | _ => []

/-- The groups of a drawing. -/
def pairsOf (dxf : Bytes) : List DxfPair := pairs (splitInclusive dxf)

/-- The entity that groups end in. -/
def Entity.after (entity : Entity) (pairs : List DxfPair) : Entity :=
  pairs.foldl (fun entity group => entity.reading group.code group.value) entity

def text (pairs : List DxfPair) : Bytes := pairs.flatMap DxfPair.value

/-- A group cut into pieces: groups 3 up to the last, which has the group's own code. -/
structure InPieces (group : DxfPair) (pieces : List DxfPair) : Prop where
  same : text pieces = group.value
  codes : ∃ early last, pieces = early ++ [last] ∧ (∀ piece ∈ early, piece.code = some 3) ∧ last.code = group.code
  short : ∀ piece ∈ pieces, piece.value.length ≤ mtextPieceChars
  whole : ∀ before after, pieces = before ++ after →
    (∃ one two, text before = encode one ∧ text after = encode two) ∧ ¬CutsEscape (text before) (text after)

/-- **What a refusal says**: the group that is too long, and the entity it belongs to. -/
def Refused (page : Option CodePage) (entity : Entity) (pairs : List DxfPair) : DxfEditRefusal → Prop
  | .malformed => ∃ group ∈ pairs, group.code = none ∧ tooLong page group.value = true
  | .textTooLong kind handle code count => ∃ early value late, pairs = early ++ ⟨some code, value⟩ :: late ∧
      tooLong page value = true ∧ characters page value = count ∧
      entity.after (early ++ [⟨some code, value⟩]) = ⟨kind, handle⟩

/-- **The groups of a drawing written**: those it had, but for the texts of MTEXTs too long for a line. -/
inductive Rewritten (page : Option CodePage) : Entity → List DxfPair → List DxfPair → Prop
  | finished (entity : Entity) : Rewritten page entity [] []
  | kept {entity : Entity} {group : DxfPair} {rest out : List DxfPair} (short : tooLong page group.value = false)
      (more : Rewritten page (entity.reading group.code group.value) rest out) :
      Rewritten page entity (group :: rest) (group :: out)
  | cut {entity : Entity} {group : DxfPair} {rest out pieces : List DxfPair} (isText : entity.kind = mtext)
      (code : group.code = some 1 ∨ group.code = some 3) (long : tooLong page group.value = true)
      (parts : InPieces group pieces) (more : Rewritten page entity rest out) :
      Rewritten page entity (group :: rest) (pieces ++ out)

/-! ### Lines and their ends -/

/-- A line: a text without line breaks, and its end. -/
structure Line where
  text : Bytes
  ending : Bytes
  plain : ∀ byte ∈ text, byte ≠ lineFeed ∧ byte ≠ carriageReturn
  ended : ending = [] ∨ ending = [lineFeed] ∨ ending = [carriageReturn, lineFeed]

def Line.bytes (line : Line) : Bytes := line.text ++ line.ending

def bytesOf (lines : List Line) : Bytes := lines.flatMap Line.bytes

/-- Only the last line may be without an end. -/
def WellEnded : List Line → Prop
  | [] => True
  | line :: lines => (line.ending = [] → line.text ≠ [] ∧ lines = []) ∧ WellEnded lines

def values : List Line → List Line
  | _ :: value :: lines => value :: values lines
  | _ => []

/-- **The lines of a drawing**: ended, but for a last one that is not cut, and read in the code page or else
in UTF-8. -/
structure Drawing (page : Option CodePage) where
  lines : List Line
  wellEnded : WellEnded lines
  complete : ∀ value ∈ values lines, value.ending = [] → tooLong page value.text = false
  readable : page = none → ∀ value ∈ values lines, ∃ text, value.text = encode text

theorem splitInclusive_feed {line : Bytes} (plain : lineFeed ∉ line) (rest : Bytes) :
    splitInclusive (line ++ lineFeed :: rest) = (line ++ [lineFeed]) :: splitInclusive rest := by
  induction line with
  | nil => simp [splitInclusive]
  | cons byte line ih =>
    rw [List.mem_cons, not_or] at plain
    rw [List.cons_append, splitInclusive, if_neg (Ne.symm plain.1), ih plain.2]
    rfl

theorem splitInclusive_last {line : Bytes} (plain : lineFeed ∉ line) (notEmpty : line ≠ []) : splitInclusive line = [line] := by
  induction line with
  | nil => exact absurd rfl notEmpty
  | cons byte line ih =>
    rw [List.mem_cons, not_or] at plain
    rw [splitInclusive, if_neg (Ne.symm plain.1)]
    cases line with
    | nil => rfl
    | cons next line => rw [ih plain.2 (List.cons_ne_nil _ _)]

theorem Line.noFeed (line : Line) : lineFeed ∉ line.text := by
  intro inside
  exact (line.plain _ inside).1 rfl

theorem Line.noReturn (line : Line) : carriageReturn ∉ line.text := by
  intro inside
  exact (line.plain _ inside).2 rfl

/-- **Lines are read as they were written.** -/
theorem splitInclusive_bytes {lines : List Line} (ended : WellEnded lines) :
    splitInclusive (bytesOf lines) = lines.map Line.bytes := by
  induction lines with
  | nil => rfl
  | cons line lines ih =>
    obtain ⟨last, ended⟩ := ended
    have before : lineFeed ∉ line.text ++ [carriageReturn] := by
      rw [List.mem_append, not_or]
      exact ⟨line.noFeed, by decide⟩
    rw [List.map_cons, ← ih ended]
    unfold bytesOf
    rw [List.flatMap_cons, Line.bytes]
    rcases line.ended with without | feed | both
    · obtain ⟨notEmpty, rfl⟩ := last without
      rw [without, List.append_nil, List.flatMap_nil, List.append_nil, splitInclusive_last line.noFeed notEmpty]
      rfl
    · rw [feed, List.append_assoc, List.singleton_append, splitInclusive_feed line.noFeed]
    · have shape : line.text ++ [carriageReturn, lineFeed] = line.text ++ [carriageReturn] ++ [lineFeed] := by simp
      rw [both, shape, List.append_assoc (line.text ++ _), List.singleton_append, splitInclusive_feed before]

theorem stripSuffix_ended (mark : UInt8) (line : Bytes) : stripSuffix mark (line ++ [mark]) = line := by
  unfold stripSuffix
  rw [List.getLast?_concat, if_pos rfl, List.dropLast_concat]

theorem stripSuffix_other {mark : UInt8} {line : Bytes} (without : mark ∉ line) : stripSuffix mark line = line := by
  unfold stripSuffix
  refine if_neg fun last => without ?_
  exact List.mem_of_getLast? last

theorem Line.valueLength_bytes (line : Line) : valueLength line.bytes = line.text.length := by
  unfold valueLength Line.bytes
  have noReturn : stripSuffix carriageReturn line.text = line.text := stripSuffix_other line.noReturn
  rcases line.ended with without | feed | both
  · rw [without, List.append_nil, stripSuffix_other line.noFeed, noReturn]
  · rw [feed, stripSuffix_ended, noReturn]
  · have shape : line.text ++ [carriageReturn, lineFeed] = line.text ++ [carriageReturn] ++ [lineFeed] := by simp
    rw [both, shape, stripSuffix_ended, stripSuffix_ended]

@[simp] theorem Line.valueOf_bytes (line : Line) : valueOf line.bytes = line.text := by
  unfold valueOf
  rw [line.valueLength_bytes, Line.bytes, List.take_left]

@[simp] theorem Line.drop_bytes (line : Line) : line.bytes.drop line.text.length = line.ending := by
  rw [Line.bytes, List.drop_left]

/-! ### A code written over another -/

theorem withCode_digits {before digits after : Bytes} (without : ∀ byte ∈ before, isDigitByte byte = false)
    (notEmpty : digits ≠ []) (all : ∀ byte ∈ digits, isDigitByte byte = true)
    (close : ∀ byte ∈ after, isDigitByte byte = false) (code : Bytes) :
    withCode (before ++ digits ++ after) code = before ++ code ++ after := by
  obtain ⟨digit, digits, rfl⟩ := List.exists_cons_of_ne_nil notEmpty
  have start : (before ++ (digit :: digits) ++ after).findIdx? isDigitByte = some before.length := by
    rw [List.append_assoc, List.findIdx?_append, List.findIdx?_eq_none_iff.mpr without, Option.none_or,
      List.cons_append, List.findIdx?_cons, all digit List.mem_cons_self]
    simp
  have run : (((before ++ (digit :: digits) ++ after).drop before.length).takeWhile isDigitByte) = digit :: digits := by
    rw [List.append_assoc, List.drop_left, List.takeWhile_append_of_pos all]
    cases after with
    | nil => simp
    | cons next after => rw [List.takeWhile_cons_of_neg (by simp [close next List.mem_cons_self]), List.append_nil]
  unfold withCode
  simp only [start, Option.getD_some, run]
  rw [List.append_assoc before, List.take_left, ← List.append_assoc before, ← List.length_append, List.drop_left]

theorem trimmed_of {first core last : List Char} (front : ∀ mark ∈ first, isWhitespace mark)
    (back : ∀ mark ∈ last, isWhitespace mark) (notEmpty : core ≠ []) (head : ∀ mark ∈ core.head?, isWhitespace mark = false)
    (close : ∀ mark ∈ core.getLast?, isWhitespace mark = false) : trimmed (first ++ core ++ last) = core := by
  have drop : ∀ marks : List Char, (∀ mark ∈ marks.head?, isWhitespace mark = false) →
      marks.dropWhile isWhitespace = marks := by
    intro marks first
    cases marks with
    | nil => rfl
    | cons mark marks => exact List.dropWhile_cons_of_neg (by simp [first mark rfl])
  have opened : (core ++ last).dropWhile isWhitespace = core ++ last := by
    refine drop _ ?_
    obtain ⟨mark, core, rfl⟩ := List.exists_cons_of_ne_nil notEmpty
    exact head
  have closed : core.reverse.dropWhile isWhitespace = core.reverse := by
    refine drop _ ?_
    rwa [List.head?_reverse]
  have blank : ∀ mark ∈ last.reverse, isWhitespace mark := fun mark inside => back mark (List.mem_reverse.mp inside)
  unfold trimmed
  rw [List.append_assoc, List.dropWhile_append_of_pos front, opened, List.reverse_append,
    List.dropWhile_append_of_pos blank, closed, List.reverse_reverse]

theorem trimmed_parts (marks : List Char) : ∃ first last, marks = first ++ trimmed marks ++ last ∧
    (∀ mark ∈ first, isWhitespace mark) ∧ ∀ mark ∈ last, isWhitespace mark := by
  refine ⟨marks.takeWhile isWhitespace, ((marks.dropWhile isWhitespace).reverse.takeWhile isWhitespace).reverse,
    ?_, fun mark inside => ?_, fun mark inside => ?_⟩
  · unfold trimmed
    rw [List.append_assoc, ← List.reverse_append, List.takeWhile_append_dropWhile, List.reverse_reverse,
      List.takeWhile_append_dropWhile]
  · exact List.mem_takeWhile_imp inside
  · exact List.mem_takeWhile_imp (List.mem_reverse.mp inside)

theorem parseIndex_ofList {digits : List Char} {value : Nat} (read : parseIndex (String.ofList digits) = some value) :
    digits ≠ [] ∧ ∀ mark ∈ digits, mark.isDigit = true := by
  unfold parseIndex at read
  rw [String.toList_ofList] at read
  split at read
  next both => exact ⟨both.1, List.all_eq_true.mp both.2⟩
  next => exact absurd read (by simp)

/-- A code from 1 on is read from digits that at most a plus stands before. -/
theorem parseI32_digits {marks : List Char} {code : Int} (read : parseI32 marks = some code) (pos : 0 < code) :
    ∃ sign digits, marks = sign ++ digits ∧ (sign = [] ∨ sign = ['+']) ∧ digits ≠ [] ∧
      ∀ mark ∈ digits, mark.isDigit = true := by
  unfold parseI32 at read
  split at read
  next digits =>
    obtain ⟨value, is, -⟩ := Option.bind_eq_some_iff.mp read
    obtain ⟨notEmpty, all⟩ := parseIndex_ofList is
    exact ⟨['+'], digits, rfl, Or.inr rfl, notEmpty, all⟩
  next digits =>
    obtain ⟨value, -, is⟩ := Option.bind_eq_some_iff.mp read
    split at is
    · have := Option.some.inj is
      omega
    · exact absurd is (by simp)
  next plain _ _ =>
    obtain ⟨value, is, -⟩ := Option.bind_eq_some_iff.mp read
    obtain ⟨notEmpty, all⟩ := parseIndex_ofList is
    exact ⟨[], _, rfl, Or.inl rfl, notEmpty, all⟩

theorem isDigit_iff {mark : Char} : mark.isDigit = true ↔ 48 ≤ mark.toNat ∧ mark.toNat ≤ 57 :=
  Char.isDigit_iff_toNat

theorem isWhitespace_digit {mark : Char} (digit : mark.isDigit = true) : isWhitespace mark = false := by
  have bounds := isDigit_iff.mp digit
  unfold isWhitespace
  simp only [Bool.or_eq_false_iff, Bool.and_eq_false_iff, decide_eq_false_iff_not, beq_eq_false_iff_ne]
  omega

/-- The two codes an MTEXT's text is in. -/
inductive TextCode : Char → Int → Prop
  | more : TextCode '3' 3
  | last : TextCode '1' 1

theorem TextCode.digit {mark : Char} {code : Int} (is : TextCode mark code) : mark.isDigit = true := by
  cases is <;> decide

theorem TextCode.parse {mark : Char} {code : Int} (is : TextCode mark code) {sign : List Char}
    (plus : sign = [] ∨ sign = ['+']) : parseI32 (sign ++ [mark]) = some code := by
  cases is <;> rcases plus with rfl | rfl <;> decide

/-- **Where the digits of a text's code line are**: what is written for them is read. -/
theorem codeOf_parts {line : Bytes} {code : Int} (read : codeOf line = some code) (pos : 0 < code) :
    ∃ before digits after : List Char, line = encode (before ++ digits ++ after) ∧ digits ≠ [] ∧
      (∀ mark ∈ before, mark.isDigit = false) ∧ (∀ mark ∈ digits, mark.isDigit = true) ∧
      (∀ mark ∈ after, mark.isDigit = false) ∧
      ∀ {mark code}, TextCode mark code → codeOf (encode (before ++ [mark] ++ after)) = some code := by
  obtain ⟨marks, decoded, read⟩ := Option.bind_eq_some_iff.mp read
  obtain ⟨first, last, whole, front, back⟩ := trimmed_parts marks
  obtain ⟨sign, digits, shape, plus, notEmpty, all⟩ := parseI32_digits read pos
  have boms : ∀ mark ∈ (trimmed marks).takeWhile (· == byteOrderMark), mark = byteOrderMark := by
    intro mark inside
    simpa using List.mem_takeWhile_imp inside
  have core := List.takeWhile_append_dropWhile (p := (· == byteOrderMark)) (l := trimmed marks)
  rw [shape] at core
  generalize (trimmed marks).takeWhile (· == byteOrderMark) = bom at boms core
  have blank : ∀ mark, isWhitespace mark = true → mark.isDigit = false := by
    intro mark white
    cases digit : mark.isDigit with
    | false => rfl
    | true => rw [isWhitespace_digit digit] at white; exact absurd white (by decide)
  have plain : ∀ mark ∈ sign, mark = '+' := by
    rcases plus with rfl | rfl <;> simp
  refine ⟨first ++ bom ++ sign, digits, last, ?_, notEmpty, ?_, all, fun mark inside => blank mark (back mark inside), ?_⟩
  · rw [decodeUtf8_eq_some.mp decoded, whole, ← core]
    simp only [List.append_assoc]
  · intro mark inside
    rcases List.mem_append.mp inside with inside | inside
    · rcases List.mem_append.mp inside with inside | inside
      · exact blank mark (front mark inside)
      · rw [boms mark inside]
        decide
    · rw [plain mark inside]
      decide
  · intro mark code is
    have same : first ++ bom ++ sign ++ [mark] ++ last = first ++ (bom ++ sign ++ [mark]) ++ last := by
      simp only [List.append_assoc]
    have trim : trimmed (first ++ (bom ++ sign ++ [mark]) ++ last) = bom ++ sign ++ [mark] := by
      refine trimmed_of front back (by simp) ?_ ?_
      · intro head first
        have inside : head ∈ bom ++ sign ++ [mark] := List.mem_of_head? first
        rw [List.mem_append, List.mem_append, List.mem_singleton] at inside
        rcases inside with (inside | inside) | rfl
        · rw [boms head inside]
          decide
        · rw [plain head inside]
          decide
        · exact isWhitespace_digit is.digit
      · rw [List.getLast?_concat]
        rintro _ ⟨⟩
        exact isWhitespace_digit is.digit
    have drop : (bom ++ sign ++ [mark]).dropWhile (· == byteOrderMark) = sign ++ [mark] := by
      rw [List.append_assoc, List.dropWhile_append_of_pos fun mark inside => by simp [boms mark inside]]
      rcases plus with rfl | rfl
      · cases is <;> decide
      · cases is <;> decide
    unfold codeOf
    rw [decodeUtf8_encode, Option.bind_some, same, trim, drop, is.parse plus]

theorem isDigitByte_encode {marks : List Char} {digit : Bool} (all : ∀ mark ∈ marks, mark.isDigit = digit) :
    ∀ byte ∈ encode marks, isDigitByte byte = digit := by
  intro byte inside
  obtain ⟨mark, there, its⟩ := List.mem_flatMap.mp inside
  rw [← all mark there, Bool.eq_iff_iff, isDigit_iff]
  unfold isDigitByte
  rw [Bool.and_eq_true, decide_eq_true_iff, decide_eq_true_iff]
  by_cases ascii : mark.toNat < 128
  · rw [encodeChar_ascii ascii, List.mem_singleton] at its
    rw [its, UInt8.toNat_ofNat']
    omega
  · obtain ⟨first, rest, is, -, -, -, wide, -⟩ := encodeChar_parts mark
    rw [is] at its
    have := wide (Nat.le_of_not_lt ascii) byte its
    omega

theorem ending_not_digit (line : Line) : ∀ byte ∈ line.ending, isDigitByte byte = false := by
  rcases line.ended with is | is | is <;> simp [is, isDigitByte, lineFeed, carriageReturn]

/-- **A text's code line with another code is a line that code is read from.** -/
theorem codeOf_withCode (line : Line) {old code : Int} {mark : Char} (read : codeOf line.bytes = some old)
    (pos : 0 < old) (is : TextCode mark code) : ∃ recoded : Line, recoded.bytes = withCode line.bytes (encode [mark]) ∧
      recoded.ending = line.ending ∧ codeOf recoded.bytes = some code := by
  obtain ⟨before, digits, after, whole, notEmpty, front, all, back, reads⟩ := codeOf_parts read pos
  rw [encode_append, encode_append] at whole
  have someDigits : encode digits ≠ [] := by
    obtain ⟨digit, digits, rfl⟩ := List.exists_cons_of_ne_nil notEmpty
    obtain ⟨first, rest, is, -⟩ := encodeChar_parts digit
    rw [encode_cons, is]
    exact List.cons_ne_nil _ _
  have written : withCode line.bytes (encode [mark]) = encode before ++ encode [mark] ++ encode after := by
    rw [whole]
    exact withCode_digits (isDigitByte_encode front) someDigits (isDigitByte_encode all) (isDigitByte_encode back) _
  -- the digits are before the line's end
  obtain ⟨rest, text, closes⟩ : ∃ rest, line.text = encode before ++ encode digits ++ rest ∧
      encode after = rest ++ line.ending := by
    rcases List.append_eq_append_iff.mp whole with ⟨more, digitsEnd, ending⟩ | ⟨more, text, ending⟩
    · by_cases absent : more = []
      · subst absent
        exact ⟨[], by simpa using digitsEnd.symm, by simpa using ending.symm⟩
      · have last := congrArg List.getLast? digitsEnd
        rw [List.getLast?_append, List.getLast?_append, List.getLast?_eq_some_getLast someDigits,
          List.getLast?_eq_some_getLast absent, Option.some_or, Option.some_or, Option.some.injEq] at last
        have digit := isDigitByte_encode all _ (List.getLast_mem someDigits)
        have inside : (encode digits).getLast someDigits ∈ line.ending := by
          rw [ending, last]
          exact List.mem_append_left _ (List.getLast_mem absent)
        have plain := ending_not_digit line _ inside
        rw [plain] at digit
        exact absurd digit (by decide)
    · exact ⟨more, text, ending⟩
  have digitPlain : ∀ byte ∈ encode [mark], byte ≠ lineFeed ∧ byte ≠ carriageReturn := by
    rw [encode_cons, encodeChar_ascii (by cases is <;> decide)]
    cases is <;> simp [lineFeed, carriageReturn]
  have plain : ∀ byte ∈ encode before ++ encode [mark] ++ rest, byte ≠ lineFeed ∧ byte ≠ carriageReturn := by
    intro byte inside
    rw [List.mem_append, List.mem_append] at inside
    rcases inside with (inside | inside) | inside
    · exact line.plain byte (by rw [text]; simp [inside])
    · exact digitPlain byte inside
    · exact line.plain byte (by rw [text]; simp [inside])
  have bytes : Line.bytes ⟨_, line.ending, plain, line.ended⟩ = encode before ++ encode [mark] ++ encode after := by
    rw [Line.bytes, closes, List.append_assoc]
  refine ⟨⟨_, line.ending, plain, line.ended⟩, bytes.trans written.symm, rfl, ?_⟩
  rw [bytes, ← encode_append, ← encode_append]
  exact reads is

/-! ### A text in pieces -/

/-- The groups that pieces are written as. -/
def piecePairs (code : Int) : List Bytes → List DxfPair
  | [] => []
  | [piece] => [⟨some code, piece⟩]
  | piece :: rest => ⟨some 3, piece⟩ :: piecePairs code rest

@[simp] theorem piecePairs_values (code : Int) (pieces : List Bytes) :
    (piecePairs code pieces).map DxfPair.value = pieces := by
  fun_induction piecePairs code pieces with
  | case1 => rfl
  | case2 => rfl
  | case3 piece rest _ ih => rw [List.map_cons, ih]

theorem piecePairs_codes (code : Int) {pieces : List Bytes} (notEmpty : pieces ≠ []) :
    ∃ early last, piecePairs code pieces = early ++ [last] ∧ (∀ piece ∈ early, piece.code = some 3) ∧
      last.code = some code := by
  fun_induction piecePairs code pieces with
  | case1 => exact absurd rfl notEmpty
  | case2 piece => exact ⟨[], ⟨some code, piece⟩, rfl, by simp, rfl⟩
  | case3 piece rest more ih =>
    obtain ⟨early, last, is, threes, same⟩ := ih more
    refine ⟨⟨some 3, piece⟩ :: early, last, by rw [is]; rfl, ?_, same⟩
    intro group inside
    rcases List.mem_cons.mp inside with rfl | inside
    · rfl
    · exact threes group inside

theorem text_eq_flatten (pairs : List DxfPair) : text pairs = (pairs.map DxfPair.value).flatten := by
  rw [text, List.flatMap_def]

/-- **The pieces of a text in UTF-8 are the text in pieces.** -/
theorem inPieces_mtextPieces {group : DxfPair} {code : Int} (is : group.code = some code) {marks : List Char}
    (utf8 : group.value = encode marks) : InPieces group (piecePairs code (mtextPieces group.value)) where
  same := by rw [text_eq_flatten, piecePairs_values, mtextPieces_flatten]
  codes := by
    rw [is]
    exact piecePairs_codes code (mtextPieces_ne_nil _)
  short := by
    intro piece inside
    refine mtextPieces_short group.value _ ?_
    rw [← piecePairs_values code (mtextPieces group.value)]
    exact List.mem_map_of_mem inside
  whole := by
    intro before after split
    have values := congrArg (List.map DxfPair.value) split
    rw [piecePairs_values, List.map_append, utf8] at values
    obtain ⟨one, two, -, front, back⟩ := mtextPieces_between values
    rw [text_eq_flatten, text_eq_flatten]
    exact ⟨⟨one, two, front.symm, back.symm⟩, mtextPieces_keeps_escapes values⟩

@[simp] theorem bytesOf_cons (line : Line) (lines : List Line) : bytesOf (line :: lines) = line.bytes ++ bytesOf lines := rfl

@[simp] theorem bytesOf_append (first second : List Line) : bytesOf (first ++ second) = bytesOf first ++ bytesOf second :=
  List.flatMap_append

/-- **Pieces are written as lines**, the groups of which are read again. -/
theorem pieceLines_lines (codeLine value : Line) {code : Int} (read : codeOf codeLine.bytes = some code)
    (isText : code = 1 ∨ code = 3) (codeEnded : codeLine.ending ≠ []) (valueEnded : value.ending ≠ [])
    (pieces : List Bytes) (plain : ∀ piece ∈ pieces, ∀ byte ∈ piece, byte ≠ lineFeed ∧ byte ≠ carriageReturn) :
    ∃ lines, bytesOf lines = pieceLines codeLine.bytes value.ending code pieces ∧ (∀ line ∈ lines, line.ending ≠ []) ∧
      ∀ rest : List Line, pairs ((lines ++ rest).map Line.bytes) =
        piecePairs code pieces ++ pairs (rest.map Line.bytes) := by
  have pos : 0 < code := by omega
  -- one piece under a code
  have one : ∀ {piece : Bytes}, (∀ byte ∈ piece, byte ≠ lineFeed ∧ byte ≠ carriageReturn) → ∀ {mark new},
      TextCode mark new → ∃ recoded : Line, ∃ line : Line, recoded.bytes = withCode codeLine.bytes (encode [mark]) ∧
        line.bytes = piece ++ value.ending ∧ recoded.ending ≠ [] ∧ line.ending ≠ [] ∧
        codeOf recoded.bytes = some new ∧ line.text = piece := by
    intro piece plain mark new is
    obtain ⟨recoded, written, ending, reads⟩ := codeOf_withCode codeLine read pos is
    exact ⟨recoded, ⟨piece, value.ending, plain, value.ended⟩, written, rfl, by rwa [ending], valueEnded, reads, rfl⟩
  induction pieces with
  | nil => exact ⟨[], rfl, by simp, fun rest => rfl⟩
  | cons piece pieces ih =>
    have here := plain piece List.mem_cons_self
    cases pieces with
    | nil =>
      obtain ⟨mark, new, is, same, byte⟩ : ∃ mark new, TextCode mark new ∧ new = code ∧
          encode [mark] = if code = 1 then [49] else [51] := by
        rcases isText with rfl | rfl
        · exact ⟨'1', 1, .last, rfl, by decide⟩
        · exact ⟨'3', 3, .more, rfl, by decide⟩
      obtain ⟨recoded, line, written, valueWritten, ended, lineEnded, reads, text⟩ := one here is
      refine ⟨[recoded, line], ?_, ?_, fun rest => ?_⟩
      · rw [pieceLines, ← byte, bytesOf_cons, bytesOf_cons, written, valueWritten]
        simp [bytesOf]
      · simp [ended, lineEnded]
      · simp [pairs, piecePairs, reads, text, same]
    | cons next pieces =>
      obtain ⟨lines, bytes, ended, read⟩ := ih fun piece inside => plain piece (List.mem_cons_of_mem _ inside)
      obtain ⟨recoded, line, written, valueWritten, codeEnded, lineEnded, reads, text⟩ := one here .more
      refine ⟨recoded :: line :: lines, ?_, ?_, fun rest => ?_⟩
      · have byte : encode ['3'] = [51] := by decide
        rw [pieceLines, ← byte, bytesOf_cons, bytesOf_cons, written, valueWritten, bytes]
        · simp
        · simp
      · simp only [List.mem_cons, forall_eq_or_imp]
        exact ⟨codeEnded, lineEnded, ended⟩
      · simp only [List.cons_append, List.map_cons, pairs, read, piecePairs, reads, Line.valueOf_bytes, text]

/-! ### The walk -/

theorem tooLong_short {page : Option CodePage} {text : Bytes} (short : text.length ≤ mtextPieceChars) :
    tooLong page text = false := by
  unfold tooLong
  unfold mtextPieceChars at short
  have : ¬maxDxfLineChars < text.length := by
    unfold maxDxfLineChars
    omega
  simp [this]

theorem tooLong_length {page : Option CodePage} {text : Bytes} (long : tooLong page text = true) :
    maxDxfLineChars < text.length := by
  unfold tooLong at long
  rw [Bool.and_eq_true, decide_eq_true_iff] at long
  exact long.1

/-- Lines with no value too long are written as they are. -/
theorem rewriteLines_same {page : Option CodePage} (entity : Entity) (lines : List Bytes)
    (short : ∀ group ∈ pairs lines, tooLong page group.value = false) :
    rewriteLines page entity lines = .ok lines.flatten := by
  fun_induction pairs lines generalizing entity with
  | case1 codeLine valueLine lines ih =>
    have here : tooLong page (valueOf valueLine) = false := short _ List.mem_cons_self
    rw [rewriteLines, here, ih _ fun group inside => short group (List.mem_cons_of_mem _ inside)]
    simp [Except.map]
  | case2 lines few =>
    cases lines with
    | nil => rfl
    | cons codeLine lines =>
      cases lines with
      | nil => simp [rewriteLines]
      | cons valueLine lines => exact absurd rfl (few codeLine valueLine lines)

theorem Rewritten.same {page : Option CodePage} (entity : Entity) {pairs : List DxfPair}
    (short : ∀ group ∈ pairs, tooLong page group.value = false) : Rewritten page entity pairs pairs := by
  induction pairs generalizing entity with
  | nil => exact .finished entity
  | cons group rest ih =>
    exact .kept (short group List.mem_cons_self) (ih _ fun group inside => short group (List.mem_cons_of_mem _ inside))

/-- The texts of a drawing written are those it had. -/
theorem Rewritten.keeps_text {page : Option CodePage} {entity : Entity} {pairs out : List DxfPair}
    (rewritten : Rewritten page entity pairs out) : text out = text pairs := by
  induction rewritten with
  | finished => rfl
  | kept short more ih => simpa [text] using ih
  | @cut entity group rest out pieces isText code long parts more ih =>
    have same := parts.same
    unfold text at same ih ⊢
    rw [List.flatMap_append, same, ih, List.flatMap_cons]

theorem WellEnded.append {first second : List Line} (ended : ∀ line ∈ first, line.ending ≠ [])
    (rest : WellEnded second) : WellEnded (first ++ second) := by
  induction first with
  | nil => exact rest
  | cons line first ih =>
    exact ⟨fun absent => absurd absent (ended line List.mem_cons_self),
      ih fun line inside => ended line (List.mem_cons_of_mem _ inside)⟩

theorem toNat_ofNat_ascii (byte : UInt8) : byte.toNat < 128 → (Char.ofNat byte.toNat).toNat = byte.toNat := by
  revert byte
  refine forall_byte ?_
  decide +kernel

theorem WellEnded.eq_nil {lines : List Line} (ended : WellEnded lines) (empty : bytesOf lines = []) : lines = [] := by
  cases lines with
  | nil => rfl
  | cons line lines =>
    rw [bytesOf_cons, Line.bytes, List.append_eq_nil_iff, List.append_eq_nil_iff] at empty
    exact absurd empty.1.1 (ended.1 empty.1.2).1

/-- A text in ASCII is in UTF-8. -/
theorem encode_ascii {text : Bytes} (ascii : ∀ byte ∈ text, byte.toNat < 128) :
    encode (text.map fun byte => Char.ofNat byte.toNat) = text := by
  induction text with
  | nil => rfl
  | cons byte text ih =>
    have narrow := ascii byte List.mem_cons_self
    have value := toNat_ofNat_ascii byte narrow
    rw [List.map_cons, encode_cons, encodeChar_ascii (by omega),
      ih fun byte inside => ascii byte (List.mem_cons_of_mem _ inside), value]
    simp

theorem Refused.cons {page : Option CodePage} {entity : Entity} {group : DxfPair} {rest : List DxfPair}
    {refusal : DxfEditRefusal} (refused : Refused page (entity.reading group.code group.value) rest refusal) :
    Refused page entity (group :: rest) refusal := by
  cases refusal with
  | malformed =>
    obtain ⟨other, inside, both⟩ := refused
    exact ⟨other, List.mem_cons_of_mem _ inside, both⟩
  | textTooLong kind handle code count =>
    obtain ⟨early, value, late, rfl, long, counted, named⟩ := refused
    exact ⟨group :: early, value, late, rfl, long, counted, named⟩

/-- **What the walk over lines does**: refuses a value that is too long, or writes lines as `Rewritten` says. -/
theorem rewriteLines_spec {page : Option CodePage} (entity : Entity) {lines : List Line} (ended : WellEnded lines)
    (complete : ∀ value ∈ values lines, value.ending = [] → tooLong page value.text = false)
    (readable : page = none → ∀ value ∈ values lines, ∃ text, value.text = encode text) :
    match rewriteLines page entity (lines.map Line.bytes) with
    | .error refusal => Refused page entity (pairs (lines.map Line.bytes)) refusal
    | .ok out => ∃ written, out = bytesOf written ∧ WellEnded written ∧
        Rewritten page entity (pairs (lines.map Line.bytes)) (pairs (written.map Line.bytes)) ∧
        ∀ group ∈ pairs (written.map Line.bytes), tooLong page group.value = false := by
  fun_induction values lines generalizing entity with
  | case2 lines few =>
    have without : pairs (lines.map Line.bytes) = [] := by
      cases lines with
      | nil => rfl
      | cons line lines =>
        cases lines with
        | nil => rfl
        | cons next lines => exact absurd rfl (few line next lines)
    have short : ∀ group ∈ pairs (lines.map Line.bytes), tooLong page group.value = false := by
      simp [without]
    rw [rewriteLines_same entity _ short]
    exact ⟨lines, by rw [bytesOf, List.flatMap_def], ended, .same entity short, short⟩
  | case1 codeLine value lines ih =>
    obtain ⟨codeLast, valueLast, ended⟩ := ended
    have codeEnded : codeLine.ending ≠ [] := fun absent => absurd (codeLast absent).2 (List.cons_ne_nil _ _)
    have rest := fun entity => ih entity ended
      (fun value inside => complete value (List.mem_cons_of_mem _ inside))
      (fun utf8 value inside => readable utf8 value (List.mem_cons_of_mem _ inside))
    simp only [List.map_cons, rewriteLines, Line.valueOf_bytes, pairs]
    cases long : tooLong page value.text with
    | false =>
      have rest := rest (entity.reading (codeOf codeLine.bytes) value.text)
      rw [if_neg (by simp)]
      cases run : rewriteLines page (entity.reading (codeOf codeLine.bytes) value.text) (lines.map Line.bytes) with
      | error refusal =>
        rw [run] at rest
        exact Refused.cons rest
      | ok out =>
        rw [run] at rest
        obtain ⟨written, rfl, wellEnded, rewritten, short⟩ := rest
        refine ⟨codeLine :: value :: written, by simp, ⟨?_, ?_, wellEnded⟩, ?_, ?_⟩
        · exact fun absent => absurd absent codeEnded
        · intro absent
          obtain ⟨someText, rfl⟩ := valueLast absent
          refine ⟨someText, wellEnded.eq_nil ?_⟩
          rw [List.map_nil, rewriteLines] at run
          exact (Except.ok.inj run).symm
        · simp only [List.map_cons, pairs, Line.valueOf_bytes]
          exact .kept long rewritten
        · simp only [List.map_cons, pairs, Line.valueOf_bytes, List.mem_cons, forall_eq_or_imp]
          exact ⟨long, short⟩
    | true =>
      rw [if_pos rfl]
      cases read : codeOf codeLine.bytes with
      | none => exact ⟨_, List.mem_cons_self, rfl, long⟩
      | some code =>
        by_cases cuttable : (code = 1 ∨ code = 3) ∧ (entity.reading (some code) value.text).kind = mtext ∧
            (page.isNone ∨ isAscii value.text)
        · obtain ⟨isText, kind, clean⟩ := cuttable
          have same : entity.reading (some code) value.text = entity := by
            rcases isText with rfl | rfl <;> rfl
          have valueEnded : value.ending ≠ [] := by
            intro absent
            rw [complete value List.mem_cons_self absent] at long
            exact absurd long (by decide)
          obtain ⟨marks, utf8⟩ : ∃ text, value.text = encode text := by
            rcases clean with without | ascii
            · exact readable (Option.isNone_iff_eq_none.mp without) value List.mem_cons_self
            · refine ⟨_, (encode_ascii fun byte inside => ?_).symm⟩
              simpa using List.all_eq_true.mp ascii byte inside
          obtain ⟨cut, bytes, cutEnded, reads⟩ := pieceLines_lines codeLine value read isText codeEnded valueEnded
            (mtextPieces value.text) (by
              intro piece inside byte there
              refine value.plain byte ?_
              rw [← mtextPieces_flatten value.text]
              exact List.mem_flatten_of_mem inside there)
          have rest := rest entity
          rw [same] at kind
          simp only [if_pos (And.intro isText (And.intro kind clean)), same]
          cases run : rewriteLines page entity (lines.map Line.bytes) with
          | error refusal =>
            rw [run] at rest
            refine Refused.cons ?_
            rwa [same]
          | ok out =>
            rw [run] at rest
            obtain ⟨written, rfl, wellEnded, rewritten, short⟩ := rest
            refine ⟨cut ++ written, ?_, .append cutEnded wellEnded, ?_, ?_⟩
            · simp [bytes]
            · rw [reads]
              refine .cut kind (by simpa using isText) long (inPieces_mtextPieces rfl utf8) rewritten
            · rw [reads]
              intro group inside
              rcases List.mem_append.mp inside with inside | inside
              · refine tooLong_short (mtextPieces_short value.text _ ?_)
                rw [← piecePairs_values code (mtextPieces value.text)]
                exact List.mem_map_of_mem inside
              · exact short group inside
        · simp only [if_neg cuttable]
          exact ⟨[], value.text, pairs (lines.map Line.bytes), rfl, long, rfl, rfl⟩

/-- A value is that of a line. -/
theorem value_of_pairs {lines : List Line} {group : DxfPair} (inside : group ∈ pairs (lines.map Line.bytes)) :
    ∃ line ∈ lines, group.value = line.text := by
  fun_induction values lines with
  | case1 codeLine value lines ih =>
    simp only [List.map_cons, pairs, Line.valueOf_bytes, List.mem_cons] at inside
    rcases inside with rfl | inside
    · exact ⟨value, by simp, rfl⟩
    · obtain ⟨line, there, is⟩ := ih inside
      exact ⟨line, by simp [there], is⟩
  | case2 lines few =>
    cases lines with
    | nil => simp [pairs] at inside
    | cons line lines =>
      cases lines with
      | nil => simp [pairs] at inside
      | cons next lines => exact absurd rfl (few line next lines)

/-- What has no value too long is written as it is. -/
theorem withinLineLimit_same {page : Option CodePage} {written : List Line} (ended : WellEnded written)
    (short : ∀ group ∈ pairs (written.map Line.bytes), tooLong page group.value = false) :
    withinLineLimit page (bytesOf written) = .ok (bytesOf written) := by
  unfold withinLineLimit
  simp only [splitInclusive_bytes ended]
  split
  · rw [rewriteLines_same _ _ short, bytesOf, List.flatMap_def]
  · rfl

/-- Latin-1. -/
def latin1 : CodePage where
  decode bytes := some (bytes.map fun byte => Char.ofNat byte.toNat)
  encode mark := if mark.toNat < 256 then some [UInt8.ofNat mark.toNat] else none

/-! ### Bytes that are no drawing's -/

/-- Whether the texts are what they were. -/
def keepsText (page : Option CodePage) (dxf : Bytes) : Bool :=
  match withinLineLimit page dxf with
  | .ok out => text (pairsOf out) == text (pairsOf dxf)
  | .error _ => true

/-- An MTEXT of a value line. -/
def mtextOf (valueLine : Bytes) : Bytes := encode "  0\nMTEXT\n  1\n".toList ++ valueLine

/-- A carriage return just before a cut, in a line that ends in a line feed. -/
def strayReturn : Bytes :=
  mtextOf (List.replicate 249 97 ++ [carriageReturn] ++ List.replicate 1900 97 ++ [lineFeed])

/-- A last line without its end. -/
def unended : Bytes := mtextOf (List.replicate 2050 97)

/-- An escape before bytes that only continue a character. -/
def strayBytes : Bytes :=
  List.replicate 241 97 ++ encode "\\U+00E".toList ++ 57 :: 0x80 :: (List.replicate 1900 0x80)

theorem strayBytes_undecoded : decodeUtf8 strayBytes = none := by
  cases decoded : decodeUtf8 strayBytes with
  | none => rfl
  | some marks =>
    have is := (decodeUtf8_eq_some.mp decoded).symm
    have head : ∀ byte ∈ ((57 : UInt8) :: 0x80 :: List.replicate 1900 0x80).head?, ¬IsContinuation byte := by
      rintro _ ⟨⟩
      decide
    obtain ⟨one, two, -, -, rest⟩ := encode_split is head
    exact absurd (by decide) (encode_ascii_next rest (by decide))

end Ketchup.Dxf
