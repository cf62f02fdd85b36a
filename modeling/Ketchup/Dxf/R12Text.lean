/-
**A text as an R12 string.**

`lossy` writes a text in ASCII: a per cent sign as `%%%`, a line break as a space and a character beyond ASCII as
its escape. `lines` first breaks it into lines that are strings of at most `maxStringCharacters` once written.

* `lines_join` — the lines join back into the text.
* `readText_lossy` — a text that holds no escape is read as it was written, line breaks as spaces and characters
  beyond the Basic Multilingual Plane as `?`.
* `dxfText_line` — a line is refused for a character that no escape holds, and never for its length.
* `text_read_back` — each line of a text is an R12 string, and is read as that line.
-/

import Ketchup.Dxf.Escapes

namespace Ketchup.R12Text

open Dxf

def maxStringCharacters : Nat := 255

/-- One character as an R12 string writes it; `none` for one beyond the Basic Multilingual Plane, which no
escape holds. -/
def character (mark : Char) : Option (List Char) :=
  if mark = '%' then some ['%', '%', '%']
  else if mark = '\r' ∨ mark = '\n' then some [' ']
  else if mark.toNat < 128 then some [mark]
  else if mark.toNat < 0x10000 then some ('\\' :: 'U' :: '+' :: upperHex4 mark.toNat)
  else none

/-- What a character is written as, one beyond the Basic Multilingual Plane as `?`. -/
def written (mark : Char) : List Char := (character mark).getD ['?']

def lossy (value : List Char) : List Char := value.flatMap written

inductive DrawingExportError where
  | unsupportedDxfText
  | dxfTextTooLong
  deriving DecidableEq

def piece (mark : Char) : Except DrawingExportError (List Char) :=
  match character mark with
  | some written => .ok written
  | none => .error .unsupportedDxfText

/-- A string of the R12 file of a drawing, which refuses what `lossy` writes as `?` and a string that is too long. -/
def dxfText (value : List Char) : Except DrawingExportError (List Char) := do
  let output := (← value.mapM piece).flatten
  if maxStringCharacters < output.length then .error .dxfTextTooLong
  else .ok output

/-- Whether `count + 1.0 <= max_characters`, for a maximum of at least one character: `f64::INFINITY` or
`characters.max(1.0)`. Below one the loop of `lines` would not end. -/
structure Width where
  fits : Nat → Bool
  one : fits 0 = true

/-- How many characters fit a line that holds `count` of them, `width` characters long once written. -/
def fitting (limit : Width) (count width : Nat) : List Char → Nat
  | [] => 0
  | mark :: rest =>
    if limit.fits count ∧ width + (written mark).length ≤ maxStringCharacters then
      fitting limit (count + 1) (width + (written mark).length) rest + 1
    else 0

/-- `rposition` of a space. -/
def lastSpace : List Char → Option Nat
  | [] => none
  | mark :: rest =>
    match lastSpace rest with
    | some space => some (space + 1)
    | none => if mark = ' ' then some 0 else none

/-- Where a line ends: after the last space that fits, or between characters when no space does. -/
def lineEnd (limit : Width) (value : List Char) : Nat :=
  let fit := fitting limit 0 0 value
  if fit < value.length then
    match lastSpace (value.take fit) with
    | some space => if 0 < space then space + 1 else fit
    | none => fit
  else fit

/-- What a text is read back with for a character: a space for a line break, `?` for one that no escape holds. -/
def shown (mark : Char) : Char :=
  if mark = '\r' ∨ mark = '\n' then ' '
  else if mark.toNat < 0x10000 then mark
  else '?'

/-- What `character` does, case by case. -/
theorem character_cases (mark : Char) :
    (mark = '%' ∧ character mark = some ['%', '%', '%']) ∨
    (mark ≠ '%' ∧ (mark = '\r' ∨ mark = '\n') ∧ character mark = some [' ']) ∨
    (mark ≠ '%' ∧ ¬(mark = '\r' ∨ mark = '\n') ∧ mark.toNat < 128 ∧ character mark = some [mark]) ∨
    (mark ≠ '%' ∧ ¬(mark = '\r' ∨ mark = '\n') ∧ mark.toNat < 0x10000 ∧ character mark = some (escaped mark)) ∨
    (mark ≠ '%' ∧ ¬(mark = '\r' ∨ mark = '\n') ∧ ¬mark.toNat < 0x10000 ∧ character mark = none) := by
  unfold character
  by_cases percent : mark = '%'
  · exact .inl ⟨percent, if_pos percent⟩
  rw [if_neg percent]
  by_cases lineBreak : mark = '\r' ∨ mark = '\n'
  · exact .inr (.inl ⟨percent, lineBreak, if_pos lineBreak⟩)
  rw [if_neg lineBreak]
  by_cases ascii : mark.toNat < 128
  · exact .inr (.inr (.inl ⟨percent, lineBreak, ascii, if_pos ascii⟩))
  rw [if_neg ascii]
  by_cases basic : mark.toNat < 0x10000
  · exact .inr (.inr (.inr (.inl ⟨percent, lineBreak, basic, (if_pos basic).trans (congrArg some (escaped_basic basic).symm)⟩)))
  · exact .inr (.inr (.inr (.inr ⟨percent, lineBreak, basic, if_neg basic⟩)))

/-- A character is written as three per cent signs, as what is shown for it or as an escape. -/
theorem written_cases (mark : Char) :
    (mark = '%' ∧ written mark = ['%', '%', '%']) ∨
    (mark ≠ '%' ∧ shown mark ≠ '%' ∧ (shown mark).toNat < 128 ∧ shown mark ≠ '\r' ∧ shown mark ≠ '\n' ∧
      (shown mark = mark ∨ shown mark = ' ' ∨ shown mark = '?') ∧ written mark = [shown mark]) ∨
    (mark ≠ '%' ∧ shown mark = mark ∧ mark.toNat < 0x10000 ∧ written mark = escaped mark) := by
  unfold written shown
  obtain ⟨percent, out⟩ | ⟨percent, lineBreak, out⟩ | ⟨percent, lineBreak, ascii, out⟩ | ⟨percent, lineBreak, basic, out⟩ |
    ⟨percent, lineBreak, beyond, out⟩ := character_cases mark
  all_goals rw [out]
  · exact .inl ⟨percent, rfl⟩
  · rw [if_pos lineBreak]
    exact .inr (.inl ⟨percent, by decide, by decide, by decide, by decide, .inr (.inl rfl), rfl⟩)
  · rw [if_neg lineBreak, if_pos (by omega)]
    exact .inr (.inl ⟨percent, percent, ascii, mt .inl lineBreak, mt .inr lineBreak, .inl rfl, rfl⟩)
  · rw [if_neg lineBreak, if_pos basic]
    exact .inr (.inr ⟨percent, rfl, basic, rfl⟩)
  · rw [if_neg lineBreak, if_neg beyond]
    exact .inr (.inl ⟨percent, by decide, by decide, by decide, by decide, .inr (.inr rfl), rfl⟩)

theorem length_written_le (mark : Char) : (written mark).length ≤ 7 := by
  obtain ⟨-, three⟩ | ⟨-, -, -, -, -, -, one⟩ | ⟨-, -, basic, escape⟩ := written_cases mark
  · rw [three]
    decide
  · rw [one]
    exact Nat.succ_le_succ (Nat.zero_le 6)
  · rw [escape, escaped_basic basic]
    exact Nat.le_refl 7

theorem lastSpace_lt {value : List Char} {space : Nat} (last : lastSpace value = some space) : space < value.length := by
  induction value generalizing space with
  | nil => exact absurd last (by simp [lastSpace])
  | cons mark rest ih =>
    unfold lastSpace at last
    split at last
    · next later found =>
      obtain rfl := Option.some.inj last
      exact Nat.succ_lt_succ (ih found)
    · split at last
      · obtain rfl := Option.some.inj last
        exact Nat.succ_pos _
      · exact absurd last (by simp)

theorem fitting_pos (limit : Width) (mark : Char) (rest : List Char) : 0 < fitting limit 0 0 (mark :: rest) := by
  have short := length_written_le mark
  rw [fitting, if_pos ⟨limit.one, by unfold maxStringCharacters; omega⟩]
  exact Nat.succ_pos _

theorem lineEnd_le (limit : Width) (value : List Char) : lineEnd limit value ≤ fitting limit 0 0 value := by
  unfold lineEnd
  dsimp only
  split
  · split
    · next space last =>
      have inside := lastSpace_lt last
      rw [List.length_take] at inside
      split <;> omega
    · exact Nat.le_refl _
  · exact Nat.le_refl _

theorem lineEnd_pos (limit : Width) (mark : Char) (rest : List Char) : 0 < lineEnd limit (mark :: rest) := by
  have positive := fitting_pos limit mark rest
  unfold lineEnd
  dsimp only
  split
  · split
    · split <;> omega
    · exact positive
  · exact positive

/-- The loop of `lines`, from where the last line ended. -/
def linesFrom (limit : Width) : List Char → List (List Char)
  | [] => []
  | mark :: rest =>
    (mark :: rest).take (lineEnd limit (mark :: rest)) :: linesFrom limit ((mark :: rest).drop (lineEnd limit (mark :: rest)))
termination_by value => value.length
decreasing_by
  have := lineEnd_pos limit mark rest
  rw [List.length_drop, List.length_cons]
  omega

/-- `value` broken into lines, an empty text into one empty line. -/
def lines (limit : Width) (value : List Char) : List (List Char) :=
  if (linesFrom limit value).isEmpty then [[]] else linesFrom limit value

/-! ### Lines -/

theorem linesFrom_join (limit : Width) (value : List Char) : (linesFrom limit value).flatten = value := by
  induction value using linesFrom.induct limit with
  | case1 => rw [linesFrom, List.flatten_nil]
  | case2 mark rest ih => rw [linesFrom, List.flatten_cons, ih, List.take_append_drop]

/-- **The lines join back into the text.** -/
theorem lines_join (limit : Width) (value : List Char) : (lines limit value).flatten = value := by
  have joined := linesFrom_join limit value
  unfold lines
  split
  · next empty =>
    rw [List.isEmpty_iff.mp empty] at joined
    exact joined
  · exact joined

/-- What fits a line fits a string once written. -/
theorem length_lossy_fitting (limit : Width) (value : List Char) (count : Nat) {width : Nat} (within : width ≤ maxStringCharacters) :
    width + (lossy (value.take (fitting limit count width value))).length ≤ maxStringCharacters := by
  induction value generalizing count width with
  | nil => simpa [lossy] using within
  | cons mark rest ih =>
    unfold fitting
    split
    · next fits =>
      have later := ih (count + 1) fits.2
      simpa [lossy, Nat.add_assoc] using later
    · simpa [lossy] using within

theorem length_lossy_line (limit : Width) (value : List Char) :
    (lossy (value.take (lineEnd limit value))).length ≤ maxStringCharacters := by
  have fits := length_lossy_fitting limit value 0 (Nat.zero_le maxStringCharacters)
  have shorter : lossy (value.take (lineEnd limit value)) <+: lossy (value.take (fitting limit 0 0 value)) := by
    obtain ⟨more, same⟩ := List.take_prefix_take_left (l := value) (lineEnd_le limit value)
    exact ⟨lossy more, by rw [← same]; exact List.flatMap_append.symm⟩
  have := shorter.length_le
  omega

theorem length_lossy_lines (limit : Width) (value : List Char) :
    ∀ line ∈ lines limit value, (lossy line).length ≤ maxStringCharacters := by
  have each : ∀ line ∈ linesFrom limit value, (lossy line).length ≤ maxStringCharacters := by
    induction value using linesFrom.induct limit with
    | case1 => simp [linesFrom]
    | case2 mark rest ih =>
      rw [linesFrom]
      exact List.forall_mem_cons.mpr ⟨length_lossy_line limit (mark :: rest), ih⟩
  unfold lines
  split
  · exact List.forall_mem_singleton.mpr (Nat.zero_le _)
  · exact each

/-! ### Refused texts -/

theorem piece_eq (mark : Char) :
    piece mark = if mark.toNat < 0x10000 then .ok (written mark) else .error .unsupportedDxfText := by
  unfold piece written
  obtain ⟨rfl, out⟩ | ⟨_, rfl | rfl, out⟩ | ⟨_, _, ascii, out⟩ | ⟨_, _, basic, out⟩ | ⟨_, _, beyond, out⟩ := character_cases mark
  all_goals rw [out]
  · rfl
  · rfl
  · rfl
  · exact (if_pos (by omega)).symm
  · exact (if_pos basic).symm
  · exact (if_neg beyond).symm

theorem pieces_eq (value : List Char) :
    value.mapM piece = if value.all (·.toNat < 0x10000) then .ok (value.map written) else .error .unsupportedDxfText := by
  induction value with
  | nil => rfl
  | cons mark rest ih =>
    rw [List.mapM_cons, ih, piece_eq, List.all_cons]
    by_cases basic : mark.toNat < 0x10000
    · rw [if_pos basic, decide_eq_true basic, Bool.true_and]
      cases rest.all (·.toNat < 0x10000) <;> rfl
    · rw [if_neg basic, decide_eq_false basic, Bool.false_and]
      rfl

/-- **A line is refused for a character that no escape holds, and never for its length.** -/
theorem dxfText_line (limit : Width) (value : List Char) : ∀ line ∈ lines limit value,
    dxfText line = if line.all (·.toNat < 0x10000) then .ok (lossy line) else .error .unsupportedDxfText := by
  intro line isLine
  have short := length_lossy_lines limit value line isLine
  rw [dxfText, pieces_eq]
  cases line.all (·.toNat < 0x10000) with
  | false => rfl
  | true => exact if_neg (Nat.not_lt.mpr (List.flatMap_def ▸ short))

/-! ### Reading back -/

theorem lossy_cons (mark : Char) (rest : List Char) : lossy (mark :: rest) = written mark ++ lossy rest := List.flatMap_cons

/-- A character that is no mark of the writing itself is one of the text. -/
theorem head_lossy {value more : List Char} {first : Char} (headed : lossy value = first :: more)
    (letter : first ≠ '%' ∧ first ≠ ' ' ∧ first ≠ '?' ∧ first ≠ '\\') :
    ∃ rest, value = first :: rest ∧ lossy rest = more := by
  cases value with
  | nil => exact absurd headed (by simp [lossy])
  | cons mark rest =>
    rw [lossy_cons] at headed
    obtain ⟨-, three⟩ | ⟨-, -, -, -, -, same, one⟩ | ⟨-, -, basic, escape⟩ := written_cases mark
    · rw [three] at headed
      exact absurd (List.cons.inj headed).1.symm letter.1
    · rw [one] at headed
      obtain ⟨atFirst, after⟩ := List.cons.inj headed
      obtain same | space | question := same
      · exact ⟨rest, by rw [← atFirst, same], after⟩
      · exact absurd (atFirst.symm.trans space) letter.2.1
      · exact absurd (atFirst.symm.trans question) letter.2.2.1
    · rw [escape, escaped_basic basic] at headed
      exact absurd (List.cons.inj headed).1.symm letter.2.2.2

/-- Writing a text makes no escape of what is none. -/
theorem startsEscape_lossy {value : List Char} (plain : startsEscape value = false) : startsEscape (lossy value) = false := by
  have kept : ∀ first : Char, first ≠ '%' ∧ first ≠ ' ' ∧ first ≠ '?' ∧ first ≠ '\\' → value.take 2 ≠ [first, '+'] →
      (lossy value).take 2 ≠ [first, '+'] := by
    intro first letter other starts
    obtain ⟨more, headed⟩ : ∃ more, lossy value = first :: '+' :: more :=
      ⟨(lossy value).drop 2, by rw [← List.take_append_drop 2 (lossy value), starts]; simp⟩
    obtain ⟨tail, rfl, followed⟩ := head_lossy headed letter
    obtain ⟨rest, rfl, -⟩ := head_lossy followed (by decide)
    exact other rfl
  rw [startsEscape_eq_false] at plain ⊢
  exact ⟨kept 'U' (by decide) plain.1, kept 'M' (by decide) plain.2⟩

section Read

variable (pages : DoubleByte) (codePage : SingleByte)

/-- The escapes of a text read: per cent signs are still three. -/
theorem readEscapes_lossy {value : List Char} (plain : holdsEscape value = false) :
    readEscapes pages (lossy value) = value.flatMap fun mark => if mark = '%' then ['%', '%', '%'] else [shown mark] := by
  induction value with
  | nil => exact readEscapes.eq_1 pages
  | cons mark rest ih =>
    obtain ⟨here, later⟩ := Bool.or_eq_false_iff.mp plain
    rw [lossy_cons, List.flatMap_cons, ← ih later]
    obtain ⟨percent, three⟩ | ⟨other, _, _, _, _, same, one⟩ | ⟨other, same, basic, escape⟩ := written_cases mark
    · rw [three, if_pos percent, List.cons_append, readEscapes_other pages (by decide), List.cons_append,
        readEscapes_other pages (by decide), List.cons_append, readEscapes_other pages (by decide)]
      rfl
    · rw [one, if_neg other]
      by_cases backslash : shown mark = '\\'
      · have itself : mark = '\\' := by
          obtain same | space | question := same
          · exact same ▸ backslash
          · exact absurd (backslash.symm.trans space) (by decide)
          · exact absurd (backslash.symm.trans question) (by decide)
        rw [backslash]
        exact readEscapes_backslash pages (startsEscape_lossy (by simpa [itself] using here))
      · exact readEscapes_other pages backslash _
    · rw [escape, if_neg other, readEscapes_escaped, same]
      rfl

/-- **A text that holds no escape is read as it was written.** -/
theorem readText_lossy {value : List Char} (plain : holdsEscape value = false) :
    readText pages codePage (lossy value) = value.map shown := by
  rw [readText, unicodeEscapes_eq, specialCharacters_eq, readEscapes_lossy pages plain]
  clear plain
  induction value with
  | nil => exact readSpecial.eq_1 codePage
  | cons mark rest ih =>
    rw [List.flatMap_cons, List.map_cons]
    obtain ⟨rfl, -⟩ | ⟨other, notPercent, -⟩ | ⟨other, same, -⟩ := written_cases mark
    · rw [if_pos rfl]
      exact (readSpecial_percent codePage _).trans (congrArg _ ih)
    · rw [if_neg other]
      exact (readSpecial_other codePage notPercent _).trans (congrArg _ ih)
    · rw [if_neg other]
      exact (readSpecial_other codePage (same.symm ▸ other) _).trans (congrArg _ ih)

end Read

/-- An R12 string is ASCII on one line. -/
theorem lossy_ascii (value : List Char) : ∀ mark ∈ lossy value, mark.toNat < 128 ∧ mark ≠ '\r' ∧ mark ≠ '\n' := by
  intro mark isWritten
  obtain ⟨source, -, isPiece⟩ := List.mem_flatMap.mp isWritten
  obtain ⟨-, three⟩ | ⟨-, -, ascii, noReturn, noFeed, -, one⟩ | ⟨-, -, basic, escape⟩ := written_cases source
  · rw [three] at isPiece
    simp only [List.mem_cons, List.not_mem_nil, or_false, or_self] at isPiece
    rw [isPiece]
    decide
  · rw [one, List.mem_singleton] at isPiece
    exact isPiece ▸ ⟨ascii, noReturn, noFeed⟩
  · rw [escape, escaped_basic basic] at isPiece
    have hex : ∀ digit < 16, (upperHexDigit digit).toNat < 128 ∧ upperHexDigit digit ≠ '\r' ∧ upperHexDigit digit ≠ '\n' := by
      decide
    have digit : ∀ number, (upperHexDigit (number % 16)).toNat < 128 ∧ upperHexDigit (number % 16) ≠ '\r' ∧
      upperHexDigit (number % 16) ≠ '\n' := fun number => hex _ (Nat.mod_lt _ (by decide))
    simp only [upperHex4, List.mem_cons, List.not_mem_nil, or_false] at isPiece
    obtain rfl | rfl | rfl | rfl | rfl | rfl | rfl := isPiece
    · decide
    · decide
    · decide
    all_goals exact digit _

/-- **A text drawn is read back.** It is drawn as lines that join into it; each is an ASCII string on one line of at
most 255 characters, and is read as the line. -/
theorem text_read_back (pages : DoubleByte) (codePage : SingleByte) (limit : Width) {value : List Char}
    (plain : holdsEscape value = false) :
    (lines limit value).flatten = value ∧ ∀ line ∈ lines limit value,
      (lossy line).length ≤ maxStringCharacters ∧ (∀ mark ∈ lossy line, mark.toNat < 128 ∧ mark ≠ '\r' ∧ mark ≠ '\n') ∧
      readText pages codePage (lossy line) = line.map shown ∧
      dxfText line = if line.all (·.toNat < 0x10000) then .ok (lossy line) else .error .unsupportedDxfText := by
  have joined := lines_join limit value
  refine ⟨joined, fun line isLine => ⟨length_lossy_lines limit value line isLine, lossy_ascii line, ?_,
    dxfText_line limit value line isLine⟩⟩
  exact readText_lossy pages codePage (holdsEscape_flatten (joined.symm ▸ plain) line isLine)

/-- `f64::INFINITY`. -/
def unlimited : Width := ⟨fun _ => true, rfl⟩

/-- `Kotva č. 5 – 50 %` and an emoji on a line of its own. -/
def kotva : List Char := "Kotva č. 5 – 50 %\n😀".toList

example : lossy kotva = "Kotva \\U+010D. 5 \\U+2013 50 %%% ?".toList := by decide

/-- No code page is asked for any of it. -/
theorem text_read_back_kotva : holdsEscape kotva = false ∧ (lines unlimited kotva).flatten = kotva ∧
    ∀ line ∈ lines unlimited kotva, (lossy line).length ≤ maxStringCharacters ∧
      (∀ mark ∈ lossy line, mark.toNat < 128 ∧ mark ≠ '\r' ∧ mark ≠ '\n') ∧
      readText (fun _ _ => none) (fun _ => none) (lossy line) = line.map shown ∧
      dxfText line = if line.all (·.toNat < 0x10000) then .ok (lossy line) else .error .unsupportedDxfText :=
  ⟨by decide, text_read_back (fun _ _ => none) (fun _ => none) unlimited (by decide)⟩

end Ketchup.R12Text
