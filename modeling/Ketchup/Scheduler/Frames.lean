/-
**Frames of a worker, in any split of the stream.**

A frame is the length of its body in four bytes and the body. `encodeFrame` writes one and `readFrame` reads
one; `readFrames` goes on as a worker does: after a message, and after a frame that does not decode, which
leaves the stream in sync. Whatever frames a stream holds and however it ends, what is read is one result for
each of them and then how the stream ends (`frames_survive_splits`).

The serializer is a parameter: what it writes of a message, call by call, and what it reads of a body.
-/

import Ketchup.Library.ByteSource

namespace Ketchup.Scheduler

/-- `ciborium`. -/
structure Codec (T : Type) where
  /-- The writes of `into_writer`, and the error it stops with, if any. -/
  intoWriter : T → List Bytes × Option String
  /-- The message of `from_reader` and how far into the body it has read. -/
  fromReader : Bytes → Except String (T × Nat)

inductive IoError
  | invalidData (reason : String)
  | other (reason : String)
  deriving DecidableEq

/-- A frame being encoded, without its length. -/
structure BoundedFrame where
  body : Bytes
  maxBytes : Nat

def BoundedFrame.write (bounded : BoundedFrame) (bytes : Bytes) : Except IoError BoundedFrame :=
  if bounded.body.length + bytes.length > bounded.maxBytes then
    .error (.invalidData s!"worker frame exceeds the {bounded.maxBytes}-byte limit")
  else .ok { bounded with body := bounded.body ++ bytes }

def u32Max : Nat := 2 ^ 32 - 1

/-- The length before a body. -/
def header (length : Nat) : Bytes := littleEndian 4 length

inductive Frame (T : Type)
  | message (message : T)
  /-- The stream ended cleanly between frames. -/
  | closed
  | tooLarge
  | malformed (reason : String)
  | transport (reason : String)
  deriving DecidableEq

section Frames

variable {T : Type} (codec : Codec T)

/-- Encodes one length-prefixed frame, refusing bodies above `maxBytes`. -/
def encodeFrame (message : T) (maxBytes : Nat) : Except IoError Bytes := do
  let bounded ← (codec.intoWriter message).1.foldlM BoundedFrame.write ⟨[], maxBytes⟩
  match (codec.intoWriter message).2 with
  | some reason => .error (.other reason)
  | none =>
    if bounded.body.length > u32Max then
      .error (.invalidData "out of range integral type conversion attempted")
    else .ok (header bounded.body.length ++ bounded.body)

/-- The message of a whole body. -/
def decodeBody (body : Bytes) : Frame T :=
  match codec.fromReader body with
  | .ok (message, position) =>
    if position = body.length then .message message else .malformed "worker frame has trailing bytes"
  | .error reason => .malformed s!"worker frame does not decode: {reason}"

/-- Reads one frame; the declared length is checked before the body is read. `space` is the room of the buffer
that the body is read into, at each length. -/
def readFrame (space : Nat → Nat) (maxBytes : Nat) (source : Source) : Frame T × Source :=
  match source.gather (fun filled => 4 - filled) 4 [] with
  | (.error reason, source) => (.transport reason, source)
  | (.ok filled, source) =>
    if filled = [] then (.closed, source)
    else if filled.length < 4 then (.malformed "worker frame header was truncated", source)
    else if ofLittleEndian filled > maxBytes then (.tooLarge, source)
    else
      match source.gather space (ofLittleEndian filled) [] with
      | (.error reason, source) => (.transport reason, source)
      | (.ok body, source) =>
        if body.length = ofLittleEndian filled then (decodeBody codec body, source)
        else (.malformed "worker frame body was truncated", source)

/-- Whether a worker reads on: after a message, and after a frame that does not decode. -/
def Frame.GoesOn : Frame T → Bool
  | message _ | malformed _ => true
  | closed | tooLarge | transport _ => false

/-- The frames a worker reads, as many at most. -/
def readFrames (space : Nat → Nat) (maxBytes : Nat) : Nat → Source → List (Frame T)
  | 0, _ => []
  | rounds + 1, source =>
    let (frame, source) := readFrame codec space maxBytes source
    frame :: if frame.GoesOn then readFrames space maxBytes rounds source else []

/-! ### One frame -/

variable {codec} {space : Nat → Nat} {budget limit : Nat} {source : Source}

/-- The source with other bytes, at another turn, and no call fails. -/
def Goes (source : Source) (bytes : Bytes) : Prop := source.bytes = bytes ∧ source.Steady

theorem header_length (length : Nat) : (header length).length = 4 := littleEndian_length 4 length

theorem ofLittleEndian_header {length : Nat} (fits : length ≤ u32Max) : ofLittleEndian (header length) = length :=
  ofLittleEndian_littleEndian (by unfold u32Max at fits; omega)

theorem gather_goes (space : Nat → Nat) {bytes : Bytes} (goes : Goes source bytes) (want : Nat) :
    ∃ rest, source.gather space want [] = (.ok (bytes.take want), rest) ∧ Goes rest (bytes.drop want) := by
  obtain ⟨turns, done, steady⟩ := source.gather_eq space want [] goes.2
  refine ⟨_, done.trans ?_, ?_, steady⟩
  · rw [goes.1]
    rfl
  · rw [← goes.1]
    rfl

theorem readFrame_closed (goes : Goes source []) :
    ∃ rest, readFrame codec space budget source = (.closed, rest) := by
  obtain ⟨rest, done, _⟩ := gather_goes (fun filled => 4 - filled) goes 4
  refine ⟨rest, ?_⟩
  rw [readFrame, done]
  rfl

theorem readFrame_cutHeader {bytes : Bytes} (goes : Goes source bytes) (some_ : bytes ≠ [])
    (short : bytes.length < 4) :
    ∃ rest, readFrame codec space budget source = (.malformed "worker frame header was truncated", rest) ∧
      Goes rest [] := by
  obtain ⟨rest, done, after⟩ := gather_goes (fun filled => 4 - filled) goes 4
  rw [List.take_of_length_le (by omega)] at done
  rw [List.drop_eq_nil_of_le (by omega)] at after
  refine ⟨rest, ?_, after⟩
  rw [readFrame, done]
  simp only [if_neg some_, if_pos short]

theorem gather_header {length : Nat} {bytes : Bytes} (goes : Goes source (header length ++ bytes)) :
    ∃ rest, source.gather (fun filled => 4 - filled) 4 [] = (.ok (header length), rest) ∧ Goes rest bytes := by
  obtain ⟨rest, done, after⟩ := gather_goes (fun filled => 4 - filled) goes 4
  rw [List.take_left' (header_length length)] at done
  rw [List.drop_left' (header_length length)] at after
  exact ⟨rest, done, after⟩

theorem header_ne_nil (length : Nat) : header length ≠ [] :=
  List.ne_nil_of_length_pos (by rw [header_length]; exact Nat.succ_pos 3)

theorem readFrame_tooLong {length : Nat} {bytes : Bytes} (fits : length ≤ u32Max) (beyond : budget < length)
    (goes : Goes source (header length ++ bytes)) :
    ∃ rest, readFrame codec space budget source = (.tooLarge, rest) := by
  obtain ⟨rest, done, _⟩ := gather_header goes
  refine ⟨rest, ?_⟩
  rw [readFrame, done]
  simp only [if_neg (header_ne_nil length), header_length, Nat.lt_irrefl, if_false,
    ofLittleEndian_header fits, if_pos beyond]

theorem readFrame_whole {body bytes : Bytes} (fits : body.length ≤ u32Max) (within : body.length ≤ budget)
    (goes : Goes source (header body.length ++ (body ++ bytes))) :
    ∃ rest, readFrame codec space budget source = (decodeBody codec body, rest) ∧ Goes rest bytes := by
  obtain ⟨middle, first, goes⟩ := gather_header goes
  obtain ⟨rest, done, after⟩ := gather_goes space goes body.length
  rw [List.take_left] at done
  rw [List.drop_left] at after
  refine ⟨rest, ?_, after⟩
  rw [readFrame, first]
  simp only [if_neg (header_ne_nil _), header_length, Nat.lt_irrefl, if_false,
    ofLittleEndian_header fits, if_neg (Nat.not_lt.mpr within), done, if_true]

theorem readFrame_cutBody {length : Nat} {part : Bytes} (fits : length ≤ u32Max) (within : length ≤ budget)
    (short : part.length < length) (goes : Goes source (header length ++ part)) :
    ∃ rest, readFrame codec space budget source = (.malformed "worker frame body was truncated", rest) ∧
      Goes rest [] := by
  obtain ⟨middle, first, goes⟩ := gather_header goes
  obtain ⟨rest, done, after⟩ := gather_goes space goes length
  rw [List.take_of_length_le (by omega)] at done
  rw [List.drop_eq_nil_of_le (by omega)] at after
  refine ⟨rest, ?_, after⟩
  rw [readFrame, first]
  simp only [if_neg (header_ne_nil _), header_length, Nat.lt_irrefl, if_false,
    ofLittleEndian_header fits, if_neg (Nat.not_lt.mpr within), done, if_neg (Nat.ne_of_lt short)]

/-! ### What a stream holds -/

section Streams

variable (codec)

/-- What the serializer writes of a message, where it writes all of it. -/
def Codec.Encodes (message : T) (body : Bytes) : Prop :=
  (codec.intoWriter message).2 = none ∧ (codec.intoWriter message).1.flatten = body

/-- The serializer reads back what it writes, and says how far it has read. -/
def Codec.RoundTrips : Prop :=
  ∀ message body, codec.Encodes message body → ∀ extra, codec.fromReader (body ++ extra) = .ok (message, body.length)

/-- A whole frame within the budget, and what is read of it. -/
inductive Whole (limit budget : Nat) : Bytes → Frame T → Prop
  | sent {message : T} {frame : Bytes} (written : encodeFrame codec message limit = .ok frame) :
    Whole limit budget frame (.message message)
  | padded {message : T} {body extra : Bytes} (encodes : codec.Encodes message body) (more : extra ≠ [])
    (fits : (body ++ extra).length ≤ u32Max) (within : (body ++ extra).length ≤ budget) :
    Whole limit budget (header (body ++ extra).length ++ (body ++ extra))
      (.malformed "worker frame has trailing bytes")
  | undecoded {body : Bytes} {reason : String} (refused : codec.fromReader body = .error reason)
    (fits : body.length ≤ u32Max) (within : body.length ≤ budget) :
    Whole limit budget (header body.length ++ body) (.malformed s!"worker frame does not decode: {reason}")

end Streams

/-- How a stream ends, and what is read there. -/
inductive Ending (T : Type) (budget : Nat) : Bytes → List (Frame T) → Prop
  | clean : Ending T budget [] [.closed]
  | cutHeader {bytes : Bytes} (some_ : bytes ≠ []) (short : bytes.length < 4) :
    Ending T budget bytes [.malformed "worker frame header was truncated", .closed]
  | cutBody {length : Nat} {part : Bytes} (fits : length ≤ u32Max) (within : length ≤ budget)
    (short : part.length < length) :
    Ending T budget (header length ++ part) [.malformed "worker frame body was truncated", .closed]
  | tooLong {length : Nat} {rest : Bytes} (fits : length ≤ u32Max) (beyond : budget < length) :
    Ending T budget (header length ++ rest) [.tooLarge]

theorem write_ok {bounded next : BoundedFrame} {bytes : Bytes} :
    bounded.write bytes = .ok next ↔ bounded.body.length + bytes.length ≤ bounded.maxBytes ∧
      next = ⟨bounded.body ++ bytes, bounded.maxBytes⟩ := by
  unfold BoundedFrame.write
  by_cases beyond : bounded.body.length + bytes.length > bounded.maxBytes
  · rw [if_pos beyond]
    refine iff_of_false (fun is => ?_) fun both => Nat.not_lt.mpr both.1 beyond
    cases is
  · rw [if_neg beyond, Except.ok.injEq, eq_comm (a := _) (b := next)]
    exact (and_iff_right (Nat.not_lt.mp beyond)).symm

/-- What all writes of a message leave in the frame is what was written, within the limit. -/
theorem writes_ok {writes : List Bytes} {start done : BoundedFrame} (room : start.body.length ≤ start.maxBytes)
    (is : writes.foldlM BoundedFrame.write start = .ok done) :
    done.body = start.body ++ writes.flatten ∧ done.body.length ≤ start.maxBytes := by
  induction writes generalizing start with
  | nil =>
    cases is
    exact ⟨(List.append_nil _).symm, room⟩
  | cons bytes rest ih =>
    rw [List.foldlM_cons] at is
    cases step : start.write bytes with
    | error reason =>
      rw [step] at is
      cases is
    | ok next =>
      rw [step] at is
      obtain ⟨within, rfl⟩ := write_ok.mp step
      obtain ⟨written, least⟩ := ih (by rwa [List.length_append]) is
      refine ⟨?_, least⟩
      rw [written, List.append_assoc, List.flatten_cons]

/-- A frame that is written is the length of what the serializer wrote, and that. -/
theorem encodeFrame_ok {message : T} {frame : Bytes} (written : encodeFrame codec message limit = .ok frame) :
    ∃ body, codec.Encodes message body ∧ body.length ≤ limit ∧ body.length ≤ u32Max ∧
      frame = header body.length ++ body := by
  unfold encodeFrame at written
  cases all : (codec.intoWriter message).1.foldlM BoundedFrame.write ⟨[], limit⟩ with
  | error reason =>
    rw [all] at written
    cases written
  | ok bounded =>
    rw [all] at written
    obtain ⟨body, within⟩ := writes_ok (Nat.zero_le _) all
    cases stops : (codec.intoWriter message).2 with
    | some reason =>
      simp only [stops] at written
      cases written
    | none =>
      by_cases fits : bounded.body.length > u32Max
      · simp only [stops, bind, Except.bind, if_pos fits] at written
        cases written
      · simp only [stops, bind, Except.bind, if_neg fits] at written
        cases written
        refine ⟨bounded.body, ⟨stops, ?_⟩, within, Nat.not_lt.mp fits, rfl⟩
        rw [body]
        rfl

/-! ### A whole stream -/

/-- Each whole frame is read as itself, and what follows is left. -/
theorem Whole.read (law : codec.RoundTrips) (allowed : limit ≤ budget) {bytes rest : Bytes} {frame : Frame T}
    (whole : Whole codec limit budget bytes frame) (goes : Goes source (bytes ++ rest)) :
    frame.GoesOn = true ∧ ∃ after, readFrame codec space budget source = (frame, after) ∧ Goes after rest := by
  cases whole with
  | @sent message frame written =>
    obtain ⟨body, encodes, within, fits, rfl⟩ := encodeFrame_ok written
    rw [List.append_assoc] at goes
    obtain ⟨after, read, goes⟩ := readFrame_whole fits (Nat.le_trans within allowed) goes
    refine ⟨rfl, after, ?_, goes⟩
    have decoded := law message body encodes []
    rw [List.append_nil] at decoded
    rw [read, decodeBody, decoded]
    simp only [if_true]
  | @padded message body extra encodes more fits within =>
    rw [List.append_assoc] at goes
    obtain ⟨after, read, goes⟩ := readFrame_whole fits within goes
    refine ⟨rfl, after, ?_, goes⟩
    have differs : body.length ≠ (body ++ extra).length := by
      have := List.length_pos_iff.mpr more
      rw [List.length_append]
      omega
    rw [read, decodeBody, law message body encodes extra]
    simp only [if_neg differs]
  | @undecoded body reason refused fits within =>
    rw [List.append_assoc] at goes
    obtain ⟨after, read, goes⟩ := readFrame_whole fits within goes
    refine ⟨rfl, after, ?_, goes⟩
    rw [read, decodeBody, refused]

theorem Whole.sent_of {bytes : Bytes} {frame : Frame T} (whole : Whole codec limit budget bytes frame)
    {message : T} (is : frame = .message message) : encodeFrame codec message limit = .ok bytes := by
  cases whole with
  | sent written =>
    cases is
    exact written
  | _ => cases is

theorem readFrames_end {frame : Frame T}
    (done : ∃ rest, readFrame codec space budget source = (frame, rest)) (last : frame.GoesOn = false)
    (rounds : Nat) : readFrames codec space budget (rounds + 1) source = [frame] := by
  obtain ⟨rest, done⟩ := done
  rw [readFrames, done]
  simp only [last, Bool.false_eq_true, if_false]

theorem readFrames_next {frame : Frame T} {rest : Source}
    (done : readFrame codec space budget source = (frame, rest)) (more : frame.GoesOn = true) (rounds : Nat) :
    readFrames codec space budget (rounds + 1) source = frame :: readFrames codec space budget rounds rest := by
  rw [readFrames, done]
  simp only [more, if_true]

theorem Ending.read {bytes : Bytes} {frames : List (Frame T)} (ending : Ending T budget bytes frames)
    (goes : Goes source bytes) (rounds : Nat) : readFrames codec space budget (rounds + 2) source = frames := by
  cases ending with
  | clean => exact readFrames_end (readFrame_closed goes) rfl _
  | cutHeader some_ short =>
    obtain ⟨rest, done, goes⟩ := readFrame_cutHeader goes some_ short
    rw [readFrames_next done rfl, readFrames_end (readFrame_closed goes) rfl]
  | cutBody fits within short =>
    obtain ⟨rest, done, goes⟩ := readFrame_cutBody fits within short goes
    rw [readFrames_next done rfl, readFrames_end (readFrame_closed goes) rfl]
  | tooLong fits beyond => exact readFrames_end (readFrame_tooLong fits beyond goes) rfl _

/-- **Frames survive any splitting of the stream**: of each whole frame its message is read, or that it is
none, in order, and then how the stream ends; no message is read that was not sent. -/
theorem frames_survive_splits (law : codec.RoundTrips) (allowed : limit ≤ budget)
    {parts : List (Bytes × Frame T)} (whole : ∀ part ∈ parts, Whole codec limit budget part.1 part.2)
    {last : Bytes} {ends : List (Frame T)} (ending : Ending T budget last ends)
    (steady : source.Steady) (holds : source.bytes = (parts.map Prod.fst).flatten ++ last) {rounds : Nat}
    (enough : parts.length + 2 ≤ rounds) :
    readFrames codec space budget rounds source = parts.map Prod.snd ++ ends ∧
      ∀ message, .message message ∈ readFrames codec space budget rounds source →
        ∃ part ∈ parts, encodeFrame codec message limit = .ok part.1 := by
  have run : readFrames codec space budget rounds source = parts.map Prod.snd ++ ends := by
    have goes : Goes source ((parts.map Prod.fst).flatten ++ last) := ⟨holds, steady⟩
    clear holds steady
    induction parts generalizing source rounds with
    | nil =>
      obtain ⟨more, rfl⟩ := Nat.exists_eq_add_of_le' enough
      exact ending.read goes more
    | cons part parts ih =>
      obtain ⟨more, rfl⟩ : ∃ more, rounds = more + 1 := ⟨rounds - 1, by omega⟩
      rw [List.map_cons, List.flatten_cons, List.append_assoc] at goes
      obtain ⟨goesOn, rest, done, goes⟩ := (whole part List.mem_cons_self).read law allowed goes
      rw [readFrames_next done goesOn, List.map_cons, List.cons_append]
      refine congrArg _ (ih (fun part there => whole part (List.mem_cons_of_mem _ there)) ?_ goes)
      rw [List.length_cons] at enough
      omega
  refine ⟨run, fun message there => ?_⟩
  rw [run, List.mem_append] at there
  rcases there with there | there
  · obtain ⟨part, member, is⟩ := List.mem_map.mp there
    exact ⟨part, member, (whole part member).sent_of is⟩
  · cases ending with
    | _ => simp at there

end Frames

/-! ### A stream of small numbers -/

/-- Numbers below 24, which are a byte each. -/
def smallNumbers : Codec (Fin 24) where
  intoWriter number := ([[UInt8.ofNat number]], none)
  fromReader body :=
    match body with
    | [] => .error "unexpected end of file"
    | byte :: _ => if small : byte.toNat < 24 then .ok (⟨byte.toNat, small⟩, 1) else .error "not a number below 24"

theorem smallNumbers_roundTrips : smallNumbers.RoundTrips := by
  rintro number _ ⟨_, rfl⟩ extra
  have same : (UInt8.ofNat number).toNat = number := by
    rw [UInt8.toNat_ofNat', Nat.mod_eq_of_lt (by omega)]
  have small : (UInt8.ofNat number).toNat < 24 := by
    rw [same]
    exact number.isLt
  simp only [smallNumbers, List.flatten_cons, List.flatten_nil, List.append_nil, List.singleton_append,
    dif_pos small, List.length_singleton]
  simp only [same]

/-- What a stream holds before it is cut: a number, one with a byte too many, and another number. -/
def threeFrames : List (Bytes × Frame (Fin 24)) :=
  [([1, 0, 0, 0, 3], .message 3),
    (header 2 ++ ([5] ++ [9]), .malformed "worker frame has trailing bytes"),
    ([1, 0, 0, 0, 7], .message 7)]

theorem threeFrames_whole : ∀ part ∈ threeFrames, Whole smallNumbers 16 16 part.1 part.2 := by
  simp only [threeFrames, List.forall_mem_cons, List.not_mem_nil, false_implies, implies_true, and_true]
  have encodes : smallNumbers.Encodes 5 [5] := ⟨rfl, rfl⟩
  have more : ([9] : Bytes) ≠ [] := by decide
  have fits : (([5] : Bytes) ++ [9]).length ≤ u32Max := by decide
  have within : (([5] : Bytes) ++ [9]).length ≤ 16 := by decide
  exact ⟨.sent rfl, .padded encodes more fits within, .sent rfl⟩

/-- They come a byte or two at a time, with interruptions, and the stream ends in half a header. -/
theorem threeFrames_survive :
    readFrames smallNumbers (fun _ => 31) 16 5
        ⟨[1, 0, 0, 0, 3, 2, 0, 0, 0, 5, 9, 1, 0, 0, 0, 7, 1, 0],
          [.upTo 0, .upTo 1, .interrupted, .upTo 0, .upTo 0, .interrupted, .upTo 40]⟩ =
      [.message 3, .malformed "worker frame has trailing bytes", .message 7,
        .malformed "worker frame header was truncated", .closed] :=
  have ending : Ending (Fin 24) 16 [1, 0] [.malformed "worker frame header was truncated", .closed] :=
    .cutHeader (by decide) (by decide)
  (frames_survive_splits smallNumbers_roundTrips (Nat.le_refl 16) threeFrames_whole ending
    (fun reason => by simp) rfl (by decide)).1

end Ketchup.Scheduler
