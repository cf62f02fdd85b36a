/-
**The chunks of a history come back.**

A chunk table is sound when reading what it holds gives the chunks its numbers stand for
(`ChunkTable.Sound`), under a set of texts that SHA-256 tells apart. Writing keeps it sound and never
gives a number to another chunk (`ChunkTable.write_ok`), so a chunk list that was written against a
table assembles, against every later one, to the bytes it was made of (`assemble_listed`).
-/

import Ketchup.Persistence.HistoryFormat

namespace Ketchup.Persistence

open Ketchup.Document

/-! ### Chunk numbers -/

theorem numbersOf_flatMap {numbers : List Nat} (fit : ∀ number ∈ numbers, number ≤ u32Max) :
    numbersOf (numbers.flatMap u32Form) = numbers := by
  induction numbers with
  | nil => rfl
  | cons number rest ih =>
    rw [List.flatMap_cons]
    show ofLittleEndian (littleEndian 4 number) :: numbersOf (rest.flatMap u32Form) = _
    rw [ofLittleEndian_littleEndian
      (Nat.lt_of_le_of_lt (fit number (List.mem_cons_self ..)) (by decide)),
      ih fun other member => fit other (List.mem_cons_of_mem _ member)]

theorem length_flatMap_u32Form (numbers : List Nat) :
    (numbers.flatMap u32Form).length = numbers.length * 4 := by
  induction numbers with
  | nil => rfl
  | cons number rest ih =>
    rw [List.flatMap_cons, List.length_append, ih, u32Form, littleEndian_length, List.length_cons]
    omega

theorem reads_chunkNumbers {numbers : List Nat} (within : numbers.length ≤ maxCollectionItems) :
    Reads chunkNumbers (u32Form numbers.length ++ numbers.flatMap u32Form) numbers.length 0
      (numbers.flatMap u32Form) := by
  unfold chunkNumbers
  have list : Reads (take (numbers.length * 4)) (numbers.flatMap u32Form) 0 0
      (numbers.flatMap u32Form) := reads_take_of_length (length_flatMap_u32Form numbers)
  exact (reads_countWithLimit (within.trans (by decide)) within).bind list

/-! ### The table -/

variable [Sha256Sum]

namespace ChunkTable

/-- Reading the table gives the chunks its numbers stand for. An entry is the bytes that were written
and the chunk. -/
structure Sound (document : Bytes) (texts : Set Bytes) (table : ChunkTable)
    (entries : List (Bytes × Bytes)) : Prop where
  bytes : table.bytes = entries.flatMap Prod.fst
  reads : ∀ entry ∈ entries, Reads (readChunk document) entry.1 0 0 entry.2
  texts : ∀ entry ∈ entries, entry.2 ∈ texts
  size : table.numbers.size = entries.length
  named : ∀ (digest : Bytes) (number : Nat), table.numbers[digest]? = some number →
    number ≤ u32Max ∧ ∃ entry, entries[number]? = some entry ∧ Sha256Sum.sum entry.2 = digest

/-- No number changed. -/
def Extends (later earlier : ChunkTable) : Prop :=
  ∀ (digest : Bytes) (number : Nat), earlier.numbers[digest]? = some number → later.numbers[digest]? = some number

omit [Sha256Sum] in
theorem Extends.refl (table : ChunkTable) : table.Extends table := fun _ _ => id

omit [Sha256Sum] in
theorem Extends.trans {third second first : ChunkTable} (two : third.Extends second)
    (one : second.Extends first) : third.Extends first :=
  fun digest number held => two digest number (one digest number held)

variable {document : Bytes} {texts : Set Bytes} {table after : ChunkTable}
  {entries : List (Bytes × Bytes)}

theorem sound_empty : Sound document texts .empty [] where
  bytes := rfl
  reads := nofun
  texts := nofun
  size := Std.ExtTreeMap.size_empty
  named digest number held := by
    rw [show ChunkTable.empty.numbers = ∅ from rfl, Std.ExtTreeMap.getElem?_empty] at held
    cases held

theorem add_ok {content written : Bytes} {number : Nat} (sound : Sound document texts table entries)
    (new : table.numbers[Sha256Sum.sum content]? = none)
    (reads : Reads (readChunk document) written 0 0 content) (inside : content ∈ texts)
    (ok : table.add (Sha256Sum.sum content) written = .ok (after, number)) :
    Sound document texts after (entries ++ [(written, content)]) ∧ after.Extends table ∧
      after.numbers[Sha256Sum.sum content]? = some number := by
  obtain ⟨count, counted, ok⟩ := bind_ok ok
  obtain ⟨rfl, small⟩ := u32Count_ok counted
  cases ok
  have fresh : ∀ (digest : Bytes) (number : Nat), table.numbers[digest]? = some number →
      Sha256Sum.sum content ≠ digest := by
    rintro digest number held rfl
    rw [new] at held
    cases held
  refine ⟨⟨?_, ?_, ?_, ?_, ?_⟩, ?_, ?_⟩
  · rw [List.flatMap_append, ← sound.bytes, List.flatMap_cons, List.flatMap_nil, List.append_nil]
  · intro entry member
    rcases List.mem_append.mp member with old | is_new
    · exact sound.reads entry old
    · rw [List.mem_singleton.mp is_new]
      exact reads
  · intro entry member
    rcases List.mem_append.mp member with old | is_new
    · exact sound.texts entry old
    · rw [List.mem_singleton.mp is_new]
      exact inside
  · have absent : table.numbers.contains (Sha256Sum.sum content) = false := by
      rw [Std.ExtTreeMap.contains_eq_isSome_getElem?, new]
      rfl
    rw [Std.ExtTreeMap.size_insert, absent, List.length_append, ← sound.size]
    rfl
  · intro digest number held
    rw [BTreeMap.getElem?_insert] at held
    split at held
    case isTrue same =>
      cases held
      refine ⟨small, (written, content), ?_, same⟩
      rw [sound.size, List.getElem?_concat_length]
    case isFalse =>
      obtain ⟨fits, entry, place, is⟩ := sound.named digest number held
      exact ⟨fits, entry, by rw [List.getElem?_append_left
        (List.getElem?_eq_some_iff.mp place).1, place], is⟩
  · intro digest number held
    rw [BTreeMap.getElem?_insert, if_neg (fresh digest number held), held]
  · rw [BTreeMap.getElem?_insert, if_pos rfl]

omit [Sha256Sum] in
theorem reads_inlineChunk {content : Bytes} (fits : content.length ≤ u32Max) :
    Reads (readChunk document) (u8Form 0 ++ u32Form content.length ++ content) 0 0 content := by
  unfold readChunk
  exact (reads_u8 0).bind ((reads_u32 fits).append (reads_take content))

omit [Sha256Sum] in
theorem reads_documentChunk {start length : Nat} (one : start ≤ u32Max) (two : length ≤ u32Max)
    (within : start + length ≤ document.length) :
    Reads (readChunk document) (u8Form 1 ++ u32Form start ++ u32Form length) 0 0
      (slice document start length) := by
  unfold readChunk
  exact (reads_u8 1).bind ((reads_u32 one).append ((reads_u32 two).map
    (by rw [ensure, if_pos within]; rfl)))

theorem addDocumentChunk_ok {chunk : Chunk} (sound : Sound document texts table entries)
    (listed : chunk ∈ chunks document) (inside : chunk.content document ∈ texts)
    (ok : table.addDocumentChunk chunk = .ok after) :
    ∃ more, Sound document texts after (entries ++ more) ∧ after.Extends table := by
  unfold addDocumentChunk at ok
  split at ok
  case isTrue =>
    cases ok
    exact ⟨[], by rwa [List.append_nil], .refl table⟩
  case isFalse absent =>
    obtain ⟨start, startCounted, ok⟩ := bind_ok ok
    obtain ⟨rfl, one⟩ := u32Count_ok startCounted
    obtain ⟨length, lengthCounted, ok⟩ := bind_ok ok
    obtain ⟨rfl, two⟩ := u32Count_ok lengthCounted
    obtain ⟨⟨added, number⟩, isAdded, ok⟩ := bind_ok ok
    cases ok
    rw [Std.ExtTreeMap.contains_eq_isSome_getElem?, Bool.not_eq_true,
      Option.isSome_eq_false_iff, Option.isNone_iff_eq_none] at absent
    rw [chunks_sha256 listed] at absent isAdded
    have reads := reads_documentChunk one two (chunks_within listed)
    obtain ⟨later, extends_, _⟩ := add_ok sound absent reads inside isAdded
    exact ⟨_, later, extends_⟩

theorem number_ok {bytes : Bytes} {chunk : Chunk} {number : Nat}
    (sound : Sound document texts table entries) (listed : chunk ∈ chunks bytes)
    (inside : chunk.content bytes ∈ texts) (ok : table.number bytes chunk = .ok (after, number)) :
    ∃ more, Sound document texts after (entries ++ more) ∧ after.Extends table ∧
      after.numbers[chunk.sha256]? = some number := by
  unfold ChunkTable.number at ok
  split at ok
  case h_1 held found =>
    cases ok
    exact ⟨[], by rwa [List.append_nil], .refl table, found⟩
  case h_2 absent =>
    split at ok
    · cases ok
    obtain ⟨length, counted, ok⟩ := bind_ok ok
    obtain ⟨rfl, fits⟩ := u32Count_ok counted
    rw [chunks_sha256 listed] at absent ok ⊢
    obtain ⟨later, extends_, named⟩ := add_ok sound absent (reads_inlineChunk fits) inside ok
    exact ⟨_, later, extends_, named⟩

/-- The numbers of the chunks of bytes. -/
def numbersIn (table : ChunkTable) (bytes : Bytes) : List Nat :=
  (chunks bytes).map fun chunk => table.numbers[chunk.sha256]?.getD 0

/-- Every chunk of the bytes has a number. -/
def Lists (table : ChunkTable) (bytes : Bytes) : Prop :=
  ∀ chunk ∈ chunks bytes, ∃ number, table.numbers[chunk.sha256]? = some number

theorem Lists.later {bytes : Bytes} (lists : table.Lists bytes) (extends_ : after.Extends table) :
    after.Lists bytes := fun chunk member =>
  (lists chunk member).imp fun number held => extends_ _ number held

theorem numbersIn_later {bytes : Bytes} (lists : table.Lists bytes)
    (extends_ : after.Extends table) : after.numbersIn bytes = table.numbersIn bytes := by
  refine List.map_congr_left fun chunk member => ?_
  obtain ⟨number, held⟩ := lists chunk member
  rw [held, extends_ _ number held]

theorem numbersIn_small {bytes : Bytes} (sound : Sound document texts table entries) :
    ∀ number ∈ table.numbersIn bytes, number ≤ u32Max := by
  intro number member
  obtain ⟨chunk, _, rfl⟩ := List.mem_map.mp member
  rcases held : table.numbers[chunk.sha256]? with _ | number
  · exact Nat.zero_le _
  · exact (sound.named _ number held).1

theorem numberAll_ok {bytes : Bytes} {listed : List Chunk} {numbers : List Nat}
    (sound : Sound document texts table entries)
    (inside : ∀ chunk ∈ listed, chunk ∈ chunks bytes ∧ chunk.content bytes ∈ texts)
    (ok : numberAll bytes table listed = .ok (after, numbers)) :
    ∃ more, Sound document texts after (entries ++ more) ∧ after.Extends table ∧
      List.Forall₂ (fun chunk number => after.numbers[chunk.sha256]? = some number) listed numbers := by
  induction listed generalizing table entries numbers with
  | nil =>
    cases ok
    exact ⟨[], by rwa [List.append_nil], .refl _, .nil⟩
  | cons chunk rest ih =>
    obtain ⟨⟨first, number⟩, isFirst, ok⟩ := bind_ok ok
    obtain ⟨⟨second, later⟩, isSecond, ok⟩ := bind_ok ok
    cases ok
    obtain ⟨member, text⟩ := inside chunk (List.mem_cons_self ..)
    obtain ⟨more, soundFirst, extendsFirst, named⟩ := number_ok sound member text isFirst
    obtain ⟨others, soundSecond, extendsSecond, all⟩ :=
      ih soundFirst (fun other member => inside other (List.mem_cons_of_mem _ member)) isSecond
    exact ⟨more ++ others, by rwa [← List.append_assoc], extendsSecond.trans extendsFirst,
      .cons (extendsSecond _ _ named) all⟩

omit [Sha256Sum] in
theorem mem_of_forall₂ {listed : List Chunk} {numbers : List Nat}
    (all : List.Forall₂ (fun chunk number => after.numbers[chunk.sha256]? = some number) listed
      numbers) {chunk : Chunk} (member : chunk ∈ listed) :
    ∃ number, after.numbers[chunk.sha256]? = some number := by
  induction all with
  | nil => cases member
  | cons held _ ih =>
    rcases List.mem_cons.mp member with rfl | later
    · exact ⟨_, held⟩
    · exact ih later

omit [Sha256Sum] in
theorem eq_numbersIn {listed : List Chunk} {numbers : List Nat}
    (all : List.Forall₂ (fun chunk number => after.numbers[chunk.sha256]? = some number) listed
      numbers) : numbers = listed.map fun chunk => after.numbers[chunk.sha256]?.getD 0 := by
  induction all with
  | nil => rfl
  | cons held _ ih => rw [List.map_cons, held, ← ih]; rfl

/-- What `write` puts down of bytes. -/
def listForm (table : ChunkTable) (bytes : Bytes) : Bytes :=
  u64Form bytes.length ++ Sha256Sum.sum bytes ++
    (u32Form (table.numbersIn bytes).length ++ (table.numbersIn bytes).flatMap u32Form)

theorem write_ok {bytes list : Bytes} (sound : Sound document texts table entries)
    (inside : hashedWith bytes ⊆ texts)
    (ok : table.write bytes (Sha256Sum.sum bytes) (chunks bytes) = .ok (after, list)) :
    ∃ more, Sound document texts after (entries ++ more) ∧ after.Extends table ∧
      after.Lists bytes ∧ list = after.listForm bytes ∧ bytes.length ≤ u64Max := by
  obtain ⟨length, lengthIs, ok⟩ := bind_ok ok
  obtain ⟨rfl, fits⟩ := u64Len_ok lengthIs
  obtain ⟨count, counted, ok⟩ := bind_ok ok
  obtain ⟨rfl, _⟩ := u32Count_ok counted
  obtain ⟨⟨later, numbers⟩, numbered, ok⟩ := bind_ok ok
  cases ok
  obtain ⟨more, laterSound, extends_, all⟩ := numberAll_ok sound
    (fun chunk member => ⟨member, inside (Or.inr ⟨chunk, member, rfl⟩)⟩) numbered
  refine ⟨more, laterSound, extends_, ?_, ?_, fits⟩
  · exact fun chunk member => mem_of_forall₂ all member
  · rw [eq_numbersIn all]
    unfold listForm numbersIn
    rw [List.length_map, List.append_assoc]

/-! ### Assembling -/

/-- A number stands for the chunk it was given to. -/
theorem piece_of_number {digest : Bytes} {number : Nat} {content : Bytes}
    (sound : Sound document texts table entries) (distinct : Sha256Sum.Distinguishes texts)
    (held : table.numbers[digest]? = some number) (is : digest = Sha256Sum.sum content)
    (inside : content ∈ texts) : (entries.map Prod.snd)[number]? = some content := by
  obtain ⟨_, entry, place, same⟩ := sound.named digest number held
  have equal : entry.2 = content :=
    distinct (sound.texts entry (List.mem_of_getElem? place)) inside (same.trans is)
  rw [List.getElem?_map, place, Option.map_some, equal]

theorem parts_listed {bytes : Bytes} {listed : List Chunk} {length total : Nat}
    (sound : Sound document texts table entries) (distinct : Sha256Sum.Distinguishes texts)
    (inside : ∀ chunk ∈ listed, chunk ∈ chunks bytes ∧ chunk.content bytes ∈ texts ∧
      ∃ number, table.numbers[chunk.sha256]? = some number)
    (fits : total + (listed.flatMap (Chunk.content bytes)).length ≤ length) :
    HistorySnapshot.parts (entries.map Prod.snd) length total
        (listed.map fun chunk => table.numbers[chunk.sha256]?.getD 0) =
      .ok (total + (listed.flatMap (Chunk.content bytes)).length,
        listed.map (Chunk.content bytes)) := by
  induction listed generalizing total with
  | nil => rfl
  | cons chunk rest ih =>
    obtain ⟨member, text, number, held⟩ := inside chunk (List.mem_cons_self ..)
    have piece := piece_of_number sound distinct held (chunks_sha256 member) text
    rw [List.flatMap_cons, List.length_append] at fits
    have later := ih (fun other member => inside other (List.mem_cons_of_mem _ member))
      (Nat.add_assoc .. ▸ fits)
    rw [List.map_cons, held, Option.getD_some, HistorySnapshot.parts, piece]
    dsimp only
    rw [if_neg (by omega), later]
    show Except.ok _ = Except.ok _
    rw [List.flatMap_cons, List.length_append, List.map_cons, Nat.add_assoc]

/-- **A chunk list assembles** to the bytes it was made of. -/
theorem assemble_listed {bytes : Bytes} (sound : Sound document texts table entries)
    (distinct : Sha256Sum.Distinguishes texts) (inside : hashedWith bytes ⊆ texts)
    (lists : table.Lists bytes) :
    (HistorySnapshot.chunks bytes.length (Sha256Sum.sum bytes)
      ((table.numbersIn bytes).flatMap u32Form)).assemble (entries.map Prod.snd) = .ok bytes := by
  have cover := chunks_cover bytes
  have found : HistorySnapshot.parts (entries.map Prod.snd) bytes.length 0
      (table.numbersIn bytes) = .ok (0 + _, (chunks bytes).map (Chunk.content bytes)) :=
    parts_listed sound distinct
      (fun chunk member => ⟨member, inside (Or.inr ⟨chunk, member, rfl⟩), lists chunk member⟩)
      (by rw [cover, Nat.zero_add])
  rw [cover, Nat.zero_add] at found
  have flat : ((chunks bytes).map (Chunk.content bytes)).flatten = bytes := cover
  rw [HistorySnapshot.assemble, numbersOf_flatMap (numbersIn_small sound)]
  rw [found]
  show (if bytes.length ≠ bytes.length then _ else _) = _
  rw [if_neg (not_not_intro rfl), flat]
  exact if_pos rfl

end ChunkTable

end Ketchup.Persistence
