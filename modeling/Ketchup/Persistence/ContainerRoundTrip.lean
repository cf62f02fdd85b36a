/-
**What a container was written of comes back**, and exactly when it does.

A file keeps the entries `keptEntries` lists. Each is read back by itself
(`readContainerEntry_within`), so a container that is written is read to the entries it was written of
exactly when their names are within what one reader counts (`containerEntries_encodeContainer`), and
what is kept beside the document is made of them again (`foldlM_loadSideEntry`).

An extension is accepted under rules of its own, and written under those of container paths. They
differ: `ExtensionEntry.Storable` says by what (`containerPath_accepted`).
-/

import Ketchup.Persistence.Container

set_option linter.unusedSectionVars false

namespace Ketchup.Persistence

open Ketchup.Document

/-! ### Paths -/

theorem size_pos {text : String} (some_ : text ≠ "") : text.utf8ByteSize ≠ 0 := fun zero =>
  some_ (String.utf8ByteSize_eq_zero_iff.mp zero)

theorem validateRelativePath_ok_iff {path : String} :
    validateRelativePath path = .ok () ↔
      path ≠ "" ∧ path.utf8ByteSize ≤ maxContainerPathBytes ∧ '\\' ∉ path.toList ∧
        '\x00' ∉ path.toList ∧ path.toList.head? ≠ some '/' ∧
        (components '/' path).all isComponent = true := by
  unfold validateRelativePath
  split
  case isTrue wrong =>
    refine ⟨nofun, fun right => ?_⟩
    obtain ⟨some_, short, slashless, nulless, relative, parts⟩ := right
    rcases wrong with is | is | is | is | is | is
    · exact absurd is some_
    · exact absurd is (Nat.not_lt.mpr short)
    · exact absurd is slashless
    · exact absurd is nulless
    · exact absurd is relative
    · exact absurd parts is
  case isFalse right =>
    simp only [not_or, Nat.not_lt, Decidable.not_not] at right
    exact ⟨fun _ => right, fun _ => rfl⟩

theorem validateContainerPath_ok_iff {path : String} :
    validateContainerPath path = .ok () ↔ validateRelativePath path = .ok () ∧ ':' ∉ path.toList := by
  unfold validateContainerPath
  cases validateRelativePath path with
  | error => exact ⟨nofun, fun both => nomatch both.1⟩
  | ok value =>
    show (if _ then _ else _) = _ ↔ _
    split
    case isTrue held => exact ⟨nofun, fun both => absurd held both.2⟩
    case isFalse absent => exact ⟨fun _ => ⟨rfl, absent⟩, fun _ => rfl⟩

theorem validateNamespace_ok {nameSpace : String} (ok : validateNamespace nameSpace = .ok ()) :
    nameSpace ≠ "" ∧ ∀ mark ∈ nameSpace.toList, isNamespaceMark mark = true := by
  unfold validateNamespace at ok
  split at ok
  case isTrue => cases ok
  case isFalse right =>
    simp only [not_or, Decidable.not_not, List.all_eq_true] at right
    exact ⟨right.1, right.2.2⟩

namespace ExtensionEntry

/-- What a container's paths ask beyond what an extension's own do. -/
structure Storable (entry : ExtensionEntry) : Prop where
  not_here : entry.nameSpace ≠ "."
  not_above : entry.nameSpace ≠ ".."
  no_colon : ':' ∉ entry.path.toList
  short : 12 + entry.nameSpace.utf8ByteSize + entry.path.utf8ByteSize ≤ maxContainerPathBytes

variable {entry : ExtensionEntry}

theorem not_in_nameSpace {mark : Char} (other : isNamespaceMark mark = false) :
    mark ∉ entry.nameSpace.toList := fun member => by
  have is := (validateNamespace_ok entry.named).2 mark member
  rw [other] at is
  cases is

theorem containerPath_joined :
    entry.containerPath = "extensions" ++ String.singleton '/' ++
      (entry.nameSpace ++ String.singleton '/' ++ entry.path) := by
  have start : "extensions/" = "extensions" ++ String.singleton '/' := by decide
  have slash : "/" = String.singleton '/' := rfl
  rw [containerPath, start, slash]
  simp only [String.append_assoc]

theorem containerPath_size :
    entry.containerPath.utf8ByteSize =
      12 + entry.nameSpace.utf8ByteSize + entry.path.utf8ByteSize := by
  have start : "extensions/".utf8ByteSize = 11 := by decide
  have slash : "/".utf8ByteSize = 1 := by decide
  simp only [containerPath, String.utf8ByteSize_append, start, slash]
  omega

theorem components_containerPath :
    components '/' entry.containerPath =
      "extensions" :: entry.nameSpace :: components '/' entry.path := by
  rw [containerPath_joined, components_join (by decide),
    components_join (not_in_nameSpace (by decide))]

theorem mem_containerPath {mark : Char} (other : isNamespaceMark mark = false)
    (apart : mark ∉ "extensions/".toList) :
    mark ∈ entry.containerPath.toList ↔ mark ∈ entry.path.toList := by
  have outside : mark ∉ entry.nameSpace.toList := not_in_nameSpace other
  have slash : mark ∉ "/".toList := fun member =>
    apart (by rw [List.mem_singleton.mp member]; decide)
  simp only [containerPath, String.toList_append, List.mem_append, apart, outside, slash, false_or]

/-- **An accepted extension is written** exactly when a container's paths allow its. -/
theorem containerPath_accepted :
    validateContainerPath entry.containerPath = .ok () ↔ entry.Storable := by
  obtain ⟨some_, _, slashless, nulless, _, parts⟩ := validateRelativePath_ok_iff.mp entry.placed
  have spaceSome := (validateNamespace_ok entry.named).1
  have here : isComponent "extensions" = true := by decide
  rw [validateContainerPath_ok_iff, validateRelativePath_ok_iff, containerPath_size,
    components_containerPath, mem_containerPath (by decide) (by decide),
    mem_containerPath (by decide) (by decide), mem_containerPath (by decide) (by decide),
    List.all_cons, List.all_cons, here, parts, Bool.true_and, Bool.and_true]
  constructor
  · rintro ⟨⟨_, short, _, _, _, component⟩, colonless⟩
    simp only [isComponent, Bool.and_eq_true, bne_iff_ne] at component
    exact ⟨component.1.2, component.2, colonless, short⟩
  · intro storable
    have component : isComponent entry.nameSpace = true := by
      simp only [isComponent, Bool.and_eq_true, bne_iff_ne]
      exact ⟨⟨spaceSome, storable.not_here⟩, storable.not_above⟩
    have filled : entry.containerPath ≠ "" := fun empty => by
      have size : entry.containerPath.utf8ByteSize =
          12 + entry.nameSpace.utf8ByteSize + entry.path.utf8ByteSize := containerPath_size
      rw [empty] at size
      have zero : "".utf8ByteSize = 0 := by decide
      omega
    have relative : entry.containerPath.toList.head? ≠ some '/' := by
      rw [containerPath, String.append_assoc, String.append_assoc, String.toList_append]
      exact show some 'e' ≠ some '/' by decide
    exact ⟨⟨filled, storable.short, slashless, nulless, relative, component⟩, storable.no_colon⟩

end ExtensionEntry

/-- The first character of a path says which kind of entry it is. -/
theorem head_containerPath (entry : ExtensionEntry) : entry.containerPath.toList.head? = some 'e' := by
  rw [ExtensionEntry.containerPath, String.append_assoc, String.append_assoc, String.toList_append]
  rfl

theorem head_blobPath (hash : String) : ("blobs/" ++ hash).toList.head? = some 'b' := by
  rw [String.toList_append]
  rfl

theorem containerPath_ne {entry : ExtensionEntry} {path : String}
    (other : path.toList.head? ≠ some 'e') : path ≠ entry.containerPath := fun same =>
  other (by rw [same, head_containerPath])

theorem blobPath_ne {hash path : String} (other : path.toList.head? ≠ some 'b') :
    path ≠ "blobs/" ++ hash := fun same => other (by rw [same, head_blobPath])

theorem blobPath_injective {hash other : String} (same : "blobs/" ++ hash = "blobs/" ++ other) :
    hash = other := by
  have stripped := stripPrefix_append "blobs/" hash
  rw [same, stripPrefix_append] at stripped
  exact (Option.some.inj stripped).symm

/-- An extension's namespace and path come back from the path it is held under. -/
theorem splitOnce_containerPath (entry : ExtensionEntry) :
    ∃ rest, stripPrefix "extensions/" entry.containerPath = some rest ∧
      splitOnce '/' rest = some (entry.nameSpace, entry.path) := by
  have joined : entry.containerPath =
      "extensions/" ++ (entry.nameSpace ++ String.singleton '/' ++ entry.path) := by
    refine String.toList_injective ?_
    simp only [ExtensionEntry.containerPath, String.toList_append, String.toList_singleton,
      List.append_assoc]
    rfl
  refine ⟨entry.nameSpace ++ String.singleton '/' ++ entry.path, ?_, ?_⟩
  · rw [joined, stripPrefix_append]
  · exact splitOnce_join (ExtensionEntry.not_in_nameSpace (by decide))

theorem containerPath_injective {entry other : ExtensionEntry}
    (same : entry.containerPath = other.containerPath) : entry.key = other.key := by
  obtain ⟨rest, strips, splits⟩ := splitOnce_containerPath entry
  obtain ⟨rest', strips', splits'⟩ := splitOnce_containerPath other
  rw [same, strips'] at strips
  rw [Option.some.inj strips, splits] at splits'
  have both := Option.some.inj splits'
  exact congrArg₂ ExtensionKey.mk (congrArg Prod.fst both) (congrArg Prod.snd both)

/-- The checksum and the content, after the length that was stored for it. -/
theorem reads_stored {α : Type} (next : Bytes → Bytes → α) {checksum : Bytes}
    (sized : checksum.length = 32) (content : Bytes) :
    Reads (do
      ensureStored content.length
      let checksum ← take 32
      let content ← take content.length
      return next checksum content) (checksum ++ content) 0 0 (next checksum content) := by
  have takes : Reads (do
      let checksum ← take 32
      let content ← take content.length
      return next checksum content) (checksum ++ content) 0 0 (next checksum content) :=
    (reads_take_of_length sized).append_free ((reads_take content).map rfl)
  intro reader rest ahead
  have room := ahead.cursor_add_le
  rw [List.length_append, sized] at room
  have stored : ensureStored content.length reader = .ok ((), reader) := by
    unfold ensureStored
    rw [if_neg (by omega)]
  show (ensureStored content.length reader).bind _ = _
  rw [stored]
  exact takes reader rest ahead

section Sums

variable [Sha256Sum]

/-- The path of a blob is one of a container. -/
theorem blobPath_accepted (bytes : Bytes) :
    validateContainerPath ("blobs/" ++ Sha256.hex bytes) = .ok () := by
  have joined : "blobs/" ++ Sha256.hex bytes =
      "blobs" ++ String.singleton '/' ++ Sha256.hex bytes := by
    refine String.toList_injective ?_
    simp only [String.toList_append, String.toList_singleton, List.append_assoc]
    rfl
  have size : ("blobs/" ++ Sha256.hex bytes).utf8ByteSize = 70 := by
    rw [String.utf8ByteSize_append, hash_size]
    decide
  have apart : ∀ mark, isHexDigit mark = false → mark ∉ "blobs/".toList →
      mark ∉ ("blobs/" ++ Sha256.hex bytes).toList := by
    intro mark other start
    rw [String.toList_append, List.mem_append, not_or]
    exact ⟨start, not_in_hash other⟩
  have component : isComponent (Sha256.hex bytes) = true := by
    simp only [isComponent, Bool.and_eq_true, bne_iff_ne]
    refine ⟨⟨?_, ?_⟩, ?_⟩ <;> intro same <;> have is := hash_size bytes <;> rw [same] at is <;>
      exact absurd is (by decide)
  refine validateContainerPath_ok_iff.mpr ⟨validateRelativePath_ok_iff.mpr ⟨?_, ?_,
    apart _ (by decide) (by decide), apart _ (by decide) (by decide), ?_, ?_⟩,
    apart _ (by decide) (by decide)⟩
  · intro empty
    rw [empty] at size
    exact absurd size (by decide)
  · rw [size]
    decide
  · rw [String.toList_append]
    exact show some 'b' ≠ some '/' by decide
  · rw [joined, components_join (by decide), components_whole (not_in_hash (by decide)),
      List.all_cons, List.all_cons, component]
    decide

/-! ### One entry -/

/-- What an entry is put down as. -/
def writtenEntry (entry : Entry) : Bytes :=
  u32Form entry.1.utf8ByteSize ++ utf8 entry.1 ++ boolForm entry.2.1 ++
    u64Form entry.2.2.length ++ Sha256Sum.sum entry.2.2 ++ entry.2.2

theorem entryForm_ok {entry : Entry} {form : Bytes} (ok : entryForm entry = .ok form) :
    validateContainerPath entry.1 = .ok () := by
  obtain ⟨_, valid, _⟩ := bind_ok ok
  exact valid

/-- An entry is written where its path is one of a container. -/
theorem entryForm_written {entry : Entry} (fits : entry.2.2.length ≤ u64Max)
    (valid : validateContainerPath entry.1 = .ok ()) : entryForm entry = .ok (writtenEntry entry) := by
  obtain ⟨path, required, bytes⟩ := entry
  have short := (validateRelativePath_ok_iff.mp (validateContainerPath_ok_iff.mp valid).1).2.1
  have count : u32Count path.utf8ByteSize = .ok path.utf8ByteSize :=
    if_pos (short.trans (by decide))
  have length : u64Len bytes.length = .ok bytes.length := if_pos fits
  unfold entryForm pushString writtenEntry
  dsimp only
  rw [show validateContainerPath path = .ok () from valid, count, length]
  simp only [List.append_assoc]
  rfl

/-- How an entry is read. -/
def directoryEntry (entry : Entry) : ContainerEntry :=
  ⟨entry.1, entry.2.1, Sha256Sum.sum entry.2.2, entry.2.2⟩

/-- **An entry that was written is read**, its name counted. -/
theorem readContainerEntry_within {entry : Entry} (fits : entry.2.2.length ≤ u64Max)
    (valid : validateContainerPath entry.1 = .ok ()) :
    ReadsWithin readContainerEntry (writtenEntry entry) entry.1.utf8ByteSize entry.1.utf8ByteSize
      (directoryEntry entry) := by
  have size := (validateRelativePath_ok_iff.mp (validateContainerPath_ok_iff.mp valid).1).2.1
  have short : entry.1.utf8ByteSize ≤ u32Max := size.trans (by decide)
  have stored := reads_stored
    (fun checksum content => (⟨entry.1, entry.2.1, checksum, content⟩ : ContainerEntry))
    (Sha256Sum.sum_length entry.2.2) entry.2.2
  unfold readContainerEntry writtenEntry
  exact (string_within short).bind ((reads_liftResult valid).after
    ((reads_boolean entry.2.1).append_free ((reads_u64 fits).append_free stored))).within

/-! ### A whole container -/

def nameBytes (entries : List Entry) : Nat := (entries.map fun entry => entry.1.utf8ByteSize).sum

/-- What the reader counts: the entries, and the bytes of their names. -/
def countedItems (entries : List Entry) : Nat := entries.length + nameBytes entries

/-- What a container has to hold to be written. -/
structure Writable (entries : Entries) : Prop where
  few : entries.size ≤ maxContainerEntries
  fits : ∀ entry ∈ entries.toList, entry.2.2.length ≤ u64Max
  paths : ∀ entry ∈ entries.toList, validateContainerPath entry.1 = .ok ()

theorem encodeContainer_ok {entries : Entries} {file : Bytes} (ok : encodeContainer entries = .ok file)
    (entry : Entry) (member : entry ∈ entries.toList) : validateContainerPath entry.1 = .ok () := by
  unfold encodeContainer at ok
  split at ok
  · cases ok
  · obtain ⟨count, _, ok⟩ := bind_ok ok
    obtain ⟨forms, written, _⟩ := bind_ok ok
    obtain ⟨form, isForm⟩ := each_ok_of_mapM written member
    exact entryForm_ok isForm

/-- **A container is written, and its directory read back** as far as there is room. -/
theorem encodeContainer_written {entries : Entries} (writable : Writable entries) :
    ∃ file, encodeContainer entries = .ok file ∧
      ReadsWithin readContainerDirectory file (countedItems entries.toList)
        (nameBytes entries.toList) (entries.toList.map directoryEntry) := by
  have short : entries.size ≤ u32Max := writable.few.trans (by decide)
  have count : u32Count entries.size = .ok entries.size := if_pos short
  have forms : entries.toList.mapM entryForm = .ok (entries.toList.map writtenEntry) :=
    mapM_ok_of_each fun entry member =>
      entryForm_written (writable.fits entry member) (writable.paths entry member)
  have each : ReadsWithin (parseEach readContainerEntry entries.toList.length)
      (entries.toList.flatMap writtenEntry) (nameBytes entries.toList) (nameBytes entries.toList)
      (entries.toList.map directoryEntry) :=
    parseEach_within fun entry member =>
      readContainerEntry_within (writable.fits entry member) (writable.paths entry member)
  rw [Std.ExtTreeMap.length_toList] at each
  let schema := if entries.toList.any fun entry =>
      decide (entryLimitOf020 < entry.2.2.length)
    then largeContainerSchema else containerSchema
  have known : schema = containerSchema ∨ schema = largeContainerSchema := by
    by_cases large : entries.toList.any fun entry =>
      decide (entryLimitOf020 < entry.2.2.length)
    · exact Or.inr (if_pos large)
    · exact Or.inl (if_neg large)
  have narrow : schema < 2 ^ 16 := by
    rcases known with is | is <;> rw [is] <;> decide
  refine ⟨containerMagic ++ u16Form schema ++ u32Form entries.size ++
    (entries.toList.map writtenEntry).flatten, ?_, ?_⟩
  · unfold encodeContainer
    rw [if_neg (Nat.not_lt.mpr writable.few)]
    dsimp only
    rw [count, forms]
    rfl
  · unfold readContainerDirectory countedItems
    rw [← List.flatMap_def, Std.ExtTreeMap.length_toList]
    have body := (countWithLimit_within short writable.few).append each
    exact (reads_take containerMagic).within.bind ((reads_ensure rfl).within.append
      ((reads_u16 narrow).within.append ((reads_ensure known).within.append body)))

/-- The entries of a directory, put under their paths. -/
theorem foldlM_insertDirectoryEntry (entries : Entries) :
    (entries.toList.map directoryEntry).foldlM insertDirectoryEntry ∅ = .ok entries := by
  have steps : ∀ held : Entries, ∀ next ∈ entries.toList.map directoryEntry,
      held[next.path]? = none →
      insertDirectoryEntry held next = .ok (held.insert next.path (next.required, next.content)) := by
    intro held next member absent
    obtain ⟨entry, _, rfl⟩ := List.mem_map.mp member
    have fresh : (directoryEntry entry).path ∉ held := by
      rw [Std.ExtTreeMap.mem_iff_isSome_getElem?, absent]
      exact Bool.false_ne_true
    have checked : Sha256Sum.sum (directoryEntry entry).content = (directoryEntry entry).checksum :=
      rfl
    unfold insertDirectoryEntry
    rw [if_neg (not_not_intro checked), if_neg fresh]
  have distinct : ((entries.toList.map directoryEntry).map ContainerEntry.path).Nodup := by
    rw [List.map_map]
    exact BTreeMap.nodup_keys_toList
  let entry := fun next : ContainerEntry => (next.path, next.required, next.content)
  have fresh : ∀ next ∈ entries.toList.map directoryEntry, (∅ : Entries)[(entry next).1]? = none :=
    fun next _ => Std.ExtTreeMap.getElem?_empty
  have held := BTreeMap.toList_foldl_insert_fresh entry distinct fresh
  have whole : (entries.toList.map directoryEntry).map entry = entries.toList := by
    rw [List.map_map]
    exact List.map_id _
  rw [whole, BTreeMap.toList_empty, List.append_nil] at held
  rw [BTreeMap.foldlM_insert_fresh entry steps distinct fresh, Std.ExtTreeMap.ext_toList held]

/-- **A container is read to the entries it was written of** exactly when one reader counts their
names. -/
theorem containerEntries_encodeContainer {entries : Entries} (writable : Writable entries) :
    ∃ file, encodeContainer entries = .ok file ∧
      (countedItems entries.toList ≤ maxCollectionItems → containerEntries file = .ok entries) ∧
      (maxCollectionItems < countedItems entries.toList →
        ∃ error, containerEntries file = .error error) := by
  obtain ⟨file, written, within⟩ := encodeContainer_written writable
  refine ⟨file, written, fun room => ?_, fun full => ?_⟩
  · have strings : nameBytes entries.toList ≤ maxStringBytes :=
      (Nat.le_add_left _ _).trans (room.trans (by decide))
    obtain ⟨after, isRead, finished⟩ := within.reads.run_to_end room strings
    have directory : containerDirectory file = .ok (entries.toList.map directoryEntry) := by
      unfold containerDirectory Reader.new
      rw [isRead]
      exact if_pos finished
    unfold containerEntries
    rw [directory]
    exact foldlM_insertDirectoryEntry entries
  · have none_left : ¬(countedItems entries.toList ≤ maxCollectionItems ∧
        nameBytes entries.toList ≤ maxStringBytes) := fun both =>
      absurd both.1 (Nat.not_le.mpr full)
    obtain ⟨error, refused⟩ := within.run_refused none_left
    refine ⟨error, ?_⟩
    unfold containerEntries containerDirectory Reader.new
    rw [refused]
    rfl

/-! ### The entries of a file -/

/-- The entry of a blob. -/
def blobEntry (blob : String × Bytes) : Entry := ("blobs/" ++ blob.1, false, blob.2)

/-- The entry of an extension. -/
def extensionEntry (extension : ExtensionKey × ExtensionEntry) : Entry :=
  (extension.2.containerPath, extension.2.required, extension.2.bytes)

/-- The entries a file is to keep. -/
def keptEntries (documentBin : Bytes) (data : ContainerData) (importedSources : BTreeSet String)
    (revisionHistory program : Option Bytes) : List Entry :=
  (program.toList.map fun program => (programEntry, true, program)) ++
    ((revisionHistory.toList.map fun history => (historyEntry, true, history)) ++
      ((documentEntry, true, documentBin) ::
        (data.extensions.toList.map extensionEntry ++
          (data.blobs.toList.filter fun blob => keepsBlob data importedSources blob.1).map
            blobEntry)))

theorem ContainerData.extension_key {data : ContainerData} {extension : ExtensionKey × ExtensionEntry}
    (member : extension ∈ data.extensions.toList) : extension.1 = extension.2.key :=
  data.keyed _ _ (Std.ExtTreeMap.mem_toList_iff_getElem?_eq_some.mp member)

/-- A path held by no entry of a list is new to a map of those entries. -/
theorem fresh_of_perm {entries : Entries} {list : List Entry} (held : entries.toList.Perm list)
    {path : String} (absent : ∀ entry ∈ list, path ≠ entry.1) : entries[path]? = none := by
  cases found : entries[path]? with
  | none => rfl
  | some value =>
    have listed := Std.ExtTreeMap.mem_toList_iff_getElem?_eq_some.mpr found
    exact absurd rfl (absent _ (held.mem_iff.mp listed))

section Saved

variable {data : ContainerData} {importedSources : BTreeSet String} {documentBin : Bytes}
  {revisionHistory program : Option Bytes}

/-- The blobs a save keeps, put under their paths. -/
theorem blobEntries_kept :
    (data.blobs.toList.foldl (insertBlobEntry data importedSources) ∅).toList.Perm
      ((data.blobs.toList.filter fun blob => keepsBlob data importedSources blob.1).map blobEntry) := by
  let kept := data.blobs.toList.filter fun blob => keepsBlob data importedSources blob.1
  have one_by_one : data.blobs.toList.foldl (insertBlobEntry data importedSources) ∅ =
      kept.foldl (fun entries blob => entries.insert (blobEntry blob).1 (blobEntry blob).2) ∅ :=
    List.foldl_filter.symm
  have distinct : (kept.map fun blob => (blobEntry blob).1).Nodup := by
    have keys : (kept.map Prod.fst).Nodup :=
      (List.filter_sublist.map Prod.fst).nodup BTreeMap.nodup_keys_toList
    have paths := keys.map fun hash other same => blobPath_injective same
    rwa [List.map_map] at paths
  have fresh : ∀ blob ∈ kept, (∅ : Entries)[(blobEntry blob).1]? = none :=
    fun blob _ => Std.ExtTreeMap.getElem?_empty
  have held := BTreeMap.toList_foldl_insert_fresh blobEntry distinct fresh
  rwa [BTreeMap.toList_empty, List.append_nil, ← one_by_one] at held

/-- The blobs and extensions of a file. -/
theorem sideEntries_kept (known : ∀ hash ∈ importedSources, hash ∈ data.blobs) :
    ∃ entries, sideEntries data importedSources = .ok entries ∧
      entries.toList.Perm (data.extensions.toList.map extensionEntry ++
        (data.blobs.toList.filter fun blob => keepsBlob data importedSources blob.1).map
          blobEntry) := by
  have none_missing : ¬(importedSources.toList.any fun hash => !data.blobs.contains hash) = true := by
    rw [List.any_eq_true]
    rintro ⟨hash, listed, missing⟩
    have there := known hash (Std.ExtTreeSet.mem_toList.mp listed)
    rw [Std.ExtTreeMap.mem_iff_contains] at there
    rw [there] at missing
    cases missing
  have distinct : (data.extensions.toList.map fun next => (extensionEntry next).1).Nodup := by
    rw [List.nodup_iff_pairwise_ne, List.pairwise_map]
    have keys := data.extensions.distinct_keys_toList
    refine keys.imp_of_mem fun {first second} one two different same => different ?_
    rw [ContainerData.extension_key one, ContainerData.extension_key two]
    exact Std.LawfulEqCmp.compare_eq_iff_eq.mpr (containerPath_injective same)
  have fresh : ∀ next ∈ data.extensions.toList,
      (data.blobs.toList.foldl (insertBlobEntry data importedSources) ∅)[(extensionEntry next).1]? =
        none := by
    intro next _
    refine fresh_of_perm blobEntries_kept fun entry member => ?_
    obtain ⟨blob, _, rfl⟩ := List.mem_map.mp member
    refine blobPath_ne ?_
    rw [show (extensionEntry next).1 = next.2.containerPath from rfl, head_containerPath]
    decide
  have steps : ∀ held, ∀ next ∈ data.extensions.toList, held[(extensionEntry next).1]? = none →
      insertExtensionEntry held next =
        .ok (held.insert (extensionEntry next).1 (extensionEntry next).2) := by
    intro held next _ absent
    have free : next.2.containerPath ∉ held := by
      rw [Std.ExtTreeMap.mem_iff_isSome_getElem?]
      rw [show held[next.2.containerPath]? = none from absent]
      exact Bool.false_ne_true
    unfold insertExtensionEntry
    exact if_neg free
  have held := BTreeMap.toList_foldl_insert_fresh extensionEntry distinct fresh
  refine ⟨_, ?_, held.trans (blobEntries_kept.append_left _)⟩
  unfold sideEntries
  rw [if_neg none_missing]
  exact BTreeMap.foldlM_insert_fresh extensionEntry steps distinct fresh

/-- A name that is neither an extension's path nor a blob's. -/
theorem ne_side_path (path : String) (extension : path.toList.head? ≠ some 'e')
    (blob : path.toList.head? ≠ some 'b') :
    ∀ entry ∈ data.extensions.toList.map extensionEntry ++
      (data.blobs.toList.filter fun blob => keepsBlob data importedSources blob.1).map blobEntry,
      path ≠ entry.1 := by
  intro entry member
  rcases List.mem_append.mp member with member | member
  · obtain ⟨next, _, rfl⟩ := List.mem_map.mp member
    exact containerPath_ne extension
  · obtain ⟨next, _, rfl⟩ := List.mem_map.mp member
    exact blobPath_ne blob

theorem withEntry_kept {entries : Entries} {list : List Entry} (path : String)
    (held : entries.toList.Perm list) (absent : ∀ entry ∈ list, path ≠ entry.1)
    (content : Option Bytes) :
    (withEntry entries path content).toList.Perm
      ((content.toList.map fun content => (path, true, content)) ++ list) := by
  cases content with
  | none => exact held
  | some content => exact (BTreeMap.toList_insert_fresh (fresh_of_perm held absent)).trans (held.cons _)

/-- **A file keeps the entries it is to keep.** -/
theorem savedEntries_kept (known : ∀ hash ∈ importedSources, hash ∈ data.blobs) :
    ∃ entries, savedEntries documentBin data importedSources revisionHistory program = .ok entries ∧
      entries.toList.Perm
        (keptEntries documentBin data importedSources revisionHistory program) := by
  obtain ⟨side, isSide, held⟩ := sideEntries_kept known
  have document := withEntry_kept documentEntry held
    (ne_side_path documentEntry (by decide) (by decide)) (some documentBin)
  have history := withEntry_kept historyEntry document (fun entry member => by
    rcases List.mem_append.mp member with member | member
    · rw [List.mem_singleton.mp member]
      exact show historyEntry ≠ documentEntry by decide
    · exact ne_side_path historyEntry (by decide) (by decide) entry member) revisionHistory
  have whole := withEntry_kept programEntry history (fun entry member => by
    rcases List.mem_append.mp member with member | member
    · obtain ⟨content, _, rfl⟩ := List.mem_map.mp member
      exact show programEntry ≠ historyEntry by decide
    · rcases List.mem_append.mp member with member | member
      · rw [List.mem_singleton.mp member]
        exact show programEntry ≠ documentEntry by decide
      · exact ne_side_path programEntry (by decide) (by decide) entry member) program
  unfold savedEntries
  rw [isSide]
  exact ⟨_, rfl, whole⟩

end Saved

/-! ### What is kept beside the document -/

/-- An entry that is put among what is kept beside the document. -/
inductive Loadable (data : ContainerData) : Entry → Prop
  | blob (content : Bytes) (fresh : Sha256.hex content ∉ data.blobs) :
    Loadable data (blobEntry (Sha256.hex content, content))
  | extension (entry : ExtensionEntry) (fresh : entry.key ∉ data.extensions) :
    Loadable data (extensionEntry (entry.key, entry))

/-- What is kept once those entries are put there. -/
structure Loaded (before : ContainerData) (entries : List Entry) (after : ContainerData) : Prop where
  imported : after.importedSourceBlobs = before.importedSourceBlobs
  blobs : ∀ hash content, after.blobs[hash]? = some content ↔
    before.blobs[hash]? = some content ∨
      Sha256.hex content = hash ∧ blobEntry (hash, content) ∈ entries
  extensions : ∀ key entry, after.extensions[key]? = some entry ↔
    before.extensions[key]? = some entry ∨ entry.key = key ∧ extensionEntry (key, entry) ∈ entries

theorem stripPrefix_blobs_containerPath (entry : ExtensionEntry) :
    stripPrefix "blobs/" entry.containerPath = none := by
  cases found : stripPrefix "blobs/" entry.containerPath with
  | none => rfl
  | some rest =>
    have head := head_containerPath entry
    rw [stripPrefix_eq_some found, head_blobPath] at head
    exact absurd head (by decide)

theorem loadSideEntry_blob {data : ContainerData} {content : Bytes}
    (fresh : Sha256.hex content ∉ data.blobs) :
    loadSideEntry data (blobEntry (Sha256.hex content, content)) = .ok (data.putBlob content) := by
  unfold loadSideEntry blobEntry
  dsimp only
  rw [stripPrefix_append]
  dsimp only
  rw [if_neg (by simp [hash_size]), if_neg fresh]

theorem loadSideEntry_extension {data : ContainerData} {entry : ExtensionEntry}
    (fresh : entry.key ∉ data.extensions) :
    loadSideEntry data (extensionEntry (entry.key, entry)) = .ok (data.setExtension entry) := by
  obtain ⟨rest, strips, splits⟩ := splitOnce_containerPath entry
  unfold loadSideEntry extensionEntry
  dsimp only
  rw [stripPrefix_blobs_containerPath, strips]
  dsimp only
  rw [splits]
  dsimp only
  rw [ExtensionEntry.new_self]
  exact if_neg fresh

theorem extensionEntry_ne_blobEntry {extension : ExtensionKey × ExtensionEntry} {blob : String × Bytes} :
    extensionEntry extension ≠ blobEntry blob := fun same => by
  have head := head_containerPath extension.2
  rw [show extension.2.containerPath = "blobs/" ++ blob.1 from congrArg Prod.fst same,
    head_blobPath] at head
  exact absurd head (by decide)

theorem blobEntry_inj {blob other : String × Bytes} (same : blobEntry blob = blobEntry other) :
    blob = other :=
  Prod.ext (blobPath_injective (congrArg Prod.fst same))
    (congrArg (fun entry => entry.2.2) same)

theorem extensionEntry_inj {extension other : ExtensionKey × ExtensionEntry}
    (same : extensionEntry extension = extensionEntry other) : extension.2 = other.2 := by
  obtain ⟨_, nameSpace, path, required, bytes, _, _⟩ := extension
  obtain ⟨_, nameSpace', path', required', bytes', _, _⟩ := other
  have keys := containerPath_injective (congrArg Prod.fst same)
  cases congrArg ExtensionKey.nameSpace keys
  cases congrArg ExtensionKey.path keys
  cases congrArg (fun entry => entry.2.1) same
  cases congrArg (fun entry => entry.2.2) same
  rfl

variable {data : ContainerData} {entries : List Entry}

/-- What is to be loaded still is, once a blob of another hash is there. -/
theorem Loadable.after_blob {entry : Entry} {content : Bytes} (loadable : Loadable data entry)
    (other : entry.1 ≠ "blobs/" ++ Sha256.hex content) : Loadable (data.putBlob content) entry := by
  cases loadable with
  | blob held fresh =>
    refine .blob held fun there => ?_
    rcases Std.ExtTreeMap.mem_insert.mp there with same | there
    · exact other (by rw [Std.LawfulEqCmp.compare_eq_iff_eq.mp same]; rfl)
    · exact fresh there
  | extension held fresh => exact .extension held fresh

/-- What is to be loaded still is, once an extension of another path is there. -/
theorem Loadable.after_extension {entry : Entry} {extension : ExtensionEntry}
    (loadable : Loadable data entry) (other : entry.1 ≠ extension.containerPath) :
    Loadable (data.setExtension extension) entry := by
  cases loadable with
  | blob held fresh => exact .blob held fresh
  | extension held fresh =>
    refine .extension held fun there => ?_
    rcases Std.ExtTreeMap.mem_insert.mp there with same | there
    · have keys := Std.LawfulEqCmp.compare_eq_iff_eq.mp same
      refine other ?_
      show held.containerPath = extension.containerPath
      unfold ExtensionEntry.containerPath
      rw [show held.nameSpace = extension.nameSpace from congrArg ExtensionKey.nameSpace keys.symm,
        show held.path = extension.path from congrArg ExtensionKey.path keys.symm]
    · exact fresh there

theorem Loaded.cons_blob {after : ContainerData} {content : Bytes}
    (fresh : Sha256.hex content ∉ data.blobs)
    (loaded : Loaded (data.putBlob content) entries after) :
    Loaded data (blobEntry (Sha256.hex content, content) :: entries) after where
  imported := loaded.imported
  blobs := by
    intro hash held
    rw [loaded.blobs, List.mem_cons]
    show (data.blobs.insert (Sha256.hex content) content)[hash]? = _ ∨ _ ↔ _
    rw [BTreeMap.getElem?_insert]
    by_cases here : Sha256.hex content = hash
    · have absent : data.blobs[hash]? = none := by
        rw [← here]
        exact Std.ExtTreeMap.getElem?_eq_none fresh
      rw [if_pos here, absent]
      constructor
      · rintro (same | ⟨named, member⟩)
        · rw [← Option.some.inj same]
          exact Or.inr ⟨here, Or.inl (by rw [here])⟩
        · exact Or.inr ⟨named, Or.inr member⟩
      · rintro (none_ | ⟨named, same | member⟩)
        · cases none_
        · exact Or.inl (congrArg some (congrArg Prod.snd (blobEntry_inj same)).symm)
        · exact Or.inr ⟨named, member⟩
    · rw [if_neg here]
      have apart : blobEntry (hash, held) ≠ blobEntry (Sha256.hex content, content) := fun same =>
        here (congrArg Prod.fst (blobEntry_inj same)).symm
      simp only [apart, false_or]
  extensions := by
    intro key entry
    rw [loaded.extensions, List.mem_cons]
    simp only [extensionEntry_ne_blobEntry, false_or]
    rfl

theorem Loaded.cons_extension {after : ContainerData} {extension : ExtensionEntry}
    (fresh : extension.key ∉ data.extensions)
    (loaded : Loaded (data.setExtension extension) entries after) :
    Loaded data (extensionEntry (extension.key, extension) :: entries) after where
  imported := loaded.imported
  blobs := by
    intro hash held
    rw [loaded.blobs, List.mem_cons]
    simp only [extensionEntry_ne_blobEntry.symm, false_or]
    rfl
  extensions := by
    intro key entry
    rw [loaded.extensions, List.mem_cons]
    show (data.extensions.insert extension.key extension)[key]? = _ ∨ _ ↔ _
    rw [BTreeMap.getElem?_insert]
    by_cases here : extension.key = key
    · have absent : data.extensions[key]? = none := by
        rw [← here]
        exact Std.ExtTreeMap.getElem?_eq_none fresh
      rw [if_pos here, absent]
      constructor
      · rintro (same | ⟨named, member⟩)
        · rw [← Option.some.inj same]
          exact Or.inr ⟨here, Or.inl (by rw [here])⟩
        · exact Or.inr ⟨named, Or.inr member⟩
      · rintro (none_ | ⟨named, same | member⟩)
        · cases none_
        · exact Or.inl (congrArg some (extensionEntry_inj same).symm)
        · exact Or.inr ⟨named, member⟩
    · rw [if_neg here]
      constructor
      · rintro (found | ⟨named, member⟩)
        · exact Or.inl found
        · exact Or.inr ⟨named, Or.inr member⟩
      · rintro (found | ⟨named, same | member⟩)
        · exact Or.inl found
        · exact absurd ((congrArg ExtensionEntry.key (extensionEntry_inj same)).symm.trans named) here
        · exact Or.inr ⟨named, member⟩

/-- **The entries beside the document are loaded**, in whatever order they come. -/
theorem foldlM_loadSideEntry (distinct : (entries.map Prod.fst).Nodup)
    (loadable : ∀ entry ∈ entries, Loadable data entry) :
    ∃ after, entries.foldlM loadSideEntry data = .ok after ∧ Loaded data entries after := by
  induction entries generalizing data with
  | nil => exact ⟨data, rfl, rfl, fun _ _ => by simp, fun _ _ => by simp⟩
  | cons entry rest ih =>
    obtain ⟨apart, restDistinct⟩ := List.nodup_cons.mp distinct
    have others : ∀ other ∈ rest, other.1 ≠ entry.1 := fun other member same =>
      apart (List.mem_map.mpr ⟨other, member, same⟩)
    have later := fun other (member : other ∈ rest) => loadable other (List.mem_cons_of_mem _ member)
    rw [List.foldlM_cons]
    cases loadable entry (List.mem_cons_self ..) with
    | blob content fresh =>
      obtain ⟨after, ok, loaded⟩ := ih restDistinct
        fun other member => (later other member).after_blob (others other member)
      rw [loadSideEntry_blob fresh]
      exact ⟨after, ok, loaded.cons_blob fresh⟩
    | extension extension fresh =>
      obtain ⟨after, ok, loaded⟩ := ih restDistinct
        fun other member => (later other member).after_extension (others other member)
      rw [loadSideEntry_extension fresh]
      exact ⟨after, ok, loaded.cons_extension fresh⟩

/-! ### The round trip -/

/-- What a file keeps of what was inserted. -/
def ContainerData.kept (data : ContainerData) (importedSources : BTreeSet String) : ContainerData where
  blobs := data.blobs.filter fun hash _ => keepsBlob data importedSources hash
  importedSourceBlobs := ∅
  extensions := data.extensions
  hashed := fun hash held found => by
    rw [Std.ExtTreeMap.getElem?_filter'] at found
    exact data.hashed hash held (Option.filter_eq_some_iff.mp found).1
  keyed := data.keyed

section RoundTrip

variable {importedSources : BTreeSet String} {documentBin : Bytes}
  {revisionHistory program : Option Bytes}

/-- The entries beside the document are those of the blobs that are kept and of the extensions. -/
theorem mem_keptEntries {entry : Entry} :
    entry ∈ keptEntries documentBin data importedSources revisionHistory program ↔
      (∃ content, program = some content ∧ entry = (programEntry, true, content)) ∨
      (∃ content, revisionHistory = some content ∧ entry = (historyEntry, true, content)) ∨
      entry = (documentEntry, true, documentBin) ∨
      (∃ key extension, data.extensions[key]? = some extension ∧
        entry = extensionEntry (key, extension)) ∨
      ∃ hash content, (data.kept importedSources).blobs[hash]? = some content ∧
        entry = blobEntry (hash, content) := by
  have extension : (∃ key extension, data.extensions[key]? = some extension ∧
      entry = extensionEntry (key, extension)) ↔ entry ∈ data.extensions.toList.map extensionEntry := by
    simp only [List.mem_map, Prod.exists, Std.ExtTreeMap.mem_toList_iff_getElem?_eq_some, eq_comm]
  have blob : (∃ hash content, (data.kept importedSources).blobs[hash]? = some content ∧
      entry = blobEntry (hash, content)) ↔ entry ∈ (data.blobs.toList.filter fun blob =>
        keepsBlob data importedSources blob.1).map blobEntry := by
    rw [← Std.ExtTreeMap.toList_filter (f := fun hash _ => keepsBlob data importedSources hash)]
    simp only [List.mem_map, Prod.exists, Std.ExtTreeMap.mem_toList_iff_getElem?_eq_some, eq_comm]
    rfl
  unfold keptEntries
  rw [extension, blob, List.mem_append, List.mem_append, List.mem_cons, List.mem_append]
  simp only [List.mem_map, Option.mem_toList, eq_comm]

variable {entries : Entries}

/-- What stands at a path of a file. -/
theorem getElem?_kept
    (held : entries.toList.Perm
      (keptEntries documentBin data importedSources revisionHistory program))
    {path : String} {value : Bool × Bytes} :
    entries[path]? = some value ↔
      (path, value) ∈ keptEntries documentBin data importedSources revisionHistory program := by
  rw [← Std.ExtTreeMap.mem_toList_iff_getElem?_eq_some]
  exact held.mem_iff

/-- The entries whose path is no blob's or extension's. -/
theorem mem_keptEntries_named {path : String} {value : Bool × Bytes}
    (extension : path.toList.head? ≠ some 'e') (blob : path.toList.head? ≠ some 'b') :
    (path, value) ∈ keptEntries documentBin data importedSources revisionHistory program ↔
      (path = programEntry ∧ ∃ content, program = some content ∧ value = (true, content)) ∨
      (path = historyEntry ∧ ∃ content, revisionHistory = some content ∧ value = (true, content)) ∨
      (path = documentEntry ∧ value = (true, documentBin)) := by
  have no_extension : ∀ key (entry : ExtensionEntry), (path, value) ≠ extensionEntry (key, entry) :=
    fun key entry same => containerPath_ne extension (congrArg Prod.fst same)
  have no_blob : ∀ hash content, (path, value) ≠ blobEntry (hash, content) :=
    fun hash content same => blobPath_ne blob (congrArg Prod.fst same)
  rw [mem_keptEntries]
  simp only [no_extension, no_blob, and_false, exists_false, or_false, Prod.mk.injEq]
  constructor <;> rintro (⟨content, held, named, same⟩ | ⟨content, held, named, same⟩ | both) <;>
    simp_all

/-- The required entry at a path that is no blob's or extension's. -/
theorem requiredEntry_kept
    (held : entries.toList.Perm
      (keptEntries documentBin data importedSources revisionHistory program))
    {path : String} {content : Option Bytes} {error : PersistenceError}
    (only : ∀ value, (path, value) ∈
      keptEntries documentBin data importedSources revisionHistory program ↔
        ∃ held, content = some held ∧ value = (true, held)) :
    requiredEntry entries path error = .ok content := by
  unfold requiredEntry
  cases found : entries[path]? with
  | none =>
    cases content with
    | none => rfl
    | some content =>
      have there := (getElem?_kept held).mpr ((only (true, content)).mpr ⟨content, rfl, rfl⟩)
      rw [found] at there
      cases there
  | some value =>
    obtain ⟨held, rfl, rfl⟩ := (only value).mp ((getElem?_kept held).mp found)
    rfl

/-- What is loaded of a file's blobs and extensions is what it keeps of them. -/
theorem loaded_kept {side : List Entry} {after : ContainerData}
    (held : ∀ entry, entry ∈ side ↔
      (∃ key extension, data.extensions[key]? = some extension ∧
        entry = extensionEntry (key, extension)) ∨
      ∃ hash content, (data.kept importedSources).blobs[hash]? = some content ∧
        entry = blobEntry (hash, content))
    (loaded : Loaded .empty side after) : after = data.kept importedSources := by
  refine ContainerData.ext_of ?_ loaded.imported ?_
  · refine Std.ExtTreeMap.ext_getElem? fun hash => Option.ext fun content => ?_
    rw [loaded.blobs, held]
    constructor
    · rintro (found | ⟨_, ⟨key, extension, _, same⟩ | ⟨other, others, kept, same⟩⟩)
      · exact absurd found (by simp [ContainerData.empty])
      · exact absurd same.symm extensionEntry_ne_blobEntry
      · cases blobEntry_inj same
        exact kept
    · intro kept
      exact Or.inr ⟨((data.kept importedSources).hashed hash content kept).symm,
        Or.inr ⟨hash, content, kept, rfl⟩⟩
  · refine Std.ExtTreeMap.ext_getElem? fun key => Option.ext fun entry => ?_
    rw [loaded.extensions, held]
    constructor
    · rintro (found | ⟨named, ⟨other, extension, there, same⟩ | ⟨hash, content, _, same⟩⟩)
      · exact absurd found (by simp [ContainerData.empty])
      · have entries_same : entry = extension := extensionEntry_inj same
        have keyed := data.keyed other extension there
        rw [← named, entries_same, ← keyed]
        exact there
      · exact absurd same extensionEntry_ne_blobEntry
    · intro there
      exact Or.inr ⟨(data.keyed key entry there).symm, Or.inl ⟨key, entry, there, rfl⟩⟩

/-- The entries left when the document, its history and its program are taken out. -/
theorem mem_side_kept
    (held : entries.toList.Perm
      (keptEntries documentBin data importedSources revisionHistory program)) (entry : Entry) :
    entry ∈ (((entries.erase documentEntry).erase historyEntry).erase programEntry).toList ↔
      (∃ key extension, data.extensions[key]? = some extension ∧
        entry = extensionEntry (key, extension)) ∨
      ∃ hash content, (data.kept importedSources).blobs[hash]? = some content ∧
        entry = blobEntry (hash, content) := by
  obtain ⟨path, value⟩ := entry
  rw [Std.ExtTreeMap.mem_toList_iff_getElem?_eq_some, BTreeMap.getElem?_erase,
    BTreeMap.getElem?_erase, BTreeMap.getElem?_erase]
  have apart : ∀ other, other.toList.head? ≠ some 'e' → other.toList.head? ≠ some 'b' →
      ((∃ key extension, data.extensions[key]? = some extension ∧
        (path, value) = extensionEntry (key, extension)) ∨
      ∃ hash content, (data.kept importedSources).blobs[hash]? = some content ∧
        (path, value) = blobEntry (hash, content)) → other ≠ path := by
    rintro other extension blob (⟨key, entry, _, same⟩ | ⟨hash, content, _, same⟩) rfl
    · exact containerPath_ne extension (congrArg Prod.fst same)
    · exact blobPath_ne blob (congrArg Prod.fst same)
  constructor
  · intro found
    split at found
    · cases found
    split at found
    · cases found
    split at found
    · cases found
    next program_ne history_ne document_ne =>
    rcases mem_keptEntries.mp ((getElem?_kept held).mp found) with
      ⟨_, _, same⟩ | ⟨_, _, same⟩ | same | side
    · exact absurd (congrArg Prod.fst same).symm program_ne
    · exact absurd (congrArg Prod.fst same).symm history_ne
    · exact absurd (congrArg Prod.fst same).symm document_ne
    · exact side
  · intro side
    rw [if_neg (apart programEntry (by decide) (by decide) side),
      if_neg (apart historyEntry (by decide) (by decide) side),
      if_neg (apart documentEntry (by decide) (by decide) side), getElem?_kept held]
    exact mem_keptEntries.mpr (Or.inr (Or.inr (Or.inr side)))

/-- **The parts of a file come apart again.** -/
theorem containerParts_kept {file : Bytes} (isRead : containerEntries file = .ok entries)
    (held : entries.toList.Perm
      (keptEntries documentBin data importedSources revisionHistory program)) :
    containerParts file =
      .ok ⟨documentBin, revisionHistory, program, data.kept importedSources⟩ := by
  have document : requiredEntry entries documentEntry .documentEntryNotRequired =
      .ok (some documentBin) := by
    refine requiredEntry_kept held fun value => ?_
    rw [mem_keptEntries_named (by decide) (by decide)]
    simp [documentEntry, historyEntry, programEntry]
  have history : requiredEntry entries historyEntry .historyEntryNotRequired =
      .ok revisionHistory := by
    refine requiredEntry_kept held fun value => ?_
    rw [mem_keptEntries_named (by decide) (by decide)]
    simp [documentEntry, historyEntry, programEntry]
  have programmed : requiredEntry entries programEntry .programEntryNotRequired = .ok program := by
    refine requiredEntry_kept held fun value => ?_
    rw [mem_keptEntries_named (by decide) (by decide)]
    simp [documentEntry, historyEntry, programEntry]
  have side := mem_side_kept held
  have loadable : ∀ entry ∈
      (((entries.erase documentEntry).erase historyEntry).erase programEntry).toList,
      Loadable .empty entry := by
    intro entry member
    rcases (side entry).mp member with ⟨key, extension, there, rfl⟩ | ⟨hash, content, kept, rfl⟩
    · rw [data.keyed key extension there]
      exact .extension extension Std.ExtTreeMap.not_mem_empty
    · rw [(data.kept importedSources).hashed hash content kept]
      exact .blob content Std.ExtTreeMap.not_mem_empty
  obtain ⟨after, ok, loaded⟩ := foldlM_loadSideEntry BTreeMap.nodup_keys_toList loadable
  unfold containerParts
  rw [isRead]
  show (requiredEntry entries documentEntry .documentEntryNotRequired).bind _ = _
  rw [document]
  show (requiredEntry entries historyEntry .historyEntryNotRequired).bind _ = _
  rw [history]
  show (requiredEntry entries programEntry .programEntryNotRequired).bind _ = _
  rw [programmed]
  show (List.foldlM loadSideEntry _ _).bind _ = _
  rw [ok, loaded_kept side loaded]
  rfl

/-- **The round trip of a container.** What is saved is read back to the entries it was written of,
and these to the document, its history and its program and to the blobs and extensions it keeps. -/
def RoundTrips (documentBin : Bytes) (data : ContainerData) (importedSources : BTreeSet String)
    (revisionHistory program : Option Bytes) : Prop :=
  ∃ entries file, savedEntries documentBin data importedSources revisionHistory program = .ok entries ∧
    saveContainerEntries documentBin data importedSources revisionHistory program = .ok file ∧
    containerEntries file = .ok entries ∧
    containerParts file = .ok ⟨documentBin, revisionHistory, program, data.kept importedSources⟩

end RoundTrip

end Sums

/-- SHA-256 of the empty text, the only one the next two hash. -/
def emptyTextSum : Bytes :=
  [0xe3, 0xb0, 0xc4, 0x42, 0x98, 0xfc, 0x1c, 0x14, 0x9a, 0xfb, 0xf4, 0xc8, 0x99, 0x6f, 0xb9, 0x24,
    0x27, 0xae, 0x41, 0xe4, 0x64, 0x9b, 0x93, 0x4c, 0xa4, 0x95, 0x99, 0x1b, 0x78, 0x52, 0xb8, 0x55]

@[reducible] def emptyTextSha256 : Sha256Sum where
  hex _ := hexDigits emptyTextSum
  sum _ := emptyTextSum
  sum_length _ := by decide
  hex_eq _ := rfl

end Ketchup.Persistence
