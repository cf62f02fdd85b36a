/-
**Sheet metal of format 100, its flanges and its parameter paths.**

* `getElem?_bendOfFlange` — the bend of a flange is its place among the bends by side.
* `undoes_bendPath` — the path of a flange's parameter, renamed to that of its bend, is found again.
* `overSheetMetal_id`, `overSheetMetal_congr` — what is done to the payloads is what is done to those that
  `sheetMetalKinds` lists.
-/

import Ketchup.Library.Places
import Ketchup.Persistence.TargetRenames

namespace Ketchup.Persistence.OldFormats

open Fields

/-! ### The bends of flanges -/

section Bends

variable {R : Type}

/-- Places written one after another, each at its own number. -/
theorem getElem?_foldl_set {olds : List Nat} (nodup : olds.Nodup) (start : Nat) (found : List Nat) (old : Nat) :
    ((olds.zipIdx start).foldl (fun found place => found.set place.1 place.2) found)[old]? =
      if old ∈ olds then (if old < found.length then some (start + olds.idxOf old) else none) else found[old]? := by
  induction olds generalizing start found with
  | nil => simp
  | cons first olds ih =>
    obtain ⟨fresh, nodup⟩ := List.nodup_cons.mp nodup
    rw [List.zipIdx_cons, List.foldl_cons, ih nodup, List.length_set]
    by_cases same : old = first
    · subst same
      rw [if_neg fresh, if_pos List.mem_cons_self, List.getElem?_set_self', List.idxOf_cons_self]
      by_cases below : old < found.length
      · simp [below]
      · simp [below]
    · rw [List.getElem?_set_ne (Ne.symm same), List.idxOf_cons_ne _ (Ne.symm same)]
      simp only [List.mem_cons, same, false_or]
      split <;> simp [Nat.add_assoc, Nat.add_comm 1]

theorem bends_olds {flanges : List (FlangeV1 R)} {start : Nat} {bends : List (Nat × SheetMetalBend R)}
    (made : (flanges.zipIdx start).mapM (fun flange => flange.1.bend flange.2) = some bends) :
    bends.map Prod.fst = List.range' start flanges.length := by
  rw [mapM_eq_some_iff] at made
  induction flanges generalizing start bends with
  | nil =>
    cases bends with
    | nil => rfl
    | cons bend bends => cases made
  | cons flange flanges ih =>
    cases bends with
    | nil => cases made
    | cons bend bends =>
      rw [List.zipIdx_cons, List.map_cons, List.map_cons, List.cons.injEq] at made
      obtain ⟨is, rest⟩ := made
      have first : bend.1 = start := by
        simp only [FlangeV1.bend, Option.bind_eq_bind, Option.bind_eq_some_iff, Option.some.injEq] at is
        obtain ⟨_, -, _, -, rfl⟩ := is
        rfl
      rw [List.map_cons, ih rest, first, List.length_cons, List.range'_succ]

/-- **The bend of a flange**: no two flanges have the same. -/
theorem findIdx?_bendOfFlange [Zero R] {record : SheetMetalV1 R} {spec : SheetMetalSpec R} {bends : List Nat}
    (made : record.toCurrent = some (spec, bends)) {flange bend : Nat} (is : bends[flange]? = some bend) :
    bends.findIdx? (· = bend) = some flange := by
  simp only [SheetMetalV1.toCurrent, Option.bind_eq_bind, Option.bind_eq_some_iff, Option.some.injEq, Prod.mk.injEq] at made
  obtain ⟨flanges, each, -, rfl⟩ := made
  set ordered := flanges.mergeSort fun one two => one.2.edge ≤ two.2.edge with isOrdered
  have perm : (ordered.map Prod.fst).Perm (List.range' 0 record.flanges.length) := by
    rw [← bends_olds each]
    exact (List.mergeSort_perm _ _).map _
  have nodup : (ordered.map Prod.fst).Nodup := perm.nodup_iff.mpr List.nodup_range'
  have length : ordered.length = record.flanges.length := by simpa using perm.length_eq
  have member : ∀ old, old ∈ ordered.map Prod.fst ↔ old < ordered.length := by
    intro old
    rw [perm.mem_iff, length]
    simp
  have places : ∀ old, (bendOfFlange ordered)[old]? = if old < ordered.length then some ((ordered.map Prod.fst).idxOf old) else none := by
    intro old
    have written := getElem?_foldl_set nodup 0 (List.replicate ordered.length 0) old
    rw [List.zipIdx_map, List.foldl_map, List.length_replicate, Nat.zero_add] at written
    refine written.trans ?_
    by_cases below : old < ordered.length
    · rw [if_pos ((member old).mpr below)]
    · rw [if_neg (mt (member old).mp below), if_neg below, List.getElem?_replicate, if_neg below]
  have below : flange < ordered.length := by
    by_contra above
    rw [places, if_neg above] at is
    cases is
  rw [places, if_pos below] at is
  rw [List.findIdx?_eq_some_iff_getElem]
  have known := places flange
  rw [if_pos below, is] at known
  obtain ⟨inside, here⟩ := List.getElem?_eq_some_iff.mp known
  refine ⟨inside, by simpa using here, fun other before => ?_⟩
  have otherIs := places other
  rw [if_pos (before.trans below), List.getElem?_eq_getElem (before.trans inside), Option.some.injEq] at otherIs
  rw [otherIs, decide_eq_true_eq]
  intro same
  exact before.ne' ((List.idxOf_inj ((member flange).mpr below)).mp ((Option.some.inj is).trans same.symm))

/-- A parameter path as the old writers spelled it: indices without leading signs or zeros. -/
structure PlainPath (path : String) : Prop where
  noBend : stripPrefix "bends." path = none
  index : ∀ index rest, (stripPrefix "flanges." path).bind (splitOnce '.') = some (index, rest) →
    ∀ number, parseUsize index = some number → index = toString number

theorem toString_no_dot (number : Nat) : '.' ∉ (toString number).toList := by
  intro there
  rw [Nat.toString_eq_repr, Nat.toList_repr] at there
  have digit := Nat.isDigit_of_mem_toDigits (by decide) (by decide) there
  simp at digit

theorem parseUsize_toString (number : Nat) : parseUsize (toString number) = some number := by
  have plain : '+' ∉ (toString number).toList := by
    intro there
    rw [Nat.toString_eq_repr, Nat.toList_repr] at there
    have digit := Nat.isDigit_of_mem_toDigits (by decide) (by decide) there
    simp at digit
  unfold parseUsize
  split
  · next digits is =>
    rw [is] at plain
    exact absurd List.mem_cons_self plain
  · rw [String.ofList_toList, parseIndex_toString]

theorem plainPath_flange (number : Nat) (rest : String) :
    PlainPath ("flanges." ++ (toString number ++ String.singleton '.' ++ rest)) where
  noBend := by
    unfold stripPrefix
    rw [if_neg]
    rw [String.toList_append]
    simp [show "flanges.".toList = 'f' :: "langes.".toList from rfl, show "bends.".toList = 'b' :: "ends.".toList from rfl]
  index index rest' apart number' parsed := by
    rw [stripPrefix_append, Option.bind_some, splitOnce_join (toString_no_dot number), Option.some.injEq, Prod.mk.injEq] at apart
    obtain ⟨rfl, -⟩ := apart
    rw [parseUsize_toString, Option.some.injEq] at parsed
    rw [parsed]

/-- **The path of a flange's parameter is found again.** -/
theorem undoes_bendPath [Zero R] {record : SheetMetalV1 R} {spec : SheetMetalSpec R} {bends : List Nat}
    (made : record.toCurrent = some (spec, bends)) {path : String} (plain : PlainPath path) :
    (∀ renamed, bendPath path bends = some renamed → flangePath renamed bends = some path) ∧
      (bendPath path bends = none → flangePath path bends = none) := by
  constructor
  · intro renamed is
    simp only [bendPath, Option.bind_eq_bind, Option.bind_eq_some_iff, Option.some.injEq] at is
    obtain ⟨⟨index, rest⟩, ⟨inner, stripped, apart⟩, bend, ⟨number, parsed, known⟩, rfl⟩ := is
    have spelled := plain.index index rest (by rw [stripped, Option.bind_some, apart]) number parsed
    have again := findIdx?_bendOfFlange made known
    simp only [flangePath, stripPrefix_append, Option.bind_eq_bind, Option.bind_some, splitOnce_join (toString_no_dot _),
      parseUsize_toString, again, Option.some.injEq]
    rw [stripPrefix_eq_some stripped, (splitOnce_eq_some apart).1, spelled]
  · intro _
    simp [flangePath, plain.noBend]

end Bends

/-! ### The payloads -/

section Payloads

variable {change back : Nat → Value → Value} {product : Value}

theorem overPayload_single {change : Value → Value} {name payload : Value} : overPayload change (.map [(name, payload)]) =
    .map [(name, if name.asText = some "SheetMetal" then change payload else payload)] := by
  by_cases named : name.asText = some "SheetMetal" <;> simp [overPayload, named]

theorem overPayload_other {change : Value → Value} {kind : Value} (other : ∀ entry, kind ≠ .map [entry]) :
    overPayload change kind = kind := by
  unfold overPayload
  split
  · exact absurd rfl (other _)
  · rfl

theorem overPayload_congr {one two : Value → Value} {kind : Value}
    (same : ∀ payload, sheetMetalPayload kind = some payload → one payload = two payload) : overPayload one kind = overPayload two kind := by
  by_cases single : ∃ entry, kind = .map [entry]
  · obtain ⟨⟨name, payload⟩, rfl⟩ := single
    rw [overPayload_single, overPayload_single]
    split
    · next named => rw [same payload (by rw [sheetMetalPayload, if_pos named])]
    · rfl
  · rw [overPayload_other (not_exists.mp single), overPayload_other (not_exists.mp single)]

theorem overPayload_id {change : Value → Value} {kind : Value}
    (same : ∀ payload, sheetMetalPayload kind = some payload → change payload = payload) : overPayload change kind = kind := by
  have kept : overPayload change kind = overPayload id kind := overPayload_congr same
  rw [kept]
  by_cases single : ∃ entry, kind = .map [entry]
  · obtain ⟨⟨name, payload⟩, rfl⟩ := single
    rw [overPayload_single, id_eq, ite_self]
  · exact overPayload_other (not_exists.mp single)

theorem overPayload_overPayload {one two : Value → Value} {kind : Value} :
    overPayload two (overPayload one kind) = overPayload (two ∘ one) kind := by
  by_cases single : ∃ entry, kind = .map [entry]
  · obtain ⟨⟨name, payload⟩, rfl⟩ := single
    rw [overPayload_single, overPayload_single, overPayload_single]
    split <;> rfl
  · rw [overPayload_other (not_exists.mp single), overPayload_other (not_exists.mp single),
      overPayload_other (not_exists.mp single)]

/-- A listed payload. -/
theorem mem_sheetMetalKinds {features : List FieldEntry} (there : field "features" product = some (.map features)) {entry : FieldEntry}
    (inside : entry ∈ features) {id : Nat} (isId : asU64 entry.1 = some id) {kind payload : Value}
    (isKind : field "kind" entry.2 = some kind) (isPayload : sheetMetalPayload kind = some payload) :
    (id, payload) ∈ sheetMetalKinds product := by
  unfold sheetMetalKinds
  rw [there]
  exact List.mem_filterMap.mpr ⟨entry, inside, by simp [isId, isKind, isPayload]⟩

/-- **What is done to the payloads is what is done to those listed.** -/
theorem overSheetMetal_congr (same : ∀ kind ∈ sheetMetalKinds product, change kind.1 kind.2 = back kind.1 kind.2) :
    overSheetMetal change product = overSheetMetal back product := by
  refine over_congr fun item there => ?_
  cases item <;> try rfl
  case map features =>
    simp only [overEntries, Value.map.injEq]
    refine List.map_congr_left fun entry inside => Prod.ext rfl ?_
    cases isId : asU64 entry.1 with
    | none => rfl
    | some id =>
      refine over_congr fun kind isKind => overPayload_congr fun payload isPayload => ?_
      exact same (id, payload) (mem_sheetMetalKinds there inside isId isKind isPayload)

theorem overSheetMetal_id (same : ∀ kind ∈ sheetMetalKinds product, change kind.1 kind.2 = kind.2) :
    overSheetMetal change product = product := by
  refine over_id fun item there => ?_
  cases item <;> try rfl
  case map features =>
    simp only [overEntries, Value.map.injEq]
    conv_rhs => rw [← List.map_id features]
    refine List.map_congr_left fun entry inside => Prod.ext rfl ?_
    cases isId : asU64 entry.1 with
    | none => rfl
    | some id =>
      refine over_id fun kind isKind => overPayload_id fun payload isPayload => ?_
      exact same (id, payload) (mem_sheetMetalKinds there inside isId isKind isPayload)

theorem overSheetMetal_overSheetMetal :
    overSheetMetal back (overSheetMetal change product) = overSheetMetal (fun id payload => back id (change id payload)) product := by
  unfold overSheetMetal
  rw [over_over]
  refine over_congr fun item _ => ?_
  rw [Function.comp_apply, overEntries_overEntries]
  refine congrArg (overEntries · item) (funext fun key => funext fun feature => ?_)
  cases asU64 key with
  | none => rfl
  | some id =>
    simp only
    rw [over_over]
    exact over_congr fun kind _ => overPayload_overPayload

/-- A conversion of another field leaves the payloads. -/
theorem overSheetMetal_renameField {before after : String} {other : Value → Value} (notBefore : before ≠ "features")
    (notAfter : after ≠ "features") :
    overSheetMetal change (renameField before after other product) = renameField before after other (overSheetMetal change product) :=
  renameField_comm notBefore.symm notBefore.symm notAfter

theorem sheetMetalKinds_renameField {before after : String} {other : Value → Value} (notBefore : before ≠ "features")
    (notAfter : after ≠ "features") : sheetMetalKinds (renameField before after other product) = sheetMetalKinds product := by
  unfold sheetMetalKinds
  rw [field_renameField_ne notBefore notAfter]

/-- One entry has one name, and is no target. -/
theorem targetOf_single (entry : FieldEntry) : targetOf [entry] = none := by
  rw [Option.eq_none_iff_forall_ne_some]
  intro target is
  obtain ⟨feature, path, -, foundFeature, foundPath, -⟩ := targetOf_eq_some.mp is
  have isFeature := named_iff.mp (List.find?_some foundFeature)
  have isPath := named_iff.mp (List.find?_some foundPath)
  rw [List.mem_singleton.mp (List.mem_of_find?_eq_some foundFeature)] at isFeature
  rw [List.mem_singleton.mp (List.mem_of_find?_eq_some foundPath), isFeature] at isPath
  exact absurd (Value.text.inj isPath) (by decide)

section Rename

variable {rename : Nat → String → Option String}

theorem rename_single (name payload : Value) : renameParameterPaths rename (.map [(name, payload)]) =
    .map [(renameParameterPaths rename name, renameParameterPaths rename payload)] := by
  rw [renameParameterPaths_map, List.map_singleton, retarget_of_none (by rw [targetOf_single]; rfl)]
  rfl

theorem length_retarget (entries : List FieldEntry) : (retarget rename entries).length = entries.length := by
  have kept : ∀ (change : FieldEntry → FieldEntry) (others : List FieldEntry), (atEntry "path" change others).length = others.length := by
    intro change others
    induction others with
    | nil => rfl
    | cons entry others ih =>
      unfold atEntry
      split
      · rfl
      · rw [List.length_cons, ih, List.length_cons]
  unfold retarget
  split
  · exact kept _ _
  · rfl

theorem rename_overPayload {one two : Value → Value} {kind : Value}
    (same : ∀ payload, renameParameterPaths rename (one payload) = two (renameParameterPaths rename payload)) :
    renameParameterPaths rename (overPayload one kind) = overPayload two (renameParameterPaths rename kind) := by
  by_cases single : ∃ entry, kind = .map [entry]
  · obtain ⟨⟨name, payload⟩, rfl⟩ := single
    rw [overPayload_single, rename_single, rename_single, overPayload_single, asText_rename]
    split
    · rw [same]
    · rfl
  · have still : ∀ entry, renameParameterPaths rename kind ≠ .map [entry] := by
      intro entry is
      cases kind <;> simp only [renameParameterPaths, reduceCtorEq, Value.map.injEq] at is
      next entries =>
        have length := congrArg List.length is
        rw [length_retarget, renameInEntries_eq, List.length_map] at length
        obtain ⟨other, rfl⟩ := List.length_eq_one_iff.mp length
        exact single ⟨other, rfl⟩
    rw [overPayload_other (not_exists.mp single), overPayload_other still]

/-- **What is done to the payloads goes through a renaming.** -/
theorem rename_overSheetMetal (same : ∀ id payload, renameParameterPaths rename (change id payload) =
      back id (renameParameterPaths rename payload)) :
    renameParameterPaths rename (overSheetMetal change product) = overSheetMetal back (renameParameterPaths rename product) := by
  refine renameParameterPaths_renameField (by decide) (by decide) fun item _ => ?_
  refine renameParameterPaths_overEntries (fun key => ?_) fun key feature => ?_
  · cases asU64 key with
    | none => exact ⟨fun _ _ => rfl, fun _ isMap => isMap⟩
    | some id => exact KeepsAtoms.renameField _
  · rw [asU64_rename]
    cases asU64 key with
    | none => rfl
    | some id =>
      exact renameParameterPaths_renameField (by decide) (by decide) fun kind _ => rename_overPayload (same id)

end Rename

end Payloads

end Ketchup.Persistence.OldFormats
