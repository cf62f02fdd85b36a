/-
**A Viewer package that was written is read.**

`packageBytes` is what every writer of a package puts down (`Written.of_ok`), with a comments section
after it or not. The reader takes it off the front of whatever follows (`readPayload_packageBytes`) and
refuses every part of it (`readPayload_cut`); a comments section is likewise read whole or refused
(`readSection_written`, `readSection_cut`, `readSection_longer`). `package_round_trips` puts these
together.
-/

import Ketchup.Viewer.Package

set_option linter.unusedSectionVars false

namespace Ketchup.Viewer

/-! ### Slices -/

theorem demand_true {holds : Bool} {target reason : String} (is : holds = true) :
    demand holds target reason = .ok () := if_pos is

theorem demand_false {holds : Bool} {target reason : String} (is : holds = false) :
    demand holds target reason = .error ⟨target, reason⟩ := if_neg (Bool.eq_false_iff.mp is)

theorem demand_ok {holds : Bool} {target reason : String}
    (ok : demand holds target reason = .ok ()) : holds = true := by
  unfold demand at ok
  split at ok
  · assumption
  · cases ok

theorem require_ok {α : Type} {found : Option α} {target reason : String} {value : α}
    (ok : require found target reason = .ok value) : found = some value := by
  unfold require at ok
  split at ok
  · cases ok
    rfl
  · cases ok

theorem slice_append {first second third : Bytes} {start length : Nat} (before : first.length = start)
    (sized : second.length = length) : slice (first ++ (second ++ third)) start length = second := by
  unfold slice
  rw [← before, ← sized, List.drop_left, List.take_left]

/-- The length of a whole is read back from its field. -/
theorem payloadLength_littleEndian {length limit : Nat} {target : String} (some_ : 0 < length)
    (within : length ≤ limit) (fits : length < 256 ^ 4) :
    payloadLength (littleEndian 4 length) limit target = .ok length := by
  have kept : (some length).filter (fun length => 0 < length && length ≤ limit) = some length :=
    Option.filter_eq_some_iff.mpr ⟨rfl, by simp [some_, within]⟩
  unfold payloadLength word
  rw [ofLittleEndian_littleEndian fits, kept]
  rfl

/-! ### The header -/

section Header

variable {manifestLength glbLength : Nat} {checksum : Bytes}

theorem packageMagic_length : packageMagic.length = 11 := by decide

theorem commentsMagic_length : commentsMagic.length = 11 := by decide

theorem headerOf_length (sized : checksum.length = 32) :
    (headerOf manifestLength glbLength checksum).length = headerBytes := by
  unfold headerOf headerBytes
  simp only [List.length_append, packageMagic_length, littleEndian_length, sized]

theorem headerOf_magic :
    (headerOf manifestLength glbLength checksum).take 11 = packageMagic := by
  unfold headerOf
  rw [List.append_assoc, List.append_assoc, List.append_assoc, ← packageMagic_length,
    List.take_left]

theorem headerOf_version :
    word (slice (headerOf manifestLength glbLength checksum) 11 2) = packageVersion := by
  unfold headerOf word
  rw [List.append_assoc, List.append_assoc, List.append_assoc,
    slice_append packageMagic_length (littleEndian_length 2 packageVersion)]
  decide

theorem headerOf_manifestLength :
    slice (headerOf manifestLength glbLength checksum) 13 4 = littleEndian 4 manifestLength := by
  unfold headerOf
  rw [List.append_assoc, List.append_assoc]
  refine slice_append ?_ (littleEndian_length 4 manifestLength)
  rw [List.length_append, packageMagic_length, littleEndian_length]

theorem headerOf_glbLength :
    slice (headerOf manifestLength glbLength checksum) 17 4 = littleEndian 4 glbLength := by
  unfold headerOf
  rw [List.append_assoc]
  refine slice_append ?_ (littleEndian_length 4 glbLength)
  simp only [List.length_append, packageMagic_length, littleEndian_length]

theorem headerOf_checksum :
    (headerOf manifestLength glbLength checksum).drop 21 = checksum := by
  have before : (packageMagic ++ littleEndian 2 packageVersion ++ littleEndian 4 manifestLength ++
      littleEndian 4 glbLength).length = 21 := by
    simp only [List.length_append, packageMagic_length, littleEndian_length]
  unfold headerOf
  rw [← before, List.drop_left]

theorem readHeader_headerOf (sized : checksum.length = 32) (someManifest : 0 < manifestLength)
    (manifest : manifestLength ≤ maxManifestBytes) (someGlb : 0 < glbLength)
    (glb : glbLength ≤ maxGlbBytes) :
    readHeader (headerOf manifestLength glbLength checksum) = .ok (manifestLength, glbLength) := by
  have whole : ((headerOf manifestLength glbLength checksum).length == headerBytes) = true :=
    beq_iff_eq.mpr (headerOf_length sized)
  have known : ((headerOf manifestLength glbLength checksum).take 11 == packageMagic &&
      word (slice (headerOf manifestLength glbLength checksum) 11 2) == packageVersion) = true := by
    rw [headerOf_magic, headerOf_version, beq_self_eq_true, beq_self_eq_true, Bool.and_true]
  unfold readHeader
  rw [demand_true whole, demand_true known, headerOf_manifestLength, headerOf_glbLength,
    payloadLength_littleEndian someManifest manifest
      (Nat.lt_of_le_of_lt manifest (by decide)),
    payloadLength_littleEndian someGlb glb (Nat.lt_of_le_of_lt glb (by decide))]
  rfl

end Header

section Packages

variable {F : Type} [Double F] [PackageJson F] [Sha256Sum]

/-! ### What is written -/

/-- A package, as every writer of it puts it down. -/
def packageBytes (package : Package F) : Bytes :=
  headerOf (PackageJson.manifestText package.manifest).length package.glb.length package.digest ++
    package.payload

/-- What a package that is written has passed. -/
structure Written (package : Package F) : Prop where
  glb : package.glb.length ≤ maxGlbBytes
  manifest : (PackageJson.manifestText package.manifest).length ≤ maxManifestBytes
  valid : ∃ info, validateGlb package.glb = .ok info ∧ package.manifest.validate info = .ok ()

theorem writeWithDigest_ok {package : Package F} {digest : Option Bytes} {bytes : Bytes}
    (its : digest.getD package.digest = package.digest)
    (ok : package.writeWithDigest digest = .ok bytes) :
    Written package ∧ bytes = packageBytes package := by
  obtain ⟨_, glb, ok⟩ := bind_ok ok
  obtain ⟨info, isInfo, ok⟩ := bind_ok ok
  obtain ⟨_, valid, ok⟩ := bind_ok ok
  obtain ⟨_, manifest, ok⟩ := bind_ok ok
  have bytes_eq := (Except.ok.inj ok).symm
  refine ⟨⟨of_decide_eq_true (demand_ok glb), of_decide_eq_true (demand_ok manifest),
    info, isInfo, valid⟩, ?_⟩
  rw [bytes_eq, packageBytes, ← its, List.append_assoc]
  rfl

theorem write_ok {package : Package F} {bytes : Bytes} (ok : package.write = .ok bytes) :
    Written package ∧ bytes = packageBytes package :=
  writeWithDigest_ok rfl ok

theorem digest_length (package : Package F) : package.digest.length = 32 := Sha256Sum.sum_length _

/-- A GLB that passes has its header. -/
theorem validateGlb_some {bytes : Bytes} {info : Info F} (ok : validateGlb bytes = .ok info) :
    0 < bytes.length := by
  obtain ⟨document, isDocument, _⟩ := bind_ok ok
  obtain ⟨_, header, _⟩ := bind_ok isDocument
  have all := demand_ok header
  simp only [Bool.and_eq_true, decide_eq_true_eq] at all
  have least : glbMinBytes ≤ bytes.length := all.1.1.1.1
  exact Nat.lt_of_lt_of_le (by decide) least

/-! ### The payload -/

/-- The manifest's text is read back as the manifest. -/
def ManifestComesBack (package : Package F) : Prop :=
  PackageJson.manifest (PackageJson.manifestText package.manifest) = some package.manifest

theorem ManifestComesBack.some_text {package : Package F} (back : ManifestComesBack package) :
    0 < (PackageJson.manifestText package.manifest).length := by
  rw [List.length_pos_iff]
  intro empty
  unfold ManifestComesBack at back
  rw [empty, PackageJson.manifest_empty] at back
  cases back

theorem identify_own (package : Package F)
    (verified : Sha256Sum.sum (PackageJson.manifestText package.manifest ++ package.glb) =
      package.digest) :
    identify (PackageJson.manifestText package.manifest) package.digest package verified =
      .new package := by
  unfold identify
  rw [dif_pos rfl]
  rfl

theorem payload_parts (package : Package F) :
    package.payload.take (PackageJson.manifestText package.manifest).length =
        PackageJson.manifestText package.manifest ∧
      package.payload.drop (PackageJson.manifestText package.manifest).length = package.glb :=
  ⟨List.take_left .., List.drop_left ..⟩

theorem packageBytes_header (package : Package F) (rest : Bytes) :
    (packageBytes package ++ rest).take headerBytes =
        headerOf (PackageJson.manifestText package.manifest).length package.glb.length
          package.digest ∧
      (packageBytes package ++ rest).drop headerBytes = package.payload ++ rest := by
  have sized : (headerOf (PackageJson.manifestText package.manifest).length package.glb.length
      package.digest).length = headerBytes := headerOf_length (digest_length package)
  unfold packageBytes
  rw [List.append_assoc]
  exact ⟨List.take_left' sized, List.drop_left' sized⟩

theorem Written.readHeader {package : Package F} (written : Written package)
    (back : ManifestComesBack package) :
    Ketchup.Viewer.readHeader (headerOf (PackageJson.manifestText package.manifest).length
        package.glb.length package.digest) =
      .ok ((PackageJson.manifestText package.manifest).length, package.glb.length) := by
  obtain ⟨info, isInfo, _⟩ := written.valid
  exact readHeader_headerOf (digest_length package) back.some_text written.manifest
    (validateGlb_some isInfo) written.glb

/-- **The package is taken off the front**, whatever follows. -/
theorem readPayload_packageBytes {package : Package F} (written : Written package)
    (back : ManifestComesBack package) (rest : Bytes) :
    readPayload (packageBytes package ++ rest) = .ok (.new package, rest) := by
  obtain ⟨info, isInfo, valid⟩ := written.valid
  obtain ⟨front, following⟩ := packageBytes_header package rest
  have total : (PackageJson.manifestText package.manifest).length + package.glb.length =
      package.payload.length := (List.length_append ..).symm
  obtain ⟨text, glb⟩ := payload_parts package
  unfold readPayload
  dsimp only
  rw [front, following, written.readHeader back, headerOf_checksum]
  show readPayloads _ _ _ _ = _
  unfold readPayloads
  dsimp only
  rw [total, List.take_left, List.drop_left, text, glb]
  rw [demand_true (beq_self_eq_true _)]
  show (if verified : _ then _ else _) = _
  have verified : Sha256Sum.sum (PackageJson.manifestText package.manifest ++ package.glb) =
    package.digest := rfl
  rw [dif_pos verified]
  unfold readContents
  rw [show PackageJson.manifest (PackageJson.manifestText package.manifest) = some package.manifest
    from back, isInfo]
  show ((package.manifest.validate info).bind _).bind _ = _
  rw [valid]
  exact congrArg (fun identified => Except.ok (identified, rest)) (identify_own package verified)

/-- **A package that is cut short is refused.** -/
theorem readPayload_cut {package : Package F} (written : Written package)
    (back : ManifestComesBack package) {cut more : Bytes} (whole : cut ++ more = packageBytes package)
    (some_ : more ≠ []) : ∃ error, readPayload cut = (.error error : Except Rejection
      (IdentifiedPackage F × Bytes)) := by
  have missing : 0 < more.length := List.length_pos_iff.mpr some_
  by_cases header : headerBytes ≤ cut.length
  · obtain ⟨front, following⟩ := packageBytes_header package []
    rw [List.append_nil, ← whole] at front following
    rw [List.take_append_of_le_length header] at front
    rw [List.drop_append_of_le_length header, List.append_nil] at following
    have sizes := congrArg List.length following
    rw [List.length_append] at sizes
    have total : (PackageJson.manifestText package.manifest).length + package.glb.length =
        package.payload.length := (List.length_append ..).symm
    have short : ((cut.drop headerBytes).take package.payload.length).length ≠
        package.payload.length := by
      rw [List.length_take]
      omega
    unfold readPayload
    dsimp only
    rw [front, written.readHeader back]
    show ∃ error, readPayloads _ _ _ _ = .error error
    unfold readPayloads
    dsimp only
    rw [total, demand_false (beq_eq_false_iff_ne.mpr short)]
    exact ⟨_, rfl⟩
  · have short : ((cut.take headerBytes).length == headerBytes) = false := by
      rw [beq_eq_false_iff_ne, List.length_take]
      omega
    unfold readPayload readHeader
    dsimp only
    rw [demand_false short]
    exact ⟨_, rfl⟩

/-! ### The comments section -/

/-- The section before its JSON. -/
def sectionHeader (json : Bytes) : Bytes :=
  commentsMagic ++ littleEndian 4 json.length ++ Sha256Sum.sum json

section CommentsSection

variable {json tail : Bytes} {identified : IdentifiedPackage F}

theorem sectionHeader_length (json : Bytes) : (sectionHeader json).length = commentsHeaderBytes := by
  unfold sectionHeader commentsHeaderBytes
  simp only [List.length_append, commentsMagic_length, littleEndian_length, Sha256Sum.sum_length]

theorem sectionHeader_fields (json tail : Bytes) :
    (sectionHeader json ++ tail).take 11 = commentsMagic ∧
      slice (sectionHeader json ++ tail) 11 4 = littleEndian 4 json.length ∧
      slice (sectionHeader json ++ tail) 15 32 = Sha256Sum.sum json ∧
      (sectionHeader json ++ tail).drop commentsHeaderBytes = tail := by
  refine ⟨?_, ?_, ?_, ?_⟩
  · unfold sectionHeader
    rw [List.append_assoc, List.append_assoc]
    exact List.take_left' commentsMagic_length
  · unfold sectionHeader
    rw [List.append_assoc, List.append_assoc]
    exact slice_append commentsMagic_length (littleEndian_length 4 _)
  · unfold sectionHeader
    rw [List.append_assoc]
    refine slice_append ?_ (Sha256Sum.sum_length json)
    rw [List.length_append, commentsMagic_length, littleEndian_length]
  · exact List.drop_left' (sectionHeader_length json)

theorem readSection_headed (some_ : 0 < json.length) (within : json.length ≤ maxCommentsBytes) :
    readSection identified (sectionHeader json ++ tail) =
      if tail.length = json.length then
        if Sha256Sum.sum tail = Sha256Sum.sum json then Comments.read tail identified.toExport
        else reject "checksum" "The comments in the package are damaged."
      else reject "payload" "Trailing data is not part of a Viewer package." := by
  obtain ⟨magic, length, checksum, rest⟩ := sectionHeader_fields json tail
  have headed : (decide (commentsHeaderBytes ≤ (sectionHeader json ++ tail).length) &&
      (sectionHeader json ++ tail).take 11 == commentsMagic) = true := by
    rw [magic, beq_self_eq_true, Bool.and_true, List.length_append, sectionHeader_length]
    exact decide_eq_true (Nat.le_add_right _ _)
  unfold readSection
  rw [demand_true headed, length, checksum, rest,
    payloadLength_littleEndian some_ within (Nat.lt_of_le_of_lt within (by decide))]
  dsimp only [bind, Except.bind]
  by_cases same : tail.length = json.length
  · rw [if_pos same, demand_true (beq_iff_eq.mpr same)]
    dsimp only
    by_cases intact : Sha256Sum.sum tail = Sha256Sum.sum json
    · rw [if_pos intact, demand_true (beq_iff_eq.mpr intact)]
    · rw [if_neg intact, demand_false (beq_eq_false_iff_ne.mpr intact)]
      rfl
  · rw [if_neg same, demand_false (beq_eq_false_iff_ne.mpr same)]
    rfl

end CommentsSection

/-! ### Comments -/

/-- The comments' text is read back as the comments. -/
def CommentsComeBack (comments : Comments F) : Prop :=
  PackageJson.comments (PackageJson.commentsText comments) = some comments

theorem CommentsComeBack.some_text {comments : Comments F} (back : CommentsComeBack comments) :
    0 < (PackageJson.commentsText comments).length := by
  rw [List.length_pos_iff]
  intro empty
  unfold CommentsComeBack at back
  rw [empty, PackageJson.comments_empty] at back
  cases back

theorem commentsWrite_ok {comments : Comments F} {of : PackageExport F} {json : Bytes}
    (ok : comments.write of = .ok json) :
    comments.validate of = .ok () ∧ json = PackageJson.commentsText comments ∧
      json.length ≤ maxCommentsBytes := by
  obtain ⟨_, valid, ok⟩ := bind_ok ok
  obtain ⟨_, short, ok⟩ := bind_ok ok
  have json_eq := (Except.ok.inj ok).symm
  exact ⟨valid, json_eq, json_eq ▸ of_decide_eq_true (demand_ok short)⟩

theorem commentsRead_written {comments : Comments F} {of : PackageExport F}
    (back : CommentsComeBack comments) (valid : comments.validate of = .ok ())
    (short : (PackageJson.commentsText comments).length ≤ maxCommentsBytes) :
    Comments.read (PackageJson.commentsText comments) of = .ok comments := by
  obtain ⟨_, contents, _⟩ := bind_ok valid
  unfold Comments.read Comments.readUnbound
  rw [demand_true (decide_eq_true short),
    show PackageJson.comments (PackageJson.commentsText comments) = some comments from back]
  show ((comments.validateContents).bind _).bind _ = _
  rw [show comments.validateContents = .ok () from contents]
  show (comments.validate of).bind _ = _
  rw [valid]
  rfl

/-- A commented copy is the package and a comments section. -/
theorem writeWithComments_ok {package : Package F} {comments : Comments F} {commented : Bytes}
    (ok : package.writeWithComments comments = .ok commented) :
    Written package ∧ comments.validate ⟨package, package.digest⟩ = .ok () ∧
      (PackageJson.commentsText comments).length ≤ maxCommentsBytes ∧
      commented = packageBytes package ++ commentsSection (PackageJson.commentsText comments) := by
  obtain ⟨json, isJson, ok⟩ := bind_ok ok
  obtain ⟨written, isWritten, ok⟩ := bind_ok ok
  obtain ⟨valid, rfl, short⟩ := commentsWrite_ok isJson
  obtain ⟨passed, rfl⟩ := writeWithDigest_ok rfl isWritten
  exact ⟨passed, valid, short, (Except.ok.inj ok).symm⟩

/-! ### The whole file -/

/-- No more of what follows a package is read than a comments section can be, and a byte. -/
def readLimit : Nat := commentsHeaderBytes + maxCommentsBytes + 1

theorem readIdentified_packageBytes {package : Package F} (written : Written package)
    (back : ManifestComesBack package) {rest : Bytes} (some_ : rest ≠ []) :
    readIdentified (packageBytes package ++ rest) =
      (readSection (.new package) (rest.take readLimit)).map fun comments =>
        (.new package, some comments) := by
  have more : rest.take readLimit ≠ [] := fun empty =>
    some_ ((List.take_eq_nil_iff.mp empty).resolve_left (by decide))
  unfold readIdentified
  rw [readPayload_packageBytes written back]
  show (if rest.take readLimit = [] then _ else _) = _
  rw [if_neg more]
  show (readSection (.new package) (rest.take readLimit)).bind _ = _
  cases readSection (.new package) (rest.take readLimit) <;> rfl

theorem readIdentified_plain {package : Package F} (written : Written package)
    (back : ManifestComesBack package) :
    readIdentified (packageBytes package) = .ok (.new package, none) := by
  have whole := readPayload_packageBytes written back []
  rw [List.append_nil] at whole
  unfold readIdentified
  rw [whole]
  rfl

/-- A file the reader refuses. -/
def Refused (F : Type) [Double F] [PackageJson F] (bytes : Bytes) : Prop :=
  ∃ error, readIdentified bytes = (.error error : Except Rejection
    (IdentifiedPackage F × Option (Comments F)))

/-- What follows a package and is no whole section is refused. -/
theorem refused_of_section {package : Package F} (written : Written package)
    (back : ManifestComesBack package) {rest : Bytes} (some_ : rest ≠ [])
    (refused : ∃ error, readSection (.new package) (rest.take readLimit) = .error error) :
    Refused F (packageBytes package ++ rest) := by
  obtain ⟨error, is⟩ := refused
  refine ⟨error, ?_⟩
  rw [readIdentified_packageBytes written back some_, is]
  rfl

/-- A section that is cut short, or has more after it, is refused. -/
theorem readSection_other_length {identified : IdentifiedPackage F} {json rest : Bytes}
    (some_ : 0 < json.length) (within : json.length ≤ maxCommentsBytes)
    (agrees : rest <+: commentsSection json ∨ commentsSection json <+: rest)
    (other : rest.length ≠ (commentsSection json).length) :
    ∃ error, readSection identified rest = .error error := by
  have whole : commentsSection json = sectionHeader json ++ json := rfl
  have sized := sectionHeader_length json
  by_cases headed : commentsHeaderBytes ≤ rest.length
  · have front : sectionHeader json <+: rest := by
      rcases agrees with cut | longer
      · exact List.prefix_of_prefix_length_le (whole ▸ List.prefix_append _ _) cut (by omega)
      · exact (whole ▸ List.prefix_append _ _ : sectionHeader json <+: commentsSection json).trans
          longer
    obtain ⟨tail, rfl⟩ := front
    have different : tail.length ≠ json.length := fun same => other (by
      rw [whole, List.length_append, List.length_append, same])
    rw [readSection_headed some_ within, if_neg different]
    exact ⟨_, rfl⟩
  · have short : (decide (commentsHeaderBytes ≤ rest.length) && rest.take 11 == commentsMagic) =
        false := by
      rw [decide_eq_false headed, Bool.false_and]
    unfold readSection
    rw [demand_false short]
    exact ⟨_, rfl⟩

/-- What is taken for a comments section is one. -/
theorem readSection_ok {identified : IdentifiedPackage F} {rest : Bytes} {comments : Comments F}
    (ok : readSection identified rest = .ok comments) :
    ∃ json, rest = commentsSection json ∧ json.length ≤ maxCommentsBytes ∧
      Comments.read json identified.toExport = .ok comments := by
  obtain ⟨_, headed, ok⟩ := bind_ok ok
  obtain ⟨length, isLength, ok⟩ := bind_ok ok
  obtain ⟨_, sized, ok⟩ := bind_ok ok
  obtain ⟨_, intact, ok⟩ := bind_ok ok
  have both := demand_ok headed
  rw [Bool.and_eq_true, decide_eq_true_eq, beq_iff_eq] at both
  obtain ⟨long, magic⟩ := both
  have size : (rest.drop commentsHeaderBytes).length = length := beq_iff_eq.mp (demand_ok sized)
  have sum : Sha256Sum.sum (rest.drop commentsHeaderBytes) = slice rest 15 32 :=
    beq_iff_eq.mp (demand_ok intact)
  have kept := Option.filter_eq_some_iff.mp (require_ok isLength)
  have value : word (slice rest 11 4) = length := Option.some.inj kept.1
  have within : length ≤ maxCommentsBytes := by
    have bounds := kept.2
    rw [Bool.and_eq_true, decide_eq_true_eq, decide_eq_true_eq] at bounds
    exact bounds.2
  refine ⟨rest.drop commentsHeaderBytes, ?_, size ▸ within, ok⟩
  have four : (slice rest 11 4).length = 4 := by
    unfold slice
    rw [List.length_take, List.length_drop]
    unfold commentsHeaderBytes at long
    omega
  have field : littleEndian 4 (rest.drop commentsHeaderBytes).length = slice rest 11 4 := by
    have back := littleEndian_ofLittleEndian (slice rest 11 4)
    rw [four] at back
    rw [size, ← value]
    exact back
  have parts : rest = rest.take 11 ++ ((rest.drop 11).take 4 ++ ((rest.drop 15).take 32 ++
      rest.drop 47)) := by
    have third : (rest.drop 15).take 32 ++ rest.drop 47 = rest.drop 15 := by
      have later : (rest.drop 15).drop 32 = rest.drop 47 := by rw [List.drop_drop]
      rw [← later, List.take_append_drop]
    have second : (rest.drop 11).take 4 ++ rest.drop 15 = rest.drop 11 := by
      have later : (rest.drop 11).drop 4 = rest.drop 15 := by rw [List.drop_drop]
      rw [← later, List.take_append_drop]
    rw [third, second, List.take_append_drop]
  unfold commentsSection
  rw [field, sum, ← magic, List.append_assoc, List.append_assoc]
  exact parts

/-! ### Round trip -/

/-- A package one of the writers takes. -/
def Accepted (package : Package F) : Prop :=
  (∃ bytes, package.write = .ok bytes) ∨
    ∃ comments commented, package.writeWithComments comments = .ok commented

theorem Accepted.written {package : Package F} (accepted : Accepted package) : Written package := by
  rcases accepted with ⟨bytes, wrote⟩ | ⟨comments, commented, wrote⟩
  · exact (write_ok wrote).1
  · exact (writeWithComments_ok wrote).1

theorem Written.write {package : Package F} (written : Written package) :
    package.write = .ok (packageBytes package) := by
  obtain ⟨info, isInfo, valid⟩ := written.valid
  unfold Package.write Package.writeWithDigest
  rw [demand_true (decide_eq_true written.glb), isInfo]
  show (package.manifest.validate info).bind _ = _
  rw [valid]
  dsimp only [Except.bind]
  rw [demand_true (decide_eq_true written.manifest), packageBytes, Package.payload,
    ← List.append_assoc]
  rfl

theorem refused_cut {package : Package F} (written : Written package)
    (back : ManifestComesBack package) {cut more : Bytes} (whole : cut ++ more = packageBytes package)
    (some_ : more ≠ []) : Refused F cut := by
  obtain ⟨error, is⟩ := readPayload_cut written back whole some_
  refine ⟨error, ?_⟩
  unfold readIdentified
  rw [is]
  rfl

/-- What follows a package is a comments section for it, or the file is refused. -/
theorem readIdentified_appended {package : Package F} (written : Written package)
    (back : ManifestComesBack package) {extra : Bytes} (some_ : extra ≠ []) :
    Refused F (packageBytes package ++ extra) ∨
      ∃ json comments, extra = commentsSection json ∧
        Comments.read json ⟨package, package.digest⟩ = .ok comments ∧
        readIdentified (packageBytes package ++ extra) = .ok (.new package, some comments) := by
  have whole := readIdentified_packageBytes written back some_
  cases outcome : readSection (.new package) (extra.take readLimit) with
  | error error => exact .inl (refused_of_section written back some_ ⟨error, outcome⟩)
  | ok comments =>
    obtain ⟨json, taken, short, read⟩ := readSection_ok outcome
    have sizes := congrArg List.length taken
    have sized := sectionHeader_length json
    have isSection : commentsSection json = sectionHeader json ++ json := rfl
    rw [isSection, List.length_append, sized, List.length_take] at sizes
    have all : extra.take readLimit = extra := by
      refine List.take_of_length_le ?_
      unfold readLimit at sizes ⊢
      omega
    rw [all] at taken
    rw [outcome] at whole
    exact .inr ⟨json, comments, taken, read, whole⟩

section Commented

variable {package : Package F} {comments : Comments F} {commented : Bytes}

theorem readIdentified_commented (back : ManifestComesBack package)
    (comeBack : CommentsComeBack comments)
    (wrote : package.writeWithComments comments = .ok commented) :
    readIdentified commented = .ok (.new package, some comments) := by
  obtain ⟨written, valid, short, rfl⟩ := writeWithComments_ok wrote
  have isSection : commentsSection (PackageJson.commentsText comments) =
    sectionHeader (PackageJson.commentsText comments) ++ PackageJson.commentsText comments := rfl
  have sized : (commentsSection (PackageJson.commentsText comments)).length ≤ readLimit := by
    rw [isSection, List.length_append, sectionHeader_length]
    unfold readLimit
    omega
  have some_ : commentsSection (PackageJson.commentsText comments) ≠ [] := by
    rw [isSection, ← List.length_pos_iff, List.length_append, sectionHeader_length]
    exact Nat.lt_of_lt_of_le (by decide) (Nat.le_add_right _ _)
  rw [readIdentified_packageBytes written back some_, List.take_of_length_le sized, isSection,
    readSection_headed comeBack.some_text short, if_pos rfl, if_pos rfl]
  show (Comments.read _ ⟨package, package.digest⟩).map _ = _
  rw [commentsRead_written comeBack valid short]
  rfl

/-- A commented copy that is cut short is the plain package or refused. -/
theorem refused_commented_cut (back : ManifestComesBack package)
    (comeBack : CommentsComeBack comments)
    (wrote : package.writeWithComments comments = .ok commented) {cut more : Bytes}
    (whole : cut ++ more = commented) (some_ : more ≠ []) :
    cut = packageBytes package ∨ Refused F cut := by
  obtain ⟨written, valid, short, rfl⟩ := writeWithComments_ok wrote
  rcases List.append_eq_append_iff.mp whole with ⟨left, package_eq, more_eq⟩ |
    ⟨rest, cut_eq, section_eq⟩
  · by_cases all : left = []
    · rw [all, List.append_nil] at package_eq
      exact .inl package_eq.symm
    · exact .inr (refused_cut written back package_eq.symm all)
  · by_cases none_ : rest = []
    · rw [none_, List.append_nil] at cut_eq
      exact .inl cut_eq
    · right
      rw [cut_eq]
      have missing : 0 < more.length := List.length_pos_iff.mpr some_
      have sizes := congrArg List.length section_eq
      rw [List.length_append] at sizes
      refine refused_of_section written back none_ ?_
      have inside : rest.take readLimit <+: commentsSection (PackageJson.commentsText comments) :=
        (List.take_prefix _ _).trans ⟨more, section_eq.symm⟩
      have least : (rest.take readLimit).length ≤ rest.length := by
        rw [List.length_take]
        exact Nat.min_le_right _ _
      exact readSection_other_length comeBack.some_text short (.inl inside) (by omega)

/-- Nothing may follow a comments section. -/
theorem refused_commented_appended (back : ManifestComesBack package)
    (comeBack : CommentsComeBack comments)
    (wrote : package.writeWithComments comments = .ok commented) {extra : Bytes}
    (some_ : extra ≠ []) : Refused F (commented ++ extra) := by
  obtain ⟨written, valid, short, rfl⟩ := writeWithComments_ok wrote
  have added : 0 < extra.length := List.length_pos_iff.mpr some_
  have isSection : commentsSection (PackageJson.commentsText comments) =
    sectionHeader (PackageJson.commentsText comments) ++ PackageJson.commentsText comments := rfl
  have size : (commentsSection (PackageJson.commentsText comments)).length =
      commentsHeaderBytes + (PackageJson.commentsText comments).length := by
    rw [isSection, List.length_append, sectionHeader_length]
  have nonempty : commentsSection (PackageJson.commentsText comments) ++ extra ≠ [] := fun empty =>
    some_ (List.append_eq_nil_iff.mp empty).2
  rw [List.append_assoc]
  refine refused_of_section written back nonempty ?_
  have fits : (commentsSection (PackageJson.commentsText comments)).length < readLimit := by
    rw [size]
    unfold readLimit
    omega
  refine readSection_other_length comeBack.some_text short (.inr ?_) ?_
  · exact List.prefix_take_iff.mpr ⟨List.prefix_append _ _, Nat.le_of_lt fits⟩
  · rw [List.length_take, List.length_append]
    omega

end Commented

/-- A comments section, and the comments it holds for a package. -/
def IsSectionFor (package : Package F) (extra : Bytes) (comments : Comments F) : Prop :=
  ∃ json, extra = commentsSection json ∧
    Comments.read json ⟨package, package.digest⟩ = .ok comments

/-- **A package round trips.** The file of any package a writer takes is read back as the package under
its identity; no part of it is accepted, and nothing after it but a comments section written for it. A
commented copy is the same bytes and the section, under the same identity. Every part of it is refused
except the plain package it starts with, and so is everything longer. -/
theorem package_round_trips {package : Package F} (back : ManifestComesBack package)
    (accepted : Accepted package) :
    ∃ bytes, package.write = .ok bytes ∧
      readIdentified bytes = .ok (.new package, none) ∧
      (∀ cut more, cut ++ more = bytes → more ≠ [] → Refused F cut) ∧
      (∀ extra, extra ≠ [] → Refused F (bytes ++ extra) ∨
        ∃ comments, IsSectionFor package extra comments ∧
          readIdentified (bytes ++ extra) = .ok (.new package, some comments)) ∧
      ∀ comments commented, CommentsComeBack comments →
        package.writeWithComments comments = .ok commented →
        commented = bytes ++ commentsSection (PackageJson.commentsText comments) ∧
          readIdentified commented = .ok (.new package, some comments) ∧
          (∀ cut more, cut ++ more = commented → more ≠ [] → cut = bytes ∨ Refused F cut) ∧
          ∀ extra, extra ≠ [] → Refused F (commented ++ extra) := by
  have written := accepted.written
  refine ⟨packageBytes package, written.write, readIdentified_plain written back, ?_, ?_, ?_⟩
  · intro cut more whole some_
    exact refused_cut written back whole some_
  · intro extra some_
    rcases readIdentified_appended written back some_ with refused | ⟨json, comments, is, read, whole⟩
    · exact .inl refused
    · exact .inr ⟨comments, ⟨json, is, read⟩, whole⟩
  · intro comments commented comeBack wrote
    refine ⟨(writeWithComments_ok wrote).2.2.2, readIdentified_commented back comeBack wrote, ?_, ?_⟩
    · intro cut more whole some_
      exact refused_commented_cut back comeBack wrote whole some_
    · intro extra some_
      exact refused_commented_appended back comeBack wrote some_

/-- A package that was read is commented like the package it was written from, comments or not. -/
theorem writeWithComments_identified (identified : IdentifiedPackage F) (comments : Comments F) :
    identified.writeWithComments comments = identified.package.writeWithComments comments := by
  rw [IdentifiedPackage.eq_new identified]
  rfl

end Packages

/-! ### A package of one mesh -/

section OneMesh

def oneMeshText : Bytes :=
  utf8 ("\x7b\"asset\":\x7b\"version\":\"2.0\",\"generator\":\"Ketchup\",\"extras\":\x7b" ++
    "\"ketchupSourceDigest\":\"0123456789abcdef\",\"ketchupSourceUnit\":\"millimetre\"," ++
    "\"unit\":\"metre\",\"upAxis\":\"Y\"\x7d\x7d,\"scene\":0,\"scenes\":[\x7b\"nodes\":[0]\x7d]," ++
    "\"nodes\":[\x7b\"matrix\":[1,0,0,0,0,1,0,0,0,0,1,0,0,0,0,1]\x7d]," ++
    "\"meshes\":[\x7b\"primitives\":[\x7b\"attributes\":\x7b\"POSITION\":0\x7d," ++
    "\"indices\":1,\"mode\":4\x7d]\x7d],\"buffers\":[\x7b\"byteLength\":24\x7d]," ++
    "\"bufferViews\":[\x7b\"buffer\":0,\"byteLength\":12\x7d," ++
    "\x7b\"buffer\":0,\"byteOffset\":12,\"byteLength\":12\x7d]," ++
    "\"accessors\":[\x7b\"bufferView\":0,\"componentType\":5126,\"count\":1,\"type\":\"VEC3\"\x7d," ++
    "\x7b\"bufferView\":1,\"componentType\":5125,\"count\":3,\"type\":\"SCALAR\"\x7d]\x7d ")

/-- What that text is read as. -/
def oneMesh : GlbDocument ℚ where
  asset := ⟨"2.0", some "Ketchup", .ofList [
    ("ketchupSourceDigest", JsonValue.string "0123456789abcdef"),
    ("ketchupSourceUnit", JsonValue.string "millimetre"), ("unit", JsonValue.string "metre"),
    ("upAxis", JsonValue.string "Y")]⟩
  scene := 0
  scenes := [[0]]
  nodes := [⟨fun index => if index.val % 5 = 0 then 1 else 0, none, [], ∅⟩]
  meshes := [⟨[⟨0, 1, 4, none⟩]⟩]
  buffers := [24]
  bufferViews := [⟨0, 0, 12, none⟩, ⟨0, 12, 12, none⟩]
  accessors := [⟨0, 0, 5126, 1, "VEC3", none, none⟩, ⟨1, 0, 5125, 3, "SCALAR", none, none⟩]
  materials := []

/-- A triangle on one point. -/
def oneMeshGlb : Bytes :=
  utf8 "glTF" ++ littleEndian 4 2 ++ littleEndian 4 644 ++ littleEndian 4 592 ++
    littleEndian 4 0x4e4f534a ++ oneMeshText ++ littleEndian 4 24 ++ littleEndian 4 0x004e4942 ++
    List.replicate 24 0

def oneMeshSource : Source := ⟨1, 1, "0123456789abcdef"⟩

def oneMeshManifest : Manifest ℚ := ⟨oneMeshSource, [], [], [], [], none, none⟩

def oneMeshManifestText : Bytes :=
  utf8 ("\x7b\"source\":\x7b\"document_id\":1,\"revision\":1," ++
    "\"canonical_digest\":\"0123456789abcdef\"\x7d,\"definitions\":[],\"occurrences\":[]," ++
    "\"scenes\":[],\"dimensions\":[],\"start_scene\":null\x7d")

def noCommentsText : Bytes :=
  utf8 ("\x7b\"format\":\"ketchup-comments\",\"version\":1,\"export\":\x7b\"source\":" ++
    "\x7b\"document_id\":1,\"revision\":1,\"canonical_digest\":\"0123456789abcdef\"\x7d," ++
    "\"package_sha256\":\"ae9a287d9368a25936cf1c4c6b294e11e29b1c2dc85a383f35532417d5f33b71\"\x7d," ++
    "\"comments\":[]\x7d")

def oneMeshSum : Bytes :=
  [0xae, 0x9a, 0x28, 0x7d, 0x93, 0x68, 0xa2, 0x59, 0x36, 0xcf, 0x1c, 0x4c, 0x6b, 0x29, 0x4e, 0x11,
    0xe2, 0x9b, 0x1c, 0x2d, 0xc8, 0x5a, 0x38, 0x3f, 0x35, 0x53, 0x24, 0x17, 0xd5, 0xf3, 0x3b, 0x71]

def noCommentsSum : Bytes :=
  [0x92, 0x01, 0x7e, 0x42, 0x7a, 0x10, 0x7e, 0x92, 0xd5, 0xc3, 0xb1, 0x2a, 0xad, 0x75, 0xd1, 0x32,
    0xa4, 0x8e, 0xb4, 0x46, 0x94, 0x46, 0xa0, 0xf4, 0x7b, 0x04, 0xd7, 0x34, 0x46, 0xe7, 0x80, 0xb0]

def noComments : Comments ℚ :=
  ⟨"ketchup-comments", 1, ⟨oneMeshSource, hexDigits oneMeshSum⟩, []⟩

/-- SHA-256 of these two texts. -/
def oneMeshSha256Sum (bytes : Bytes) : Bytes :=
  if bytes = noCommentsText then noCommentsSum else oneMeshSum

@[reducible] def oneMeshSha256 : Sha256Sum where
  hex bytes := hexDigits (oneMeshSha256Sum bytes)
  sum := oneMeshSha256Sum
  sum_length bytes := by
    unfold oneMeshSha256Sum
    split <;> rfl
  hex_eq _ := rfl

@[reducible] def oneMeshJson : PackageJson ℚ where
  document bytes := if bytes = oneMeshText then some oneMesh else none
  manifestText _ := oneMeshManifestText
  manifest bytes := if bytes = oneMeshManifestText then some oneMeshManifest else none
  manifest_empty := by decide +kernel
  commentsText _ := noCommentsText
  comments bytes := if bytes = noCommentsText then some noComments else none
  comments_empty := by decide +kernel

def oneMeshPackage : Package ℚ := ⟨oneMeshManifest, oneMeshGlb⟩

section Read

attribute [local instance] exactNumbers oneMeshSha256 oneMeshJson

theorem noComments_written : ∃ commented, oneMeshPackage.writeWithComments noComments = .ok commented := by
  have written : (oneMeshPackage.writeWithComments noComments).toOption.isSome = true := by
    decide +kernel
  obtain ⟨commented, wrote⟩ := Option.isSome_iff_exists.mp written
  exact ⟨commented, ok_of_toOption wrote⟩

/-- The package of one mesh round trips. -/
theorem oneMesh_round_trips :
    ∃ bytes, oneMeshPackage.write = .ok bytes ∧
      readIdentified bytes = .ok (.new oneMeshPackage, none) := by
  have back : ManifestComesBack oneMeshPackage := if_pos rfl
  obtain ⟨bytes, wrote, read, _⟩ := package_round_trips back (.inr ⟨_, noComments_written⟩)
  exact ⟨bytes, wrote, read⟩

/-- A commented copy starts with a whole package, and a package is still one with comments appended. -/
theorem commented_copy_cut_accepted :
    ∃ bytes commented more, oneMeshPackage.write = .ok bytes ∧
      oneMeshPackage.writeWithComments noComments = .ok commented ∧ more ≠ [] ∧
      bytes ++ more = commented ∧
      readIdentified bytes = .ok (.new oneMeshPackage, none) ∧
      readIdentified (bytes ++ more) = .ok (.new oneMeshPackage, some noComments) := by
  have comeBack : CommentsComeBack noComments := if_pos rfl
  have back : ManifestComesBack oneMeshPackage := if_pos rfl
  obtain ⟨commented, outcome⟩ := noComments_written
  obtain ⟨passed, _, _, is⟩ := writeWithComments_ok outcome
  have magic : commentsMagic ≠ [] := by decide +kernel
  refine ⟨_, commented, _, passed.write, outcome, ?_, is.symm, readIdentified_plain passed back, ?_⟩
  · simp [commentsSection, magic]
  · rw [← is]
    exact readIdentified_commented back comeBack outcome

end Read

end OneMesh

end Ketchup.Viewer
