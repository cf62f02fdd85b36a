/-
**When a view shows again what it was written of.**

A cover holds what it was wanted for (`covers_wanted`), and beyond what is inside only what lies below
an occurrence that was wanted (`covered_is_inside`): a body with parts of the other side below it falls
back to its own path, and takes those parts along. So a view restores its flags exactly when no body of
the side it lists has one of the other side below it (`visibility_restored`), and every choice of flags
is restored exactly when no body is below another (`every_visibility_restored`).
-/

import Ketchup.Viewer.Visibility

namespace Ketchup.Viewer

/-- A path is another or leads to it. -/
structure InstancePath.Above (above path : InstancePath) : Prop where
  root : above.rootOccurrenceId = path.rootOccurrenceId
  steps : above.steps <+: path.steps

namespace InstancePath.Above

variable {first second third : InstancePath}

theorem refl (path : InstancePath) : path.Above path := ⟨rfl, List.prefix_refl _⟩

theorem trans (one : first.Above second) (two : second.Above third) : first.Above third :=
  ⟨one.root.trans two.root, one.steps.trans two.steps⟩

end InstancePath.Above

theorem mem_prefixes {above path : InstancePath} : above ∈ path.prefixes ↔ above.Above path := by
  unfold InstancePath.prefixes
  rw [List.mem_map]
  constructor
  · rintro ⟨depth, _, rfl⟩
    exact ⟨rfl, List.take_prefix depth path.steps⟩
  · rintro ⟨root, steps⟩
    refine ⟨above.steps.length, List.mem_range.mpr (Nat.lt_succ_of_le steps.length_le), ?_⟩
    unfold InstancePath.upTo
    rw [← root, ← List.prefix_iff_eq_take.mp steps]

/-- A cover of a list covers what lies under one of its paths. -/
theorem covers_new {prefixes : List InstancePath} {path : InstancePath} :
    (PathCover.new prefixes).covers path = true ↔ ∃ above ∈ prefixes, above.Above path := by
  unfold PathCover.covers PathCover.new
  rw [List.any_eq_true]
  constructor
  · rintro ⟨above, lies, member⟩
    refine ⟨above, ?_, mem_prefixes.mp lies⟩
    simpa [Std.ExtTreeSet.contains_ofList] using member
  · rintro ⟨above, member, lies⟩
    refine ⟨above, mem_prefixes.mpr lies, ?_⟩
    simpa [Std.ExtTreeSet.contains_ofList] using member

/-! ### Prefixes all of one side -/

/-- One occurrence put into the map of prefixes. -/
theorem getElem?_mark (prefixes : List InstancePath) (inside : Bool)
    (whole : BTreeMap InstancePath Bool) (path : InstancePath) :
    (prefixes.foldl (fun whole above =>
      whole.insert above ((whole[above]?.getD true) && inside)) whole)[path]? =
      if path ∈ prefixes then some ((whole[path]?.getD true) && inside) else whole[path]? := by
  induction prefixes generalizing whole with
  | nil => rfl
  | cons above rest ih =>
    rw [List.foldl_cons, ih, BTreeMap.getElem?_insert]
    by_cases here : above = path
    · subst here
      by_cases later : above ∈ rest
      · simp [later]
      · simp [later]
    · have other : path ≠ above := fun same => here same.symm
      simp [here, other]

/-- A path is whole exactly when it has occurrences under it, all of them inside. -/
theorem wholePaths_eq (occurrences : List (InstancePath × Bool)) :
    wholePaths occurrences = occurrences.foldl (fun whole occurrence =>
      occurrence.1.prefixes.foldl (fun whole above =>
        whole.insert above ((whole[above]?.getD true) && occurrence.2)) whole) ∅ := rfl

theorem getElem?_wholePaths (occurrences : List (InstancePath × Bool)) (path : InstancePath) :
    (wholePaths occurrences).getD path false = true ↔
      (∃ occurrence ∈ occurrences, path.Above occurrence.1) ∧
        ∀ occurrence ∈ occurrences, path.Above occurrence.1 → occurrence.2 = true := by
  have general : ∀ whole : BTreeMap InstancePath Bool,
      (occurrences.foldl (fun whole occurrence =>
        occurrence.1.prefixes.foldl (fun whole above =>
          whole.insert above ((whole[above]?.getD true) && occurrence.2)) whole) whole)[path]? =
            some true ↔
        ((∃ occurrence ∈ occurrences, path.Above occurrence.1) ∨ whole[path]? = some true) ∧
          whole[path]? ≠ some false ∧
          ∀ occurrence ∈ occurrences, path.Above occurrence.1 → occurrence.2 = true := by
    induction occurrences with
    | nil =>
      intro whole
      simp only [List.foldl_nil, List.not_mem_nil, false_and, exists_false, false_or, false_imp_iff,
        implies_true, and_true]
      constructor
      · intro held
        exact ⟨held, by rw [held]; decide⟩
      · exact And.left
    | cons occurrence rest ih =>
      intro whole
      rw [List.foldl_cons, ih, getElem?_mark]
      simp only [List.mem_cons, exists_eq_or_imp, forall_eq_or_imp]
      by_cases lies : path.Above occurrence.1
      · rw [if_pos (mem_prefixes.mpr lies)]
        cases whole[path]? with
        | none => cases occurrence.2 <;> simp [lies]
        | some held => cases held <;> cases occurrence.2 <;> simp [lies]
      · rw [if_neg fun member => lies (mem_prefixes.mp member)]
        simp [lies]
  have start := general ∅
  rw [wholePaths_eq, Std.ExtTreeMap.getD_eq_getD_getElem?]
  rw [Std.ExtTreeMap.getElem?_empty] at start
  simp only [reduceCtorEq, or_false, ne_eq, not_false_eq_true, true_and] at start
  rw [← start]
  cases (occurrences.foldl _ (∅ : BTreeMap InstancePath Bool))[path]? with
  | none => simp
  | some held => simp

/-! ### Covers -/

theorem chosenPrefix_above (whole : BTreeMap InstancePath Bool) (path : InstancePath) :
    (chosenPrefix whole path).Above path := by
  unfold chosenPrefix
  cases found : path.prefixes.find? fun above => whole.getD above false with
  | none => exact .refl path
  | some above => exact mem_prefixes.mp (List.mem_of_find?_eq_some found)

/-- A prefix was chosen because it is whole, or else the path's own. -/
theorem chosenPrefix_whole (whole : BTreeMap InstancePath Bool) (path : InstancePath) :
    whole.getD (chosenPrefix whole path) false = true ∨ chosenPrefix whole path = path := by
  unfold chosenPrefix
  cases found : path.prefixes.find? fun above => whole.getD above false with
  | none => exact Or.inr rfl
  | some above =>
    have is := List.find?_some found
    exact Or.inl is

section Covers

variable {paths : List InstancePath} {inside wanted : List Bool} {path : InstancePath}

theorem covers_cover :
    (PathCover.new (cover paths inside wanted)).covers path = true ↔
      ∃ other, (other, true) ∈ paths.zip wanted ∧
        (chosenPrefix (wholePaths (paths.zip inside)) other).Above path := by
  rw [covers_new]
  constructor
  · rintro ⟨above, member, lies⟩
    unfold cover at member
    rw [Std.ExtTreeSet.mem_toList, Std.ExtTreeSet.mem_ofList, List.contains_iff_mem] at member
    obtain ⟨⟨other, flag⟩, listed, rfl⟩ := List.mem_map.mp member
    obtain ⟨zipped, rfl⟩ := List.mem_filter.mp listed
    exact ⟨other, zipped, lies⟩
  · rintro ⟨other, zipped, lies⟩
    refine ⟨_, ?_, lies⟩
    unfold cover
    rw [Std.ExtTreeSet.mem_toList, Std.ExtTreeSet.mem_ofList, List.contains_iff_mem]
    exact List.mem_map.mpr ⟨(other, true), List.mem_filter.mpr ⟨zipped, rfl⟩, rfl⟩

/-- What lies at or below an occurrence that is wanted is covered. -/
theorem covers_wanted {other : InstancePath} (wants : (other, true) ∈ paths.zip wanted)
    (lies : other.Above path) : (PathCover.new (cover paths inside wanted)).covers path = true :=
  covers_cover.mpr ⟨other, wants, (chosenPrefix_above _ other).trans lies⟩

/-- **What is covered is inside**, or lies below an occurrence that is wanted. -/
theorem covered_is_inside (covered : (PathCover.new (cover paths inside wanted)).covers path = true)
    {flag : Bool} (listed : (path, flag) ∈ paths.zip inside) :
    flag = true ∨ ∃ other, (other, true) ∈ paths.zip wanted ∧ other.Above path := by
  obtain ⟨other, wants, lies⟩ := covers_cover.mp covered
  rcases chosenPrefix_whole (wholePaths (paths.zip inside)) other with whole | own
  · exact Or.inl (((getElem?_wholePaths _ _).mp whole).2 (path, flag) listed lies)
  · exact Or.inr ⟨other, wants, own ▸ lies⟩

theorem cover_nodup (paths : List InstancePath) (inside wanted : List Bool) :
    (cover paths inside wanted).Nodup := by
  have distinct := Std.ExtTreeSet.distinct_toList (t := Std.ExtTreeSet.ofList
    (((paths.zip wanted).filter Prod.snd).map fun occurrence =>
      chosenPrefix (wholePaths (paths.zip inside)) occurrence.1) compare)
  exact distinct.imp fun different equal =>
    different (Std.LawfulEqCmp.compare_eq_iff_eq.mpr equal)

end Covers

/-! ### Views -/

section Views

variable {F : Type} {manifest : Manifest F} {visible : List Bool}

/-- A body of one side with one of the other below it. -/
def LiesAbove (manifest : Manifest F) (visible : List Bool) (side : Bool) : Prop :=
  ∃ above path, (above, side) ∈ manifest.paths.zip visible ∧
    (path, !side) ∈ manifest.paths.zip visible ∧ above.Above path

/-- Whether the view is written with the paths it shows: these are fewer than the hidden ones, even
beside any scene that can stand for some of them. -/
def ListsShown (manifest : Manifest F) (visible : List Bool) : Prop :=
  (shownCover manifest visible).length + 1 < (hiddenCover manifest visible).length ∧
    ∀ scene ∈ manifest.scenes, usableScene manifest scene visible = true →
      (shownCover manifest visible).length ≤ (besideScene manifest scene visible).length

theorem mem_zip_not {path : InstancePath} {flag : Bool} {paths : List InstancePath} :
    (path, flag) ∈ paths.zip (visible.map not) ↔ (path, !flag) ∈ paths.zip visible := by
  rw [List.zip_map_right, List.mem_map]
  constructor
  · rintro ⟨⟨other, shown⟩, listed, same⟩
    cases same
    simpa using listed
  · intro listed
    exact ⟨(path, !flag), listed, by simp⟩

theorem map_eq_iff {A : Type} {show_ : A → Bool} {list : List A} {flags : List Bool}
    (sized : list.length = flags.length) :
    list.map show_ = flags ↔ ∀ entry flag, (entry, flag) ∈ list.zip flags → show_ entry = flag := by
  induction list generalizing flags with
  | nil =>
    cases flags with
    | nil => simp
    | cons => cases sized
  | cons entry rest ih =>
    cases flags with
    | nil => cases sized
    | cons flag others =>
      rw [List.map_cons, List.cons.injEq, List.zip_cons_cons, ih (Nat.succ.inj sized)]
      constructor
      · rintro ⟨here, later⟩ other shown member
        rcases List.mem_cons.mp member with same | member
        · cases same
          exact here
        · exact later other shown member
      · intro all
        exact ⟨all entry flag (List.mem_cons_self ..),
          fun other shown member => all other shown (List.mem_cons_of_mem _ member)⟩

/-- Flags are restored exactly when each occurrence is shown as its own says. -/
theorem visibility_eq_iff {view : CommentView F} (sized : visible.length = manifest.occurrences.length) :
    view.visibility manifest = visible ↔
      ∀ path shown, (path, shown) ∈ manifest.paths.zip visible →
        view.shows manifest path = shown :=
  map_eq_iff (by rw [Manifest.paths, List.length_map, sized])

/-- A view that lists what it hides restores its flags exactly when no hidden body has a shown one
below it. -/
theorem hidden_restored {view : CommentView F}
    (sized : visible.length = manifest.occurrences.length)
    (shown : view.shown = none) (scene : view.scene = none)
    (hidden : view.hidden = hiddenCover manifest visible) :
    view.visibility manifest = visible ↔ ¬LiesAbove manifest visible false := by
  have shows : ∀ path, view.shows manifest path =
      !(PathCover.new (hiddenCover manifest visible)).covers path := by
    intro path
    unfold CommentView.shows
    rw [shown, scene, hidden]
    rfl
  rw [visibility_eq_iff sized]
  constructor
  · rintro restored ⟨above, path, isHidden, isShown, lies⟩
    have covered : (PathCover.new (hiddenCover manifest visible)).covers path = true :=
      covers_wanted (mem_zip_not.mpr isHidden) lies
    have agrees := restored path true isShown
    rw [shows, covered] at agrees
    cases agrees
  · intro apart path flag listed
    rw [shows]
    cases flag with
    | false =>
      have covered : (PathCover.new (hiddenCover manifest visible)).covers path = true :=
        covers_wanted (mem_zip_not.mpr listed) (.refl path)
      rw [covered]
      rfl
    | true =>
      rw [Bool.not_eq_true', Bool.eq_false_iff]
      intro covered
      rcases covered_is_inside covered (mem_zip_not.mpr (by simpa using listed) :
        (path, false) ∈ manifest.paths.zip (visible.map not)) with inside | ⟨other, isHidden, lies⟩
      · cases inside
      · exact apart ⟨other, path, mem_zip_not.mp isHidden, listed, lies⟩

/-- A view that lists what it shows restores its flags exactly when no shown body has a hidden one
below it. -/
theorem shown_restored {view : CommentView F}
    (sized : visible.length = manifest.occurrences.length)
    (shown : view.shown = some (shownCover manifest visible)) (hidden : view.hidden = []) :
    view.visibility manifest = visible ↔ ¬LiesAbove manifest visible true := by
  have shows : ∀ path, view.shows manifest path =
      (PathCover.new (shownCover manifest visible)).covers path := by
    intro path
    have nothing : (PathCover.new []).covers path = false := by
      rw [Bool.eq_false_iff, ne_eq, covers_new]
      simp
    unfold CommentView.shows
    rw [shown, hidden, nothing]
    exact Bool.and_true _
  rw [visibility_eq_iff sized]
  constructor
  · rintro restored ⟨above, path, isShown, isHidden, lies⟩
    have covered : (PathCover.new (shownCover manifest visible)).covers path = true :=
      covers_wanted isShown lies
    have agrees := restored path false isHidden
    rw [shows, covered] at agrees
    cases agrees
  · intro apart path flag listed
    rw [shows]
    cases flag with
    | true => exact covers_wanted listed (.refl path)
    | false =>
      rw [Bool.eq_false_iff]
      intro covered
      rcases covered_is_inside covered listed with inside | ⟨other, isShown, lies⟩
      · cases inside
      · exact apart ⟨other, path, isShown, listed, lies⟩

theorem mem_zip_beside {paths : List InstancePath} {covers : InstancePath → Bool}
    {flags : List Bool} {path : InstancePath} :
    (path, true) ∈ paths.zip (List.zipWith (fun hidden inScene => hidden && !inScene) (flags.map not)
        (paths.map covers)) ↔
      (path, false) ∈ paths.zip flags ∧ covers path = false := by
  induction paths generalizing flags with
  | nil => simp
  | cons first rest ih =>
    cases flags with
    | nil => simp
    | cons flag others =>
      simp only [List.map_cons, List.zipWith_cons_cons, List.zip_cons_cons, List.mem_cons, ih,
        Prod.mk.injEq, or_and_right]
      refine or_congr ?_ Iff.rfl
      constructor
      · rintro ⟨rfl, both⟩
        obtain ⟨hidden, free⟩ := Bool.and_eq_true_iff.mp both.symm
        exact ⟨⟨rfl, (Bool.not_eq_eq_eq_not.mp hidden).symm⟩, Bool.not_eq_eq_eq_not.mp free⟩
      · rintro ⟨⟨rfl, rfl⟩, outside⟩
        exact ⟨rfl, by rw [outside]; rfl⟩

/-- A scene that hides nothing that is visible. -/
theorem usableScene_iff {scene : Scene F} :
    usableScene manifest scene visible = true ↔
      ∀ path, (path, true) ∈ manifest.paths.zip visible →
        (PathCover.new scene.hidden).covers path = false := by
  unfold usableScene inScene
  rw [Bool.not_eq_true', List.any_eq_false]
  rw [List.zip_map_left]
  constructor
  · intro all path listed
    have here := all _ (List.mem_map.mpr ⟨(path, true), listed, rfl⟩)
    simpa using here
  · rintro outside entry member both
    obtain ⟨⟨path, shown⟩, listed, rfl⟩ := List.mem_map.mp member
    obtain ⟨covered, isShown⟩ := Bool.and_eq_true_iff.mp both
    have here := outside path (by rwa [show shown = true from isShown] at listed)
    exact Bool.false_ne_true (here.symm.trans covered)

/-- A view that names a scene restores its flags exactly when no hidden body has a shown one below
it: where the scene hides a body, it hides what is below it too. -/
theorem scene_restored {view : CommentView F} {scene : Scene F}
    (sized : visible.length = manifest.occurrences.length) (shown : view.shown = none)
    (named : (view.scene.bind fun id => manifest.scenes.find? fun scene => scene.id == id) = some scene)
    (usable : usableScene manifest scene visible = true)
    (hidden : view.hidden = besideScene manifest scene visible) :
    view.visibility manifest = visible ↔ ¬LiesAbove manifest visible false := by
  have outside := usableScene_iff.mp usable
  have shows : ∀ path, view.shows manifest path =
      (!(PathCover.new scene.hidden).covers path &&
        !(PathCover.new (besideScene manifest scene visible)).covers path) := by
    intro path
    unfold CommentView.shows
    rw [shown, named, hidden]
    rfl
  rw [visibility_eq_iff sized]
  constructor
  · rintro restored ⟨above, path, isHidden, isShown, lies⟩
    have free : (PathCover.new scene.hidden).covers above = false := by
      rw [Bool.eq_false_iff]
      intro covered
      obtain ⟨first, member, leads⟩ := covers_new.mp covered
      have below : (PathCover.new scene.hidden).covers path = true :=
        covers_new.mpr ⟨first, member, leads.trans lies⟩
      exact Bool.false_ne_true ((outside path isShown).symm.trans below)
    have covered : (PathCover.new (besideScene manifest scene visible)).covers path = true :=
      covers_wanted (mem_zip_beside.mpr ⟨isHidden, free⟩) lies
    have agrees := restored path true isShown
    rw [shows, covered, Bool.not_true, Bool.and_false] at agrees
    cases agrees
  · intro apart path flag listed
    rw [shows]
    cases flag with
    | false =>
      cases inside : (PathCover.new scene.hidden).covers path with
      | true => rfl
      | false =>
        have covered : (PathCover.new (besideScene manifest scene visible)).covers path = true :=
          covers_wanted (mem_zip_beside.mpr ⟨listed, inside⟩) (.refl path)
        rw [covered]
        rfl
    | true =>
      rw [outside path listed, Bool.not_false, Bool.true_and, Bool.not_eq_true', Bool.eq_false_iff]
      intro covered
      rcases covered_is_inside covered (mem_zip_not.mpr (by simpa using listed) :
        (path, false) ∈ manifest.paths.zip (visible.map not)) with inside | ⟨other, wants, lies⟩
      · cases inside
      · exact apart ⟨other, path, (mem_zip_beside.mp wants).1, listed, lies⟩

/-! ### The form that is written -/

/-- What the forms tried so far leave: a plain list, the paths shown, or those beside a scene. -/
inductive FormOf (manifest : Manifest F) (visible : List Bool) : ViewForm → Prop
  | hidden : FormOf manifest visible
      ⟨(hiddenCover manifest visible).length, none, hiddenCover manifest visible, none⟩
  | shown (fewer : (shownCover manifest visible).length + 1 < (hiddenCover manifest visible).length) :
    FormOf manifest visible
      ⟨(shownCover manifest visible).length + 1, none, [], some (shownCover manifest visible)⟩
  | scene (scene : Scene F) (listed : scene ∈ manifest.scenes)
      (usable : usableScene manifest scene visible = true) :
    FormOf manifest visible
      ⟨(besideScene manifest scene visible).length + 1, some scene.id,
        besideScene manifest scene visible, none⟩

theorem shorterForm_is {best : ViewForm} {scene : Scene F} (listed : scene ∈ manifest.scenes)
    (form : FormOf manifest visible best) :
    FormOf manifest visible (shorterForm manifest visible best scene) := by
  unfold shorterForm
  dsimp only
  split
  · next usable =>
    split
    · exact .scene scene listed usable
    · exact form
  · exact form

/-- The paths shown stay the form that is written while no scene makes a shorter one. -/
theorem foldl_shown_iff {scenes : List (Scene F)} {best : ViewForm} :
    (scenes.foldl (shorterForm manifest visible) best).shown.isSome = true ↔
      best.shown.isSome = true ∧ ∀ scene ∈ scenes, usableScene manifest scene visible = true →
        best.length ≤ (besideScene manifest scene visible).length + 1 := by
  induction scenes generalizing best with
  | nil => simp
  | cons scene rest ih =>
    rw [List.foldl_cons, ih]
    simp only [List.mem_cons, forall_eq_or_imp]
    unfold shorterForm
    dsimp only
    split
    · next usable =>
      split
      · next shorter =>
        constructor
        · rintro ⟨none_, _⟩
          cases none_
        · rintro ⟨_, here, _⟩
          exact absurd (here usable) (Nat.not_le.mpr shorter)
      · next longer =>
        exact ⟨fun both => ⟨both.1, fun _ => Nat.le_of_not_lt longer, both.2⟩,
          fun both => ⟨both.1, both.2.2⟩⟩
    · next unusable =>
      exact ⟨fun both => ⟨both.1, fun usable => absurd usable unusable, both.2⟩,
        fun both => ⟨both.1, both.2.2⟩⟩

/-- The form before the scenes are tried. -/
theorem bestForm_eq (manifest : Manifest F) (visible : List Bool) :
    bestForm manifest visible = manifest.scenes.foldl (shorterForm manifest visible)
      (if (shownCover manifest visible).length + 1 < (hiddenCover manifest visible).length then
        ⟨(shownCover manifest visible).length + 1, none, [], some (shownCover manifest visible)⟩
      else ⟨(hiddenCover manifest visible).length, none, hiddenCover manifest visible, none⟩) := rfl

theorem bestForm_is (manifest : Manifest F) (visible : List Bool) :
    FormOf manifest visible (bestForm manifest visible) := by
  rw [bestForm_eq]
  have start : FormOf manifest visible
      (if (shownCover manifest visible).length + 1 < (hiddenCover manifest visible).length then
        ⟨(shownCover manifest visible).length + 1, none, [], some (shownCover manifest visible)⟩
      else ⟨(hiddenCover manifest visible).length, none, hiddenCover manifest visible, none⟩) := by
    split
    · next fewer => exact .shown fewer
    · exact .hidden
  refine List.foldlRecOn manifest.scenes _ start fun best form scene listed => ?_
  exact shorterForm_is listed form

theorem bestForm_shown_iff :
    (bestForm manifest visible).shown.isSome = true ↔ ListsShown manifest visible := by
  rw [bestForm_eq, foldl_shown_iff]
  unfold ListsShown
  split
  · next fewer => simp [fewer]
  · next more => simp [more]

/-- A scene's id finds it again where ids are unique. -/
theorem find?_scene {scenes : List (Scene F)} (unique : (scenes.map Scene.id).Nodup) {scene : Scene F}
    (listed : scene ∈ scenes) :
    (scenes.find? fun other => other.id == scene.id) = some scene := by
  induction scenes with
  | nil => cases listed
  | cons first rest ih =>
    obtain ⟨apart, unique⟩ := List.nodup_cons.mp unique
    rw [List.find?_cons]
    rcases List.mem_cons.mp listed with rfl | listed
    · rw [beq_self_eq_true]
    · have other : (first.id == scene.id) = false := beq_false_of_ne fun same =>
        apart (List.mem_map.mpr ⟨scene, listed, same.symm⟩)
      rw [other]
      exact ih unique listed

/-- Everything visible but one occurrence. -/
def allBut (manifest : Manifest F) (hidden : Nat) : List Bool :=
  (List.range manifest.occurrences.length).map fun index => index != hidden

theorem mem_zip_allBut {hidden : Nat} {path : InstancePath} {shown : Bool} :
    (path, shown) ∈ manifest.paths.zip (allBut manifest hidden) ↔
      ∃ index, manifest.paths[index]? = some path ∧ shown = (index != hidden) := by
  have sized : manifest.paths.length = manifest.occurrences.length := List.length_map _
  rw [List.mem_iff_getElem?]
  refine exists_congr fun index => ?_
  rw [List.getElem?_zip_eq_some, allBut, List.getElem?_map, Option.map_eq_some_iff]
  refine and_congr_right fun there => ?_
  have less : index < manifest.occurrences.length := by
    rw [← sized]
    exact (List.getElem?_eq_some_iff.mp there).1
  rw [List.getElem?_range less]
  simp [eq_comm]

/-- One hidden occurrence is one hidden path. -/
theorem hiddenCover_allBut {hidden : Nat} :
    (hiddenCover manifest (allBut manifest hidden)).length ≤ 1 := by
  have same : ∀ above ∈ hiddenCover manifest (allBut manifest hidden), ∃ path,
      manifest.paths[hidden]? = some path ∧ above = chosenPrefix (wholePaths
        (manifest.paths.zip ((allBut manifest hidden).map not))) path := by
    intro above member
    unfold hiddenCover cover at member
    rw [Std.ExtTreeSet.mem_toList, Std.ExtTreeSet.mem_ofList, List.contains_iff_mem] at member
    obtain ⟨⟨path, flag⟩, listed, rfl⟩ := List.mem_map.mp member
    obtain ⟨zipped, rfl⟩ := List.mem_filter.mp listed
    obtain ⟨index, there, isHidden⟩ := mem_zip_allBut.mp (mem_zip_not.mp zipped)
    have is : index = hidden := by simpa using isHidden
    exact ⟨path, is ▸ there, rfl⟩
  have distinct := cover_nodup manifest.paths ((allBut manifest hidden).map not)
    ((allBut manifest hidden).map not)
  unfold hiddenCover at same ⊢
  dsimp only at same ⊢
  match cover manifest.paths ((allBut manifest hidden).map not)
    ((allBut manifest hidden).map not), same, distinct with
  | [], _, _ => exact Nat.zero_le _
  | [_], _, _ => exact Nat.le_refl _
  | first :: second :: rest, same, distinct =>
    obtain ⟨path, there, rfl⟩ := same first (List.mem_cons_self ..)
    obtain ⟨other, here, rfl⟩ := same second (List.mem_cons_of_mem _ (List.mem_cons_self ..))
    cases here.symm.trans there
    exact absurd (List.mem_cons_self ..) (List.nodup_cons.mp distinct).1

variable [Double F]

theorem uniqueId_ok {ids after : BTreeSet Nat} {id : Nat} {target reason : String}
    (ok : uniqueId ids id target reason = .ok after) : id ∉ ids ∧ after = ids.insert id := by
  obtain ⟨_, checked, put⟩ := bind_ok ok
  cases put
  refine ⟨fun there => ?_, rfl⟩
  unfold demand at checked
  split at checked
  · next holds =>
    rw [Std.ExtTreeSet.mem_iff_contains] at there
    simp [there] at holds
  · cases checked

theorem checkScene_ok {paths : BTreeSet InstancePath} {dimensions before after : BTreeSet Nat}
    {scene : Scene F} (ok : checkScene paths dimensions before scene = .ok after) :
    scene.id ∉ before ∧ after = before.insert scene.id := by
  obtain ⟨put, isPut, ok⟩ := bind_ok ok
  obtain ⟨_, _, ok⟩ := bind_ok ok
  obtain ⟨_, _, ok⟩ := bind_ok ok
  obtain ⟨_, _, ok⟩ := bind_ok ok
  obtain ⟨_, _, ok⟩ := bind_ok ok
  cases ok
  exact uniqueId_ok isPut

/-- Scenes that pass the checks have unique ids. -/
theorem checkScenes_unique {paths : BTreeSet InstancePath} {dimensions before after : BTreeSet Nat}
    {scenes : List (Scene F)} (ok : scenes.foldlM (checkScene paths dimensions) before = .ok after) :
    (scenes.map Scene.id).Nodup ∧ ∀ scene ∈ scenes, scene.id ∉ before := by
  induction scenes generalizing before with
  | nil => exact ⟨List.nodup_nil, fun scene member => absurd member List.not_mem_nil⟩
  | cons scene rest ih =>
    rw [List.foldlM_cons] at ok
    obtain ⟨next, here, ok⟩ := bind_ok ok
    obtain ⟨fresh, rfl⟩ := checkScene_ok here
    obtain ⟨unique, later⟩ := ih ok
    refine ⟨List.nodup_cons.mpr ⟨fun repeated => ?_, unique⟩, fun other member => ?_⟩
    · obtain ⟨other, member, same⟩ := List.mem_map.mp repeated
      exact later other member (BTreeSet.mem_insert.mpr (Or.inl same.symm))
    · rcases List.mem_cons.mp member with rfl | member
      · exact fresh
      · exact fun there => later other member (BTreeSet.mem_insert.mpr (Or.inr there))

theorem validate_unique {info : Info F} (accepted : manifest.validate info = .ok ()) :
    (manifest.scenes.map Scene.id).Nodup := by
  obtain ⟨_, _, accepted⟩ := bind_ok accepted
  obtain ⟨_, _, accepted⟩ := bind_ok accepted
  obtain ⟨_, _, accepted⟩ := bind_ok accepted
  obtain ⟨_, _, accepted⟩ := bind_ok accepted
  obtain ⟨_, _, accepted⟩ := bind_ok accepted
  obtain ⟨_, scenes, _⟩ := bind_ok accepted
  exact (checkScenes_unique scenes).1

/-- What is written is read back by the form it was written in. -/
theorem setVisibility_restored {info : Info F} (view : CommentView F)
    (accepted : manifest.validate info = .ok ())
    (sized : visible.length = manifest.occurrences.length) :
    (view.setVisibility manifest visible).visibility manifest = visible ↔
      (ListsShown manifest visible → ¬LiesAbove manifest visible true) ∧
        (¬ListsShown manifest visible → ¬LiesAbove manifest visible false) := by
  have written : (view.setVisibility manifest visible).scene = (bestForm manifest visible).scene ∧
      (view.setVisibility manifest visible).hidden = (bestForm manifest visible).hidden ∧
      (view.setVisibility manifest visible).shown = (bestForm manifest visible).shown :=
    ⟨rfl, rfl, rfl⟩
  have lists : (bestForm manifest visible).shown.isSome = true ↔ ListsShown manifest visible :=
    bestForm_shown_iff
  have form := bestForm_is manifest visible
  generalize view.setVisibility manifest visible = view at written
  generalize bestForm manifest visible = best at written lists form
  obtain ⟨scene, hidden, shown⟩ := written
  cases form with
  | hidden =>
    have unlisted : ¬ListsShown manifest visible := fun listed => nomatch lists.mpr listed
    rw [hidden_restored sized shown scene hidden]
    simp only [unlisted, false_imp_iff, not_false_eq_true, true_imp_iff, true_and]
  | shown fewer =>
    have listed : ListsShown manifest visible := lists.mp rfl
    rw [shown_restored sized shown hidden]
    simp only [listed, true_imp_iff, not_true_eq_false, false_imp_iff, and_true]
  | scene chosen member usable =>
    have unlisted : ¬ListsShown manifest visible := fun listed => nomatch lists.mpr listed
    have named : (view.scene.bind fun id => manifest.scenes.find? fun scene => scene.id == id) =
        some chosen := by
      rw [scene]
      exact find?_scene (validate_unique accepted) member
    rw [scene_restored sized shown named usable hidden]
    simp only [unlisted, false_imp_iff, not_false_eq_true, true_imp_iff, true_and]

/-- **Visibility survives a save exactly when** no body of the side that is listed has one of the other
side below it: no shown body a hidden one where the view lists what it shows, and no hidden body a
shown one where it lists what it hides. -/
theorem visibility_restored {info : Info F} (view : CommentView F)
    (accepted : manifest.validate info = .ok ())
    (sized : visible.length = manifest.occurrences.length) :
    (view.setVisibility manifest visible).visibility manifest = visible ↔
      (ListsShown manifest visible → ¬LiesAbove manifest visible true) ∧
        (¬ListsShown manifest visible → ¬LiesAbove manifest visible false) :=
  setVisibility_restored view accepted sized

/-- **Every choice of flags survives exactly when no body is below another.** -/
theorem every_visibility_restored {info : Info F} (view : CommentView F)
    (accepted : manifest.validate info = .ok ()) :
    (∀ visible, visible.length = manifest.occurrences.length →
        (view.setVisibility manifest visible).visibility manifest = visible) ↔
      ∀ (first second : Nat) (above path : InstancePath), manifest.paths[first]? = some above →
        manifest.paths[second]? = some path → above.Above path → first = second := by
  constructor
  · intro all first second above path isAbove isPath lies
    by_contra different
    have restored := all (allBut manifest first) (by simp [allBut])
    have short : (hiddenCover manifest (allBut manifest first)).length ≤ 1 := hiddenCover_allBut
    have plain : ¬ListsShown manifest (allBut manifest first) := fun lists => by
      have long := lists.1
      omega
    refine ((setVisibility_restored view accepted (by simp [allBut])).mp restored).2 plain
      ⟨above, path, mem_zip_allBut.mpr ⟨first, isAbove, by simp⟩,
        mem_zip_allBut.mpr ⟨second, isPath, ?_⟩, lies⟩
    simpa using fun same : second = first => different same.symm
  · intro apart visible sized
    have clear : ∀ side, ¬LiesAbove manifest visible side := by
      rintro side ⟨above, path, one, two, lies⟩
      obtain ⟨first, isFirst⟩ := List.mem_iff_getElem?.mp one
      obtain ⟨second, isSecond⟩ := List.mem_iff_getElem?.mp two
      rw [List.getElem?_zip_eq_some] at isFirst isSecond
      have same := apart first second above path isFirst.1 isSecond.1 lies
      rw [same, isSecond.2] at isFirst
      have flags := Option.some.inj isFirst.2
      cases side <;> cases flags
    exact (setVisibility_restored view accepted sized).mpr ⟨fun _ => clear true, fun _ => clear false⟩

end Views

/-! ### A frame with a door in it -/

section Frame

def framePath : InstancePath := ⟨10, []⟩

def doorPath : InstancePath := ⟨10, [.occurrence 1 5]⟩

/-- A frame, placed, and a door placed in it. -/
def frameManifest : Manifest ℚ where
  source := ⟨1, 1, "0123456789abcdef"⟩
  definitions := [⟨1, "frame", none, none, none, none⟩, ⟨2, "door", none, none, none, none⟩]
  occurrences := [⟨"frame", framePath, 1, 0, none, none, none, ∅⟩,
    ⟨"door", doorPath, 2, 1, none, none, none, ∅⟩]
  scenes := []
  dimensions := []
  startScene := none
  fittedProjection := none

def frameExtras : List (String × JsonValue ℚ) :=
  [("ketchupInstancePath", .string "occurrence:10"), ("ketchupEntity", .string "occurrence"),
    ("ketchupDefinitionId", .unsigned 1)]

def doorExtras : List (String × JsonValue ℚ) :=
  [("ketchupInstancePath", .string "occurrence:10/occurrence:5"),
    ("ketchupEntity", .string "occurrence"), ("ketchupDefinitionId", .unsigned 2),
    ("ketchupOwnerDefinitionId", .unsigned 1)]

def identity (index : Fin 16) : ℚ := if index.val % 5 = 0 then 1 else 0

def frameInfo : Info ℚ where
  nodes := [⟨identity, none, [1], Std.ExtTreeMap.ofList frameExtras compare⟩,
    ⟨identity, none, [], Std.ExtTreeMap.ofList doorExtras compare⟩]
  sourceDigest := "0123456789abcdef"

def plainView : CommentView ℚ where
  camera := ⟨⟨0, -1, 0⟩, ⟨0, 0, 0⟩, ⟨0, 0, 1⟩, .orthographic 1⟩
  hidden := []
  style := .shaded
  section_ := none
  scene := none
  shown := none

attribute [local instance] exactNumbers in
/-- Hiding the frame alone hides the door in it as well. -/
theorem hidden_frame_hides_door :
    frameManifest.validate frameInfo = .ok () ∧
      (plainView.setVisibility frameManifest [false, true]).visibility frameManifest =
        [false, false] := by
  decide +kernel

attribute [local instance] exactNumbers in
/-- Hiding the door alone leaves the frame. -/
theorem hidden_door_restored :
    (plainView.setVisibility frameManifest [true, false]).visibility frameManifest =
      [true, false] := by
  have accepted : frameManifest.validate frameInfo = .ok () := by decide +kernel
  refine (visibility_restored plainView accepted rfl).mpr ⟨fun lists => ?_, fun _ nested => ?_⟩
  · exact absurd lists.1 (by decide +kernel)
  · obtain ⟨above, path, isHidden, isShown, lies⟩ := nested
    have both : frameManifest.paths.zip [true, false] = [(framePath, true), (doorPath, false)] := rfl
    rw [both] at isHidden isShown
    simp only [List.mem_cons, List.not_mem_nil, Prod.mk.injEq, Bool.not_false, reduceCtorEq, and_false,
      and_true, false_or, or_false, Bool.false_eq_true] at isHidden isShown
    rw [isHidden, isShown] at lies
    exact absurd lies.steps (by decide)

end Frame

end Ketchup.Viewer
