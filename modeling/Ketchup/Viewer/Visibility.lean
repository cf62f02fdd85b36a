/-
**What a comment's view shows, written in the fewest paths.**

A view lists the paths it hides, or those it shows, or names a scene. `PathCover.covers` asks whether a
path lies under one of a list; `setVisibility` writes flags as the shortest of the three forms, with
`cover` choosing prefixes that hold nothing of the other side, and `visibility` reads them back.
-/

import Ketchup.Viewer.Validation

namespace Ketchup.Viewer

/-- The first steps of a path. -/
def InstancePath.upTo (path : InstancePath) (depth : Nat) : InstancePath :=
  ⟨path.rootOccurrenceId, path.steps.take depth⟩

/-- A path and those above it, from the root. -/
def InstancePath.prefixes (path : InstancePath) : List InstancePath :=
  (List.range (path.steps.length + 1)).map path.upTo

/-- Paths that hide or show everything under them. -/
abbrev PathCover := BTreeSet InstancePath

def PathCover.new (prefixes : List InstancePath) : PathCover := Std.ExtTreeSet.ofList prefixes

/-- Whether a path lies under one of the paths. -/
def PathCover.covers (cover : PathCover) (path : InstancePath) : Bool :=
  path.prefixes.any fun above => cover.contains above

/-- What a view shows: only `shown`, or else what its scene does, less `hidden`. -/
structure CommentView (F : Type) where
  camera : Camera F
  hidden : List InstancePath
  style : DisplayStyle
  section_ : Option (Section F)
  scene : Option Nat
  shown : Option (List InstancePath)
  deriving DecidableEq

section Views

variable {F : Type}

/-- The paths of the occurrences. -/
def Manifest.paths (manifest : Manifest F) : List InstancePath :=
  manifest.occurrences.map Occurrence.path

/-- What a view shows of one path. -/
def CommentView.shows (view : CommentView F) (manifest : Manifest F) (path : InstancePath) : Bool :=
  let sceneHidden := (view.scene.bind fun id => manifest.scenes.find? fun scene => scene.id == id).map
    fun scene => PathCover.new scene.hidden
  let base := match view.shown, sceneHidden with
    | some shown, _ => (PathCover.new shown).covers path
    | none, some sceneHidden => !sceneHidden.covers path
    | none, none => true
  base && !(PathCover.new view.hidden).covers path

/-- For each occurrence, whether a view shows it. -/
def CommentView.visibility (view : CommentView F) (manifest : Manifest F) : List Bool :=
  manifest.paths.map (view.shows manifest)

/-- Whether every occurrence under a path is inside, for each path with occurrences under it. -/
def wholePaths (occurrences : List (InstancePath × Bool)) : BTreeMap InstancePath Bool :=
  occurrences.foldl (fun whole (path, inside) =>
    path.prefixes.foldl (fun whole above =>
      whole.insert above ((whole[above]?.getD true) && inside)) whole) ∅

/-- The first prefix of a path all of whose occurrences are inside; a body with parts of the other
side below it falls back to its own path. -/
def chosenPrefix (whole : BTreeMap InstancePath Bool) (path : InstancePath) : InstancePath :=
  (path.prefixes.find? fun above => whole.getD above false).getD path

/-- The shortest prefixes under which every occurrence is inside, together covering each that is
wanted. -/
def cover (paths : List InstancePath) (inside wanted : List Bool) : List InstancePath :=
  let whole := wholePaths (paths.zip inside)
  let chosen := ((paths.zip wanted).filter Prod.snd).map fun (path, _) => chosenPrefix whole path
  (Std.ExtTreeSet.ofList chosen compare).toList

/-- The paths hidden when every hidden occurrence is. -/
def hiddenCover (manifest : Manifest F) (visible : List Bool) : List InstancePath :=
  let hiddenNow := visible.map not
  cover manifest.paths hiddenNow hiddenNow

/-- The paths shown when only the visible occurrences are. -/
def shownCover (manifest : Manifest F) (visible : List Bool) : List InstancePath :=
  cover manifest.paths visible visible

/-- Which occurrences a scene hides. -/
def inScene (manifest : Manifest F) (scene : Scene F) : List Bool :=
  manifest.paths.map (PathCover.new scene.hidden).covers

/-- The paths hidden beside those a scene hides. -/
def besideScene (manifest : Manifest F) (scene : Scene F) (visible : List Bool) : List InstancePath :=
  let hiddenNow := visible.map not
  cover manifest.paths hiddenNow
    (List.zipWith (fun hidden inScene => hidden && !inScene) hiddenNow (inScene manifest scene))

/-- A scene that hides nothing that is visible. -/
def usableScene (manifest : Manifest F) (scene : Scene F) (visible : List Bool) : Bool :=
  !((inScene manifest scene).zip visible).any fun (hid, shown) => hid && shown

/-- A form of a view: its length, and the scene, the hidden and the shown paths it is written with. -/
structure ViewForm where
  length : Nat
  scene : Option Nat
  hidden : List InstancePath
  shown : Option (List InstancePath)

def shorterForm (manifest : Manifest F) (visible : List Bool) (best : ViewForm) (scene : Scene F) :
    ViewForm :=
  if usableScene manifest scene visible then
    let hidden := besideScene manifest scene visible
    if hidden.length + 1 < best.length then ⟨hidden.length + 1, some scene.id, hidden, none⟩ else best
  else best

/-- The form in the fewest paths; a tie keeps the plain list of hidden paths. -/
def bestForm (manifest : Manifest F) (visible : List Bool) : ViewForm :=
  let hidden := hiddenCover manifest visible
  let best : ViewForm := ⟨hidden.length, none, hidden, none⟩
  let shown := shownCover manifest visible
  let best := if shown.length + 1 < best.length then ⟨shown.length + 1, none, [], some shown⟩ else best
  manifest.scenes.foldl (shorterForm manifest visible) best

/-- Describes `visible`, one flag for each occurrence. -/
def CommentView.setVisibility (view : CommentView F) (manifest : Manifest F) (visible : List Bool) :
    CommentView F :=
  let best := bestForm manifest visible
  { view with scene := best.scene, hidden := best.hidden, shown := best.shown }

end Views

end Ketchup.Viewer
