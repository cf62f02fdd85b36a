/-
**Creators that share a repository.**

Each creator publishes the targets of its release in turn. A target is looked for, written to a
temporary file beside it, synchronised, and renamed to its path unless something is there by then. A
`System` is the files and all creators; in a step one creator starts or moves, in any order, and any
creator may fail or crash wherever it is.
-/

import Ketchup.Pdm.Archive

namespace Ketchup.Pdm

open Ketchup.Persistence

/-- How far a creator is with a target. -/
inductive Stage
  | looking
  /-- `symlink_metadata` found nothing. -/
  | absent
  /-- The first bytes are in the temporary file. -/
  | writing (name : String) (written : Nat)
  | synced (name : String)

/-- `NamedTempFile::new_in` the directory of a target. -/
def Target.temporary (target : Target) (name : String) : FilePath := ⟨target.path.directory, name⟩

def Stage.temporary (target : Target) : Stage → Option FilePath
  | looking | absent => none
  | writing name _ | synced name => some (target.temporary name)

section Creators

variable [Sha256Sum]

/-- One call of `create_release`, or of `create_child_release` with a parent. -/
inductive Creator (S : Type) [Sha256Sum]
  | requested (parent : Option String) (request : ReleaseRequest S)
  | publishing (release : PreparedRelease) (target : Target) (rest : List Target) (stage : Stage)
  /-- The manifest is published. -/
  | completed (release : PreparedRelease)
  | failed (error : LocalPdmError)
  /-- A crash leaves a temporary file that was not renamed yet. -/
  | crashed (left : Option FilePath)

namespace Creator

variable {S : Type}

/-- On to the next target. -/
def next (release : PreparedRelease) : List Target → Creator S
  | [] => completed release
  | target :: rest => publishing release target rest .looking

/-- The temporary file a creator holds, or has left. -/
def temporary : Creator S → Option FilePath
  | publishing _ target _ stage => stage.temporary target
  | crashed left => left
  | _ => none

def released : Creator S → List PreparedRelease
  | completed release => [release]
  | _ => []

end Creator

/-- `NamedTempFile` removes its file where it is dropped. -/
def dropTemporary (files : Files) : Option FilePath → Files
  | none => files
  | some path => files.erase path

variable [ReleaseJson] {S : Type} [DocumentCodec S]

/-- What a creator is to write: a parent is read before anything is. -/
def prepareCreation (files : Files) (parent : Option String) (request : ReleaseRequest S) :
    Except LocalPdmError PreparedRelease :=
  match parent with
  | none => prepareRelease none request
  | some parentReleaseId => do
    let manifest ← openParent files parentReleaseId request
    prepareRelease (some manifest) request

/-- What one creator does next. -/
inductive CreatorStep : Files → Creator S → Files → Creator S → Prop
  | prepare {files : Files} {parent : Option String} {request : ReleaseRequest S}
      {release : PreparedRelease} (prepared : prepareCreation files parent request = .ok release) :
      CreatorStep files (.requested parent request) files (.next release release.targets)
  | refuse {files : Files} {parent : Option String} {request : ReleaseRequest S}
      {error : LocalPdmError} (refused : prepareCreation files parent request = .error error) :
      CreatorStep files (.requested parent request) files (.failed error)
  | missing {files : Files} {release : PreparedRelease} {target : Target} {rest : List Target}
      (absent : files[target.path]? = none) :
      CreatorStep files (.publishing release target rest .looking)
        files (.publishing release target rest .absent)
  | found {files : Files} {release : PreparedRelease} {target : Target} {rest : List Target}
      {actual : Bytes} (present : files[target.path]? = some actual)
      (same : target.whenPresent actual = .ok ()) :
      CreatorStep files (.publishing release target rest .looking) files (.next release rest)
  | conflict {files : Files} {release : PreparedRelease} {target : Target} {rest : List Target}
      {actual : Bytes} {error : LocalPdmError} (present : files[target.path]? = some actual)
      (other : target.whenPresent actual = .error error) :
      CreatorStep files (.publishing release target rest .looking) files (.failed error)
  | openTemporary {files : Files} {release : PreparedRelease} {target : Target} {rest : List Target}
      {name : String} (named : IsTemporaryName name)
      (fresh : files[target.temporary name]? = none) :
      CreatorStep files (.publishing release target rest .absent)
        (files.insert (target.temporary name) [])
        (.publishing release target rest (.writing name 0))
  | write {files : Files} {release : PreparedRelease} {target : Target} {rest : List Target}
      {name : String} {written more : Nat} (further : written < more)
      (within : more ≤ target.bytes.length) :
      CreatorStep files (.publishing release target rest (.writing name written))
        (files.insert (target.temporary name) (target.bytes.take more))
        (.publishing release target rest (.writing name more))
  | sync {files : Files} {release : PreparedRelease} {target : Target} {rest : List Target}
      {name : String} :
      CreatorStep files (.publishing release target rest (.writing name target.bytes.length))
        files (.publishing release target rest (.synced name))
  /-- `persist_noclobber`: the temporary file itself becomes the target. -/
  | persist {files : Files} {release : PreparedRelease} {target : Target} {rest : List Target}
      {name : String} {content : Bytes} (absent : files[target.path]? = none)
      (held : files[target.temporary name]? = some content) :
      CreatorStep files (.publishing release target rest (.synced name))
        ((files.erase (target.temporary name)).insert target.path content) (.next release rest)
  /-- Another creator was first, with the same. -/
  | outrun {files : Files} {release : PreparedRelease} {target : Target} {rest : List Target}
      {name : String} {actual : Bytes} (present : files[target.path]? = some actual)
      (same : target.whenPresent actual = .ok ()) :
      CreatorStep files (.publishing release target rest (.synced name))
        (files.erase (target.temporary name)) (.next release rest)
  | outrunConflict {files : Files} {release : PreparedRelease} {target : Target}
      {rest : List Target} {name : String} {actual : Bytes} {error : LocalPdmError}
      (present : files[target.path]? = some actual)
      (other : target.whenPresent actual = .error error) :
      CreatorStep files (.publishing release target rest (.synced name))
        (files.erase (target.temporary name)) (.failed error)
  /-- Any failure of the file system. -/
  | fail {files : Files} {release : PreparedRelease} {target : Target} {rest : List Target}
      {stage : Stage} :
      CreatorStep files (.publishing release target rest stage)
        (dropTemporary files (stage.temporary target)) (.failed .io)
  | crash {files : Files} {release : PreparedRelease} {target : Target} {rest : List Target}
      {stage : Stage} :
      CreatorStep files (.publishing release target rest stage)
        files (.crashed (stage.temporary target))
  | crashEarly {files : Files} {parent : Option String} {request : ReleaseRequest S} :
      CreatorStep files (.requested parent request) files (.crashed none)

/-- A repository, all creators that ever were, and the completed releases, newest first. -/
structure System (S : Type) [Sha256Sum] where
  files : Files
  creators : List (Creator S)
  published : List PreparedRelease

inductive SystemStep : System S → System S → Prop
  | start {files : Files} {creators : List (Creator S)} {published : List PreparedRelease}
      (parent : Option String) (request : ReleaseRequest S) :
      SystemStep ⟨files, creators, published⟩
        ⟨files, .requested parent request :: creators, published⟩
  | move {files after : Files} {creator creator' : Creator S} {before others : List (Creator S)}
      {published : List PreparedRelease} (step : CreatorStep files creator after creator') :
      SystemStep ⟨files, before ++ creator :: others, published⟩
        ⟨after, before ++ creator' :: others, creator'.released ++ published⟩

/-- Any number of steps. -/
abbrev SystemSteps : System S → System S → Prop := Relation.ReflTransGen SystemStep

/-- The empty repository, before any creator. -/
def System.initial : System S := ⟨∅, [], []⟩

end Creators

end Ketchup.Pdm
