import Pkgly.Algorithm.Pool
import Pkgly.Database.Project
import Pkgly.Npm.Types

/-!
# Publishing to a hosted npm registry

`persist_publication` as the sequence of its atomic steps, over the storage and the catalogue: the
project and the row of the version are created if they are missing, and the tarball is saved.  A
request is a process (`Algorithm/Pool`), and every step can fail.  The statements on the
distribution tags (`Npm/Tags`) are steps that can fail and change nothing here.

`resolveTarballPath` is where a tarball is looked up.  Authentication, the parsing of the body and
the check of the tags come before the first step, and the webhook after the last one changes
nothing here.
-/

namespace Pkgly.Npm

variable {ε : Type}

structure NpmHosted (ε : Type) where
  storage : DynStorage
  catalogue : Catalogue (PublishVersion ε)

structure Publication (format : NpmFormat) (names : RepositoryNames) (ε : Type) where
  request : PublishRequest ε
  file : String
  validated : validatePublication format names request = .ok file

variable {format : NpmFormat} {names : RepositoryNames}

def projectPath (data : PublishVersion ε) : StoragePath := .ofString data.name.toString'

def versionPath (data : PublishVersion ε) : StoragePath := (projectPath data).push data.version

def tarballPath (data : PublishVersion ε) (file : String) : StoragePath :=
  (versionPath data).push file

def Publication.data (u : Publication format names ε) : PublishVersion ε := u.request.data

def Publication.attachment (u : Publication format names ε) : Bytes := u.request.attachment

def Publication.path (u : Publication format names ε) : StoragePath := tarballPath u.data u.file

/-- The step that a publication takes next. -/
inductive Stage
  | findProject
  | insertProject
  /-- The tags, or the versions that they are inferred from. -/
  | loadTags (projectId : ℕ)
  | findVersion (projectId : ℕ)
  | insertVersion (projectId : ℕ)
  | recordFile (projectId : ℕ)
  | saveFile (projectId : ℕ)
  | lockProject (projectId : ℕ)
  | mergeTags (projectId : ℕ)
  | commit (projectId : ℕ)
  | done (answer : Except NPMRegistryError Unit)
deriving DecidableEq

def attempt {α : Type} (fails : Bool) (result : Except StorageError α) :
    Except NPMRegistryError α :=
  if fails then .error .other
  else
    match result with
    | .ok a => .ok a
    | .error _ => .error .other

def attemptSql {α : Type} (fails : Bool) (result : Option α) : Except NPMRegistryError α :=
  if fails then .error .other
  else
    match result with
    | some a => .ok a
    | none => .error .other

/-- The step at a stage; `fails` makes it fail. -/
def performStage (c : Collation) (u : Publication format names ε) (fails : Bool)
    (s : NpmHosted ε) : Stage → Except NPMRegistryError (NpmHosted ε × Stage)
  | .findProject =>
    (attemptSql fails (some (s.catalogue.findByProjectKey c u.data.name.toString'))).map fun found =>
      match found with
      | some project => (s, .loadTags project.id)
      | none => (s, .insertProject)
  | .insertProject =>
    (attemptSql fails (s.catalogue.insertProject c u.data.name.toString'
        (projectPath u.data).toString')).map fun (catalogue, project) =>
      ({ s with catalogue }, .loadTags project.id)
  | .loadTags projectId =>
    (attemptSql fails (some ())).map fun _ => (s, .findVersion projectId)
  | .findVersion projectId =>
    (attemptSql fails (some (s.catalogue.findByVersionAndProject u.data.version projectId))).map
      fun found => (s, if found.isSome then .saveFile projectId else .insertVersion projectId)
  | .insertVersion projectId =>
    (attemptSql fails (s.catalogue.insertVersion c projectId u.data.version
        (versionPath u.data).toString' u.data)).map fun catalogue =>
      ({ s with catalogue }, .recordFile projectId)
  -- the row of `package_files`, which is not modelled
  | .recordFile projectId => (attemptSql fails (some ())).map fun _ => (s, .saveFile projectId)
  | .saveFile projectId =>
    (attempt fails (s.storage.saveFile u.attachment u.path)).map fun storage =>
      ({ s with storage }, .lockProject projectId)
  | .lockProject projectId => (attemptSql fails (some ())).map fun _ => (s, .mergeTags projectId)
  | .mergeTags projectId => (attemptSql fails (some ())).map fun _ => (s, .commit projectId)
  | .commit _ => (attemptSql fails (some ())).map fun _ => (s, .done (.ok ()))
  | .done answer => .ok (s, .done answer)

/-- A request in progress, or answered. -/
inductive Publish (format : NpmFormat) (names : RepositoryNames) (ε : Type)
  | refused (e : NPMRegistryError)
  | publishes (u : Publication format names ε) (stage : Stage)

/-- `handle_publish` up to its first step. -/
def handlePublish (format : NpmFormat) (names : RepositoryNames) (request : PublishRequest ε) :
    Publish format names ε :=
  match h : validatePublication format names request with
  | .error e => .refused e
  | .ok file => .publishes ⟨request, file, h⟩ .findProject

def Publish.next (c : Collation) (fails : Bool) (s : NpmHosted ε) :
    Publish format names ε → Option (NpmHosted ε × Publish format names ε)
  | .refused _ => none
  | .publishes _ (.done _) => none
  | .publishes u stage =>
    match performStage c u fails s stage with
    | .ok (s', stage') => some (s', .publishes u stage')
    | .error e => some (s, .publishes u (.done (.error e)))

def npmHosted (format : NpmFormat) (names : RepositoryNames) (c : Collation) (ε : Type) :
    Program (NpmHosted ε) (Publish format names ε) (PublishRequest ε) Bool where
  init := handlePublish format names
  next := Publish.next c

def resolveTarballPath {δ : Type} (c : Collation) (catalogue : Catalogue δ)
    (name version file : String) : Option StoragePath :=
  (catalogue.findByProjectKey c name).bind fun project =>
    (catalogue.findByVersionAndProject version project.id).map fun row =>
      (StoragePath.ofString row.path).push file

end Pkgly.Npm
