import Pkgly.Algorithm.Pool
import Pkgly.Database.Project
import Pkgly.Deb.Metadata

/-!
# Uploads to a hosted Debian repository

`handle_upload` and `push_metadata`: what is decided from the form (`prepareUpload`), and the
sequence of the atomic steps after it, over the storage and the catalogue.  The file is saved in the
pool, at a path that is built from the name of the client's file, before the catalogue is asked
whether the version exists.  Every step can fail.

Authentication and the splitting of the form into its fields come before the first step; the
webhook after the last step changes nothing here.
-/

namespace Pkgly.Deb

/-! ### Forms -/

structure DebHostedConfig where
  distributions : List String
  components : List String
  architectures : List String

structure UploadForm where
  distribution : Option String
  component : Option String
  packageBytes : Option Bytes
  uploadFilename : Option String

inductive DebRepositoryError
  | invalidRequest (message : String)
  | package (e : DebPackageError)
  | storage (e : StorageError)
  | database
  /-- Any other failure of a step. -/
  | failed
deriving DecidableEq

def lookupValue (values : List String) (requested : String) : Option String :=
  values.find? fun value => eqIgnoreAsciiCase value requested

def lookupOrDefault (values : List String) (requested : Option String) : Option String :=
  match requested with
  | some requested => lookupValue values requested
  | none => values.head?

def poolPrefix (package : String) : Char :=
  let first := package.toList.head?.getD '_'
  if first.isAlphanum then first.toLower else '_'

def buildPoolPath (component package fileName : String) : StoragePath :=
  let path := StoragePath.ofString
    ("pool/" ++ component ++ "/" ++ String.ofList [poolPrefix package] ++ "/" ++ package)
  if fileName = "" then path else path.push fileName

structure Upload (format : DebFormat) where
  distribution : String
  component : String
  architecture : String
  package : String
  version : String
  fileName : String
  content : Bytes
  parsed : ParsedPackage
  parsed_content : parseDebPackage format content = .ok parsed

variable {format : DebFormat}

def Upload.storagePath (u : Upload format) : StoragePath :=
  buildPoolPath u.component u.package u.fileName

/-- The checks of `handle_upload` before it saves the file. -/
def prepareUpload (format : DebFormat) (config : DebHostedConfig) (form : UploadForm) :
    Except DebRepositoryError (Upload format) :=
  match form.packageBytes with
  | none => .error (.invalidRequest "Missing package field")
  | some content =>
    match lookupOrDefault config.distributions form.distribution with
    | none => .error (.invalidRequest "Invalid distribution")
    | some distribution =>
      match lookupOrDefault config.components form.component with
      | none => .error (.invalidRequest "Invalid component")
      | some component =>
        match h : parseDebPackage format content with
        | .error e => .error (.package e)
        | .ok parsed =>
          match parsed.control.get "Package" with
          | none => .error (.invalidRequest "Missing Package field")
          | some package =>
            match parsed.control.get "Version" with
            | none => .error (.invalidRequest "Missing Version field")
            | some version =>
              match parsed.control.get "Architecture" with
              | none => .error (.invalidRequest "Missing Architecture field")
              | some requested =>
                match lookupValue config.architectures requested with
                | none => .error (.invalidRequest "Unsupported architecture")
                | some architecture =>
                  let fileName := (form.uploadFilename.filter fun name => name ≠ "").getD
                    (package ++ "_" ++ version ++ "_" ++ architecture ++ ".deb")
                  .ok ⟨distribution, component, architecture, package, version, fileName, content,
                    parsed, h⟩

def Upload.metadata (u : Upload format) : DebPackageMetadata where
  distribution := u.distribution
  component := u.component
  architecture := u.architecture
  filename := u.storagePath.toString'
  size := u.parsed.fileSize
  md5 := u.parsed.md5
  sha1 := u.parsed.sha1
  sha256 := u.parsed.sha256
  «section» := u.parsed.control.get "Section"
  priority := u.parsed.control.get "Priority"
  maintainer := u.parsed.control.get "Maintainer"
  installedSize := (u.parsed.control.get "Installed-Size").bind fun value => parseU64 value.toList
  depends := parseDependencyList (u.parsed.control.get "Depends")
  homepage := u.parsed.control.get "Homepage"
  description := u.parsed.control.get "Description"

structure VersionData where
  description : Option String
  extra : DebPackageMetadata

def Upload.versionData (u : Upload format) : VersionData where
  description := u.metadata.description.bind fun value => (lines value).head?.map String.ofList
  extra := u.metadata

/-! ### Steps -/

structure DebHosted where
  storage : DynStorage
  catalogue : Catalogue VersionData

inductive Stage (format : DebFormat)
  | saveFile (u : Upload format)
  | findProject (u : Upload format)
  | insertProject (u : Upload format)
  | findVersion (u : Upload format) (projectId : ℕ)
  | insertVersion (u : Upload format) (projectId : ℕ)
  /-- The row of `package_files`, which is not modelled. -/
  | recordFile (u : Upload format)
  | done (answer : Except DebRepositoryError Unit)

def attempt {α : Type} (fails : Bool) (result : Except StorageError α) :
    Except DebRepositoryError α :=
  if fails then .error .failed
  else
    match result with
    | .ok a => .ok a
    | .error e => .error (.storage e)

def attemptSql {α : Type} (fails : Bool) (result : Option α) : Except DebRepositoryError α :=
  if fails then .error .failed
  else
    match result with
    | some a => .ok a
    | none => .error .database

def performStage (c : Collation) (fails : Bool) (s : DebHosted) :
    Stage format → Except DebRepositoryError (DebHosted × Stage format)
  | .saveFile u =>
    (attempt fails (s.storage.saveFile u.content u.storagePath)).map fun storage =>
      ({ s with storage }, .findProject u)
  | .findProject u =>
    (attemptSql fails (some (s.catalogue.findByProjectKey c (c.toLowercase u.package)))).map
      fun found =>
        match found with
        | some project => (s, .findVersion u project.id)
        | none => (s, .insertProject u)
  | .insertProject u =>
    (attemptSql fails (s.catalogue.insertProject c (c.toLowercase u.package)
        (buildPoolPath u.component u.package "").toString')).map fun (catalogue, project) =>
      ({ s with catalogue }, .findVersion u project.id)
  | .findVersion u projectId =>
    (attemptSql fails (some (s.catalogue.findByVersionAndProject u.version projectId))).bind
      fun found =>
        if found.isSome then .error (.invalidRequest ("Version " ++ u.version ++ " already exists"))
        else .ok (s, .insertVersion u projectId)
  | .insertVersion u projectId =>
    (attemptSql fails (s.catalogue.insertVersion c projectId u.version u.storagePath.toString'
        u.versionData)).map fun catalogue => ({ s with catalogue }, .recordFile u)
  | .recordFile _ => (attemptSql fails (some ())).map fun _ => (s, .done (.ok ()))
  | .done answer => .ok (s, .done answer)

structure Process (format : DebFormat) where
  stage : Stage format
  /-- The upload has saved its file where another content, or none, was stored before. -/
  hasChanged : Bool

/-- Whether the step changes the stored file at the path of the upload. -/
def Stage.changes (st : DynStorage) : Stage format → Bool
  | .saveFile u => st.objects.get u.storagePath.components != some u.content
  | _ => false

/-- The next step of an upload; an error ends it. -/
def Process.next (c : Collation) (fails : Bool) (s : DebHosted) (r : Process format) :
    Option (DebHosted × Process format) :=
  match r.stage with
  | .done _ => none
  | stage =>
    match performStage c fails s stage with
    | .ok (s', stage') => some (s', ⟨stage', r.hasChanged || stage.changes s.storage⟩)
    | .error e => some (s, { r with stage := .done (.error e) })

/-- `handle_upload`, as a process. -/
def debHosted (format : DebFormat) (c : Collation) (config : DebHostedConfig) :
    Program DebHosted (Process format) UploadForm Bool where
  init form :=
    match prepareUpload format config form with
    | .error e => ⟨.done (.error e), false⟩
    | .ok u => ⟨.saveFile u, false⟩
  next := Process.next c

end Pkgly.Deb
