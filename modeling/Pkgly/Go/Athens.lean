import Mathlib.Data.List.Sort
import Pkgly.Algorithm.Store
import Pkgly.Algorithm.Trim
import Pkgly.Go.Hosted
import Pkgly.Go.Types
import Pkgly.Storage.DynStorage

/-!
# Uploads of Go modules by form

What `handle_athens_upload` reads of a form before it writes anything: the module, the version, the
archive, and the `go.mod` and the `.info` that are taken from the archive or made up where the form
has none.  The archive is written as it came, and is made canonical only then; the steps from there
on are those of `Request.athens`.

The form, the archives and the texts of `.info` files are read by other libraries, which are
parameters here (`UploadLibrary`).
-/

/-!
## Archives of Go modules

`canonicalize_module_zip` puts the files of an uploaded archive below `<module>@<version>/`.  What
stands before them in the archive is taken to be the longest common prefix of their paths; where two
files come to the same path the first one is kept, and the `go.mod` is the one of the upload.

Archives are read and written by another library: here they are lists of entries.
-/

namespace Pkgly.Go

/-- An entry of an archive; the name of a directory may end with a slash, and that of a file may
not. -/
structure ArchiveEntry where
  name : String
  isDir : Bool
  content : Bytes
  isDir_of_slash : endsWith "/" name = true → isDir = true

/-- `replace('\\', "/")`. -/
def withSlashes (name : List Char) : List Char :=
  name.map fun ch => if ch = '\\' then '/' else ch

/-- `trim_matches('/')` after that. -/
def normalizedName (name : String) : List Char := trimWhile (· == '/') (withSlashes name.toList)

/-- The check of a path; nothing starts with a slash after it has been trimmed. -/
def isIllegalPath (path : List Char) : Bool :=
  "../".toList.isPrefixOf path || containsText "/../" (String.ofList path) ||
    "/".toList.isPrefixOf path

abbrev Components := List (List Char)

def archiveFiles (archive : List ArchiveEntry) : List (Components × Bytes) :=
  (archive.filter (!·.isDir)).filterMap fun entry =>
    let path := normalizedName entry.name
    if path = [] then none else some (path.splitOn '/', entry.content)

def commonPrefix {α : Type*} [DecidableEq α] : List α → List α → List α
  | a :: as, b :: bs => if a = b then a :: commonPrefix as bs else []
  | _, _ => []

/-- `longest_common_prefix`, whose loop stops early at an empty prefix. -/
def longestCommonPrefix : List Components → Components
  | [] => []
  | entry :: entries => entries.foldl commonPrefix entry

/-- `entry(path).or_insert_with(..)`. -/
def insertFirst (files : Store String Bytes) (path : String) (content : Bytes) :
    Store String Bytes :=
  if (files.get path).isSome then files else files.put path content

/-- `<module>@<version>/`. -/
def canonicalRoot (module : GoModulePath) (version : GoVersion) : List Char :=
  module.text.toList ++ '@' :: version.text.toList ++ ['/']

def canonicalName (root : List Char) (relative : Components) : String :=
  String.ofList (root ++ ['/'].intercalate relative)

/-- The path of the `go.mod`. -/
def goModRelative : Components := ["go.mod".toList]

def canonicalFiles (root : List Char) (files : List (Components × Bytes)) (goMod : Bytes) :
    Store String Bytes :=
  let skip := (longestCommonPrefix (files.map Prod.fst)).length
  (files.foldl (fun normalized file =>
    let relative := file.1.drop skip
    if relative = [] then normalized
    else insertFirst normalized (canonicalName root relative) file.2) ∅).put
    (canonicalName root goModRelative) goMod

/-- `canonicalize_module_zip`; `none` is an illegal path. -/
def canonicalizeModuleZip (module : GoModulePath) (version : GoVersion)
    (archive : List ArchiveEntry) (goMod : Bytes) : Option (List (String × Bytes)) :=
  if (archive.filter (!·.isDir)).any fun entry => isIllegalPath (normalizedName entry.name) then
    none
  else
    let files := canonicalFiles (canonicalRoot module version) (archiveFiles archive) goMod
    some ((files.entries.map fun e => (e.1, e.2)).insertionSort fun a b => a.1 ≤ b.1)

end Pkgly.Go

namespace Pkgly.Go

structure FormField where
  name : Option String
  content : Bytes
  text : Option String

/-- An entry of an archive; its content may be damaged. -/
structure ZipEntry where
  entry : ArchiveEntry
  readable : Bool

structure UploadLibrary where
  /-- `multer`, for a content type and a body. -/
  parseForm : String → Bytes → Option (List FormField)
  /-- The `Version` of a JSON text, if it is a string. -/
  infoVersion : Bytes → Option (Option String)
  /-- The `.info` of a version at the time of the upload. -/
  generateInfo : GoVersion → Bytes
  /-- `ZipArchive`; an entry may not be readable by its index. -/
  readArchive : Bytes → Option (List (Option ZipEntry))
  /-- `ZipWriter`. -/
  writeArchive : List (String × Bytes) → Option Bytes

structure UploadRequest where
  contentType : Option String
  body : Bytes

structure Upload where
  module : GoModulePath
  version : GoVersion
  archive : Bytes
  goMod : Bytes
  info : Bytes
deriving DecidableEq

def lastField (fields : List FormField) (name : String) : Option FormField :=
  (fields.filter fun field => field.name == some name).getLast?

/-- The text of the last field of a name, without white space around it. -/
def lastText (fields : List FormField) (name : String) : Option String :=
  (lastField fields name).bind fun field =>
    field.text.map fun text => String.ofList (trim text)

/-- The first entry whose name ends as that of a `go.mod` does. -/
def extractGoMod : List (Option ZipEntry) → Option Bytes
  | [] => none
  | none :: _ => none
  | some file :: files =>
    if endsWith "go.mod" file.entry.name then
      if file.readable then some file.entry.content else none
    else extractGoMod files

/-- The `.info` of the form, which must not name another version, or a new one. -/
def readInfo (lib : UploadLibrary) (fields : List FormField) (version : GoVersion) :
    Option Bytes :=
  match lastField fields "info" with
  | none => some (lib.generateInfo version)
  | some field =>
    (lib.infoVersion field.content).bind fun declared =>
      if declared.all (· == version.text) then some field.content else none

/-- What the handler reads before it writes; `none` is an answer with an error. -/
def readUpload (lib : UploadLibrary) (request : UploadRequest) : Option Upload := do
  let contentType ← request.contentType
  if !startsWith "multipart/form-data" contentType then none
  let fields ← lib.parseForm contentType request.body
  -- a text that cannot be read ends the loop over the fields
  if fields.any fun field =>
    (field.name == some "version" || field.name == some "module_name") && field.text.isNone then
    none
  let archive ← lastField fields "module"
  let version ← lastText fields "version"
  let module ← lastText fields "module_name"
  let module ← GoModulePath.new module
  let version ← GoVersion.new version
  let info ← readInfo lib fields version
  let goMod ← match lastField fields "gomod" with
    | some field => some field.content
    | none => (lib.readArchive archive.content).bind extractGoMod
  some ⟨module, version, archive.content, goMod, info⟩

def isPlaced (archive : List ArchiveEntry) (entry : ArchiveEntry) : Bool :=
  let path := normalizedName entry.name
  !entry.isDir && path != [] && (path.splitOn '/').drop
    (longestCommonPrefix ((archiveFiles archive).map Prod.fst)).length != []

/-- The canonical archive of an upload; `none` is an answer with an error. -/
def canonicalArchive (lib : UploadLibrary) (upload : Upload) : Option Bytes := do
  let entries ← lib.readArchive upload.archive
  let entries ← entries.mapM id
  let archive := entries.map ZipEntry.entry
  let files ← canonicalizeModuleZip upload.module upload.version archive upload.goMod
  if entries.any fun file => isPlaced archive file.entry && !file.readable then none
  lib.writeArchive files

def Upload.request (lib : UploadLibrary) (upload : Upload) : Request :=
  .athens upload.version upload.archive (canonicalArchive lib upload) upload.goMod upload.info

/-- The next steps of a request that runs alone, which may fail; whether it has been rejected, and
what it leaves. -/
def runAlone (s : GoHosted) (r : Process) : List Bool → Bool × GoHosted
  | [] => (false, s)
  | fails :: steps =>
    match r.status with
    | .running (.reject :: _) => (true, s)
    | _ =>
      match r.next fails s with
      | some (s', r') => runAlone s' r' steps
      | none => (false, s)

/-- `handle_athens_upload`. -/
def handleUpload (lib : UploadLibrary) (s : GoHosted) (request : UploadRequest)
    (steps : List Bool) : Bool × GoHosted :=
  match readUpload lib request with
  | none => (true, s)
  | some upload => runAlone s ((goHosted upload.module).init (upload.request lib)) steps

end Pkgly.Go
