import Pkgly.Algorithm.Pool
import Pkgly.Deb.Metadata

/-!
# Refreshes of a Debian proxy

`refresh_deb_proxy_offline_mirror` as a sequence of atomic steps over the storage and the upstream.
The nested loops over distributions, components and architectures are the list of their bodies
(`DebProxyLayout.tasks`); the packages that an index lists are put before the tasks that remain.

The upstream answers a request with the file of its present snapshot at the path below the upstream
URL, with 404 when it has none, or with an error.  The rows of the catalogue that
`record_deb_proxy_cache_hit` writes are not modelled, only that it can fail.
-/

namespace Pkgly.Deb

/-! ### Configuration -/

inductive DebProxyLayout
  | dists (distributions components architectures : List String)
  | flat (distribution : String)

structure DebProxyFormat extends DebFormat where
  gunzip : Bytes → Option Bytes
  unxz : Bytes → Option Bytes

/-! ### Indexes -/

structure PackagesIndexEntry where
  filename : String
  size : Option ℕ
  sha256 : Option String
deriving DecidableEq

inductive InvalidIndex
  | notUtf8
  | stanza (e : ControlParseError)
  | gzip
deriving DecidableEq

inductive DebProxyRefreshError
  | indexing
  | storage (e : StorageError)
  | upstream
  | upstreamStatus (status : ℕ)
  | invalidPackagesIndex (reason : InvalidIndex)
  | packageSizeMismatch (path : String) (expected actual : ℕ)
  | packageSha256Mismatch (path expected actual : String)
deriving DecidableEq

structure DebProxyRefreshSummary where
  downloadedPackages : ℕ
  downloadedFiles : ℕ
deriving DecidableEq

/-- `split("\n\n")`. -/
def stanzas : List Char → List (List Char)
  | [] => [[]]
  | '\n' :: '\n' :: rest => [] :: stanzas rest
  | ch :: rest =>
    match stanzas rest with
    | [] => [[ch]]
    | piece :: more => (ch :: piece) :: more

def entryOf (control : ControlFile) : Option PackagesIndexEntry :=
  (control.get "Filename").map fun filename =>
    ⟨filename, (control.get "Size").bind fun value => parseU64 value.toList, control.get "SHA256"⟩

def parseStanzas : List (List Char) → Except InvalidIndex (List PackagesIndexEntry)
  | [] => .ok []
  | stanza :: rest =>
    let text := String.ofList (trim (String.ofList stanza))
    if text = "" then parseStanzas rest
    else
      match ControlFile.parse text with
      | .error e => .error (.stanza e)
      | .ok control => (parseStanzas rest).map fun entries => (entryOf control).toList ++ entries

def parsePackagesIndex (bytes : Bytes) : Except InvalidIndex (List PackagesIndexEntry) :=
  match fromUtf8 bytes with
  | none => .error .notUtf8
  | some contents => parseStanzas (stanzas contents.toList)

def PackagesIndexEntry.isDeb (entry : PackagesIndexEntry) : Bool :=
  endsWith ".deb" (toAsciiLowercase entry.filename)

def PackagesIndexEntry.path (entry : PackagesIndexEntry) : StoragePath :=
  .ofString entry.filename

def PackagesIndexEntry.check (format : DebProxyFormat) (entry : PackagesIndexEntry)
    (bytes : Bytes) : Except DebProxyRefreshError Unit :=
  match entry.size.filter fun expected => expected ≠ bytes.length with
  | some expected => .error (.packageSizeMismatch entry.filename expected bytes.length)
  | none =>
    match entry.sha256.filter fun expected =>
        !eqIgnoreAsciiCase expected (format.sha256Hex bytes) with
    | some expected =>
      .error (.packageSha256Mismatch entry.filename expected (format.sha256Hex bytes))
    | none => .ok ()

def byHashPathForIndex (indexPath : StoragePath) (sha256 : String) : Option StoragePath :=
  if indexPath.components.length < 2 then none
  else
    some (.ofString (String.intercalate "/"
      (indexPath.components.dropLast ++ ["by-hash", "SHA256", sha256])))

/-! ### Tasks -/

inductive Task
  /-- `Release`, `InRelease` or `Release.gpg`. -/
  | file (path : StoragePath)
  /-- The index of a component and an architecture. -/
  | packages (path : StoragePath)
  /-- A package that an index lists. -/
  | deb (entry : PackagesIndexEntry)
  /-- The index of a flat repository in the directory. -/
  | flatPackages (directory : String)
  /-- Its compressed form, after the uncompressed one has been read or was missing. -/
  | flatPackagesGz (directory : String) (parseBytes : Option Bytes)

/-- `trim_start_matches("./")`. -/
def trimStartDotSlash : List Char → List Char
  | '.' :: '/' :: rest => trimStartDotSlash rest
  | text => text

def normalizeFlat (distribution : String) : String :=
  let text := (trimStartDotSlash (trim distribution)).dropWhile (· = '.')
  String.ofList (((text.dropWhile (· = '/')).reverse.dropWhile (· = '/')).reverse)

def flatPackagesPath (directory : String) : StoragePath :=
  if directory = "" then .ofString "Packages" else .ofString (directory ++ ("/" ++ "Packages"))

def flatPackagesGzPath (directory : String) : StoragePath :=
  .ofString ((flatPackagesPath directory).toString' ++ ".gz")

def Task.path : Task → StoragePath
  | .file path | .packages path => path
  | .deb entry => entry.path
  | .flatPackages directory => flatPackagesPath directory
  | .flatPackagesGz directory _ => flatPackagesGzPath directory

def DebProxyLayout.tasks : DebProxyLayout → List Task
  | .dists distributions components architectures =>
    distributions.flatMap fun distribution =>
      [.file (.ofString ("dists/" ++ distribution ++ "/Release")),
        .file (.ofString ("dists/" ++ distribution ++ "/InRelease")),
        .file (.ofString ("dists/" ++ distribution ++ "/Release.gpg"))] ++
      components.flatMap fun component =>
        architectures.map fun architecture =>
          .packages (.ofString ("dists/" ++ distribution ++ "/" ++ component ++ "/binary-" ++
            architecture ++ "/Packages"))
  | .flat distribution => [.flatPackages (normalizeFlat distribution)]

/-! ### Steps -/

/-- The files of an upstream, keyed as those of the storage. -/
abbrev Snapshot := Objects

structure DebProxy where
  storage : DynStorage
  upstream : Snapshot

inductive Outcome
  | succeeds
  | fails
  /-- The upstream answers a status that is neither a success nor 404. -/
  | refused (status : ℕ)
deriving DecidableEq

def fetchUpstreamBytes (outcome : Outcome) (upstream : Snapshot) (path : StoragePath) :
    Except DebProxyRefreshError (Option Bytes) :=
  match outcome with
  | .succeeds => .ok (upstream.get path.components)
  | .fails => .error .upstream
  | .refused status => .error (.upstreamStatus status)

def attemptStorage {α : Type} (outcome : Outcome) (result : Except StorageError α) :
    Except DebProxyRefreshError α :=
  match outcome with
  | .succeeds =>
    match result with
    | .ok a => .ok a
    | .error e => .error (.storage e)
  | _ => .error (.storage .ioError)

inductive RefreshStage
  /-- `get_file_information` of a package. -/
  | lookup (entry : PackagesIndexEntry)
  | fetch (task : Task)
  | save (task : Task) (bytes : Bytes)
  /-- The alias of an index, after the index itself. -/
  | saveByHash (path : StoragePath) (bytes : Bytes)
  /-- The index that was decoded from its compressed form. -/
  | saveDecoded (directory : String) (bytes : Bytes)
  | record (entry : PackagesIndexEntry)

structure Refresh where
  stage : RefreshStage
  rest : List Task
  summary : DebProxyRefreshSummary

/-- A refresh after a step: it goes on, or it returns. -/
inductive Progress
  | running (r : Refresh)
  | returned (summary : DebProxyRefreshSummary)

def proceed (tasks : List Task) (summary : DebProxyRefreshSummary) : Progress :=
  match tasks with
  | [] => .returned summary
  | .deb entry :: rest => .running ⟨.lookup entry, rest, summary⟩
  | task :: rest => .running ⟨.fetch task, rest, summary⟩

def DebProxyRefreshSummary.addFile (summary : DebProxyRefreshSummary) : DebProxyRefreshSummary :=
  { summary with downloadedFiles := summary.downloadedFiles + 1 }

def DebProxyRefreshSummary.addPackage (summary : DebProxyRefreshSummary) :
    DebProxyRefreshSummary :=
  ⟨summary.downloadedPackages + 1, summary.downloadedFiles + 1⟩

def enterIndex (bytes : Bytes) (rest : List Task) (summary : DebProxyRefreshSummary) :
    Except DebProxyRefreshError Progress :=
  match parsePackagesIndex bytes with
  | .error e => .error (.invalidPackagesIndex e)
  | .ok entries =>
    .ok (proceed ((entries.filter PackagesIndexEntry.isDeb).map Task.deb ++ rest) summary)

def missing (r : Refresh) : Task → Except DebProxyRefreshError Progress
  | .file _ | .packages _ | .deb _ => .ok (proceed r.rest r.summary)
  | .flatPackages directory =>
    .ok (.running { r with stage := .fetch (.flatPackagesGz directory none) })
  -- a flat repository has no other task, so that the refresh returns
  | .flatPackagesGz _ none => .ok (proceed r.rest ⟨0, r.summary.downloadedFiles⟩)
  | .flatPackagesGz _ (some bytes) => enterIndex bytes r.rest r.summary

def fetched (format : DebProxyFormat) (r : Refresh) (task : Task) (bytes : Bytes) :
    Except DebProxyRefreshError Progress :=
  match task with
  | .deb entry =>
    (entry.check format bytes).map fun _ => .running { r with stage := .save task bytes }
  | _ => .ok (.running { r with stage := .save task bytes })

def saved (format : DebProxyFormat) (r : Refresh) (task : Task) (bytes : Bytes) :
    Except DebProxyRefreshError Progress :=
  match task with
  | .file _ => .ok (proceed r.rest r.summary.addFile)
  | .packages path =>
    match byHashPathForIndex path (format.sha256Hex bytes) with
    | some byHash => .ok (.running ⟨.saveByHash byHash bytes, r.rest, r.summary.addFile⟩)
    | none => enterIndex bytes r.rest r.summary.addFile
  | .deb entry => .ok (.running { r with stage := .record entry })
  | .flatPackages directory =>
    .ok (.running ⟨.fetch (.flatPackagesGz directory (some bytes)), r.rest, r.summary.addFile⟩)
  | .flatPackagesGz _ (some parseBytes) => enterIndex parseBytes r.rest r.summary.addFile
  | .flatPackagesGz directory none =>
    match format.gunzip bytes with
    | none => .error (.invalidPackagesIndex .gzip)
    | some decoded => .ok (.running ⟨.saveDecoded directory decoded, r.rest, r.summary.addFile⟩)

/-- `save_bytes`, and what comes after it. -/
def saveBytes (outcome : Outcome) (s : DebProxy) (path : StoragePath) (bytes : Bytes)
    (next : Except DebProxyRefreshError Progress) :
    DebProxy × Except DebProxyRefreshError Progress :=
  match attemptStorage outcome (s.storage.saveFile bytes path) with
  | .error e => (s, .error e)
  | .ok storage => ({ s with storage }, next)

def lookedUp (r : Refresh) (entry : PackagesIndexEntry) (found : Option (Option ℕ)) : Progress :=
  match found with
  | some _ => proceed r.rest r.summary
  | none => .running { r with stage := .fetch (.deb entry) }

def answered (format : DebProxyFormat) (r : Refresh) (task : Task) (found : Option Bytes) :
    Except DebProxyRefreshError Progress :=
  match found with
  | none => missing r task
  | some bytes => fetched format r task bytes

def Refresh.perform (format : DebProxyFormat) (outcome : Outcome) (s : DebProxy) (r : Refresh) :
    DebProxy × Except DebProxyRefreshError Progress :=
  match r.stage with
  | .lookup entry =>
    (s, (attemptStorage outcome (s.storage.getFileInformation entry.path)).map (lookedUp r entry))
  | .fetch task =>
    (s, (fetchUpstreamBytes outcome s.upstream task.path).bind (answered format r task))
  | .save task bytes => saveBytes outcome s task.path bytes (saved format r task bytes)
  | .saveByHash path bytes =>
    saveBytes outcome s path bytes (enterIndex bytes r.rest r.summary.addFile)
  | .saveDecoded directory bytes =>
    saveBytes outcome s (flatPackagesPath directory) bytes
      (enterIndex bytes r.rest r.summary.addFile)
  | .record _ =>
    match outcome with
    | .succeeds => (s, .ok (proceed r.rest r.summary.addPackage))
    | _ => (s, .error .indexing)

end Pkgly.Deb
