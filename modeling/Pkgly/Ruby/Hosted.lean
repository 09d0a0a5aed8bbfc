import Pkgly.Algorithm.Pool
import Pkgly.Database.Project
import Pkgly.Ruby.CompactIndex

/-!
# Publishing and yanking gems

`handle_publish` and `handle_yank` of a hosted Ruby repository as the sequence of their atomic
steps, over the storage and the catalogue.  Both end with `rebuild_indexes`, which loads the rows
once and then writes the indexes one file after the other (`IndexStep`).  Every step can fail.

Authentication, the reading of the gem into a temporary file and its parsing, and the parsing of
the form come before the first step; the webhooks are not modelled.  SHA-256, MD5, Marshal and gzip
are the parameter `RubyFormat`.
-/

namespace Pkgly.Ruby

structure RubyFormat where
  sha256Hex : Bytes → String
  md5Hex : Bytes → String
  /-- The compressed list of specs. -/
  buildSpecsGz : List SpecsIndexEntry → Option Bytes

/-! ### Requests -/

structure ParsedGemSpec where
  name : String
  version : String
  platform : Option String
  dependencies : List RubyDependencyMetadata
  requiredRuby : Option String
  requiredRubygems : Option String

structure YankForm where
  gemName : String
  version : String
  platform : Option String

inductive Request
  | publish (parsed : ParsedGemSpec) (content : Bytes)
  | yank (form : YankForm)

def Request.gemName : Request → String
  | .publish parsed _ => parsed.name
  | .yank form => form.gemName

def Request.version : Request → String
  | .publish parsed _ => parsed.version
  | .yank form => form.version

def Request.platform : Request → Option String
  | .publish parsed _ => parsed.platform
  | .yank form => form.platform

def versionKey (version : String) (platform : Option String) : String :=
  match platform with
  | none => version
  | some platform => if platform = "ruby" then version else version ++ "-" ++ platform

def gemFileName (name version : String) (platform : Option String) : String :=
  match platform with
  | none => name ++ "-" ++ version ++ ".gem"
  | some platform =>
    if platform = "ruby" then name ++ "-" ++ version ++ ".gem"
    else name ++ "-" ++ version ++ "-" ++ platform ++ ".gem"

variable (c : Collation)

def Request.packageKey (request : Request) : String := c.toLowercase request.gemName

def Request.versionKey (request : Request) : String :=
  Ruby.versionKey request.version request.platform

def Request.fileName (request : Request) : String :=
  gemFileName (request.packageKey c) request.version request.platform

def Request.gemPath (request : Request) : StoragePath :=
  .ofString ("gems/" ++ request.fileName c)

def gemMetadata (format : RubyFormat) (parsed : ParsedGemSpec) (content : Bytes) :
    RubyPackageMetadata where
  filename := (Request.publish parsed content).fileName c
  platform := parsed.platform
  sha256 := some (format.sha256Hex content)
  dependencies := parsed.dependencies
  requiredRuby := parsed.requiredRuby
  requiredRubygems := parsed.requiredRubygems

/-! ### Steps -/

structure RubyHosted where
  storage : DynStorage
  catalogue : Catalogue RubyPackageMetadata

def loadCompactIndexRows (db : Catalogue RubyPackageMetadata) : List RubyCompactIndexRow :=
  db.versions.flatMap fun v => (db.projects.filter fun p => p.id == v.projectId).map fun p =>
    ⟨p.key, p.key, v.version, v.extra⟩

/-- What a request has changed: the row it has inserted, or deleted. -/
inductive Change
  | published (id : ℕ)
  | yanked (id : ℕ)
deriving DecidableEq

inductive Answer
  | ok (change : Change)
  | conflict (message : String)
  | notFound (message : String)
  | error
deriving DecidableEq

/-- The steps of `write_compact_index_files` and `write_full_index_files`. -/
inductive IndexStep
  | saveNames
  | saveVersions
  /-- `delete_stale_info_files` lists the directory ... -/
  | listInfos
  /-- ... and deletes the files of other gems. -/
  | deleteInfo (name : String)
  | saveInfo (gemKey info : String)
  | saveSpecs
  | saveLatestSpecs
  | savePrereleaseSpecs
deriving DecidableEq

inductive Stage
  | findProject
  | insertProject
  | findVersion (projectId : ℕ)
  | saveGem (projectId : ℕ)
  | insertVersion (projectId : ℕ)
  /-- The row of `package_files`, which is not modelled. -/
  | recordFile (id : ℕ)
  | deleteVersion (version : DBProjectVersion RubyPackageMetadata)
  | deleteGem (version : DBProjectVersion RubyPackageMetadata)
  | countVersions (version : DBProjectVersion RubyPackageMetadata)
  | deleteProject (version : DBProjectVersion RubyPackageMetadata)
  | loadRows (change : Change)
  | writeIndexes (change : Change) (rows : List RubyCompactIndexRow)
      (artifacts : CompactIndexArtifacts) (left : List IndexStep)
  | done (answer : Answer)
deriving DecidableEq

/-- What decides a step besides the state: whether it fails, and the time. -/
structure Tick where
  fails : Bool
  now : String

def namesPath : StoragePath := .ofString "names"

def versionsPath : StoragePath := .ofString "versions"

def infoPath (gemKey : String) : StoragePath := .ofString ("info/" ++ gemKey)

def specsPath : StoragePath := .ofString "specs.4.8.gz"

def indexSteps (artifacts : CompactIndexArtifacts) : List IndexStep :=
  [.saveNames, .saveVersions, .listInfos] ++
    artifacts.infos.map (fun info => .saveInfo info.1 info.2) ++
    [.saveSpecs, .saveLatestSpecs, .savePrereleaseSpecs]

/-- The files among the entries of a directory that belong to no gem of the index. -/
def staleInfos (artifacts : CompactIndexArtifacts) (files : List (String × Bool)) : List String :=
  (files.filter fun file => file.2 && !(artifacts.infos.map Prod.fst).contains file.1).map Prod.fst

/-- The bytes of the three lists of specs, which are built before the first of them is saved. -/
def specsBytes (format : RubyFormat) (rows : List RubyCompactIndexRow) : Option (Bytes × Bytes) :=
  (format.buildSpecsGz (rows.map specsEntry)).bind fun specs =>
    (format.buildSpecsGz []).map fun empty => (specs, empty)

def attempt {α : Type} (tick : Tick) (result : Except StorageError α) : Option α :=
  if tick.fails then none else result.toOption

def attemptSql {α : Type} (tick : Tick) (result : Option α) : Option α :=
  if tick.fails then none else result

def performIndexStep (format : RubyFormat) (tick : Tick) (st : DynStorage)
    (rows : List RubyCompactIndexRow) (artifacts : CompactIndexArtifacts) :
    IndexStep → Option (DynStorage × List IndexStep)
  | .saveNames =>
    (attempt tick (st.saveFile (intoBytes artifacts.names) namesPath)).map fun st => (st, [])
  | .saveVersions =>
    (attempt tick (st.saveFile (intoBytes artifacts.versions) versionsPath)).map fun st => (st, [])
  | .listInfos =>
    (attempt tick (st.streamDirectory (.ofString "info/"))).map fun files =>
      (st, (staleInfos artifacts (files.getD [])).map .deleteInfo)
  | .deleteInfo name =>
    (attempt tick (st.deleteFile (infoPath name))).map fun result => (result.1, [])
  | .saveInfo gemKey info =>
    (attempt tick (st.saveFile (intoBytes info) (infoPath gemKey))).map fun st => (st, [])
  | .saveSpecs =>
    (specsBytes format rows).bind fun specs =>
      (attempt tick (st.saveFile specs.1 specsPath)).map fun st => (st, [])
  | .saveLatestSpecs =>
    (specsBytes format rows).bind fun specs =>
      (attempt tick (st.saveFile specs.1 (.ofString "latest_specs.4.8.gz"))).map fun st => (st, [])
  | .savePrereleaseSpecs =>
    (specsBytes format rows).bind fun specs =>
      (attempt tick (st.saveFile specs.2 (.ofString "prerelease_specs.4.8.gz"))).map
        fun st => (st, [])

/-- The step at a stage; `none` when it fails. -/
def performStage (format : RubyFormat) (tick : Tick) (s : RubyHosted) (request : Request) :
    Stage → Option (RubyHosted × Stage)
  | .findProject =>
    (attemptSql tick (some (s.catalogue.findByProjectKey c (request.packageKey c)))).map fun found =>
      match found, request with
      | some project, _ => (s, .findVersion project.id)
      | none, .publish .. => (s, .insertProject)
      | none, .yank _ => (s, .done (.notFound "Gem not found"))
  | .insertProject =>
    (attemptSql tick (s.catalogue.insertProject c (request.packageKey c)
        (request.packageKey c ++ "/"))).map fun (catalogue, project) =>
      ({ s with catalogue }, .findVersion project.id)
  | .findVersion projectId =>
    (attemptSql tick (some (s.catalogue.findByVersionAndProject request.versionKey projectId))).map
      fun found =>
        match found, request with
        | some _, .publish .. => (s, .done (.conflict "Version already exists"))
        | none, .publish .. => (s, .saveGem projectId)
        | some version, .yank _ => (s, .deleteVersion version)
        | none, .yank _ => (s, .done (.notFound "Version not found"))
  | .saveGem projectId =>
    match request with
    | .publish _ content =>
      (attempt tick (s.storage.saveFile content (request.gemPath c))).map fun storage =>
        ({ s with storage }, .insertVersion projectId)
    | .yank _ => none
  | .insertVersion projectId =>
    match request with
    | .publish parsed content =>
      (attemptSql tick (s.catalogue.insertVersion c projectId request.versionKey
          (request.gemPath c).toString' (gemMetadata c format parsed content))).map fun catalogue =>
        ({ s with catalogue }, .recordFile s.catalogue.nextId)
    | .yank _ => none
  | .recordFile id =>
    (attemptSql tick (some ())).map fun _ => (s, .loadRows (.published id))
  | .deleteVersion version =>
    (attemptSql tick (some (s.catalogue.deleteVersion version.id))).map fun catalogue =>
      ({ s with catalogue }, .deleteGem version)
  | .deleteGem version =>
    (attempt tick (s.storage.deleteFile (.ofString version.path))).map fun result =>
      ({ s with storage := result.1 }, .countVersions version)
  | .countVersions version =>
    (attemptSql tick (some (s.catalogue.countVersions version.projectId))).map fun remaining =>
      (s, if remaining = 0 then .deleteProject version else .loadRows (.yanked version.id))
  | .deleteProject version =>
    (attemptSql tick (some (s.catalogue.deleteProject version.projectId))).map fun catalogue =>
      ({ s with catalogue }, .loadRows (.yanked version.id))
  | .loadRows change =>
    (attemptSql tick (some (loadCompactIndexRows s.catalogue))).bind fun rows =>
      match buildCompactIndexArtifacts format.md5Hex tick.now rows with
      | .error _ => none
      | .ok artifacts => some (s, .writeIndexes change rows artifacts (indexSteps artifacts))
  | .writeIndexes change rows artifacts (step :: left) =>
    (performIndexStep format tick s.storage rows artifacts step).map fun (storage, front) =>
      ({ s with storage }, .writeIndexes change rows artifacts (front ++ left))
  | .writeIndexes change _ _ [] => some (s, .done (.ok change))
  | .done answer => some (s, .done answer)

structure Process where
  request : Request
  stage : Stage

/-- The next step of a request; an error ends it. -/
def Process.next (format : RubyFormat) (tick : Tick) (s : RubyHosted) (r : Process) :
    Option (RubyHosted × Process) :=
  match r.stage with
  | .done _ => none
  | stage =>
    match performStage c format tick s r.request stage with
    | some (s', stage') => some (s', { r with stage := stage' })
    | none => some (s, { r with stage := .done .error })

/-- `handle_publish` and `handle_yank`, as processes. -/
def rubyHosted (format : RubyFormat) : Program RubyHosted Process Request Tick where
  init request := ⟨request, .findProject⟩
  next := Process.next c format

end Pkgly.Ruby
