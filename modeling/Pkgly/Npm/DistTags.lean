import Pkgly.Algorithm.Pool
import Pkgly.Npm.Types
import Pkgly.Repository.Packages

/-!
# Changing the distribution tags of an npm project

Publishing, setting and removing a tag, and deleting versions, as sequences of the statements that
they run on one project.  Changes of the tags and the deletion of rows are made in transactions,
which others see when they are committed; a transaction that has locked the row of the project keeps
others from locking it, and from changing the tags.  A request is a process (`Algorithm/Pool`), and
every step can fail, which rolls its transaction back.

The storage, the manifests of versions and the rows of `package_files` are not part of this module.
-/

namespace Pkgly.Npm

/-! ### The project -/

/-- A row of `project_versions`, with the transaction that has deleted it and is not committed. -/
structure VersionRow where
  version : String
  path : String
  deletedBy : Option ℕ
deriving DecidableEq

inductive TagEdit
  | merge (tags : Tags)
  | remove (tag : String)
  | clear (version : String)

structure TaggedProject where
  versions : List VersionRow
  /-- `npm_dist_tags`; `none` is `NULL`. -/
  tags : Option Tags
  /-- The transaction that has locked the row of the project. -/
  lock : Option ℕ
  nextTx : ℕ
  /-- The changes that have been committed, the latest first; no step reads them. -/
  history : List TagEdit

structure Transaction where
  id : ℕ
  written : Option Tags
  edits : List TagEdit

namespace TaggedProject

variable (s : TaggedProject) (tx : Transaction)

def begin : TaggedProject × Transaction := ({ s with nextTx := s.nextTx + 1 }, ⟨s.nextTx, none, []⟩)

/-- `SELECT … FOR UPDATE`; `none` while another transaction has the lock. -/
def lockRow : Option TaggedProject :=
  if s.lock = none ∨ s.lock = some tx.id then some { s with lock := some tx.id } else none

def view : Option Tags := tx.written.or s.tags

/-- `UPDATE projects SET npm_dist_tags = …`. -/
def update (edit : TagEdit) (tags : Tags) : Option (TaggedProject × Transaction) :=
  (s.lockRow tx).map fun s => (s, { tx with written := some tags, edits := edit :: tx.edits })

def commit : TaggedProject where
  versions := s.versions.filter fun v => v.deletedBy ≠ some tx.id
  tags := s.view tx
  lock := if s.lock = some tx.id then none else s.lock
  nextTx := s.nextTx
  history := tx.edits ++ s.history

def rollback : TaggedProject :=
  { s with
    versions := s.versions.map fun v => if v.deletedBy = some tx.id then { v with deletedBy := none } else v
    lock := if s.lock = some tx.id then none else s.lock }

/-- The tags that are inferred from the versions (`stable_version_candidates`, `legacy_dist_tags`). -/
def inferredTags (format : TagFormat) : Tags :=
  legacyDistTags format ((s.versions.reverse.map (·.version)).filter isStableCandidate)

def hasVersion (version : String) : Bool := s.versions.any fun v => v.version == version

end TaggedProject

/-! ### Statements on tags -/

def mergeTags (s : TaggedProject) (tx : Transaction) (tags fallback : Tags) :
    Option (TaggedProject × Transaction) :=
  s.update tx (.merge tags) (((s.view tx).getD fallback).putAll tags)

def removeTag (s : TaggedProject) (tx : Transaction) (tag : String) (fallback : Tags) :
    Option (TaggedProject × Transaction) :=
  s.update tx (.remove tag) (((s.view tx).getD fallback).remove tag)

/-- `clear_deleted_version_tags`, which changes nothing if no tags are stored and the version is not
the inferred latest one. -/
def clearDeletedVersionTags (s : TaggedProject) (tx : Transaction) (version : String)
    (clearInferredLatest : Bool) : Option (TaggedProject × Transaction) :=
  if (s.view tx).isSome || clearInferredLatest then
    s.update tx (.clear version) (((s.view tx).getD ∅).filterValues (· != version))
  else some (s, tx)

/-! ### Requests -/

structure TagPublication (format : TagFormat) where
  version : String
  path : String
  tags : Tags
  valid : ∃ requested, publishTags format requested version = some tags

inductive TagChange
  | set (tag version : String)
  | remove (tag : String)
deriving DecidableEq

/-- The rows of one transaction of a deletion: those at the paths, or below them too. -/
structure DeletionTargets where
  paths : List String
  includeDescendants : Bool
deriving DecidableEq

inductive TagRequest
  | publish (version path : String) (tags : Tags)
  | change (r : TagChange)
  | delete (transactions : List DeletionTargets)

inductive TagAnswer
  | done
  | notFound
  | error (e : NPMRegistryError)
deriving DecidableEq

inductive PublishStage
  | loadTags
  | loadCandidates
  | findVersion (fallback : Tags)
  | insertVersion (fallback : Tags)
  | lockProject (fallback : Tags)
  | mergeTags (tx : Transaction) (fallback : Tags)
  | commit (tx : Transaction)

inductive ChangeStage
  | lockProject
  | loadTags (tx : Transaction)
  | loadCandidates (tx : Transaction)
  | check (tx : Transaction) (fallback : Tags)
  | write (tx : Transaction) (fallback : Tags)
  | commit (tx : Transaction)

/-- The step that a deletion takes next, with the transactions that follow. -/
inductive DeleteStage
  | lockProjects (rest : List DeletionTargets)
  | loadTags (tx : Transaction) (targets : DeletionTargets) (rest : List DeletionTargets)
  | loadCandidates (tx : Transaction) (targets : DeletionTargets) (rest : List DeletionTargets)
  | deleteRows (tx : Transaction) (inferred : Option String) (targets : DeletionTargets)
      (rest : List DeletionTargets)
  /-- The tags of the versions `cleared` are to be cleared. -/
  | clear (tx : Transaction) (inferred : Option String) (versions : List String)
      (targets : DeletionTargets) (rest : List DeletionTargets)
  | commit (tx : Transaction) (rest : List DeletionTargets)

inductive TagProcess (format : TagFormat)
  | publish (u : TagPublication format) (stage : PublishStage)
  | change (r : TagChange) (stage : ChangeStage)
  | delete (stage : DeleteStage)
  | done (answer : TagAnswer)

variable {format : TagFormat}

def TagRequest.start (format : TagFormat) : TagRequest → TagProcess format
  | .publish version path requested =>
    match h : publishTags format requested version with
    | some tags => .publish ⟨version, path, tags, requested, h⟩ .loadTags
    | none => .done (.error .invalidDistTags)
  | .change (.set tag version) => .change (.set tag version) .lockProject
  | .change (.remove tag) =>
    if tag = "latest" then .done (.error .cannotRemoveLatest) else .change (.remove tag) .lockProject
  | .delete transactions => .delete (.lockProjects (transactions.filter fun t => t.paths ≠ []))

/-! ### Steps -/

/-- `persist_publication`. -/
def publishNext (s : TaggedProject) (u : TagPublication format) :
    PublishStage → Option (TaggedProject × TagProcess format)
  | .loadTags =>
    match s.tags with
    | some tags => some (s, .publish u (.findVersion tags))
    | none => some (s, .publish u .loadCandidates)
  | .loadCandidates => some (s, .publish u (.findVersion (s.inferredTags format)))
  | .findVersion fallback =>
    some (s, .publish u
      (if s.hasVersion u.version then .lockProject fallback else .insertVersion fallback))
  | .insertVersion fallback =>
    match s.versions.find? fun v => v.version == u.version with
    | none =>
      some ({ s with versions := s.versions ++ [⟨u.version, u.path, none⟩] },
        .publish u (.lockProject fallback))
    -- the row of the version conflicts, unless its deletion is committed
    | some row =>
      if row.deletedBy = none then some (s, .done (.error .other)) else none
  | .lockProject fallback =>
    let (s, tx) := s.begin
    (s.lockRow tx).map fun s => (s, .publish u (.mergeTags tx fallback))
  | .mergeTags tx fallback =>
    (mergeTags s tx u.tags fallback).map fun (s, tx) => (s, .publish u (.commit tx))
  | .commit tx => some (s.commit tx, .done .done)

/-- `change_dist_tag`. -/
def changeNext (s : TaggedProject) (r : TagChange) :
    ChangeStage → Option (TaggedProject × TagProcess format)
  | .lockProject =>
    let (s, tx) := s.begin
    (s.lockRow tx).map fun s => (s, .change r (.loadTags tx))
  | .loadTags tx =>
    match s.tags with
    | some tags => some (s, .change r (.check tx tags))
    | none => some (s, .change r (.loadCandidates tx))
  | .loadCandidates tx => some (s, .change r (.check tx (s.inferredTags format)))
  | .check tx fallback =>
    let found := match r with
      | .set _ version => s.hasVersion version
      | .remove tag => (fallback.get tag).isSome
    if found then some (s, .change r (.write tx fallback))
    else some (s.rollback tx, .done .notFound)
  | .write tx fallback =>
    let result := match r with
      | .set tag version => mergeTags s tx (( ∅ : Tags).put tag version) fallback
      | .remove tag => removeTag s tx tag fallback
    result.map fun (s, tx) => (s, .change r (.commit tx))
  | .commit tx => some (s.commit tx, .done .done)

/-- `sql_delete_project_versions`, for each transaction. -/
def deleteNext (c : Collation) (s : TaggedProject) :
    DeleteStage → Option (TaggedProject × TagProcess format)
  | .lockProjects [] => some (s, .done .done)
  | .lockProjects (targets :: rest) =>
    let (s, tx) := s.begin
    if s.versions.any fun v => targets.paths.any fun path =>
        Packages.matchesTarget c targets.includeDescendants path v.path then
      (s.lockRow tx).map fun s =>
        (s, .delete (if s.tags.isSome then .deleteRows tx none targets rest
          else .loadTags tx targets rest))
    else some (s, .delete (.deleteRows tx none targets rest))
  | .loadTags tx targets rest =>
    match s.tags with
    | some tags => some (s, .delete (.deleteRows tx (tags.get "latest") targets rest))
    | none => some (s, .delete (.loadCandidates tx targets rest))
  | .loadCandidates tx targets rest =>
    some (s, .delete (.deleteRows tx ((s.inferredTags format).get "latest") targets rest))
  | .deleteRows tx _ ⟨[], _⟩ rest => some (s, .delete (.commit tx rest))
  | .deleteRows tx inferred ⟨path :: paths, includeDescendants⟩ rest =>
    let matched := fun v : VersionRow => v.deletedBy != some tx.id &&
      Packages.matchesTarget c includeDescendants path v.path
    -- a row that another transaction has deleted is waited for
    if s.versions.any fun v => matched v && v.deletedBy.isSome then none
    else
      let versions := s.versions.map fun v => if matched v then { v with deletedBy := some tx.id } else v
      some ({ s with versions }, .delete (.clear tx inferred
        ((s.versions.filter matched).map (·.version)) ⟨paths, includeDescendants⟩ rest))
  | .clear tx inferred [] targets rest => some (s, .delete (.deleteRows tx inferred targets rest))
  | .clear tx inferred (version :: versions) targets rest =>
    (clearDeletedVersionTags s tx version (inferred == some version)).map fun (s, tx) =>
      (s, .delete (.clear tx inferred versions targets rest))
  | .commit tx rest => some (s.commit tx, .delete (.lockProjects rest))

def TagProcess.transaction? : TagProcess format → Option Transaction
  | .publish _ (.mergeTags tx _) | .publish _ (.commit tx) => some tx
  | .publish _ _ => none
  | .change _ .lockProject => none
  | .change _ (.loadTags tx) | .change _ (.loadCandidates tx) | .change _ (.check tx _)
  | .change _ (.write tx _) | .change _ (.commit tx) => some tx
  | .delete (.lockProjects _) => none
  | .delete (.loadTags tx _ _) | .delete (.loadCandidates tx _ _) | .delete (.deleteRows tx _ _ _)
  | .delete (.clear tx _ _ _ _) | .delete (.commit tx _) => some tx
  | .done _ => none

/-- The next step of a request; `fails` makes it fail. -/
def TagProcess.next (c : Collation) (fails : Bool) (s : TaggedProject) (p : TagProcess format) :
    Option (TaggedProject × TagProcess format) :=
  match p with
  | .done _ => none
  | p =>
    if fails then
      some (match p.transaction? with
        | some tx => s.rollback tx
        | none => s, .done (.error .other))
    else
      match p with
      | .publish u stage => publishNext s u stage
      | .change r stage => changeNext s r stage
      | .delete stage => deleteNext c s stage
      | .done _ => none

def npmTags (format : TagFormat) (c : Collation) :
    Program TaggedProject (TagProcess format) TagRequest Bool where
  init := TagRequest.start format
  next := TagProcess.next c

end Pkgly.Npm
