import Pkgly.Algorithm.Pool
import Pkgly.Docker.Manifests
import Pkgly.Docker.Reconcile
import Pkgly.Docker.Uploads

/-!
# The rows of the Docker objects

`docker_objects` has a row for each object of a repository, with its size, the objects that it
refers to and a revision.  A push (`put_manifest`) or the completion of an upload writes an object
to the storage and then its row; `reconcile_docker_objects` compares the rows with the storage and
corrects them, guarded by the revisions that it has read.  Both are processes of a pool: each access
to the storage and each statement is one step, and steps of different processes come in any order.

An object carries how often its path has been written (`version`), and whether the last write has
had its row written (`recorded`); the code keeps neither.  What the walk for manifests finds, and
what `needs_backfill` answers, may be anything, and every step may fail.  Left out are what a push
or an upload does before its first write, its entries in the catalog and its webhook events.
-/

namespace Pkgly.Docker.ObjectAccounting

structure StoredObject where
  content : Bytes
  version : ℕ
  recorded : Bool
deriving DecidableEq

/-- A row of `docker_objects`, at its path. -/
structure ObjectRow where
  sizeBytes : ℕ
  references : List String
  revision : ℕ
deriving DecidableEq

abbrev ObjectRows := Store String ObjectRow

/-- The storage of a repository, by the paths that its locations print, and the rows. -/
structure Accounting where
  objects : Store String StoredObject
  rows : ObjectRows

/-! ### Statements -/

/-- `i64::try_from` of a size. -/
def tryFromSize (size : ℕ) : Option ℕ := if size < 2 ^ 63 then some size else none

def insertMissing (rows : ObjectRows) (path : String) (size : ℕ) (references : List String) :
    Option ObjectRows :=
  (tryFromSize size).map fun size =>
    match rows.get path with
    | some _ => rows
    | none => rows.put path ⟨size, references, 0⟩

/-- `upsert`, which leaves a row alone that says the same. -/
def upsert (rows : ObjectRows) (path : String) (size : ℕ) (references : List String) :
    Option ObjectRows :=
  (tryFromSize size).map fun size =>
    match rows.get path with
    | none => rows.put path ⟨size, references, 0⟩
    | some row =>
      if row.sizeBytes = size ∧ row.references = references then rows
      else rows.put path ⟨size, references, row.revision + 1⟩

def updateIfRevision (rows : ObjectRows) (path : String) (expected : ℕ)
    (update : ObjectRow → ObjectRow) : ObjectRows × Bool :=
  match rows.get path with
  | none => (rows, false)
  | some row =>
    if row.revision = expected then
      (rows.put path { update row with revision := row.revision + 1 }, true)
    else (rows, false)

def updateSizeIfRevision (rows : ObjectRows) (path : String) (size expected : ℕ) :
    Option (ObjectRows × Bool) :=
  (tryFromSize size).map fun size =>
    updateIfRevision rows path expected fun row => { row with sizeBytes := size }

def upsertIfRevision (rows : ObjectRows) (path : String) (size : ℕ) (references : List String)
    (expected : ℕ) : Option (ObjectRows × Bool) :=
  (tryFromSize size).map fun size =>
    updateIfRevision rows path expected fun row =>
      { row with sizeBytes := size, references := references }

/-- The row is one that `delete_paths_if_revisions` removes. -/
def deletes (rows : ObjectRows) (candidates : List (String × ℕ)) (path : String) : Bool :=
  (rows.get path).any fun row => decide ((path, row.revision) ∈ candidates)

/-- `delete_paths_if_revisions`, and how many rows it removes. -/
def deletePathsIfRevisions (rows : ObjectRows) (candidates : List (String × ℕ)) :
    ObjectRows × ℕ :=
  (rows.removeIf (deletes rows candidates), (rows.keys.filter (deletes rows candidates)).length)

/-! ### Writers -/

structure ObjectWrite where
  location : StoragePath
  wellFormed : location.WellFormed
  content : Bytes
  references : List String
deriving DecidableEq

def ObjectWrite.path (write : ObjectWrite) : String := write.location.toString'

inductive Writer
  | save (write : ObjectWrite) (rest : List ObjectWrite)
  | record (version : ℕ) (write : ObjectWrite) (rest : List ObjectWrite)
  | completed
  | failed
deriving DecidableEq

def Writer.next : List ObjectWrite → Writer
  | [] => .completed
  | write :: rest => .save write rest

inductive Choice
  | ok
  /-- It fails; a write to the storage may have been made all the same. -/
  | error (done : Bool)
  /-- The content of a manifest cannot be read. -/
  | unread
  /-- The paths of the manifests that the walk over the storage finds. -/
  | found (entries : List String)
  /-- The answer of `needs_backfill`. -/
  | answer (needsBackfill : Bool)
deriving DecidableEq

namespace Accounting

def nextVersion (st : Accounting) (path : String) : ℕ :=
  ((st.objects.get path).map fun object => object.version + 1).getD 0

def saveObject (st : Accounting) (write : ObjectWrite) : Accounting :=
  { st with objects :=
      st.objects.put write.path ⟨write.content, st.nextVersion write.path, false⟩ }

def markRecorded (st : Accounting) (path : String) (version : ℕ) : Accounting :=
  match st.objects.get path with
  | none => st
  | some object =>
    if object.version = version then
      { st with objects := st.objects.put path { object with recorded := true } }
    else st

def nextWriter (st : Accounting) : Writer → Choice → Option (Accounting × Writer)
  | .save write rest, .ok =>
    some (st.saveObject write, .record (st.nextVersion write.path) write rest)
  | .save write _, .error true => some (st.saveObject write, .failed)
  | .save _ _, .error false => some (st, .failed)
  | .record version write rest, .ok =>
    match upsert st.rows write.path write.content.length write.references with
    | none => some (st, .failed)
    | some rows => some ({ st with rows := rows }.markRecorded write.path version, .next rest)
  | .record _ _ _, .error _ => some (st, .failed)
  | _, _ => none

end Accounting

/-! ### Reconciliation -/

/-- `DockerReconcileSummary`. -/
structure ReconcileSummary where
  backfilled : ℕ
  corrected : ℕ
  removed : ℕ
deriving DecidableEq

/-- A row as `list_rows` returns it. -/
structure ListedRow where
  path : String
  storedSize : ℕ
  revision : ℕ
deriving DecidableEq

structure BackfillObject where
  object : ObservedObject
  revision : Option ℕ
deriving DecidableEq

/-- The loop of `backfill_manifest_objects`, the top of the stack first. -/
structure Backfill where
  repositoryName : String
  pending : List String
  visited : List String
  objects : List BackfillObject
deriving DecidableEq

inductive Stage
  | collect
  /-- The manifests that are left to check. -/
  | check (entries : List String)
  | walk (backfill : Backfill) (entries : List String)
  /-- The revision is read, and the object comes next. -/
  | probe (path : String) (revision : Option ℕ) (backfill : Backfill) (entries : List String)
  | publish (objects : List BackfillObject) (entries : List String)
  | scan (rows : List ListedRow)
  | compare (inventory : Option (Store String ℕ)) (rows : List ListedRow)
      (missing : List (String × ℕ))
  | update (size : ℕ) (row : ListedRow) (inventory : Option (Store String ℕ))
      (rows : List ListedRow) (missing : List (String × ℕ))
  | completed
  | failed

/-- `reconcile_docker_objects`. -/
structure Reconcile where
  stage : Stage
  summary : ReconcileSummary

/-- The parameters of a registry: how JSON is read, the digests, and the kind of its storage. -/
structure Registry where
  serde : SerdeJson
  sha : Sha256
  isS3 : Bool

namespace Accounting

def objectAt (st : Accounting) (path : String) : Option StoredObject :=
  st.objects.get (StoragePath.ofString path).toString'

/-- What a backfill finds at a path: the objects it refers to, and the object itself; `none` when
`manifest_references` does not return. -/
def observe (serde : SerdeJson) (st : Accounting) (repositoryName path : String) :
    Option (List String × List ObservedObject) :=
  match st.objectAt path with
  | none => some ([], [])
  | some object =>
    if (splitManifestCachePath path).isSome then
      (manifestReferences serde repositoryName object.content).map fun references =>
        (references, [⟨path, object.content.length, references⟩])
    else some ([], [⟨path, object.content.length, []⟩])

/-- The loop over `pending`: the next path, and the revision of its row. -/
def nextWalk (st : Accounting) (backfill : Backfill) (entries : List String) : Stage :=
  match backfill.pending with
  | [] => .publish backfill.objects.reverse entries
  | path :: pending =>
    if path ∈ backfill.visited then .walk { backfill with pending := pending } entries
    else
      .probe path ((st.rows.get path).map ObjectRow.revision)
        { backfill with pending := pending, visited := path :: backfill.visited } entries

def nextProbe (serde : SerdeJson) (st : Accounting) (path : String) (revision : Option ℕ)
    (backfill : Backfill) (entries : List String) : Option Stage :=
  (st.observe serde backfill.repositoryName path).map fun (references, objects) =>
    .walk { backfill with
      pending := references.reverse ++ backfill.pending
      objects := backfill.objects ++ objects.map fun object => ⟨object, revision⟩ } entries

def publishObject (rows : ObjectRows) (o : BackfillObject) : Option ObjectRows :=
  match o.revision with
  | some revision =>
    (upsertIfRevision rows o.object.path o.object.size o.object.references revision).map Prod.fst
  | none => insertMissing rows o.object.path o.object.size o.object.references

def listRows (rows : ObjectRows) : List ListedRow :=
  rows.entries.map fun e => ⟨e.1, e.2.sizeBytes, e.2.revision⟩

/-- `list_repository_objects`, with the sizes. -/
def inventoryOf (objects : Store String StoredObject) : Store String ℕ :=
  objects.mapValues fun object => object.content.length

def judgeRow (row : ListedRow) (observed : Option ℕ) (inventory : Option (Store String ℕ))
    (rows : List ListedRow) (missing : List (String × ℕ)) : Stage :=
  match observed with
  | none => .compare inventory rows (missing ++ [(row.path, row.revision)])
  | some size =>
    if size ≠ row.storedSize then .update size row inventory rows missing
    else .compare inventory rows missing

def observedSize (st : Accounting) (inventory : Option (Store String ℕ)) (path : String) :
    Option ℕ :=
  match inventory with
  | some inventory => inventory.get path
  | none => (st.objectAt path).map fun object => object.content.length

def finishRows (st : Accounting) (missing : List (String × ℕ)) (summary : ReconcileSummary) :
    Accounting × Reconcile :=
  if missing = [] then (st, ⟨.completed, summary⟩)
  else
    let (rows, removed) := deletePathsIfRevisions st.rows missing
    ({ st with rows := rows }, ⟨.completed, { summary with removed := removed }⟩)

def nextReconcile (registry : Registry) (st : Accounting) (summary : ReconcileSummary) :
    Stage → Choice → Option (Accounting × Reconcile)
  | .collect, .found entries => some (st, ⟨.check entries, summary⟩)
  | .collect, .error _ => some (st, ⟨.failed, summary⟩)
  | .check [], .ok =>
    let rows := listRows st.rows
    some (st, ⟨if registry.isS3 then .scan rows else .compare none rows [], summary⟩)
  | .check (_ :: entries), .answer false => some (st, ⟨.check entries, summary⟩)
  | .check (entry :: entries), .answer true =>
    match splitManifestCachePath entry with
    | none =>
      some (st, ⟨.check entries, { summary with backfilled := summary.backfilled + 1 }⟩)
    | some (name, _) => some (st, ⟨.walk ⟨name, [entry], [], []⟩ entries, summary⟩)
  | .check _, .error _ => some (st, ⟨.failed, summary⟩)
  | .walk backfill entries, .ok => some (st, ⟨st.nextWalk backfill entries, summary⟩)
  | .walk _ entries, .error _ => some (st, ⟨.check entries, summary⟩)
  | .probe path revision backfill entries, .ok =>
    (st.nextProbe registry.serde path revision backfill entries).map fun stage =>
      (st, ⟨stage, summary⟩)
  | .probe _ _ backfill entries, .unread => some (st, ⟨.walk backfill entries, summary⟩)
  | .probe _ _ _ entries, .error _ => some (st, ⟨.check entries, summary⟩)
  | .publish [] entries, .ok =>
    some (st, ⟨.check entries, { summary with backfilled := summary.backfilled + 1 }⟩)
  | .publish (o :: objects) entries, .ok =>
    match publishObject st.rows o with
    | none => some (st, ⟨.check entries, summary⟩)
    | some rows => some ({ st with rows := rows }, ⟨.publish objects entries, summary⟩)
  | .publish _ entries, .error _ => some (st, ⟨.check entries, summary⟩)
  | .scan rows, .ok =>
    some (st, ⟨.compare (some (inventoryOf st.objects)) rows [], summary⟩)
  | .scan _, .error _ => some (st, ⟨.failed, summary⟩)
  | .compare _ [] missing, .ok => some (st.finishRows missing summary)
  | .compare _ [] _, .error _ => some (st, ⟨.failed, summary⟩)
  | .compare inventory (row :: rows) missing, .ok =>
    some (st, ⟨judgeRow row (st.observedSize inventory row.path) inventory rows missing, summary⟩)
  -- a row whose object cannot be looked up is skipped
  | .compare none (_ :: rows) missing, .error _ => some (st, ⟨.compare none rows missing, summary⟩)
  | .update size row inventory rows missing, .ok =>
    match updateSizeIfRevision st.rows row.path size row.revision with
    | none => some (st, ⟨.failed, summary⟩)
    | some (rows', corrected) =>
      some ({ st with rows := rows' }, ⟨.compare inventory rows missing,
        { summary with corrected := summary.corrected + if corrected then 1 else 0 }⟩)
  | .update _ _ _ _ _, .error _ => some (st, ⟨.failed, summary⟩)
  | _, _ => none

end Accounting

/-! ### The pool -/

inductive Process
  | writer (writer : Writer)
  | reconcile (reconcile : Reconcile)

inductive Request
  | putManifest (repositoryName reference : String) (body : Bytes)
  | completeUpload (repositoryName digest : String) (content : Bytes)
  | reconcile
deriving DecidableEq

def manifestWrite (repositoryName reference : String) (body : Bytes) (references : List String) :
    ObjectWrite where
  location := manifestPath repositoryName reference
  wellFormed := StoragePath.wellFormed_ofString _
  content := body
  references := references

/-- The writes of `put_manifest`, unless `manifest_references` does not return. -/
def manifestWrites (registry : Registry) (repositoryName reference : String) (body : Bytes) :
    Option (List ObjectWrite) :=
  (manifestReferences registry.serde repositoryName body).map fun references =>
    manifestWrite repositoryName reference body references ::
      -- also save by digest if this is a tag reference
      if isDigestReference reference then []
      else [manifestWrite repositoryName (registry.sha.digest body) body references]

/-- The write of a completed upload: the move of its file. -/
def blobWrite (repositoryName digest : String) (content : Bytes) : ObjectWrite where
  location := blobPath repositoryName digest
  wellFormed := StoragePath.wellFormed_ofString _
  content := content
  references := []

def Process.init (registry : Registry) : Request → Process
  | .putManifest repositoryName reference body =>
    .writer (((manifestWrites registry repositoryName reference body).map Writer.next).getD .failed)
  | .completeUpload repositoryName digest content =>
    .writer (.next [blobWrite repositoryName digest content])
  | .reconcile => .reconcile ⟨.collect, ⟨0, 0, 0⟩⟩

def Process.next (registry : Registry) (choice : Choice) (st : Accounting) :
    Process → Option (Accounting × Process)
  | .writer w =>
    (st.nextWriter w choice).map fun (st, w) => (st, .writer w)
  | .reconcile r =>
    (st.nextReconcile registry r.summary r.stage choice).map fun (st, r) => (st, .reconcile r)

/-- Writers and reconciliations over one repository. -/
def program (registry : Registry) : Program Accounting Process Request Choice where
  init := Process.init registry
  next := Process.next registry

def Accounting.initial (contents : Store String Bytes) (rows : ObjectRows) : Accounting where
  objects := contents.mapValues fun content => ⟨content, 0, false⟩
  rows := rows

end Pkgly.Docker.ObjectAccounting
