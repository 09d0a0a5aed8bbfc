import Mathlib.Logic.Encodable.Basic
import Mathlib.Logic.Equiv.List
import Mathlib.Tactic.DeriveEncodable
import Pkgly.Algorithm.Lru
import Pkgly.Algorithm.Run
import Pkgly.Algorithm.Store
import Pkgly.Storage.S3.CacheNames

/-!
# The disk cache of an S3 storage

`S3DiskCache` as a system of concurrent calls.  The shared state is that of the source: the entries
in order of use, their total size, the queue of failed deletions and the generation counters, with
the files of the cache.  A call runs in the steps that other calls can come between: the sections
under the lock of the state, and the single file operations.  `publishLock` is held from `lock` to
`unlock`, while the files of a publication are renamed, the state is updated and the files of
superseded and evicted entries are deleted.  Every file operation can fail.

Files are named by their purpose (`CacheFile`); `CacheFile.path` says where each one is.  The
waiting times between retries of a failed deletion are left out: a retry may come at any time.
-/

namespace Pkgly.S3

/-- The largest `u64`. -/
def maxU64 : Nat := 18446744073709551615

/-- `saturating_add` of `u64`. -/
def saturatingAdd (a b : Nat) : Nat := min (a + b) maxU64

/-- `DateTime<FixedOffset>`: the time and the offset of its zone. -/
abbrev DateTime := Int × Int

/-! ### Entries and their metadata -/

structure CacheEntry where
  relativePath : CacheFile
  size : Nat
  digest : List Char
  contentType : Option String
  lastModified : Option DateTime
deriving DecidableEq

inductive Component
  | rootDir
  | curDir
  | parentDir
  | normal (name : List Char)
deriving DecidableEq

structure CacheMetadata where
  version : Nat
  key : String
  relativePath : List Component
  size : Nat
  digest : List Char
  contentType : Option String
  lastModified : Option DateTime
  cachedAtMs : Nat
deriving DecidableEq

def cacheFormatVersion : Nat := 1

def CachePath.toComponents (path : CachePath) : List Component := [.normal path.1, .normal path.2]

/-- `serde_json` on `CacheMetadata`: what was written for a path of two names is read back. -/
structure MetadataCodec where
  encode : CacheMetadata → Bytes
  decode : Bytes → Option CacheMetadata
  decode_encode : ∀ m, (∃ path : CachePath, m.relativePath = path.toComponents) →
    decode (encode m) = some m

structure CacheConfig where
  sha : ContentHash
  codec : MetadataCodec
  maxBytes : Nat
  capacity : Nat
  maxBytes_le : maxBytes ≤ maxU64
  capacity_pos : 0 < capacity

/-! ### Calls -/

inductive PublishGuard
  | unconditional
  | ifGeneration (generation : Nat)
deriving DecidableEq

/-- A call of `publish`, with the UUIDs it draws and the time it takes.  `capturedAt` counts the
mutations of the key when the generation of the guard was captured. -/
structure Publication where
  key : String
  data : Bytes
  contentType : Option String
  lastModified : Option DateTime
  guard : PublishGuard
  capturedAt : Nat
  uuid : List Char
  tempUuid : List Char
  metadataUuid : List Char
  cachedAtMs : Nat
deriving DecidableEq

structure FailedDeletion where
  relativePath : CacheFile
  attempts : Nat
deriving DecidableEq

inductive CacheOp
  /-- A read from S3 that has captured a generation. -/
  | read (key : String) (generation capturedAt : Nat)
  | get (key : String) (entry : CacheEntry)
  | publish (p : Publication)
  | remove (key : String)
  | removeIfGeneration (key : String) (generation : Nat)
  | removeIfMatches (key : String) (entry : CacheEntry)
  | retry (due pending : List FailedDeletion)
deriving DecidableEq

inductive CacheResult
  | published (done : Bool)
  | removed
  | hit (content : Bytes)
  | failed
deriving DecidableEq

/-- How far a call is.  The stages from `checked` to `deleting` are under `publishLock`. -/
inductive Stage
  | begun
  | written
  | ready
  | checked
  | contentPlaced
  | placed
  | deleting (todo : List CacheFile) (result : CacheResult)
  | finished (result : CacheResult)
deriving DecidableEq

structure CacheCall where
  op : CacheOp
  stage : Stage
deriving DecidableEq

structure CacheState where
  entries : Lru String CacheEntry
  currentBytes : Nat
  failedDeletions : List FailedDeletion
  generations : Store String Nat

/-- The cache, its files and the calls in flight.  `mutations` counts the mutations of a key that
have taken effect, and `origin` says of an entry that was read from S3 how many there had been when
the read started; the code has neither. -/
structure CacheSystem where
  files : Store CacheFile Bytes
  state : CacheState
  publishLock : Option Nat
  calls : Store Nat CacheCall
  mutations : String → Nat
  origin : String → Option Nat

inductive CacheAction
  | generationFor (r : Nat) (key : String)
  | get (r : Nat) (key : String)
  | openEntry (r : Nat) (ok : Bool)
  | put (r : Nat) (p : Publication)
  | putIfGeneration (r : Nat) (p : Publication)
  | remove (r : Nat) (key : String)
  | retry (r n : Nat)
  | retryUnlink (r : Nat) (ok : Bool)
  | retryPush (r : Nat)
  | writeContent (r : Nat) (torn : Option Nat)
  | writeMetadata (r : Nat) (torn : Option Nat)
  | lock (r : Nat)
  | renameContent (r : Nat) (ok : Bool)
  | renameMetadata (r : Nat) (ok : Bool)
  | update (r : Nat)
  | unlink (r : Nat) (ok : Bool)
  | unlock (r : Nat)

/-! ### Files of a publication -/

namespace Publication

def content (p : Publication) : CacheFile := .content p.key p.uuid

def temp (p : Publication) : CacheFile := .temp p.key p.tempUuid

def metadataFile (p : Publication) : CacheFile := .metadata p.key

def metadataTemp (p : Publication) : CacheFile := .metadataTemp p.key p.metadataUuid

def entry (sha : ContentHash) (p : Publication) : CacheEntry where
  relativePath := p.content
  size := p.data.length
  digest := sha.hex p.data
  contentType := p.contentType
  lastModified := p.lastModified

def metadata (sha : ContentHash) (p : Publication) : CacheMetadata where
  version := cacheFormatVersion
  key := p.key
  relativePath := CachePath.toComponents (p.content.path sha)
  size := p.data.length
  digest := sha.hex p.data
  contentType := p.contentType
  lastModified := p.lastModified
  cachedAtMs := p.cachedAtMs

end Publication

/-- `uuid` is a UUID in its simple form. -/
def isUuid (uuid : List Char) : Bool := uuid.length == 32 && uuid.all isLowerHex

def CacheCall.files (call : CacheCall) : List CacheFile :=
  (match call.op with
    | .publish p => [p.content, p.temp, p.metadataTemp]
    | .retry due pending => (due ++ pending).map FailedDeletion.relativePath
    | _ => []) ++
  match call.stage with
  | .deleting todo _ => todo
  | _ => []

namespace CacheState

def failedDeletionQueueLimit : Nat := 1024

def failedDeletionMaxRetriesPerTick : Nat := 64

def pushFailedDeletion (st : CacheState) (entry : FailedDeletion) : CacheState :=
  { st with
    failedDeletions :=
      (if failedDeletionQueueLimit ≤ st.failedDeletions.length then st.failedDeletions.tail
        else st.failedDeletions) ++ [entry] }

/-- `generations.get(key).copied().unwrap_or(0)`. -/
def generation (st : CacheState) (key : String) : Nat := (st.generations.get key).getD 0

/-- Count a mutation of `key`. -/
def bump (st : CacheState) (key : String) : CacheState :=
  { st with
    generations := st.generations.put key (match st.generations.get key with
      | none => 1
      | some count => (count + 1) % (maxU64 + 1)) }

def filesOf (entry : CacheEntry) : List CacheFile :=
  [entry.relativePath, .metadata entry.relativePath.key]

/-- Remove the entry of `key` and subtract its size; also the files to delete. -/
def popEntry (st : CacheState) (key : String) : CacheState × List CacheFile :=
  match st.entries.peek key with
  | none => (st, [])
  | some entry =>
    ({ st with
      entries := st.entries.pop key
      currentBytes := st.currentBytes - entry.size }, filesOf entry)

/-- Make room for one more entry. -/
def evictOne (capacity : Nat) (st : CacheState) : CacheState × List CacheFile :=
  if capacity ≤ st.entries.length then
    match st.entries.popLru with
    | none => (st, [])
    | some ((_, evicted), entries) =>
      ({ st with entries, currentBytes := st.currentBytes - evicted.size }, filesOf evicted)
  else (st, [])

/-- Evict for as long as the total is over the limit. -/
def evictBytes (maxBytes : Nat) (st : CacheState) : CacheState × List CacheFile :=
  let r := st.entries.evict CacheEntry.size maxBytes st.currentBytes
  ({ st with entries := r.1, currentBytes := r.2.1 }, r.2.2.flatMap fun e => filesOf e.2)

def insert (st : CacheState) (key : String) (entry : CacheEntry) : CacheState :=
  { st with
    entries := st.entries.put key entry
    currentBytes := saturatingAdd st.currentBytes entry.size }

def bumpUnless (st : CacheState) (p : Publication) : CacheState :=
  if p.guard = .unconditional then st.bump p.key else st

/-- The section of `publish` under the lock of the state, and the files to delete after it.  The
metadata of a superseded entry is that of its successor, and stays. -/
def publish (cfg : CacheConfig) (st : CacheState) (p : Publication) :
    CacheState × List CacheFile :=
  let superseded := (st.entries.peek p.key).toList.filterMap fun old =>
    if old.relativePath ≠ p.content then some old.relativePath else none
  let popped := (st.bumpUnless p).popEntry p.key
  let room := popped.1.evictOne cfg.capacity
  let full := (room.1.insert p.key (p.entry cfg.sha)).evictBytes cfg.maxBytes
  (full.1, superseded ++ room.2 ++ full.2)

end CacheState

namespace CacheSystem

/-! ### Steps -/

/-- The call `r` is now at `stage` of `op`. -/
def set (s : CacheSystem) (r : Nat) (op : CacheOp) (stage : Stage) : CacheSystem :=
  { s with calls := s.calls.put r ⟨op, stage⟩ }

def setState (s : CacheSystem) (state : CacheState) : CacheSystem := { s with state }

def setFiles (s : CacheSystem) (files : Store CacheFile Bytes) : CacheSystem := { s with files }

/-- A mutation of `key` has taken effect. -/
def mutate (s : CacheSystem) (key : String) : CacheSystem :=
  { s with mutations := Function.update s.mutations key (s.mutations key + 1) }

/-- Nothing is or will be called `file`. -/
def isFresh (s : CacheSystem) (file : CacheFile) : Bool :=
  (s.files.get file).isNone && s.state.entries.items.all (fun e => e.2.relativePath != file) &&
    s.state.failedDeletions.all (fun d => d.relativePath != file) &&
    s.calls.entries.all fun c => !c.2.files.contains file

def isNew (s : CacheSystem) (p : Publication) : Bool :=
  isUuid p.uuid && isUuid p.tempUuid && isUuid p.metadataUuid && s.isFresh p.content &&
    s.isFresh p.temp && s.isFresh p.metadataTemp

/-- The call `r` fails, and releases the lock if it has it. -/
def fail (s : CacheSystem) (r : Nat) (op : CacheOp) : CacheSystem :=
  { s.set r op (.finished .failed) with
    publishLock := if s.publishLock = some r then none else s.publishLock }

def start (s : CacheSystem) (r : Nat) (op : CacheOp) : Option CacheSystem :=
  if (s.calls.get r).isSome then none else some (s.set r op .begun)

def rename (files : Store CacheFile Bytes) (src dst : CacheFile) : Option (Store CacheFile Bytes) :=
  (files.get src).map fun data => (files.remove src).put dst data

/-- `generation_for`, before a read from S3. -/
def generationFor (s : CacheSystem) (r : Nat) (key : String) : Option CacheSystem :=
  s.start r (.read key (s.state.generation key) (s.mutations key))

def get (s : CacheSystem) (r : Nat) (key : String) : Option CacheSystem :=
  match s.state.entries.peek key with
  | none => some s
  | some entry =>
    (s.setState { s.state with entries := s.state.entries.touch key }).start r (.get key entry)

/-- The check of the file in `get`, and its open. -/
def openEntry (s : CacheSystem) (r : Nat) (ok : Bool) : CacheCall → Option CacheSystem
  | ⟨.get key entry, .begun⟩ =>
    if !ok then some (s.fail r (.get key entry))
    else
      match s.files.get entry.relativePath with
      | none => some (s.set r (.removeIfMatches key entry) .begun)
      | some content =>
        if content.length = entry.size then
          some (s.set r (.get key entry) (.finished (.hit content)))
        else some (s.set r (.removeIfMatches key entry) .begun)
  | _ => none

/-- `put_with_metadata`. -/
def put (cfg : CacheConfig) (s : CacheSystem) (r : Nat) (p : Publication) : Option CacheSystem :=
  if p.guard ≠ .unconditional ∨ s.isNew p = false then none
  else if cfg.maxBytes < p.data.length then s.start r (.remove p.key)
  else s.start r (.publish p)

def putIfGeneration (cfg : CacheConfig) (s : CacheSystem) (r : Nat) (p : Publication) :
    CacheCall → Option CacheSystem
  | ⟨.read key generation capturedAt, .begun⟩ =>
    if p.key ≠ key ∨ p.guard ≠ .ifGeneration generation ∨ p.capturedAt ≠ capturedAt ∨
        s.isNew p = false then none
    else if cfg.maxBytes < p.data.length then
      some (s.set r (.removeIfGeneration key generation) .begun)
    else some (s.set r (.publish p) .begun)
  | _ => none

/-- `retry_failed_deletions` takes `n` deletions from the queue. -/
def retry (s : CacheSystem) (r n : Nat) : Option CacheSystem :=
  if CacheState.failedDeletionMaxRetriesPerTick < n then none
  else
    (s.setState { s.state with failedDeletions := s.state.failedDeletions.drop n }).start r
      (.retry (s.state.failedDeletions.take n) [])

def retryUnlink (s : CacheSystem) (r : Nat) (ok : Bool) : CacheCall → Option CacheSystem
  | ⟨.retry (d :: due) pending, .begun⟩ =>
    if ok then some ((s.setFiles (s.files.remove d.relativePath)).set r (.retry due pending) .begun)
    else some (s.set r (.retry due (pending ++ [{ d with attempts := d.attempts + 1 }])) .begun)
  | _ => none

def retryPush (s : CacheSystem) (r : Nat) : CacheCall → Option CacheSystem
  | ⟨.retry [] pending, .begun⟩ =>
    some ((s.setState (pending.foldl CacheState.pushFailedDeletion s.state)).set r (.retry [] [])
      (.finished .removed))
  | _ => none

/-- The write of the temporary content; `torn` is the length after which it fails. -/
def writeContent (s : CacheSystem) (r : Nat) (torn : Option Nat) : CacheCall → Option CacheSystem
  | ⟨.publish p, .begun⟩ =>
    match torn with
    | none => some ((s.setFiles (s.files.put p.temp p.data)).set r (.publish p) .written)
    | some n => some ((s.setFiles (s.files.put p.temp (p.data.take n))).fail r (.publish p))
  | _ => none

def writeMetadata (cfg : CacheConfig) (s : CacheSystem) (r : Nat) (torn : Option Nat) :
    CacheCall → Option CacheSystem
  | ⟨.publish p, .written⟩ =>
    let bytes := cfg.codec.encode (p.metadata cfg.sha)
    match torn with
    | none => some ((s.setFiles (s.files.put p.metadataTemp bytes)).set r (.publish p) .ready)
    | some n => some ((s.setFiles (s.files.put p.metadataTemp (bytes.take n))).fail r (.publish p))
  | _ => none

def removeEntry (s : CacheSystem) (r : Nat) (op : CacheOp) (key : String) (result : CacheResult) :
    CacheSystem :=
  let popped := (s.state.bump key).popEntry key
  ((s.setState popped.1).mutate key).set r op (.deleting popped.2 result)

/-- `publish_lock.lock()`, and the first section under the lock of the state. -/
def lock (s : CacheSystem) (r : Nat) (call : CacheCall) : Option CacheSystem :=
  if s.publishLock.isSome then none
  else
    let s := { s with publishLock := some r }
    match call with
    | ⟨.publish p, .ready⟩ =>
      match p.guard with
      | .unconditional => some (s.set r (.publish p) .checked)
      | .ifGeneration expected =>
        if s.state.generation p.key = expected then some (s.set r (.publish p) .checked)
        else some (s.set r (.publish p) (.deleting [p.temp, p.metadataTemp] (.published false)))
    | ⟨.remove key, .begun⟩ => some (s.removeEntry r (.remove key) key .removed)
    | ⟨.removeIfGeneration key expected, .begun⟩ =>
      let op := .removeIfGeneration key expected
      if s.state.generation key = expected then some (s.removeEntry r op key (.published false))
      else some (s.set r op (.deleting [] (.published false)))
    | ⟨.removeIfMatches key expected, .begun⟩ =>
      let op := .removeIfMatches key expected
      match s.state.entries.peek key with
      | none => some (s.set r op (.deleting [] .removed))
      | some entry =>
        if entry.relativePath = expected.relativePath ∧ entry.digest = expected.digest then
          some (s.removeEntry r op key .removed)
        else some (s.set r op (.deleting [] .removed))
    | _ => none

/-- The first rename of `publish`. -/
def renameContent (s : CacheSystem) (r : Nat) (ok : Bool) : CacheCall → Option CacheSystem
  | ⟨.publish p, .checked⟩ =>
    match rename s.files p.temp p.content with
    | none => some (s.fail r (.publish p))
    | some files =>
      if ok then some ((s.setFiles files).set r (.publish p) .contentPlaced)
      else some (s.fail r (.publish p))
  | _ => none

/-- The second rename of `publish`. -/
def renameMetadata (s : CacheSystem) (r : Nat) (ok : Bool) : CacheCall → Option CacheSystem
  | ⟨.publish p, .contentPlaced⟩ =>
    match rename s.files p.metadataTemp p.metadataFile with
    | none => some (s.fail r (.publish p))
    | some files =>
      if ok then some ((s.setFiles files).set r (.publish p) .placed)
      else some (s.fail r (.publish p))
  | _ => none

def published (cfg : CacheConfig) (s : CacheSystem) (p : Publication) : CacheSystem :=
  let s := s.setState (s.state.publish cfg p).1
  match p.guard with
  | .unconditional => { s.mutate p.key with origin := Function.update s.origin p.key none }
  | .ifGeneration _ => { s with origin := Function.update s.origin p.key (some p.capturedAt) }

/-- The section of `publish` under the lock of the state. -/
def update (cfg : CacheConfig) (s : CacheSystem) (r : Nat) : CacheCall → Option CacheSystem
  | ⟨.publish p, .placed⟩ =>
    some ((s.published cfg p).set r (.publish p)
      (.deleting (s.state.publish cfg p).2 (.published true)))
  | _ => none

/-- The next file of `delete_content_path`; only a content that cannot be deleted is queued. -/
def unlink (s : CacheSystem) (r : Nat) (ok : Bool) : CacheCall → Option CacheSystem
  | ⟨op, .deleting (file :: todo) result⟩ =>
    let s := s.set r op (.deleting todo result)
    if ok then some (s.setFiles (s.files.remove file))
    else
      match file with
      | .content _ _ => some (s.setState (s.state.pushFailedDeletion ⟨file, 0⟩))
      | _ => some s
  | _ => none

/-- The end of a call under `publish_lock`. -/
def unlock (s : CacheSystem) (r : Nat) : CacheCall → Option CacheSystem
  | ⟨op, .deleting [] result⟩ =>
    some { s.set r op (.finished result) with publishLock := none }
  | _ => none

/-- Take the step `f` of the call `r`. -/
def onCall (s : CacheSystem) (r : Nat) (f : CacheCall → Option CacheSystem) :
    Option CacheSystem :=
  (s.calls.get r).bind f

def step (cfg : CacheConfig) (s : CacheSystem) : CacheAction → Option CacheSystem
  | .generationFor r key => s.generationFor r key
  | .get r key => s.get r key
  | .openEntry r ok => s.onCall r (s.openEntry r ok)
  | .put r p => s.put cfg r p
  | .putIfGeneration r p => s.onCall r (s.putIfGeneration cfg r p)
  | .remove r key => s.start r (.remove key)
  | .retry r n => s.retry r n
  | .retryUnlink r ok => s.onCall r (s.retryUnlink r ok)
  | .retryPush r => s.onCall r (s.retryPush r)
  | .writeContent r torn => s.onCall r (s.writeContent r torn)
  | .writeMetadata r torn => s.onCall r (s.writeMetadata cfg r torn)
  | .lock r => s.onCall r (s.lock r)
  | .renameContent r ok => s.onCall r (s.renameContent r ok)
  | .renameMetadata r ok => s.onCall r (s.renameMetadata r ok)
  | .update r => s.onCall r (s.update cfg r)
  | .unlink r ok => s.onCall r (s.unlink r ok)
  | .unlock r => s.onCall r (s.unlock r)

end CacheSystem

end Pkgly.S3

/-!
## Instances of the parameters of the disk cache

`ContentHash.known` is SHA-256 on a few short texts, and pads the bytes themselves elsewhere.
`MetadataCodec.unary` writes the number of the metadata in an enumeration.  Both have what is
assumed of the real ones.
-/

namespace Pkgly.S3

def knownDigests : List (Bytes × String) :=
  [([], "e3b0c44298fc1c149afbf4c8996fb92427ae41e4649b934ca495991b7852b855"),
    ([107], "8254c329a92850f6d539dd376f4816ee2764517da5e0235514af433164480d7a"),
    ([1], "4bf5122f344554c53bde2ebb8cd2b7e3d1600ad631c385a5d7cce23c7785459a")]

/-- The first 64 digits of the bytes followed by zeros. -/
def paddedDigest (b : Bytes) : List Char :=
  (b.flatMap Sha256.hexPair ++ List.replicate 64 '0').take 64

theorem mem_paddedDigest {b : Bytes} {c : Char} (hc : c ∈ paddedDigest b) :
    isLowerHex c = true := by
  rcases List.mem_append.mp (List.mem_of_mem_take hc) with hc | hc
  · exact Sha256.hexText.isLowerHex_of_mem b c (by rw [Sha256.hexText, String.toList_ofList]; exact hc)
  · rw [List.eq_of_mem_replicate hc]
    decide

theorem exists_of_lookup {l : List (Bytes × String)} {b : Bytes} {d : String}
    (h : l.lookup b = some d) : ∃ e ∈ l, e.2 = d := by
  induction l with
  | nil => cases h
  | cons e l ih =>
    grind

theorem all_knownDigests : (knownDigests.all fun e =>
    e.2.toList.length == 64 && e.2.toList.all isLowerHex) = true := by
  decide

theorem of_mem_knownDigests {e : Bytes × String} (he : e ∈ knownDigests) :
    e.2.toList.length = 64 ∧ ∀ c ∈ e.2.toList, isLowerHex c = true := by
  have h := List.all_eq_true.mp all_knownDigests e he
  rw [Bool.and_eq_true, beq_iff_eq, List.all_eq_true] at h
  exact h

def ContentHash.known : ContentHash where
  hex b := ((knownDigests.lookup b).map String.toList).getD (paddedDigest b)
  length_hex b := by
    cases h : knownDigests.lookup b with
    | none => simp [paddedDigest]
    | some d =>
      obtain ⟨e, he, rfl⟩ := exists_of_lookup h
      exact (of_mem_knownDigests he).1
  isLowerHex_of_mem b c hc := by
    cases h : knownDigests.lookup b with
    | none =>
      rw [h] at hc
      exact mem_paddedDigest hc
    | some d =>
      rw [h] at hc
      obtain ⟨e, he, rfl⟩ := exists_of_lookup h
      exact (of_mem_knownDigests he).2 c hc

instance encodableChar : Encodable Char := Encodable.ofLeftInverse Char.toNat Char.ofNat Char.ofNat_toNat

instance encodableString : Encodable String :=
  Encodable.ofLeftInverse String.toList String.ofList fun _ => String.ofList_toList

deriving instance Encodable for Component

deriving instance Encodable for CacheMetadata

def CacheSystem.empty : CacheSystem where
  files := ∅
  state := ⟨∅, 0, [], ∅⟩
  publishLock := none
  calls := ∅
  mutations _ := 0
  origin _ := none

end Pkgly.S3
