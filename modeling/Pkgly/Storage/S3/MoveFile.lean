import Pkgly.Algorithm.U64
import Pkgly.Storage.S3.S3Storage

/-!
# Moving a file in S3

`move_file` with the outcome of each of its requests.  A request that fails may have been carried
out all the same, and a conditional one may be answered with a conflict; whether its condition is
met is a matter of the state.  An upload that is staged beside the bucket is uploaded once, under
the condition that there is no destination yet; an object is copied, at once or in parts, and then
deleted.

The notes to the memo of clear ancestors and the listings are left out; of the caches of contents
only their failures matter here.
-/

namespace Pkgly.S3

/-- A staged upload: the bytes in its local file, the size that was counted and the ETag of the
object that it started from. -/
structure StagedFile where
  content : Bytes
  size : ℕ
  baseEtag : Option String
deriving DecidableEq

structure MoveStorage where
  objects : Store String S3Object
  appendStaging : Store String StagedFile

inductive RequestOutcome
  | ok
  /-- An error, which may come after the request was carried out, and may be a conflict. -/
  | failed (done conflict : Bool)
deriving DecidableEq

/-- The errors of `move_file`. -/
inductive MoveError
  | conflict
  | request
  | noEtag
  | io
  | cache
deriving DecidableEq

structure MoveOutcomes where
  /-- The staged file can be opened. -/
  opensStaged : Bool
  put : RequestOutcome
  /-- The ETag that S3 gives to what is written. -/
  newEtag : Option String
  headDestination : RequestOutcome
  deleteBase : RequestOutcome
  head : RequestOutcome
  /-- The response to a `HEAD` has a content length. -/
  sendsLength : Bool
  copy : RequestOutcome
  /-- The multipart copy is created, with an upload id. -/
  create : Bool
  /-- The parts that are copied, in time and with an ETag. -/
  copiesPart : ℕ → Bool
  complete : RequestOutcome
  deleteSource : RequestOutcome
  cacheRemoveTo : Bool
  cacheRemoveFrom : Bool

def multipartCopyThreshold : ℕ := 5 * 1024 * 1024 * 1024

def multipartCopyPartSize : ℕ := 64 * 1024 * 1024

def divCeil (a b : ℕ) : ℕ := (a + b - 1) / b

def requestError (conflict : Bool) : MoveError := if conflict then .conflict else .request

namespace MoveStorage

/-- `PutObject` with `if_none_match("*")`. -/
def putIfNoneMatch (s : MoveStorage) (path : String) (object : S3Object) :
    RequestOutcome → MoveStorage × Except MoveError Unit
  | .ok =>
    if (s.objects.get path).isSome then (s, .error .conflict)
    else ({ s with objects := s.objects.put path object }, .ok ())
  | .failed done conflict =>
    if done && (s.objects.get path).isNone then
      ({ s with objects := s.objects.put path object }, .error (requestError conflict))
    else (s, .error (requestError conflict))

def deleteIfMatch (s : MoveStorage) (path eTag : String) (outcome : RequestOutcome) :
    MoveStorage × Except MoveError Unit :=
  if (s.objects.get path).bind S3Object.eTag = some eTag then
    match outcome with
    | .ok => ({ s with objects := s.objects.remove path }, .ok ())
    | .failed true conflict =>
      ({ s with objects := s.objects.remove path }, .error (requestError conflict))
    | .failed false conflict => (s, .error (requestError conflict))
  else (s, .error .conflict)

def removeCached (o : MoveOutcomes) (result : Except MoveError Bool) : Except MoveError Bool :=
  if o.cacheRemoveTo && o.cacheRemoveFrom then result else .error .cache

/-- The end of the upload of a staged file: its base is deleted, and then the staged file. -/
def deleteBase (s : MoveStorage) (fromPath : String) (staged : StagedFile) (o : MoveOutcomes) :
    MoveStorage × Except MoveError Bool :=
  let finish (s : MoveStorage) : MoveStorage × Except MoveError Bool :=
    ({ s with appendStaging := s.appendStaging.remove fromPath }, removeCached o (.ok true))
  match staged.baseEtag with
  | none => finish s
  | some eTag =>
    match s.deleteIfMatch fromPath eTag o.deleteBase with
    | (s, .ok ()) => finish s
    | (s, .error e) => (s, removeCached o (.error e))

def finalizeStaged (s : MoveStorage) (fromPath toPath : String) (dst : StoragePath)
    (staged : StagedFile) (o : MoveOutcomes) : MoveStorage × Except MoveError Bool :=
  if !o.opensStaged then (s, .error .io)
  else
    match s.putIfNoneMatch toPath ⟨staged.content, contentTypeOf dst, o.newEtag⟩ o.put with
    | (s, .ok ()) => s.deleteBase fromPath staged o
    | (s, .error .conflict) =>
      -- a destination of the same size counts as an earlier attempt
      match s.objects.get toPath, o.headDestination with
      | some destination, .ok =>
        let size := if o.sendsLength then destination.content.length else 0
        if size ≠ staged.size then (s, .error .conflict) else s.deleteBase fromPath staged o
      | _, _ => (s, .error .conflict)
    | (s, .error e) => (s, .error e)

def copiedParts (content : Bytes) : Bytes :=
  let objectSize := content.length
  let partSize := max multipartCopyPartSize (divCeil objectSize 10000)
  (List.range (divCeil objectSize partSize)).flatMap fun part =>
    let start := part * partSize
    let stop := min (start + partSize) objectSize
    (content.drop start).take (stop - start)

def multipartCopy (s : MoveStorage) (toPath : String) (source : S3Object) (o : MoveOutcomes) :
    MoveStorage × Except MoveError Unit :=
  let partSize := max multipartCopyPartSize (divCeil source.content.length 10000)
  let copied : S3Object :=
    { source with content := copiedParts source.content, eTag := o.newEtag }
  if !o.create then (s, .error .request)
  else if !(List.range (divCeil source.content.length partSize)).all o.copiesPart then
    (s, .error .request)
  else
    match o.complete with
    | .ok => ({ s with objects := s.objects.put toPath copied }, .ok ())
    | .failed true conflict =>
      ({ s with objects := s.objects.put toPath copied }, .error (requestError conflict))
    | .failed false conflict => (s, .error (requestError conflict))

/-- `CopyObject`, which S3 refuses from an object to itself. -/
def copyObject (s : MoveStorage) (fromPath toPath : String) (source : S3Object)
    (o : MoveOutcomes) : MoveStorage × Except MoveError Unit :=
  let copied : S3Object := { source with eTag := o.newEtag }
  if fromPath = toPath then (s, .error .request)
  else
    match o.copy with
    | .ok => ({ s with objects := s.objects.put toPath copied }, .ok ())
    | .failed true conflict =>
      ({ s with objects := s.objects.put toPath copied }, .error (requestError conflict))
    | .failed false conflict => (s, .error (requestError conflict))

def moveObject (s : MoveStorage) (fromPath toPath : String) (o : MoveOutcomes) :
    MoveStorage × Except MoveError Bool :=
  match o.head, s.objects.get fromPath with
  | .failed _ conflict, _ => (s, .error (requestError conflict))
  | .ok, none => (s, .ok false)
  | .ok, some source =>
    match source.eTag with
    | none => (s, .error .noEtag)
    | some sourceEtag =>
      let objectSize := if o.sendsLength then source.content.length else 0
      let copied :=
        if objectSize ≤ multipartCopyThreshold then s.copyObject fromPath toPath source o
        else s.multipartCopy toPath source o
      match copied with
      | (s, .error e) => (s, .error e)
      | (s, .ok ()) =>
        if !o.cacheRemoveTo then (s, .error .cache)
        else
          match s.deleteIfMatch fromPath sourceEtag o.deleteSource with
          | (s, .ok ()) => (s, if o.cacheRemoveFrom then .ok true else .error .cache)
          | (s, .error e) => (s, if o.cacheRemoveFrom then .error e else .error .cache)

def moveFile (s : MoveStorage) (repository : String) (src dst : StoragePath) (o : MoveOutcomes) :
    MoveStorage × Except MoveError Bool :=
  let fromPath := S3Storage.s3Path repository src
  let toPath := S3Storage.s3Path repository dst
  match s.appendStaging.get fromPath with
  | some staged => s.finalizeStaged fromPath toPath dst staged o
  | none => s.moveObject fromPath toPath o

end MoveStorage

end Pkgly.S3

/-!
## The parts of a multipart copy

`multipart_copy` in the arithmetic of its `u64`s, with the ranges that it requests.  An operation
that overflows ends the run without a result (`none`).
-/

namespace Pkgly.S3

open U64

/-- A range of bytes that `upload_part_copy` copies: `bytes={start}-{stop}`. -/
structure CopyPart where
  partNumber : Int32
  start : UInt64
  stop : UInt64
deriving DecidableEq

inductive PartOutcome
  /-- The deadline has passed before it is requested. -/
  | late
  /-- The request fails, or is answered without an ETag. -/
  | failed
  | copied
deriving DecidableEq

structure CopyOutcomes where
  /-- The upload is created, with an upload id. -/
  create : Bool
  part : ℕ → PartOutcome
  /-- There is time left to complete it. -/
  inTime : Bool

/-- The requests of a multipart copy: its ranges, and the numbers of the parts that it is completed
with, unless it ends before that. -/
structure CopyRequests where
  requested : List CopyPart
  completed : Option (List Int32)
deriving DecidableEq

/-- `part_size`, which is at least `MULTIPART_COPY_PART_SIZE`. -/
def copyPartSize (objectSize : UInt64) : UInt64 :=
  max (.ofNat multipartCopyPartSize) (U64.divCeil objectSize 10000)

def copyPartCount (objectSize : UInt64) : UInt64 :=
  U64.divCeil objectSize (copyPartSize objectSize)

def copyPart (objectSize part : UInt64) : Option CopyPart := do
  let start ← checkedMul part (copyPartSize objectSize)
  let stop ← checkedAdd start (copyPartSize objectSize)
  let stop ← checkedSub (min stop objectSize) 1
  let number ← checkedAdd part 1
  return ⟨number.toUInt32.toInt32, start, stop⟩

/-- The loop over the parts that are left; the numbers are those of `completed_parts`. -/
def copyPartsFrom (o : CopyOutcomes) (objectSize : UInt64) :
    (parts : List ℕ) → (completed : List Int32) → Option CopyRequests
  | [], completed => some ⟨[], if o.inTime then some completed else none⟩
  | part :: parts, completed => do
    let range ← copyPart objectSize (.ofNat part)
    match o.part part with
    | .late => return ⟨[], none⟩
    | .failed => return ⟨[range], none⟩
    | .copied =>
      let rest ← copyPartsFrom o objectSize parts (completed ++ [range.partNumber])
      return { rest with requested := range :: rest.requested }

/-- `multipart_copy`. -/
def copyRequests (o : CopyOutcomes) (objectSize : UInt64) : Option CopyRequests :=
  if !o.create then some ⟨[], none⟩
  else copyPartsFrom o objectSize (List.range (copyPartCount objectSize).toNat) []

end Pkgly.S3
