import Pkgly.Algorithm.Run
import Pkgly.Storage.S3.AppendStaging

/-!
# The accounts of staged uploads are right

A call is kept in the accounts (`CallKept`) if after it the units that each upload has reserved are
those of its permits and cover its size, the permits of all uploads and the free ones are those
that there were at first, and an append that fails leaves what its upload holds as before
(`holding`).  The main theorem is `stepsKept_iff`: the calls of a run are all kept exactly if they
all meet `CallOk`.

Removing an upload always gives its permits back.  An append is not kept if the units it asks for
do not fit into the `u32` of `try_acquire_many_owned`; if it fails after it has staged an object
that is not empty, whose permits then stay taken; or if the file cannot be cut back to its length
before.
-/

namespace Pkgly.S3.Staging

open U64

structure Counted (entry : StagedAppend) : Prop where
  held : entry.reservedUnits.toNat = entry.heldUnits
  covered : entry.size.toNat ≤ entry.reservedUnits.toNat * s3UploadSpoolPermitBytes

/-- The permits of all uploads and the free ones are those that there were at first. -/
def Balanced (st : AppendStaging) : Prop :=
  st.appendStaging.total StagedAppend.heldUnits + st.available = initialPermits

structure Accounted (st : AppendStaging) : Prop where
  counted : ∀ path entry, st.appendStaging.get path = some entry → Counted entry
  balanced : Balanced st

/-- What an upload holds: its size, its reserved units, its permits and the length of its file. -/
def holding (st : AppendStaging) (path : String) : UInt64 × UInt64 × List UInt32 × ℕ :=
  match st.appendStaging.get path with
  | none => (0, 0, [], 0)
  | some entry => (entry.size, entry.reservedUnits, entry.budgetPermits, entry.fileLength)

/-- The call keeps the accounts, and an append that fails changes nothing of its upload. -/
structure CallKept (st : AppendStaging) (call : StagingCall) : Prop where
  accounted : Accounted (st.call call)
  unchanged : ∀ path file o e, call = .append path file o →
    (st.appendFileStaged path file o).2 = .error e →
    holding (st.call call) path = holding st path

/-! ### When an append is kept -/

def ObjectResponse.size : ObjectResponse → UInt64
  | .found _ contentLength _ => (contentLength.bind tryFromI64).getD 0
  | .notFound => 0
  | .failed => 0

def ObjectResponse.units (object : ObjectResponse) : UInt64 := permitUnits object.size

def ObjectResponse.Stageable (available : ℕ) : ObjectResponse → Prop
  | .found eTag contentLength copied =>
    eTag.isSome = true ∧ ∃ size, contentLength.bind tryFromI64 = some size ∧
      (permitUnits size).toUInt32.toNat ≤ available ∧ copied = some size
  | .notFound => True
  | .failed => False

def ObjectResponse.entry (object : ObjectResponse) : StagedAppend where
  size := object.size
  baseEtag := match object with
    | .found eTag _ _ => eTag
    | _ => none
  budgetPermits := if object.units = 0 then [] else [object.units.toUInt32]
  reservedUnits := object.units
  fileLength := object.size.toNat

def Stages (st : AppendStaging) (path : String) (o : AppendOutcomes) : Prop :=
  o.createPath = true ∧ (st.appendStaging.get path = none →
    o.createFile = true ∧ o.object.Stageable st.available ∧ o.flushBase = true ∧
      st.appendStaging.entries.length < maxStagedUploads)

def startEntry (st : AppendStaging) (path : String) (o : AppendOutcomes) : StagedAppend :=
  (st.appendStaging.get path).getD o.object.entry

def startAvailable (st : AppendStaging) (path : String) (o : AppendOutcomes) : ℕ :=
  match st.appendStaging.get path with
  | none => st.available - o.object.units.toUInt32.toNat
  | some _ => st.available

def newUnits (entry : StagedAppend) (n : UInt64) : UInt64 :=
  saturatingSub (permitUnits (saturatingAdd entry.size n)) entry.reservedUnits

def Reserves (entry : StagedAppend) (available : ℕ) (file : FileContent) (o : AppendOutcomes) :
    Prop :=
  o.openFile = true ∧
    ∃ n, file.incomingSize = some n ∧ (newUnits entry n).toUInt32.toNat ≤ available

def Writes (o : AppendOutcomes) : Prop := o.write.isSome ∧ o.flush = true

def CutsBack (entry : StagedAppend) (o : AppendOutcomes) : Prop :=
  if o.setLen then entry.fileLength = entry.size.toNat else o.written = 0

structure AppendFits (st : AppendStaging) (path : String) (file : FileContent)
    (o : AppendOutcomes) : Prop where
  /-- The units of an object that is staged fit into a `u32`. -/
  object : st.appendStaging.get path = none → o.object.units.toNat < 2 ^ 32
  /-- An append that stages an object and then fails has staged an empty one. -/
  failed : st.appendStaging.get path = none →
    ¬ (Reserves (startEntry st path o) (startAvailable st path o) file o ∧ Writes o) →
    o.object.size = 0
  /-- A chunk that is not written leaves the length of the file as it was. -/
  cutsBack : Reserves (startEntry st path o) (startAvailable st path o) file o → ¬ Writes o →
    CutsBack (startEntry st path o) o
  /-- The new units of a chunk that is written fit into a `u32`. -/
  chunk : Reserves (startEntry st path o) (startAvailable st path o) file o → Writes o →
    ∀ n, file.incomingSize = some n → (newUnits (startEntry st path o) n).toNat < 2 ^ 32

def CallOk (st : AppendStaging) : StagingCall → Prop
  | .append path file o => Stages st path o → AppendFits st path file o
  | _ => True

/-! ### Permits -/

theorem toNat_permitBytes : (UInt64.ofNat s3UploadSpoolPermitBytes).toNat = 2 ^ 20 := by
  decide

theorem toNat_permitUnits (size : UInt64) :
    (permitUnits size).toNat = (size.toNat + (2 ^ 20 - 1)) / 2 ^ 20 := by
  grind [permitUnits, toNat_divCeil, toNat_permitBytes, Nat.ceilDiv_eq_add_pred_div,
    Nat.add_sub_assoc]

theorem permitUnits_zero : permitUnits 0 = 0 := by
  decide

theorem le_permitUnits (size : UInt64) :
    size.toNat ≤ (permitUnits size).toNat * s3UploadSpoolPermitBytes := by
  have h := toNat_permitUnits size
  unfold s3UploadSpoolPermitBytes
  omega

theorem toNat_newUnits (entry : StagedAppend) (n : UInt64) :
    (newUnits entry n).toNat =
      (permitUnits (saturatingAdd entry.size n)).toNat - entry.reservedUnits.toNat :=
  toNat_saturatingSub _ _

theorem tryAcquireMany_eq_some_iff {available left : ℕ} {n : UInt32} :
    tryAcquireMany available n = some left ↔ n.toNat ≤ available ∧ left = available - n.toNat := by
  unfold tryAcquireMany
  grind

theorem heldUnits_concat (entry : StagedAppend) (n : UInt32) :
    StagedAppend.heldUnits { entry with budgetPermits := entry.budgetPermits ++ [n] } =
      entry.heldUnits + n.toNat := by
  unfold StagedAppend.heldUnits
  rw [List.map_append, List.sum_append, List.map_singleton, List.sum_singleton]

/-! ### Staging the object -/

variable {st : AppendStaging} {path : String} {file : FileContent} {o : AppendOutcomes}
  {entry : StagedAppend} {available : ℕ} {object : ObjectResponse}

theorem heldUnits_entry : object.entry.heldUnits = object.units.toUInt32.toNat := by
  unfold StagedAppend.heldUnits ObjectResponse.entry
  aesop

theorem acquireBase_eq {u : UInt64} (h : u.toUInt32.toNat ≤ available) :
    acquireBase available u =
      some (if u = 0 then [] else [u.toUInt32], available - u.toUInt32.toNat) := by
  unfold acquireBase
  by_cases hzero : u = 0
  · rw [if_pos hzero, if_pos hzero, hzero]
    rfl
  · rw [if_neg hzero, if_neg hzero, tryAcquireMany_eq_some_iff.mpr ⟨h, rfl⟩]
    rfl

theorem acquireBase_eq_none {u : UInt64} (h : ¬ u.toUInt32.toNat ≤ available) :
    acquireBase available u = none := by
  unfold acquireBase
  have hzero : u ≠ 0 := by
    rintro rfl
    exact h (Nat.zero_le _)
  rw [if_neg hzero, tryAcquireMany, if_neg h]
  rfl

theorem size_found {eTag : Option String} {contentLength : Option Int64} {copied : Option UInt64}
    {size : UInt64} (h : contentLength.bind tryFromI64 = some size) :
    ObjectResponse.size (.found eTag contentLength copied) = size := by
  rw [ObjectResponse.size, h]
  rfl

theorem stageObject_eq (h : object.Stageable available) :
    stageObject available object =
      .ok (object.entry, available - object.units.toUInt32.toNat) := by
  cases object with
  | notFound => rfl
  | failed => cases h
  | found eTag contentLength copied =>
    obtain ⟨hetag, size, hsize, hle, rfl⟩ := h
    obtain ⟨eTag, rfl⟩ := Option.isSome_iff_exists.mp hetag
    unfold ObjectResponse.entry ObjectResponse.units
    rw [size_found hsize]
    unfold stageObject
    simp only [hsize, acquireBase_eq hle, ne_eq, not_true_eq_false, if_false]

theorem stageObject_error (h : ¬ object.Stageable available) :
    ∃ e, stageObject available object = .error e := by
  cases object with
  | notFound => exact absurd trivial h
  | failed => exact ⟨_, rfl⟩
  | found eTag contentLength copied =>
    cases eTag with
    | none => exact ⟨_, rfl⟩
    | some eTag =>
      unfold stageObject
      cases hsize : contentLength.bind tryFromI64 with
      | none =>
        simp only [hsize]
        exact ⟨_, rfl⟩
      | some size =>
        by_cases hle : (permitUnits size).toUInt32.toNat ≤ available
        · cases copied with
          | none =>
            simp only [hsize, acquireBase_eq hle]
            exact ⟨_, rfl⟩
          | some copied =>
            have hne : copied ≠ size := by
              rintro rfl
              exact h ⟨rfl, copied, hsize, hle, rfl⟩
            simp only [hsize, acquireBase_eq hle, if_pos hne]
            exact ⟨_, rfl⟩
        · simp only [hsize, acquireBase_eq_none hle]
          exact ⟨_, rfl⟩

def startState (st : AppendStaging) (path : String) (o : AppendOutcomes) : AppendStaging :=
  match st.appendStaging.get path with
  | none =>
    ⟨st.appendStaging.put path o.object.entry, st.available - o.object.units.toUInt32.toNat⟩
  | some _ => st

theorem get_startState :
    (startState st path o).appendStaging.get path = some (startEntry st path o) := by
  grind [startState, startEntry, Store.get_put_self]

theorem available_startState : (startState st path o).available = startAvailable st path o := by
  grind [startState, startAvailable]

theorem get_startState_of_ne {other : String} (hne : other ≠ path) :
    (startState st path o).appendStaging.get other = st.appendStaging.get other := by
  grind [startState, Store.get_put_of_ne]

theorem ensureStaging_eq (h : Stages st path o) :
    st.ensureStaging path o = .ok (startState st path o, (startEntry st path o).size) := by
  unfold AppendStaging.ensureStaging startState startEntry
  cases hget : st.appendStaging.get path with
  | some entry => rfl
  | none =>
    obtain ⟨hfile, hobject, hflush, hroom⟩ := h.2 hget
    simp_all [Bool.not_true, Bool.false_eq_true, stageObject_eq, if_neg, Option.getD_none]

theorem appendFileStaged_of_not_stages (h : ¬ Stages st path o) :
    ∃ e, st.appendFileStaged path file o = (st, .error e) := by
  unfold AppendStaging.appendFileStaged
  by_cases hpath : o.createPath = true
  swap
  · simp_all
  simp only [hpath, Bool.not_true, Bool.false_eq_true, if_false]
  unfold AppendStaging.ensureStaging
  cases hget : st.appendStaging.get path with
  | some entry =>
    refine absurd ⟨hpath, fun hnone => ?_⟩ h
    rw [hget] at hnone
    cases hnone
  | none =>
    by_cases hfile : o.createFile = true
    swap
    · simp_all
    by_cases hobject : o.object.Stageable st.available
    swap
    · obtain ⟨e, he⟩ := stageObject_error hobject
      simp only [hfile, Bool.not_true, Bool.false_eq_true, if_false, he]
      exact ⟨_, rfl⟩
    by_cases hflush : o.flushBase = true
    swap
    · aesop
    have hroom : maxStagedUploads ≤ st.appendStaging.entries.length := by
      by_contra hroom
      exact h ⟨hpath, fun _ => ⟨hfile, hobject, hflush, Nat.not_le.mp hroom⟩⟩
    aesop

theorem appendFileStaged_of_stages (h : Stages st path o) :
    st.appendFileStaged path file o =
      (startState st path o).appendChunk path file o (startEntry st path o).size := by
  unfold AppendStaging.appendFileStaged
  rw [h.1, ensureStaging_eq h]
  rfl

/-! ### A chunk -/

def reserved (entry : StagedAppend) (n : UInt64) : StagedAppend :=
  { entry with
    size := saturatingAdd entry.size n
    budgetPermits := if 0 < newUnits entry n then
      entry.budgetPermits ++ [(newUnits entry n).toUInt32] else entry.budgetPermits
    reservedUnits := if 0 < newUnits entry n then permitUnits (saturatingAdd entry.size n)
      else entry.reservedUnits }

/-- The upload once they have been given back: a sum that saturated is not undone. -/
def released (entry : StagedAppend) (n : UInt64) (length : ℕ) : StagedAppend :=
  { entry with
    size := saturatingSub (saturatingAdd entry.size n) n
    fileLength := length }

variable {n : UInt64}

theorem newUnits_eq_zero (h : ¬ 0 < newUnits entry n) : newUnits entry n = 0 := by
  grind

theorem reserveStagedSize_eq (hget : st.appendStaging.get path = some entry)
    (hle : (newUnits entry n).toUInt32.toNat ≤ st.available) :
    st.reserveStagedSize path n =
      some (⟨st.appendStaging.put path (reserved entry n),
        st.available - (newUnits entry n).toUInt32.toNat⟩, newUnits entry n) := by
  unfold AppendStaging.reserveStagedSize reserved
  rw [hget]
  by_cases hpos : 0 < newUnits entry n
  · have hpos' := hpos
    unfold newUnits at hpos' hle
    simp only [Option.bind_eq_bind, Option.bind_some, if_pos hpos', if_pos hpos,
      tryAcquireMany_eq_some_iff.mpr ⟨hle, rfl⟩]
    rfl
  · have hpos' := hpos
    have hzero := newUnits_eq_zero hpos
    have hnone : saturatingSub (permitUnits (saturatingAdd entry.size n)) entry.reservedUnits = 0 :=
      hzero
    simp [newUnits, Option.bind_eq_bind, Option.bind_some, hnone]

theorem reserveStagedSize_eq_none (hget : st.appendStaging.get path = some entry)
    (hle : ¬ (newUnits entry n).toUInt32.toNat ≤ st.available) :
    st.reserveStagedSize path n = none := by
  unfold AppendStaging.reserveStagedSize
  rw [hget]
  have hpos : 0 < newUnits entry n := by
    by_contra hpos
    rw [newUnits_eq_zero hpos] at hle
    exact hle (Nat.zero_le _)
  unfold newUnits at hpos hle
  have hnone : tryAcquireMany st.available (saturatingSub
      (permitUnits (saturatingAdd entry.size n)) entry.reservedUnits).toUInt32 = none :=
    if_neg hle
  simp only [Option.bind_eq_bind, Option.bind_some, if_pos hpos, hnone, Option.bind_none]

theorem resizeFile_eq (hget : st.appendStaging.get path = some entry) (f : ℕ → ℕ) :
    st.resizeFile path f =
      { st with appendStaging :=
          st.appendStaging.put path { entry with fileLength := f entry.fileLength } } := by
  unfold AppendStaging.resizeFile
  rw [hget]

theorem releaseStagedSize_eq {store : Store String StagedAppend} {length : ℕ}
    (hget : store.get path = some { reserved entry n with fileLength := length })
    (hle : (newUnits entry n).toUInt32.toNat ≤ available) :
    AppendStaging.releaseStagedSize ⟨store, available - (newUnits entry n).toUInt32.toNat⟩ path n
        (newUnits entry n) =
      ⟨store.put path (released entry n length), available⟩ := by
  unfold AppendStaging.releaseStagedSize
  simp only [hget]
  by_cases hpos : 0 < newUnits entry n
  · have hunits : saturatingSub (permitUnits (saturatingAdd entry.size n)) (newUnits entry n) =
        entry.reservedUnits := by
      have hnew := toNat_newUnits entry n
      rw [UInt64.lt_iff_toNat_lt] at hpos
      rw [← UInt64.toNat_inj, toNat_saturatingSub]
      have hzero : (0 : UInt64).toNat = 0 := rfl
      omega
    simp only [reserved, if_pos hpos, hunits, List.getLast?_concat, Option.map_some,
      Option.getD_some, List.dropLast_concat, released, Nat.sub_add_cancel hle]
  · simp only [reserved, if_neg hpos, released]
    rw [newUnits_eq_zero hpos]
    rfl

def cutLength (entry : StagedAppend) (o : AppendOutcomes) : ℕ :=
  if o.setLen then entry.size.toNat else entry.fileLength + o.written

theorem rollBack_eq (hle : (newUnits entry n).toUInt32.toNat ≤ st.available) :
    AppendStaging.rollBack ⟨st.appendStaging.put path (reserved entry n),
        st.available - (newUnits entry n).toUInt32.toNat⟩ path o entry.size n
        (newUnits entry n) =
      ⟨st.appendStaging.put path (released entry n (cutLength entry o)), st.available⟩ := by
  unfold AppendStaging.rollBack cutLength
  rw [resizeFile_eq (Store.get_put_self _ _ _)]
  by_cases hset : o.setLen = true
  · simp only [hset, if_true]
    rw [resizeFile_eq (Store.get_put_self _ _ _),
      releaseStagedSize_eq (Store.get_put_self _ _ _) hle, Store.put_put, Store.put_put,
      Store.put_put]
  · rw [Bool.not_eq_true] at hset
    simp only [hset, Bool.false_eq_true, if_false]
    rw [releaseStagedSize_eq (Store.get_put_self _ _ _) hle, Store.put_put, Store.put_put]
    rfl

theorem appendChunk_of_not_reserves (hget : st.appendStaging.get path = some entry)
    (h : ¬ Reserves entry st.available file o) (c : UInt64) :
    ∃ e, st.appendChunk path file o c = (st, .error e) := by
  unfold AppendStaging.appendChunk
  by_cases hopen : o.openFile = true
  swap
  · simp_all
  simp only [hopen, Bool.not_true, Bool.false_eq_true, if_false]
  cases hn : file.incomingSize with
  | none => exact ⟨_, rfl⟩
  | some n =>
    have hle : ¬ (newUnits entry n).toUInt32.toNat ≤ st.available :=
      fun hle => h ⟨hopen, n, hn, hle⟩
    simp only [reserveStagedSize_eq_none hget hle]
    exact ⟨_, rfl⟩

theorem appendChunk_of_not_writes (hget : st.appendStaging.get path = some entry)
    (hopen : o.openFile = true) (hn : file.incomingSize = some n)
    (hle : (newUnits entry n).toUInt32.toNat ≤ st.available) (hw : ¬ Writes o) :
    ∃ e, st.appendChunk path file o entry.size =
      (⟨st.appendStaging.put path (released entry n (cutLength entry o)), st.available⟩,
        .error e) := by
  unfold AppendStaging.appendChunk
  simp only [hopen, Bool.not_true, Bool.false_eq_true, if_false, hn,
    reserveStagedSize_eq hget hle, rollBack_eq hle]
  cases hwrite : o.write with
  | none => exact ⟨_, rfl⟩
  | some copied =>
    have hflush : o.flush = false := by
      rw [← Bool.not_eq_true]
      intro hflush
      exact hw ⟨by rw [hwrite]; rfl, hflush⟩
    simp only [hflush, Bool.not_false, if_true]
    exact ⟨_, rfl⟩

theorem appendChunk_of_writes (hget : st.appendStaging.get path = some entry)
    (hopen : o.openFile = true) (hn : file.incomingSize = some n)
    (hle : (newUnits entry n).toUInt32.toNat ≤ st.available) (hw : Writes o) (c : UInt64) :
    ∃ length appended, st.appendChunk path file o c =
      (⟨st.appendStaging.put path { reserved entry n with fileLength := length },
        st.available - (newUnits entry n).toUInt32.toNat⟩, .ok appended) := by
  obtain ⟨hwrite, hflush⟩ := hw
  obtain ⟨copied, hcopied⟩ := Option.isSome_iff_exists.mp hwrite
  unfold AppendStaging.appendChunk
  simp only [hopen, Bool.not_true, Bool.false_eq_true, if_false, hn,
    reserveStagedSize_eq hget hle, hcopied, hflush]
  rw [resizeFile_eq (Store.get_put_self _ _ _), Store.put_put]
  exact ⟨_, _, rfl⟩

/-! ### The permits in balance -/

theorem heldUnits_reserved (length : ℕ) :
    StagedAppend.heldUnits { reserved entry n with fileLength := length } =
      entry.heldUnits + (newUnits entry n).toUInt32.toNat := by
  by_cases hpos : 0 < newUnits entry n
  · rw [← heldUnits_concat]
    unfold reserved StagedAppend.heldUnits
    rw [if_pos hpos]
  · unfold reserved StagedAppend.heldUnits
    rw [if_neg hpos, newUnits_eq_zero hpos]
    rfl

theorem heldUnits_released (length : ℕ) : (released entry n length).heldUnits = entry.heldUnits :=
  rfl

theorem balanced_put_iff {store : Store String StagedAppend} :
    Balanced ⟨store.put path entry, available⟩ ↔
      entry.heldUnits + (store.remove path).total StagedAppend.heldUnits + available =
        initialPermits := by
  unfold Balanced
  rw [Store.total_put]

theorem balanced_iff_of_get (hget : st.appendStaging.get path = some entry) :
    Balanced st ↔
      entry.heldUnits + (st.appendStaging.remove path).total StagedAppend.heldUnits +
        st.available = initialPermits := by
  unfold Balanced
  rw [Store.total_of_get hget]

theorem ObjectResponse.Stageable.le (h : object.Stageable available) :
    object.units.toUInt32.toNat ≤ available := by
  cases object with
  | notFound => exact Nat.zero_le _
  | failed => cases h
  | found eTag contentLength copied =>
    obtain ⟨_, size, hsize, hle, _⟩ := h
    rwa [ObjectResponse.units, size_found hsize]

theorem balanced_startState (h : Stages st path o) (hb : Balanced st) :
    Balanced (startState st path o) := by
  unfold startState
  cases hget : st.appendStaging.get path with
  | some entry => exact hb
  | none =>
    have hle := (h.2 hget).2.1.le
    unfold Balanced at hb
    rw [balanced_put_iff, heldUnits_entry, Store.remove_eq_self hget]
    omega

theorem balanced_reserved (hget : st.appendStaging.get path = some entry)
    (hle : (newUnits entry n).toUInt32.toNat ≤ st.available) (hb : Balanced st) (length : ℕ) :
    Balanced ⟨st.appendStaging.put path { reserved entry n with fileLength := length },
      st.available - (newUnits entry n).toUInt32.toNat⟩ := by
  rw [balanced_iff_of_get hget] at hb
  rw [balanced_put_iff, heldUnits_reserved]
  omega

theorem balanced_released (hget : st.appendStaging.get path = some entry) (hb : Balanced st)
    (length : ℕ) :
    Balanced ⟨st.appendStaging.put path (released entry n length), st.available⟩ := by
  rw [balanced_iff_of_get hget] at hb
  rwa [balanced_put_iff, heldUnits_released]

/-! ### The units that are counted -/

structure Covered (entry : StagedAppend) : Prop where
  held : entry.heldUnits ≤ entry.reservedUnits.toNat
  covered : entry.size.toNat ≤ entry.reservedUnits.toNat * s3UploadSpoolPermitBytes

theorem Counted.toCovered (h : Counted entry) : Covered entry := ⟨h.held.ge, h.covered⟩

theorem Covered.counted_iff (h : Covered entry) :
    Counted entry ↔ entry.reservedUnits.toNat = entry.heldUnits :=
  ⟨Counted.held, fun hheld => ⟨hheld, h.covered⟩⟩

theorem covered_entry : Covered object.entry := by
  refine ⟨?_, le_permitUnits object.size⟩
  rw [heldUnits_entry, UInt64.toNat_toUInt32]
  exact Nat.mod_le _ _

theorem counted_entry_iff : Counted object.entry ↔ object.units.toNat < 2 ^ 32 := by
  have hreserved : object.entry.reservedUnits = object.units := rfl
  rw [covered_entry.counted_iff, heldUnits_entry, UInt64.toNat_toUInt32, hreserved]
  omega

theorem toNat_reservedUnits_reserved :
    (reserved entry n).reservedUnits.toNat =
      entry.reservedUnits.toNat + (newUnits entry n).toNat := by
  unfold reserved
  by_cases hpos : 0 < newUnits entry n
  · simp only [if_pos hpos]
    rw [UInt64.lt_iff_toNat_lt, UInt64.toNat_zero] at hpos
    rw [toNat_newUnits] at hpos ⊢
    omega
  · simp only [if_neg hpos]
    rw [newUnits_eq_zero hpos]
    rfl

/-- A chunk that is written stays counted exactly if its units fit into a `u32`. -/
theorem counted_reserved_iff (h : Covered entry) (length : ℕ) :
    Counted { reserved entry n with fileLength := length } ↔
      Counted entry ∧ (newUnits entry n).toNat < 2 ^ 32 := by
  have hheld := @heldUnits_reserved entry n length
  have hunits := @toNat_reservedUnits_reserved entry n
  have hmod := Nat.mod_lt (newUnits entry n).toNat (Nat.two_pow_pos 32)
  have hle := Nat.mod_le (newUnits entry n).toNat (2 ^ 32)
  rw [UInt64.toNat_toUInt32] at hheld
  rw [h.counted_iff]
  constructor
  · intro hcounted
    have heq := hcounted.held
    have hless := h.held
    grind
  · rintro ⟨heq, hlt⟩
    refine ⟨?_, ?_⟩
    · grind
    grind [le_permitUnits, saturatingAdd, toNat_newUnits, reserved, s3UploadSpoolPermitBytes,
      Nat.mul_le_mul_right]

theorem counted_released_iff (h : Covered entry) (length : ℕ) :
    Counted (released entry n length) ↔ Counted entry := by
  have hsize : (saturatingSub (saturatingAdd entry.size n) n).toNat ≤ entry.size.toNat := by
    rw [toNat_saturatingSub, toNat_saturatingAdd]
    omega
  constructor
  · intro hcounted
    exact ⟨hcounted.held, h.covered⟩
  · intro hcounted
    exact ⟨hcounted.held, hsize.trans hcounted.covered⟩

theorem covered_startEntry (h : Accounted st) : Covered (startEntry st path o) := by
  unfold startEntry
  cases hget : st.appendStaging.get path with
  | none => exact covered_entry
  | some entry => exact (h.counted path entry hget).toCovered

/-- The start of an append is counted exactly if the units of an object that it stages fit into a
`u32`. -/
theorem counted_startEntry_iff (h : Accounted st) :
    Counted (startEntry st path o) ↔
      (st.appendStaging.get path = none → o.object.units.toNat < 2 ^ 32) := by
  unfold startEntry
  cases hget : st.appendStaging.get path with
  | none =>
    rw [Option.getD_none, counted_entry_iff]
    exact ⟨fun hlt _ => hlt, fun hlt => hlt rfl⟩
  | some entry => exact iff_of_true (h.counted path entry hget) fun hnone => by cases hnone

variable {st' : AppendStaging}

theorem accounted_iff_of_get (h : Accounted st) (hothers : ∀ other, other ≠ path →
      st'.appendStaging.get other = st.appendStaging.get other)
    (hget : st'.appendStaging.get path = some entry) (hb : Balanced st') :
    Accounted st' ↔ Counted entry := by
  constructor
  · intro h'
    exact h'.counted path entry hget
  · intro hentry
    refine ⟨fun other entry' hother => ?_, hb⟩
    by_cases hpath : other = path
    · rw [hpath, hget] at hother
      rwa [← Option.some.inj hother]
    · rw [hothers other hpath] at hother
      exact h.counted other entry' hother

/-! ### Appends -/

theorem callKept_append_of_error {e : StagingError}
    (he : st.appendFileStaged path file o = (st', .error e)) :
    CallKept st (.append path file o) ↔ Accounted st' ∧ holding st' path = holding st path := by
  have hcall : st.call (.append path file o) = st' := congrArg Prod.fst he
  constructor
  · intro h
    have hkept := h.unchanged path file o e rfl (congrArg Prod.snd he)
    have haccounted := h.accounted
    rw [hcall] at hkept haccounted
    exact ⟨haccounted, hkept⟩
  · rintro ⟨haccounted, hkept⟩
    refine ⟨by rwa [hcall], fun path' file' o' e' heq _ => ?_⟩
    cases heq
    rwa [hcall]

theorem callKept_append_of_ok {appended : UInt64}
    (hok : st.appendFileStaged path file o = (st', .ok appended)) :
    CallKept st (.append path file o) ↔ Accounted st' := by
  have hcall : st.call (.append path file o) = st' := congrArg Prod.fst hok
  constructor
  · intro h
    rw [← hcall]
    exact h.accounted
  · intro haccounted
    refine ⟨by rwa [hcall], fun path' file' o' e' heq he => ?_⟩
    cases heq
    rw [hok] at he
    cases he

theorem holding_of_get (hget : st.appendStaging.get path = some entry) :
    holding st path =
      (entry.size, entry.reservedUnits, entry.budgetPermits, entry.fileLength) := by
  unfold holding
  rw [hget]

/-- The upload that an append starts with holds what it held before exactly if it has not been
staged just now, or from an empty object. -/
theorem holding_start_iff {length : ℕ} :
    ((startEntry st path o).size, (startEntry st path o).reservedUnits,
        (startEntry st path o).budgetPermits, length) = holding st path ↔
      (st.appendStaging.get path = none → o.object.size = 0) ∧
        length = (startEntry st path o).fileLength := by
  unfold startEntry holding
  cases hget : st.appendStaging.get path with
  | some entry =>
    simp
  | none =>
    rw [Option.getD_none]
    have hlength : o.object.entry.fileLength = o.object.size.toNat := rfl
    rw [hlength]
    constructor
    · intro heq
      have hsize : o.object.size = 0 := (Prod.mk.inj heq).1
      simp_all
    · rintro ⟨hsize, rfl⟩
      have hzero : o.object.units = 0 := by
        rw [ObjectResponse.units, hsize rfl, permitUnits_zero]
      unfold ObjectResponse.entry
      rw [hsize rfl, hzero]
      rfl

theorem cutLength_eq_iff : cutLength entry o = entry.fileLength ↔ CutsBack entry o := by
  unfold cutLength CutsBack
  grind

theorem size_released (h : Counted entry) (hheld : entry.heldUnits + available ≤ initialPermits)
    (hle : (newUnits entry n).toUInt32.toNat ≤ available) (length : ℕ) :
    (released entry n length).size = entry.size := by
  have hsize := h.covered
  have hunits := h.held
  have hadd := toNat_saturatingAdd entry.size n
  have hrequired := toNat_permitUnits (saturatingAdd entry.size n)
  have hnew := toNat_newUnits entry n
  have hn := n.toNat_lt
  have hpermits : initialPermits = 2 ^ 16 := rfl
  have hbytes : s3UploadSpoolPermitBytes = 2 ^ 20 := rfl
  rw [UInt64.toNat_toUInt32] at hle
  rw [hbytes] at hsize
  rw [hpermits] at hheld
  change saturatingSub (saturatingAdd entry.size n) n = entry.size
  rw [← UInt64.toNat_inj, toNat_saturatingSub, hadd]
  -- a sum that saturates takes 2^44 units, and the cut of the new ones is too large
  by_contra hne
  omega

theorem callKept_append_iff_of_stages (h : Accounted st) (hstages : Stages st path o) :
    CallKept st (.append path file o) ↔ AppendFits st path file o := by
  have hget := @get_startState st path o
  have havailable := @available_startState st path o
  have hothers : ∀ other, other ≠ path →
      (startState st path o).appendStaging.get other = st.appendStaging.get other :=
    fun other hne => get_startState_of_ne hne
  have hb := balanced_startState hstages h.balanced
  have hcovered := @covered_startEntry st path o h
  have hcounted := @counted_startEntry_iff st path o h
  have happend := @appendFileStaged_of_stages st path file o hstages
  by_cases hres : Reserves (startEntry st path o) (startAvailable st path o) file o
  · obtain ⟨hopen, n, hn, hle⟩ := id hres
    rw [← havailable] at hle
    by_cases hw : Writes o
    · -- the chunk is written
      obtain ⟨length, appended, hchunk⟩ :=
        appendChunk_of_writes hget hopen hn hle hw (startEntry st path o).size
      rw [callKept_append_of_ok (happend.trans hchunk),
        accounted_iff_of_get h (fun other hne => ?_) (Store.get_put_self _ _ _)
          (balanced_reserved hget hle hb length),
        counted_reserved_iff hcovered, hcounted]
      · constructor
        · rintro ⟨hobject, hchunk⟩
          refine ⟨hobject, fun _ hnot => absurd ⟨hres, hw⟩ hnot, fun _ hnot => absurd hw hnot,
            fun _ _ m hm => ?_⟩
          obtain rfl := Option.some.inj (hm.symm.trans hn)
          exact hchunk
        · intro hfits
          exact ⟨hfits.object, hfits.chunk hres hw n hn⟩
      · exact (Store.get_put_of_ne _ _ hne).trans (hothers other hne)
    · -- the chunk is rolled back
      obtain ⟨e, hchunk⟩ := appendChunk_of_not_writes hget hopen hn hle hw
      rw [callKept_append_of_error (happend.trans hchunk),
        accounted_iff_of_get h (fun other hne => ?_) (Store.get_put_self _ _ _)
          (balanced_released hget hb _),
        counted_released_iff hcovered, holding_of_get (Store.get_put_self _ _ _)]
      · have hsize : Counted (startEntry st path o) →
            (released (startEntry st path o) n (cutLength (startEntry st path o) o)).size =
              (startEntry st path o).size := by
          intro hstart
          rw [balanced_iff_of_get hget] at hb
          exact size_released hstart (by omega) hle _
        constructor
        · rintro ⟨hstart, hholding⟩
          rw [hsize hstart] at hholding
          obtain ⟨hempty, hlength⟩ := holding_start_iff.mp hholding
          exact ⟨hcounted.mp hstart, fun hnone _ => hempty hnone,
            fun _ _ => cutLength_eq_iff.mp hlength, fun _ hwrites => absurd hwrites hw⟩
        · intro hfits
          have hstart := hcounted.mpr hfits.object
          refine ⟨hstart, ?_⟩
          rw [hsize hstart]
          exact holding_start_iff.mpr
            ⟨fun hnone => hfits.failed hnone fun hboth => hw hboth.2,
              cutLength_eq_iff.mpr (hfits.cutsBack hres hw)⟩
      · exact (Store.get_put_of_ne _ _ hne).trans (hothers other hne)
  · -- there are no permits for the chunk
    have hres' := hres
    rw [← havailable] at hres'
    obtain ⟨e, hchunk⟩ := appendChunk_of_not_reserves hget hres' (startEntry st path o).size
    rw [callKept_append_of_error (happend.trans hchunk), accounted_iff_of_get h hothers hget hb,
      hcounted, holding_of_get hget, holding_start_iff]
    constructor
    · rintro ⟨hobject, hempty, _⟩
      exact ⟨hobject, fun hnone _ => hempty hnone, fun hyes => absurd hyes hres,
        fun hyes => absurd hyes hres⟩
    · intro hfits
      exact ⟨hfits.object, fun hnone => hfits.failed hnone fun hboth => hres hboth.1, rfl⟩

theorem callKept_append_iff (h : Accounted st) :
    CallKept st (.append path file o) ↔ (Stages st path o → AppendFits st path file o) := by
  by_cases hstages : Stages st path o
  · grind [callKept_append_iff_of_stages]
  · obtain ⟨e, he⟩ := @appendFileStaged_of_not_stages st path file o hstages
    rw [callKept_append_of_error he]
    exact iff_of_true ⟨h, rfl⟩ fun hyes => absurd hyes hstages

/-! ### The end of an upload -/

theorem accounted_removeStaging (h : Accounted st) (path : String) :
    Accounted (st.removeStaging path).1 := by
  unfold AppendStaging.removeStaging
  cases hget : st.appendStaging.get path with
  | none => exact h
  | some entry =>
    refine ⟨fun other entry' hother => ?_, ?_⟩
    · rw [Store.get_remove] at hother
      by_cases hpath : other = path
      · rw [if_pos hpath] at hother
        cases hother
      · rw [if_neg hpath] at hother
        exact h.counted other entry' hother
    · have hb := (balanced_iff_of_get hget).mp h.balanced
      grind [Balanced, StagedAppend.heldUnits, initialPermits]

theorem accounted_removeAll (paths : List String) (h : Accounted st) :
    Accounted (st.removeAll paths) := by
  induction paths generalizing st with
  | nil => exact h
  | cons path paths ih => exact ih (accounted_removeStaging h path)

theorem accounted_finalizeStaged (h : Accounted st) (staged : StagedAppend) (path : String)
    (o : FinalizeOutcomes) : Accounted (st.finalizeStaged staged path o).1 := by
  unfold AppendStaging.finalizeStaged
  by_cases hread : (!o.readFile) = true
  · rw [if_pos hread]
    exact h
  rw [if_neg hread]
  by_cases huploads : (!uploads staged o) = true
  · rw [if_pos huploads]
    exact h
  rw [if_neg huploads]
  by_cases hdelete : (staged.baseEtag.isSome && !o.deleteBase) = true
  · rw [if_pos hdelete]
    exact h
  rw [if_neg hdelete]
  exact accounted_removeStaging h path

theorem accounted_moveFile (h : Accounted st) (path : String) (o : FinalizeOutcomes) :
    Accounted (st.moveFile path o) := by
  grind [AppendStaging.moveFile, accounted_finalizeStaged]

theorem callKept_of_accounted {call : StagingCall}
    (hcall : ∀ path file o, call ≠ .append path file o) (h : Accounted (st.call call)) :
    CallKept st call :=
  ⟨h, fun path file o _ heq => absurd heq (hcall path file o)⟩

/-! ### Runs -/

/-- From a state whose accounts are right, a call is kept exactly if it meets the condition. -/
theorem callKept_iff (h : Accounted st) (call : StagingCall) :
    CallKept st call ↔ CallOk st call := by
  cases call with
  | append path file o => exact callKept_append_iff h
  | remove path =>
    refine iff_of_true (callKept_of_accounted (fun _ _ _ heq => nomatch heq) ?_) trivial
    exact accounted_removeStaging h path
  | removePrefix repository =>
    refine iff_of_true (callKept_of_accounted (fun _ _ _ heq => nomatch heq) ?_) trivial
    exact accounted_removeAll _ h
  | move path o =>
    refine iff_of_true (callKept_of_accounted (fun _ _ _ heq => nomatch heq) ?_) trivial
    exact accounted_moveFile h path o
  | cleanup removeDir =>
    refine iff_of_true (callKept_of_accounted (fun _ _ _ heq => nomatch heq) ?_) trivial
    exact accounted_removeAll _ h

theorem accounted_initial : Accounted .initial := by
  refine ⟨fun path entry hget => ?_, rfl⟩
  have hnone : AppendStaging.initial.appendStaging.get path = none := Store.get_empty path
  rw [hnone] at hget
  cases hget

/-- **The accounts of a run.** -/
theorem stepsKept_iff (calls : List StagingCall) :
    StepsOk stagingStep CallKept .initial calls ↔ StepsOk stagingStep CallOk .initial calls := by
  refine stepsOk_iff_of_invariant (I := Accounted) (fun st call st' _ hkept hstep => ?_)
    (fun st call h => callKept_iff h call) accounted_initial
  rw [← Option.some.inj hstep]
  exact hkept.accounted

/-- The first append to an object of one byte, with a file of 64 GiB: it is rejected, and keeps the
permit for the object. -/
def rejectedAppend : StagingCall :=
  .append "repository/upload" (.path (some (2 ^ 36)))
    { createPath := true, createFile := true, object := .found (some "etag") (some 1) (some 1),
      flushBase := true, openFile := true, write := some 0, flush := true, written := 0,
      setLen := true }

/-- An append of a file of 4 PiB that is truncated before it is copied: no permit is held for it. -/
def truncatedAppend : StagingCall :=
  .append "repository/upload" (.path (some (2 ^ 52)))
    { createPath := true, createFile := true, object := .notFound, flushBase := true,
      openFile := true, write := some 0, flush := true, written := 0, setLen := true }

theorem not_stepsKept_rejectedAppend :
    ¬ StepsOk stagingStep CallKept .initial [rejectedAppend] ∧
      ¬ StepsOk stagingStep CallKept .initial [truncatedAppend] := by
  constructor
  · rintro ⟨hkept, _⟩
    have hunchanged := hkept.unchanged _ _ _ _ rfl rfl
    revert hunchanged
    decide
  · rintro ⟨hkept, _⟩
    have hcounted := hkept.accounted.counted "repository/upload"
      ⟨2 ^ 52, none, [0], 2 ^ 32, 0⟩ (by decide)
    have hheld := hcounted.held
    revert hheld
    decide

end Pkgly.S3.Staging
