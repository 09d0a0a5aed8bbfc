import Pkgly.Docker.Equiv.Manifests
import Pkgly.Docker.UploadSystem

/-!
# Content addressing of uploaded blobs

A blob `v2/<name>/blobs/sha256:<h>` should hold bytes whose SHA-256 is `<h>` (`BlobsRight`).  The
bytes are kept under image name and upload id, their hash under the upload id alone, and nothing
ties the steps on the two together.  Blobs stay right in every run whose steps are `Allowed`:

* the requests on a session name the image it was opened for;
* a request enters its session (`Inside`: it takes the lock of the file, appends to the staged
  upload or deletes the file) while the session is open and no other request is inside;
* no request ends early with bytes in only one of the file and the hash;
* no upload path that is deleted is a directory.

The invariant (`SessionOk`) says what each request inside a session owes: what is in the file and
in the buffer is what the hash has seen or will see.
-/

namespace Pkgly.Docker

open StoragePath DynStorage Objects

/-! ### Keys -/

def uploadKey (name uploadId : String) : List String := (uploadPath name uploadId).components

theorem uploadKey_eq {uploadId : String} (hne : uploadId ≠ "") (hslash : '/' ∉ uploadId.toList)
    (name : String) :
    uploadKey name uploadId = ("v2" :: segments '/' name) ++ ["uploads", uploadId] := by
  have hnil : uploadId.toList ≠ [] := fun h => hne (String.toList_inj.mp h)
  rw [uploadKey, uploadPath, components_objectPath _ _ _ (by decide) (by decide),
    segments_eq_singleton hslash hnil]
  rfl

/-- `key` is `<dir>/blobs/sha256:<h>`. -/
def IsBlobKey (h : String) (key : List String) : Prop :=
  ∃ dir : List String, key = dir ++ ["blobs", "sha256:" ++ h]

def BlobsRight (sha : Sha256) (objects : Objects) : Prop :=
  ∀ h key content, IsBlobKey h key → objects.get key = some content → sha.hex content = h

theorem append_pair_inj {dir dir' : List String} {a a' b b' : String}
    (h : dir ++ [a, b] = dir' ++ [a', b']) : a = a' ∧ b = b' := by
  obtain ⟨-, hlast⟩ := List.append_inj' h rfl
  exact ⟨(List.cons.inj hlast).1, (List.cons.inj (List.cons.inj hlast).2).1⟩

theorem not_isBlobKey_uploadKey {h name uploadId : String} (hne : uploadId ≠ "")
    (hslash : '/' ∉ uploadId.toList) : ¬ IsBlobKey h (uploadKey name uploadId) := by
  rintro ⟨dir, hdir⟩
  rw [uploadKey_eq hne hslash] at hdir
  exact absurd (append_pair_inj hdir).1 (by decide)

theorem uploadKey_inj {name name' uploadId uploadId' : String} (hne : uploadId ≠ "")
    (hslash : '/' ∉ uploadId.toList) (hne' : uploadId' ≠ "") (hslash' : '/' ∉ uploadId'.toList)
    (h : uploadKey name uploadId = uploadKey name' uploadId') : uploadId = uploadId' := by
  rw [uploadKey_eq hne hslash, uploadKey_eq hne' hslash'] at h
  exact (append_pair_inj h).2

theorem isBlobKey_blobPath_iff {sha : Sha256} {h name : String} {content : Bytes} :
    IsBlobKey h (blobPath name (sha.digest content)).components ↔ sha.hex content = h := by
  have hkey : (blobPath name (sha.digest content)).components =
      ("v2" :: segments '/' name) ++ ["blobs", sha.digest content] := by
    rw [blobPath, components_objectPath _ _ _ (by decide) (by decide),
      segments_eq_singleton (sha.slash_notMem_digest content) (sha.digest_ne_nil content)]
    rfl
  rw [hkey]
  constructor
  · rintro ⟨dir, hdir⟩
    have hl := congrArg String.toList (append_pair_inj hdir).2
    rw [Sha256.digest, String.toList_append, String.toList_append,
      List.append_cancel_left_eq] at hl
    exact String.toList_inj.mp hl
  · rintro rfl
    exact ⟨_, rfl⟩

def uploaded (storage : DynStorage) (key : List String) : Option Bytes :=
  match storage.backend with
  | .local => storage.objects.get key
  | .s3 => storage.staging.get key

/-! ### The condition on the steps -/

/-- The request has entered its session. -/
def Phase.inside : Phase → Bool
  | .begun => false
  | .opened => false
  | _ => true

namespace UploadSystem

variable {sha : Sha256} {s s' : UploadSystem} {r : Nat} {q q' : InFlight} {id : String}
  {key : List String} {f : List String → Option (List String)}

/-- No other request is inside the session of `q`. -/
def Alone (s : UploadSystem) (r : Nat) (q : InFlight) : Prop :=
  ∀ r' q', r' ≠ r → s.requests.get r' = some q' → q'.uploadId = q.uploadId →
    q'.phase.inside = false

/-- The request `q` may enter its session. -/
def MayEnter (s : UploadSystem) (r : Nat) (q : InFlight) : Prop :=
  Alone s r q ∧ (s.repo.uploads.get q.uploadId).isSome

/-- The upload path of `q` is not a directory of a local disk. -/
def NotDirectory (s : UploadSystem) (q : InFlight) : Prop :=
  s.repo.storage.backend = .local → isDir s.repo.storage.objects q.path.components = false

/-- The condition under which uploads keep the blobs right. -/
def Allowed (s : UploadSystem) : UploadAction → Prop
  | .begin _ _ name uploadId =>
    ∀ name', s.posted.get uploadId = some name' → uploadKey name uploadId = uploadKey name' uploadId
  | .lock r | .append r _ => ∀ q, s.requests.get r = some q → MayEnter s r q
  | .delete r => ∀ q, s.requests.get r = some q → MayEnter s r q ∧ NotDirectory s q
  | .place r => ∀ q, s.requests.get r = some q → NotDirectory s q
  | .abort r => ∀ q, s.requests.get r = some q → q.settled = true ∧ q.phase ≠ .deleted
  | _ => True

theorem alone_iff : Alone s r q ↔ ∀ e ∈ s.requests.entries, e.1 ≠ r →
    e.2.uploadId = q.uploadId → e.2.phase.inside = false := by
  constructor
  · rintro h ⟨r', q'⟩ he hne hid
    exact h r' q' hne (Store.get_eq_some_iff.mpr he) hid
  · intro h r' q' hne hq' hid
    exact h ⟨r', q'⟩ (Store.get_eq_some_iff.mp hq') hne hid

instance : Decidable (Alone s r q) := decidable_of_iff' _ alone_iff

instance : Decidable (MayEnter s r q) := inferInstanceAs (Decidable (_ ∧ _))

instance : Decidable (NotDirectory s q) := inferInstanceAs (Decidable (_ → _))

local instance {β : Type*} (o : Option β) (p : β → Prop) [DecidablePred p] :
    Decidable (∀ b, o = some b → p b) := inferInstanceAs (Decidable (∀ b ∈ o, p b))

instance : ∀ a, Decidable (Allowed s a)
  | .begin _ _ _ _ | .lock _ | .append _ _ | .delete _ | .place _ | .abort _ => by
    unfold Allowed
    infer_instance
  | .post _ _ | .open _ | .write _ _ | .flush _ _ | .update _ _ | .close _ | .finalize _
  | .abandon _ => isTrue trivial

/-! ### The invariant -/

def Settled (q : InFlight) : Prop := q.pending = [] ∧ q.toHash = []

/-- No request on the session `id` has just deleted its file. -/
def NoDelete (s : UploadSystem) (id : String) : Prop :=
  ∀ r q, s.requests.get r = some q → q.uploadId = id → q.phase ≠ .deleted

/-- While its session is open, a local request has the file of the session open. -/
def Attached (s : UploadSystem) (key : List String) (q : InFlight) : Prop :=
  s.repo.storage.backend = .local → (s.repo.uploads.get q.uploadId).isSome →
    NoDelete s q.uploadId → q.file = some key ∧ (s.repo.storage.objects.get key).isSome

/-- What the request `q` on the session with the file `key` owes. -/
def RequestOk (sha : Sha256) (s : UploadSystem) (key : List String) (q : InFlight) : Prop :=
  match q.phase with
  | .begun | .deleted => Settled q
  | .opened => Settled q ∧ Attached s key q
  | .streaming =>
    (∃ hashed, s.repo.uploads.get q.uploadId = some hashed ∧
      (uploaded s.repo.storage key).getD [] ++ q.pending = hashed ++ q.toHash) ∧
    (s.repo.storage.backend = .local →
      q.file = some key ∧ (s.repo.storage.objects.get key).isSome)
  | .streamed =>
    Settled q ∧
    (∃ hashed, s.repo.uploads.get q.uploadId = some hashed ∧
      (uploaded s.repo.storage key).getD [] = hashed) ∧
    (s.repo.storage.backend = .local → (s.repo.storage.objects.get key).isSome)
  | .finalized actual =>
    Settled q ∧ s.repo.uploads.get q.uploadId = none ∧
    (∀ content, uploaded s.repo.storage key = some content → sha.digest content = actual) ∧
    (s.repo.storage.backend = .local → (s.repo.storage.objects.get key).isSome)

/-- The session `id` with the file `key` is in order. -/
structure SessionOk (sha : Sha256) (s : UploadSystem) (id : String) (key : List String) : Prop where
  request : ∀ r q, s.requests.get r = some q → q.uploadId = id →
    q.path.components = key ∧ RequestOk sha s key q
  alone : ∀ r q, s.requests.get r = some q → q.uploadId = id → q.phase.inside = true → Alone s r q
  idle : (∀ r q, s.requests.get r = some q → q.uploadId = id → q.phase.inside = false) →
    ∀ hashed, s.repo.uploads.get id = some hashed →
      (uploaded s.repo.storage key).getD [] = hashed
  noObject : s.repo.storage.backend = .s3 → s.repo.storage.objects.get key = none

/-- The invariant of the allowed runs. -/
structure Inv (sha : Sha256) (s : UploadSystem) : Prop where
  posted_of_request : ∀ r q, s.requests.get r = some q → ∃ name, s.posted.get q.uploadId = some name
  posted_of_upload : ∀ id hashed, s.repo.uploads.get id = some hashed →
    ∃ name, s.posted.get id = some name
  uuid : ∀ id name, s.posted.get id = some name → id ≠ "" ∧ '/' ∉ id.toList
  session : ∀ id name, s.posted.get id = some name → SessionOk sha s id (uploadKey name id)
  blobs : BlobsRight sha s.repo.storage.objects

/-! ### Requests after a step -/

theorem requests_set (r' : Nat) :
    (s.set r q).requests.get r' = if r' = r then some q else s.requests.get r' :=
  Store.get_put _ _ _ _

theorem requests_finish (r' : Nat) :
    (s.finish r).requests.get r' = if r' = r then none else s.requests.get r' :=
  Store.get_remove _ _ _

theorem requests_redirect (r' : Nat) :
    (s.redirect f).requests.get r' = (s.requests.get r').map (InFlight.redirect f) :=
  Store.get_mapValues _ _ _

theorem redirect_some (q : InFlight) : q.redirect some = q := by
  cases q
  simp [InFlight.redirect]

@[simp] theorem settled_redirect : Settled (q.redirect f) ↔ Settled q := Iff.rfl

/-- After a step of `r` the other requests differ at most in the path of their open file. -/
def Others (s s' : UploadSystem) (r : Nat) (f : List String → Option (List String)) : Prop :=
  ∀ r', r' ≠ r → s'.requests.get r' = (s.requests.get r').map (InFlight.redirect f)

theorem others_of_eq (h : ∀ r', r' ≠ r → s'.requests.get r' = s.requests.get r') :
    Others s s' r some := by
  intro r' hr'
  rw [h r' hr', funext redirect_some, Option.map_id_fun', id_eq]

theorem settled_of_not_inside (hok : RequestOk sha s key q) (hin : q.phase.inside = false) :
    Settled q := by
  grind [RequestOk, Phase.inside]

/-- Nothing about the session `id` has changed, except that a request which is not inside may have
come, gone, or created the empty file. -/
structure Unseen (sha : Sha256) (s s' : UploadSystem) (id : String) (key : List String) :
    Prop where
  backend : s'.repo.storage.backend = s.repo.storage.backend
  uploads : s'.repo.uploads.get id = s.repo.uploads.get id
  file : uploaded s'.repo.storage key = uploaded s.repo.storage key ∧
      s'.repo.storage.objects.get key = s.repo.storage.objects.get key ∨
    s.repo.storage.backend = .local ∧ s.repo.storage.objects.get key = none ∧
      s'.repo.storage.objects.get key = some []
  forward : ∀ r q', s'.requests.get r = some q' → q'.uploadId = id →
    (q'.path.components = key ∧ q'.phase.inside = false ∧ RequestOk sha s' key q') ∨
    ∃ q f, s.requests.get r = some q ∧ q' = q.redirect f ∧
      (s.repo.storage.backend = .local → q.file = some key →
        (s.repo.storage.objects.get key).isSome → q'.file = q.file)
  backward : ∀ r q, s.requests.get r = some q → q.uploadId = id → q.phase.inside = true →
    ∃ q', s'.requests.get r = some q' ∧ q'.uploadId = id ∧ q'.phase = q.phase

theorem Unseen.noDelete (hu : Unseen sha s s' id key) (h : NoDelete s' id) : NoDelete s id := by
  intro r q hq hid hdel
  obtain ⟨q', hq', hid', hphase⟩ := hu.backward r q hq hid (by rw [hdel]; rfl)
  exact h r q' hq' hid' (hphase.trans hdel)

theorem Unseen.isSome (hu : Unseen sha s s' id key)
    (h : (s.repo.storage.objects.get key).isSome) :
    s'.repo.storage.objects.get key = s.repo.storage.objects.get key ∧
      uploaded s'.repo.storage key = uploaded s.repo.storage key := by
  rcases hu.file with ⟨hup, hobj⟩ | ⟨-, hnone, -⟩
  · exact ⟨hobj, hup⟩
  · rw [hnone] at h
    cases h

theorem Unseen.getD (hu : Unseen sha s s' id key) :
    (uploaded s'.repo.storage key).getD [] = (uploaded s.repo.storage key).getD [] := by
  rcases hu.file with ⟨hup, -⟩ | ⟨hlocal, hnone, hsome⟩
  · rw [hup]
  · simp [uploaded, hu.backend, hlocal, hnone, hsome]

theorem Unseen.kept (hu : Unseen sha s s' id key)
    (h : s.repo.storage.backend = .local → (s.repo.storage.objects.get key).isSome)
    (hb : s'.repo.storage.backend = .local) : (s'.repo.storage.objects.get key).isSome := by
  have hsome := h (hu.backend ▸ hb)
  rw [(hu.isSome hsome).1]
  exact hsome

theorem Unseen.requestOk (hu : Unseen sha s s' id key) (hid : q.uploadId = id)
    (hok : RequestOk sha s key q)
    (hfile : s.repo.storage.backend = .local → q.file = some key →
      (s.repo.storage.objects.get key).isSome → (q.redirect f).file = q.file) :
    RequestOk sha s' key (q.redirect f) := by
  subst hid
  have hphase : (q.redirect f).phase = q.phase := rfl
  unfold RequestOk at hok ⊢
  rw [hphase]
  cases hp : q.phase with
  | begun | deleted => simpa only [hp, settled_redirect] using hok
  | opened =>
    simp only [hp] at hok ⊢
    refine ⟨hok.1, fun hb hup hno => ?_⟩
    have hb : s.repo.storage.backend = .local := hu.backend ▸ hb
    obtain ⟨hq, hsome⟩ := hok.2 hb (hu.uploads ▸ hup) (hu.noDelete hno)
    refine ⟨(hfile hb hq hsome).trans hq, ?_⟩
    rw [(hu.isSome hsome).1]
    exact hsome
  | streaming =>
    simp only [hp] at hok ⊢
    obtain ⟨⟨hashed, hup, hbal⟩, hfile'⟩ := hok
    refine ⟨⟨hashed, hu.uploads.trans hup, ?_⟩, fun hb => ?_⟩
    · rw [hu.getD]
      exact hbal
    · have hb : s.repo.storage.backend = .local := hu.backend ▸ hb
      obtain ⟨hq, hsome⟩ := hfile' hb
      refine ⟨(hfile hb hq hsome).trans hq, ?_⟩
      rw [(hu.isSome hsome).1]
      exact hsome
  | streamed =>
    simp only [hp] at hok ⊢
    obtain ⟨hset, ⟨hashed, hup, hbal⟩, hsome⟩ := hok
    exact ⟨hset, ⟨hashed, hu.uploads.trans hup, hu.getD.trans hbal⟩, hu.kept hsome⟩
  | finalized actual =>
    simp only [hp] at hok ⊢
    obtain ⟨hset, hup, hdigest, hsome⟩ := hok
    refine ⟨hset, hu.uploads.trans hup, ?_, hu.kept hsome⟩
    rcases hu.file with ⟨hup', -⟩ | ⟨hlocal, hnone, -⟩
    · rw [hup']
      exact hdigest
    · have := hsome hlocal
      rw [hnone] at this
      cases this

theorem SessionOk.of_unseen (h : SessionOk sha s id key) (hu : Unseen sha s s' id key) :
    SessionOk sha s' id key where
  request r q' hq' hid' := by
    rcases hu.forward r q' hq' hid' with ⟨hpath, -, hok⟩ | ⟨q, f, hq, rfl, hfile⟩
    · exact ⟨hpath, hok⟩
    · obtain ⟨hpath, hok⟩ := h.request r q hq hid'
      exact ⟨hpath, hu.requestOk hid' hok hfile⟩
  alone r q' hq' hid' hin r' p' hne hp' hpid := by
    rcases hu.forward r q' hq' hid' with ⟨-, hout, -⟩ | ⟨q, f, hq, rfl, -⟩
    · rw [hout] at hin
      cases hin
    · rcases hu.forward r' p' hp' (hpid.trans hid') with ⟨-, hout, -⟩ | ⟨p, g, hp, rfl, -⟩
      · exact hout
      · exact h.alone r q hq hid' hin r' p hne hp hpid
  idle hidle hashed hup := by
    rw [hu.getD]
    refine h.idle (fun r q hq hid => ?_) hashed (hu.uploads ▸ hup)
    by_contra hin
    rw [Bool.not_eq_false] at hin
    obtain ⟨q', hq', hid', hphase⟩ := hu.backward r q hq hid hin
    rw [← hphase, hidle r q' hq' hid'] at hin
    cases hin
  noObject hb := by
    have hb : s.repo.storage.backend = .s3 := hu.backend ▸ hb
    rcases hu.file with ⟨-, hobj⟩ | ⟨hlocal, -, -⟩
    · exact hobj.trans (h.noObject hb)
    · rw [hb] at hlocal
      cases hlocal

/-- The requests that are not inside keep the file of their session open. -/
def KeepsOpen (s s' : UploadSystem) (id : String) (key : List String)
    (f : List String → Option (List String)) : Prop :=
  s'.repo.storage.backend = .local → (s'.repo.uploads.get id).isSome → NoDelete s' id →
    s.repo.storage.backend = .local ∧ (s.repo.uploads.get id).isSome ∧ NoDelete s id ∧
      f key = some key ∧ ((s.repo.storage.objects.get key).isSome →
        (s'.repo.storage.objects.get key).isSome)

theorem requestOk_of_others (h : SessionOk sha s id key) (hq : s.requests.get r = some q)
    (hid : q.uploadId = id) (halone : q.phase.inside = false) (hk : KeepsOpen s s' id key f) :
    RequestOk sha s' key (q.redirect f) := by
  subst hid
  obtain ⟨-, hok⟩ := h.request r q hq rfl
  have hphase : (q.redirect f).phase = q.phase := rfl
  unfold RequestOk at hok ⊢
  rw [hphase]
  cases hp : q.phase with
  | begun => simpa only [hp, settled_redirect] using hok
  | opened =>
    simp only [hp] at hok ⊢
    refine ⟨hok.1, fun hb hup hno => ?_⟩
    obtain ⟨hb, hup, hno, hf, hkeep⟩ := hk hb hup hno
    obtain ⟨hfile, hsome⟩ := hok.2 hb hup hno
    refine ⟨?_, hkeep hsome⟩
    rw [InFlight.redirect, hfile]
    exact hf
  | streaming | streamed | finalized actual | deleted => simp [hp, Phase.inside] at halone

theorem outside_of_others (halone : Alone s r q) (hothers : Others s s' r f) {r' : Nat}
    {p' : InFlight} (hne : r' ≠ r) (hp' : s'.requests.get r' = some p')
    (hpid : p'.uploadId = q.uploadId) :
    ∃ p, s.requests.get r' = some p ∧ p' = p.redirect f ∧ p.phase.inside = false := by
  rw [hothers r' hne] at hp'
  aesop

theorem SessionOk.of_owner (h : SessionOk sha s id key) (q' : InFlight) (hq : s.requests.get r = some q)
    (hid : q.uploadId = id) (halone : Alone s r q) (hothers : Others s s' r f)
    (hk : KeepsOpen s s' id key f) (hq' : s'.requests.get r = some q')
    (hpath : q'.path = q.path) (hid' : q'.uploadId = q.uploadId) (hin : q'.phase.inside = true)
    (hok : RequestOk sha s' key q')
    (hno : s'.repo.storage.backend = .s3 → s'.repo.storage.objects.get key = none) :
    SessionOk sha s' id key := by
  subst hid
  constructor
  case request =>
    intro r' p' hp' hpid
    by_cases hne : r' = r
    · subst hne
      obtain rfl := Option.some.inj (hp'.symm.trans hq')
      exact ⟨hpath ▸ (h.request r' q hq rfl).1, hok⟩
    · obtain ⟨p, hp, rfl, hp_in⟩ := outside_of_others halone hothers hne hp' hpid
      exact ⟨(h.request r' p hp hpid).1, requestOk_of_others h hp hpid hp_in hk⟩
  case alone =>
    intro r' p' hp' hpid hpin r'' p'' hne'' hp'' hpid''
    by_cases hne : r' = r
    · subst hne
      obtain ⟨p, -, rfl, hp_in⟩ :=
        outside_of_others halone hothers hne'' hp'' (hpid''.trans hpid)
      exact hp_in
    · obtain ⟨p, -, rfl, hp_in⟩ := outside_of_others halone hothers hne hp' hpid
      exact absurd hpin (by rw [show (p.redirect f).phase = p.phase from rfl, hp_in]; decide)
  case idle =>
    intro hidle
    rw [hidle r q' hq' hid'] at hin
    cases hin
  case noObject => exact hno

theorem SessionOk.of_leave (h : SessionOk sha s id key) (hid : q.uploadId = id)
    (halone : Alone s r q) (hothers : Others s s' r f) (hk : KeepsOpen s s' id key f)
    (hq' : s'.requests.get r = none)
    (hidle : ∀ hashed, s'.repo.uploads.get id = some hashed →
      (uploaded s'.repo.storage key).getD [] = hashed)
    (hno : s'.repo.storage.backend = .s3 → s'.repo.storage.objects.get key = none) :
    SessionOk sha s' id key := by
  subst hid
  have hne : ∀ r' p', s'.requests.get r' = some p' → r' ≠ r := by
    rintro r' p' hp' rfl
    rw [hq'] at hp'
    cases hp'
  constructor
  case request =>
    intro r' p' hp' hpid
    obtain ⟨p, hp, rfl, hp_in⟩ := outside_of_others halone hothers (hne r' p' hp') hp' hpid
    exact ⟨(h.request r' p hp hpid).1, requestOk_of_others h hp hpid hp_in hk⟩
  case alone =>
    intro r' p' hp' hpid hpin
    obtain ⟨p, -, rfl, hp_in⟩ := outside_of_others halone hothers (hne r' p' hp') hp' hpid
    exact absurd hpin (by rw [show (p.redirect f).phase = p.phase from rfl, hp_in]; decide)
  case idle => exact fun _ => hidle
  case noObject => exact hno

/-! ### One request steps -/

/-- What a step of the request `r`, which is `q`, leaves alone outside its session. -/
structure Effect (s s' : UploadSystem) (r : Nat) (q : InFlight)
    (f : List String → Option (List String)) : Prop where
  posted : s'.posted = s.posted
  backend : s'.repo.storage.backend = s.repo.storage.backend
  uploads : ∀ id, id ≠ q.uploadId → s'.repo.uploads.get id = s.repo.uploads.get id
  files : ∀ key, key ≠ q.path.components → (∀ h, ¬ IsBlobKey h key) →
    uploaded s'.repo.storage key = uploaded s.repo.storage key ∧
      s'.repo.storage.objects.get key = s.repo.storage.objects.get key
  others : Others s s' r f
  redirects : ∀ key, key ≠ q.path.components → (∀ h, ¬ IsBlobKey h key) →
    (s.repo.storage.objects.get key).isSome → f key = some key
  own : ∀ q', s'.requests.get r = some q' → q'.uploadId = q.uploadId

theorem Effect.unseen (he : Effect s s' r q f) (hq : s.requests.get r = some q)
    (hid : id ≠ q.uploadId) (hkey : key ≠ q.path.components) (hblob : ∀ h, ¬ IsBlobKey h key) :
    Unseen sha s s' id key where
  backend := he.backend
  uploads := he.uploads id hid
  file := Or.inl (he.files key hkey hblob)
  forward r' q' hq' hid' := by
    have hne : r' ≠ r := by
      rintro rfl
      exact hid ((he.own q' hq').symm.trans hid').symm
    rw [he.others r' hne] at hq'
    obtain ⟨p, hp, rfl⟩ := Option.map_eq_some_iff.mp hq'
    refine Or.inr ⟨p, f, hp, rfl, fun _ hfile hsome => ?_⟩
    rw [InFlight.redirect, hfile]
    exact he.redirects key hkey hblob hsome
  backward r' p hp hpid _ := by
    have hne : r' ≠ r := by grind
    refine ⟨p.redirect f, ?_, hpid, rfl⟩
    rw [he.others r' hne, hp]
    rfl

theorem Inv.of_effect (h : Inv sha s) (hq : s.requests.get r = some q) (he : Effect s s' r q f)
    (hsession : SessionOk sha s q.uploadId q.path.components →
      SessionOk sha s' q.uploadId q.path.components)
    (hblobs : BlobsRight sha s'.repo.storage.objects) : Inv sha s' := by
  obtain ⟨name, hname⟩ := h.posted_of_request r q hq
  have hkey : q.path.components = uploadKey name q.uploadId :=
    ((h.session _ _ hname).request r q hq rfl).1
  constructor
  case posted_of_request =>
    intro r' p' hp'
    rw [he.posted]
    by_cases hne : r' = r
    · subst hne
      rw [he.own p' hp']
      exact ⟨name, hname⟩
    · rw [he.others r' hne] at hp'
      obtain ⟨p, hp, rfl⟩ := Option.map_eq_some_iff.mp hp'
      exact h.posted_of_request r' p hp
  case posted_of_upload =>
    intro id hashed hup
    rw [he.posted]
    by_cases hid : id = q.uploadId
    · exact ⟨name, hid ▸ hname⟩
    · rw [he.uploads id hid] at hup
      exact h.posted_of_upload id hashed hup
  case uuid =>
    rw [he.posted]
    exact h.uuid
  case session =>
    intro id name' hname'
    rw [he.posted] at hname'
    by_cases hid : id = q.uploadId
    · subst hid
      obtain rfl := Option.some.inj (hname.symm.trans hname')
      rw [← hkey]
      exact hsession (hkey ▸ h.session _ _ hname)
    · obtain ⟨hne, hslash⟩ := h.uuid _ _ hname'
      obtain ⟨hne', hslash'⟩ := h.uuid _ _ hname
      refine (h.session id name' hname').of_unseen (he.unseen hq hid ?_ ?_)
      · rw [hkey]
        exact fun heq => hid (uploadKey_inj hne hslash hne' hslash' heq)
      · exact fun _ => not_isBlobKey_uploadKey hne hslash
  case blobs => exact hblobs

theorem Inv.not_blob (h : Inv sha s) (hq : s.requests.get r = some q) (hex : String) :
    ¬ IsBlobKey hex q.path.components := by
  obtain ⟨name, hname⟩ := h.posted_of_request r q hq
  rw [((h.session _ _ hname).request r q hq rfl).1]
  exact not_isBlobKey_uploadKey (h.uuid _ _ hname).1 (h.uuid _ _ hname).2

theorem Inv.sessionOk (h : Inv sha s) (hq : s.requests.get r = some q) :
    SessionOk sha s q.uploadId q.path.components := by
  obtain ⟨name, hname⟩ := h.posted_of_request r q hq
  rw [((h.session _ _ hname).request r q hq rfl).1]
  exact h.session _ _ hname

theorem blobsRight_of_eq {objects objects' : Objects} (h : BlobsRight sha objects)
    (hkey : ∀ h, ¬ IsBlobKey h key)
    (heq : ∀ k, k ≠ key → objects'.get k = objects.get k) : BlobsRight sha objects' := by
  intro hex k content hk hget
  have hne : k ≠ key := by
    rintro rfl
    exact hkey hex hk
  exact h hex k content hk (heq k hne ▸ hget)

theorem effect_of_put (r : Nat) (q q' : InFlight) (storage : DynStorage)
    (uploads : Store String Bytes)
    (hback : storage.backend = s.repo.storage.backend)
    (hup : ∀ id, id ≠ q.uploadId → uploads.get id = s.repo.uploads.get id)
    (hfiles : ∀ key, key ≠ q.path.components → uploaded storage key = uploaded s.repo.storage key ∧
      storage.objects.get key = s.repo.storage.objects.get key)
    (hid : q'.uploadId = q.uploadId) :
    Effect s (UploadSystem.set ⟨⟨storage, uploads⟩, s.posted, s.requests⟩ r q') r q some where
  posted := rfl
  backend := hback
  uploads := hup
  files key hkey _ := hfiles key hkey
  others := others_of_eq fun r' hne => by rw [requests_set, if_neg hne]
  redirects _ _ _ _ := rfl
  own p hp := by
    rw [requests_set, if_pos rfl] at hp
    rw [← Option.some.inj hp]
    exact hid

theorem effect_of_finish (r : Nat) (q : InFlight) (storage : DynStorage)
    (uploads : Store String Bytes)
    (hback : storage.backend = s.repo.storage.backend)
    (hup : ∀ id, id ≠ q.uploadId → uploads.get id = s.repo.uploads.get id)
    (hfiles : ∀ key, key ≠ q.path.components → uploaded storage key = uploaded s.repo.storage key ∧
      storage.objects.get key = s.repo.storage.objects.get key) :
    Effect s (UploadSystem.finish ⟨⟨storage, uploads⟩, s.posted, s.requests⟩ r) r q some where
  posted := rfl
  backend := hback
  uploads := hup
  files key hkey _ := hfiles key hkey
  others := others_of_eq fun r' hne => by rw [requests_finish, if_neg hne]
  redirects _ _ _ _ := rfl
  own p hp := by
    rw [requests_finish, if_pos rfl] at hp
    cases hp

theorem unseen_of_bystander (r : Nat)
    (hout : ∀ q, s.requests.get r = some q → q.phase.inside = false)
    (hback : s'.repo.storage.backend = s.repo.storage.backend)
    (hup : s'.repo.uploads.get id = s.repo.uploads.get id)
    (hfile : uploaded s'.repo.storage key = uploaded s.repo.storage key ∧
        s'.repo.storage.objects.get key = s.repo.storage.objects.get key ∨
      s.repo.storage.backend = .local ∧ s.repo.storage.objects.get key = none ∧
        s'.repo.storage.objects.get key = some [])
    (hothers : ∀ r', r' ≠ r → s'.requests.get r' = s.requests.get r')
    (hr : ∀ q', s'.requests.get r = some q' → q'.uploadId = id →
      q'.path.components = key ∧ q'.phase.inside = false ∧ RequestOk sha s' key q') :
    Unseen sha s s' id key where
  backend := hback
  uploads := hup
  file := hfile
  forward r' q' hq' hid' := by
    by_cases hne : r' = r
    · subst hne
      exact Or.inl (hr q' hq' hid')
    · rw [hothers r' hne] at hq'
      exact Or.inr ⟨q', some, hq', (redirect_some q').symm, fun _ _ _ => rfl⟩
  backward r' p hp hpid hin := by
    grind

theorem inv_finish_of_outside (h : Inv sha s) (hq : s.requests.get r = some q)
    (hout : q.phase.inside = false) : Inv sha (s.finish r) := by
  refine h.of_effect hq (effect_of_finish r q _ _ rfl (fun _ _ => rfl) fun _ _ => ⟨rfl, rfl⟩) ?_ h.blobs
  intro hsession
  refine hsession.of_unseen (unseen_of_bystander r ?_ rfl rfl (Or.inl ⟨rfl, rfl⟩) ?_ ?_)
  · intro p hp
    rwa [← Option.some.inj (hq.symm.trans hp)]
  · exact fun r' hne => by rw [requests_finish, if_neg hne]
  · intro p hp
    rw [requests_finish, if_pos rfl] at hp
    cases hp

theorem inv_openFile (h : Inv sha s) (hq : s.requests.get r = some q)
    (hstep : s.openFile r q = some s') : Inv sha s' := by
  unfold openFile at hstep
  split_ifs at hstep with hguard
  simp only [ne_eq, not_or, not_not] at hguard
  obtain ⟨hphase, -, hback⟩ := hguard
  have hout : q.phase.inside = false := by rw [hphase]; rfl
  have hset : Settled q := settled_of_not_inside ((h.sessionOk hq).request r q hq rfl).2 hout
  split at hstep
  · obtain rfl := Option.some.inj hstep
    exact inv_finish_of_outside h hq hout
  · rename_i storage happ
    obtain rfl := Option.some.inj hstep
    obtain rfl := eq_of_appendFile_local hback happ
    rw [List.append_nil] at *
    have hfiles : ∀ key, key ≠ q.path.components →
        (s.repo.storage.objects.put q.path.components
          ((s.repo.storage.objects.get q.path.components).getD [])).get key =
          s.repo.storage.objects.get key := fun key hkey => Store.get_put_of_ne _ _ hkey
    refine h.of_effect hq (effect_of_put r q _ _ _ rfl (fun _ _ => rfl) (fun key hkey => ?_) rfl) ?_ ?_
    · refine ⟨?_, hfiles key hkey⟩
      simp only [uploaded, hback]
      exact hfiles key hkey
    · intro hsession
      refine hsession.of_unseen (unseen_of_bystander r ?_ rfl rfl ?_ ?_ ?_)
      · intro p hp
        rwa [← Option.some.inj (hq.symm.trans hp)]
      · cases hobj : s.repo.storage.objects.get q.path.components with
        | none => exact Or.inr ⟨hback, rfl, Store.get_put_self _ _ _⟩
        | some content =>
          grind [uploaded, UploadSystem.set, setStorage, Store.get_put_self]
      · exact fun r' hne => by rw [requests_set, if_neg hne]; rfl
      · intro p hp _
        rw [requests_set, if_pos rfl] at hp
        obtain rfl := Option.some.inj hp
        refine ⟨rfl, rfl, hset, fun _ _ _ => ⟨rfl, ?_⟩⟩
        show ((s.repo.storage.objects.put _ _).get _).isSome
        rw [Store.get_put_self]
        rfl
    · exact blobsRight_of_eq h.blobs (h.not_blob hq) hfiles

/-! ### Steps inside a session -/

theorem noDelete_of_others (hothers : Others s s' r f) (hq : s.requests.get r = some q)
    (hphase : q.phase ≠ .deleted) (h : NoDelete s' id) : NoDelete s id := by
  intro r' p hp hpid hdel
  by_cases hne : r' = r
  · subst hne
    obtain rfl := Option.some.inj (hp.symm.trans hq)
    exact hphase hdel
  · exact h r' (p.redirect f) (by rw [hothers r' hne, hp]; rfl) hpid hdel

theorem keepsOpen_of_effect (he : Effect s s' r q some) (hq : s.requests.get r = some q)
    (hphase : q.phase ≠ .deleted)
    (hup : (s'.repo.uploads.get id).isSome → (s.repo.uploads.get id).isSome)
    (hobj : (s.repo.storage.objects.get key).isSome →
      (s'.repo.storage.objects.get key).isSome) : KeepsOpen s s' id key some :=
  fun hb hs hno => ⟨he.backend ▸ hb, hup hs, noDelete_of_others he.others hq hphase hno, rfl, hobj⟩

theorem SessionOk.idle_of_mayEnter (h : SessionOk sha s q.uploadId key)
    (hq : s.requests.get r = some q) (hout : q.phase.inside = false) (hP : MayEnter s r q) :
    ∃ hashed, s.repo.uploads.get q.uploadId = some hashed ∧
      (uploaded s.repo.storage key).getD [] = hashed := by
  obtain ⟨hashed, hup⟩ := Option.isSome_iff_exists.mp hP.2
  refine ⟨hashed, hup, h.idle (fun r' p hp hpid => ?_) hashed hup⟩
  by_cases hne : r' = r
  · subst hne
    rwa [← Option.some.inj (hq.symm.trans hp)]
  · exact hP.1 r' p hne hp hpid

theorem noDelete_of_alone (hq : s.requests.get r = some q) (halone : Alone s r q)
    (hphase : q.phase ≠ .deleted) : NoDelete s q.uploadId := by
  intro r' p hp hpid hdel
  by_cases hne : r' = r
  · subst hne
    obtain rfl := Option.some.inj (hq.symm.trans hp)
    exact hphase hdel
  · have := halone r' p hne hp hpid
    rw [hdel] at this
    cases this

theorem inv_lock (h : Inv sha s) (hq : s.requests.get r = some q)
    (hstep : s.lock r q = some s') (hP : MayEnter s r q) : Inv sha s' := by
  unfold lock at hstep
  split_ifs at hstep with hguard
  simp only [ne_eq, not_or, not_not] at hguard
  obtain rfl := Option.some.inj hstep
  have hphase : q.phase = .opened := hguard.1
  have he := effect_of_put (s := s) r q { q with phase := .streaming } s.repo.storage
    s.repo.uploads rfl (fun _ _ => rfl) (fun _ _ => ⟨rfl, rfl⟩) rfl
  refine h.of_effect hq he (fun hsession => ?_) h.blobs
  obtain ⟨hset, hatt⟩ : Settled q ∧ Attached s q.path.components q := by
    have hok := (hsession.request r q hq rfl).2
    simpa only [RequestOk, hphase] using hok
  obtain ⟨hashed, hup, hidle⟩ := hsession.idle_of_mayEnter hq (by rw [hphase]; rfl) hP
  refine hsession.of_owner { q with phase := .streaming } hq rfl hP.1 he.others
    (keepsOpen_of_effect he hq (by rw [hphase]; decide) id id)
    (by rw [requests_set, if_pos rfl]) rfl rfl rfl ⟨⟨hashed, hup, ?_⟩, fun hb => ?_⟩
    hsession.noObject
  · show _ ++ q.pending = hashed ++ q.toHash
    rw [hset.1, hset.2, List.append_nil, List.append_nil]
    exact hidle
  · exact hatt hb hP.2 (noDelete_of_alone hq hP.1 (by rw [hphase]; decide))

theorem streaming_of_requestOk (hok : RequestOk sha s key q) (hphase : q.phase = .streaming) :
    (∃ hashed, s.repo.uploads.get q.uploadId = some hashed ∧
      (uploaded s.repo.storage key).getD [] ++ q.pending = hashed ++ q.toHash) ∧
    (s.repo.storage.backend = .local →
      q.file = some key ∧ (s.repo.storage.objects.get key).isSome) := by
  simpa only [RequestOk, hphase] using hok

theorem inv_of_streaming (h : Inv sha s) (hq : s.requests.get r = some q)
    (hphase : q.phase = .streaming) (objects : Objects) (uploads : Store String Bytes)
    (pending toHash : Bytes)
    (hup : ∀ id, id ≠ q.uploadId → uploads.get id = s.repo.uploads.get id)
    (hfiles : ∀ key, key ≠ q.path.components → objects.get key = s.repo.storage.objects.get key)
    (hlocal : s.repo.storage.backend ≠ .local → objects = s.repo.storage.objects)
    (hobj : (s.repo.storage.objects.get q.path.components).isSome →
      (objects.get q.path.components).isSome)
    (hbal : ∀ hashed, s.repo.uploads.get q.uploadId = some hashed →
      (uploaded s.repo.storage q.path.components).getD [] ++ q.pending = hashed ++ q.toHash →
      (s.repo.storage.backend = .local → q.file = some q.path.components ∧
        (s.repo.storage.objects.get q.path.components).isSome) →
      ∃ hashed', uploads.get q.uploadId = some hashed' ∧
        (uploaded { s.repo.storage with objects } q.path.components).getD [] ++ pending =
          hashed' ++ toHash) :
    Inv sha (UploadSystem.set ⟨⟨{ s.repo.storage with objects }, uploads⟩, s.posted, s.requests⟩ r
      { q with pending, toHash }) := by
  have hsame : ∀ key, key ≠ q.path.components → uploaded { s.repo.storage with objects } key =
      uploaded s.repo.storage key ∧ objects.get key = s.repo.storage.objects.get key := by grind [uploaded]
  have he := effect_of_put r q { q with pending, toHash } { s.repo.storage with objects } uploads
    rfl hup hsame rfl
  refine h.of_effect hq he (fun hsession => ?_)
    (blobsRight_of_eq h.blobs (h.not_blob hq) hfiles)
  have hin : q.phase.inside = true := by rw [hphase]; rfl
  obtain ⟨⟨hashed, hget, hsum⟩, hfile⟩ :=
    streaming_of_requestOk (hsession.request r q hq rfl).2 hphase
  obtain ⟨hashed', hget', hsum'⟩ := hbal hashed hget hsum hfile
  refine hsession.of_owner { q with pending, toHash } hq rfl
    (hsession.alone r q hq rfl hin) he.others
    (keepsOpen_of_effect he hq (by rw [hphase]; decide) (fun _ => by rw [hget]; rfl) hobj)
    (by rw [requests_set, if_pos rfl]) rfl rfl hin ?_ ?_
  · grind [RequestOk, UploadSystem.set, InFlight.path]
  · intro hb
    have hb : s.repo.storage.backend = .s3 := hb
    show objects.get _ = none
    rw [hlocal (by rw [hb]; decide)]
    exact hsession.noObject hb

theorem inv_write (h : Inv sha s) (hq : s.requests.get r = some q) {chunk : Bytes}
    (hstep : s.write r q chunk = some s') : Inv sha s' := by
  unfold write at hstep
  split_ifs at hstep with hguard
  simp only [ne_eq, not_or, not_not] at hguard
  obtain ⟨hphase, -, hhash⟩ := hguard
  obtain rfl := Option.some.inj hstep
  refine inv_of_streaming h hq hphase s.repo.storage.objects s.repo.uploads
    (q.pending ++ chunk) chunk (fun _ _ => rfl) (fun _ _ => rfl) (fun _ => rfl) id ?_
  aesop

theorem inv_flush (h : Inv sha s) (hq : s.requests.get r = some q) {n : Nat}
    (hstep : s.flush r q n = some s') : Inv sha s' := by
  unfold flush at hstep
  split_ifs at hstep with hguard
  simp only [ne_eq, not_or, not_not] at hguard
  obtain ⟨hphase, hback⟩ := hguard
  obtain ⟨-, hfile⟩ :=
    streaming_of_requestOk ((h.sessionOk hq).request r q hq rfl).2 hphase
  obtain ⟨hopen, hsome⟩ := hfile hback
  obtain ⟨content, hcontent⟩ := Option.isSome_iff_exists.mp hsome
  simp only [hopen, hcontent] at hstep
  rw [← hopen] at hstep
  obtain rfl := Option.some.inj hstep
  refine inv_of_streaming h hq hphase _ s.repo.uploads (q.pending.drop n) q.toHash
    (fun _ _ => rfl) (fun key hkey => Store.get_put_of_ne _ _ hkey)
    (fun hne => absurd hback hne) (fun _ => by rw [Store.get_put_self]; rfl) ?_
  grind [uploaded, Store.get_put_self, List.append_assoc, List.take_append_drop]

theorem inv_update (h : Inv sha s) (hq : s.requests.get r = some q) {n : Nat}
    (hstep : s.update r q n = some s') : Inv sha s' := by
  unfold update at hstep
  split_ifs at hstep with hphase
  rw [ne_eq, not_not] at hphase
  obtain ⟨⟨hashed, hget, -⟩, -⟩ :=
    streaming_of_requestOk ((h.sessionOk hq).request r q hq rfl).2 hphase
  simp only [hget] at hstep
  obtain rfl := Option.some.inj hstep
  refine inv_of_streaming h hq hphase s.repo.storage.objects _ q.pending (q.toHash.drop n)
    (fun id hid => Store.get_put_of_ne _ _ hid) (fun _ _ => rfl) (fun _ => rfl) id ?_
  simp_all

theorem inv_append (h : Inv sha s) (hq : s.requests.get r = some q) {body : Bytes}
    (hstep : s.append r q body = some s') (hP : MayEnter s r q) : Inv sha s' := by
  unfold append at hstep
  split_ifs at hstep with hguard hempty
  all_goals simp only [ne_eq, not_or, not_not] at hguard
  all_goals obtain ⟨hphase, -, hback⟩ := hguard
  all_goals have hout : q.phase.inside = false := by rw [hphase]; rfl
  all_goals have hsession := h.sessionOk hq
  all_goals have hset := settled_of_not_inside (hsession.request r q hq rfl).2 hout
  all_goals obtain ⟨hashed, hget, hidle⟩ := hsession.idle_of_mayEnter hq hout hP
  · obtain rfl := Option.some.inj hstep
    have he := effect_of_put (s := s) r q { q with phase := .streaming } s.repo.storage
      s.repo.uploads rfl (fun _ _ => rfl) (fun _ _ => ⟨rfl, rfl⟩) rfl
    refine h.of_effect hq he (fun hsession => ?_) h.blobs
    refine hsession.of_owner { q with phase := .streaming } hq rfl hP.1 he.others
      (keepsOpen_of_effect he hq (by rw [hphase]; decide) id id)
      (by rw [requests_set, if_pos rfl]) rfl rfl rfl ⟨⟨hashed, hget, ?_⟩, fun hb => ?_⟩
      hsession.noObject
    · show _ ++ q.pending = hashed ++ q.toHash
      rw [hset.1, hset.2, List.append_nil, List.append_nil]
      exact hidle
    · exact absurd (hback.symm.trans hb) (by decide)
  · split at hstep
    · obtain rfl := Option.some.inj hstep
      exact inv_finish_of_outside h hq hout
    · rename_i storage happ
      obtain rfl := Option.some.inj hstep
      have hnone := hsession.noObject hback
      have hstorage := eq_of_appendFile_s3 hback happ
      have hstaged : (s.repo.storage.staging.get q.path.components).getD [] = hashed := by
        simpa only [uploaded, hback] using hidle
      have hsame : ∀ key, key ≠ q.path.components →
          uploaded storage key = uploaded s.repo.storage key := by
        intro key hkey
        rw [hstorage]
        simp only [uploaded, hback]
        exact Store.get_put_of_ne _ _ hkey
      have he := effect_of_put (s := s) r q { q with phase := .streaming, toHash := body } storage
        s.repo.uploads (by rw [hstorage]) (fun _ _ => rfl)
        (fun key hkey => ⟨hsame key hkey, by rw [hstorage]⟩) rfl
      subst hstorage
      refine h.of_effect hq he (fun hsession => ?_) h.blobs
      refine hsession.of_owner { q with phase := .streaming, toHash := body } hq rfl hP.1
        he.others (keepsOpen_of_effect he hq (by rw [hphase]; decide) id id)
        (by rw [requests_set, if_pos rfl]) rfl rfl rfl ⟨⟨hashed, hget, ?_⟩, fun hb => ?_⟩
        hsession.noObject
      · show (uploaded _ _).getD [] ++ q.pending = hashed ++ body
        simp only [uploaded, UploadSystem.set, setStorage, hback, Store.get_put_self,
          Option.getD_some, hnone, Option.getD_none, hstaged, hset.1, List.append_nil]
      · exact absurd (hback.symm.trans hb) (by decide)

theorem settled_iff : q.settled = true ↔ Settled q := by
  simp [InFlight.settled, Settled]

theorem inv_finish_of_inside (h : Inv sha s) (hq : s.requests.get r = some q)
    (hin : q.phase.inside = true) (hphase : q.phase ≠ .deleted)
    (hbal : ∀ hashed, s.repo.uploads.get q.uploadId = some hashed →
      (uploaded s.repo.storage q.path.components).getD [] = hashed) : Inv sha (s.finish r) := by
  have he := effect_of_finish (s := s) r q s.repo.storage s.repo.uploads rfl (fun _ _ => rfl)
    (fun _ _ => ⟨rfl, rfl⟩)
  refine h.of_effect hq he (fun hsession => ?_) h.blobs
  exact hsession.of_leave rfl (hsession.alone r q hq rfl hin) he.others
    (keepsOpen_of_effect he hq hphase id id) (by rw [requests_finish, if_pos rfl]) hbal
    hsession.noObject

theorem balanced_of_settled (hok : RequestOk sha s key q) (hset : Settled q)
    (hin : q.phase.inside = true) (hphase : q.phase ≠ .deleted) {hashed : Bytes}
    (hget : s.repo.uploads.get q.uploadId = some hashed) :
    (uploaded s.repo.storage key).getD [] = hashed := by
  unfold RequestOk at hok
  cases hp : q.phase with
  | begun | opened => simp [hp, Phase.inside] at hin
  | streaming =>
    simp only [hp] at hok
    obtain ⟨⟨hashed', hget', hsum⟩, -⟩ := hok
    obtain rfl := Option.some.inj (hget.symm.trans hget')
    rwa [hset.1, hset.2, List.append_nil, List.append_nil] at hsum
  | streamed =>
    grind
  | finalized actual =>
    simp only [hp] at hok
    rw [hok.2.1] at hget
    cases hget
  | deleted => exact absurd hp hphase

theorem inv_abort (h : Inv sha s) (hq : s.requests.get r = some q)
    (hP : q.settled = true ∧ q.phase ≠ .deleted) : Inv sha (s.finish r) := by
  cases hin : q.phase.inside with
  | false => exact inv_finish_of_outside h hq hin
  | true =>
    refine inv_finish_of_inside h hq hin hP.2 fun hashed hget => ?_
    exact balanced_of_settled ((h.sessionOk hq).request r q hq rfl).2 (settled_iff.mp hP.1) hin
      hP.2 hget

theorem inv_close (h : Inv sha s) (hq : s.requests.get r = some q)
    (hstep : s.close r q = some s') : Inv sha s' := by
  unfold close at hstep
  split_ifs at hstep with hguard hkind
  all_goals simp only [ne_eq, not_or, not_not, Bool.not_eq_false] at hguard
  all_goals obtain ⟨hphase, hsettled⟩ := hguard
  all_goals have hne : q.phase ≠ .deleted := by rw [hphase]; decide
  all_goals have hin : q.phase.inside = true := by rw [hphase]; rfl
  all_goals obtain rfl := Option.some.inj hstep
  · exact inv_abort h hq ⟨hsettled, hne⟩
  · have he := effect_of_put (s := s) r q { q with phase := .streamed, file := none }
      s.repo.storage s.repo.uploads rfl (fun _ _ => rfl) (fun _ _ => ⟨rfl, rfl⟩) rfl
    refine h.of_effect hq he (fun hsession => ?_) h.blobs
    have hok := (hsession.request r q hq rfl).2
    obtain ⟨⟨hashed, hget, -⟩, hfile⟩ := streaming_of_requestOk hok hphase
    exact hsession.of_owner { q with phase := .streamed, file := none } hq rfl
      (hsession.alone r q hq rfl hin) he.others (keepsOpen_of_effect he hq hne id id)
      (by rw [requests_set, if_pos rfl]) rfl rfl rfl
      ⟨settled_iff.mp hsettled,
        ⟨hashed, hget, balanced_of_settled hok (settled_iff.mp hsettled) hin hne hget⟩,
        fun hb => (hfile hb).2⟩
      hsession.noObject

theorem inv_finalize (h : Inv sha s) (hq : s.requests.get r = some q)
    (hstep : s.finalize sha r q = some s') : Inv sha s' := by
  unfold finalize at hstep
  split_ifs at hstep with hphase
  rw [ne_eq, not_not] at hphase
  have hne : q.phase ≠ .deleted := by rw [hphase]; decide
  have hin : q.phase.inside = true := by rw [hphase]; rfl
  obtain ⟨hset, ⟨hashed, hget, hbal⟩, hsome⟩ : Settled q ∧
      (∃ hashed, s.repo.uploads.get q.uploadId = some hashed ∧
        (uploaded s.repo.storage q.path.components).getD [] = hashed) ∧
      (s.repo.storage.backend = .local →
        (s.repo.storage.objects.get q.path.components).isSome) := by
    have hok := ((h.sessionOk hq).request r q hq rfl).2
    simpa only [RequestOk, hphase] using hok
  simp only [hget] at hstep
  obtain rfl := Option.some.inj hstep
  have he := effect_of_put (s := s) r q { q with phase := .finalized (sha.digest hashed) }
    s.repo.storage (s.repo.uploads.remove q.uploadId) rfl
    (fun id hid => by rw [Store.get_remove, if_neg hid]) (fun _ _ => ⟨rfl, rfl⟩) rfl
  refine h.of_effect hq he (fun hsession => ?_) h.blobs
  refine hsession.of_owner { q with phase := .finalized (sha.digest hashed) } hq rfl
    (hsession.alone r q hq rfl hin) he.others
    (keepsOpen_of_effect he hq hne (fun hs => ?_) id) (by rw [requests_set, if_pos rfl]) rfl rfl
    rfl ⟨hset, Store.get_remove_self _ _, fun content hcontent => ?_, hsome⟩ hsession.noObject
  · rw [hget]
    rfl
  · have hcontent : uploaded s.repo.storage q.path.components = some content := hcontent
    rw [← hbal, hcontent]
    rfl

theorem inv_abandon (h : Inv sha s) (hq : s.requests.get r = some q)
    (hstep : s.abandon r q = some s') : Inv sha s' := by
  unfold abandon at hstep
  split_ifs at hstep with hphase
  rw [ne_eq, not_not] at hphase
  have hin : q.phase.inside = true := by rw [hphase]; rfl
  obtain rfl := Option.some.inj hstep
  have hnone : (s.repo.uploads.remove q.uploadId).get q.uploadId = none :=
    Store.get_remove_self _ _
  have he := effect_of_finish (s := s) r q s.repo.storage (s.repo.uploads.remove q.uploadId) rfl
    (fun id hid => by rw [Store.get_remove, if_neg hid]) (fun _ _ => ⟨rfl, rfl⟩)
  refine h.of_effect hq he (fun hsession => ?_) h.blobs
  refine hsession.of_leave rfl (hsession.alone r q hq rfl hin) he.others ?_
    (by rw [requests_finish, if_pos rfl]) (fun hashed hget => ?_) hsession.noObject
  · intro _ hs _
    exact absurd hs (by show ¬ ((s.repo.uploads.remove _).get _).isSome = true; rw [hnone]; decide)
  · exact absurd (hnone.symm.trans hget) (by simp)

/-! ### Deleting and placing the file -/

theorem get_of_deletes (hdir : NotDirectory s q) (hkey : key ≠ q.path.components)
    (hdel : deletes s.repo.storage.backend q.path key = true) :
    s.repo.storage.backend = .local ∧ s.repo.storage.objects.get key = none := by
  cases hb : s.repo.storage.backend with
  | s3 =>
    simp only [hb, deletes, Bool.and_eq_true, beq_iff_eq] at hdel
    exact absurd hdel.2 hkey
  | «local» =>
    refine ⟨rfl, ?_⟩
    simp only [hb, deletes] at hdel
    by_contra hget
    obtain ⟨content, hget⟩ := Option.ne_none_iff_exists'.mp hget
    have hbelow : below q.path.components key = true := by
      simp only [below, hdel, Bool.true_and, bne_iff_ne, ne_eq]
      exact fun heq => hkey heq.symm
    have hany : isDir s.repo.storage.objects q.path.components = true :=
      List.any_eq_true.mpr ⟨key, Store.mem_keys_iff.mpr ⟨content, hget⟩, hbelow⟩
    rw [hdir hb] at hany
    cases hany

theorem files_erase (hdir : NotDirectory s q) (hkey : key ≠ q.path.components) :
    uploaded (s.repo.storage.erase q.path) key = uploaded s.repo.storage key ∧
      (s.repo.storage.erase q.path).objects.get key = s.repo.storage.objects.get key := by
  by_cases hdel : deletes s.repo.storage.backend q.path key = true
  · obtain ⟨hb, hnone⟩ := get_of_deletes hdir hkey hdel
    simp_all [get_erase, uploaded, backend_erase]
  simp_all [get_erase, uploaded, backend_erase, getStaging_erase]

theorem blobsRight_erase (h : BlobsRight sha s.repo.storage.objects) :
    BlobsRight sha (s.repo.storage.erase q.path).objects := by
  intro hex key content hk hget
  rw [get_erase] at hget
  split_ifs at hget
  exact h hex key content hk hget

theorem unlinked_erase (hdir : NotDirectory s q) (hkey : key ≠ q.path.components)
    (hsome : (s.repo.storage.objects.get key).isSome) :
    unlinked (s.repo.storage.erase q.path) key = some key := by
  rw [unlinked, (files_erase hdir hkey).2, if_pos hsome]

theorem inv_delete (h : Inv sha s) (hq : s.requests.get r = some q)
    (hstep : s.delete r q = some s') (hP : MayEnter s r q ∧ NotDirectory s q) : Inv sha s' := by
  unfold delete at hstep
  split_ifs at hstep with hguard
  simp only [ne_eq, not_or, not_not] at hguard
  have hphase : q.phase = .begun := hguard.1
  have hout : q.phase.inside = false := by rw [hphase]; rfl
  split at hstep
  · obtain rfl := Option.some.inj hstep
    exact inv_finish_of_outside h hq hout
  · rename_i storage found hdel
    obtain rfl := Option.some.inj hstep
    obtain rfl := eq_of_deleteFile hdel
    have he : Effect s (UploadSystem.redirect
        ((s.setStorage (s.repo.storage.erase q.path)).set r { q with phase := .deleted })
        (unlinked (s.repo.storage.erase q.path))) r q
        (unlinked (s.repo.storage.erase q.path)) :=
      { posted := rfl
        backend := rfl
        uploads := fun _ _ => rfl
        files := fun key hkey _ => files_erase hP.2 hkey
        others := fun r' hne => by
          rw [requests_redirect, requests_set, if_neg hne]
          rfl
        redirects := fun key hkey _ hsome => unlinked_erase hP.2 hkey hsome
        own := fun q' hq' => by
          rw [requests_redirect, requests_set, if_pos rfl] at hq'
          rw [← Option.some.inj hq']
          rfl }
    refine h.of_effect hq he (fun hsession => ?_) (blobsRight_erase h.blobs)
    have hset := settled_of_not_inside (hsession.request r q hq rfl).2 hout
    have hnow : (UploadSystem.redirect
        ((s.setStorage (s.repo.storage.erase q.path)).set r { q with phase := .deleted })
        (unlinked (s.repo.storage.erase q.path))).requests.get r =
        some (InFlight.redirect (unlinked (s.repo.storage.erase q.path))
          { q with phase := .deleted }) := by
      rw [requests_redirect, requests_set, if_pos rfl]
      rfl
    refine hsession.of_owner _ hq rfl hP.1.1 he.others ?_ hnow rfl rfl rfl hset fun hb => ?_
    · intro _ _ hno
      exact absurd rfl (hno r _ hnow rfl)
    · show (s.repo.storage.erase q.path).objects.get _ = none
      rw [get_erase, hsession.noObject hb]
      split_ifs <;> rfl

theorem SessionOk.of_placed (h : SessionOk sha s q.uploadId key) (hq : s.requests.get r = some q)
    (hin : q.phase.inside = true) (he : Effect s s' r q f) (hnow : s'.requests.get r = none)
    (hnone : s'.repo.uploads.get q.uploadId = none)
    (hno : s'.repo.storage.backend = .s3 → s'.repo.storage.objects.get key = none) :
    SessionOk sha s' q.uploadId key := by
  refine h.of_leave rfl (h.alone r q hq rfl hin) he.others ?_ hnow (fun hashed hget => ?_) hno
  · intro _ hs _
    rw [hnone] at hs
    cases hs
  · rw [hnone] at hget
    cases hget

/-- What `move_file` does to an upload: other keys are as they were, and the bytes of the upload
are at the destination unless an object is there already. -/
theorem get_of_moveFile {src dst : StoragePath} {storage : DynStorage}
    (hno : s.repo.storage.backend = .s3 → s.repo.storage.objects.get src.components = none)
    (h : s.repo.storage.moveFile src dst = .ok (storage, true)) :
    storage.backend = s.repo.storage.backend ∧
    ∃ content, uploaded s.repo.storage src.components = some content ∧
      (∀ key, key ≠ src.components → key ≠ dst.components →
        uploaded storage key = uploaded s.repo.storage key ∧
        storage.objects.get key = s.repo.storage.objects.get key) ∧
      (∀ c, storage.objects.get dst.components = some c →
        c = content ∨ s.repo.storage.objects.get dst.components = some c) ∧
      (dst.components ≠ src.components → storage.objects.get src.components = none) := by
  cases hb : s.repo.storage.backend with
  | «local» =>
    obtain ⟨content, hget, rfl⟩ := eq_of_moveFile_local hb h
    refine ⟨hb, content, ?_, fun key hsrc hdst => ?_, fun c hc => ?_, fun hne => ?_⟩
    · simpa only [uploaded, hb] using hget
    · simp_all [Store.get_put_of_ne, Store.get_remove, uploaded]
    · rw [Store.get_put_self] at hc
      exact Or.inl (Option.some.inj hc).symm
    · rw [Store.get_put_of_ne _ _ hne.symm, Store.get_remove_self]
  | s3 =>
    obtain ⟨content, objects, hget, rfl, hobjects⟩ := eq_of_moveFile_s3 hb (hno hb) h
    refine ⟨hb, content, ?_, fun key hsrc hdst => ?_, fun c hc => ?_, fun hne => ?_⟩
    · simpa only [uploaded, hb] using hget
    · simp only [uploaded, hb]
      refine ⟨by rw [Store.get_remove, if_neg hsrc], ?_⟩
      rcases hobjects with rfl | rfl
      · rw [Store.get_remove, if_neg hsrc]
      · rw [Store.get_put_of_ne _ _ hdst, Store.get_remove, if_neg hsrc]
    · rcases hobjects with rfl | rfl
      · grind [get, Store.get_remove]
      simp_all
    · rcases hobjects with rfl | rfl
      · exact Store.get_remove_self _ _
      grind [get, Store.get_put_of_ne, Store.get_remove_self]

/-- A finished upload keeps the invariant if it leaves other files alone and places no wrong
blob. -/
theorem inv_of_placed (h : Inv sha s) (hq : s.requests.get r = some q)
    (hin : q.phase.inside = true) (hposted : s'.posted = s.posted)
    (hback : s'.repo.storage.backend = s.repo.storage.backend)
    (hup : s'.repo.uploads = s.repo.uploads ∨
      s'.repo.uploads = s.repo.uploads.remove q.uploadId)
    (hnone : s.repo.uploads.get q.uploadId = none)
    (hfiles : ∀ key, key ≠ q.path.components → (∀ h, ¬ IsBlobKey h key) →
      uploaded s'.repo.storage key = uploaded s.repo.storage key ∧
        s'.repo.storage.objects.get key = s.repo.storage.objects.get key)
    (hreq : ∀ r', s'.requests.get r' =
      if r' = r then none else (s.requests.get r').map (InFlight.redirect f))
    (hf : ∀ key, key ≠ q.path.components → (∀ h, ¬ IsBlobKey h key) →
      (s.repo.storage.objects.get key).isSome → f key = some key)
    (hno : s.repo.storage.backend = .s3 →
      s'.repo.storage.objects.get q.path.components = none)
    (hblobs : BlobsRight sha s'.repo.storage.objects) : Inv sha s' := by
  have huploads : ∀ id, s'.repo.uploads.get id = s.repo.uploads.get id := by grind [id,
                                                                            Store.get_remove]
  have hnow : s'.requests.get r = none := by rw [hreq, if_pos rfl]
  have he : Effect s s' r q f :=
    { posted := hposted
      backend := hback
      uploads := fun id _ => huploads id
      files := hfiles
      others := fun r' hne => by rw [hreq, if_neg hne]
      redirects := hf
      own := fun q' hq' => by
        rw [hnow] at hq'
        cases hq' }
  refine h.of_effect hq he (fun hsession => ?_) hblobs
  exact hsession.of_placed hq hin he hnow ((huploads _).trans hnone)
    fun hb => hno (hback ▸ hb)

theorem finalized_of_requestOk {actual : String} (hok : RequestOk sha s key q)
    (hphase : q.phase = .finalized actual) :
    s.repo.uploads.get q.uploadId = none ∧
      ∀ content, uploaded s.repo.storage key = some content → sha.digest content = actual := by
  grind [Settled, uploaded, RequestOk]

theorem requests_finish_redirect {s₁ : UploadSystem} (hreq : s₁.requests = (s.finish r).requests)
    (r' : Nat) : (s₁.redirect f).requests.get r' =
      if r' = r then none else (s.requests.get r').map (InFlight.redirect f) := by
  rw [requests_redirect, hreq, requests_finish]
  split_ifs <;> rfl

theorem requests_finish_some (r' : Nat) : (s.finish r).requests.get r' =
    if r' = r then none else (s.requests.get r').map (InFlight.redirect some) := by
  rw [requests_finish, funext redirect_some, Option.map_id_fun', id_eq]

theorem inv_place_of_ne (h : Inv sha s) (hq : s.requests.get r = some q)
    {actual digest : String} (hphase : q.phase = .finalized actual) (hne : actual ≠ digest)
    (hP : NotDirectory s q) :
    Inv sha (UploadSystem.redirect
      { s.finish r with repo := (placeBlob s.repo true q.name q.uploadId digest actual).1 }
      (unlinked (placeBlob s.repo true q.name q.uploadId digest actual).1.storage)) := by
  have hin : q.phase.inside = true := by rw [hphase]; rfl
  have hsession := h.sessionOk hq
  obtain ⟨hnone, -⟩ := finalized_of_requestOk (hsession.request r q hq rfl).2 hphase
  cases hdel : s.repo.storage.deleteFile (uploadPath q.name q.uploadId) with
  | error e =>
    have hrepo : (placeBlob s.repo true q.name q.uploadId digest actual).1 =
        ⟨s.repo.storage, s.repo.uploads.remove q.uploadId⟩ := by
      simp only [placeBlob, if_pos hne, hdel]
    rw [hrepo]
    exact inv_of_placed h hq hin rfl rfl (Or.inr rfl) hnone (fun _ _ _ => ⟨rfl, rfl⟩)
      (requests_finish_redirect rfl) (fun key _ _ hsome => by rw [unlinked, if_pos hsome])
      hsession.noObject h.blobs
  | ok result =>
    obtain ⟨storage, found⟩ := result
    obtain rfl := eq_of_deleteFile hdel
    have hrepo : (placeBlob s.repo true q.name q.uploadId digest actual).1 =
        ⟨s.repo.storage.erase q.path, s.repo.uploads.remove q.uploadId⟩ := by
      simp only [placeBlob, if_pos hne, hdel]
      rfl
    rw [hrepo]
    refine inv_of_placed h hq hin rfl rfl (Or.inr rfl) hnone
      (fun key hkey _ => files_erase hP hkey) (requests_finish_redirect rfl)
      (fun key hkey _ hsome => unlinked_erase hP hkey hsome) (fun hb => ?_)
      (blobsRight_erase h.blobs)
    show (s.repo.storage.erase q.path).objects.get _ = none
    rw [get_erase, hsession.noObject hb]
    split_ifs <;> rfl

/-- The digest matches: the upload is moved to the blob, or is left where it is. -/
theorem inv_place_of_moved (h : Inv sha s) (hq : s.requests.get r = some q) {actual : String}
    (hphase : q.phase = .finalized actual) {storage : DynStorage}
    (hmove : s.repo.storage.moveFile q.path (blobPath q.name actual) = .ok (storage, true)) :
    Inv sha (UploadSystem.redirect { s.finish r with repo := ⟨storage, s.repo.uploads⟩ }
      (renamed q.path.components (blobPath q.name actual).components)) := by
  have hin : q.phase.inside = true := by rw [hphase]; rfl
  have hsession := h.sessionOk hq
  obtain ⟨hnone, hdigest⟩ := finalized_of_requestOk (hsession.request r q hq rfl).2 hphase
  obtain ⟨hback, content, hcontent, hsame, hdst, hgone⟩ := get_of_moveFile hsession.noObject hmove
  obtain rfl := hdigest content hcontent
  have hblob : IsBlobKey (sha.hex content)
      (blobPath q.name (sha.digest content)).components := isBlobKey_blobPath_iff.mpr rfl
  have hne : (blobPath q.name (sha.digest content)).components ≠ q.path.components :=
    fun heq => h.not_blob hq _ (heq ▸ hblob)
  refine inv_of_placed h hq hin rfl hback (Or.inl rfl) hnone (fun key hkey hk => ?_)
    (requests_finish_redirect rfl) (fun key hkey hk _ => ?_) (fun _ => hgone hne)
    (fun hex key c hk hget => ?_)
  · exact hsame key hkey fun heq => hk _ (heq ▸ hblob)
  · rw [renamed, if_neg hkey, if_neg fun heq => hk _ (heq ▸ hblob)]
  · by_cases hkey : key = (blobPath q.name (sha.digest content)).components
    · subst hkey
      rcases hdst c hget with rfl | hold
      · exact isBlobKey_blobPath_iff.mp hk
      · exact h.blobs hex _ c hk hold
    · have hsrc : key ≠ q.path.components := fun heq => h.not_blob hq hex (heq ▸ hk)
      exact h.blobs hex key c hk ((hsame key hsrc hkey).2 ▸ hget)

theorem inv_place (h : Inv sha s) (hq : s.requests.get r = some q)
    (hstep : s.place r q = some s') (hP : NotDirectory s q) : Inv sha s' := by
  unfold place at hstep
  split at hstep
  case h_2 => cases hstep
  rename_i actual digest hphase hkind
  by_cases hne : actual ≠ digest
  · rw [if_pos hne] at hstep
    obtain rfl := Option.some.inj hstep
    exact inv_place_of_ne h hq hphase hne hP
  rw [if_neg hne] at hstep
  rw [ne_eq, not_not] at hne
  subst hne
  have hin : q.phase.inside = true := by rw [hphase]; rfl
  have hsession := h.sessionOk hq
  obtain ⟨hnone, -⟩ := finalized_of_requestOk (hsession.request r q hq rfl).2 hphase
  cases hmove : s.repo.storage.moveFile q.path (blobPath q.name actual) with
  | error e =>
    have hmove' : s.repo.storage.moveFile (uploadPath q.name q.uploadId)
      (blobPath q.name actual) = .error e := hmove
    have hrepo : (placeBlob s.repo true q.name q.uploadId actual actual).1 = s.repo := by
      simp [placeBlob, hmove']
    rw [hrepo, hmove] at hstep
    obtain rfl := Option.some.inj hstep
    exact inv_of_placed h hq hin rfl rfl (Or.inl rfl) hnone (fun _ _ _ => ⟨rfl, rfl⟩)
      requests_finish_some (fun _ _ _ _ => rfl) hsession.noObject h.blobs
  | ok result =>
    obtain ⟨storage, moved⟩ := result
    have hmove' : s.repo.storage.moveFile (uploadPath q.name q.uploadId)
      (blobPath q.name actual) = .ok (storage, moved) := hmove
    cases moved with
    | false =>
      obtain rfl := eq_of_moveFile_false hmove
      have hrepo : (placeBlob s.repo true q.name q.uploadId actual actual).1 =
          ⟨s.repo.storage, s.repo.uploads.remove q.uploadId⟩ := by
        simp [placeBlob, hmove']
      rw [hrepo, hmove] at hstep
      obtain rfl := Option.some.inj hstep
      exact inv_of_placed h hq hin rfl rfl (Or.inr rfl) hnone (fun _ _ _ => ⟨rfl, rfl⟩)
        requests_finish_some (fun _ _ _ _ => rfl) hsession.noObject h.blobs
    | true =>
      have hrepo : (placeBlob s.repo true q.name q.uploadId actual actual).1 =
          ⟨storage, s.repo.uploads⟩ := by
        simp [placeBlob, hmove']
      rw [hrepo, hmove] at hstep
      obtain rfl := Option.some.inj hstep
      exact inv_place_of_moved h hq hphase hmove

/-! ### New sessions and requests -/

theorem get_uploadKey_of_fresh (name : String) (hne : id ≠ "") (hslash : '/' ∉ id.toList)
    (hfresh : s.idInUse id = false) :
    s.repo.storage.objects.get (uploadKey name id) = none ∧
      s.repo.storage.staging.get (uploadKey name id) = none := by
  have hlast : (uploadKey name id).getLast? = some id := by
    rw [uploadKey_eq hne hslash]
    exact getLast?_key _ _ _
  have hnot : uploadKey name id ∉ s.repo.storage.objects.keys ++ s.repo.storage.staging.keys := by
    intro hmem
    have hany := List.any_eq_false.mp hfresh _ hmem
    rw [hlast] at hany
    exact hany (beq_self_eq_true _)
  rw [List.mem_append, not_or] at hnot
  constructor
  · exact Option.eq_none_iff_forall_ne_some.mpr fun c hc => hnot.1 (Store.mem_keys_iff.mpr ⟨c, hc⟩)
  · exact Option.eq_none_iff_forall_ne_some.mpr fun c hc => hnot.2 (Store.mem_keys_iff.mpr ⟨c, hc⟩)

theorem inv_post (h : Inv sha s) {name : String} (hstep : s.post id name = some s') :
    Inv sha s' := by
  unfold post at hstep
  split_ifs at hstep with hguard
  simp only [not_or] at hguard
  obtain ⟨hne, hslash, hposted, hfresh⟩ := hguard
  rw [Bool.not_eq_true] at hfresh
  rw [Option.isSome_iff_ne_none, not_not] at hposted
  have hnew : s.repo.uploads.get id = none := by
    refine Option.eq_none_iff_forall_ne_some.mpr fun hashed hget => ?_
    obtain ⟨name', hname'⟩ := h.posted_of_upload id hashed hget
    rw [hposted] at hname'
    cases hname'
  have hrepo : (initiateBlobUpload s.repo name id true).1 =
      ⟨s.repo.storage, s.repo.uploads.put id []⟩ := by
    simp [initiateBlobUpload, hnew]
  rw [hrepo] at hstep
  obtain rfl := Option.some.inj hstep
  have hnoreq : ∀ r q, s.requests.get r = some q → q.uploadId ≠ id := by
    rintro r q hq rfl
    obtain ⟨name', hname'⟩ := h.posted_of_request r q hq
    rw [hposted] at hname'
    cases hname'
  constructor
  case posted_of_request =>
    intro r q hq
    obtain ⟨name', hname'⟩ := h.posted_of_request r q hq
    exact ⟨name', (Store.get_put_of_ne _ _ (hnoreq r q hq)).trans hname'⟩
  case posted_of_upload =>
    intro id' hashed hget
    by_cases hid : id' = id
    · exact ⟨name, by rw [hid]; exact Store.get_put_self _ _ _⟩
    · obtain ⟨name', hname'⟩ :=
        h.posted_of_upload id' hashed ((Store.get_put_of_ne _ _ hid).symm.trans hget)
      exact ⟨name', (Store.get_put_of_ne _ _ hid).trans hname'⟩
  case uuid =>
    intro id' name' hname'
    by_cases hid : id' = id
    · rw [hid]
      exact ⟨hne, hslash⟩
    · exact h.uuid id' name' ((Store.get_put_of_ne _ _ hid).symm.trans hname')
  case session =>
    intro id' name' hname'
    by_cases hid : id' = id
    · subst hid
      obtain ⟨hobj, hstaged⟩ := get_uploadKey_of_fresh name' hne hslash hfresh
      have hempty : uploaded s.repo.storage (uploadKey name' id') = none := by
        unfold uploaded
        split
        · exact hobj
        · exact hstaged
      refine ⟨fun r q hq hid => absurd hid (hnoreq r q hq),
        fun r q hq hid => absurd hid (hnoreq r q hq), fun _ hashed hget => ?_, fun _ => hobj⟩
      grind [get, Store.get_put_self, Option.some.inj, uploaded]
    · refine (h.session id' name' ((Store.get_put_of_ne _ _ hid).symm.trans hname')).of_unseen
        ⟨rfl, Store.get_put_of_ne _ _ hid, Or.inl ⟨rfl, rfl⟩, fun r q hq _ => ?_,
          fun r q hq hid _ => ⟨q, hq, hid, rfl⟩⟩
      exact Or.inr ⟨q, some, hq, (redirect_some q).symm, fun _ _ _ => rfl⟩
  case blobs => exact h.blobs

theorem inv_begin (h : Inv sha s) {kind : UploadKind} {name : String}
    (hstep : s.begin r kind name id = some s')
    (hP : ∀ name', s.posted.get id = some name' → uploadKey name id = uploadKey name' id) :
    Inv sha s' := by
  unfold UploadSystem.begin at hstep
  split_ifs at hstep with hguard
  simp only [not_or, Bool.not_eq_true, Option.isSome_eq_false_iff,
    Option.isNone_iff_eq_none] at hguard
  obtain ⟨hnone, hsome⟩ := hguard
  obtain rfl := Option.some.inj hstep
  obtain ⟨hashed, hget⟩ := Option.ne_none_iff_exists'.mp hsome
  obtain ⟨name₀, hname₀⟩ := h.posted_of_upload id hashed hget
  constructor
  case posted_of_request =>
    intro r' q hq
    rw [requests_set] at hq
    split_ifs at hq
    · rw [← Option.some.inj hq]
      exact ⟨name₀, hname₀⟩
    · exact h.posted_of_request r' q hq
  case posted_of_upload => exact h.posted_of_upload
  case uuid => exact h.uuid
  case session =>
    intro id' name' hname'
    refine (h.session id' name' hname').of_unseen
      (unseen_of_bystander r (fun q hq => ?_) rfl rfl (Or.inl ⟨rfl, rfl⟩)
        (fun r' hne => by rw [requests_set, if_neg hne]) fun q hq hid => ?_)
    · rw [hnone] at hq
      cases hq
    · rw [requests_set, if_pos rfl] at hq
      obtain rfl := Option.some.inj hq
      obtain rfl : id = id' := hid
      exact ⟨hP name' hname', rfl, rfl, rfl⟩
  case blobs => exact h.blobs

/-! ### Runs -/

/-- **Step lemma**: an allowed step keeps the invariant. -/
theorem inv_step {a : UploadAction} (h : Inv sha s) (hP : Allowed s a)
    (hstep : step sha s a = some s') : Inv sha s' := by
  cases a with
  | post uploadId name => exact inv_post h hstep
  | begin r kind name uploadId => exact inv_begin h hstep hP
  | abort r =>
    obtain ⟨q, hq, hstep⟩ := Option.bind_eq_some_iff.mp hstep
    obtain rfl := Option.some.inj hstep
    exact inv_abort h hq (hP q hq)
  | «open» r =>
    obtain ⟨q, hq, hstep⟩ := Option.bind_eq_some_iff.mp hstep
    exact inv_openFile h hq hstep
  | lock r =>
    obtain ⟨q, hq, hstep⟩ := Option.bind_eq_some_iff.mp hstep
    exact inv_lock h hq hstep (hP q hq)
  | write r chunk =>
    obtain ⟨q, hq, hstep⟩ := Option.bind_eq_some_iff.mp hstep
    exact inv_write h hq hstep
  | flush r n =>
    obtain ⟨q, hq, hstep⟩ := Option.bind_eq_some_iff.mp hstep
    exact inv_flush h hq hstep
  | update r n =>
    obtain ⟨q, hq, hstep⟩ := Option.bind_eq_some_iff.mp hstep
    exact inv_update h hq hstep
  | append r body =>
    obtain ⟨q, hq, hstep⟩ := Option.bind_eq_some_iff.mp hstep
    exact inv_append h hq hstep (hP q hq)
  | close r =>
    obtain ⟨q, hq, hstep⟩ := Option.bind_eq_some_iff.mp hstep
    exact inv_close h hq hstep
  | finalize r =>
    obtain ⟨q, hq, hstep⟩ := Option.bind_eq_some_iff.mp hstep
    exact inv_finalize h hq hstep
  | place r =>
    obtain ⟨q, hq, hstep⟩ := Option.bind_eq_some_iff.mp hstep
    exact inv_place h hq hstep (hP q hq)
  | delete r =>
    obtain ⟨q, hq, hstep⟩ := Option.bind_eq_some_iff.mp hstep
    exact inv_delete h hq hstep (hP q hq)
  | abandon r =>
    obtain ⟨q, hq, hstep⟩ := Option.bind_eq_some_iff.mp hstep
    exact inv_abandon h hq hstep

def Initial (sha : Sha256) (s : UploadSystem) : Prop :=
  (∀ r, s.requests.get r = none) ∧ (∀ id, s.repo.uploads.get id = none) ∧
    (∀ id, s.posted.get id = none) ∧ BlobsRight sha s.repo.storage.objects

theorem Initial.inv (h : Initial sha s) : Inv sha s := by
  obtain ⟨hreq, hup, hposted, hblobs⟩ := h
  refine ⟨fun r q hq => ?_, fun id hashed hget => ?_, fun id name hname => ?_,
    fun id name hname => ?_, hblobs⟩
  · rw [hreq] at hq
    cases hq
  · rw [hup] at hget
    cases hget
  · rw [hposted] at hname
    cases hname
  · rw [hposted] at hname
    cases hname

/-- **Main theorem**: whatever the interleaving, a run of allowed steps leaves every blob with the
bytes its digest names. -/
theorem blobsRight_of_run {as : List UploadAction} (h : Initial sha s)
    (hP : StepsOk (step sha) Allowed s as) (hr : run (step sha) s as = some s') :
    BlobsRight sha s'.repo.storage.objects :=
  (run_invariant_of_stepsOk (fun _ _ _ => inv_step) h.inv hP hr).blobs

/-! ### Two images on one upload id -/

def empty : UploadSystem := ⟨⟨⟨.s3, ∅, ∅⟩, ∅⟩, ∅, ∅⟩

theorem initial_empty (sha : Sha256) : Initial sha empty := by
  refine ⟨fun _ => rfl, fun _ => rfl, fun _ => rfl, fun h key content _ hget => ?_⟩
  cases hget

/-- A session for the image `a`: one `PATCH` of one byte each to `a` and `name`, and a `PUT` to
`name` with the digest of both bytes. -/
def twoPatches (name : String) : List UploadAction :=
  [.post "u" "a",
    .begin 0 .patch "a" "u", .append 0 [1], .update 0 1, .close 0,
    .begin 1 .patch name "u", .append 1 [2], .update 1 1, .close 1,
    .begin 2 (.put (Sha256.hexText.digest [1, 2])) name "u", .append 2 [], .close 2, .finalize 2,
    .place 2]

/-- With one image the blob is placed and right. -/
theorem blobsRight_of_run_twoPatches :
    ∃ s', run (step .hexText) empty (twoPatches "a") = some s' ∧
      BlobsRight .hexText s'.repo.storage.objects := by
  have hsome : (run (step .hexText) empty (twoPatches "a")).isSome = true := by decide
  obtain ⟨s', hs'⟩ := Option.isSome_iff_exists.mp hsome
  exact ⟨s', hs', blobsRight_of_run (initial_empty _) (by decide) hs'⟩

/-- With two images the second byte alone becomes the blob of both. -/
theorem not_blobsRight_twoPatches :
    ¬ ∀ (sha : Sha256) (s s' : UploadSystem) (as : List UploadAction), Initial sha s →
      run (step sha) s as = some s' → BlobsRight sha s'.repo.storage.objects := by
  intro hall
  have hget : ((run (step .hexText) empty (twoPatches "b")).map fun s =>
      s.repo.storage.objects.get ["v2", "b", "blobs", "sha256:" ++ "0102"]) =
        some (some [2]) := by
    decide
  obtain ⟨s', hs', hobj⟩ := Option.map_eq_some_iff.mp hget
  have hhex := hall .hexText empty s' _ (initial_empty _) hs' "0102" _ [2]
    ⟨["v2", "b"], rfl⟩ hobj
  exact absurd hhex (by decide)

end UploadSystem

end Pkgly.Docker
