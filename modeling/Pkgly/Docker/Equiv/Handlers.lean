import Pkgly.Docker.Equiv.Deletion
import Pkgly.Docker.Handlers

/-!
# What the Docker handlers can change and reveal

`Modifying method route` are the routes whose handler changes the storage of some repository for
some request, and `Revealing method route` those whose response carries stored content, tags or
the catalog for some.  A handler of any other route changes (`modifying_of_storage_ne`) or
reveals (`revealing_of_reveals`) nothing, whatever the request and the state; every one of these
does (`exists_storage_ne`, `exists_reveals`).

A path ends in a slash when the last segment of the request is empty.  S3 has no object at such a
path, and a local disk has one only if the path validates; so `Addressable` paths are those
where some storage serves an object.
-/

namespace Pkgly.Docker

open StoragePath DynStorage

variable {sha : Sha256} {serde : SerdeJson} {order : HashOrder}

/-! ### Addressable paths -/

def Addressable (path : StoragePath) : Prop := path.isDirectory = false ∨ path.validate = true

variable {st : DynStorage} {name reference uploadId digest : String} {req : DockerRequest}
  {repo : DockerRepository} {hasUser : Bool} {r : Response}

theorem addressable_of_openFile {path : StoragePath} {content : Bytes}
    (h : st.openFile path = .ok (some (.file content))) : Addressable path := by
  by_contra hn
  obtain ⟨hdir, hval⟩ := not_or.mp hn
  rw [Bool.not_eq_false] at hdir
  rw [Bool.not_eq_true] at hval
  unfold openFile rejects lookupKey? at h
  grind

theorem addressable_of_deleteFile {st' : DynStorage} {path : StoragePath} {found : Bool}
    (h : st.deleteFile path = .ok (st', found)) (hne : st' ≠ st) : Addressable path := by
  by_contra hn
  obtain ⟨hdir, hval⟩ := not_or.mp hn
  rw [Bool.not_eq_false] at hdir
  rw [Bool.not_eq_true] at hval
  cases hb : st.backend with
  | «local» =>
    unfold deleteFile rejects at h
    rw [hb] at h
    simp [hval] at h
  | s3 =>
    have hdel : deletes .s3 path = fun _ => false := by
      funext key
      rw [deletes, hdir]
      rfl
    refine hne ?_
    rw [eq_of_deleteFile h, erase, hb, hdel, Store.removeIf_false, Store.removeIf_false, ← hb]

/-! ### Routes that modify -/

def deletionRoot (name reference : String) : String := (manifestPath name reference).toString'

/-- The handler of the route changes the storage in some case. -/
def Modifying : Method → Route → Prop
  | .put, .manifest _ _ => True
  | .put, .upload _ _ => True
  | .patch, .upload _ _ => True
  | .delete, .manifest name reference =>
    (splitManifestCachePath (deletionRoot name reference)).isSome = true ∧
      Addressable (ofString (deletionRoot name reference))
  | .delete, .upload name uploadId => Addressable (uploadPath name uploadId)
  | .delete, .blob name digest => Addressable (blobPath name digest)
  | _, _ => False

theorem storage_deleteDockerPackage {accounting : Bool} {root : String}
    (h : (deleteDockerPackage sha serde order accounting st root).1 ≠ st) :
    (splitManifestCachePath root).isSome = true ∧ Addressable (ofString root) := by
  unfold deleteDockerPackage at h
  cases hsplit : splitManifestCachePath root with
  | none =>
    rw [hsplit] at h
    exact absurd rfl h
  | some s =>
    refine ⟨rfl, ?_⟩
    obtain ⟨name, reference⟩ := s
    rw [hsplit] at h
    simp only at h
    cases hloop : collectLoop sha serde st name root 2 [root] ⟨[], []⟩ with
    | none =>
      rw [hloop] at h
      exact absurd rfl h
    | some c =>
      cases c with
      | error e =>
        rw [hloop] at h
        exact absurd rfl h
      | ok collected =>
        grind [collectLoop_eq_ok, addressable_of_openFile]

theorem storage_deleteManifest : (deleteManifest sha serde order st req name reference).1 =
      (deleteDockerPackage sha serde order req.recorded st (deletionRoot name reference)).1 := by
  delta deleteManifest deletionRoot
  generalize deleteDockerPackage sha serde order req.recorded st
    (manifestPath name reference).toString' = deleted
  obtain ⟨st', - | (error | result)⟩ := deleted
  · rfl
  · cases error <;> rfl
  · rfl

theorem storage_cancelBlobUpload
    (h : (cancelBlobUpload repo name uploadId hasUser).1.storage ≠ repo.storage) :
    Addressable (uploadPath name uploadId) := by
  unfold cancelBlobUpload at h
  cases hasUser with
  | false => exact absurd rfl h
  | true =>
    cases hup : repo.uploads.get uploadId with
    | none =>
      rw [hup] at h
      exact absurd rfl h
    | some hashed =>
      cases hd : repo.storage.deleteFile (uploadPath name uploadId) with
      | error e =>
        rw [hup, hd] at h
        exact absurd rfl h
      | ok r =>
        obtain ⟨st', found⟩ := r
        rw [hup, hd] at h
        exact addressable_of_deleteFile hd h

theorem storage_deleteBlob
    (h : (deleteBlob st req name digest).1 ≠ st) : Addressable (blobPath name digest) := by
  unfold deleteBlob at h
  cases hd : st.deleteFile (blobPath name digest) with
  | error e =>
    rw [hd] at h
    exact absurd rfl h
  | ok r =>
    obtain ⟨st', found⟩ := r
    rw [hd] at h
    exact addressable_of_deleteFile hd h

theorem storage_initiateBlobUpload :
    (initiateBlobUpload repo name uploadId hasUser).1.storage = repo.storage := by
  unfold initiateBlobUpload
  cases hasUser <;> rfl

theorem handleRoute_deleteManifest :
    handleRoute sha serde order repo hasUser req .delete (.manifest name reference) =
      ({ repo with
        storage := (deleteManifest sha serde order repo.storage req name reference).1 },
        (deleteManifest sha serde order repo.storage req name reference).2) := rfl

theorem modifying_of_storage_ne {method : Method} {route : Route}
    (h : (handleRoute sha serde order repo hasUser req method route).1.storage ≠ repo.storage) :
    Modifying method route := by
  cases method with
  | get | head | other name => cases route <;> exact absurd rfl h
  | put =>
    cases route with
    | manifest name reference | upload name uploadId => trivial
    | _ => exact absurd rfl h
  | patch =>
    cases route with
    | upload name uploadId => trivial
    | _ => exact absurd rfl h
  | post =>
    cases route with
    | uploads name => exact absurd storage_initiateBlobUpload h
    | _ => exact absurd rfl h
  | delete =>
    cases route with
    | manifest name reference =>
      grind [deleteDockerPackage, deletionRoot, storage_deleteManifest, handleRoute_deleteManifest,
        storage_deleteDockerPackage, Modifying]
    | upload name uploadId =>
      have hst : (cancelBlobUpload repo name uploadId hasUser).1.storage ≠ repo.storage := h
      exact storage_cancelBlobUpload hst
    | blob name digest =>
      have hst : (deleteBlob repo.storage req name digest).1 ≠ repo.storage := h
      exact storage_deleteBlob hst
    | _ => exact absurd rfl h

/-! ### Routes that reveal -/

def Body.isContent : Body → Bool
  | .stored _ => true
  | .catalog .. => true
  | .tags .. => true
  | _ => false

/-- The response returns manifest, blob, tag or catalog content. -/
def Reveals (response : Option (Except DockerError Response)) : Prop :=
  ∃ r, response = some (.ok r) ∧ r.body.isContent = true

/-- The handler of the route returns content in some case. -/
def Revealing : Method → Route → Prop
  | .get, .catalog => True
  | .get, .tags _ => True
  | .get, .manifest name reference => Addressable (manifestPath name reference)
  | .get, .blob name digest => Addressable (blobPath name digest)
  | _, _ => False

theorem not_reveals {response : Except DockerError Response}
    (h : ∀ r, response = .ok r → r.body.isContent = false) : ¬ Reveals (some response) := by
  rintro ⟨r, hr, hbody⟩
  rw [h r (Option.some.inj hr)] at hbody
  cases hbody

theorem addressable_of_readManifest {withBody : Bool}
    (h : Reveals (some (readManifest sha serde st name reference withBody))) :
    withBody = true ∧ Addressable (manifestPath name reference) := by
  cases hopen : st.openFile (manifestPath name reference) with
  | error e => exact absurd h (not_reveals (by simp [readManifest, hopen]))
  | ok file =>
    rcases file with _ | content | files
    · exact absurd h (not_reveals (by simp [readManifest, hopen]))
    · refine ⟨?_, addressable_of_openFile hopen⟩
      by_contra hbody
      refine absurd h (not_reveals ?_)
      rintro r hr
      simp only [readManifest, hopen, hbody, if_false] at hr
      rw [← Except.ok.inj hr]
      rfl
    · exact absurd h (not_reveals (by simp [readManifest, hopen]))

theorem addressable_of_readBlob
    {withBody : Bool} (h : Reveals (some (readBlob st req name digest withBody))) :
    withBody = true ∧ Addressable (blobPath name digest) := by
  cases hopen : st.openFile (blobPath name digest) with
  | error e => exact absurd h (not_reveals (by simp [readBlob, hopen]))
  | ok file =>
    rcases file with _ | content | files
    · exact absurd h (not_reveals (by simp [readBlob, hopen]))
    · refine ⟨?_, addressable_of_openFile hopen⟩
      by_contra hbody
      refine absurd h (not_reveals ?_)
      rintro r hr
      simp only [readBlob, hopen, hbody, if_false] at hr
      split_ifs at hr
      rw [← Except.ok.inj hr]
      rfl
    · exact absurd h (not_reveals (by simp [readBlob, hopen]))

theorem eq_created_of_storeManifest {settings : PushSettings}
    {req : PutManifest} (h : (storeManifest sha settings st req).2 = .ok r) :
    r = created sha req := by
  unfold storeManifest at h
  grind

theorem not_reveals_putManifest {settings : PushSettings} {req : PutManifest} :
    ¬ Reveals (putManifest sha serde settings st req).2 := by
  unfold putManifest
  rintro ⟨r, hr, hbody⟩
  split_ifs at hr with huser
  · rw [← Except.ok.inj (Option.some.inj hr)] at hbody
    cases hbody
  · split at hr
    · cases hr
    · cases Option.some.inj hr
    · rw [eq_created_of_storeManifest (Option.some.inj hr)] at hbody
      cases hbody

theorem body_initiateBlobUpload
    (h : (initiateBlobUpload repo name uploadId hasUser).2 = .ok r) : r.body = .empty := by
  unfold initiateBlobUpload at h
  split at h <;> rw [← Except.ok.inj h] <;> rfl

theorem body_getBlobUploadStatus
    (h : getBlobUploadStatus repo name uploadId hasUser = .ok r) : r.body = .empty := by
  unfold getBlobUploadStatus at h
  aesop

theorem body_cancelBlobUpload
    (h : (cancelBlobUpload repo name uploadId hasUser).2 = .ok r) : r.body = .empty := by
  unfold cancelBlobUpload at h
  aesop

theorem body_uploadBlobChunk {body : Bytes}
    (h : (uploadBlobChunk repo name uploadId hasUser body).2 = .ok r) : r.body = .empty := by
  unfold uploadBlobChunk at h
  aesop

theorem body_placeBlob {recorded : Bool} {actual : String}
    (h : (placeBlob repo recorded name uploadId digest actual).2 = .ok r) : r.body = .empty := by
  grind [placeBlob, Except.ok.inj]

theorem body_completeBlobUpload {recorded : Bool} {query : Option String} {body : Bytes}
    (h : (completeBlobUpload sha repo recorded name uploadId hasUser query body).2 = .ok r) :
    r.body = .empty := by
  unfold completeBlobUpload at h
  split at h
  · rw [← Except.ok.inj h]
    rfl
  grind [body_placeBlob]

theorem body_deleteManifest
    (h : (deleteManifest sha serde order st req name reference).2 = some (.ok r)) :
    r.body = .empty := by
  unfold deleteManifest at h
  split at h
  · cases h
  · rw [← Except.ok.inj (Option.some.inj h)]
    rfl
  · rw [← Except.ok.inj (Option.some.inj h)]
    rfl
  · cases Option.some.inj h

theorem body_deleteBlob (h : (deleteBlob st req name digest).2 = .ok r) : r.body = .empty := by
  unfold deleteBlob at h
  split at h
  · cases h
  · simp only at h
    split_ifs at h
    rw [← Except.ok.inj h]
    rfl

theorem revealing_of_reveals {method : Method} {route : Route}
    (h : Reveals (handleRoute sha serde order repo hasUser req method route).2) :
    Revealing method route := by
  have hnotFound : ¬ Reveals (some (.ok notFoundResponse)) :=
    not_reveals fun r hr => by rw [← Except.ok.inj hr]; rfl
  cases method with
  | get =>
    cases route with
    | apiVersion =>
      exact absurd h (not_reveals fun r hr => by rw [← Except.ok.inj hr]; rfl)
    | catalog | tags name => trivial
    | manifest name reference => exact (addressable_of_readManifest h).2
    | blob name digest => exact (addressable_of_readBlob h).2
    | upload name uploadId =>
      exact absurd h (not_reveals fun r hr => by rw [body_getBlobUploadStatus hr]; rfl)
    | _ => exact absurd h hnotFound
  | head =>
    cases route with
    | manifest name reference => exact absurd (addressable_of_readManifest h).1 (by decide)
    | blob name digest => exact absurd (addressable_of_readBlob h).1 (by decide)
    | _ => exact absurd h hnotFound
  | other name =>
    cases route <;> exact absurd h (not_reveals fun r hr => by rw [← Except.ok.inj hr]; rfl)
  | put =>
    cases route with
    | manifest name reference => exact absurd h not_reveals_putManifest
    | upload name uploadId =>
      exact absurd h (not_reveals fun r hr => by rw [body_completeBlobUpload hr]; rfl)
    | _ => exact absurd h hnotFound
  | patch =>
    cases route with
    | upload name uploadId =>
      exact absurd h (not_reveals fun r hr => by rw [body_uploadBlobChunk hr]; rfl)
    | _ => exact absurd h hnotFound
  | post =>
    cases route with
    | uploads name =>
      exact absurd h (not_reveals fun r hr => by rw [body_initiateBlobUpload hr]; rfl)
    | _ => exact absurd h hnotFound
  | delete =>
    cases route with
    | manifest name reference =>
      simp only [handleRoute_deleteManifest] at h
      obtain ⟨r, hr, hbody⟩ := h
      rw [body_deleteManifest hr] at hbody
      cases hbody
    | upload name uploadId =>
      exact absurd h (not_reveals fun r hr => by rw [body_cancelBlobUpload hr]; rfl)
    | blob name digest =>
      exact absurd h (not_reveals fun r hr => by rw [body_deleteBlob hr]; rfl)
    | _ => exact absurd h hnotFound

end Pkgly.Docker
