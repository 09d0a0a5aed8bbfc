import Pkgly.Docker.Equiv.Handlers

/-!
# Every modifying route modifies

The converses of `modifying_of_storage_ne` and `revealing_of_reveals`: for each route there are a
repository and a request that make its handler change the storage (`exists_storage_ne`) or return
content (`exists_reveals`).  `holding path content` is the storage for the routes that need an
object to be there.  `serde` is only assumed to read the smallest manifest as it stands.
-/

namespace Pkgly.Docker

open StoragePath DynStorage

variable {sha : Sha256} {serde : SerdeJson} {order : HashOrder}

/-! ### A storage with one object -/

/-- A storage whose only object is at `path`, of the backend that serves it there. -/
def holding (path : StoragePath) (content : Bytes) : DynStorage where
  backend := if path.isDirectory then .local else .s3
  objects := (∅ : Objects).put path.components content
  staging := ∅

theorem get_holding (path : StoragePath) (content : Bytes) :
    (holding path content).objects.get path.components = some content :=
  Store.get_put_self _ _ _

variable {path : StoragePath}

theorem rejects_holding (h : Addressable path) (content : Bytes) :
    (holding path content).rejects path = false := by
  unfold rejects holding
  by_cases hdir : path.isDirectory = true
  · have hval : path.validate = true := h.resolve_left (by rw [hdir]; decide)
    simp [hdir, hval]
  · simp [hdir]

theorem openFile_holding (h : Addressable path) (content : Bytes) :
    (holding path content).openFile path = .ok (some (.file content)) := by
  have hkey : (holding path content).lookupKey? path = some path.components := by
    unfold lookupKey? holding
    by_cases hdir : path.isDirectory = true <;> simp [hdir]
  have hstaging : (holding path content).staging.get path.components = none :=
    Store.get_empty _
  unfold openFile
  simp only [rejects_holding h, Bool.false_eq_true, if_false, hkey, Option.bind_some, hstaging,
    get_holding]

theorem deletes_holding (content : Bytes) :
    deletes (holding path content).backend path path.components = true := by
  grind [holding, deletes]

theorem deleteFile_holding (h : Addressable path) (content : Bytes) :
    ∃ st' found, (holding path content).deleteFile path = .ok (st', found) ∧
      st' ≠ holding path content := by
  obtain ⟨found, hd⟩ := exists_deleteFile (rejects_holding h content)
  refine ⟨_, found, hd, fun heq => ?_⟩
  have hget := get_holding path content
  rw [← heq, get_erase, if_pos (deletes_holding content)] at hget
  cases hget

/-! ### The smallest manifest -/

/-- `serde_json` reads `{"schemaVersion":2}` as it stands. -/
def ReadsMinimal (serde : SerdeJson) : Prop :=
  serde.parse minimalManifest = some (.obj [("schemaVersion", .int 2)])

theorem readImage_minimal (h : ReadsMinimal serde) :
    readImage serde minimalManifest = some ⟨2, none, none, [], none⟩ := by
  rw [readImage, h]
  rfl

theorem exists_manifestReferences (h : ReadsMinimal serde) (name : String) :
    ∃ references, manifestReferences serde name minimalManifest = some references := by
  have hne : minimalManifest ≠ [] := by decide
  have hparse : ∃ manifest, parseManifest serde minimalManifest = some manifest := by
    rw [parseManifest, if_neg hne]
    cases hv : serde.value minimalManifest with
    | none => exact ⟨none, rfl⟩
    | some value =>
      obtain rfl : value = .obj [("schemaVersion", .int 2)] := by
        rw [SerdeJson.value, h] at hv
        exact (Option.some.inj (Option.filter_eq_some_iff.mp hv).1).symm
      refine ⟨_, fromBytes_ociImageManifest minimalManifest⟩
  obtain ⟨manifest, hm⟩ := hparse
  rw [manifestReferences, hm]
  exact ⟨_, rfl⟩

theorem stores_minimal (h : ReadsMinimal serde) (name reference : String)
    (settings : PushSettings) (hoverwrite : settings.allowTagOverwrite = true) :
    Stores serde settings ⟨.s3, ∅, ∅⟩ ⟨name, reference, true, none, minimalManifest⟩ := by
  refine ⟨rfl, ?_, _, rfl⟩
  simp_all [exists_manifestReferences, admitManifest, Option.getD_none, fromBytes_ociImageManifest,
    readImage_minimal, Option.map_some, Bool.not_true, Bool.and_false, Bool.false_eq_true]

/-! ### Deleting a manifest -/

theorem validComponent_digest {text : String}
    (h : ∀ c ∈ text.toList, (c != '\\' && c != '\x00') = true) :
    validComponent ("sha256:" ++ text) = true := by
  have hdot : ("sha256:" ++ text) ≠ "." ∧ ("sha256:" ++ text) ≠ ".." := by
    refine ⟨fun heq => ?_, fun heq => ?_⟩
    · have hhead := congrArg (fun s : String => s.toList.head?) heq
      simp [String.toList_append] at hhead
    · have hhead := congrArg (fun s : String => s.toList.head?) heq
      simp [String.toList_append] at hhead
  simp_all [String.toList_append, validComponent]

theorem validate_digest {text : String} (hslash : '/' ∉ text.toList)
    (h : ∀ c ∈ text.toList, (c != '\\' && c != '\x00') = true) :
    (ofString ("sha256:" ++ text)).validate = true := by
  have hsegments : segments '/' ("sha256:" ++ text) = ["sha256:" ++ text] := by
    refine segments_eq_singleton ?_ ?_
    · rw [String.toList_append, List.mem_append, not_or]
      exact ⟨by decide, hslash⟩
    · rw [String.toList_append]
      exact List.append_ne_nil_of_left_ne_nil (by decide) _
  rw [validate, components_ofString, hsegments, List.all_cons, validComponent_digest h]
  rfl

theorem validate_objectPath {name kind digest : String} :
    (ofString (objectPath name kind digest)).validate =
      ((ofString name).validate && ((ofString kind).validate && (ofString digest).validate)) := by
  have hv2 : (ofString "v2").validate = true := by decide
  rw [objectPath, validate_slash, validate_slash, validate_slash, hv2, Bool.true_and]

theorem isLowerHex_ne {c : Char} (h : isLowerHex c = true) :
    c ≠ '/' ∧ (c != '\\' && c != '\x00') = true := by
  refine ⟨?_, ?_⟩
  · rintro rfl
    exact absurd h (by decide)
  · rw [Bool.and_eq_true, bne_iff_ne, bne_iff_ne]
    refine ⟨?_, ?_⟩ <;> rintro rfl <;> exact absurd h (by decide)

theorem eq_of_splitManifestCachePath {path name reference : String}
    (h : splitManifestCachePath path = some (name, reference)) :
    path = objectPath name "manifests" reference := by
  unfold splitManifestCachePath at h
  split_ifs at h with hv2
  obtain ⟨rest, hrest⟩ := startsWith_iff.mp hv2
  have hdrop : path.toList.drop 3 = rest := by
    rw [← hrest]
    rfl
  rw [hdrop] at h
  cases hsplit : splitOnce "/manifests/".toList rest with
  | none => rw [hsplit] at h; cases h
  | some r =>
    obtain ⟨a, b⟩ := r
    rw [hsplit] at h
    simp only at h
    split_ifs at h
    obtain ⟨rfl, rfl⟩ := Prod.mk.inj (Option.some.inj h)
    refine String.toList_inj.mp ?_
    rw [← hrest, eq_of_splitOnce hsplit]
    simp [objectPath, String.toList_append]

theorem validate_footprint {st : DynStorage} {root : String} (r : Root sha serde st root)
    (himage : r.image.config = none ∧ r.image.layers = [])
    (hdir : (ofString root).isDirectory = true) (hval : (ofString root).validate = true) :
    ∀ path ∈ r.paths, path.validate = true := by
  obtain ⟨reference, hsplit⟩ : ∃ reference,
      splitManifestCachePath root = some (r.name, reference) := by
    obtain ⟨⟨name, reference⟩, hs, hfst⟩ := Option.map_eq_some_iff.mp r.name_eq
    obtain rfl : name = r.name := hfst
    exact ⟨reference, hs⟩
  have hname : (ofString r.name).validate = true := by
    rw [eq_of_splitManifestCachePath hsplit, validate_objectPath, Bool.and_eq_true] at hval
    exact hval.1
  have hhex := sha.isLowerHex_of_mem r.bytes
  have hmanifests : (ofString "manifests").validate = true := by decide
  intro path hpath
  obtain ⟨p, hp, rfl⟩ := List.mem_map.mp hpath
  rcases List.mem_append.mp hp with hp | hp
  · rcases of_mem_manifestPaths hp with rfl | rfl | rfl | rfl
    · exact hval
    · obtain ⟨stem, rfl⟩ := exists_of_isDirectory hdir
      have hstem : (ofString stem).validate = true := by
        have hslash : stem ++ "/" = stem ++ ("/" ++ "") := by rw [String.append_empty]
        rw [hslash, validate_slash, Bool.and_eq_true] at hval
        exact hval.1
      rw [tagMeta, String.append_assoc, validate_slash, hstem]
      decide
    · rw [validate_objectPath, hname, hmanifests, Sha256.digest, validate_digest
        (fun h => (isLowerHex_ne (hhex _ h)).1 rfl) fun c h => (isLowerHex_ne (hhex c h)).2]
      rfl
    · have hmeta : tagMeta (objectPath r.name "manifests" (sha.digest r.bytes)) =
          objectPath r.name "manifests"
            ("sha256:" ++ (sha.hex r.bytes ++ ".nr-docker-tagmeta")) := by
        simp only [tagMeta, objectPath, Sha256.digest, String.append_assoc]
      rw [hmeta, validate_objectPath, hname, hmanifests, validate_digest]
      · rfl
      · rw [String.toList_append, List.mem_append, not_or]
        exact ⟨fun h => (isLowerHex_ne (hhex _ h)).1 rfl, by decide⟩
      · intro c hc
        rw [String.toList_append, List.mem_append] at hc
        rcases hc with hc | hc
        · exact (isLowerHex_ne (hhex c hc)).2
        · exact List.all_eq_true.mp (by decide :
            ".nr-docker-tagmeta".toList.all (fun c => c != '\\' && c != '\x00') = true) c hc
  · rw [blobDigests, himage.1, himage.2] at hp
    cases hp

theorem deleteDockerPackage_holding (hserde : ReadsMinimal serde) {root : String}
    (hsplit : (splitManifestCachePath root).isSome = true) (h : Addressable (ofString root)) :
    (deleteDockerPackage sha serde order true (holding (ofString root) minimalManifest) root).1 ≠
      holding (ofString root) minimalManifest := by
  obtain ⟨⟨name, reference⟩, hname⟩ := Option.isSome_iff_exists.mp hsplit
  have r : Root sha serde (holding (ofString root) minimalManifest) root :=
    ⟨name, minimalManifest, ⟨2, none, none, [], none⟩, by rw [hname]; rfl,
      openFile_holding h minimalManifest, readImage_minimal hserde⟩
  have himage : r.image.config = none ∧ r.image.layers = [] := by
    rw [r.eq ⟨name, minimalManifest, ⟨2, none, none, [], none⟩, by rw [hname]; rfl,
      openFile_holding h minimalManifest, readImage_minimal hserde⟩]
    exact ⟨rfl, rfl⟩
  have hvalid : ∀ path ∈ r.paths,
      (holding (ofString root) minimalManifest).rejects path = false := by
    intro path hpath
    unfold rejects holding
    by_cases hdir : (ofString root).isDirectory = true
    · have hval := h.resolve_left (by rw [hdir]; decide)
      simp [hdir, validate_footprint r himage hdir hval path hpath]
    · simp [hdir]
  obtain ⟨st', result, hdel⟩ := r.deleteDockerPackage_succeeds order hvalid
  obtain ⟨r', hr'⟩ := get_deleteDockerPackage_iff hdel
  rw [hdel]
  intro heq
  have hst : st' = holding (ofString root) minimalManifest := heq
  have hget : st'.objects.get (ofString root).components = some minimalManifest := by
    rw [hst]
    exact get_holding _ _
  refine ((hr' _ _).mp hget).2 ⟨ofString root, ?_, deletes_holding minimalManifest⟩
  exact List.mem_map_of_mem (List.mem_append_left _ (List.mem_append_left _ List.mem_cons_self))

/-! ### Appending to an upload -/

/-- A request with a body and a query, to a repository that lets tags be overwritten. -/
def requestWith (body : Bytes) (query : Option String) : DockerRequest where
  contentType := none
  query := query
  pagination := some ⟨none, none⟩
  body := body
  settings := ⟨true, false, true, true⟩
  newUploadId := ""
  recorded := true

/-- A repository on S3 with an upload whose staged file is `staged`. -/
def uploading (name uploadId : String) (staged : Bytes) : DockerRepository where
  storage := ⟨.s3, ∅, (∅ : Objects).put (uploadPath name uploadId).components staged⟩
  uploads := (∅ : Store String Bytes).put uploadId []

theorem appendUpload_uploading (name uploadId : String) (staged : Bytes) (b : UInt8) :
    ∃ repo, appendUpload (uploading name uploadId staged) name uploadId [] [b] = (repo, .ok ()) ∧
      repo.storage.backend = .s3 ∧
      repo.storage.staging.get (uploadPath name uploadId).components = some (staged ++ [b]) := by
  refine ⟨_, rfl, rfl, ?_⟩
  simp [uploading, uploadPath, Store.get_put_self, Option.getD_some]

theorem staging_uploading_ne {name uploadId : String} {staged : Bytes} {st : DynStorage}
    (h : st.staging.get (uploadPath name uploadId).components ≠ some staged) :
    st ≠ (uploading name uploadId staged).storage := by
  rintro rfl
  exact h (Store.get_put_self _ _ _)

theorem uploadBlobChunk_uploading (name uploadId : String) :
    (uploadBlobChunk (uploading name uploadId [0]) name uploadId true [1]).1.storage ≠
      (uploading name uploadId [0]).storage := by
  obtain ⟨repo, happend, -, hstaged⟩ := appendUpload_uploading name uploadId [0] 1
  have hup : (uploading name uploadId [0]).uploads.get uploadId = some [] :=
    Store.get_put_self _ _ _
  simp_all [staging_uploading_ne, uploadBlobChunk, Bool.not_true, Bool.false_eq_true]

/-- A completion that names the wrong digest deletes the staged file, or leaves it longer when
the path is a directory. -/
theorem completeBlobUpload_uploading (name uploadId : String) :
    (completeBlobUpload sha (uploading name uploadId [0]) true name uploadId true
      (some "digest=") [1]).1.storage ≠ (uploading name uploadId [0]).storage := by
  obtain ⟨repo, happend, hs3, hstaged⟩ := appendUpload_uploading name uploadId [0] 1
  have hup : (uploading name uploadId [0]).uploads.get uploadId = some [] :=
    Store.get_put_self _ _ _
  have hdigest : requestDigest (some "digest=") = some "" := by decide
  have hne : sha.digest ([] ++ [1]) ≠ "" := fun h => sha.digest_ne_nil _ (by rw [h]; rfl)
  have hreject : repo.storage.rejects (uploadPath name uploadId) = false := by
    rw [rejects, hs3]
  obtain ⟨found, hd⟩ := exists_deleteFile hreject
  refine staging_uploading_ne ?_
  simp_all [completeBlobUpload, placeBlob, Bool.not_true, Bool.false_eq_true, ne_eq,
    not_false_eq_true, erase, Store.get_removeIf]

/-! ### The converses -/

theorem exists_storage_ne (sha : Sha256) (order : HashOrder) (hserde : ReadsMinimal serde) {method : Method} {route : Route}
    (h : Modifying method route) : ∃ repo req,
      (handleRoute sha serde order repo true req method route).1.storage ≠ repo.storage := by
  match method, route, h with
  | .put, .manifest name reference, _ =>
    refine ⟨⟨⟨.s3, ∅, ∅⟩, ∅⟩, requestWith minimalManifest none, fun heq => ?_⟩
    have hget := get_putManifest sha
      (stores_minimal hserde name reference ⟨true, false, true, true⟩ rfl)
    have heq : (putManifest sha serde ⟨true, false, true, true⟩ ⟨.s3, ∅, ∅⟩
      ⟨name, reference, true, none, minimalManifest⟩).1 = ⟨.s3, ∅, ∅⟩ := heq
    rw [heq, Store.get_empty] at hget
    cases hget
  | .put, .upload name uploadId, _ =>
    exact ⟨uploading name uploadId [0], requestWith [1] (some "digest="),
      completeBlobUpload_uploading name uploadId⟩
  | .patch, .upload name uploadId, _ =>
    exact ⟨uploading name uploadId [0], requestWith [1] none,
      uploadBlobChunk_uploading name uploadId⟩
  | .delete, .manifest name reference, h =>
    refine ⟨⟨holding (ofString (deletionRoot name reference)) minimalManifest, ∅⟩,
      requestWith [] none, ?_⟩
    simp only [handleRoute_deleteManifest, storage_deleteManifest]
    exact deleteDockerPackage_holding hserde h.1 h.2
  | .delete, .upload name uploadId, h =>
    obtain ⟨st', found, hd, hne⟩ := deleteFile_holding h [0]
    refine ⟨⟨holding (uploadPath name uploadId) [0], (∅ : Store String Bytes).put uploadId []⟩,
      requestWith [] none, ?_⟩
    have hup : ((∅ : Store String Bytes).put uploadId []).get uploadId = some [] :=
      Store.get_put_self _ _ _
    show (cancelBlobUpload _ name uploadId true).1.storage ≠ _
    unfold cancelBlobUpload
    simp only [Bool.not_true, Bool.false_eq_true, if_false, hup, hd]
    exact hne
  | .delete, .blob name digest, h =>
    obtain ⟨st', found, hd, hne⟩ := deleteFile_holding h [0]
    refine ⟨⟨holding (blobPath name digest) [0], ∅⟩, requestWith [] none, ?_⟩
    show (deleteBlob _ _ name digest).1 ≠ _
    unfold deleteBlob
    simp only [hd]
    exact hne

def tagging (name : String) : DynStorage where
  backend := .s3
  objects := (∅ : Objects).put ((manifestsDirectory name).components ++ ["latest"]) []
  staging := ∅

theorem openFile_tagging (name : String) :
    ∃ files, (tagging name).openFile (manifestsDirectory name) = .ok (some (.directory files)) := by
  have hobject : (tagging name).objects.get (manifestsDirectory name).components = none := by
    rw [tagging, Store.get_put_of_ne _ _ (by simp), Store.get_empty]
  have hstaging : (tagging name).staging.get (manifestsDirectory name).components = none :=
    Store.get_empty _
  have hdir : Objects.isDir (tagging name).objects (manifestsDirectory name).components = true := by
    have hkey : (manifestsDirectory name).components ++ ["latest"] ∈
        (tagging name).objects.keys := Store.mem_keys_iff.mpr ⟨[], Store.get_put_self _ _ _⟩
    refine List.any_eq_true.mpr ⟨_, hkey, ?_⟩
    rw [Objects.below, Bool.and_eq_true]
    exact ⟨List.isPrefixOf_iff_prefix.mpr (List.prefix_append _ _), by simp⟩
  have hreject : (tagging name).rejects (manifestsDirectory name) = false := rfl
  have hnone : ((tagging name).lookupKey? (manifestsDirectory name)).bind
      (tagging name).staging.get = none ∧
      ((tagging name).lookupKey? (manifestsDirectory name)).bind
        (tagging name).objects.get = none := by
    cases hkey : (tagging name).lookupKey? (manifestsDirectory name) with
    | none => exact ⟨rfl, rfl⟩
    | some key =>
      obtain rfl : key = (manifestsDirectory name).components := by
        simp only [lookupKey?, tagging] at hkey
        split_ifs at hkey
        exact (Option.some.inj hkey).symm
      exact ⟨hstaging, hobject⟩
  unfold openFile
  rw [hreject, hnone.1, hnone.2, hdir]
  exact ⟨_, rfl⟩

theorem exists_reveals (sha : Sha256) (serde : SerdeJson) (order : HashOrder) (hasUser : Bool)
    {method : Method} {route : Route}
    (h : Revealing method route) : ∃ repo req,
      Reveals (handleRoute sha serde order repo hasUser req method route).2 := by
  match method, route, h with
  | .get, .catalog, _ => exact ⟨⟨⟨.s3, ∅, ∅⟩, ∅⟩, requestWith [] none, _, rfl, rfl⟩
  | .get, .tags name, _ =>
    refine ⟨⟨tagging name, ∅⟩, requestWith [] none, ?_⟩
    obtain ⟨files, hopen⟩ := openFile_tagging name
    show Reveals (some (listTags (tagging name) name _))
    rw [listTags, collectRepositoryTags, hopen]
    exact ⟨_, rfl, rfl⟩
  | .get, .manifest name reference, h =>
    refine ⟨⟨holding (manifestPath name reference) [0], ∅⟩, requestWith [] none, ?_⟩
    show Reveals (some (readManifest sha serde _ name reference true))
    rw [readManifest, openFile_holding h]
    exact ⟨_, rfl, rfl⟩
  | .get, .blob name digest, h =>
    refine ⟨⟨holding (blobPath name digest) [0], ∅⟩, requestWith [] none, ?_⟩
    show Reveals (some (readBlob _ _ name digest true))
    rw [readBlob, openFile_holding h]
    exact ⟨_, rfl, rfl⟩

end Pkgly.Docker
