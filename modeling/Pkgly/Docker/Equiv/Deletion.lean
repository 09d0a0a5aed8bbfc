import Pkgly.Docker.Deletion
import Pkgly.Docker.Equiv.Types
import Pkgly.Docker.Equiv.Manifests

/-!
# What deleting a Docker package does to the other images

`deleteDockerPackage` deletes the footprint of its root manifest: the root, its copy under the
digest, their tag sidecars, and the configuration and layers the root lists
(`get_deleteDockerPackage_iff`).  Who else refers to these paths is never looked at.  So from a
storage in which every manifest has all it refers to (`Whole`), a successful deletion leads to
such a storage again exactly when no manifest that is left refers into the footprint
(`whole_deleteDockerPackage_iff`).
-/

namespace Pkgly.Docker

open StoragePath DynStorage

variable {sha : Sha256} {serde : SerdeJson} {order : HashOrder} {accounting : Bool}
  {st st' : DynStorage} {name root path : String}

/-! ### The first pass -/

def readImage (serde : SerdeJson) (bytes : Bytes) : Option OciImageManifest :=
  (serde.parse bytes).bind OciImageManifest.decode

theorem fromBytes_ociImageManifest (bytes : Bytes) :
    Manifest.fromBytes serde bytes MediaType.ociImageManifest =
      some ((readImage serde bytes).map .ociImage) := by
  have hd : Manifest.decoder? MediaType.ociImageManifest =
      some fun j => (OciImageManifest.decode j).map .ociImage := by
    rw [Manifest.decoder?, if_neg (by decide), if_pos rfl]
  grind [Manifest.fromBytes_of_decoder, readImage]

def blobDigests (image : OciImageManifest) : List String :=
  (image.config.toList ++ image.layers).map Descriptor.digest

def footprint (sha : Sha256) (name root : String) (bytes : Bytes) (image : OciImageManifest) :
    List String :=
  manifestPaths root (objectPath name "manifests" (sha.digest bytes)) ++
    (blobDigests image).map (objectPath name "blobs")

theorem tagMeta_objectPath (name kind digest : String) :
    tagMeta (objectPath name kind digest) = objectPath name kind (tagMeta digest) := by
  simp only [tagMeta, objectPath, String.append_assoc]

theorem of_mem_manifestPaths {digestPath p : String} (h : p ∈ manifestPaths path digestPath) :
    p = path ∨ p = tagMeta path ∨ p = digestPath ∨ p = tagMeta digestPath := by
  unfold manifestPaths at h
  grind

theorem mem_foldl_insert {paths acc : List String} {p : String} :
    p ∈ paths.foldl (fun acc q => acc.insert q) acc ↔ p ∈ paths ∨ p ∈ acc := by
  induction paths generalizing acc with
  | nil => simp
  | cons q paths ih =>
    rw [List.foldl_cons, ih, List.mem_insert_iff, List.mem_cons]
    tauto

/-- Folding `collectBlobPath` adds the path of every digest; the digests collected so far already
have theirs. -/
theorem mem_foldl_collectBlobPath {digests : List String} {acc : List String × List String}
    (hacc : ∀ d ∈ acc.1, objectPath name "blobs" d ∈ acc.2) {p : String} :
    p ∈ (digests.foldl (collectBlobPath name) acc).2 ↔
      p ∈ digests.map (objectPath name "blobs") ∨ p ∈ acc.2 := by
  induction digests generalizing acc with
  | nil => simp
  | cons d digests ih =>
    rw [List.foldl_cons, List.map_cons, List.mem_cons]
    by_cases hd : d ∈ acc.1
    · rw [collectBlobPath, if_pos hd, ih hacc]
      grind
    · rw [collectBlobPath, if_neg hd, ih]
      · rw [List.mem_insert_iff]
        tauto
      grind

theorem collectManifestPaths_eq_ok {collected : Collected} {nested : List String}
    (h : collectManifestPaths sha serde st name ⟨[], []⟩ path = .ok (collected, nested)) :
    nested = [] ∧ ∃ bytes image, st.openFile (.ofString path) = .ok (some (.file bytes)) ∧
      readImage serde bytes = some image ∧
      ∀ p, p ∈ collected.paths ↔ p ∈ footprint sha name path bytes image := by
  unfold collectManifestPaths at h
  cases hopen : st.openFile (.ofString path) with
  | error e => rw [hopen] at h; cases h
  | ok file =>
    rcases file with _ | bytes | files
    · rw [hopen] at h; cases h
    · rw [hopen] at h
      simp only [fromBytes_ociImageManifest] at h
      cases himage : readImage serde bytes with
      | none => rw [himage] at h; cases h
      | some image =>
        rw [himage] at h
        simp only [Option.map_some, List.not_mem_nil, if_false] at h
        obtain ⟨rfl, rfl⟩ := Prod.mk.inj (Except.ok.inj h)
        refine ⟨rfl, bytes, image, rfl, himage, fun p => ?_⟩
        show p ∈ ((blobDigests image).foldl (collectBlobPath name) _).2 ↔ _
        rw [mem_foldl_collectBlobPath (by simp), mem_foldl_insert, footprint, List.mem_append]
        simp only [List.not_mem_nil, or_false]
        tauto
    · rw [hopen] at h; cases h

theorem collectLoop_root (fuel : ℕ) :
    collectLoop sha serde st name root (fuel + 2) [root] ⟨[], []⟩ =
      some ((collectManifestPaths sha serde st name ⟨[], []⟩ root).map Prod.fst) := by
  rw [collectLoop]
  cases h : collectManifestPaths sha serde st name ⟨[], []⟩ root with
  | error e => cases e <;> simp [Except.map]
  | ok r =>
    obtain ⟨collected, nested⟩ := r
    obtain ⟨rfl, -⟩ := collectManifestPaths_eq_ok h
    rfl

theorem collectLoop_eq_ok {collected : Collected}
    (h : collectLoop sha serde st name root 2 [root] ⟨[], []⟩ = some (.ok collected)) :
    ∃ bytes image, st.openFile (.ofString root) = .ok (some (.file bytes)) ∧
      readImage serde bytes = some image ∧
      ∀ p, p ∈ collected.paths ↔ p ∈ footprint sha name root bytes image := by
  rw [collectLoop_root 0] at h
  cases hc : collectManifestPaths sha serde st name ⟨[], []⟩ root with
  | error e => rw [hc] at h; cases Option.some.inj h
  | ok r =>
    obtain ⟨c, nested⟩ := r
    rw [hc] at h
    obtain rfl : c = collected := Except.ok.inj (Option.some.inj h)
    exact (collectManifestPaths_eq_ok hc).2

/-! ### The objects that are left -/

/-- The images and the root that a deletion goes by: the root's repository name and its content
read as an image. -/
structure Root (sha : Sha256) (serde : SerdeJson) (st : DynStorage) (root : String) where
  name : String
  bytes : Bytes
  image : OciImageManifest
  name_eq : (splitManifestCachePath root).map Prod.fst = some name
  openFile_eq : st.openFile (.ofString root) = .ok (some (.file bytes))
  readImage_eq : readImage serde bytes = some image

def Root.paths (r : Root sha serde st root) : List StoragePath :=
  (footprint sha r.name root r.bytes r.image).map .ofString

/-- What a successful deletion leaves: the objects that no path of the footprint deletes. -/
theorem get_deleteDockerPackage_iff {result : DeletionResult}
    (h : deleteDockerPackage sha serde order accounting st root = (st', some (.ok result))) :
    ∃ r : Root sha serde st root, ∀ key c, st'.objects.get key = some c ↔
      st.objects.get key = some c ∧ ¬ Deleted st.backend r.paths key := by
  unfold deleteDockerPackage at h
  cases hsplit : splitManifestCachePath root with
  | none => rw [hsplit] at h; cases (Prod.mk.inj h).2
  | some s =>
    obtain ⟨name, reference⟩ := s
    rw [hsplit] at h
    simp only at h
    cases hloop : collectLoop sha serde st name root 2 [root] ⟨[], []⟩ with
    | none => rw [hloop] at h; cases (Prod.mk.inj h).2
    | some c =>
      rw [hloop] at h
      cases c with
      | error e => cases (Prod.mk.inj h).2
      | ok collected =>
        obtain ⟨bytes, image, hopen, himage, hpaths⟩ := collectLoop_eq_ok hloop
        refine ⟨⟨name, bytes, image, by rw [hsplit]; rfl, hopen, himage⟩, fun key c => ?_⟩
        simp only at h
        cases hbatch : st.deleteFilesBatch ((order.list collected.paths).map .ofString) with
        | mk st₁ r =>
          rw [hbatch] at h
          cases r with
          | error e => cases (Prod.mk.inj h).2
          | ok u =>
            have hst : st₁ = st' := by
              simp only at h
              split_ifs at h <;> exact (Prod.mk.inj h).1
            rw [← hst, get_of_deleteFilesBatch hbatch]
            -- the hash set lists the footprint in some order
            have hmem : Deleted st.backend ((order.list collected.paths).map .ofString) key ↔
                Deleted st.backend ((footprint sha name root bytes image).map .ofString) key := by
              simp only [Deleted, List.mem_map, exists_exists_and_eq_and, (order.perm _).mem_iff, hpaths]
            rw [hmem]
            rfl

theorem Root.eq (r s : Root sha serde st root) : r = s := by
  obtain ⟨name, bytes, image, hn, ho, hi⟩ := r
  obtain ⟨name', bytes', image', hn', ho', hi'⟩ := s
  grind

theorem Root.deleteDockerPackage_succeeds (r : Root sha serde st root) (order : HashOrder)
    (hvalid : ∀ path ∈ r.paths, st.rejects path = false) : ∃ st' result,
      deleteDockerPackage sha serde order true st root = (st', some (.ok result)) := by
  obtain ⟨collected, hcollect⟩ : ∃ collected,
      collectManifestPaths sha serde st r.name ⟨[], []⟩ root = .ok (collected, []) := by
    unfold collectManifestPaths
    simp only [r.openFile_eq, fromBytes_ociImageManifest, r.readImage_eq]
    exact ⟨_, rfl⟩
  obtain ⟨bytes, image, hopen, himage, hpaths⟩ := (collectManifestPaths_eq_ok hcollect).2
  have hr : (footprint sha r.name root bytes image).map .ofString = r.paths := by
    obtain rfl : bytes = r.bytes := by
      rw [r.openFile_eq] at hopen
      simpa using hopen.symm
    obtain rfl : image = r.image := Option.some.inj (himage.symm.trans r.readImage_eq)
    rfl
  have hloop : collectLoop sha serde st r.name root 2 [root] ⟨[], []⟩ = some (.ok collected) := by
    rw [collectLoop_root 0, hcollect]
    rfl
  have hname : ∃ reference, splitManifestCachePath root = some (r.name, reference) := by
    obtain ⟨⟨name, reference⟩, hs, hfst⟩ := Option.map_eq_some_iff.mp r.name_eq
    obtain rfl : name = r.name := hfst
    exact ⟨reference, hs⟩
  obtain ⟨reference, hsplit⟩ := hname
  obtain ⟨st', hbatch⟩ : ∃ st',
      st.deleteFilesBatch ((order.list collected.paths).map .ofString) = (st', .ok ()) := by
    refine deleteFilesBatch_succeeds fun path hpath => hvalid path ?_
    obtain ⟨p, hp, rfl⟩ := List.mem_map.mp hpath
    rw [← hr]
    exact List.mem_map.mpr ⟨p, (hpaths p).mp ((order.perm _).mem_iff.mp hp), rfl⟩
  simp_all [deletionResult, deleteDockerPackage]

/-! ### Whole repositories -/

/-- A reference as the routes pass it: a non-empty component. -/
def IsReference (reference : String) : Prop := reference ≠ "" ∧ '/' ∉ reference.toList
deriving Decidable

theorem components_manifestPath_of_isReference {reference : String} (h : IsReference reference) :
    (manifestPath name reference).components =
      "v2" :: (segments '/' name ++ ["manifests", reference]) := by
  have hne : reference.toList ≠ [] := fun hnil => h.1 (String.toList_inj.mp (by rw [hnil]; rfl))
  rw [components_manifestPath, segments_eq_singleton h.2 hne]

theorem key_inj {name : List String} {kind kind' last last' : String} (name' : List String) :
    "v2" :: (name ++ [kind, last]) = "v2" :: (name' ++ [kind', last']) ↔
      name = name' ∧ kind = kind' ∧ last = last' := by
  rw [List.cons.injEq]
  constructor
  · rintro ⟨-, h⟩
    obtain ⟨hname, hlast⟩ := List.append_inj' h rfl
    simp only [List.cons.injEq, and_true] at hlast
    exact ⟨hname, hlast⟩
  · rintro ⟨rfl, rfl, rfl⟩
    exact ⟨rfl, rfl⟩

/-- `v2/<name>/manifests/<reference>` holds a manifest that refers to the path `p`. -/
def RefersTo (serde : SerdeJson) (st : DynStorage) (name reference p : String) : Prop :=
  IsReference reference ∧ ∃ content references,
    st.objects.get (manifestPath name reference).components = some content ∧
    manifestReferences serde name content = some references ∧ p ∈ references

/-- Every stored manifest has all the blobs and child manifests it refers to. -/
def Whole (serde : SerdeJson) (st : DynStorage) : Prop :=
  ∀ name reference p, RefersTo serde st name reference p →
    ∃ content, st.objects.get (ofString p).components = some content

/-- No manifest outside the footprint of `root` refers into it. -/
def Unshared (sha : Sha256) (serde : SerdeJson) (st : DynStorage) (root : String) : Prop :=
  ∀ (r : Root sha serde st root) (name reference p : String), RefersTo serde st name reference p →
    ¬ Deleted st.backend r.paths (manifestPath name reference).components →
      ¬ Deleted st.backend r.paths (ofString p).components

/-- **Deletion and the other images**: from a whole repository, a successful deletion leaves a
whole repository exactly when no manifest outside the footprint of the root refers into it. -/
theorem whole_deleteDockerPackage_iff (sha : Sha256) (serde : SerdeJson) (order : HashOrder)
    (accounting : Bool) (st st' : DynStorage) (root : String) (result : DeletionResult)
    (hst : Whole serde st)
    (h : deleteDockerPackage sha serde order accounting st root = (st', some (.ok result))) :
    Whole serde st' ↔ Unshared sha serde st root := by
  obtain ⟨r, hr⟩ := get_deleteDockerPackage_iff h
  constructor
  · rintro hst' s name reference p ⟨href, content, references, hget, hrefs, hp⟩ hkeep
    obtain rfl := r.eq s
    have hget' := (hr _ _).mpr ⟨hget, hkeep⟩
    obtain ⟨c, hc⟩ := hst' name reference p ⟨href, content, references, hget', hrefs, hp⟩
    exact ((hr _ _).mp hc).2
  · rintro hun name reference p ⟨href, content, references, hget', hrefs, hp⟩
    obtain ⟨hget, hkeep⟩ := (hr _ _).mp hget'
    have hrefers : RefersTo serde st name reference p := ⟨href, content, references, hget, hrefs, hp⟩
    obtain ⟨c, hc⟩ := hst name reference p hrefers
    exact ⟨c, (hr _ _).mpr ⟨hc, hun r name reference p hrefers hkeep⟩⟩

/-! ### A layer shared by two tags -/

/-- A manifest with one layer: `{"schemaVersion":2,"layers":[…]}`, the layer being the blob
`sha256:aa`. -/
def layeredManifest : Bytes :=
  ("\x7b\"schemaVersion\":2,\"layers\":[\x7b\"mediaType\":\"tar\"," ++
    "\"digest\":\"sha256:aa\",\"size\":1\x7d]\x7d").toList.map fun c => UInt8.ofNat c.toNat

/-- `serde_json` on that manifest. -/
def layeredSerde : SerdeJson where
  parse bytes :=
    if bytes = layeredManifest then
      some (.obj [("schemaVersion", .int 2), ("layers", .arr [.obj
        [("mediaType", .str "tar"), ("digest", .str "sha256:aa"), ("size", .int 1)]])])
    else none
  acceptsValue _ := true

/-- The image `img` with the tags `a` and `b` on the same manifest, and its layer. -/
def sharedLayer : DynStorage where
  backend := .s3
  objects := (((∅ : Objects).put ["v2", "img", "blobs", "sha256:aa"] [0xaa]).put
    ["v2", "img", "manifests", "a"] layeredManifest).put
    ["v2", "img", "manifests", "b"] layeredManifest
  staging := ∅

def insertionOrder : HashOrder := ⟨id, fun _ => .refl _⟩

/-- The deletion of the tag `a` goes by its manifest. -/
def sharedLayerRoot : Root .hexText layeredSerde sharedLayer "v2/img/manifests/a" where
  name := "img"
  bytes := layeredManifest
  image := ⟨2, none, none, [⟨"tar", "sha256:aa", 1, none, none⟩], none⟩
  name_eq := by decide
  openFile_eq := rfl
  readImage_eq := rfl

theorem manifestReferences_layeredManifest (name : String) :
    manifestReferences layeredSerde name layeredManifest =
      some [objectPath name "blobs" "sha256:aa"] := by
  have hparse : parseManifest layeredSerde layeredManifest =
      some (some (.ociImage ⟨2, none, none, [⟨"tar", "sha256:aa", 1, none, none⟩], none⟩)) := rfl
  rw [manifestReferences, hparse]
  simp only [Option.map_some, Manifest.digests, Option.toList_none, List.nil_append, List.map_cons,
    List.map_nil, List.mergeSort_singleton]
  rfl

theorem whole_sharedLayer : Whole layeredSerde sharedLayer := by
  rintro name reference p ⟨href, content, references, hget, hrefs, hp⟩
  rw [components_manifestPath_of_isReference href] at hget
  simp only [sharedLayer, Store.get_put, Store.get_empty] at hget
  -- the object is one of the two tags
  have hname : segments '/' name = ["img"] ∧ content = layeredManifest := by
    split_ifs at hget with hb ha hl
    · exact ⟨((key_inj ["img"]).mp hb).1, (Option.some.inj hget).symm⟩
    · exact ⟨((key_inj ["img"]).mp ha).1, (Option.some.inj hget).symm⟩
    · exact absurd ((key_inj ["img"]).mp hl).2.1 (by decide)
  obtain ⟨hname, rfl⟩ := hname
  rw [manifestReferences_layeredManifest] at hrefs
  obtain rfl := Option.some.inj hrefs
  rw [List.mem_singleton.mp hp, components_objectPath name _ _ (by decide) (by decide), hname]
  exact ⟨[0xaa], by decide⟩

theorem whole_deleteDockerPackage_iff_sharedLayer : ∃ st' result,
    Whole layeredSerde sharedLayer ∧
    deleteDockerPackage .hexText layeredSerde insertionOrder true sharedLayer
      "v2/img/manifests/a" = (st', some (.ok result)) ∧
    (Whole layeredSerde st' ↔
      Unshared .hexText layeredSerde sharedLayer "v2/img/manifests/a") := by
  obtain ⟨st', result, h⟩ :=
    sharedLayerRoot.deleteDockerPackage_succeeds insertionOrder (fun _ _ => rfl)
  exact ⟨st', result, whole_sharedLayer, h,
    whole_deleteDockerPackage_iff _ _ _ _ _ _ _ _ whole_sharedLayer h⟩

theorem components_tag_ne {x : String} (hx : '/' ∉ x.toList) :
    (manifestPath "img" "b").components ≠ (manifestPath "img" ("sha256:" ++ x)).components := by
  have href : IsReference ("sha256:" ++ x) := by
    refine ⟨fun h => ?_, ?_⟩
    · have hnil := congrArg String.toList h
      simp [String.toList_append] at hnil
    · rw [String.toList_append, List.mem_append, not_or]
      exact ⟨by decide, hx⟩
  rw [components_manifestPath_of_isReference href,
    components_manifestPath_of_isReference (by decide)]
  intro h
  have hhead := congrArg (fun s : String => s.toList.head?) ((key_inj _).mp h).2.2
  simp [String.toList_append] at hhead

theorem not_deleted_sharedLayer :
    ¬ Deleted .s3 sharedLayerRoot.paths (manifestPath "img" "b").components := by
  rintro ⟨path, hpath, hdel⟩
  obtain ⟨p, hp, rfl⟩ := List.mem_map.mp hpath
  have hkey : (manifestPath "img" "b").components = (ofString p).components := by
    simp only [deletes, Bool.and_eq_true, beq_iff_eq] at hdel
    exact hdel.2
  have hhex : '/' ∉ (Sha256.hexText.hex layeredManifest).toList := fun h =>
    absurd (Sha256.hexText.isLowerHex_of_mem _ _ h) (by decide)
  rcases List.mem_append.mp hp with hp | hp
  · rcases of_mem_manifestPaths hp with rfl | rfl | rfl | rfl
    · exact absurd hkey (by decide)
    · exact absurd hkey (by decide)
    · exact components_tag_ne hhex hkey
    · have hmeta : tagMeta (objectPath "img" "manifests" (Sha256.hexText.digest layeredManifest)) =
          objectPath "img" "manifests"
            ("sha256:" ++ (Sha256.hexText.hex layeredManifest ++ ".nr-docker-tagmeta")) := by
        simp only [tagMeta, objectPath, Sha256.digest, String.append_assoc]
      have hslash : '/' ∉ (Sha256.hexText.hex layeredManifest ++ ".nr-docker-tagmeta").toList := by
        rw [String.toList_append, List.mem_append, not_or]
        exact ⟨hhex, by decide⟩
      exact components_tag_ne hslash (hkey.trans (congrArg (fun p => (ofString p).components) hmeta))
  · rw [List.mem_singleton.mp hp] at hkey
    exact absurd hkey (by decide)

/-- Deleting one of the tags takes the layer away from the other. -/
theorem not_whole_of_sharedLayer :
    ¬ ∀ (sha : Sha256) (serde : SerdeJson) (order : HashOrder) (accounting : Bool)
      (st st' : DynStorage) (root : String) (result : DeletionResult), Whole serde st →
      deleteDockerPackage sha serde order accounting st root = (st', some (.ok result)) →
      Whole serde st' := by
  intro hall
  obtain ⟨st', result, h⟩ :=
    sharedLayerRoot.deleteDockerPackage_succeeds insertionOrder (fun _ _ => rfl)
  have hwhole := hall _ _ _ _ _ _ _ _ whole_sharedLayer h
  obtain ⟨r, hr⟩ := get_deleteDockerPackage_iff h
  obtain rfl := r.eq sharedLayerRoot
  have hrefers : RefersTo layeredSerde st' "img" "b" (objectPath "img" "blobs" "sha256:aa") :=
    ⟨by decide, layeredManifest, _, (hr _ _).mpr ⟨by decide, not_deleted_sharedLayer⟩,
      manifestReferences_layeredManifest "img", List.mem_singleton_self _⟩
  obtain ⟨c, hc⟩ := hwhole _ _ _ hrefers
  refine ((hr _ _).mp hc).2 ⟨ofString (objectPath "img" "blobs" "sha256:aa"), ?_, by decide⟩
  exact List.mem_map_of_mem (List.mem_append_right _ (List.mem_singleton_self _))

end Pkgly.Docker
