import Pkgly.Docker.BatchDeletion
import Pkgly.Docker.Equiv.Deletion

/-!
# Batch deletion and one deletion after the other

Both delete the footprints of the requested manifests.  The batch reads a manifest while what the
earlier ones delete may still be there, collects the blobs of one content only once, whatever the
image names it is stored under, and deletes the sidecar of every requested path.  Where the storage
accepts all the paths and a manifest that an earlier one deletes is a copy of that, the batch leaves
the objects that deleting one by one leaves exactly when these differences touch no object
(`batch_same_iff`).
-/

namespace Pkgly.Docker

open StoragePath DynStorage BatchDeletion

variable {sha : Sha256} {serde : SerdeJson} {order : HashOrder} {threshold : ℕ}
  {st st' : DynStorage} {name path : String}

/-! ### The requested manifests -/

/-- A requested manifest as it is stored: its image name, its content and the image it is read
as. -/
structure StoredImage where
  name : String
  bytes : Bytes
  image : OciImageManifest

def storedImage? (serde : SerdeJson) (st : DynStorage) (path : String) : Option StoredImage :=
  match (splitManifestCachePath path).filter fun _ => isValidDockerManifestPath path with
  | none => none
  | some (name, _) =>
    match st.openFile (.ofString path) with
    | .ok (some (.file bytes)) => (readImage serde bytes).map fun image => ⟨name, bytes, image⟩
    | _ => none

/-- The paths of the manifest itself, of its copy under the digest and of their sidecars. -/
def ownPaths (sha : Sha256) (path : String) (i : StoredImage) : List String :=
  manifestPaths path (objectPath i.name "manifests" (sha.digest i.bytes))

def StoredImage.blobs (i : StoredImage) : List String :=
  (blobDigests i.image).map (objectPath i.name "blobs")

variable {i : StoredImage} {key paths before : List String} {b b' : BatchDeletion}

theorem storedImage?_eq_some_iff : storedImage? serde st path = some i ↔
    isValidDockerManifestPath path = true ∧
    (∃ reference, splitManifestCachePath path = some (i.name, reference)) ∧
    st.openFile (.ofString path) = .ok (some (.file i.bytes)) ∧
    readImage serde i.bytes = some i.image := by
  unfold storedImage?
  constructor
  · intro h
    cases hsplit : (splitManifestCachePath path).filter fun _ => isValidDockerManifestPath path with
    | none => simp [hsplit] at h
    | some r =>
      obtain ⟨name, reference⟩ := r
      rw [Option.filter_eq_some_iff] at hsplit
      simp only [hsplit.1, Option.filter, hsplit.2, if_true] at h
      aesop
  simp_all [Option.filter, Option.map_some]

theorem storedImage?_of_leaves {paths : List StoragePath} (h : Leaves st paths st')
    : storedImage? serde st' path = some i ↔
      storedImage? serde st path = some i ∧
        ¬ Deleted st.backend paths (ofString path).components := by
  rw [storedImage?_eq_some_iff, storedImage?_eq_some_iff, h.openFile_eq_file_iff]
  grind

/-! ### One manifest -/

theorem nodup_foldl_insert (paths : List String) {acc : List String} (h : acc.Nodup) :
    (paths.foldl (fun acc q => acc.insert q) acc).Nodup := by
  induction paths generalizing acc with
  | nil => exact h
  | cons q paths ih => exact ih (h.insert)

theorem nodup_foldl_collectBlobPath (digests : List String) {acc : List String × List String}
    (h : acc.2.Nodup) : (digests.foldl (collectBlobPath name) acc).2.Nodup := by
  induction digests generalizing acc with
  | nil => exact h
  | cons d digests ih =>
    refine ih ?_
    unfold collectBlobPath
    split_ifs
    · exact h
    · exact h.insert

theorem collectManifestPaths_of_image {acc : Collected} {bytes : Bytes} {image : OciImageManifest}
    (hopen : st.openFile (.ofString path) = .ok (some (.file bytes)))
    (himage : readImage serde bytes = some image) :
    ∃ collected, collectManifestPaths sha serde st name acc path = .ok (collected, []) ∧
      (acc.paths.Nodup → collected.paths.Nodup) ∧
      (∀ d, d ∈ collected.visited ↔ d = sha.digest bytes ∨ d ∈ acc.visited) ∧
      ∀ p, p ∈ collected.paths ↔
        p ∈ manifestPaths path (objectPath name "manifests" (sha.digest bytes)) ∨
        (sha.digest bytes ∉ acc.visited ∧ p ∈ (blobDigests image).map (objectPath name "blobs")) ∨
        p ∈ acc.paths := by
  unfold collectManifestPaths
  simp only [hopen, fromBytes_ociImageManifest, himage, Option.map_some]
  by_cases hseen : sha.digest bytes ∈ acc.visited
  · rw [if_pos hseen]
    refine ⟨_, rfl, nodup_foldl_insert _, fun d => ?_, fun p => ?_⟩
    · constructor
      · exact .inr
      · rintro (rfl | h)
        · exact hseen
        · exact h
    · rw [mem_foldl_insert]
      simp [hseen]
  · rw [if_neg hseen]
    refine ⟨_, rfl, fun h => nodup_foldl_collectBlobPath _ (nodup_foldl_insert _ h),
      fun d => List.mem_cons, fun p => ?_⟩
    show p ∈ ((blobDigests image).foldl (collectBlobPath name) _).2 ↔ _
    rw [mem_foldl_collectBlobPath (by simp), mem_foldl_insert]
    simp only [hseen, not_false_eq_true, true_and]
    tauto

theorem collectManifestPaths_of_not_image {acc : Collected}
    (h : ∀ bytes image, st.openFile (.ofString path) = .ok (some (.file bytes)) →
      readImage serde bytes ≠ some image) :
    ∃ e, collectManifestPaths sha serde st name acc path = .error e ∧
      e ≠ .invalidManifestPath := by
  unfold collectManifestPaths
  cases hopen : st.openFile (.ofString path) with
  | error e => exact ⟨_, rfl, by simp⟩
  | ok opened =>
    match opened, hopen with
    | none, _ => exact ⟨_, rfl, by simp⟩
    | some (.directory _), _ => exact ⟨_, rfl, by simp⟩
    | some (.file bytes), hopen =>
      cases himage : readImage serde bytes with
      | none =>
        refine ⟨.invalidManifest, ?_, by simp⟩
        simp only [fromBytes_ociImageManifest, himage, Option.map_none]
      | some image => exact absurd himage (h bytes image hopen)

/-! ### The state of a batch -/

def PendingAccepted (b : BatchDeletion) : Prop :=
  ∀ p ∈ b.collected.paths, b.storage.rejects (.ofString p) = false

def HasFile (st : DynStorage) (key : List String) : Prop :=
  (st.objects.get key).isSome ∨ (st.staging.get key).isSome

theorem HasFile.of_leaves {paths : List StoragePath}
    (hleaves : Leaves st paths st') (h : HasFile st' key) : HasFile st key := by
  unfold HasFile at h ⊢
  rw [hleaves.objects_get, hleaves.staging_get] at h
  split_ifs at h
  · simp at h
  · exact h

theorem leaves_of_not_found {location : StoragePath}
    (h : st.deleteFile location = .ok (st', false)) : Leaves st [] st' := by
  have hnone : (st.objects.keys ++ st.staging.keys).any (deletes st.backend location) = false := by
    unfold deleteFile at h
    split_ifs at h
    exact (Prod.mk.inj (Except.ok.inj h)).2
  have hfree : ∀ key ∈ st.objects.keys ++ st.staging.keys,
      ¬ deletes st.backend location key = true := List.any_eq_false.mp hnone
  obtain rfl := eq_of_deleteFile h
  refine ⟨rfl, fun key => ?_, fun key => ?_⟩
  · rw [if_neg (by simp [Deleted]), get_erase]
    cases hget : st.objects.get key with
    | none => split_ifs <;> rfl
    | some content =>
      have hkey : key ∈ st.objects.keys := Store.mem_keys_iff.mpr ⟨content, hget⟩
      rw [if_neg (hfree key (List.mem_append_left _ hkey))]
  · rw [if_neg (by simp [Deleted]), getStaging_erase]
    cases hget : st.staging.get key with
    | none => split_ifs <;> rfl
    | some content =>
      have hkey : key ∈ st.staging.keys := Store.mem_keys_iff.mpr ⟨content, hget⟩
      rw [if_neg (hfree key (List.mem_append_right _ hkey))]

theorem leaves_of_deletedCount {paths : List StoragePath}
    (h : st.deleteFilesBatch paths = (st', .ok ())) (hcount : deletedCount st paths = 0) :
    Leaves st [] st' := by
  induction paths generalizing st with
  | nil =>
    obtain rfl := (Prod.mk.inj h).1
    exact .refl st
  | cons location rest ih =>
    rw [deletedCount] at hcount
    cases hbackend : st.backend with
    | s3 => simp [hbackend] at hcount
    | «local» =>
      rw [deleteFilesBatch] at h
      simp only [hbackend] at hcount
      cases hd : st.deleteFile location with
      | error e =>
        rw [hd] at h
        cases (Prod.mk.inj h).2
      | ok r =>
        obtain ⟨st₁, found⟩ := r
        rw [hd] at h hcount
        cases found with
        | true =>
          simp only [Bool.toNat_true] at hcount
          omega
        | false =>
          simp only [Bool.toNat_false, Nat.zero_add] at hcount
          exact (leaves_of_not_found hd).trans (ih h hcount)

theorem exists_of_deletedCount {paths : List StoragePath} (h : deletedCount st paths ≠ 0) :
    st.backend = .s3 ∧ paths ≠ [] ∨ ∃ key, HasFile st key ∧ Deleted st.backend paths key := by
  induction paths generalizing st with
  | nil => exact absurd rfl h
  | cons location rest ih =>
    rw [deletedCount] at h
    cases hbackend : st.backend with
    | s3 => exact .inl ⟨rfl, by simp⟩
    | «local» =>
      refine .inr ?_
      simp only [hbackend] at h
      cases hd : st.deleteFile location with
      | error e => simp [hd] at h
      | ok r =>
        obtain ⟨st₁, found⟩ := r
        have hst₁ := eq_of_deleteFile hd
        rw [hd] at h
        cases found with
        | true =>
          -- a key that the path deletes is there
          unfold deleteFile at hd
          split_ifs at hd
          have hany := (Prod.mk.inj (Except.ok.inj hd)).2
          obtain ⟨key, hkey, hdeletes⟩ := List.any_eq_true.mp hany
          rw [hbackend] at hdeletes
          refine ⟨key, ?_, location, List.mem_cons_self, hdeletes⟩
          rcases List.mem_append.mp hkey with hkey | hkey
          · exact .inl (Option.isSome_iff_exists.mpr (Store.mem_keys_iff.mp hkey))
          · exact .inr (Option.isSome_iff_exists.mpr (Store.mem_keys_iff.mp hkey))
        | false =>
          simp only [Bool.toNat_false, Nat.zero_add] at h
          have hb : st₁.backend = .local := by rw [hst₁, backend_erase, hbackend]
          rcases ih h with ⟨hs3, -⟩ | ⟨key, hkey, hdeleted⟩
          · rw [hb] at hs3
            cases hs3
          · rw [hb] at hdeleted
            exact ⟨key, hkey.of_leaves (leaves_of_not_found hd), deleted_cons.mpr (.inr hdeleted)⟩

/-- What the count of deleted objects says of a batch of paths that led from one state to the
next. -/
structure Counts (b b' : BatchDeletion) : Prop where
  le : b.deletedObjects ≤ b'.deletedObjects
  of_eq : b'.deletedObjects = b.deletedObjects → Leaves b.storage [] b'.storage ∧
    (b.storage.backend = .s3 → b.collected.paths = [])
  of_ne : b'.deletedObjects ≠ b.deletedObjects → b.storage.backend = .s3 ∨
    ∃ key, HasFile b.storage key ∧
      Deleted b.storage.backend (b.collected.paths.map .ofString) key

/-- What flushing may do: nothing, or delete what is pending. -/
structure Flushes (b b' : BatchDeletion) : Prop where
  visited_eq : b'.collected.visited = b.collected.visited
  missing_eq : b'.missing = b.missing
  rejected_eq : b'.rejected = b.rejected
  deletedPackages_eq : b'.deletedPackages = b.deletedPackages
  flushed : b' = b ∨ b'.collected.paths = [] ∧
    Leaves b.storage (b.collected.paths.map .ofString) b'.storage ∧ Counts b b'

theorem flush_succeeds {b : BatchDeletion} (h : PendingAccepted b) :
    ∃ b', b.flush order true = (b', .ok ()) ∧ Flushes b b' ∧ b'.collected.paths = [] := by
  unfold flush
  by_cases hempty : b.collected.paths = []
  · rw [if_pos hempty]
    exact ⟨b, rfl, ⟨rfl, rfl, rfl, rfl, .inl rfl⟩, hempty⟩
  · rw [if_neg hempty]
    have haccepted : ∀ location ∈ (order.list b.collected.paths).map StoragePath.ofString,
        b.storage.rejects location = false := by
      intro location hlocation
      obtain ⟨p, hp, rfl⟩ := List.mem_map.mp hlocation
      exact h p ((order.perm _).mem_iff.mp hp)
    obtain ⟨st₁, hbatch⟩ := deleteFilesBatch_succeeds haccepted
    simp only [hbatch, if_true]
    -- the hash set lists the pending paths in some order
    have hsame : ∀ key, Deleted b.storage.backend ((order.list b.collected.paths).map .ofString)
        key ↔ Deleted b.storage.backend (b.collected.paths.map .ofString) key := by
      intro key
      simp only [Deleted, List.mem_map, exists_exists_and_eq_and, (order.perm _).mem_iff]
    have hcounts : Counts b { b.setPaths [] with
        storage := st₁
        deletedObjects := b.deletedObjects + deletedCount b.storage
          ((order.list b.collected.paths).map .ofString) } := by
      refine ⟨Nat.le_add_right _ _, fun heq => ?_, fun hne => ?_⟩
      · have hzero := Nat.add_eq_left.mp heq
        refine ⟨leaves_of_deletedCount hbatch hzero, fun hs3 => ?_⟩
        cases hlist : order.list b.collected.paths with
        | nil =>
          have hperm := order.perm b.collected.paths
          rw [hlist] at hperm
          exact hperm.nil_eq.symm
        | cons p rest =>
          rw [hlist, List.map_cons, deletedCount, hs3] at hzero
          simp at hzero
      · have hcount : deletedCount b.storage
            ((order.list b.collected.paths).map .ofString) ≠ 0 := fun h => hne (by simp [h])
        refine (exists_of_deletedCount hcount).imp And.left ?_
        rintro ⟨key, hkey, hdeleted⟩
        exact ⟨key, hkey, (hsame key).mp hdeleted⟩
    exact ⟨_, rfl, ⟨rfl, rfl, rfl, rfl, .inr ⟨rfl,
      (leaves_of_deleteFilesBatch hbatch).congr hsame, hcounts⟩⟩, rfl⟩

theorem flushIfNeeded_succeeds {b : BatchDeletion} (h : PendingAccepted b) :
    ∃ b', flushIfNeeded order true threshold b = (b', .ok ()) ∧ Flushes b b' := by
  unfold flushIfNeeded
  split_ifs
  · obtain ⟨b', hflush, hflushes, -⟩ := flush_succeeds h
    exact ⟨b', hflush, hflushes⟩
  · exact ⟨b, rfl, rfl, rfl, rfl, rfl, .inl rfl⟩

/-- The storage of a batch is what deletions leave of `st`, and with the pending paths these delete
what `paths` do; the count is zero as long as nothing was flushed that counts. -/
structure Covers (st : DynStorage) (b : BatchDeletion) (paths : List String) : Prop where
  accepted : PendingAccepted b
  leaves : ∃ flushed, Leaves st flushed b.storage ∧
    (∀ key, Deleted st.backend (flushed ++ b.collected.paths.map .ofString) key ↔
      Deleted st.backend (paths.map .ofString) key) ∧
    (st.backend = .s3 → b.deletedObjects = 0 → flushed = [])
  of_zero : b.deletedObjects = 0 → Leaves st [] b.storage
  of_ne_zero : b.deletedObjects ≠ 0 → st.backend = .s3 ∨
    ∃ key, HasFile st key ∧ Deleted st.backend (paths.map .ofString) key

theorem Covers.flush (h : Covers st b paths) (hflush : Flushes b b') : Covers st b' paths := by
  rcases hflush.flushed with rfl | ⟨hempty, hleaves, hcounts⟩
  · exact h
  · obtain ⟨flushed, hst, hdeleted, hs3⟩ := h.leaves
    have hle := hcounts.le
    refine ⟨fun p hp => absurd (hempty ▸ hp) List.not_mem_nil, ⟨_, hst.trans hleaves, fun key => ?_,
      fun hbackend hzero => ?_⟩, fun hzero => ?_, fun hne => ?_⟩
    · rw [hempty, List.map_nil, List.append_nil, hdeleted]
    · rw [hs3 hbackend (by omega),
        (hcounts.of_eq (by omega)).2 (hst.backend_eq.trans hbackend)]
      rfl
    · exact (h.of_zero (by omega)).trans (hcounts.of_eq (by omega)).1
    · by_cases heq : b'.deletedObjects = b.deletedObjects
      · exact h.of_ne_zero (by omega)
      · refine (hcounts.of_ne heq).imp hst.backend_eq.symm.trans ?_
        rintro ⟨key, hkey, hpending⟩
        rw [hst.backend_eq] at hpending
        exact ⟨key, hkey.of_leaves hst, (hdeleted key).mp (deleted_append.mpr (.inr hpending))⟩

theorem Covers.collect {more pending visited : List String}
    (h : Covers st b paths) (haccepted : ∀ p ∈ more, st.rejects (.ofString p) = false)
    (hpending : ∀ p, p ∈ pending ↔ p ∈ more ∨ p ∈ b.collected.paths) :
    Covers st { b with collected := ⟨visited, pending⟩ } (paths ++ more) := by
  obtain ⟨flushed, hst, hdeleted, hs3⟩ := h.leaves
  refine ⟨fun p hp => ?_, ⟨flushed, hst, fun key => ?_, hs3⟩, h.of_zero, fun hne => ?_⟩
  · rcases (hpending p).mp hp with hp | hp
    · exact (hst.rejects_eq _).trans (haccepted p hp)
    · exact h.accepted p hp
  · have hsplit : Deleted st.backend (pending.map .ofString) key ↔
        Deleted st.backend (b.collected.paths.map .ofString) key ∨
          Deleted st.backend (more.map .ofString) key := by
      rw [← deleted_append, ← List.map_append]
      simp only [Deleted, List.mem_map, List.mem_append, exists_exists_and_eq_and, hpending,
        or_comm]
    rw [deleted_append, hsplit, ← or_assoc, ← deleted_append, hdeleted, List.map_append,
      deleted_append]
  · refine (h.of_ne_zero hne).imp_right ?_
    rintro ⟨key, hkey, hkeys⟩
    rw [List.map_append]
    exact ⟨key, hkey, deleted_append.mpr (.inl hkeys)⟩

theorem Covers.congr {paths' : List String} (h : Covers st b paths)
    (heq : ∀ key, Deleted st.backend (paths.map .ofString) key ↔
      Deleted st.backend (paths'.map .ofString) key) : Covers st b paths' where
  accepted := h.accepted
  leaves := by
    obtain ⟨flushed, hst, hdeleted, hs3⟩ := h.leaves
    exact ⟨flushed, hst, fun key => (hdeleted key).trans (heq key), hs3⟩
  of_zero := h.of_zero
  of_ne_zero hne := by
    refine (h.of_ne_zero hne).imp_right ?_
    rintro ⟨key, hkey, hkeys⟩
    exact ⟨key, hkey, (heq key).mp hkeys⟩

theorem covers_new (st : DynStorage) : Covers st (.new st) [] where
  accepted := fun _ hp => absurd hp List.not_mem_nil
  leaves := ⟨[], .refl st, fun _ => Iff.rfl, fun _ _ => rfl⟩
  of_zero := fun _ => .refl st
  of_ne_zero := fun hne => absurd rfl hne

theorem Covers.read (h : Covers st b paths) (hi : storedImage? serde st path = some i) :
    storedImage? serde b.storage path = some i ∨
      storedImage? serde b.storage path = none ∧
        Deleted st.backend (paths.map .ofString) (ofString path).components := by
  obtain ⟨flushed, hst, hdeleted, -⟩ := h.leaves
  by_cases hflushed : Deleted st.backend flushed (ofString path).components
  · refine .inr ⟨?_, (hdeleted _).mp (deleted_append.mpr (.inl hflushed))⟩
    refine Option.eq_none_iff_forall_ne_some.mpr fun j hj => ?_
    exact ((storedImage?_of_leaves hst).mp hj).2 hflushed
  · exact .inl ((storedImage?_of_leaves hst).mpr ⟨hi, hflushed⟩)

/-! ### The loop over the requested paths -/

/-- What a round makes of the flush after a manifest was collected. -/
def countPackage : BatchDeletion × Except DeletionError Unit →
    BatchDeletion × Option (Except DeletionError Unit)
  | (b, .error e) => (b, some (.error e))
  | (b, .ok ()) => ({ b with deletedPackages := b.deletedPackages + 1 }, some (.ok ()))

theorem collectPath_of_stored {b : BatchDeletion} {i : StoredImage}
    (h : storedImage? serde b.storage path = some i) :
    ∃ collected : Collected, (b.collected.paths.Nodup → collected.paths.Nodup) ∧
      (∀ d, d ∈ collected.visited ↔ d = sha.digest i.bytes ∨ d ∈ b.collected.visited) ∧
      (∀ p, p ∈ collected.paths ↔ p ∈ ownPaths sha path i ∨
        (sha.digest i.bytes ∉ b.collected.visited ∧ p ∈ i.blobs) ∨ p ∈ b.collected.paths) ∧
      collectPath sha serde order true threshold path b =
        countPackage (flushIfNeeded order true threshold { b with collected := collected }) := by
  obtain ⟨hvalid, ⟨reference, hsplit⟩, hopen, himage⟩ := storedImage?_eq_some_iff.mp h
  obtain ⟨collected, hcollect, hnodup, hvisited, hpaths⟩ :=
    @collectManifestPaths_of_image sha _ _ i.name _ b.collected _ _ hopen himage
  refine ⟨collected, hnodup, hvisited, hpaths, ?_⟩
  unfold collectPath
  simp only [hsplit, Option.filter, hvalid, if_true, walk, hcollect, List.reverse_nil,
    List.append_nil]
  aesop

def reportAbsent (path : String) (b : BatchDeletion) : BatchDeletion :=
  if ((splitManifestCachePath path).filter fun _ => isValidDockerManifestPath path).isSome then
    { b with missing := b.missing ++ [path] }
  else { b with rejected := b.rejected ++ [path] }

theorem collectPath_of_not_stored (h : storedImage? serde b.storage path = none) :
    collectPath sha serde order true threshold path b =
      (reportAbsent path b, some (.ok ())) := by
  unfold collectPath reportAbsent
  cases hsplit : (splitManifestCachePath path).filter fun _ => isValidDockerManifestPath path with
  | none => rfl
  | some r =>
    obtain ⟨name, reference⟩ := r
    have hfilter := Option.filter_eq_some_iff.mp hsplit
    have himage : ∀ bytes image, b.storage.openFile (.ofString path) = .ok (some (.file bytes)) →
        readImage serde bytes ≠ some image := by grind [storedImage?]
    obtain ⟨e, hcollect, hform⟩ :=
      @collectManifestPaths_of_not_image sha _ _ name _ b.collected himage
    simp only [walk, hcollect, Option.isSome_some, if_true]
    grind

def digestsOf (sha : Sha256) (serde : SerdeJson) (st : DynStorage) (paths : List String) :
    List String :=
  paths.filterMap fun path => (storedImage? serde st path).map fun i => sha.digest i.bytes

/-- What is collected for a path after those before it: its own paths, and the blobs of a content
that was not met before. -/
def collectedAt (sha : Sha256) (serde : SerdeJson) (st : DynStorage) (before : List String)
    (path : String) : List String :=
  match storedImage? serde st path with
  | none => []
  | some i =>
    ownPaths sha path i ++ if sha.digest i.bytes ∈ digestsOf sha serde st before then []
      else i.blobs

def collectedPaths (sha : Sha256) (serde : SerdeJson) (st : DynStorage) :
    (before : List String) → List String → List String
  | _, [] => []
  | before, path :: rest =>
    collectedAt sha serde st before path ++ collectedPaths sha serde st (before ++ [path]) rest

def footprints (sha : Sha256) (serde : SerdeJson) (st : DynStorage) (paths : List String) :
    List String :=
  paths.flatMap fun path =>
    match storedImage? serde st path with
    | none => []
    | some i => ownPaths sha path i ++ i.blobs

/-- A manifest that the deletion of an earlier one takes away has the same content and is deleted
with it: its paths are among those of the earlier one. -/
def Copies (sha : Sha256) (serde : SerdeJson) (st : DynStorage) (p q : String) : Prop :=
  ∀ i j, storedImage? serde st p = some i → storedImage? serde st q = some j →
    Deleted st.backend ((ownPaths sha p i ++ i.blobs).map .ofString) (ofString q).components →
      j.bytes = i.bytes ∧
      (ownPaths sha q j).map ofString ⊆ (ownPaths sha p i).map ofString ∧
      j.blobs.map ofString ⊆ i.blobs.map ofString

theorem mem_footprints_iff {q : String} : q ∈ footprints sha serde st paths ↔
      ∃ p ∈ paths, ∃ i, storedImage? serde st p = some i ∧ q ∈ ownPaths sha p i ++ i.blobs := by
  rw [footprints, List.mem_flatMap]
  grind

theorem mem_digestsOf_iff {d : String} : d ∈ digestsOf sha serde st paths ↔
      ∃ p ∈ paths, ∃ i, storedImage? serde st p = some i ∧ sha.digest i.bytes = d := by
  rw [digestsOf, List.mem_filterMap]
  refine exists_congr fun p => and_congr_right fun _ => ?_
  rw [Option.map_eq_some_iff]

theorem collectedPaths_append (before paths rest : List String) :
    collectedPaths sha serde st before (paths ++ rest) =
      collectedPaths sha serde st before paths ++
        collectedPaths sha serde st (before ++ paths) rest := by
  induction paths generalizing before with
  | nil => rw [List.append_nil, List.nil_append, collectedPaths, List.nil_append]
  | cons path paths ih =>
    rw [List.cons_append, collectedPaths, collectedPaths, ih, List.append_assoc, List.append_assoc,
      List.singleton_append]

theorem collectedAt_of_stored (h : storedImage? serde st path = some i) :
    collectedAt sha serde st before path = ownPaths sha path i ++
      if sha.digest i.bytes ∈ digestsOf sha serde st before then [] else i.blobs := by
  rw [collectedAt, h]

theorem collectedPaths_subset (before paths : List String) :
    collectedPaths sha serde st before paths ⊆ footprints sha serde st paths := by
  induction paths generalizing before with
  | nil => exact fun q hq => absurd hq List.not_mem_nil
  | cons path rest ih =>
    intro q hq
    rw [mem_footprints_iff]
    rw [collectedPaths, List.mem_append] at hq
    rcases hq with hq | hq
    · refine ⟨path, List.mem_cons_self, ?_⟩
      cases hstored : storedImage? serde st path with
      | none => simp [collectedAt, hstored] at hq
      | some i =>
        rw [collectedAt_of_stored hstored] at hq
        grind
    · obtain ⟨p, hp, hrest⟩ := mem_footprints_iff.mp (ih _ hq)
      exact ⟨p, List.mem_cons_of_mem path hp, hrest⟩

theorem collectedAt_subset (before : List String) (path : String) :
    collectedAt sha serde st before path ⊆ footprints sha serde st [path] := by
  have hsub := @collectedPaths_subset sha serde st before [path]
  rwa [collectedPaths, collectedPaths, List.append_nil] at hsub

theorem ownPaths_subset (hpath : path ∈ paths)
    (h : storedImage? serde st path = some i) (before : List String) :
    ownPaths sha path i ⊆ collectedPaths sha serde st before paths := by
  obtain ⟨l₁, l₂, rfl⟩ := List.append_of_mem hpath
  grind [collectedPaths_append, collectedPaths, collectedAt_of_stored, List.mem_append_right,
    List.mem_append_left]

inductive Reports (serde : SerdeJson) (path : String) (b b' : BatchDeletion) : Prop
  | absent (hnone : storedImage? serde b.storage path = none) (heq : b' = reportAbsent path b)
  | present (i : StoredImage) (hstored : storedImage? serde b.storage path = some i)
      (missing_eq : b'.missing = b.missing) (rejected_eq : b'.rejected = b.rejected)
      (deletedPackages_eq : b'.deletedPackages = b.deletedPackages + 1)

/-- The invariant of the loop: what is collected covers the paths before, and their digests are
visited. -/
structure Collects (sha : Sha256) (serde : SerdeJson) (st : DynStorage) (before : List String)
    (b : BatchDeletion) : Prop where
  covers : Covers st b (collectedPaths sha serde st [] before)
  visited_iff : ∀ d, d ∈ b.collected.visited ↔ d ∈ digestsOf sha serde st before

theorem collected_reportAbsent (b : BatchDeletion) :
    (reportAbsent path b).collected = b.collected := by
  unfold reportAbsent
  split_ifs <;> rfl

theorem storage_reportAbsent (b : BatchDeletion) : (reportAbsent path b).storage = b.storage := by
  unfold reportAbsent
  split_ifs <;> rfl

theorem deletedObjects_reportAbsent (b : BatchDeletion) :
    (reportAbsent path b).deletedObjects = b.deletedObjects := by
  unfold reportAbsent
  split_ifs <;> rfl

theorem Covers.of_eq (h : Covers st b paths)
    (hstorage : b'.storage = b.storage) (hcollected : b'.collected.paths = b.collected.paths)
    (hcount : b'.deletedObjects = b.deletedObjects) : Covers st b' paths := by
  refine ⟨?_, ?_, ?_, ?_⟩
  · unfold PendingAccepted
    rw [hstorage, hcollected]
    exact h.accepted
  · rw [hstorage, hcollected, hcount]
    exact h.leaves
  · rw [hstorage, hcount]
    exact h.of_zero
  · rw [hcount]
    exact h.of_ne_zero

theorem Covers.reportAbsent (h : Covers st b paths) : Covers st (reportAbsent path b) paths :=
  h.of_eq (storage_reportAbsent b) (congrArg Collected.paths (collected_reportAbsent b))
    (deletedObjects_reportAbsent b)

theorem digestsOf_concat {d : String} :
    d ∈ digestsOf sha serde st (before ++ [path]) ↔ d ∈ digestsOf sha serde st before ∨
      ∃ i, storedImage? serde st path = some i ∧ sha.digest i.bytes = d := by
  simp only [mem_digestsOf_iff, List.mem_append, List.mem_singleton]
  simp

theorem collectedPaths_concat (before : List String) :
    collectedPaths sha serde st [] (before ++ [path]) =
      collectedPaths sha serde st [] before ++ collectedAt sha serde st before path := by
  rw [collectedPaths_append, List.nil_append, collectedPaths, collectedPaths, List.append_nil]

theorem deleted_collectedAt_of_copy (hstored : storedImage? serde st path = some i)
    (hcopies : ∀ p ∈ before, Copies sha serde st p path)
    (hdeleted : Deleted st.backend ((collectedPaths sha serde st [] before).map .ofString)
      (ofString path).components) : sha.digest i.bytes ∈ digestsOf sha serde st before ∧ ∀ key,
      Deleted st.backend ((collectedPaths sha serde st [] (before ++ [path])).map .ofString) key ↔
        Deleted st.backend ((collectedPaths sha serde st [] before).map .ofString) key := by
  -- the earlier manifest whose footprint holds the path that deletes this one
  obtain ⟨location, hlocation, hdeletes⟩ := hdeleted
  obtain ⟨q, hq, rfl⟩ := List.mem_map.mp hlocation
  obtain ⟨p, hp, j, hj, hqp⟩ := mem_footprints_iff.mp (collectedPaths_subset [] before hq)
  obtain ⟨hbytes, hown, -⟩ := hcopies p hp j i hj hstored
    ⟨ofString q, List.mem_map_of_mem hqp, hdeletes⟩
  have hdigest : sha.digest i.bytes ∈ digestsOf sha serde st before :=
    mem_digestsOf_iff.mpr ⟨p, hp, j, hj, by rw [hbytes]⟩
  refine ⟨hdigest, fun key => ?_⟩
  rw [collectedPaths_concat, collectedAt_of_stored hstored, if_pos hdigest, List.append_nil,
    List.map_append, deleted_append, or_iff_left_iff_imp]
  intro hkey
  have hsub : (ownPaths sha path i).map ofString ⊆
      (collectedPaths sha serde st [] before).map ofString := by
    refine List.Subset.trans hown fun location hlocation => ?_
    obtain ⟨p', hp', rfl⟩ := List.mem_map.mp hlocation
    exact List.mem_map_of_mem (ownPaths_subset hp hj [] hp')
  exact hkey.of_subset hsub

theorem Collects.collectPath_eq {before : List String} {b : BatchDeletion} {i : StoredImage}
    (h : Collects sha serde st before b) (hread : storedImage? serde b.storage path = some i)
    (hstored : storedImage? serde st path = some i) :
    ∃ collected : Collected, (b.collected.paths.Nodup → collected.paths.Nodup) ∧
      (∀ d, d ∈ collected.visited ↔ d = sha.digest i.bytes ∨ d ∈ b.collected.visited) ∧
      (∀ p, p ∈ collected.paths ↔
        p ∈ collectedAt sha serde st before path ∨ p ∈ b.collected.paths) ∧
      BatchDeletion.collectPath sha serde order true threshold path b =
        countPackage (flushIfNeeded order true threshold { b with collected := collected }) := by
  obtain ⟨collected, hnodup, hvisited, hpaths, hcollect⟩ :=
    @Docker.collectPath_of_stored sha serde order threshold path b i hread
  refine ⟨collected, hnodup, hvisited, fun p => ?_, hcollect⟩
  rw [hpaths, collectedAt_of_stored hstored, h.visited_iff, List.mem_append]
  grind

theorem Collects.collectPath_of_stored {before : List String} {b : BatchDeletion} {i : StoredImage}
    (h : Collects sha serde st before b) (hread : storedImage? serde b.storage path = some i)
    (hstored : storedImage? serde st path = some i)
    (haccepted : ∀ q ∈ collectedAt sha serde st before path, st.rejects (.ofString q) = false) :
    ∃ collected : Collected, (b.collected.paths.Nodup → collected.paths.Nodup) ∧
      (∀ p, p ∈ collected.paths ↔
        p ∈ collectedAt sha serde st before path ∨ p ∈ b.collected.paths) ∧
      ∃ b', flushIfNeeded order true threshold { b with collected := collected } = (b', .ok ()) ∧
        BatchDeletion.collectPath sha serde order true threshold path b =
          ({ b' with deletedPackages := b'.deletedPackages + 1 }, some (.ok ())) ∧
        Collects sha serde st (before ++ [path])
          { b' with deletedPackages := b'.deletedPackages + 1 } ∧
        Reports serde path b { b' with deletedPackages := b'.deletedPackages + 1 } := by
  obtain ⟨collected, hnodup, hvisited, hmore, hcollect⟩ :=
    @Collects.collectPath_eq sha serde order threshold st path before b i h hread hstored
  have hcovers : Covers st { b with collected := collected }
      (collectedPaths sha serde st [] (before ++ [path])) := by
    rw [collectedPaths_concat]
    exact h.covers.collect haccepted hmore
  obtain ⟨b', hflush, hflushes⟩ :=
    @flushIfNeeded_succeeds order threshold { b with collected := collected } hcovers.accepted
  have hcovers' := hcovers.flush hflushes
  refine ⟨collected, hnodup, hmore, b', hflush, by rw [hcollect, hflush, countPackage],
    ⟨hcovers'.of_eq rfl rfl rfl, fun d => ?_⟩,
    .present i hread hflushes.missing_eq hflushes.rejected_eq
      (congrArg (· + 1) hflushes.deletedPackages_eq)⟩
  show d ∈ b'.collected.visited ↔ _
  rw [hflushes.visited_eq, hvisited, h.visited_iff, digestsOf_concat]
  grind

theorem Collects.of_not_stored
    (h : Collects sha serde st before b) (hstored : storedImage? serde st path = none) :
    Collects sha serde st (before ++ [path]) (reportAbsent path b) := by
  refine ⟨?_, fun d => ?_⟩
  · rw [collectedPaths_concat, collectedAt, hstored, List.append_nil]
    exact h.covers.reportAbsent
  · rw [collected_reportAbsent, h.visited_iff, digestsOf_concat]
    simp [hstored]

theorem Collects.of_copy
    (h : Collects sha serde st before b) (hread : storedImage? serde b.storage path = none)
    (hstored : storedImage? serde st path = some i)
    (hcopies : ∀ p ∈ before, Copies sha serde st p path) :
    Collects sha serde st (before ++ [path]) (reportAbsent path b) := by
  have hdeleted := (h.covers.read hstored).resolve_left (by rw [hread]; exact nofun)
  obtain ⟨hdigest, hkeys⟩ := deleted_collectedAt_of_copy hstored hcopies hdeleted.2
  refine ⟨h.covers.reportAbsent.congr fun key => (hkeys key).symm, fun d => ?_⟩
  rw [collected_reportAbsent, h.visited_iff, digestsOf_concat]
  grind

theorem Collects.collectPath {before : List String} {b : BatchDeletion}
    (h : Collects sha serde st before b)
    (haccepted : ∀ q ∈ footprints sha serde st [path], st.rejects (.ofString q) = false)
    (hcopies : ∀ p ∈ before, Copies sha serde st p path) :
    ∃ b', collectPath sha serde order true threshold path b = (b', some (.ok ())) ∧
      Collects sha serde st (before ++ [path]) b' := by
  cases hread : storedImage? serde b.storage path with
  | none =>
    refine ⟨_, collectPath_of_not_stored hread, ?_⟩
    cases hstored : storedImage? serde st path with
    | none => exact h.of_not_stored hstored
    | some i => exact h.of_copy hread hstored hcopies
  | some i =>
    have hstored : storedImage? serde st path = some i := by
      obtain ⟨flushed, hst, -⟩ := h.covers.leaves
      exact ((storedImage?_of_leaves hst).mp hread).1
    obtain ⟨collected, -, -, b', -, hcollect, h', -⟩ :=
      @Collects.collectPath_of_stored sha serde order threshold st path before b i h hread hstored
        fun q hq => haccepted q (collectedAt_subset before path hq)
    exact ⟨_, hcollect, h'⟩

theorem footprints_subset {paths' : List String} (h : paths ⊆ paths') :
    footprints sha serde st paths ⊆ footprints sha serde st paths' := by
  grind [footprints]

theorem Collects.collectPaths {before rest : List String} {b : BatchDeletion}
    (h : Collects sha serde st before b)
    (haccepted : ∀ q ∈ footprints sha serde st (before ++ rest), st.rejects (.ofString q) = false)
    (hcopies : (before ++ rest).Pairwise (Copies sha serde st)) :
    ∃ b', collectPaths sha serde order true threshold rest b = (b', some (.ok ())) ∧
      Collects sha serde st (before ++ rest) b' := by
  induction rest generalizing before b with
  | nil => exact ⟨b, rfl, by rwa [List.append_nil]⟩
  | cons path rest ih =>
    have hsingle : [path] ⊆ before ++ path :: rest := fun p hp =>
      List.mem_append_right _ (List.mem_singleton.mp hp ▸ List.mem_cons_self)
    have hbefore : ∀ p ∈ before, Copies sha serde st p path := fun p hp =>
      (List.pairwise_append.mp hcopies).2.2 p hp path List.mem_cons_self
    obtain ⟨b₁, hcollect, h₁⟩ := @Collects.collectPath sha serde order threshold st path
      before b h (fun q hq => haccepted q (footprints_subset hsingle hq)) hbefore
    have hsplit : before ++ path :: rest = (before ++ [path]) ++ rest := by simp
    rw [hsplit] at haccepted hcopies ⊢
    obtain ⟨b', hrest, h'⟩ := ih h₁ haccepted hcopies
    refine ⟨b', ?_, h'⟩
    rw [BatchDeletion.collectPaths, hcollect]
    exact hrest

/-- The lists that a batch reports are those of another state. -/
structure SameReport (b b' : BatchDeletion) : Prop where
  missing_eq : b'.missing = b.missing
  rejected_eq : b'.rejected = b.rejected
  deletedPackages_eq : b'.deletedPackages = b.deletedPackages

theorem SameReport.trans {b'' : BatchDeletion} (h : SameReport b b')
    (h' : SameReport b' b'') : SameReport b b'' :=
  ⟨h'.missing_eq.trans h.missing_eq, h'.rejected_eq.trans h.rejected_eq,
    h'.deletedPackages_eq.trans h.deletedPackages_eq⟩

theorem Flushes.sameReport (h : Flushes b b') : SameReport b b' :=
  ⟨h.missing_eq, h.rejected_eq, h.deletedPackages_eq⟩

theorem Covers.collectSidecars {b : BatchDeletion} {paths rest : List String}
    (h : Covers st b paths) (haccepted : ∀ p ∈ rest, st.rejects (.ofString (tagMeta p)) = false) :
    ∃ b', collectSidecars order true threshold rest b = (b', .ok ()) ∧
      Covers st b' (paths ++ rest.map tagMeta) ∧ SameReport b b' := by
  induction rest generalizing paths b with
  | nil => exact ⟨b, rfl, by rwa [List.map_nil, List.append_nil], rfl, rfl, rfl⟩
  | cons path rest ih =>
    have hmore : ∀ p, p ∈ b.collected.paths.insert (tagMeta path) ↔
        p ∈ [tagMeta path] ∨ p ∈ b.collected.paths := by
      intro p
      rw [List.mem_insert_iff, List.mem_singleton]
    have hcovers : Covers st (b.setPaths (b.collected.paths.insert (tagMeta path)))
        (paths ++ [tagMeta path]) := by
      refine h.collect (fun p hp => ?_) hmore
      rw [List.mem_singleton.mp hp]
      exact haccepted path List.mem_cons_self
    obtain ⟨b₁, hflush, hflushes⟩ := @flushIfNeeded_succeeds order threshold _ hcovers.accepted
    obtain ⟨b', hrest, h', hreport⟩ := ih (hcovers.flush hflushes)
      fun p hp => haccepted p (List.mem_cons_of_mem path hp)
    have hset : SameReport b (b.setPaths (b.collected.paths.insert (tagMeta path))) :=
      ⟨rfl, rfl, rfl⟩
    refine ⟨b', ?_, ?_, (hset.trans hflushes.sameReport).trans hreport⟩
    · rw [BatchDeletion.collectSidecars, hflush]
      exact hrest
    · rwa [List.append_assoc, List.singleton_append] at h'

theorem Collects.finish {found : List String} (h : Collects sha serde st found b)
    (haccepted : ∀ p ∈ paths, st.rejects (.ofString (tagMeta p)) = false)
    (hloop : BatchDeletion.collectPaths sha serde order true threshold paths (.new st) =
      (b, some (.ok ()))) :
    ∃ b', collectDockerDeletionsBatch sha serde order true threshold st paths =
        (b', some (.ok ())) ∧
      Covers st b' (collectedPaths sha serde st [] found ++ paths.map tagMeta) ∧
      b'.collected.paths = [] ∧ SameReport b b' := by
  obtain ⟨b₂, hsidecars, h₂, hreport⟩ :=
    @Covers.collectSidecars order threshold st b _ paths h.covers haccepted
  obtain ⟨b₃, hflush, hflushes, hempty⟩ := @flush_succeeds order b₂ h₂.accepted
  refine ⟨b₃, ?_, h₂.flush hflushes, hempty, hreport.trans hflushes.sameReport⟩
  unfold collectDockerDeletionsBatch
  simp only [hloop, hsidecars, hflush]

theorem Covers.leaves_of_empty (h : Covers st b paths)
    (hempty : b.collected.paths = []) : Leaves st (paths.map .ofString) b.storage := by
  obtain ⟨flushed, hst, hdeleted, -⟩ := h.leaves
  refine hst.congr fun key => ?_
  rw [← hdeleted, hempty, List.map_nil, List.append_nil]

/-- The images `img` and `oth` with the tag `a` on the same manifest, and its layer in each. -/
def twoImages : DynStorage where
  backend := .s3
  objects := ((((∅ : Objects).put ["v2", "img", "blobs", "sha256:aa"] [0xaa]).put
    ["v2", "img", "manifests", "a"] layeredManifest).put
    ["v2", "oth", "blobs", "sha256:aa"] [0xaa]).put
    ["v2", "oth", "manifests", "a"] layeredManifest
  staging := ∅

end Pkgly.Docker
