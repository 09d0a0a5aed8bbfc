import Mathlib.Data.List.Dedup
import Pkgly.Storage.DynStorage

/-!
# What the storage operations change

`eq_of_saveFile` and `eq_of_deleteFile` say what a successful operation leaves, and
`get_of_deleteFilesBatch` what a successful batch leaves: every object that no path of the batch
deletes, so that the order of the batch does not matter.
-/

namespace Pkgly.DynStorage

variable {st st' : DynStorage} {path : StoragePath} {content : Bytes}

theorem eq_of_saveFile (h : st.saveFile content path = .ok st') :
    st' = { st with objects := st.objects.put path.components content } := by
  unfold saveFile pathForCreation at h
  split_ifs at h
  · cases h
  · cases h
  · simp only [bind, Except.bind] at h
    split_ifs at h
    exact (Except.ok.inj h).symm

theorem saveFile_of_free (path : StoragePath) (content : Bytes)
    (haccepted : st.rejects path = false)
    (hancestor : Objects.hasFileAncestor st.objects path.components = false)
    (hfree : (path.components.isEmpty || Objects.isDir st.objects path.components) = false) :
    st.saveFile content path =
      .ok { st with objects := st.objects.put path.components content } := by
  have hkey : st.pathForCreation path = .ok path.components := by
    unfold pathForCreation
    rw [haccepted, hancestor, if_neg Bool.false_ne_true, if_neg Bool.false_ne_true]
  unfold saveFile
  rw [hkey]
  change (if (_ && (_ || _)) = true then _ else _) = _
  rw [hfree, Bool.and_false, if_neg Bool.false_ne_true]

theorem rejects_of_saveFile (h : st.saveFile content path = .ok st') : st.rejects path = false := by
  unfold saveFile pathForCreation at h
  split_ifs at h with hrejects
  · cases h
  · cases h
  · exact Bool.not_eq_true _ ▸ hrejects

theorem openFile_of_get (content : Bytes) (haccepted : st.rejects path = false)
    (hfile : path.isDirectory = false)
    (hstaging : ∀ key, st.staging.get key = none)
    (hget : st.objects.get path.components = some content) :
    st.openFile path = .ok (some (.file content)) := by
  have hlookup : st.lookupKey? path = some path.components := by
    unfold lookupKey?
    rw [hfile]
    cases st.backend <;> rfl
  simp_all [openFile, Option.bind_some]

theorem rejects_congr {path' : StoragePath} (hbackend : st'.backend = st.backend)
    (h : path'.components = path.components) : st'.rejects path' = st.rejects path := by
  unfold rejects StoragePath.validate
  rw [hbackend, h]

theorem mem_children_iff {objects : Objects} {dir : List String} {name : String} :
    (name, true) ∈ Objects.children objects dir ↔
      (∃ content, objects.get (dir ++ [name]) = some content) ∧
        Objects.isHiddenName name = false := by
  rw [Objects.children, List.mem_dedup, List.mem_filterMap, ← Store.mem_keys_iff]
  constructor
  · rintro ⟨key, hkey, hentry⟩
    split_ifs at hentry with hbelow
    obtain ⟨habove, -⟩ := (Bool.and_eq_true _ _).mp hbelow
    obtain ⟨tail, rfl⟩ := List.isPrefixOf_iff_prefix.mp habove
    grind
  · rintro ⟨hkey, hhidden⟩
    refine ⟨dir ++ [name], hkey, ?_⟩
    simp_all [Objects.below, Bool.false_eq_true]

theorem nodup_children (objects : Objects) (dir : List String) :
    (Objects.children objects dir).Nodup :=
  List.nodup_dedup _

theorem isDir_of_get {objects : Objects} {dir : List String} {name : String} {content : Bytes}
    (h : objects.get (dir ++ [name]) = some content) : Objects.isDir objects dir = true := by
  refine List.any_eq_true.mpr ⟨dir ++ [name], Store.mem_keys_iff.mpr ⟨content, h⟩, ?_⟩
  simp [Objects.below]

theorem eq_of_deleteFile {found : Bool} (h : st.deleteFile path = .ok (st', found)) :
    st' = st.erase path := by
  unfold deleteFile at h
  split_ifs at h
  exact (Prod.mk.inj (Except.ok.inj h)).1.symm

theorem exists_deleteFile (h : st.rejects path = false) :
    ∃ found, st.deleteFile path = .ok (st.erase path, found) := by
  unfold deleteFile
  rw [h]
  exact ⟨_, rfl⟩

@[simp] theorem backend_erase : (st.erase path).backend = st.backend := rfl

theorem get_erase (key : List String) : (st.erase path).objects.get key =
    if deletes st.backend path key then none else st.objects.get key :=
  Store.get_removeIf _ _ _

theorem getStaging_erase (key : List String) : (st.erase path).staging.get key =
    if deletes st.backend path key then none else st.staging.get key :=
  Store.get_removeIf _ _ _

theorem eq_of_appendFile_local (hb : st.backend = .local)
    (h : st.appendFile content path = .ok st') :
    st' = { st with
      objects := st.objects.put path.components
        ((st.objects.get path.components).getD [] ++ content) } := by
  obtain ⟨backend, objects, staging⟩ := st
  obtain rfl : backend = .local := hb
  unfold appendFile pathForCreation at h
  split_ifs at h
  · cases h
  · cases h
  · simp only [bind, Except.bind] at h
    split_ifs at h
    exact (Except.ok.inj h).symm

theorem eq_of_appendFile_s3 (hb : st.backend = .s3)
    (h : st.appendFile content path = .ok st') :
    st' = { st with
      staging := st.staging.put path.components
        ((st.staging.get path.components).getD ((st.objects.get path.components).getD [])
          ++ content) } := by
  obtain ⟨backend, objects, staging⟩ := st
  obtain rfl : backend = .s3 := hb
  unfold appendFile pathForCreation at h
  split_ifs at h
  · cases h
  · cases h
  · simp only [bind, Except.bind] at h
    exact (Except.ok.inj h).symm

theorem eq_of_moveFile_false {src dst : StoragePath} (h : st.moveFile src dst = .ok (st', false)) :
    st' = st := by
  unfold moveFile at h
  cases hb : st.backend with
  | «local» =>
    simp only [hb] at h
    split_ifs at h
    split at h
    · exact (Prod.mk.inj (Except.ok.inj h)).1.symm
    · cases hk : st.pathForCreation dst with
      | error e => simp [hk, bind, Except.bind] at h
      | ok key =>
        simp only [hk, bind, Except.bind] at h
        split_ifs at h
        cases (Prod.mk.inj (Except.ok.inj h)).2
  | s3 =>
    grind

theorem eq_of_moveFile_local {src dst : StoragePath} (hb : st.backend = .local)
    (h : st.moveFile src dst = .ok (st', true)) :
    ∃ c, st.objects.get src.components = some c ∧
      st' = { st with objects := (st.objects.remove src.components).put dst.components c } := by
  obtain ⟨backend, objects, staging⟩ := st
  obtain rfl : backend = .local := hb
  simp only [moveFile] at h
  split_ifs at h
  split at h
  · cases (Prod.mk.inj (Except.ok.inj h)).2
  · rename_i c hc
    unfold pathForCreation at h
    split_ifs at h
    · cases h
    · cases h
    · simp only [bind, Except.bind] at h
      split_ifs at h
      exact ⟨c, hc, (Prod.mk.inj (Except.ok.inj h)).1.symm⟩

/-- On S3 a move of a staged upload drops it and stores its bytes at the destination, unless an
object of that size is there already. -/
theorem eq_of_moveFile_s3 {src dst : StoragePath} (hb : st.backend = .s3)
    (hobj : st.objects.get src.components = none) (h : st.moveFile src dst = .ok (st', true)) :
    ∃ c objects, st.staging.get src.components = some c ∧
      st' = { st with objects, staging := st.staging.remove src.components } ∧
      (objects = st.objects.remove src.components ∨
        objects = (st.objects.remove src.components).put dst.components c) := by
  obtain ⟨backend, objects, staging⟩ := st
  obtain rfl : backend = .s3 := hb
  simp only [moveFile, lookupKey?] at h
  grind

/-- Some path of `paths` deletes `key`. -/
def Deleted (backend : Backend) (paths : List StoragePath) (key : List String) : Prop :=
  ∃ path ∈ paths, deletes backend path key = true

instance (backend : Backend) (paths : List StoragePath) (key : List String) :
    Decidable (Deleted backend paths key) :=
  inferInstanceAs (Decidable (∃ path ∈ paths, deletes backend path key = true))

variable {paths paths' : List StoragePath}

theorem deleted_cons {backend : Backend} {key : List String} : Deleted backend (path :: paths) key ↔
      deletes backend path key = true ∨ Deleted backend paths key := by
  simp [Deleted]

theorem deleteFilesBatch_succeeds (h : ∀ path ∈ paths, st.rejects path = false) :
    ∃ st', st.deleteFilesBatch paths = (st', .ok ()) := by
  induction paths generalizing st with
  | nil => exact ⟨st, rfl⟩
  | cons path paths ih =>
    obtain ⟨found, hd⟩ := exists_deleteFile (h path List.mem_cons_self)
    simp_all [rejects, deleteFilesBatch]

theorem rejects_of_deleteFilesBatch
    (h : st.deleteFilesBatch paths = (st', .ok ())) : ∀ path ∈ paths, st.rejects path = false := by
  induction paths generalizing st with
  | nil => exact fun path hpath => absurd hpath List.not_mem_nil
  | cons path paths ih =>
    rw [deleteFilesBatch] at h
    cases hd : st.deleteFile path with
    | error e =>
      rw [hd] at h
      cases (Prod.mk.inj h).2
    | ok r =>
      obtain ⟨st₁, found⟩ := r
      have hst₁ := eq_of_deleteFile hd
      rw [hd] at h
      intro p hp
      rcases List.mem_cons.mp hp with rfl | hp
      · unfold deleteFile at hd
        split_ifs at hd with hrejects
        exact Bool.not_eq_true _ ▸ hrejects
      · have hrest := ih h p hp
        rwa [hst₁] at hrest

/-- A successful batch leaves exactly the objects that none of its paths deletes. -/
theorem get_of_deleteFilesBatch
    (h : st.deleteFilesBatch paths = (st', .ok ())) (key : List String) (c : Bytes) :
    st'.objects.get key = some c ↔
      st.objects.get key = some c ∧ ¬ Deleted st.backend paths key := by
  induction paths generalizing st with
  | nil =>
    obtain rfl := (Prod.mk.inj h).1
    simp [Deleted]
  | cons path paths ih =>
    rw [deleteFilesBatch] at h
    cases hd : st.deleteFile path with
    | error e =>
      rw [hd] at h
      cases (Prod.mk.inj h).2
    | ok r =>
      obtain ⟨st₁, found⟩ := r
      rw [hd] at h
      obtain rfl := eq_of_deleteFile hd
      rw [ih h, get_erase, backend_erase, deleted_cons, not_or]
      by_cases hk : deletes st.backend path key = true <;> simp [hk]

theorem deleted_append {backend : Backend}
    {key : List String} : Deleted backend (paths ++ paths') key ↔
      Deleted backend paths key ∨ Deleted backend paths' key := by
  simp [Deleted, or_and_right, exists_or]

theorem Deleted.of_subset {backend : Backend}
    {key : List String} (hsub : paths ⊆ paths') (h : Deleted backend paths key) :
    Deleted backend paths' key := by
  obtain ⟨path, hpath, hdeletes⟩ := h
  exact ⟨path, hsub hpath, hdeletes⟩

/-! ### What is left of a storage -/

/-- `st'` is what is left of `st` when `paths` are deleted. -/
structure Leaves (st : DynStorage) (paths : List StoragePath) (st' : DynStorage) : Prop where
  backend_eq : st'.backend = st.backend
  objects_get : ∀ key, st'.objects.get key =
    if Deleted st.backend paths key then none else st.objects.get key
  staging_get : ∀ key, st'.staging.get key =
    if Deleted st.backend paths key then none else st.staging.get key

theorem Leaves.refl (st : DynStorage) : Leaves st [] st where
  backend_eq := rfl
  objects_get key := (if_neg (by simp [Deleted])).symm
  staging_get key := (if_neg (by simp [Deleted])).symm

theorem Leaves.trans {st'' : DynStorage} (h : Leaves st paths st') (h' : Leaves st' paths' st'') :
    Leaves st (paths ++ paths') st'' where
  backend_eq := h'.backend_eq.trans h.backend_eq
  objects_get key := by
    rw [h'.objects_get, h.objects_get, h.backend_eq]
    by_cases hkey : Deleted st.backend paths key <;> simp [deleted_append, hkey]
  staging_get key := by
    rw [h'.staging_get, h.staging_get, h.backend_eq]
    by_cases hkey : Deleted st.backend paths key <;> simp [deleted_append, hkey]

theorem Leaves.congr (h : Leaves st paths st')
    (heq : ∀ key, Deleted st.backend paths key ↔ Deleted st.backend paths' key) :
    Leaves st paths' st' where
  backend_eq := h.backend_eq
  objects_get key := by simp only [h.objects_get, heq]
  staging_get key := by simp only [h.staging_get, heq]

theorem leaves_erase (st : DynStorage) (path : StoragePath) :
    Leaves st [path] (st.erase path) where
  backend_eq := rfl
  objects_get key := by simp [get_erase, Deleted]
  staging_get key := by simp [getStaging_erase, Deleted]

theorem leaves_of_deleteFilesBatch
    (h : st.deleteFilesBatch paths = (st', .ok ())) : Leaves st paths st' := by
  induction paths generalizing st with
  | nil =>
    obtain rfl := (Prod.mk.inj h).1
    exact .refl st
  | cons path paths ih =>
    rw [deleteFilesBatch] at h
    cases hd : st.deleteFile path with
    | error e =>
      rw [hd] at h
      cases (Prod.mk.inj h).2
    | ok r =>
      obtain ⟨st₁, found⟩ := r
      rw [hd] at h
      obtain rfl := eq_of_deleteFile hd
      exact (leaves_erase st path).trans (ih h)

theorem openFile_eq_file_iff {content : Bytes} : st.openFile path = .ok (some (.file content)) ↔
    st.rejects path = false ∧
      ((st.lookupKey? path).bind st.staging.get = some content ∨
        (st.lookupKey? path).bind st.staging.get = none ∧
          (st.lookupKey? path).bind st.objects.get = some content) := by
  unfold openFile
  grind

theorem Leaves.rejects_eq (h : Leaves st paths st')
    (location : StoragePath) : st'.rejects location = st.rejects location := by
  unfold rejects
  rw [h.backend_eq]

theorem Leaves.openFile_eq_file_iff (h : Leaves st paths st')
    {location : StoragePath} {content : Bytes} :
    st'.openFile location = .ok (some (.file content)) ↔
      st.openFile location = .ok (some (.file content)) ∧
        ¬ Deleted st.backend paths location.components := by
  have hlookup : st'.lookupKey? location = st.lookupKey? location := by
    unfold lookupKey?
    rw [h.backend_eq]
  have hkey : ∀ key, st.lookupKey? location = some key → key = location.components := by
    intro key hkey
    unfold lookupKey? at hkey
    split at hkey
    · exact (Option.some.inj hkey).symm
    · split_ifs at hkey
      exact (Option.some.inj hkey).symm
  rw [DynStorage.openFile_eq_file_iff, DynStorage.openFile_eq_file_iff, h.rejects_eq, hlookup]
  cases hlocation : st.lookupKey? location with
  | none => simp
  | some key =>
    obtain rfl := hkey key hlocation
    simp only [Option.bind_some, h.objects_get, h.staging_get]
    by_cases hdeleted : Deleted st.backend paths location.components <;> simp [hdeleted]

end Pkgly.DynStorage
