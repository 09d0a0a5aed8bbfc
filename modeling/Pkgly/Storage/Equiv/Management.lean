import Pkgly.Storage.Management

/-!
# Database, runtime and files in step

`inStep_iff`: in every run of `update_storage`, `delete_storage` and `delete_repository` from a server
on which rows, runtime storages, loaded repositories and files belong together, they do so in every
state on the way iff no update reaches a storage with repositories, no storage fails to be created
after an update has changed its row, and no repository keeps files after its row has been deleted
(`InOrder`).

`delete_storage` needs no condition: it removes files while the rows are still there, and the runtime
storage and the repositories after the rows are gone.
-/

namespace Pkgly.StorageManagement

namespace Site

variable {s₀ s s' : Site} {a : ManagementAction}

/-! ### What is asked of the server -/

/-- Rows, runtime storages, loaded repositories and files belong together, and repositories whose
deletion was not requested have the files they had in `s₀`. -/
structure InStep (s₀ s : Site) : Prop where
  /-- Every row has a storage with exactly its configuration. -/
  runtime : ∀ id row, s.storageRows.get id = some row →
    ∃ storage, s.storages.get id = some storage ∧ storage.config = row.config
  /-- Every loaded repository holds the storage of its row. -/
  holds : ∀ repository storage row, s.repositories.get repository = some storage →
    s.repositoryRows.get repository = some row → s.storages.get row.storageId = some storage
  /-- Nothing is taken from a repository unless its deletion was requested. -/
  untouched : ∀ repository storage, s.repositories.get repository = some storage →
    repository ∉ s.requested → (∃ row, s.repositoryRows.get repository = some row) ∧
      s.files.get (storage.config.root, repository) = s₀.files.get (storage.config.root, repository)
  /-- Where there are files, there is a row by which their deletion finds them. -/
  retryable : ∀ root repository names, s.files.get (root, repository) = some names → names ≠ [] →
    ∃ row storage, s.repositoryRows.get repository = some row ∧
      s.storages.get row.storageId = some storage ∧ storage.config.root = root

/-- What holds on every server: the repositories in the table are loaded and belong to a storage in
the table, and the storages are numbered. -/
structure WellFormed (s : Site) : Prop where
  loaded : ∀ repository row, s.repositoryRows.get repository = some row →
    ∃ storage, s.repositories.get repository = some storage
  stored : ∀ repository row, s.repositoryRows.get repository = some row →
    ∃ storageRow, s.storageRows.get row.storageId = some storageRow
  numbered : ∀ repository storage, s.repositories.get repository = some storage →
    storage.creation < s.created

/-- The condition on a call: an update that reaches its `UPDATE` finds no repository in the storage
and the new storage is created, or nothing changes; a deletion that has deleted the row leaves no
file. -/
def inOrder (s : Site) : ManagementAction → Bool
  | .updateStorage auth id config outcome =>
    match s.checkUpdate auth id config outcome with
    | .error _ => true
    | .ok existing =>
      if outcome.createStorage then (s.repositoriesOf id).isEmpty
      else decide (config = existing.config)
  | .deleteRepository auth repository outcome =>
    match s.checkDeleteRepository auth repository outcome with
    | .error _ => true
    | .ok storage =>
      match outcome.removal with
      | .done => true
      | .failed kept =>
        (s.files.get (storage.config.root, repository)).all fun names =>
          (names.filter kept.contains).isEmpty
  | .deleteStorage _ _ _ _ => true

/-! ### The start -/

/-! ### Repositories and files -/

theorem mem_repositoriesOf {id repository : Uuid} :
    repository ∈ s.repositoriesOf id ↔
      ∃ row, s.repositoryRows.get repository = some row ∧ row.storageId = id := by
  unfold repositoriesOf
  rw [List.mem_map]
  constructor
  · rintro ⟨e, he, rfl⟩
    rw [List.mem_insertionSort, List.mem_filter] at he
    exact ⟨e.2, Store.get_eq_some_iff.mpr he.1, by simpa using he.2⟩
  · rintro ⟨row, hrow, hid⟩
    refine ⟨⟨repository, row⟩, ?_, rfl⟩
    rw [List.mem_insertionSort, List.mem_filter]
    exact ⟨Store.get_eq_some_iff.mp hrow, by simpa using hid⟩

def Shrinks (files files' : Store (String × Uuid) (List String)) : Prop :=
  ∀ key names', files'.get key = some names' → names' ≠ [] →
    ∃ names, files.get key = some names ∧ names ≠ []

theorem shrinks_removeFiles (files : Store (String × Uuid) (List String)) (root : String)
    (repository : Uuid) (removal : Removal) :
    Shrinks files (removeFiles files root repository removal).1 := by
  intro key names' hget hne
  cases removal with
  | done =>
    have hget : (files.remove (root, repository)).get key = some names' := hget
    rw [Store.get_remove] at hget
    split_ifs at hget
    exact ⟨names', hget, hne⟩
  | failed kept =>
    unfold removeFiles at hget
    dsimp only at hget
    split at hget
    · exact ⟨names', hget, hne⟩
    · rename_i names hnames
      rw [Store.get_put] at hget
      grind

variable {files : Store (String × Uuid) (List String)}

theorem get_removeFiles_of_ne {root root' : String}
    {repository repository' : Uuid} (removal : Removal) (hne : repository' ≠ repository) :
    (removeFiles files root repository removal).1.get (root', repository') =
      files.get (root', repository') := by
  have hkey : (root', repository') ≠ (root, repository) := fun heq => hne (Prod.mk.inj heq).2
  cases removal with
  | done => exact (Store.get_remove _ _ _).trans (if_neg hkey)
  | failed kept =>
    unfold removeFiles
    dsimp only
    split
    · rfl
    · exact Store.get_put_of_ne _ _ hkey

theorem get_removeFiles_of_done {files' : Store (String × Uuid) (List String)} {root : String}
    {repository : Uuid} {removal : Removal}
    (h : removeFiles files root repository removal = (files', true)) :
    files'.get (root, repository) = none := by
  cases removal with
  | done =>
    obtain ⟨rfl, -⟩ := Prod.mk.inj h
    exact Store.get_remove_self _ _
  | failed kept =>
    grind [removeFiles, Prod.mk.inj]

theorem removeContents_spec (root : String) (removals : Uuid → Removal) (ids : List Uuid)
    (files : Store (String × Uuid) (List String)) :
    Shrinks files (removeContents root removals ids files).1 ∧
      (∀ root' repository, repository ∉ ids →
        (removeContents root removals ids files).1.get (root', repository) =
          files.get (root', repository)) ∧
      ((removeContents root removals ids files).2 = none → ∀ repository ∈ ids, ∀ names,
        (removeContents root removals ids files).1.get (root, repository) = some names →
          names = []) := by
  induction ids generalizing files with
  | nil =>
    refine ⟨fun key names hget hne => ⟨names, hget, hne⟩, fun _ _ _ => rfl, fun _ _ hmem => ?_⟩
    cases hmem
  | cons id rest ih =>
    have hshrinks := shrinks_removeFiles files root id (removals id)
    have hother : ∀ root' repository, repository ≠ id →
        (removeFiles files root id (removals id)).1.get (root', repository) =
          files.get (root', repository) := fun root' repository hne =>
      get_removeFiles_of_ne (removals id) hne
    unfold removeContents
    split
    · rename_i files' hremove
      rw [hremove] at hshrinks hother
      obtain ⟨hrest, hsame, hgone⟩ := ih files'
      refine ⟨fun key names hget hne => ?_, fun root' repository hnot => ?_, fun hnone => ?_⟩
      · obtain ⟨names', hget', hne'⟩ := hrest key names hget hne
        exact hshrinks key names' hget' hne'
      · grind
      · intro repository hmem names hget
        rcases List.mem_cons.mp hmem with rfl | hin
        · -- The files of the first one are gone, and nothing puts them back.
          grind [get_removeFiles_of_done]
        · exact hgone hnone repository hin names hget
    grind

/-! ### Calls -/

/-- Fewer files, and more requests, keep everything in step; the files of the repositories that are
not requested stay. -/
theorem InStep.shrink {requested : List Uuid} (hs : InStep s₀ s) (hshrinks : Shrinks s.files files)
    (hmore : ∀ repository ∈ s.requested, repository ∈ requested)
    (hsame : ∀ root repository, repository ∉ requested →
      files.get (root, repository) = s.files.get (root, repository)) :
    InStep s₀ { s with files := files, requested := requested } where
  runtime := hs.runtime
  holds := hs.holds
  untouched := by
    intro repository storage hstorage hnot
    obtain ⟨hrow, hfiles⟩ :=
      hs.untouched repository storage hstorage fun hmem => hnot (hmore repository hmem)
    exact ⟨hrow, (hsame _ repository hnot).trans hfiles⟩
  retryable := by
    intro root repository names hget hne
    obtain ⟨names', hget', hne'⟩ := hshrinks _ names hget hne
    exact hs.retryable root repository names' hget' hne'

section Update

variable {auth : UserPermissions} {id : Uuid} {config : StorageTypeConfig}
  {outcome : UpdateOutcome}

variable {existing : StorageRow}

theorem get_of_checkUpdate (h : s.checkUpdate auth id config outcome = .ok existing) :
    s.storageRows.get id = some existing := by
  unfold checkUpdate at h
  grind

theorem WellFormed.put_storageRow {row : StorageRow} {storages : Store Uuid RuntimeStorage}
    {created : Nat} (hs : s.WellFormed) (hle : s.created ≤ created) :
    ({ s with
      storageRows := s.storageRows.put id row
      storages := storages, created := created } : Site).WellFormed where
  loaded := hs.loaded
  stored := by
    intro repository r hr
    obtain ⟨storageRow, hget⟩ := hs.stored repository r hr
    show ∃ r', (s.storageRows.put id row).get r.storageId = some r'
    rw [Store.get_put]
    split_ifs
    · exact ⟨row, rfl⟩
    · exact ⟨storageRow, hget⟩
  numbered := by
    intro repository storage hstorage
    exact Nat.lt_of_lt_of_le (hs.numbered repository storage hstorage) hle

theorem inStep_failedUpdate (hs : InStep s₀ s) (hrow : s.storageRows.get id = some existing) :
    InStep s₀ { s with storageRows := s.storageRows.put id { existing with config } } ↔
      config = existing.config := by
  constructor
  · intro h
    obtain ⟨storage, hstorage, hconfig⟩ := h.runtime id { existing with config }
      (Store.get_put_self _ _ _)
    obtain ⟨storage', hstorage', hconfig'⟩ := hs.runtime id existing hrow
    obtain rfl := Option.some.inj (hstorage.symm.trans hstorage')
    exact hconfig.symm.trans hconfig'
  · rintro rfl
    refine ⟨fun id' row hget => ?_, hs.holds, hs.untouched, hs.retryable⟩
    have hget : (s.storageRows.put id existing).get id' = some row := hget
    rw [Store.get_put] at hget
    split_ifs at hget with hid
    · obtain rfl := Option.some.inj hget
      exact hs.runtime id' existing (by rw [hid]; exact hrow)
    · exact hs.runtime id' row hget

theorem inStep_update (hw : s.WellFormed) (hs : InStep s₀ s) : InStep s₀ { s with
      storageRows := s.storageRows.put id { existing with config },
      storages := s.storages.put id ⟨s.created, config⟩
      created := s.created + 1 } ↔ s.repositoriesOf id = [] := by
  constructor
  · intro h
    refine List.eq_nil_iff_forall_not_mem.mpr fun repository hmem => ?_
    obtain ⟨row, hrow, rfl⟩ := mem_repositoriesOf.mp hmem
    obtain ⟨storage, hstorage⟩ := hw.loaded repository row hrow
    have hheld := h.holds repository storage row hstorage hrow
    have hheld : (s.storages.put row.storageId _).get row.storageId = some storage := hheld
    rw [Store.get_put_self] at hheld
    obtain rfl := Option.some.inj hheld
    exact Nat.lt_irrefl _ (hw.numbered repository _ hstorage)
  · intro hnone
    have hne : ∀ repository row, s.repositoryRows.get repository = some row → row.storageId ≠ id := by
      intro repository row hrow hid
      have hmem := mem_repositoriesOf.mpr ⟨row, hrow, hid⟩
      rw [hnone] at hmem
      cases hmem
    refine ⟨fun id' row hget => ?_, fun repository storage row hstorage hrow => ?_, hs.untouched,
      fun root repository names hget hnames => ?_⟩
    · have hget : (s.storageRows.put id _).get id' = some row := hget
      show ∃ storage, (s.storages.put id _).get id' = some storage ∧ _
      rw [Store.get_put] at hget ⊢
      split_ifs at hget ⊢
      · obtain rfl := Option.some.inj hget
        exact ⟨_, rfl, rfl⟩
      · exact hs.runtime id' row hget
    · exact (Store.get_put_of_ne _ _ (hne repository row hrow)).trans
        (hs.holds repository storage row hstorage hrow)
    · obtain ⟨row, storage, hrow, hstorage, hroot⟩ := hs.retryable root repository names hget hnames
      grind [Store.get_put_of_ne]

theorem updateStorage_spec (hw : s.WellFormed) (hs : InStep s₀ s) :
    (s.updateStorage auth id config outcome).1.WellFormed ∧
      (InStep s₀ (s.updateStorage auth id config outcome).1 ↔
        s.inOrder (.updateStorage auth id config outcome) = true) := by
  unfold updateStorage inOrder
  dsimp only
  cases hcheck : s.checkUpdate auth id config outcome with
  | error response => exact ⟨hw, iff_of_true hs rfl⟩
  | ok existing =>
    have hrow := get_of_checkUpdate hcheck
    dsimp only
    cases outcome.createStorage with
    | false =>
      refine ⟨hw.put_storageRow (Nat.le_refl _), ?_⟩
      exact (inStep_failedUpdate hs hrow).trans decide_eq_true_iff.symm
    | true =>
      refine ⟨hw.put_storageRow (Nat.le_succ _), ?_⟩
      exact (inStep_update hw hs).trans List.isEmpty_iff.symm

end Update

section DeleteRepository

variable {auth : UserPermissions} {repository : Uuid} {outcome : DeleteRepositoryOutcome}

theorem get_of_checkDeleteRepository {storage : RuntimeStorage}
    (h : s.checkDeleteRepository auth repository outcome = .ok storage) :
    ∃ row, s.repositoryRows.get repository = some row ∧
      s.storages.get row.storageId = some storage := by
  unfold checkDeleteRepository at h
  grind

variable {files : Store (String × Uuid) (List String)}

theorem wellFormed_deleteRow
    {repositories : Store Uuid RuntimeStorage} {requested : List Uuid} (hs : s.WellFormed)
    (hsub : ∀ r storage, repositories.get r = some storage → s.repositories.get r = some storage)
    (hkept : ∀ r, r ≠ repository → repositories.get r = s.repositories.get r) : ({ s with
      repositoryRows := s.repositoryRows.remove repository, repositories := repositories,
      files := files, requested := requested } : Site).WellFormed where
  loaded := by
    intro r row hrow
    have hrow : (s.repositoryRows.remove repository).get r = some row := hrow
    rw [Store.get_remove] at hrow
    split_ifs at hrow with hne
    obtain ⟨storage, hstorage⟩ := hs.loaded r row hrow
    exact ⟨storage, (hkept r hne).trans hstorage⟩
  stored := by
    intro r row hrow
    have hrow : (s.repositoryRows.remove repository).get r = some row := hrow
    rw [Store.get_remove] at hrow
    split_ifs at hrow
    exact hs.stored r row hrow
  numbered := fun r storage hstorage => hs.numbered r storage (hsub r storage hstorage)

theorem inStep_deleteRow {repositories : Store Uuid RuntimeStorage} (hs : InStep s₀ s)
    (hsub : ∀ r storage, repositories.get r = some storage → s.repositories.get r = some storage)
    (hshrinks : Shrinks s.files files)
    (hsame : ∀ root r, r ≠ repository → files.get (root, r) = s.files.get (root, r)) :
    InStep s₀ { s with
      repositoryRows := s.repositoryRows.remove repository, repositories := repositories,
      files := files, requested := repository :: s.requested } ↔
      ∀ root names, files.get (root, repository) = some names → names = [] := by
  have hrows : ∀ r, r ≠ repository →
      (s.repositoryRows.remove repository).get r = s.repositoryRows.get r := by
    intro r hne
    rw [Store.get_remove, if_neg hne]
  constructor
  · intro h root names hget
    by_contra hne
    obtain ⟨row, storage, hrow, -⟩ := h.retryable root repository names hget hne
    grind [get, Store.get_remove_self]
  · intro hgone
    refine ⟨hs.runtime, fun r storage row hstorage hrow => ?_, fun r storage hstorage hnot => ?_,
      fun root r names hget hne => ?_⟩
    · have hrow : (s.repositoryRows.remove repository).get r = some row := hrow
      rw [Store.get_remove] at hrow
      split_ifs at hrow
      exact hs.holds r storage row (hsub r storage hstorage) hrow
    · have hnot : r ∉ repository :: s.requested := hnot
      rw [List.mem_cons, not_or] at hnot
      obtain ⟨⟨row, hrow⟩, hfiles⟩ := hs.untouched r storage (hsub r storage hstorage) hnot.2
      exact ⟨⟨row, (hrows r hnot.1).trans hrow⟩, (hsame _ r hnot.1).trans hfiles⟩
    · have hr : r ≠ repository := by
        rintro rfl
        exact hne (hgone root names hget)
      obtain ⟨names', hget', hne'⟩ := hshrinks _ names hget hne
      obtain ⟨row, storage, hrow, hstorage⟩ := hs.retryable root r names' hget' hne'
      exact ⟨row, storage, (hrows r hr).trans hrow, hstorage⟩

theorem removeFiles_leaves_nothing_iff {row : RepositoryRow} {storage : RuntimeStorage}
    (hs : InStep s₀ s) (hrow : s.repositoryRows.get repository = some row)
    (hstorage : s.storages.get row.storageId = some storage) (removal : Removal) :
    (∀ root names, (removeFiles s.files storage.config.root repository removal).1.get
        (root, repository) = some names → names = []) ↔
      ∀ names, (removeFiles s.files storage.config.root repository removal).1.get
        (storage.config.root, repository) = some names → names = [] := by
  constructor
  · exact fun h names => h _ names
  · intro h root names hget
    by_contra hne
    -- There were files below the root of the storage only.
    obtain ⟨names', hget', hne'⟩ := shrinks_removeFiles _ _ _ removal _ names hget hne
    obtain ⟨row', storage', hrow', hstorage', hroot⟩ := hs.retryable root repository names' hget' hne'
    grind

theorem removed_failed {root : String}
    {kept : List String} : (removeFiles files root repository (.failed kept)).2 = false := by
  unfold removeFiles
  dsimp only
  split <;> rfl

theorem failed_leaves_nothing_iff {root : String} {kept : List String} :
    (∀ names, (removeFiles files root repository (.failed kept)).1.get (root, repository) =
        some names → names = []) ↔
      ((files.get (root, repository)).all fun names => (names.filter kept.contains).isEmpty) =
        true := by
  unfold removeFiles
  dsimp only
  aesop

theorem deleteRepository_spec (hw : s.WellFormed) (hs : InStep s₀ s) :
    (s.deleteRepository auth repository outcome).1.WellFormed ∧
      (InStep s₀ (s.deleteRepository auth repository outcome).1 ↔
        s.inOrder (.deleteRepository auth repository outcome) = true) := by
  unfold deleteRepository inOrder
  dsimp only
  cases hcheck : s.checkDeleteRepository auth repository outcome with
  | error response => exact ⟨hw, iff_of_true hs rfl⟩
  | ok storage =>
    obtain ⟨row, hrow, hstorage⟩ := get_of_checkDeleteRepository hcheck
    have hshrinks := shrinks_removeFiles s.files storage.config.root repository outcome.removal
    have hsame : ∀ root r, r ≠ repository →
        (removeFiles s.files storage.config.root repository outcome.removal).1.get (root, r) =
          s.files.get (root, r) := fun root r hne => get_removeFiles_of_ne outcome.removal hne
    have hleft := removeFiles_leaves_nothing_iff hs hrow hstorage outcome.removal
    cases hremoval : outcome.removal with
    | done =>
      rw [hremoval] at hshrinks hsame hleft
      have hsub : ∀ r storage, (s.repositories.remove repository).get r = some storage →
          s.repositories.get r = some storage := by simp [Store.get_remove]
      refine ⟨wellFormed_deleteRow (s := s) hw hsub fun r hne => ?_, ?_⟩
      · exact (Store.get_remove _ _ _).trans (if_neg hne)
      · refine (inStep_deleteRow hs hsub hshrinks hsame).trans (hleft.trans (iff_of_true ?_ rfl))
        simp [removeFiles, Store.get_remove_self]
    | failed kept =>
      rw [hremoval] at hshrinks hsame hleft
      dsimp only
      rw [removed_failed]
      refine ⟨wellFormed_deleteRow (s := s) hw (fun _ _ h => h) fun _ _ => rfl, ?_⟩
      refine (inStep_deleteRow hs (fun _ _ h => h) hshrinks hsame).trans (hleft.trans ?_)
      exact failed_leaves_nothing_iff

end DeleteRepository

section DeleteStorage

variable {auth : UserPermissions} {id : Uuid} {cascade : Bool} {outcome : DeleteStorageOutcome}
  {ids : List Uuid}

theorem eq_of_checkDeleteStorage (h : s.checkDeleteStorage auth id cascade outcome = .ok ids) :
    ids = s.repositoriesOf id := by
  unfold checkDeleteStorage at h
  split_ifs at h
  dsimp only at h
  split_ifs at h
  exact (Except.ok.inj h).symm

/-- The removal of the files leaves the rest as it is, and where it succeeds no file below the root
of the storage. -/
theorem removeRepositories_spec (s : Site) (id : Uuid) (ids : List Uuid)
    (outcome : DeleteStorageOutcome) :
    ∃ files, (s.removeRepositories id ids outcome).1 = { s with files } ∧
      Shrinks s.files files ∧
      (∀ root repository, repository ∉ ids →
        files.get (root, repository) = s.files.get (root, repository)) ∧
      ((s.removeRepositories id ids outcome).2 = none → ∀ storage,
        s.storages.get id = some storage → ∀ repository ∈ ids, ∀ names,
          files.get (storage.config.root, repository) = some names → names = []) := by
  have hrefl : Shrinks s.files s.files := fun _ names hget hne => ⟨names, hget, hne⟩
  unfold removeRepositories
  split
  · aesop
  · split
    · exact ⟨s.files, rfl, hrefl, fun _ _ _ => rfl, fun hnone => by cases hnone⟩
    · rename_i storage hstorage
      obtain ⟨hshrinks, hsame, hgone⟩ :=
        removeContents_spec storage.config.root outcome.removals ids s.files
      refine ⟨_, rfl, hshrinks, hsame, fun hnone storage' hstorage' => ?_⟩
      obtain rfl := Option.some.inj (hstorage.symm.trans hstorage')
      exact hgone (Option.map_eq_none_iff.mp hnone)

theorem WellFormed.withFiles {files : Store (String × Uuid) (List String)}
    {requested : List Uuid} (hs : s.WellFormed) :
    ({ s with files := files, requested := requested } : Site).WellFormed :=
  ⟨hs.loaded, hs.stored, hs.numbered⟩

theorem get_dropStorage {repository : Uuid} {row : RepositoryRow} :
    (s.dropStorage id ids).repositoryRows.get repository = some row ↔
      s.repositoryRows.get repository = some row ∧ row.storageId ≠ id := by
  unfold dropStorage
  dsimp only
  rw [Store.get_removeIf]
  grind

theorem get_repositories_dropStorage {repository : Uuid} :
    (s.dropStorage id ids).repositories.get repository =
      if repository ∈ ids then none else s.repositories.get repository := by
  unfold dropStorage
  dsimp only
  rw [Store.get_removeIf]
  simp only [List.contains_iff_mem]

theorem wellFormed_dropStorage (hs : s.WellFormed)
    (hids : ∀ repository, repository ∈ ids ↔
      ∃ row, s.repositoryRows.get repository = some row ∧ row.storageId = id) :
    (s.dropStorage id ids).WellFormed where
  loaded := by
    intro repository row hrow
    obtain ⟨hrow, hne⟩ := get_dropStorage.mp hrow
    obtain ⟨storage, hstorage⟩ := hs.loaded repository row hrow
    have hnot : repository ∉ ids := by grind
    refine ⟨storage, ?_⟩
    rw [get_repositories_dropStorage, if_neg hnot]
    exact hstorage
  stored := by
    intro repository row hrow
    obtain ⟨hrow, hne⟩ := get_dropStorage.mp hrow
    obtain ⟨storageRow, hget⟩ := hs.stored repository row hrow
    exact ⟨storageRow, (Store.get_remove _ _ _).trans ((if_neg hne).trans hget)⟩
  numbered := by
    intro repository storage hstorage
    rw [get_repositories_dropStorage] at hstorage
    split_ifs at hstorage
    exact hs.numbered repository storage hstorage

theorem inStep_dropStorage (hs : InStep s₀ s)
    (hids : ∀ repository, repository ∈ ids ↔
      ∃ row, s.repositoryRows.get repository = some row ∧ row.storageId = id)
    (hgone : ∀ storage, s.storages.get id = some storage → ∀ repository ∈ ids, ∀ names,
      s.files.get (storage.config.root, repository) = some names → names = []) :
    InStep s₀ (s.dropStorage id ids) where
  runtime := by
    intro id' row hget
    have hget : (s.storageRows.remove id).get id' = some row := hget
    rw [Store.get_remove] at hget
    split_ifs at hget with hne
    obtain ⟨storage, hstorage, hconfig⟩ := hs.runtime id' row hget
    exact ⟨storage, (Store.get_remove _ _ _).trans ((if_neg hne).trans hstorage), hconfig⟩
  holds := by
    intro repository storage row hstorage hrow
    rw [get_repositories_dropStorage] at hstorage
    split_ifs at hstorage
    obtain ⟨hrow, hne⟩ := get_dropStorage.mp hrow
    refine (Store.get_remove _ _ _).trans ((if_neg hne).trans ?_)
    exact hs.holds repository storage row hstorage hrow
  untouched := by
    intro repository storage hstorage hnot
    rw [get_repositories_dropStorage] at hstorage
    split_ifs at hstorage with hmem
    obtain ⟨⟨row, hrow⟩, hfiles⟩ := hs.untouched repository storage hstorage hnot
    refine ⟨⟨row, get_dropStorage.mpr ⟨hrow, fun hid => ?_⟩⟩, hfiles⟩
    exact hmem ((hids repository).mpr ⟨row, hrow, hid⟩)
  retryable := by
    intro root repository names hget hne
    obtain ⟨row, storage, hrow, hstorage, hroot⟩ := hs.retryable root repository names hget hne
    have hid : row.storageId ≠ id := by
      rintro rfl
      subst hroot
      exact hne (hgone storage hstorage repository ((hids repository).mpr ⟨row, hrow, rfl⟩) names hget)
    refine ⟨row, storage, get_dropStorage.mpr ⟨hrow, hid⟩, ?_, hroot⟩
    exact (Store.get_remove _ _ _).trans ((if_neg hid).trans hstorage)

theorem deleteStorage_spec (hw : s.WellFormed) (hs : InStep s₀ s) :
    (s.deleteStorage auth id cascade outcome).1.WellFormed ∧
      InStep s₀ (s.deleteStorage auth id cascade outcome).1 := by
  unfold deleteStorage
  cases hcheck : s.checkDeleteStorage auth id cascade outcome with
  | error response => exact ⟨hw, hs⟩
  | ok ids =>
    obtain rfl := eq_of_checkDeleteStorage hcheck
    obtain ⟨files, hstate, hshrinks, hsame, hgone⟩ :=
      removeRepositories_spec (s.request (s.repositoriesOf id)) id (s.repositoriesOf id) outcome
    have hmore : ∀ repository ∈ s.requested,
        repository ∈ s.repositoriesOf id ++ s.requested := fun _ => List.mem_append_right _
    have ht : InStep s₀ { s.request (s.repositoriesOf id) with files } := by
      refine hs.shrink hshrinks hmore fun root repository hnot => hsame root repository fun hmem => ?_
      exact hnot (List.mem_append_left _ hmem)
    have hwt : ({ s.request (s.repositoriesOf id) with files } : Site).WellFormed := hw.withFiles
    dsimp only
    generalize hremove : (s.request (s.repositoriesOf id)).removeRepositories id
      (s.repositoriesOf id) outcome = removed at hstate hgone
    obtain ⟨t, failure⟩ := removed
    obtain rfl : t = _ := hstate
    cases failure with
    | some response => exact ⟨hwt, ht⟩
    | none =>
      dsimp only
      split
      · exact ⟨hwt, ht⟩
      · have hids : ∀ repository, repository ∈ s.repositoriesOf id ↔
            ∃ row, s.repositoryRows.get repository = some row ∧ row.storageId = id :=
          fun _ => mem_repositoriesOf
        exact ⟨wellFormed_dropStorage hwt hids, inStep_dropStorage ht hids (hgone rfl)⟩

end DeleteStorage

/-! ### Runs -/

theorem inStep_of_step (hw : s.WellFormed) (hs : InStep s₀ s) (h : step s a = some s') :
    s'.WellFormed ∧ (InStep s₀ s' ↔ s.inOrder a = true) := by
  cases a with
  | updateStorage auth id config outcome =>
    obtain rfl := Option.some.inj h
    exact updateStorage_spec hw hs
  | deleteRepository auth repository outcome =>
    obtain rfl := Option.some.inj h
    exact deleteRepository_spec hw hs
  | deleteStorage auth id cascade outcome =>
    obtain rfl := Option.some.inj h
    obtain ⟨hw', hs'⟩ := deleteStorage_spec hw hs
    exact ⟨hw', iff_of_true hs' rfl⟩

/-- **Main theorem.**  In every run from a server on which everything is in step, it is in step in
every state on the way iff every call is in order. -/
theorem inStep_iff {as : List ManagementAction} (hw : s₀.WellFormed) (hs : InStep s₀ s₀)
    (hr : run step s₀ as = some s) :
    (∀ pre t, pre <+: as → run step s₀ pre = some t → InStep s₀ t) ↔
      StepsOk step (fun t a => t.inOrder a = true) s₀ as :=
  stepsOk_iff_of_prefixes_of_invariant (I := WellFormed)
    (fun _ _ _ hw hs h => inStep_of_step hw hs h) hw hs hr

/-! ### Two runs -/

def oneRepository : Site where
  storageRows := (∅ : Store Uuid StorageRow).put 1 ⟨"main", "Local", ⟨"Local", "/data", ""⟩⟩
  repositoryRows := (∅ : Store Uuid RepositoryRow).put 7 ⟨"maven", 1⟩
  storages := (∅ : Store Uuid RuntimeStorage).put 1 ⟨0, ⟨"Local", "/data", ""⟩⟩
  repositories := (∅ : Store Uuid RuntimeStorage).put 7 ⟨0, ⟨"Local", "/data", ""⟩⟩
  files := (∅ : Store (String × Uuid) (List String)).put ("/data", 7) ["a.jar"]
  created := 1
  requested := []

theorem eq_of_get_put_empty {κ β : Type} [DecidableEq κ] {k k' : κ} {b b' : β}
    (h : ((∅ : Store κ β).put k b).get k' = some b') : k' = k ∧ b' = b := by
  rw [Store.get_put] at h
  simp_all

theorem wellFormed_oneRepository : oneRepository.WellFormed where
  loaded := by
    intro repository row hrow
    obtain ⟨rfl, rfl⟩ := eq_of_get_put_empty hrow
    exact ⟨_, Store.get_put_self _ _ _⟩
  stored := by
    intro repository row hrow
    obtain ⟨rfl, rfl⟩ := eq_of_get_put_empty hrow
    exact ⟨_, Store.get_put_self _ _ _⟩
  numbered := by
    intro repository storage hstorage
    obtain ⟨rfl, rfl⟩ := eq_of_get_put_empty hstorage
    exact Nat.zero_lt_one

theorem inStep_oneRepository : InStep oneRepository oneRepository where
  runtime := by
    intro id row hrow
    obtain ⟨rfl, rfl⟩ := eq_of_get_put_empty hrow
    exact ⟨_, Store.get_put_self _ _ _, rfl⟩
  holds := by
    intro repository storage row hstorage hrow
    obtain ⟨rfl, rfl⟩ := eq_of_get_put_empty hstorage
    obtain ⟨-, rfl⟩ := eq_of_get_put_empty hrow
    exact Store.get_put_self _ _ _
  untouched := by
    intro repository storage hstorage _
    obtain ⟨rfl, rfl⟩ := eq_of_get_put_empty hstorage
    exact ⟨⟨_, Store.get_put_self _ _ _⟩, rfl⟩
  retryable := by
    intro root repository names hget _
    obtain ⟨heq, -⟩ := eq_of_get_put_empty hget
    obtain ⟨rfl, rfl⟩ := Prod.mk.inj heq
    exact ⟨_, _, Store.get_put_self _ _ _, Store.get_put_self _ _ _, rfl⟩

def administrator : UserPermissions := ⟨1, true, false, false, []⟩

/-- A cascade that fails at the files, and the one that is tried again. -/
def retriedDeletion : List ManagementAction :=
  [.deleteStorage administrator 1 true ⟨true, true, fun _ => .failed ["a.jar"], true, true⟩,
    .deleteStorage administrator 1 true ⟨true, true, fun _ => .done, true, true⟩]

theorem inStep_retriedDeletion :
    ∃ s, run step oneRepository retriedDeletion = some s ∧
      ∀ pre t, pre <+: retriedDeletion → run step oneRepository pre = some t →
        InStep oneRepository t := by
  have hsome : (run step oneRepository retriedDeletion).isSome = true := by decide
  obtain ⟨s, hs⟩ := Option.isSome_iff_exists.mp hsome
  exact ⟨s, hs, (inStep_iff wellFormed_oneRepository inStep_oneRepository hs).mpr
    (by decide)⟩

def failedDeletion : List ManagementAction :=
  [.deleteRepository administrator 7 ⟨true, true, .failed ["a.jar"]⟩]

/-- After it, the files are left, and a second deletion finds no row. -/
theorem not_inStep_failedDeletion :
    ¬ ∀ (s₀ s : Site) (as : List ManagementAction), s₀.WellFormed → InStep s₀ s₀ →
      run step s₀ as = some s → InStep s₀ s := by
  intro hall
  have hleft : (run step oneRepository failedDeletion).map (fun s =>
      (s.files.get ("/data", 7), s.repositoryRows.get 7)) = some (some ["a.jar"], none) := by
    decide
  obtain ⟨s, hs, heq⟩ := Option.map_eq_some_iff.mp hleft
  obtain ⟨hfiles, hnone⟩ := Prod.mk.inj heq
  have hok := hall oneRepository s _ wellFormed_oneRepository inStep_oneRepository hs
  obtain ⟨row, storage, hrow, -⟩ := hok.retryable _ _ _ hfiles (List.cons_ne_nil _ _)
  rw [hnone] at hrow
  cases hrow

end Site

end Pkgly.StorageManagement
