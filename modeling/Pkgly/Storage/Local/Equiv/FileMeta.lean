import Pkgly.Storage.Local.LocalStorage

/-!
# What the sidecar operations touch

Reading, updating and deleting the metadata of a path changes at most its sidecar and the time of the
directory the sidecar lies in (`MetaOnly`); no file or directory comes or goes besides.  Conversely
the metadata read at a path that exists depends on nothing but what is at and below the path and on
its sidecar (`Footprint`, `agreeAt_readFromPath`, `agreeAt_getOrDefaultLocal`).
-/

/-!
## Names of sidecars

The sidecar beside a file `name` is `name ++ ".nr-meta"`, whatever dots the name has
(`addExtension_eq`), so that two files never share one.  All names that the storage makes up, those
of sidecars and those of the temporary files behind them, are hidden
(`isHiddenFile_append_repoMetaFile`, `isHiddenFile_append_tmp`); the text of a `Uuid` never is.
-/

namespace Pkgly.Local

/-! ### The last dot -/

theorem splitLastDot_eq_none_iff {s : List Char} : splitLastDot s = none ↔ '.' ∉ s := by
  induction s with
  | nil => simp [splitLastDot]
  | cons c s ih =>
    rw [splitLastDot, List.mem_cons, not_or]
    grind

theorem eq_of_splitLastDot {s before after : List Char}
    (h : splitLastDot s = some (before, after)) : s = before ++ '.' :: after := by
  induction s generalizing before with
  | nil => cases h
  | cons c s ih =>
    rw [splitLastDot] at h
    grind

theorem splitLastDot_append {after : List Char} (hafter : '.' ∉ after) (before : List Char) :
    splitLastDot (before ++ '.' :: after) = some (before, after) := by
  induction before with
  | nil =>
    rw [List.nil_append, splitLastDot, splitLastDot_eq_none_iff.mpr hafter]
    rfl
  | cons c before ih =>
    rw [List.cons_append, splitLastDot, ih]

/-! ### The sidecar beside a file -/

theorem addExtension_eq (name newExtension : String) :
    addExtension name newExtension = name ++ ("." ++ newExtension) := by
  unfold addExtension extension fileStem
  by_cases hdots : name = ".."
  · rw [if_pos hdots, if_pos hdots]
    exact String.append_assoc
  · rw [if_neg hdots, if_neg hdots]
    cases hsplit : splitLastDot name.toList with
    | none => exact String.append_assoc
    | some r =>
      obtain ⟨before, after⟩ := r
      cases before with
      | nil => exact String.append_assoc
      | cons c before =>
        have hname := eq_of_splitLastDot hsplit
        aesop

theorem addExtension_repoMetaExtension (name : String) :
    addExtension name repoMetaExtension = name ++ repoMetaFile :=
  addExtension_eq name repoMetaExtension

theorem withMetaExtension_concat (path : DiskPath) (name : String) :
    withMetaExtension (path ++ [name]) = path ++ [name ++ repoMetaFile] := by
  rw [withMetaExtension, List.getLast?_concat, List.dropLast_concat]
  exact congrArg (fun file => path ++ [file]) (addExtension_repoMetaExtension name)

/-! ### Hidden names -/

theorem append_repoMetaFile_ne_dots (name : String) : name ++ repoMetaFile ≠ ".." := by
  intro h
  have hlen := congrArg (fun s => s.toList.length) h
  simp [repoMetaFile] at hlen

theorem isHiddenFile_append_repoMetaFile (name : String) :
    isHiddenFile (name ++ repoMetaFile) = true := by
  unfold isHiddenFile extension
  by_cases hname : name.toList = []
  · have hempty : name = "" := String.toList_inj.mp hname
    rw [hempty]
    rfl
  · have hsplit : splitLastDot (name ++ repoMetaFile).toList =
        some (name.toList, repoMetaExtension.toList) := by
      rw [String.toList_append]
      exact splitLastDot_append (by decide) name.toList
    simp_all [append_repoMetaFile_ne_dots]

theorem isHiddenFile_append_tmp (name rest : String) :
    isHiddenFile (name ++ (".nr-meta.tmp-" ++ rest)) = true := by
  rw [isHiddenFile, containsText_append, Bool.or_true, Bool.true_or]

theorem isHiddenFile_of_no_dot {name : String} (h : '.' ∉ name.toList) :
    isHiddenFile name = false := by
  have hne : name ≠ repoMetaFile := by
    rintro rfl
    exact h (by decide)
  have hcontains : containsText ".nr-meta.tmp-" name = false := by
    rw [Bool.eq_false_iff]
    intro hc
    exact h ((containsText_iff.mp hc).subset (by decide))
  have hext : extension name = none := by
    rw [extension, splitLastDot_eq_none_iff.mpr h]
    split_ifs <;> rfl
  rw [isHiddenFile, hcontains, hext, beq_false_of_ne hne]
  rfl

theorem isHiddenFile_repository (repository : Repository) :
    isHiddenFile repository.val = false := by
  refine isHiddenFile_of_no_dot fun hdot => ?_
  have hshape := repository.property
  rw [isUuidText, Bool.and_eq_true, List.all_eq_true] at hshape
  exact absurd (hshape.2 '.' hdot) (by decide)

/-! ### Visible paths -/

def Visible (path : DiskPath) : Prop := ∀ name ∈ path, isHiddenFile name = false

def Location.visible (location : Location) : Bool :=
  location.val.components.all fun name => !isHiddenFile name

theorem visible_getPath {repository : Repository} {location : Location}
    (h : location.visible = true) : Visible (getPath repository location) := by
  intro name hname
  rcases List.mem_append.mp hname with hroot | hcomponent
  · rw [rootPath, List.mem_singleton] at hroot
    rw [hroot]
    exact isHiddenFile_repository repository
  · simpa using List.all_eq_true.mp h name hcomponent

theorem Visible.above {path path' : DiskPath} (h : Visible path) (hpre : path' <+: path) :
    Visible path' := fun name hname => h name (hpre.subset hname)

theorem Visible.not_mem {path : DiskPath} {name : String} (h : Visible path)
    (hname : isHiddenFile name = true) : name ∉ path := by
  intro hmem
  rw [h name hmem] at hname
  cases hname

end Pkgly.Local

namespace Pkgly.Local

open Effect FileTree

/-! ### The path of a sidecar -/

variable {path : DiskPath} {tree : Files}

theorem ne_nil_of_not_isDir (h : tree.isDir path = false) : path ≠ [] := by
  rintro rfl
  rw [isDir_nil] at h
  cases h

theorem metaPath_of_not_isDir (h : tree.isDir path = false) :
    ∃ name, path = path.dropLast ++ [name] ∧
      metaPath tree path = path.dropLast ++ [name ++ repoMetaFile] := by
  rcases List.eq_nil_or_concat path with hnil | ⟨parent, name, hname⟩
  · exact absurd hnil (ne_nil_of_not_isDir h)
  simp_all [List.concat_eq_append, metaPath, withMetaExtension_concat]

theorem metaPath_of_isDir (h : tree.isDir path = true) :
    metaPath tree path = path ++ [repoMetaFile] := by
  rw [metaPath, if_pos h]

theorem tmpPath_spec (newUuid fileName : String) (h : path.getLast? = some fileName) :
    tmpPath newUuid path fileName ≠ path ∧
      (tmpPath newUuid path fileName).dropLast = path.dropLast ∧
      tmpPath newUuid path fileName ≠ [] ∧ path ≠ [] := by
  have hsplit := List.dropLast_append_getLast? fileName h
  refine ⟨fun heq => ?_, List.dropLast_concat, by simp [tmpPath], fun hnil => ?_⟩
  · rw [tmpPath] at heq
    have hlast := congrArg List.getLast? heq
    rw [List.getLast?_concat, h, Option.some.injEq] at hlast
    have hlen := congrArg (fun s => s.toList.length) hlast
    simp [repoMetaExtension] at hlen
  · rw [hnil] at h
    cases h

/-! ### Changes to sidecars alone -/

/-- Between the two states, nothing but the sidecars of the paths in `A` has changed, up to the
times of the directories they lie in. -/
structure MetaOnly (A : DiskPath → Prop) (d d' : LocalDisk) : Prop where
  get_eq : ∀ x, (∀ r, A r → x ≠ metaPath d.tree r ∧ x ≠ (metaPath d.tree r).dropLast) →
    d'.tree.get x = d.tree.get x
  isDir_eq : ∀ x, d'.tree.isDir x = d.tree.isDir x
  isFile_eq : ∀ x, (∀ r, A r → x ≠ metaPath d.tree r) → d'.tree.isFile x = d.tree.isFile x
  queue_eq : d'.queue = d.queue

variable {A : DiskPath → Prop} {d d' : LocalDisk}

theorem metaPath_congr {tree' : Files} (h : ∀ x, tree'.isDir x = tree.isDir x)
    (path : DiskPath) : metaPath tree' path = metaPath tree path := by
  rw [metaPath, metaPath, h]

theorem MetaOnly.refl (A : DiskPath → Prop) (d : LocalDisk) : MetaOnly A d d :=
  ⟨fun _ _ => rfl, fun _ => rfl, fun _ _ => rfl, rfl⟩

theorem MetaOnly.trans {d'' : LocalDisk} (h : MetaOnly A d d') (h' : MetaOnly A d' d'') :
    MetaOnly A d d'' := by
  have hmeta : ∀ r, metaPath d'.tree r = metaPath d.tree r := metaPath_congr h.isDir_eq
  refine ⟨fun x hx => ?_, fun x => (h'.isDir_eq x).trans (h.isDir_eq x), fun x hx => ?_,
    h'.queue_eq.trans h.queue_eq⟩
  · rw [h'.get_eq x fun r hr => by rw [hmeta]; exact hx r hr, h.get_eq x hx]
  · rw [h'.isFile_eq x fun r hr => by rw [hmeta]; exact hx r hr, h.isFile_eq x hx]

theorem MetaOnly.of_edits {tree' : Files} (hpath : A path)
    (h : Edits (metaPath d.tree path) d.tree tree') : MetaOnly A d { d with tree := tree' } :=
  ⟨fun x hx => h.get_eq x (hx path hpath).1 (hx path hpath).2, h.isDir_eq,
    fun x hx => h.isFile_eq x (hx path hpath), rfl⟩

/-! ### The sidecar operations, one by one -/

section Keeps

variable (lib : Libraries) (m : Moment) {path : DiskPath}

theorem keepsAt_orFail {α : Type} (result : Except LocalStorageError α) (d : LocalDisk) :
    KeepsAt (MetaOnly A) (orFail result) d := by
  unfold KeepsAt orFail
  cases result <;> exact MetaOnly.refl A d

theorem keepsAt_saveMeta (hpath : A path) (location : LocationMeta) (d : LocalDisk) :
    KeepsAt (MetaOnly A) (saveMeta lib m path location) d := by
  unfold KeepsAt saveMeta
  dsimp only
  split
  · exact MetaOnly.refl A d
  · next fileName hname =>
    obtain ⟨hne, hdir, htmp, hnil⟩ := tmpPath_spec m.newUuid fileName hname
    have hedits := replaceFile_edits (t := d.tree) (lib.toAllocvec location) m.now hne hdir htmp hnil
    split
    · next h =>
      rw [h] at hedits
      exact .of_edits hpath hedits
    · next h =>
      rw [h] at hedits
      exact .of_edits hpath hedits

theorem keepsAt_getOrDefaultLocal (hpath : A path) (hashes : Option FileHashes) (d : LocalDisk) :
    KeepsAt (MetaOnly A) (getOrDefaultLocal lib m path hashes) d := by
  unfold getOrDefaultLocal
  refine KeepsAt.bind_of_look rfl ?_
  refine KeepsAt.bind MetaOnly.trans (keepsAt_orFail _ d) fun found d1 _ _ => ?_
  cases found with
  | some location => exact MetaOnly.refl A d1
  | none =>
    refine KeepsAt.bind MetaOnly.trans (keepsAt_orFail _ d1) fun location d2 _ _ => ?_
    refine KeepsAt.bind MetaOnly.trans (keepsAt_saveMeta lib m hpath location d2) fun _ d3 _ _ => ?_
    exact MetaOnly.refl A d3

theorem keepsAt_createMetaOrUpdate (hpath : A path) (hashes : Option FileHashes)
    (d : LocalDisk) : KeepsAt (MetaOnly A) (createMetaOrUpdate lib m path hashes) d := by
  unfold createMetaOrUpdate
  refine KeepsAt.bind MetaOnly.trans (keepsAt_getOrDefaultLocal lib m hpath hashes d) ?_
  rintro ⟨location, wasCreated⟩ d1 - -
  dsimp only
  split_ifs
  · exact MetaOnly.refl A d1
  · refine KeepsAt.bind_of_look rfl ?_
    grind [KeepsAt.bind, MetaOnly.trans, keepsAt_orFail, keepsAt_saveMeta]

theorem keepsAt_setRepositoryMeta (hpath : A path) (value : RepositoryMeta) (d : LocalDisk) :
    KeepsAt (MetaOnly A) (setRepositoryMeta lib m path value) d := by
  grind [setRepositoryMeta, KeepsAt.bind, MetaOnly.trans, keepsAt_getOrDefaultLocal,
    keepsAt_saveMeta]

theorem keepsAt_deleteLocal (hpath : A path) (d : LocalDisk) :
    KeepsAt (MetaOnly A) (deleteLocal m path) d := by
  unfold deleteLocal
  refine KeepsAt.bind_of_look rfl ?_
  split_ifs
  · unfold KeepsAt call
    dsimp only
    split
    · next h => exact .of_edits hpath (removeFile_edits h)
    · exact MetaOnly.refl A d
  · exact MetaOnly.refl A d

theorem keepsAt_readFromDirectory (hpath : A path) (d : LocalDisk) :
    KeepsAt (MetaOnly A) (readFromDirectory lib m path) d := by
  unfold readFromDirectory
  refine KeepsAt.bind_of_look rfl ?_
  split_ifs
  · exact MetaOnly.refl A d
  · refine KeepsAt.bind MetaOnly.trans (keepsAt_getOrDefaultLocal lib m hpath none d) ?_
    rintro ⟨location, wasCreated⟩ d1 - -
    dsimp only
    split <;> exact MetaOnly.refl A d1

theorem keepsAt_readFromFile (hpath : A path) (d : LocalDisk) :
    KeepsAt (MetaOnly A) (readFromFile lib m path) d := by
  unfold readFromFile
  refine KeepsAt.bind_of_look rfl ?_
  split_ifs
  · exact MetaOnly.refl A d
  · refine KeepsAt.bind MetaOnly.trans (keepsAt_orFail _ d) fun content d1 _ _ => ?_
    refine KeepsAt.bind MetaOnly.trans (keepsAt_getOrDefaultLocal lib m hpath none d1) ?_
    rintro ⟨location, wasCreated⟩ d2 - -
    dsimp only
    split <;> exact MetaOnly.refl A d2

theorem keepsAt_readFromPath (hpath : A path) (d : LocalDisk) :
    KeepsAt (MetaOnly A) (readFromPath lib m path) d := by
  unfold readFromPath
  refine KeepsAt.bind_of_look rfl ?_
  grind [keepsAt_readFromDirectory, keepsAt_readFromFile]

end Keeps

/-! ### What the metadata of a path depends on -/

/-- The paths that reading the metadata of `path` looks at: the path itself and what is below it,
and beside it the sidecar and the temporary name behind the sidecar. -/
def Footprint (newUuid : String) (path x : DiskPath) : Prop :=
  path <+: x ∨ x = withMetaExtension path ∨
    ∃ fileName, (withMetaExtension path).getLast? = some fileName ∧
      x = tmpPath newUuid (withMetaExtension path) fileName

/-- The path exists, and the two states agree on what the metadata of the path depends on. -/
structure SameMeta (newUuid : String) (path : DiskPath) (d e : LocalDisk) : Prop where
  pathExists : d.tree.pathExists path = true
  get_eq : ∀ x, Footprint newUuid path x → d.tree.get x = e.tree.get x

section Agree

variable {newUuid : String} {path : DiskPath} {d e : LocalDisk}

theorem SameMeta.get_self (h : SameMeta newUuid path d e) :
    d.tree.get path = e.tree.get path :=
  h.get_eq path (.inl (List.prefix_refl path))

theorem SameMeta.isDir_self (h : SameMeta newUuid path d e) :
    d.tree.isDir path = e.tree.isDir path := by
  rw [FileTree.isDir, FileTree.isDir, h.get_self]

theorem SameMeta.isFile_self (h : SameMeta newUuid path d e) :
    d.tree.isFile path = e.tree.isFile path := by
  rw [FileTree.isFile, FileTree.isFile, h.get_self]

theorem SameMeta.pathExists_right (h : SameMeta newUuid path d e) :
    e.tree.pathExists path = true := by
  have hd := h.pathExists
  rw [FileTree.pathExists, h.get_self] at hd
  exact hd

theorem SameMeta.metaPath_eq (h : SameMeta newUuid path d e) :
    metaPath d.tree path = metaPath e.tree path := by
  rw [metaPath, metaPath, h.isDir_self]

theorem footprint_metaPath (newUuid : String) (tree : Files) (path : DiskPath) :
    Footprint newUuid path (metaPath tree path) := by
  unfold metaPath
  split_ifs
  · exact .inl (List.prefix_append _ _)
  · exact .inr (.inl rfl)

theorem footprint_tmpPath {tree : Files} {fileName : String}
    (h : (metaPath tree path).getLast? = some fileName) :
    Footprint newUuid path (tmpPath newUuid (metaPath tree path) fileName) := by
  unfold metaPath at h ⊢
  split_ifs at h ⊢
  · rw [tmpPath, List.dropLast_concat]
    exact .inl (List.prefix_append _ _)
  · exact .inr (.inr ⟨fileName, h, rfl⟩)

theorem isDir_dropLast_metaPath {tree : Files} (h : tree.pathExists path = true) :
    tree.isDir (metaPath tree path).dropLast = true := by
  cases hd : tree.isDir path with
  | true =>
    rw [metaPath_of_isDir hd, List.dropLast_concat]
    exact hd
  | false =>
    obtain ⟨name, -, hname⟩ := metaPath_of_not_isDir hd
    rw [hname, List.dropLast_concat]
    exact tree.isDir_dropLast h

theorem agreeAt_orFail {α : Type} (result : Except LocalStorageError α)
    (h : SameMeta newUuid path d e) :
    AgreeAt (SameMeta newUuid path) (orFail result) (orFail result) d e := by
  unfold AgreeAt orFail
  cases result <;> exact ⟨rfl, h⟩

variable (lib : Libraries) (m : Moment)

theorem agreeAt_saveMeta (location : LocationMeta) (h : SameMeta m.newUuid path d e) :
    AgreeAt (SameMeta m.newUuid path) (saveMeta lib m path location)
      (saveMeta lib m path location) d e := by
  unfold AgreeAt saveMeta
  dsimp only
  rw [← h.metaPath_eq]
  split
  · exact ⟨rfl, h⟩
  · next fileName hname =>
    obtain ⟨hne, hdir, htmp, hnil⟩ := tmpPath_spec m.newUuid fileName hname
    have hd := replaceFile_spec d.tree (lib.toAllocvec location) m.now hne hdir htmp hnil
    have he := replaceFile_spec e.tree (lib.toAllocvec location) m.now hne hdir htmp hnil
    have hkeep := pathExists_replaceFile (lib.toAllocvec location) m.now hne hdir htmp hnil
      h.pathExists
    -- what the calls look at is the same in the two states
    have hgetTmp := h.get_eq _ (footprint_tmpPath hname)
    have hgetMeta := h.get_eq _ (footprint_metaPath m.newUuid d.tree path)
    have hparent := isDir_dropLast_metaPath h.pathExists
    have hparent' := isDir_dropLast_metaPath h.pathExists_right
    rw [← h.metaPath_eq] at hparent'
    have hout : replaceOutcome d.tree (tmpPath m.newUuid (metaPath d.tree path) fileName)
        (metaPath d.tree path) = replaceOutcome e.tree
        (tmpPath m.newUuid (metaPath d.tree path) fileName) (metaPath d.tree path) := by
      simp only [replaceOutcome, FileTree.pathExists, hgetTmp, hparent, hparent', if_true]
      rw [FileTree.isDir, FileTree.isDir, hgetMeta]
    have hsame : ∀ x, Footprint m.newUuid path x →
        (d.tree.replaceFile (tmpPath m.newUuid (metaPath d.tree path) fileName)
          (metaPath d.tree path) (lib.toAllocvec location) m.now).2.get x =
        (e.tree.replaceFile (tmpPath m.newUuid (metaPath d.tree path) fileName)
          (metaPath d.tree path) (lib.toAllocvec location) m.now).2.get x := by
      intro x hx
      rw [hd.2, he.2]
      simp only [replaceEntry, FileTree.pathExists, hgetTmp, hparent, hparent', h.get_eq x hx]
      rw [FileTree.isDir, FileTree.isDir, hgetMeta]
    rw [← hd.1, ← he.1] at hout
    revert hout hsame hkeep
    generalize d.tree.replaceFile _ _ _ _ = rd
    generalize e.tree.replaceFile _ _ _ _ = re
    obtain ⟨ad, td⟩ := rd
    obtain ⟨ae, te⟩ := re
    dsimp only
    rintro hkeep rfl hsame
    cases ad with
    | ok u | error err => exact ⟨rfl, hkeep, hsame⟩

/-! The values read are the same. -/

theorem metadata_of_get {tree : Files} {x : DiskPath} {entry : Entry Bytes Int}
    (h : tree.get x = some entry) : tree.metadata x = .ok entry := by
  rw [FileTree.metadata, h]

theorem SameMeta.metadata_eq (h : SameMeta newUuid path d e) :
    d.tree.metadata path = e.tree.metadata path := by
  obtain ⟨entry, hentry⟩ := Option.isSome_iff_exists.mp h.pathExists
  rw [metadata_of_get hentry, metadata_of_get (h.get_self ▸ hentry)]

theorem SameMeta.readFile_eq (h : SameMeta newUuid path d e) :
    d.tree.readFile path = e.tree.readFile path := by
  rw [FileTree.readFile, FileTree.readFile, h.metadata_eq]

theorem SameMeta.recountFiles_eq (h : SameMeta newUuid path d e) :
    recountFiles d.tree path = recountFiles e.tree path := by
  have hperm : (d.tree.children path).Perm (e.tree.children path) :=
    children_perm fun name => h.get_eq _ (.inl (List.prefix_append _ _))
  rw [recountFiles, recountFiles, h.metadata_eq, hperm.countP_eq]

theorem SameMeta.defaultMeta_eq (h : SameMeta newUuid path d e) (hashes : Option FileHashes) :
    defaultMeta lib d.tree path hashes = defaultMeta lib e.tree path hashes := by
  unfold defaultMeta updateHashes
  rw [h.metadata_eq, h.recountFiles_eq, h.readFile_eq]

theorem SameMeta.readMetaFile_eq (h : SameMeta newUuid path d e) :
    readMetaFile lib d.tree (metaPath d.tree path) =
      readMetaFile lib e.tree (metaPath d.tree path) := by
  have hget := h.get_eq _ (footprint_metaPath newUuid d.tree path)
  grind [readMetaFile, FileTree.pathExists, FileTree.readFile, FileTree.metadata, metaPath]

theorem agreeAt_getOrDefaultLocal (hashes : Option FileHashes) (h : SameMeta m.newUuid path d e) :
    AgreeAt (SameMeta m.newUuid path) (getOrDefaultLocal lib m path hashes)
      (getOrDefaultLocal lib m path hashes) d e := by
  unfold getOrDefaultLocal
  refine AgreeAt.bind_of_look rfl rfl ?_
  rw [← h.metaPath_eq, ← h.readMetaFile_eq, ← h.defaultMeta_eq]
  refine AgreeAt.bind (agreeAt_orFail _ h) fun found d1 e1 _ _ h1 => ?_
  cases found with
  | some location => exact ⟨rfl, h1⟩
  | none =>
    refine AgreeAt.bind (agreeAt_orFail _ h1) fun location d2 e2 _ _ h2 => ?_
    refine AgreeAt.bind (agreeAt_saveMeta lib m location h2) fun _ d3 e3 _ _ h3 => ?_
    exact ⟨rfl, h3⟩

theorem agreeAt_readFromDirectory (h : SameMeta m.newUuid path d e) :
    AgreeAt (SameMeta m.newUuid path) (readFromDirectory lib m path)
      (readFromDirectory lib m path) d e := by
  unfold readFromDirectory
  refine AgreeAt.bind_of_look rfl rfl ?_
  rw [← h.isFile_self]
  split_ifs
  · exact ⟨rfl, h⟩
  · refine AgreeAt.bind (agreeAt_getOrDefaultLocal lib m none h) ?_
    rintro ⟨location, wasCreated⟩ d1 e1 - - h1
    dsimp only
    split <;> exact ⟨rfl, h1⟩

theorem agreeAt_readFromFile (h : SameMeta m.newUuid path d e) :
    AgreeAt (SameMeta m.newUuid path) (readFromFile lib m path) (readFromFile lib m path) d e := by
  unfold readFromFile
  refine AgreeAt.bind_of_look rfl rfl ?_
  rw [← h.isDir_self, ← h.readFile_eq]
  split_ifs
  · exact ⟨rfl, h⟩
  · refine AgreeAt.bind (agreeAt_orFail _ h) fun content d1 e1 _ _ h1 => ?_
    refine AgreeAt.bind (agreeAt_getOrDefaultLocal lib m none h1) ?_
    rintro ⟨location, wasCreated⟩ d2 e2 - - h2
    dsimp only
    split <;> exact ⟨rfl, h2⟩

theorem agreeAt_readFromPath (h : SameMeta m.newUuid path d e) :
    AgreeAt (SameMeta m.newUuid path) (readFromPath lib m path) (readFromPath lib m path) d e := by
  unfold readFromPath
  refine AgreeAt.bind_of_look rfl rfl ?_
  rw [← h.isDir_self]
  split_ifs
  · exact agreeAt_readFromDirectory lib m h
  · exact agreeAt_readFromFile lib m h

end Agree

end Pkgly.Local
