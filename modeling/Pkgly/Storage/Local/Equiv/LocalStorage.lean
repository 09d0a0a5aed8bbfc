import Pkgly.Storage.Local.Equiv.FileMeta

/-!
# What the operations of the local storage change

An operation changes a set of paths that is known beforehand (`Operation.reach`), whatever it finds
on the disk and wherever it fails (`keepsAt_perform`): what it stores, with the directories on the
way; what it removes; and sidecars.  An update by the background task changes the sidecar of its
path (`keepsAt_updateMeta`).  Both rest on there being no file in place of a repository's directory,
and keep that.
-/

namespace Pkgly.Local

open Effect FileTree

/-! ### Paths -/

variable {tree : Files} {repository : Repository} {location : Location}

theorem eq_of_checkedPath {path : DiskPath} (h : checkedPath tree repository location = .ok path) :
    path = getPath repository location := by
  unfold checkedPath at h
  split_ifs at h
  dsimp only at h
  split_ifs at h
  cases hensure : ensurePathWithinRepository tree (getPath repository location) repository with
  | ok u =>
    rw [hensure] at h
    exact (Except.ok.inj h).symm
  | error e =>
    rw [hensure] at h
    cases h

/-- The paths that `canonicalize_existing` goes through start with the path itself. -/
theorem exists_inits_reverse (path : DiskPath) : ∃ rest, path.inits.reverse = path :: rest := by
  rw [List.inits_eq_tails, List.reverse_reverse]
  cases hr : path.reverse with
  | nil =>
    rw [List.reverse_eq_nil_iff] at hr
    exact ⟨[], by rw [hr]; rfl⟩
  | cons name rest =>
    simp_all

theorem canonicalizeExisting_of_pathExists {path : DiskPath} (h : tree.pathExists path = true) :
    canonicalizeExisting tree path.inits.reverse = .ok path := by
  obtain ⟨rest, hrest⟩ := exists_inits_reverse path
  obtain ⟨entry, hentry⟩ := Option.isSome_iff_exists.mp h
  rw [hrest, canonicalizeExisting, metadata_of_get hentry]

theorem rootPath_ne_nil (repository : Repository) : rootPath repository ≠ [] :=
  List.cons_ne_nil _ _

theorem rootPath_above (repository : Repository) (location : Location) :
    rootPath repository <+: getPath repository location := List.prefix_append _ _

theorem checkedPath_of_pathExists (h : tree.pathExists (getPath repository location) = true) :
    checkedPath tree repository location =
      if !location.val.validate then .error .invalidStoragePath
      else .ok (getPath repository location) := by
  have hroot : tree.pathExists (rootPath repository) = true := by
    by_cases heq : rootPath repository = getPath repository location
    · rw [heq]
      exact h
    · exact pathExists_of_isDir (isDir_above h (rootPath_above repository location) heq)
  have hpre : (rootPath repository).isPrefixOf (getPath repository location) = true :=
    List.isPrefixOf_iff_prefix.mpr (rootPath_above repository location)
  unfold checkedPath ensurePathWithinRepository
  dsimp only
  rw [canonicalizeExisting_of_pathExists hroot, canonicalizeExisting_of_pathExists h]
  simp only [hpre, Bool.not_true, Bool.false_eq_true, if_false, rootPath_above, if_true]
  rfl

theorem creationLoop_spec {location conflicting : StoragePath}
    {created result : CreatePath} {rest : List String}
    (h : creationLoop tree location created conflicting rest = .ok result) :
    result.path = created.path ++ rest ∧
      (rest ≠ [] → result.parentDirectory = result.path.dropLast) ∧
      (rest = [] → result.parentDirectory = created.parentDirectory) ∧
      ∀ start, result.newDirectoryStart = some start → created.newDirectoryStart = some start ∨
        (created.path <+: start ∧ created.path ≠ start ∧ start <+: result.path) := by
  induction rest generalizing created conflicting with
  | nil =>
    obtain rfl := Except.ok.inj h
    grind
  | cons part rest ih =>
    -- in each branch the loop goes on with the path extended by `part`
    have hnext : ∃ newStart conflicting', creationLoop tree location
        ⟨created.path ++ [part], if rest.isEmpty then created.path else created.parentDirectory,
          newStart⟩ conflicting' rest = .ok result ∧
        ∀ start, newStart = some start → created.newDirectoryStart = some start ∨
          start = created.path ++ [part] := by
      rw [creationLoop] at h
      dsimp only at h
      generalize (if rest.isEmpty = true then created.path else created.parentDirectory) = parent at h ⊢
      split_ifs at h with hstart
      · exact ⟨_, _, h, fun start hs => .inl hs⟩
      · grind
    obtain ⟨newStart, conflicting', hloop, hold⟩ := hnext
    obtain ⟨hpath, hparent, hempty, hstarts⟩ := ih hloop
    have hpath' : result.path = created.path ++ part :: rest := by
      rw [hpath, List.append_assoc, List.singleton_append]
    refine ⟨hpath', fun _ => ?_, fun hn => absurd hn (List.cons_ne_nil _ _), fun start hs => ?_⟩
    · grind
    · rcases hstarts start hs with hnew | ⟨hpre, hne, hle⟩
      · rcases hold start hnew with h1 | rfl
        · exact .inl h1
        simp [List.prefix_append, hpath]
      grind [List.prefix_append, List.length_append]

theorem getPathForCreation_spec
    {created : CreatePath} (h : getPathForCreation tree repository location = .ok created) :
    created.path = getPath repository location ∧
      created.parentDirectory <+: getPath repository location ∧
      ∀ start, created.newDirectoryStart = some start →
        rootPath repository <+: start ∧ rootPath repository ≠ start ∧ start <+: created.path := by
  unfold getPathForCreation at h
  split_ifs at h
  dsimp only at h
  split at h
  · next result hloop =>
    have hcreated : created = result := by
      cases hensure : ensurePathWithinRepository tree result.path repository with
      | ok u =>
        rw [hensure] at h
        exact (Except.ok.inj h).symm
      | error e =>
        rw [hensure] at h
        cases h
    subst hcreated
    obtain ⟨hpath, hparent, hempty, hstarts⟩ := creationLoop_spec hloop
    refine ⟨hpath, ?_, fun start hs => ?_⟩
    · by_cases hnil : location.val.components = []
      · rw [hempty hnil]
        exact rootPath_above repository location
      · rw [hparent hnil, hpath]
        exact List.dropLast_prefix _
    · rcases hstarts start hs with hnone | hfound
      · cases hnone
      · exact hfound
  · cases h

/-! ### The queue -/

theorem of_mem_newDirectories {nextPath r : DiskPath} {rest : List String}
    (h : r ∈ newDirectories nextPath rest) : nextPath <+: r ∧ r <+: nextPath ++ rest := by
  induction rest generalizing nextPath with
  | nil => cases h
  | cons part rest ih =>
    rcases List.mem_cons.mp h with rfl | htail
    · exact ⟨List.prefix_refl _, List.prefix_append _ _⟩
    grind [List.append_assoc, List.singleton_append, List.prefix_append]

theorem of_mem_updateMetaAndParentMetas {path r : DiskPath} {greatestParent : Option DiskPath}
    (hlen : 2 ≤ path.length)
    (hstart : ∀ start, greatestParent = some start → start ≠ [] ∧ start <+: path)
    (h : r ∈ updateMetaAndParentMetas path greatestParent) : r ≠ [] ∧ r <+: path := by
  have hup : path.dropLast ≠ [] := by grind
  unfold updateMetaAndParentMetas at h
  split at h
  · next start =>
    obtain ⟨hne, hpre⟩ := hstart start rfl
    rw [if_neg hup, List.singleton_append, List.mem_cons] at h
    rcases h with rfl | h
    · exact ⟨hup, List.dropLast_prefix path⟩
    · obtain ⟨hge, hle⟩ := of_mem_newDirectories h
      obtain ⟨rest, rfl⟩ := hpre
      grind
  grind

/-! ### Changes inside a set of paths -/

def RootsAreDirectories (tree : Files) : Prop :=
  ∀ repository, tree.isFile (rootPath repository) = false

/-- Between the two states, entries have changed in `S` only, the paths newly queued are in `Q`, and
no repository has become a file. -/
structure Within (S Q : DiskPath → Prop) (d d' : LocalDisk) : Prop where
  get_eq : ∀ x, ¬ S x → d'.tree.get x = d.tree.get x
  queued : ∀ r ∈ d'.queue, r ∈ d.queue ∨ Q r
  roots : RootsAreDirectories d.tree → RootsAreDirectories d'.tree

section Within

variable {S Q : DiskPath → Prop} {d d' d'' : LocalDisk}

theorem Within.refl (S Q : DiskPath → Prop) (d : LocalDisk) : Within S Q d d :=
  ⟨fun _ _ => rfl, fun _ h => .inl h, fun h => h⟩

theorem Within.trans (h : Within S Q d d') (h' : Within S Q d' d'') : Within S Q d d'' := by
  refine ⟨fun x hx => (h'.get_eq x hx).trans (h.get_eq x hx), fun r hr => ?_,
    fun hroots => h'.roots (h.roots hroots)⟩
  rcases h'.queued r hr with hold | hnew
  · exact h.queued r hold
  · exact .inr hnew

theorem Within.of_tree {tree' : Files} (hget : ∀ x, ¬ S x → tree'.get x = d.tree.get x)
    (hfile : ∀ x, tree'.isFile x = true → d.tree.isFile x = true ∨ 2 ≤ x.length) :
    Within S Q d { d with tree := tree' } := by
  refine ⟨hget, fun r hr => .inl hr, fun hroots repository => ?_⟩
  rw [Bool.eq_false_iff]
  intro hnew
  rcases hfile _ hnew with hold | hlen
  · rw [hroots repository] at hold
    cases hold
  · simp [rootPath] at hlen

theorem keepsAt_call {systemCall : Files → Except IoError Files}
    (h : ∀ tree', systemCall d.tree = .ok tree' → Within S Q d { d with tree := tree' }) :
    KeepsAt (Within S Q) (call systemCall) d := by
  unfold KeepsAt call
  split
  · next tree' hcall => exact h tree' hcall
  · exact Within.refl S Q d

theorem withinAt_orFail {α : Type} (result : Except LocalStorageError α) :
    KeepsAt (Within S Q) (orFail result) d := by
  unfold KeepsAt orFail
  cases result <;> exact Within.refl S Q d

theorem orFail_eq_ok {α : Type} {result : Except LocalStorageError α} {a : α}
    (h : orFail result d = .ok a d') : result = .ok a ∧ d' = d := by
  unfold orFail at h
  grind

theorem call_eq_ok {systemCall : Files → Except IoError Files} {u : Unit}
    (h : call systemCall d = .ok u d') :
    ∃ tree', systemCall d.tree = .ok tree' ∧ d' = { d with tree := tree' } := by
  unfold call at h
  grind

/-- What the sidecar operations on `r` may change, when `r` is no root or a directory. -/
def MetaReach (r x : DiskPath) : Prop :=
  x = r ++ [repoMetaFile] ∨ x = r ∨ (2 ≤ r.length ∧ (x = withMetaExtension r ∨ x = r.dropLast))

theorem metaReach_metaPath {tree : Files} {r : DiskPath} (hne : r ≠ [])
    (h : tree.isDir r = true ∨ 2 ≤ r.length) :
    MetaReach r (metaPath tree r) ∧ MetaReach r (metaPath tree r).dropLast ∧
      2 ≤ (metaPath tree r).length := by
  cases hd : tree.isDir r with
  | true =>
    rw [metaPath_of_isDir hd, List.dropLast_concat, List.length_append]
    have := List.length_pos_iff.mpr hne
    exact ⟨.inl rfl, .inr (.inl rfl), by simp only [List.length_singleton]; omega⟩
  | false =>
    rw [hd] at h
    have hlen : 2 ≤ r.length := h.resolve_left (by simp)
    obtain ⟨name, hr, hname⟩ := metaPath_of_not_isDir hd
    have hmeta : metaPath tree r = withMetaExtension r := by rw [metaPath, if_neg (by simp [hd])]
    grind [List.dropLast_concat, List.length_append, List.length_dropLast, List.length_singleton,
      MetaReach, metaPath]

theorem MetaOnly.within {A : DiskPath → Prop} (h : MetaOnly A d d')
    (hA : ∀ r, A r → r ≠ [] ∧ (d.tree.isDir r = true ∨ 2 ≤ r.length))
    (hS : ∀ r x, A r → MetaReach r x → S x) : Within S Q d d' := by
  have hreach := fun r hr => metaReach_metaPath (hA r hr).1 (hA r hr).2
  refine ⟨fun x hx => h.get_eq x fun r hr => ?_, fun r hr => .inl (h.queue_eq ▸ hr),
    fun hroots repository => ?_⟩
  · grind
  · rw [h.isFile_eq]
    · exact hroots repository
    grind [rootPath]

end Within

/-! ### What each operation may change -/

def Operation.reach (repository : Repository) : Operation → DiskPath → Prop
  | .saveFile _ location | .appendFile _ location | .openAppendHandle location =>
    fun x => x <+: getPath repository location
  | .deleteFile location =>
    fun x => getPath repository location <+: x ∨ x = (getPath repository location).dropLast ∨
      MetaReach (getPath repository location) x
  | .moveFile source target =>
    fun x => getPath repository source <+: x ∨ x = (getPath repository source).dropLast ∨
      (2 ≤ (getPath repository source).length ∧ MetaReach (getPath repository source) x) ∨
      getPath repository target <+: x ∨ x <+: getPath repository target
  | .getFileInformation location | .getRepositoryMeta location | .putRepositoryMeta location _ =>
    MetaReach (getPath repository location)
  | .openFile location | .streamDirectory location _ =>
    fun x => MetaReach (getPath repository location) x ∨
      ∃ name, isHiddenFile name = false ∧ MetaReach (getPath repository location ++ [name]) x
  | .deleteRepository => fun x => rootPath repository <+: x ∨ x = []
  | .registerPrecomputedHash _ _ => fun _ => False

def Operation.stored : Operation → Option Location
  | .saveFile _ location | .appendFile _ location | .openAppendHandle location => some location
  | .moveFile _ target => some target
  | _ => none

def Operation.queues (repository : Repository) (operation : Operation) (r : DiskPath) : Prop :=
  ∃ location, operation.stored = some location ∧ r ≠ [] ∧ r <+: getPath repository location

section Operations

variable (lib : Libraries) (m : Moment) (repository : Repository) {d : LocalDisk}
  {S Q : DiskPath → Prop}

theorem getPath_ne_nil (location : Location) : getPath repository location ≠ [] :=
  List.cons_ne_nil _ _

variable {location : Location} {α : Type} {computation : LocalIO α}

theorem length_getPath (h : location.val.components.isEmpty = false) :
    2 ≤ (getPath repository location).length := by
  rw [getPath, rootPath, List.length_append, List.length_singleton]
  have hpos := List.length_pos_iff.mpr (List.isEmpty_eq_false_iff.mp h)
  omega

theorem Within.of_edits {tree' : Files} {path : DiskPath} (h : Edits path d.tree tree')
    (hpath : S path) (hparent : S path.dropLast) (hlen : 2 ≤ path.length) :
    Within S Q d { d with tree := tree' } := by
  refine .of_tree (fun x hx => ?_) fun x hx => ?_
  · exact h.get_eq x (fun heq => hx (heq ▸ hpath)) fun heq => hx (heq ▸ hparent)
  · by_cases heq : x = path
    · exact .inr (heq ▸ hlen)
    · rw [h.isFile_eq x heq] at hx
      exact .inl hx

theorem keepsAt_createParents {created : CreatePath}
    (h : ∀ x, x <+: created.parentDirectory → S x) :
    KeepsAt (Within S Q) (createParents m created) d := by
  unfold createParents
  split_ifs
  · refine keepsAt_call fun tree' hcall => ?_
    obtain ⟨hget, hfile⟩ := createDirAll_get hcall
    refine .of_tree (fun x hx => hget x fun hpre => hx (h x hpre)) fun x hx => .inl ?_
    rw [← hfile]
    exact hx
  · exact Within.refl S Q d

/-- Every operation that stores a file starts with the directories the file needs. -/
theorem keepsAt_creation {f : CreatePath → LocalIO α}
    (hS : ∀ x, x <+: getPath repository location → S x)
    (hf : ∀ created d1, getPathForCreation d.tree repository location = .ok created →
      KeepsAt (Within S Q) (f created) d1) : KeepsAt (Within S Q) (do
      let created ← orFail (getPathForCreation (← files) repository location)
      createParents m created
      f created) d := by
  refine KeepsAt.bind_of_look rfl ?_
  refine KeepsAt.bind Within.trans (withinAt_orFail _) fun created d1 hok _ => ?_
  obtain ⟨hcreated, rfl⟩ := orFail_eq_ok hok
  have hparent := (getPathForCreation_spec hcreated).2.1
  grind [KeepsAt.bind, Within.trans, keepsAt_createParents]

theorem keepsAt_runPostSaveFile {created : CreatePath}
    (hstored : location.val.components.isEmpty = false)
    (hQ : ∀ r, r ≠ [] → r <+: getPath repository location → Q r)
    (hcreated : getPathForCreation d.tree repository location = .ok created) (d1 : LocalDisk) :
    KeepsAt (Within S Q) (runPostSaveFile created.path created.newDirectoryStart) d1 := by
  obtain ⟨hpath, -, hstart⟩ := getPathForCreation_spec hcreated
  refine ⟨fun x _ => rfl, fun r hr => ?_, fun hroots => hroots⟩
  rcases List.mem_append.mp hr with hold | hnew
  · exact .inl hold
  · rw [hpath] at hnew hstart
    have hnonempty : ∀ start, created.newDirectoryStart = some start → start ≠ [] := by grind
    grind [of_mem_updateMetaAndParentMetas, length_getPath]

theorem keepsAt_saveFile (content : Bytes) (hstored : location.val.components.isEmpty = false)
    (hS : ∀ x, x <+: getPath repository location → S x)
    (hQ : ∀ r, r ≠ [] → r <+: getPath repository location → Q r) :
    KeepsAt (Within S Q) (saveFile m repository content location) d := by
  unfold saveFile
  refine keepsAt_creation m repository hS fun created d1 hcreated => ?_
  obtain ⟨hpath, -, -⟩ := getPathForCreation_spec hcreated
  refine KeepsAt.bind_of_look rfl ?_
  refine KeepsAt.bind Within.trans (keepsAt_call fun tree' hcall => ?_) fun _ d2 _ _ => ?_
  · refine .of_edits (editFile_edits hcall) ?_ ?_ ?_
    · exact hS _ (hpath ▸ List.prefix_refl _)
    · exact hS _ (hpath ▸ List.dropLast_prefix _)
    · exact hpath ▸ length_getPath repository hstored
  · dsimp only
    split_ifs
    · refine KeepsAt.bind Within.trans
        (keepsAt_runPostSaveFile repository hstored hQ hcreated d2) fun _ d3 _ _ => ?_
      exact Within.refl S Q d3
    · exact Within.refl S Q d2

theorem keepsAt_appendFile (content : Bytes) (hstored : location.val.components.isEmpty = false)
    (hS : ∀ x, x <+: getPath repository location → S x) :
    KeepsAt (Within S Q) (appendFile m repository content location) d := by
  unfold appendFile
  refine keepsAt_creation m repository hS fun created d1 hcreated => ?_
  obtain ⟨hpath, -, -⟩ := getPathForCreation_spec hcreated
  have hself : S created.path := hS _ (hpath ▸ List.prefix_refl _)
  have hparent : S created.path.dropLast := hS _ (hpath ▸ List.dropLast_prefix _)
  have hlen : 2 ≤ created.path.length := hpath ▸ length_getPath repository hstored
  refine KeepsAt.bind Within.trans (keepsAt_call fun tree' hcall => ?_) fun _ d2 _ _ => ?_
  · exact .of_edits (openOrCreate_edits hcall) hself hparent hlen
  · dsimp only
    split_ifs
    · refine KeepsAt.bind Within.trans (keepsAt_call fun tree' hcall => ?_) fun _ d3 _ _ => ?_
      · exact .of_edits (editFile_edits hcall) hself hparent hlen
      · exact Within.refl S Q d3
    · exact Within.refl S Q d2

theorem keepsAt_openAppendHandle (hstored : location.val.components.isEmpty = false)
    (hS : ∀ x, x <+: getPath repository location → S x) :
    KeepsAt (Within S Q) (openAppendHandle m repository location) d := by
  unfold openAppendHandle
  refine keepsAt_creation m repository hS fun created d1 hcreated => ?_
  obtain ⟨hpath, -, -⟩ := getPathForCreation_spec hcreated
  refine KeepsAt.bind Within.trans (keepsAt_call fun tree' hcall => ?_) fun _ d2 _ _ => ?_
  · refine .of_edits (openOrCreate_edits hcall) ?_ ?_ ?_
    · exact hS _ (hpath ▸ List.prefix_refl _)
    · exact hS _ (hpath ▸ List.dropLast_prefix _)
    · exact hpath ▸ length_getPath repository hstored
  · exact Within.refl S Q d2

theorem isDir_rootPath (hroots : RootsAreDirectories d.tree)
    (hexists : d.tree.pathExists (rootPath repository) = true) :
    d.tree.isDir (rootPath repository) = true := by
  have hfile := hroots repository
  obtain ⟨entry, hentry⟩ := Option.isSome_iff_exists.mp hexists
  rw [isFile, hentry] at hfile
  rw [isDir, hentry]
  simpa using hfile

theorem isDir_or_length (hroots : RootsAreDirectories d.tree)
    (hexists : d.tree.pathExists (getPath repository location) = true) :
    d.tree.isDir (getPath repository location) = true ∨
      2 ≤ (getPath repository location).length := by
  grind [length_getPath, getPath, rootPath, isDir_rootPath]

theorem keepsAt_checked {f : DiskPath → LocalIO α}
    (hf : KeepsAt (Within S Q) (f (getPath repository location)) d) : KeepsAt (Within S Q) (do
      let path ← orFail (checkedPath (← files) repository location)
      f path) d := by
  refine KeepsAt.bind_of_look rfl ?_
  refine KeepsAt.bind Within.trans (withinAt_orFail _) fun path d1 hok _ => ?_
  obtain ⟨hchecked, rfl⟩ := orFail_eq_ok hok
  have hpath := eq_of_checkedPath hchecked
  rw [hpath]
  exact hf

theorem keepsAt_deleteFile (hroots : RootsAreDirectories d.tree)
    (hS : ∀ x, (Operation.deleteFile location).reach repository x → S x) :
    KeepsAt (Within S Q) (deleteFile m repository location) d := by
  unfold deleteFile
  refine keepsAt_checked repository ?_
  refine KeepsAt.bind_of_look rfl ?_
  split_ifs with hexists hdir
  · exact Within.refl S Q d
  · refine KeepsAt.bind Within.trans (keepsAt_call fun tree' hcall => ?_) fun _ d2 _ _ => ?_
    · obtain ⟨hget, hfile⟩ := removeDirAll_get hcall
      refine .of_tree (fun x hx => ?_) fun x hx => .inl (hfile x hx)
      exact hget x (fun hpre => hx (hS x (.inl hpre))) fun heq => hx (hS x (.inr (.inl heq)))
    · exact Within.refl S Q d2
  · have hlen : 2 ≤ (getPath repository location).length := by
      refine (isDir_or_length repository hroots ?_).resolve_left hdir
      simpa using hexists
    refine KeepsAt.bind Within.trans (keepsAt_call fun tree' hcall => ?_) fun _ d2 _ _ => ?_
    · exact .of_edits (removeFile_edits hcall) (hS _ (.inl (List.prefix_refl _)))
        (hS _ (.inr (.inl rfl))) hlen
    · have hkeep := keepsAt_deleteLocal (A := (· = getPath repository location)) m rfl d2
      refine KeepsAt.bind Within.trans (hkeep.mono fun d3 h3 => ?_) fun _ d3 _ _ => ?_
      · refine h3.within (fun r hr => ?_) fun r x hr hx => ?_
        · exact hr ▸ ⟨getPath_ne_nil repository location, .inr hlen⟩
        · exact hS x (.inr (.inr (hr ▸ hx)))
      · exact Within.refl S Q d3

theorem keepsAt_moveFile {source target : Location}
    (hstored : target.val.components.isEmpty = false)
    (hS : ∀ x, (Operation.moveFile source target).reach repository x → S x)
    (hQ : ∀ r, r ≠ [] → r <+: getPath repository target → Q r) :
    KeepsAt (Within S Q) (moveFile m repository source target) d := by
  unfold moveFile
  refine keepsAt_checked repository ?_
  refine KeepsAt.bind_of_look rfl ?_
  split_ifs
  · exact Within.refl S Q d
  · refine keepsAt_creation m repository (fun x hx => hS x (.inr (.inr (.inr (.inr hx)))))
      fun created d2 hcreated => ?_
    obtain ⟨hpath, -, -⟩ := getPathForCreation_spec hcreated
    have hlen := length_getPath repository hstored
    refine KeepsAt.bind Within.trans (keepsAt_call fun tree' hcall => ?_) fun _ d3 hok _ => ?_
    · obtain ⟨hget, hfile⟩ := rename_get hcall
      rw [hpath] at hget hfile
      refine .of_tree (fun x hx => ?_) fun x hx => ?_
      · refine hget x (fun h => hx (hS x (.inl h)))
          (fun h => hx (hS x (.inr (.inr (.inr (.inl h))))))
          (fun h => hx (hS x (.inr (.inl h)))) fun h => hx (hS x (.inr (.inr (.inr (.inr ?_)))))
        exact h ▸ List.dropLast_prefix _
      grind
    · obtain ⟨tree', hcall, -⟩ := call_eq_ok hok
      -- the root of a repository is never moved: that would be a move into itself
      have hsource : 2 ≤ (getPath repository source).length := by grind [length_getPath, getPath,
                                                                 rootPath, absurd, rootPath_above,
                                                                 not_prefix_of_rename]
      have hkeep := keepsAt_deleteLocal (A := (· = getPath repository source)) m rfl d3
      refine KeepsAt.bind Within.trans (hkeep.mono fun d4 h4 => ?_) fun _ d4 _ _ => ?_
      · refine h4.within (fun r hr => ?_) fun r x hr hx => ?_
        · exact hr ▸ ⟨getPath_ne_nil repository source, .inr hsource⟩
        · exact hS x (.inr (.inr (.inl ⟨hsource, hr ▸ hx⟩)))
      · dsimp only
        split_ifs
        · refine KeepsAt.bind Within.trans
            (keepsAt_runPostSaveFile repository hstored hQ hcreated d4) fun _ d5 _ _ => ?_
          exact Within.refl S Q d5
        · exact Within.refl S Q d4

theorem keepsAt_metaOnly (hroots : RootsAreDirectories d.tree)
    (hexists : d.tree.pathExists (getPath repository location) = true)
    (hS : ∀ x, MetaReach (getPath repository location) x → S x)
    (h : KeepsAt (MetaOnly (Eq (getPath repository location))) computation d) :
    KeepsAt (Within S Q) computation d := by
  refine h.mono fun d' h' => h'.within (fun r hr => ?_) fun r x hr hx => hS x (hr ▸ hx)
  exact hr ▸ ⟨getPath_ne_nil repository location, isDir_or_length repository hroots hexists⟩

theorem keepsAt_getFileInformation (hroots : RootsAreDirectories d.tree)
    (hS : ∀ x, MetaReach (getPath repository location) x → S x) :
    KeepsAt (Within S Q) (getFileInformation lib m repository location) d := by
  unfold getFileInformation
  refine keepsAt_checked repository ?_
  refine KeepsAt.bind_of_look rfl ?_
  split_ifs with hexists
  · exact Within.refl S Q d
  · refine KeepsAt.bind Within.trans (keepsAt_metaOnly repository hroots (by simpa using hexists)
      hS (keepsAt_readFromPath lib m rfl d)) fun _ d2 _ _ => ?_
    exact Within.refl S Q d2

theorem keepsAt_getRepositoryMeta (hroots : RootsAreDirectories d.tree)
    (hS : ∀ x, MetaReach (getPath repository location) x → S x) :
    KeepsAt (Within S Q) (getRepositoryMeta lib m repository location) d := by
  unfold getRepositoryMeta
  refine keepsAt_checked repository ?_
  refine KeepsAt.bind_of_look rfl ?_
  split_ifs with hexists
  · exact Within.refl S Q d
  · refine KeepsAt.bind Within.trans (keepsAt_metaOnly repository hroots (by simpa using hexists)
      hS (keepsAt_getOrDefaultLocal lib m rfl none d)) fun found d2 _ _ => ?_
    exact Within.refl S Q d2

theorem keepsAt_putRepositoryMeta (value : RepositoryMeta) (hroots : RootsAreDirectories d.tree)
    (hS : ∀ x, MetaReach (getPath repository location) x → S x) :
    KeepsAt (Within S Q) (putRepositoryMeta lib m repository location value) d := by
  unfold putRepositoryMeta
  refine keepsAt_checked repository ?_
  refine KeepsAt.bind_of_look rfl ?_
  split_ifs with hexists
  · exact Within.refl S Q d
  · exact keepsAt_metaOnly repository hroots (by simpa using hexists) hS
      (keepsAt_setRepositoryMeta lib m rfl value d)

/-! Listing a directory reads the metadata of its visible entries. -/

theorem KeepsAt.attempt {R : LocalDisk → LocalDisk → Prop}
    (h : KeepsAt R computation d) : KeepsAt R (attempt computation) d := by
  unfold KeepsAt Local.attempt at *
  aesop

theorem keepsAt_readEntries {A : DiskPath → Prop} {path : DiskPath} {names : List String}
    (hA : ∀ name ∈ names, A (path ++ [name])) (d : LocalDisk) :
    KeepsAt (MetaOnly A) (readEntries lib m path names) d := by
  induction names generalizing d with
  | nil => exact MetaOnly.refl A d
  | cons name names ih =>
    rw [readEntries]
    refine KeepsAt.bind MetaOnly.trans
      (KeepsAt.attempt (keepsAt_readFromPath lib m (hA name List.mem_cons_self) d))
      fun result d1 _ _ => ?_
    refine KeepsAt.bind MetaOnly.trans
      (ih (fun other h => hA other (List.mem_cons_of_mem _ h)) d1) fun results d2 _ _ => ?_
    exact MetaOnly.refl A d2

/-- A directory and its visible entries. -/
def Listed (path r : DiskPath) : Prop :=
  r = path ∨ ∃ name, isHiddenFile name = false ∧ r = path ++ [name]

theorem keepsAt_openFolder (path : DiskPath) (d : LocalDisk) :
    KeepsAt (MetaOnly (Listed path)) (openFolder lib m path) d := by
  unfold openFolder
  refine KeepsAt.bind_of_look rfl ?_
  dsimp only
  refine KeepsAt.bind MetaOnly.trans (keepsAt_readEntries lib m (fun name hname => ?_) d)
    fun results d1 _ _ => ?_
  · exact .inr ⟨name, by simpa using (List.mem_filter.mp hname).2, rfl⟩
  · refine KeepsAt.bind MetaOnly.trans (keepsAt_readFromDirectory lib m (.inl rfl) d1)
      fun location d2 _ _ => ?_
    refine KeepsAt.bind MetaOnly.trans (keepsAt_orFail _ d2) fun entries d3 _ _ => ?_
    exact MetaOnly.refl _ d3

/-- Changes to the sidecars of a directory that is there, and of its visible entries. -/
theorem keepsAt_listed (hroots : RootsAreDirectories d.tree)
    (hexists : d.tree.pathExists (getPath repository location) = true)
    (hS : ∀ x, (Operation.openFile location).reach repository x → S x)
    (h : KeepsAt (MetaOnly (Listed (getPath repository location))) computation d) :
    KeepsAt (Within S Q) computation d := by
  refine h.mono fun d' h' => h'.within (fun r hr => ?_) fun r x hr hx => hS x ?_
  · rcases hr with rfl | ⟨name, -, rfl⟩
    · exact ⟨getPath_ne_nil repository location, isDir_or_length repository hroots hexists⟩
    · refine ⟨by simp, .inr ?_⟩
      have hpos := List.length_pos_iff.mpr (getPath_ne_nil repository location)
      rw [List.length_append, List.length_singleton]
      omega
  · rcases hr with rfl | ⟨name, hname, rfl⟩
    · exact .inl hx
    · exact .inr ⟨name, hname, hx⟩

theorem keepsAt_openFile (hroots : RootsAreDirectories d.tree)
    (hS : ∀ x, (Operation.openFile location).reach repository x → S x) :
    KeepsAt (Within S Q) (openFile lib m repository location) d := by
  unfold openFile
  refine keepsAt_checked repository ?_
  refine KeepsAt.bind_of_look rfl ?_
  split_ifs with hexists hdir
  · exact Within.refl S Q d
  · have hexists' : d.tree.pathExists (getPath repository location) = true := by
      simpa using hexists
    refine KeepsAt.bind Within.trans (keepsAt_listed repository hroots hexists' hS
      (keepsAt_openFolder lib m _ d)) fun _ d2 _ _ => ?_
    exact Within.refl S Q d2
  · have hexists' : d.tree.pathExists (getPath repository location) = true := by
      simpa using hexists
    refine KeepsAt.bind Within.trans (keepsAt_listed repository hroots hexists' hS
      (keepsAt_readFromFile lib m (.inl rfl) d)) fun found d2 _ _ => ?_
    refine KeepsAt.bind_of_look rfl ?_
    refine KeepsAt.bind Within.trans (withinAt_orFail _) fun content d3 _ _ => ?_
    exact Within.refl S Q d3

theorem keepsAt_streamDirectory (polls : Nat) (hroots : RootsAreDirectories d.tree)
    (hS : ∀ x, (Operation.openFile location).reach repository x → S x) :
    KeepsAt (Within S Q) (streamDirectory lib m repository location polls) d := by
  unfold streamDirectory
  refine keepsAt_checked repository ?_
  refine KeepsAt.bind_of_look rfl ?_
  split
  · next entry hentry =>
    have hexists : d.tree.pathExists (getPath repository location) = true := by
      unfold FileTree.metadata at hentry
      split at hentry
      · next e he => exact pathExists_of_get he
      · cases hentry
    refine keepsAt_listed repository hroots hexists hS ?_
    split_ifs
    · refine KeepsAt.bind MetaOnly.trans (keepsAt_readFromDirectory lib m (.inl rfl) d)
        fun _ d2 _ _ => ?_
      refine KeepsAt.bind MetaOnly.trans (keepsAt_readEntries lib m (fun name hname => ?_) d2)
        fun results d3 _ _ => ?_
      · exact .inr ⟨name, by simpa using (List.mem_filter.mp hname).2, rfl⟩
      · exact MetaOnly.refl _ d3
    · exact MetaOnly.refl _ d
    · refine KeepsAt.bind MetaOnly.trans (keepsAt_readFromFile lib m (.inl rfl) d)
        fun _ d2 _ _ => ?_
      exact MetaOnly.refl _ d2
    · refine KeepsAt.bind MetaOnly.trans (keepsAt_readFromFile lib m (.inl rfl) d)
        fun _ d2 _ _ => ?_
      refine KeepsAt.bind MetaOnly.trans
        (KeepsAt.attempt (keepsAt_readFromPath lib m (.inl rfl) d2)) fun _ d3 _ _ => ?_
      exact MetaOnly.refl _ d3
  · exact Within.refl S Q d
  · exact Within.refl S Q d

theorem keepsAt_deleteRepository (hroots : RootsAreDirectories d.tree)
    (hS : ∀ x, Operation.deleteRepository.reach repository x → S x) :
    KeepsAt (Within S Q) (deleteRepository m repository) d := by
  unfold deleteRepository
  refine KeepsAt.bind_of_look rfl ?_
  split_ifs with hexists hdir
  · exact Within.refl S Q d
  · refine keepsAt_call fun tree' hcall => ?_
    obtain ⟨hget, hfile⟩ := removeDirAll_get hcall
    refine .of_tree (fun x hx => ?_) fun x hx => .inl (hfile x hx)
    exact hget x (fun hpre => hx (hS x (.inl hpre))) fun heq => hx (hS x (.inr heq))
  · exact absurd (isDir_rootPath repository hroots (by simpa using hexists)) hdir

theorem keepsAt_registerPrecomputedHash (hashes : FileHashes) :
    KeepsAt (Within S Q) (registerPrecomputedHash repository location hashes) d := by
  unfold KeepsAt registerPrecomputedHash
  split <;> exact ⟨fun _ _ => rfl, fun _ hr => .inl hr, fun h => h⟩

/-- **What an operation changes.** -/
theorem keepsAt_perform (operation : Operation) (hroots : RootsAreDirectories d.tree)
    (hstored : ∀ location, operation.stored = some location →
      location.val.components.isEmpty = false) :
    KeepsAt (Within (operation.reach repository) (operation.queues repository))
      (operation.perform lib m repository) d := by
  cases operation with
  | saveFile content location =>
    exact (keepsAt_saveFile m repository content (hstored location rfl) (fun x hx => hx)
      fun r hne hpre => ⟨location, rfl, hne, hpre⟩).discard
  | appendFile content location =>
    exact (keepsAt_appendFile m repository content (hstored location rfl) fun x hx => hx).discard
  | openAppendHandle location =>
    exact (keepsAt_openAppendHandle m repository (hstored location rfl) fun x hx => hx).discard
  | deleteFile location =>
    exact (keepsAt_deleteFile m repository hroots fun x hx => hx).discard
  | moveFile source target =>
    exact (keepsAt_moveFile m repository (hstored target rfl) (fun x hx => hx)
      fun r hne hpre => ⟨target, rfl, hne, hpre⟩).discard
  | getFileInformation location =>
    exact (keepsAt_getFileInformation lib m repository hroots fun x hx => hx).discard
  | getRepositoryMeta location =>
    exact (keepsAt_getRepositoryMeta lib m repository hroots fun x hx => hx).discard
  | putRepositoryMeta location value =>
    exact keepsAt_putRepositoryMeta lib m repository value hroots fun x hx => hx
  | openFile location =>
    exact (keepsAt_openFile lib m repository hroots fun x hx => hx).discard
  | streamDirectory location polls =>
    exact (keepsAt_streamDirectory lib m repository polls hroots fun x hx => hx).discard
  | deleteRepository => exact keepsAt_deleteRepository m repository hroots fun x hx => hx
  | registerPrecomputedHash location hashes =>
    exact keepsAt_registerPrecomputedHash repository hashes

/-- **What an update by the background task changes.** -/
theorem keepsAt_updateMeta {path : DiskPath} (hroots : RootsAreDirectories d.tree) (hne : path ≠ [])
    (hpre : path <+: getPath repository location) :
    KeepsAt (Within (MetaReach path) fun _ => False) (updateMeta lib m path) d := by
  unfold updateMeta
  refine KeepsAt.bind_of_look rfl ?_
  split_ifs with hexists
  · exact Within.refl _ _ d
  · have hkeep : KeepsAt (MetaOnly (Eq path)) (do
        let precomputed ← updateMeta.takePrecomputedHash path
        createMetaOrUpdate lib m path precomputed) d := by
      refine KeepsAt.bind MetaOnly.trans ?_ fun hashes d1 _ _ => ?_
      · exact ⟨fun _ _ => rfl, fun _ => rfl, fun _ _ => rfl, rfl⟩
      · exact keepsAt_createMetaOrUpdate lib m rfl hashes d1
    refine hkeep.mono fun d' h' => h'.within (fun r hr => ?_) fun r x hr hx => hr ▸ hx
    refine hr ▸ ⟨hne, ?_⟩
    -- a path of one component is the root, and there it is a directory
    by_cases hlen : 2 ≤ path.length
    · exact .inr hlen
    · have hroot : path = rootPath repository := by
        cases path with
        | nil => exact absurd rfl hne
        | cons name rest =>
          rw [List.length_cons] at hlen
          have hrest : rest = [] := List.length_eq_zero_iff.mp (by omega)
          subst hrest
          obtain ⟨more, hmore⟩ := hpre
          rw [rootPath, ← (List.cons.inj hmore).1]
      left
      subst hroot
      exact isDir_rootPath repository hroots (by simpa using hexists)

end Operations

end Pkgly.Local
