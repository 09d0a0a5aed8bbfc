import Pkgly.Storage.Local.Equiv.LocalStorage

/-!
# Confinement and isolation of the local storage

`isolated_of_proper`: on files that hold no file in place of a repository's directory, in every run
in which no operation names a hidden path and none stores a file at the root of a repository, each
step stays in its repository, and the metadata of a visible path is changed by no operation but
those on the path, below it, and on the directories it lies in.

What an operation may change (`Operation.reach`) misses what the metadata of an unconcerned path
depends on (`Footprint`): the sidecars have hidden names, and different files have different ones.
Both fail at a client's path that has the name of a sidecar, and at a file in place of a
repository's directory, whose own sidecar lies outside (`not_isolated_deleteSidecar`).
-/

namespace Pkgly.Local

open Effect FileTree

/-! ### Names that are not hidden -/

theorem ne_empty_of_mem_getPath {repository : Repository} {location : Location} {name : String}
    (h : name ∈ getPath repository location) : name ≠ "" := by
  rcases List.mem_append.mp h with hroot | hcomponent
  · rw [rootPath, List.mem_singleton] at hroot
    subst hroot
    have hshape := repository.property
    rw [isUuidText, Bool.and_eq_true] at hshape
    intro hempty
    rw [hempty] at hshape
    exact absurd hshape.1 (by decide)
  · have hcomponents := location.property
    simp_all [StoragePath.wellFormed, List.all_eq_true, Bool.and_eq_true, bne_iff_ne]

def tmpName (newUuid name : String) : String :=
  name ++ repoMetaFile ++ (".tmp-" ++ (newUuid ++ ("." ++ repoMetaExtension)))

theorem tmpName_eq (newUuid name : String) :
    tmpName newUuid name = name ++ (".nr-meta.tmp-" ++ newUuid) ++ repoMetaFile := by
  refine String.toList_inj.mp ?_
  simp [tmpName, repoMetaFile, repoMetaExtension]

theorem append_repoMetaFile_inj {name name' : String}
    (h : name ++ repoMetaFile = name' ++ repoMetaFile) : name = name' :=
  (String.append_left_inj _).mp h

theorem isHiddenFile_tmpName (newUuid name : String) :
    isHiddenFile (tmpName newUuid name) = true := by
  rw [tmpName_eq]
  exact isHiddenFile_append_repoMetaFile _

/-! ### The footprint of a visible path -/

section Footprint

variable {newUuid : String} {p q x : DiskPath}

/-- The footprint of `parent ++ [name]`: below it, or one of two hidden names beside it. -/
theorem footprint_concat {parent : DiskPath} {name : String}
    (h : Footprint newUuid (parent ++ [name]) x) :
    parent ++ [name] <+: x ∨ x = parent ++ [name ++ repoMetaFile] ∨
      x = parent ++ [tmpName newUuid name] := by
  unfold Footprint at h
  rw [withMetaExtension_concat] at h
  rcases h with hbelow | hsidecar | ⟨fileName, hlast, htmp⟩
  · exact .inl hbelow
  · exact .inr (.inl hsidecar)
  · rw [List.getLast?_concat, Option.some.injEq] at hlast
    rw [htmp, tmpPath, List.dropLast_concat, ← hlast]
    exact .inr (.inr rfl)

theorem exists_concat (hne : p ≠ []) : ∃ parent name, p = parent ++ [name] := by
  rcases List.eq_nil_or_concat p with hnil | ⟨parent, name, hp⟩
  · exact absurd hnil hne
  · exact ⟨parent, name, by rw [hp, List.concat_eq_append]⟩

theorem concat_inj {parent parent' : DiskPath} {name name' : String}
    (h : parent ++ [name] = parent' ++ [name']) : parent = parent' ∧ name = name' := by
  simp_all

theorem exists_of_footprint (hne : p ≠ []) (h : Footprint newUuid p x) :
    p <+: x ∨ ∃ hidden, isHiddenFile hidden = true ∧ x = p.dropLast ++ [hidden] := by
  obtain ⟨parent, name, rfl⟩ := exists_concat hne
  rw [List.dropLast_concat]
  rcases footprint_concat h with hbelow | hsidecar | htmp
  · exact .inl hbelow
  · exact .inr ⟨_, isHiddenFile_append_repoMetaFile name, hsidecar⟩
  · exact .inr ⟨_, isHiddenFile_tmpName newUuid name, htmp⟩

theorem not_footprint_of_above (hne : p ≠ []) (hq : Visible q) (hpq : ¬ p <+: q) (hx : x <+: q) :
    ¬ Footprint newUuid p x := by
  intro h
  rcases exists_of_footprint hne h with hbelow | ⟨hidden, hhidden, rfl⟩
  · exact hpq (hbelow.trans hx)
  · exact hq.not_mem hhidden (hx.subset (by simp))

theorem not_footprint_of_below (hne : p ≠ []) (hq : Visible q) (hpq : ¬ p <+: q)
    (hqp : ¬ q <+: p) (hx : q <+: x) : ¬ Footprint newUuid p x := by
  intro h
  rcases exists_of_footprint hne h with hbelow | ⟨hidden, hhidden, rfl⟩
  · grind [List.prefix_or_prefix_of_prefix]
  · rcases List.prefix_concat_iff.mp hx with heq | hup
    · exact hq.not_mem hhidden (heq ▸ by simp)
    · exact hqp (hup.trans (List.dropLast_prefix p))

theorem not_footprint_of_metaReach (hne : p ≠ []) (hp : Visible p) (hname : ∀ name ∈ p, name ≠ "")
    (hq : Visible q) (hpq : ¬ p <+: q) (hx : MetaReach q x) : ¬ Footprint newUuid p x := by
  rcases hx with hx | rfl | ⟨hlen, hx | rfl⟩
  · -- the sidecar in the directory `q`
    intro h
    obtain ⟨parent, name, rfl⟩ := exists_concat hne
    rcases footprint_concat h with hbelow | hsidecar | htmp
    · rw [hx] at hbelow
      rcases List.prefix_concat_iff.mp hbelow with heq | hup
      · exact hp.not_mem (isHiddenFile_append_repoMetaFile "") (heq ▸ by simp [repoMetaFile])
      · exact hpq hup
    · simp_all
    · have hempty := (concat_inj (htmp.symm.trans hx)).2
      rw [tmpName_eq] at hempty
      have hlength := congrArg (fun s => s.toList.length) hempty
      simp at hlength
      omega
  · exact not_footprint_of_above hne hq hpq (List.prefix_refl _)
  · -- the sidecar beside the file `q`
    intro h
    obtain ⟨parent, name, rfl⟩ := exists_concat hne
    obtain ⟨up, file, rfl⟩ := exists_concat (p := q) (fun hnil => by simp [hnil] at hlen)
    rw [withMetaExtension_concat] at hx
    rcases footprint_concat h with hbelow | hsidecar | htmp
    · rw [hx] at hbelow
      rcases List.prefix_concat_iff.mp hbelow with heq | hup
      · exact hp.not_mem (isHiddenFile_append_repoMetaFile file) (heq ▸ by simp)
      · exact hpq (hup.trans (List.prefix_append _ _))
    · simp_all
    · -- a file named like a temporary file is hidden
      have hsame := (concat_inj (htmp.symm.trans hx)).2
      rw [tmpName_eq] at hsame
      refine hq.not_mem (isHiddenFile_append_tmp name newUuid) ?_
      rw [append_repoMetaFile_inj hsame]
      simp
  · exact not_footprint_of_above hne hq hpq (List.dropLast_prefix _)

end Footprint

/-! ### Proper operations and the paths they concern -/

def Operation.locations : Operation → List Location
  | .saveFile _ location | .appendFile _ location | .openAppendHandle location
  | .deleteFile location | .getFileInformation location | .getRepositoryMeta location
  | .putRepositoryMeta location _ | .openFile location | .streamDirectory location _
  | .registerPrecomputedHash location _ => [location]
  | .moveFile source target => [source, target]
  | .deleteRepository => []

/-- The operation names no hidden path and stores no file at the root of its repository. -/
def Operation.proper (operation : Operation) : Bool :=
  operation.locations.all Location.visible &&
    operation.stored.all fun location => !location.val.components.isEmpty

def comparable (p q : DiskPath) : Bool := p.isPrefixOf q || q.isPrefixOf p

/-- The operation is one on the path `p`, on a path below it or, where it removes, moves or lists
whole directories, on a directory that `p` lies in. -/
def Operation.concerns (repository : Repository) (p : DiskPath) : Operation → Bool
  | .saveFile _ location | .appendFile _ location | .openAppendHandle location
  | .getFileInformation location | .getRepositoryMeta location | .putRepositoryMeta location _
  | .registerPrecomputedHash location _ => p.isPrefixOf (getPath repository location)
  | .deleteFile location => comparable p (getPath repository location)
  | .moveFile source target =>
    comparable p (getPath repository source) || comparable p (getPath repository target)
  | .openFile location | .streamDirectory location _ =>
    p.isPrefixOf (getPath repository location) || p.dropLast == getPath repository location
  | .deleteRepository => (rootPath repository).isPrefixOf p

section Reach

variable {repository : Repository} {operation : Operation} {newUuid : String} {p q x : DiskPath}

theorem visible_of_proper {location : Location} (h : operation.proper = true)
    (hmem : location ∈ operation.locations) : Visible (getPath repository location) := by
  rw [Operation.proper, Bool.and_eq_true, List.all_eq_true] at h
  exact visible_getPath (h.1 location hmem)

theorem nonempty_of_proper {location : Location} (h : operation.proper = true)
    (hstored : operation.stored = some location) :
    location.val.components.isEmpty = false := by
  rw [Operation.proper, hstored, Bool.and_eq_true] at h
  simpa using h.2

theorem not_prefix_of_isPrefixOf (h : p.isPrefixOf q = false) : ¬ p <+: q := fun hpre => by
  rw [List.isPrefixOf_iff_prefix.mpr hpre] at h
  cases h

theorem not_prefix_of_comparable (h : comparable p q = false) : ¬ p <+: q ∧ ¬ q <+: p := by
  grind [comparable, Bool.or_eq_false_iff, not_prefix_of_isPrefixOf]

theorem not_footprint_of_listed (hne : p ≠ []) (hp : Visible p) (hname : ∀ name ∈ p, name ≠ "")
    (hq : Visible q) (hpq : (p.isPrefixOf q || p.dropLast == q) = false)
    (hx : MetaReach q x ∨ ∃ name, isHiddenFile name = false ∧ MetaReach (q ++ [name]) x) :
    ¬ Footprint newUuid p x := by
  rw [Bool.or_eq_false_iff, beq_eq_false_iff_ne] at hpq
  have hpre := not_prefix_of_isPrefixOf hpq.1
  rcases hx with hself | ⟨name, hvisible, hentry⟩
  · exact not_footprint_of_metaReach hne hp hname hq hpre hself
  · have hq' : Visible (q ++ [name]) := by grind [Visible]
    refine not_footprint_of_metaReach hne hp hname hq' (fun h => ?_) hentry
    rcases List.prefix_concat_iff.mp h with heq | hup
    · exact hpq.2 (by rw [heq, List.dropLast_concat])
    · exact hpre hup

/-- **Isolation of one operation**: what it may change misses the footprint of every visible path
that it does not concern. -/
theorem not_footprint_of_reach (hproper : operation.proper = true) (hne : p ≠ [])
    (hp : Visible p) (hname : ∀ name ∈ p, name ≠ "")
    (hconcerns : operation.concerns repository p = false)
    (hx : operation.reach repository x) : ¬ Footprint newUuid p x := by
  cases operation with
  | saveFile content location | appendFile content location | openAppendHandle location =>
    exact not_footprint_of_above hne (visible_of_proper hproper (by simp [Operation.locations]))
      (not_prefix_of_isPrefixOf hconcerns) hx
  | deleteFile location =>
    have hq : Visible (getPath repository location) :=
      visible_of_proper hproper (by simp [Operation.locations])
    obtain ⟨hpq, hqp⟩ := not_prefix_of_comparable hconcerns
    rcases hx with hbelow | rfl | hmeta
    · exact not_footprint_of_below hne hq hpq hqp hbelow
    · exact not_footprint_of_above hne hq hpq (List.dropLast_prefix _)
    · exact not_footprint_of_metaReach hne hp hname hq hpq hmeta
  | moveFile source target =>
    have hs : Visible (getPath repository source) :=
      visible_of_proper hproper (by simp [Operation.locations])
    have ht : Visible (getPath repository target) :=
      visible_of_proper hproper (by simp [Operation.locations])
    rw [Operation.concerns, Bool.or_eq_false_iff] at hconcerns
    obtain ⟨hps, hsp⟩ := not_prefix_of_comparable hconcerns.1
    obtain ⟨hpt, htp⟩ := not_prefix_of_comparable hconcerns.2
    rcases hx with hbelow | rfl | ⟨-, hmeta⟩ | hbelow | habove
    · exact not_footprint_of_below hne hs hps hsp hbelow
    · exact not_footprint_of_above hne hs hps (List.dropLast_prefix _)
    · exact not_footprint_of_metaReach hne hp hname hs hps hmeta
    · exact not_footprint_of_below hne ht hpt htp hbelow
    · exact not_footprint_of_above hne ht hpt habove
  | getFileInformation location | getRepositoryMeta location | putRepositoryMeta location value =>
    exact not_footprint_of_metaReach hne hp hname
      (visible_of_proper hproper (by simp [Operation.locations]))
      (not_prefix_of_isPrefixOf hconcerns) hx
  | openFile location | streamDirectory location polls =>
    exact not_footprint_of_listed hne hp hname
      (visible_of_proper hproper (by simp [Operation.locations])) hconcerns hx
  | deleteRepository =>
    have hroot : Visible (rootPath repository) := by
      intro name hmem
      rw [rootPath, List.mem_singleton] at hmem
      rw [hmem]
      exact isHiddenFile_repository repository
    have hqp := not_prefix_of_isPrefixOf hconcerns
    have hpq : ¬ p <+: rootPath repository := by
      intro h
      rcases List.prefix_cons_iff.mp h with hnil | ⟨rest, rfl, hrest⟩
      · exact hne hnil
      · rw [List.prefix_nil.mp hrest] at hqp
        exact hqp (List.prefix_refl _)
    rcases hx with hbelow | rfl
    · exact not_footprint_of_below hne hroot hpq hqp hbelow
    · exact not_footprint_of_above hne hroot hpq List.nil_prefix
  | registerPrecomputedHash location hashes => exact hx.elim

theorem singleton_prefix_of_metaReach {name : String} (hq : [name] <+: q) (hx : MetaReach q x) :
    [name] <+: x := by
  rcases hx with rfl | rfl | ⟨hlen, hx⟩
  · exact hq.trans (List.prefix_append _ _)
  · exact hq
  · obtain ⟨up, file, rfl⟩ := exists_concat (p := q) (fun hnil => by simp [hnil] at hlen)
    -- what lies beside `q` lies below the name that `q` starts with, `q` being longer than that
    have hup : [name] <+: up := by
      rcases List.prefix_concat_iff.mp hq with heq | hpre
      · rw [← heq] at hlen
        simp at hlen
      · exact hpre
    rcases hx with rfl | rfl
    · rw [withMetaExtension_concat]
      exact hup.trans (List.prefix_append _ _)
    · rw [List.dropLast_concat]
      exact hup

/-- **Confinement of one operation**: what it may change lies in its repository, but for the time
of the directory of the storage. -/
theorem inRepository_of_reach
    (hx : operation.reach repository x) : rootPath repository <+: x ∨ x = [] := by
  -- on the way to a location of the repository there is nothing else
  have habove : ∀ location x, x <+: getPath repository location →
      rootPath repository <+: x ∨ x = [] := by
    intro location x h
    cases x with
    | nil => exact .inr rfl
    | cons name rest =>
      refine .inl ⟨rest, ?_⟩
      obtain ⟨more, hmore⟩ := h
      rw [List.cons_append] at hmore
      rw [rootPath, (List.cons.inj hmore).1]
      rfl
  have hmeta : ∀ q, rootPath repository <+: q → MetaReach q x → rootPath repository <+: x :=
    fun q hq h => singleton_prefix_of_metaReach hq h
  have hroot := rootPath_above repository
  cases operation with
  | saveFile content location | appendFile content location => exact habove location x hx
  | openAppendHandle location => exact habove location x hx
  | deleteFile location =>
    rcases hx with hbelow | rfl | h
    · exact .inl ((hroot location).trans hbelow)
    · exact habove location _ (List.dropLast_prefix _)
    · exact .inl (hmeta _ (hroot location) h)
  | moveFile source target =>
    rcases hx with hbelow | rfl | ⟨-, h⟩ | hbelow | hup
    · exact .inl ((hroot source).trans hbelow)
    · exact habove source _ (List.dropLast_prefix _)
    · exact .inl (hmeta _ (hroot source) h)
    · exact .inl ((hroot target).trans hbelow)
    · exact habove target x hup
  | getFileInformation location => exact .inl (hmeta _ (hroot location) hx)
  | getRepositoryMeta location => exact .inl (hmeta _ (hroot location) hx)
  | putRepositoryMeta location value => exact .inl (hmeta _ (hroot location) hx)
  | openFile location | streamDirectory location polls =>
    rcases hx with h | ⟨name, -, h⟩
    · exact .inl (hmeta _ (hroot location) h)
    · exact .inl (hmeta _ ((hroot location).trans (List.prefix_append _ _)) h)
  | deleteRepository => exact hx
  | registerPrecomputedHash location hashes => exact hx.elim

end Reach

/-! ### The metadata read at a path -/

section Read

variable (lib : Libraries) (m : Moment) {repository : Repository} {location : Location}
  {d e : LocalDisk}

theorem agreeAt_checked {newUuid : String} {α : Type} {f : DiskPath → LocalIO α}
    (h : SameMeta newUuid (getPath repository location) d e)
    (hf : AgreeAt (SameMeta newUuid (getPath repository location))
      (f (getPath repository location)) (f (getPath repository location)) d e) :
    AgreeAt (SameMeta newUuid (getPath repository location))
      (do
        let path ← orFail (checkedPath (← files) repository location)
        f path)
      (do
        let path ← orFail (checkedPath (← files) repository location)
        f path) d e := by
  refine AgreeAt.bind_of_look rfl rfl ?_
  rw [checkedPath_of_pathExists h.pathExists, checkedPath_of_pathExists h.pathExists_right]
  refine AgreeAt.bind (agreeAt_orFail _ h) fun path d1 e1 hd he h1 => ?_
  obtain ⟨hchecked, rfl⟩ := orFail_eq_ok hd
  obtain ⟨-, rfl⟩ := orFail_eq_ok he
  grind

theorem answer_getFileInformation (h : SameMeta m.newUuid (getPath repository location) d e) :
    answer (getFileInformation lib m repository location d) =
      answer (getFileInformation lib m repository location e) := by
  refine (agreeAt_checked h ?_).1
  refine AgreeAt.bind_of_look rfl rfl ?_
  rw [h.pathExists, h.pathExists_right]
  exact AgreeAt.bind (agreeAt_readFromPath lib m h) fun found d1 e1 _ _ h1 => ⟨rfl, h1⟩

theorem answer_getRepositoryMeta (h : SameMeta m.newUuid (getPath repository location) d e) :
    answer (getRepositoryMeta lib m repository location d) =
      answer (getRepositoryMeta lib m repository location e) := by
  refine (agreeAt_checked h ?_).1
  refine AgreeAt.bind_of_look rfl rfl ?_
  rw [h.pathExists, h.pathExists_right]
  exact AgreeAt.bind (agreeAt_getOrDefaultLocal lib m none h) fun found d1 e1 _ _ h1 => ⟨rfl, h1⟩

end Read

/-! ### Steps -/

/-- The action names no hidden path and stores no file at the root of a repository. -/
def Action.proper : Action → Bool
  | .operate _ operation _ => operation.proper
  | .update _ _ => true

def Action.concerns (p : DiskPath) : Action → Bool
  | .operate repository operation _ => operation.concerns repository p
  | .update _ _ => false

def Action.home : Action → Option String
  | .operate repository _ _ => some repository.val
  | .update path _ => path.head?

/-- Between the two states the action has changed nothing outside the directory of its repository.
(The time of the directory of the storage itself does not count.) -/
def StaysHome (a : Action) (d d' : LocalDisk) : Prop :=
  ∀ x, x ≠ [] → d'.tree.get x ≠ d.tree.get x → ∃ name, a.home = some name ∧ [name] <+: x

/-- What holds in every state of a run of proper actions. -/
structure Consistent (d : LocalDisk) : Prop where
  roots : RootsAreDirectories d.tree
  queued : ∀ r ∈ d.queue, r ≠ [] ∧ ∃ repository location,
    location.visible = true ∧ r <+: getPath repository location

def Settled (p : DiskPath) (d : LocalDisk) : Prop := ∀ r ∈ d.queue, ¬ p <+: r

section Step

variable {lib : Libraries} {d d' : LocalDisk} {a : Action} {p : DiskPath}

theorem mem_locations_of_stored {operation : Operation} {location : Location}
    (h : operation.stored = some location) : location ∈ operation.locations := by
  cases operation <;> cases h <;> simp [Operation.locations]

theorem not_prefix_of_stored {operation : Operation} {repository : Repository}
    {location : Location} (hconcerns : operation.concerns repository p = false)
    (h : operation.stored = some location) : ¬ p <+: getPath repository location := by
  cases operation with
  | saveFile content location' | appendFile content location' | openAppendHandle location' =>
    cases h
    exact not_prefix_of_isPrefixOf hconcerns
  | moveFile source target =>
    cases h
    rw [Operation.concerns, Bool.or_eq_false_iff] at hconcerns
    exact (not_prefix_of_comparable hconcerns.2).1
  | _ => cases h

theorem within_of_step (hd : Consistent d) (hproper : a.proper = true)
    (hstep : step lib d a = some d') :
    match a with
    | .operate repository operation _ =>
      Within (operation.reach repository) (operation.queues repository) d d'
    | .update path _ => path ∈ d.queue ∧ Within (MetaReach path) (fun _ => False) d d' := by
  cases a with
  | operate repository operation m =>
    obtain rfl := Option.some.inj hstep
    exact keepsAt_perform lib m repository operation hd.roots fun location h =>
      nonempty_of_proper hproper h
  | update path m =>
    rw [step] at hstep
    split_ifs at hstep with hmem
    obtain rfl := Option.some.inj hstep
    obtain ⟨hne, repository, location, -, hpre⟩ := hd.queued path hmem
    have hkeep := keepsAt_updateMeta lib m repository (d := { d with queue := d.queue.erase path })
      hd.roots hne hpre
    refine ⟨hmem, hkeep.get_eq, fun r hr => ?_, hkeep.roots⟩
    exact (hkeep.queued r hr).imp List.mem_of_mem_erase id

theorem consistent_of_step (hd : Consistent d) (hproper : a.proper = true)
    (hstep : step lib d a = some d') : Consistent d' := by
  have hwithin := within_of_step hd hproper hstep
  cases a with
  | operate repository operation m =>
    refine ⟨hwithin.roots hd.roots, fun r hr => ?_⟩
    rcases hwithin.queued r hr with hold | ⟨location, hstored, hne, hpre⟩
    · exact hd.queued r hold
    · refine ⟨hne, repository, location, ?_, hpre⟩
      rw [Action.proper, Operation.proper, Bool.and_eq_true, List.all_eq_true] at hproper
      exact hproper.1 location (mem_locations_of_stored hstored)
  | update path m =>
    obtain ⟨-, hwithin⟩ := hwithin
    refine ⟨hwithin.roots hd.roots, fun r hr => ?_⟩
    exact hd.queued r ((hwithin.queued r hr).resolve_right id)

theorem staysHome_of_step (hd : Consistent d) (hproper : a.proper = true)
    (hstep : step lib d a = some d') : StaysHome a d d' := by
  intro x hx hchanged
  have hwithin := within_of_step hd hproper hstep
  cases a with
  | operate repository operation m =>
    have hreach : operation.reach repository x := by
      by_contra hreach
      exact hchanged (hwithin.get_eq x hreach)
    exact ⟨repository.val, rfl, (inRepository_of_reach hreach).resolve_right hx⟩
  | update path m =>
    obtain ⟨hmem, hwithin⟩ := hwithin
    have hreach : MetaReach path x := by
      by_contra hreach
      exact hchanged (hwithin.get_eq x hreach)
    obtain ⟨hne, repository, location, -, hpre⟩ := hd.queued path hmem
    -- the update of a path is one of the operations on it
    cases path with
    | nil => exact absurd rfl hne
    | cons name rest =>
      exact ⟨name, rfl, singleton_prefix_of_metaReach ⟨rest, rfl⟩ hreach⟩

/-- An action leaves the footprint of every visible path that neither it nor an update that is due
concerns, and makes no such update due. -/
theorem untouched_of_step (hd : Consistent d) (hproper : a.proper = true)
    (hstep : step lib d a = some d') (hne : p ≠ []) (hp : Visible p)
    (hname : ∀ name ∈ p, name ≠ "") (hconcerns : a.concerns p = false) (hsettled : Settled p d) :
    (∀ newUuid x, Footprint newUuid p x → d'.tree.get x = d.tree.get x) ∧ Settled p d' := by
  have hwithin := within_of_step hd hproper hstep
  cases a with
  | operate repository operation m =>
    refine ⟨fun newUuid x hx => hwithin.get_eq x fun hreach => ?_, fun r hr => ?_⟩
    · exact not_footprint_of_reach hproper hne hp hname hconcerns hreach hx
    · rcases hwithin.queued r hr with hold | ⟨location, hstored, -, hpre⟩
      · exact hsettled r hold
      · exact fun h => not_prefix_of_stored hconcerns hstored (h.trans hpre)
  | update path m =>
    obtain ⟨hmem, hwithin⟩ := hwithin
    refine ⟨fun newUuid x hx => hwithin.get_eq x fun hreach => ?_, fun r hr => ?_⟩
    · obtain ⟨-, repository, location, hvisible, hpre⟩ := hd.queued path hmem
      exact not_footprint_of_metaReach hne hp hname ((visible_getPath hvisible).above hpre)
        (hsettled path hmem) hreach hx
    · exact hsettled r ((hwithin.queued r hr).resolve_right id)

end Step

/-! ### Runs -/

def Confined (lib : Libraries) (start : LocalDisk) (actions : List Action) : Prop :=
  StepsOk (step lib) (fun d a => ∀ d', step lib d a = some d' → StaysHome a d d') start actions

/-- Over every part of the run in which no action concerns the location, and at whose beginning no
update is due at or below it, the location neither comes nor goes, and where it is, its metadata is
read the same afterwards. -/
def Isolated (lib : Libraries) (start : LocalDisk) (actions : List Action)
    (repository : Repository) (location : Location) : Prop :=
  ∀ before after d d', actions = before ++ after → run (step lib) start before = some d →
    run (step lib) d after = some d' →
    (∀ a ∈ after, a.concerns (getPath repository location) = false) →
    Settled (getPath repository location) d →
    d'.tree.pathExists (getPath repository location) =
      d.tree.pathExists (getPath repository location) ∧
    (d.tree.pathExists (getPath repository location) = true → ∀ m,
      answer (getFileInformation lib m repository location d') =
        answer (getFileInformation lib m repository location d) ∧
      answer (getRepositoryMeta lib m repository location d') =
        answer (getRepositoryMeta lib m repository location d))

theorem untouched_of_run {lib : Libraries} {d d' : LocalDisk} {actions : List Action}
    {p : DiskPath} (hd : Consistent d) (hproper : ∀ a ∈ actions, a.proper = true)
    (hne : p ≠ []) (hp : Visible p) (hname : ∀ name ∈ p, name ≠ "")
    (hconcerns : ∀ a ∈ actions, a.concerns p = false) (hsettled : Settled p d)
    (hrun : run (step lib) d actions = some d') (newUuid : String) (x : DiskPath)
    (hx : Footprint newUuid p x) : d'.tree.get x = d.tree.get x := by
  induction actions generalizing d with
  | nil =>
    obtain rfl := Option.some.inj hrun
    rfl
  | cons a actions ih =>
    obtain ⟨d1, hstep, hrest⟩ := run_cons_eq_some.mp hrun
    grind [List.mem_cons_self, untouched_of_step, consistent_of_step, List.mem_cons_of_mem]

theorem consistent_opened {tree : Files} (precomputed : Store DiskPath FileHashes)
    (hroots : RootsAreDirectories tree) : Consistent (opened tree precomputed) :=
  ⟨hroots, fun _ hr => by cases hr⟩

/-- **Confinement and isolation.** -/
theorem isolated_of_proper (lib : Libraries) {tree : Files}
    (precomputed : Store DiskPath FileHashes) {actions : List Action}
    (hroots : RootsAreDirectories tree) (hproper : ∀ a ∈ actions, a.proper = true) :
    Confined lib (opened tree precomputed) actions ∧
      ∀ repository location, location.visible = true →
        Isolated lib (opened tree precomputed) actions repository location := by
  have hkeep : ∀ d a d', Consistent d → a.proper = true → step lib d a = some d' →
      Consistent d' := fun d a d' => consistent_of_step
  have hstart := consistent_opened precomputed hroots
  constructor
  · exact StepsOk.of_invariant (P := fun _ a => a.proper = true) (I := Consistent) hkeep
      (fun d a hd ha d' hstep => staysHome_of_step hd ha hstep) hstart (stepsOk_of_mem hproper _)
  · intro repository location hvisible before after d d' hsplit hbefore hafter hconcerns hsettled
    subst hsplit
    have hd : Consistent d := run_invariant_of_stepsOk (P := fun _ a => a.proper = true) hkeep
      hstart (stepsOk_of_mem (fun a ha => hproper a (List.mem_append_left after ha)) _) hbefore
    have hget := untouched_of_run hd (fun a ha => hproper a (List.mem_append_right before ha))
      (getPath_ne_nil repository location) (visible_getPath hvisible)
      (fun name => ne_empty_of_mem_getPath) hconcerns hsettled hafter
    have hself := hget "" _ (.inl (List.prefix_refl _))
    refine ⟨by rw [FileTree.pathExists, FileTree.pathExists, hself], fun hexists m => ?_⟩
    have hsame : SameMeta m.newUuid (getPath repository location) d d' :=
      ⟨hexists, fun x hx => (hget m.newUuid x hx).symm⟩
    exact ⟨(answer_getFileInformation lib m hsame).symm,
      (answer_getRepositoryMeta lib m hsame).symm⟩

/-! ### A run that keeps to visible names, and runs that do not -/

section Example

def someRepository : Repository := ⟨"6f1c9a52-0b7e-4d7e-9a35-2f1d4c8e7b10", by decide⟩

/-- The root of the repository, and three names in one of its directories. -/
def root : Location := ⟨.ofString "", by decide⟩

def jar : Location := ⟨.ofString "lib/a.jar", by decide⟩

def otherJar : Location := ⟨.ofString "lib/b.jar", by decide⟩

def jarSidecar : Location := ⟨.ofString "lib/a.jar.nr-meta", by decide⟩

def projectMeta : RepositoryMeta := ⟨some 7, none, []⟩

def hello : Bytes := [104, 101, 108, 108, 111]

def helloHashes : FileHashes :=
  ⟨some "XUFAKrxLKna5cZ2REBfFkg==", some "qvTGHdzF6KLavt4PO0gs2a6pQ00=",
    some "LPJNul+wow4m6DsqxbninhsWHlwfp0JecwQzYpOLmCQ=",
    some "Mzi+aU9QxfM4gUmGzfBoZFOoiLhPQk15KvS5ICOY85I="⟩

/-- The metadata that is written in the runs below. -/
def knownMetas : List LocationMeta :=
  [⟨1, 1, .file helloHashes, .default⟩, ⟨1, 1, .file helloHashes, projectMeta⟩,
    ⟨1, 3, .directory 2, .default⟩]

/-- Stand-ins that do on the runs below what the libraries do: the digests of `hello`, and an
encoding that is read back. -/
def someLibraries : Libraries where
  generateHashes _ := helloHashes
  toAllocvec location := [UInt8.ofNat (knownMetas.idxOf location)]
  fromBytes bytes :=
    match bytes with
    | [index] => knownMetas[index.toNat]?
    | _ => none
  guessMime _ := "application/java-archive"

def storeJar : List Action :=
  [.operate someRepository (.saveFile hello jar) ⟨1, "e9b1"⟩,
    .operate someRepository (.putRepositoryMeta jar projectMeta) ⟨2, "e9b2"⟩]

/-- Beside it another one comes and goes, and the directory's sidecar is updated in between. -/
def passOtherJar : List Action :=
  [.operate someRepository (.saveFile hello otherJar) ⟨3, "e9b3"⟩,
    .update (getPath someRepository jar).dropLast ⟨4, "e9b4"⟩,
    .operate someRepository (.deleteFile otherJar) ⟨5, "e9b5"⟩]

def deleteSidecar : List Action :=
  [.operate someRepository (.deleteFile jarSidecar) ⟨3, "e9b3"⟩]

def saveRoot : Action := .operate someRepository (.saveFile hello root) ⟨1, "e9b1"⟩

def updateRoot : Action := .update (rootPath someRepository) ⟨2, "e9b2"⟩

def fresh : LocalDisk := opened (.empty 0) ∅

theorem rootsAreDirectories_empty (time : Int) : RootsAreDirectories (.empty time) := by
  intro repository
  rw [isFile, get_empty, if_neg (rootPath_ne_nil repository)]
  rfl

/-- The run really happens, and the jar has its metadata at the end. -/
theorem isolated_of_proper_otherJar :
    (run (step someLibraries) fresh (storeJar ++ passOtherJar)).map (fun d =>
      answer (getRepositoryMeta someLibraries ⟨6, "e9b6"⟩ someRepository jar d)) =
        some (.ok (some projectMeta)) ∧
    Confined someLibraries fresh (storeJar ++ passOtherJar) ∧
      ∀ repository location, location.visible = true →
        Isolated someLibraries fresh (storeJar ++ passOtherJar) repository location := by
  refine ⟨by decide, ?_⟩
  exact isolated_of_proper someLibraries ∅ (rootsAreDirectories_empty 0) (by decide)

/-- The sidecar of the jar goes with the path of its name, and the jar's metadata with it; and the
sidecar of a file at the root of a repository lies outside the repository. -/
theorem not_isolated_deleteSidecar :
    ¬ Isolated someLibraries fresh (storeJar ++ deleteSidecar) someRepository jar ∧
      ¬ Confined someLibraries fresh [saveRoot, updateRoot] := by
  constructor
  · intro h
    have hread : ((run (step someLibraries) fresh storeJar).bind fun d =>
        (run (step someLibraries) d deleteSidecar).map fun d' =>
          (d.queue.all fun r => !(getPath someRepository jar).isPrefixOf r,
            d.tree.pathExists (getPath someRepository jar),
            answer (getRepositoryMeta someLibraries ⟨4, "e9b4"⟩ someRepository jar d),
            answer (getRepositoryMeta someLibraries ⟨4, "e9b4"⟩ someRepository jar d'))) =
        some (true, true, .ok (some projectMeta), .ok (some .default)) := by
      decide
    obtain ⟨d, hd, hread⟩ := Option.bind_eq_some_iff.mp hread
    obtain ⟨d', hd', hread⟩ := Option.map_eq_some_iff.mp hread
    simp only [Prod.mk.injEq] at hread
    obtain ⟨hsettled, hexists, hbefore, hafter⟩ := hread
    have hkept := (h storeJar deleteSidecar d d' rfl hd hd' (by decide)
      fun r hr => not_prefix_of_isPrefixOf (by simpa using List.all_eq_true.mp hsettled r hr)).2
        hexists ⟨4, "e9b4"⟩
    rw [hbefore, hafter] at hkept
    exact absurd hkept.2 (by decide)
  · intro h
    have hread : ((step someLibraries fresh saveRoot).bind fun d =>
        (step someLibraries d updateRoot).map fun d' =>
          (d.tree.get (withMetaExtension (rootPath someRepository)),
            d'.tree.pathExists (withMetaExtension (rootPath someRepository)))) =
        some (none, true) := by
      decide
    obtain ⟨d, hd, hread⟩ := Option.bind_eq_some_iff.mp hread
    obtain ⟨d', hd', hread⟩ := Option.map_eq_some_iff.mp hread
    simp only [Prod.mk.injEq] at hread
    have hstays := (h.2 d hd).1 d' hd' (withMetaExtension (rootPath someRepository))
      (by decide) fun hsame => by
        rw [FileTree.pathExists, hsame, hread.1] at hread
        exact absurd hread.2 (by decide)
    obtain ⟨name, hname, hpre⟩ := hstays
    obtain rfl := Option.some.inj hname
    revert hpre
    decide

end Example

end Pkgly.Local
