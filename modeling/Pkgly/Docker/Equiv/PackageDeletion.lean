import Pkgly.Docker.BatchDeletion
import Pkgly.Docker.Equiv.BatchDeletion

/-!
# What the deletion endpoint reports

A batch sorts the requested paths into found, missing and rejected ones, but the endpoint marks the
rows of all of them as deleted when anything was deleted at all, and otherwise reports them all as
missing a second time.  `reportExact_iff` says when the report is exact nevertheless: the deletion
succeeds, something is deleted, no row of a path that was not found is live, and no sidecar of a
rejected path is stored.

`Turn` is the batch without the storage: which manifests are found, and what is pending and flushed
for them.
-/

namespace Pkgly.Docker

open StoragePath DynStorage BatchDeletion Packages

variable {sha : Sha256} {serde : SerdeJson} {order : HashOrder} {accounting : Bool}
  {threshold : ℕ} {c : Collation} {st : DynStorage} {path : String} {files : List PackageFile}

/-! ### The requested paths -/

def isRejectedPath (path : String) : Bool :=
  ((splitManifestCachePath path).filter fun _ => isValidDockerManifestPath path).isNone

theorem not_isRejectedPath_of_stored {i : StoredImage} (h : storedImage? serde st path = some i) :
    isRejectedPath path = false := by
  obtain ⟨hvalid, ⟨reference, hsplit⟩, -⟩ := storedImage?_eq_some_iff.mp h
  simp [isRejectedPath, hsplit, Option.filter, hvalid]

structure Turn where
  found : List String
  pending : List String
  flushed : List String

namespace Turn

def new : Turn := ⟨[], [], []⟩

def finds (serde : SerdeJson) (st : DynStorage) (t : Turn) (path : String) : Bool :=
  (storedImage? serde st path).isSome &&
    !decide (Deleted st.backend (t.flushed.map .ofString) (ofString path).components)

def collect (sha : Sha256) (serde : SerdeJson) (threshold : ℕ) (st : DynStorage) (t : Turn)
    (path : String) : Turn :=
  let pending := collectedAt sha serde st t.found path ∪ t.pending
  if threshold ≤ pending.length then ⟨t.found ++ [path], [], t.flushed ++ pending⟩
  else ⟨t.found ++ [path], pending, t.flushed⟩

def next (sha : Sha256) (serde : SerdeJson) (threshold : ℕ) (st : DynStorage) (t : Turn)
    (path : String) : Turn :=
  if t.finds serde st path then t.collect sha serde threshold st path else t

def run (sha : Sha256) (serde : SerdeJson) (threshold : ℕ) (st : DynStorage) (t : Turn)
    (paths : List String) : Turn :=
  paths.foldl (next sha serde threshold st) t

@[simp] theorem run_cons (t : Turn) (path : String) (rest : List String) :
    t.run sha serde threshold st (path :: rest) =
      (t.next sha serde threshold st path).run sha serde threshold st rest := rfl

@[simp] theorem found_collect (t : Turn) (path : String) :
    (t.collect sha serde threshold st path).found = t.found ++ [path] := by
  unfold collect
  dsimp only
  split_ifs <;> rfl

theorem exists_found_run (t : Turn) (paths : List String) :
    ∃ more, (t.run sha serde threshold st paths).found = t.found ++ more := by
  induction paths generalizing t with
  | nil => exact ⟨[], (List.append_nil _).symm⟩
  | cons path rest ih =>
    obtain ⟨more, hmore⟩ := ih (t.next sha serde threshold st path)
    rw [run_cons, hmore, next]
    aesop

end Turn

/-- The manifests that a batch finds among the requested paths. -/
def foundPaths (sha : Sha256) (serde : SerdeJson) (threshold : ℕ) (st : DynStorage)
    (paths : List String) : List String :=
  (Turn.new.run sha serde threshold st paths).found

/-! ### The batch follows the turns -/

/-- The batch has the storage, the pending paths and the report of the turns over the paths
`before`. -/
structure Follows (sha : Sha256) (serde : SerdeJson) (st : DynStorage) (t : Turn)
    (before : List String) (b : BatchDeletion) : Prop where
  collects : Collects sha serde st t.found b
  leaves : Leaves st (t.flushed.map .ofString) b.storage
  pending_nodup : t.pending.Nodup
  nodup : b.collected.paths.Nodup
  mem_iff : ∀ p, p ∈ b.collected.paths ↔ p ∈ t.pending
  stored : ∀ p ∈ t.found, ∃ i, storedImage? serde st p = some i
  perm : (t.found ++ b.missing ++ b.rejected).Perm before
  rejected_eq : b.rejected = before.filter isRejectedPath
  deletedPackages_eq : b.deletedPackages = t.found.length

theorem follows_new : Follows sha serde st .new [] (.new st) where
  collects := ⟨covers_new st, fun _ => Iff.rfl⟩
  leaves := .refl st
  pending_nodup := List.nodup_nil
  nodup := List.nodup_nil
  mem_iff := fun _ => Iff.rfl
  stored := fun _ hp => absurd hp List.not_mem_nil
  perm := .refl _
  rejected_eq := rfl
  deletedPackages_eq := rfl

variable {b b' : BatchDeletion} {before paths : List String}

theorem Follows.finds_iff_read {t : Turn}
    (h : Follows sha serde st t before b) : t.finds serde st path = true ↔
      ∃ i, storedImage? serde b.storage path = some i ∧ storedImage? serde st path = some i := by
  rw [Turn.finds, Bool.and_eq_true, Option.isSome_iff_exists, Bool.not_eq_true',
    decide_eq_false_iff_not]
  constructor
  · rintro ⟨⟨i, hi⟩, hkept⟩
    exact ⟨i, (storedImage?_of_leaves h.leaves).mpr ⟨hi, hkept⟩, hi⟩
  · rintro ⟨i, hread, hi⟩
    exact ⟨⟨i, hi⟩, ((storedImage?_of_leaves h.leaves).mp hread).2⟩

theorem Follows.absent {t : Turn} {before : List String} {b : BatchDeletion}
    (h : Follows sha serde st t before b) (hfinds : ¬ t.finds serde st path = true) :
    BatchDeletion.collectPath sha serde order true threshold path b =
        (reportAbsent path b, some (.ok ())) ∧
      Follows sha serde st t (before ++ [path]) (reportAbsent path b) := by
  have hread : storedImage? serde b.storage path = none := by
    refine Option.eq_none_iff_forall_ne_some.mpr fun i hi => hfinds ?_
    exact h.finds_iff_read.mpr ⟨i, hi, ((storedImage?_of_leaves h.leaves).mp hi).1⟩
  refine ⟨collectPath_of_not_stored hread, ⟨h.collects.covers.reportAbsent, fun d => ?_⟩, ?_,
    h.pending_nodup, ?_, fun p => ?_, h.stored, ?_, ?_, ?_⟩
  · rw [collected_reportAbsent]
    exact h.collects.visited_iff d
  · rw [storage_reportAbsent]
    exact h.leaves
  · rw [collected_reportAbsent]
    exact h.nodup
  · rw [collected_reportAbsent]
    exact h.mem_iff p
  · unfold reportAbsent
    split_ifs
    · rw [← List.append_assoc]
      refine List.Perm.trans ?_ (h.perm.append_right [path])
      simp only [List.append_assoc]
      exact .append_left _ (.append_left _ List.perm_append_comm)
    · rw [← List.append_assoc]
      exact h.perm.append_right [path]
  · rw [List.filter_append, ← h.rejected_eq]
    grind [reportAbsent, isRejectedPath, Option.not_isSome, List.filter_cons_of_neg,
      List.filter_cons_of_pos]
  · unfold reportAbsent
    split_ifs <;> exact h.deletedPackages_eq

theorem Follows.leaves_of_flush {t : Turn} {pending : List String}
    {collected : Collected} (h : Follows sha serde st t before b)
    (hperm : collected.paths.Perm pending)
    (haccepted : ∀ p ∈ collected.paths, st.rejects (.ofString p) = false)
    (hflush : flush order true { b with collected := collected } = (b', .ok ())) :
    b'.collected.paths = [] ∧ Leaves st ((t.flushed ++ pending).map .ofString) b'.storage := by
  have hpending : PendingAccepted { b with collected := collected } := fun p hp =>
    (h.leaves.rejects_eq _).trans (haccepted p hp)
  obtain ⟨b₁, hflush₁, hflushes, hempty⟩ := @flush_succeeds order _ hpending
  obtain rfl : b₁ = b' := (Prod.mk.inj (hflush₁.symm.trans hflush)).1
  refine ⟨hempty, ?_⟩
  have hsame : ∀ key, Deleted st.backend (collected.paths.map .ofString) key ↔
      Deleted st.backend (pending.map .ofString) key := by
    intro key
    simp only [Deleted, List.mem_map, exists_exists_and_eq_and, hperm.mem_iff]
  rw [List.map_append]
  rcases hflushes.flushed with rfl | ⟨-, hleaves, -⟩
  · -- nothing was pending
    have hnil : pending = [] := by
      rw [show collected.paths = [] from hempty] at hperm
      exact hperm.nil_eq.symm
    rw [hnil, List.map_nil, List.append_nil]
    exact h.leaves
  · refine (h.leaves.trans hleaves).congr fun key => ?_
    rw [deleted_append, deleted_append, hsame]

theorem Follows.present {t : Turn} {before : List String} {b : BatchDeletion}
    (h : Follows sha serde st t before b) (hfinds : t.finds serde st path = true)
    (haccepted : ∀ q ∈ collectedAt sha serde st t.found path, st.rejects (.ofString q) = false) :
    ∃ b', BatchDeletion.collectPath sha serde order true threshold path b =
        (b', some (.ok ())) ∧
      Follows sha serde st (t.collect sha serde threshold st path) (before ++ [path]) b' := by
  obtain ⟨i, hread, hi⟩ := h.finds_iff_read.mp hfinds
  obtain ⟨collected, hnodup, hpaths, b', hflush, hcollect, hcollects, hreport⟩ :=
    @Collects.collectPath_of_stored sha serde order threshold st path t.found b i h.collects hread
      hi haccepted
  cases hreport with
  | absent hnone =>
    rw [hread] at hnone
    cases hnone
  | present _ _ hmissing hrejected hdeleted =>
  have hnodup' := hnodup h.nodup
  have hunion : (collectedAt sha serde st t.found path ∪ t.pending).Nodup :=
    List.Nodup.union _ h.pending_nodup
  have hperm : collected.paths.Perm (collectedAt sha serde st t.found path ∪ t.pending) := by
    refine (List.perm_ext_iff_of_nodup hnodup' hunion).mpr fun p => ?_
    rw [hpaths, List.mem_union_iff, h.mem_iff]
  have hstored : ∀ p ∈ t.found ++ [path], ∃ i, storedImage? serde st p = some i := by
    intro p hp
    rcases List.mem_append.mp hp with hp | hp
    · exact h.stored p hp
    · exact ⟨i, List.mem_singleton.mp hp ▸ hi⟩
  have hdone : (t.found ++ [path] ++ b'.missing ++ b'.rejected).Perm (before ++ [path]) := by
    have hlists := h.perm.append_right [path]
    rw [← hmissing, ← hrejected] at hlists
    refine List.Perm.trans ?_ hlists
    simp only [List.append_assoc]
    refine .append_left _ ?_
    rw [← List.append_assoc b'.missing]
    exact List.perm_append_comm
  have hreject : b'.rejected = (before ++ [path]).filter isRejectedPath := by
    have hrest := not_isRejectedPath_of_stored hi
    rw [List.filter_append, ← h.rejected_eq, List.filter_cons_of_neg (by simp [hrest]),
      List.filter_nil, List.append_nil]
    exact hrejected
  have hcount : b'.deletedPackages + 1 = (t.found ++ [path]).length := by
    rw [List.length_append, List.length_singleton, ← h.deletedPackages_eq]
    exact hdeleted
  refine ⟨_, hcollect, ?_⟩
  unfold Turn.collect
  dsimp only
  rw [flushIfNeeded] at hflush
  by_cases hfull : threshold ≤ collected.paths.length
  · rw [if_pos hfull] at hflush
    rw [if_pos (hperm.length_eq ▸ hfull)]
    have hall : ∀ p ∈ collected.paths, st.rejects (.ofString p) = false := by
      intro p hp
      rcases (hpaths p).mp hp with hp | hp
      · exact haccepted p hp
      · exact (h.leaves.rejects_eq _).symm.trans (h.collects.covers.accepted p hp)
    obtain ⟨hempty, hleaves⟩ := h.leaves_of_flush hperm hall hflush
    refine ⟨hcollects, hleaves, List.nodup_nil, ?_, fun p => ?_, hstored, hdone, hreject, hcount⟩
    · show b'.collected.paths.Nodup
      rw [hempty]
      exact List.nodup_nil
    · show p ∈ b'.collected.paths ↔ p ∈ []
      rw [hempty]
  · rw [if_neg hfull] at hflush
    rw [if_neg (hperm.length_eq ▸ hfull)]
    obtain rfl := (Prod.mk.inj hflush).1
    exact ⟨hcollects, h.leaves, hunion, hnodup', fun p => hperm.mem_iff, hstored, hdone, hreject,
      hcount⟩

theorem Follows.collectPaths {t : Turn} {before rest : List String} {b : BatchDeletion}
    (h : Follows sha serde st t before b)
    (haccepted : ∀ q ∈ collectedPaths sha serde st []
      (t.run sha serde threshold st rest).found, st.rejects (.ofString q) = false) :
    ∃ b', BatchDeletion.collectPaths sha serde order true threshold rest b =
        (b', some (.ok ())) ∧
      Follows sha serde st (t.run sha serde threshold st rest) (before ++ rest) b' := by
  induction rest generalizing t before b with
  | nil => exact ⟨b, rfl, by rwa [List.append_nil]⟩
  | cons path rest ih =>
    have hround : ∃ b₁, BatchDeletion.collectPath sha serde order true threshold path b =
          (b₁, some (.ok ())) ∧
        Follows sha serde st (t.next sha serde threshold st path) (before ++ [path]) b₁ := by
      by_cases hfinds : t.finds serde st path = true
      · rw [Turn.next, if_pos hfinds]
        refine h.present hfinds fun q hq => haccepted q ?_
        obtain ⟨more, hmore⟩ := @Turn.exists_found_run sha serde threshold st
          (t.next sha serde threshold st path) rest
        rw [Turn.run_cons, hmore, Turn.next, if_pos hfinds, Turn.found_collect,
          collectedPaths_append, collectedPaths_concat]
        exact List.mem_append_left _ (List.mem_append_right _ hq)
      · rw [Turn.next, if_neg hfinds]
        exact ⟨_, h.absent hfinds⟩
    grind [BatchDeletion.collectPaths, List.append_assoc, List.singleton_append, Turn.run]

/-! ### Requests that fail -/

def Doomed (accounting : Bool) (b : BatchDeletion) : Prop :=
  b.collected.paths ≠ [] ∧ accounting = false ∨
    ∃ p ∈ b.collected.paths, b.storage.rejects (.ofString p) = true

theorem Doomed.flush (h : Doomed accounting b) : flush order accounting b ≠ (b', .ok ()) := by
  have hne : b.collected.paths ≠ [] := by
    rcases h with ⟨hne, -⟩ | ⟨p, hp, -⟩
    · exact hne
    · exact List.ne_nil_of_mem hp
  intro hflush
  unfold BatchDeletion.flush at hflush
  rw [if_neg hne] at hflush
  dsimp only at hflush
  cases hbatch : b.storage.deleteFilesBatch ((order.list b.collected.paths).map .ofString) with
  | mk st₁ result =>
    rw [hbatch] at hflush
    cases result with
    | error e => cases (Prod.mk.inj hflush).2
    | ok _ =>
      cases accounting with
      | false => cases (Prod.mk.inj hflush).2
      | true =>
        rcases h with ⟨-, hfalse⟩ | ⟨p, hp, hrejects⟩
        · cases hfalse
        · have hmem : ofString p ∈ (order.list b.collected.paths).map ofString :=
            List.mem_map_of_mem ((order.perm _).mem_iff.mpr hp)
          rw [rejects_of_deleteFilesBatch hbatch _ hmem] at hrejects
          cases hrejects

theorem Doomed.flushIfNeeded (h : Doomed accounting b)
    (hflush : flushIfNeeded order accounting threshold b = (b', .ok ())) : b' = b := by
  unfold BatchDeletion.flushIfNeeded at hflush
  split_ifs at hflush
  · exact absurd hflush h.flush
  · exact (Prod.mk.inj hflush).1.symm

theorem Doomed.of_subset (h : Doomed accounting b)
    (hstorage : b'.storage = b.storage) (hsub : b.collected.paths ⊆ b'.collected.paths) :
    Doomed accounting b' := by
  rcases h with ⟨hne, hfalse⟩ | ⟨p, hp, hrejects⟩
  · obtain ⟨p, hp⟩ := List.exists_mem_of_ne_nil _ hne
    exact .inl ⟨List.ne_nil_of_mem (hsub hp), hfalse⟩
  · exact .inr ⟨p, hsub hp, hstorage ▸ hrejects⟩

theorem doomed_of_countPackage (h : Doomed true b)
    (hcount : countPackage (BatchDeletion.flushIfNeeded order true threshold b) =
      (b', some (.ok ()))) : Doomed true b' := by
  cases hflush : BatchDeletion.flushIfNeeded order true threshold b with
  | mk b₁ result =>
    rw [hflush] at hcount
    cases result with
    | error e => cases (Prod.mk.inj hcount).2
    | ok _ =>
      obtain rfl := h.flushIfNeeded hflush
      obtain rfl := (Prod.mk.inj hcount).1
      exact h.of_subset rfl (List.Subset.refl _)

theorem Doomed.collectPath {b b' : BatchDeletion} (h : Doomed true b)
    (hcollect : BatchDeletion.collectPath sha serde order true threshold path b =
      (b', some (.ok ()))) : Doomed true b' := by
  cases hread : storedImage? serde b.storage path with
  | none =>
    rw [collectPath_of_not_stored hread] at hcollect
    obtain rfl := (Prod.mk.inj hcollect).1
    refine h.of_subset (storage_reportAbsent b) ?_
    rw [collected_reportAbsent]
    exact List.Subset.refl _
  | some i =>
    obtain ⟨collected, -, -, hpaths, hround⟩ :=
      @collectPath_of_stored sha serde order threshold path b i hread
    rw [hround] at hcollect
    have hmore : Doomed true { b with collected := collected } :=
      h.of_subset rfl fun p hp => (hpaths p).mpr (.inr (.inr hp))
    exact doomed_of_countPackage hmore hcollect

theorem of_collectPaths_cons {path : String} {rest : List String}
    (h : BatchDeletion.collectPaths sha serde order accounting threshold (path :: rest) b =
      (b', some (.ok ()))) :
    ∃ b₁, BatchDeletion.collectPath sha serde order accounting threshold path b =
        (b₁, some (.ok ())) ∧
      BatchDeletion.collectPaths sha serde order accounting threshold rest b₁ =
        (b', some (.ok ())) := by
  rw [BatchDeletion.collectPaths] at h
  grind

theorem Doomed.collectPaths {b b' : BatchDeletion} {rest : List String} (h : Doomed true b)
    (hcollect : BatchDeletion.collectPaths sha serde order true threshold rest b =
      (b', some (.ok ()))) : Doomed true b' := by
  induction rest generalizing b with
  | nil => exact (Prod.mk.inj hcollect).1 ▸ h
  | cons path rest ih =>
    obtain ⟨b₁, hround, hcollect⟩ := of_collectPaths_cons hcollect
    exact ih (h.collectPath hround) hcollect

theorem Follows.doomed {t : Turn} {rest : List String} (h : Follows sha serde st t before b)
    (haccepted : ∀ q ∈ collectedPaths sha serde st [] t.found, st.rejects (.ofString q) = false)
    (hrejects : ∃ q ∈ collectedPaths sha serde st [] (t.run sha serde threshold st rest).found,
      st.rejects (.ofString q) = true)
    (hcollect : BatchDeletion.collectPaths sha serde order true threshold rest b =
      (b', some (.ok ()))) : Doomed true b' := by
  induction rest generalizing t before b with
  | nil =>
    obtain ⟨q, hq, hreject⟩ := hrejects
    rw [haccepted q hq] at hreject
    cases hreject
  | cons path rest ih =>
    obtain ⟨b₁, hfirst, hcollect⟩ := of_collectPaths_cons hcollect
    by_cases hfinds : t.finds serde st path = true
    · rw [Turn.run_cons, Turn.next, if_pos hfinds] at hrejects
      by_cases hall : ∀ q ∈ collectedAt sha serde st t.found path, st.rejects (.ofString q) = false
      · obtain ⟨b₁, hround, h₁⟩ :=
          @Follows.present sha serde order threshold st path t before b h hfinds hall
        grind [Turn.found_collect, collectedPaths_concat]
      · -- the rejected path is collected now, and stays
        push Not at hall
        obtain ⟨q, hq, hreject⟩ := hall
        obtain ⟨i, hread, hi⟩ := h.finds_iff_read.mp hfinds
        obtain ⟨collected, -, -, hpaths, hround⟩ :=
          @Collects.collectPath_eq sha serde order threshold st path t.found b i h.collects hread hi
        have hdoomed : Doomed true { b with collected := collected } := by
          refine .inr ⟨q, (hpaths q).mpr (.inl hq), ?_⟩
          rw [h.leaves.rejects_eq]
          exact (Bool.not_eq_false _).mp hreject
        exact (doomed_of_countPackage hdoomed (hround.symm.trans hfirst)).collectPaths hcollect
    · rw [Turn.run_cons, Turn.next, if_neg hfinds] at hrejects
      obtain ⟨hround, h₁⟩ :=
        @Follows.absent sha serde order threshold st path t before b h hfinds
      obtain rfl := (Prod.mk.inj (hround.symm.trans hfirst)).1
      exact ih h₁ haccepted hrejects hcollect

theorem of_collectSidecars_cons {path : String} {rest : List String}
    (h : BatchDeletion.collectSidecars order accounting threshold (path :: rest) b =
      (b', .ok ())) :
    ∃ b₁, BatchDeletion.flushIfNeeded order accounting threshold
        (b.setPaths (b.collected.paths.insert (tagMeta path))) = (b₁, .ok ()) ∧
      BatchDeletion.collectSidecars order accounting threshold rest b₁ = (b', .ok ()) := by
  rw [BatchDeletion.collectSidecars] at h
  grind

theorem Doomed.collectSidecars {b b' : BatchDeletion} {rest : List String}
    (h : Doomed accounting b)
    (hsidecars : BatchDeletion.collectSidecars order accounting threshold rest b = (b', .ok ())) :
    Doomed accounting b' := by
  induction rest generalizing b with
  | nil => exact (Prod.mk.inj hsidecars).1 ▸ h
  | cons path rest ih =>
    have hset : Doomed accounting (b.setPaths (b.collected.paths.insert (tagMeta path))) :=
      h.of_subset rfl fun p hp => List.mem_insert_of_mem hp
    obtain ⟨b₁, hflush, hsidecars⟩ := of_collectSidecars_cons hsidecars
    exact ih (hset.flushIfNeeded hflush ▸ hset) hsidecars

theorem backend_flush (h : BatchDeletion.flush order accounting b = (b', .ok ())) :
    b'.storage.backend = b.storage.backend := by
  unfold BatchDeletion.flush at h
  by_cases hempty : b.collected.paths = []
  · rw [if_pos hempty] at h
    rw [(Prod.mk.inj h).1]
  · rw [if_neg hempty] at h
    dsimp only at h
    cases hbatch : b.storage.deleteFilesBatch ((order.list b.collected.paths).map .ofString) with
    | mk st₁ result =>
      rw [hbatch] at h
      cases result with
      | error e => cases (Prod.mk.inj h).2
      | ok _ =>
        cases accounting with
        | false => cases (Prod.mk.inj h).2
        | true =>
          rw [← (Prod.mk.inj h).1]
          exact (leaves_of_deleteFilesBatch hbatch).backend_eq

theorem doomed_of_collectSidecars {rest : List String}
    (hsidecars : BatchDeletion.collectSidecars order accounting threshold rest b = (b', .ok ()))
    (hbackend : b.storage.backend = st.backend) (h : rest ≠ [] ∧ accounting = false ∨
      ∃ p ∈ rest, st.rejects (.ofString (tagMeta p)) = true) : Doomed accounting b' := by
  have hrejects : ∀ {b : BatchDeletion} location, b.storage.backend = st.backend →
      b.storage.rejects location = st.rejects location :=
    fun location hb => rejects_congr hb rfl
  induction rest generalizing b with
  | nil =>
    grind
  | cons path rest ih =>
    obtain ⟨b₁, hflush, hsidecars⟩ := of_collectSidecars_cons hsidecars
    have hmem : tagMeta path ∈ b.collected.paths.insert (tagMeta path) := List.mem_insert_self
    by_cases hnow : accounting = false ∨ st.rejects (.ofString (tagMeta path)) = true
    · have hset : Doomed accounting (b.setPaths (b.collected.paths.insert (tagMeta path))) := by
        rcases hnow with hfalse | hreject
        · exact .inl ⟨List.ne_nil_of_mem hmem, hfalse⟩
        · exact .inr ⟨_, hmem, (hrejects _ hbackend).trans hreject⟩
      exact (hset.flushIfNeeded hflush ▸ hset).collectSidecars hsidecars
    · push Not at hnow
      have hbackend₁ : b₁.storage.backend = st.backend := by
        unfold BatchDeletion.flushIfNeeded at hflush
        split_ifs at hflush
        · exact (backend_flush hflush).trans hbackend
        · exact (Prod.mk.inj hflush).1 ▸ hbackend
      refine ih hsidecars hbackend₁ (.inr ?_)
      rcases h with ⟨-, hfalse⟩ | ⟨p, hp, hreject⟩
      · exact absurd hfalse hnow.1
      · rcases List.mem_cons.mp hp with rfl | hp
        · exact absurd hreject hnow.2
        · exact ⟨p, hp, hreject⟩

/-! ### The whole batch -/

/-- What a batch deletes: what belongs to the manifests that it finds, and the sidecars of all the
requested paths. -/
def batchPaths (sha : Sha256) (serde : SerdeJson) (threshold : ℕ) (st : DynStorage)
    (paths : List String) : List String :=
  collectedPaths sha serde st [] (foundPaths sha serde threshold st paths) ++ paths.map tagMeta

structure BatchReport (sha : Sha256) (serde : SerdeJson) (threshold : ℕ) (st : DynStorage)
    (paths : List String) (b : BatchDeletion) : Prop where
  covers : Covers st b (batchPaths sha serde threshold st paths)
  empty : b.collected.paths = []
  stored : ∀ p ∈ foundPaths sha serde threshold st paths, ∃ i, storedImage? serde st p = some i
  perm : (foundPaths sha serde threshold st paths ++ b.missing ++ b.rejected).Perm paths
  rejected_eq : b.rejected = paths.filter isRejectedPath
  deletedPackages_eq : b.deletedPackages = (foundPaths sha serde threshold st paths).length

theorem batch_succeeds {paths : List String}
    (haccepted : ∀ q ∈ batchPaths sha serde threshold st paths, st.rejects (.ofString q) = false) :
    ∃ b, collectDockerDeletionsBatch sha serde order true threshold st paths =
        (b, some (.ok ())) ∧ BatchReport sha serde threshold st paths b := by
  obtain ⟨b₁, hloop, h₁⟩ := @Follows.collectPaths sha serde order threshold st .new [] paths
    (.new st) follows_new fun q hq => haccepted q (List.mem_append_left _ hq)
  rw [List.nil_append] at h₁
  obtain ⟨b, hbatch, hcovers, hempty, hreport⟩ := h₁.collects.finish
    (fun p hp => haccepted _ (List.mem_append_right _ (List.mem_map_of_mem hp))) hloop
  refine ⟨b, hbatch, hcovers, hempty, h₁.stored, ?_, ?_, ?_⟩
  · rw [hreport.missing_eq, hreport.rejected_eq]
    exact h₁.perm
  · rw [hreport.rejected_eq, h₁.rejected_eq]
  · rw [hreport.deletedPackages_eq, h₁.deletedPackages_eq]
    rfl

theorem accepted_of_batch (hne : paths ≠ [])
    (h : collectDockerDeletionsBatch sha serde order accounting threshold st paths =
      (b, some (.ok ()))) : accounting = true ∧
        ∀ q ∈ batchPaths sha serde threshold st paths, st.rejects (.ofString q) = false := by
  unfold collectDockerDeletionsBatch at h
  match hloop : BatchDeletion.collectPaths sha serde order accounting threshold paths (.new st),
    h with
  | (b₁, none), h => cases (Prod.mk.inj h).2
  | (b₁, some (.error e)), h => cases (Prod.mk.inj h).2
  | (b₁, some (.ok ())), h =>
  dsimp only at h
  match hsidecars : BatchDeletion.collectSidecars order accounting threshold paths b₁, h with
  | (b₂, .error e), h => cases (Prod.mk.inj h).2
  | (b₂, .ok ()), h =>
  have hflush : BatchDeletion.flush order accounting b₂ = (b, .ok ()) := by
    obtain ⟨hb, hresult⟩ := Prod.mk.inj h
    exact Prod.ext hb (Option.some.inj hresult)
  have hnot : ¬ Doomed accounting b₂ := fun hdoomed => hdoomed.flush hflush
  cases accounting with
  | false => exact absurd (doomed_of_collectSidecars hsidecars rfl (.inl ⟨hne, rfl⟩)) hnot
  | true =>
  have hloops : ∀ q ∈ collectedPaths sha serde st [] (foundPaths sha serde threshold st paths),
      st.rejects (.ofString q) = false := by
    by_contra hall
    push Not at hall
    obtain ⟨q, hq, hreject⟩ := hall
    have hdoomed := follows_new.doomed (fun _ hp => absurd hp List.not_mem_nil)
      ⟨q, hq, (Bool.not_eq_false _).mp hreject⟩ hloop
    exact hnot (hdoomed.collectSidecars hsidecars)
  obtain ⟨b', hloop', h₁⟩ := @Follows.collectPaths sha serde order threshold st .new [] paths
    (.new st) follows_new hloops
  obtain rfl : b' = b₁ := (Prod.mk.inj (hloop'.symm.trans hloop)).1
  refine ⟨rfl, fun q hq => ?_⟩
  rcases List.mem_append.mp hq with hq | hq
  · exact hloops q hq
  · obtain ⟨p, hp, rfl⟩ := List.mem_map.mp hq
    refine (Bool.not_eq_true _).mp fun hreject => hnot ?_
    exact doomed_of_collectSidecars hsidecars h₁.leaves.backend_eq (.inr ⟨p, hp, hreject⟩)

/-- Something is deleted: S3 counts every path, and a local disk what it finds. -/
def DeletesSomething (st : DynStorage) (paths : List String) : Prop :=
  st.backend = .s3 ∨ ∃ key, HasFile st key ∧ Deleted st.backend (paths.map .ofString) key

theorem deletes_tagMeta {backend : Backend} (path : String) :
    deletes backend (ofString (tagMeta path)) (ofString (tagMeta path)).components = true := by
  cases backend with
  | «local» => exact List.isPrefixOf_iff_prefix.mpr List.prefix_rfl
  | s3 =>
    have hfile : (ofString (tagMeta path)).isDirectory = false := by
      rw [tagMeta]
      exact isDirectory_append path (by decide) (by decide)
    simp [deletes, hfile]

theorem BatchReport.deletedObjects_ne_zero_iff
    (h : BatchReport sha serde threshold st paths b) (hne : paths ≠ []) :
    b.deletedObjects ≠ 0 ↔ DeletesSomething st (batchPaths sha serde threshold st paths) := by
  refine ⟨h.covers.of_ne_zero, fun hsomething hzero => ?_⟩
  rcases hsomething with hs3 | ⟨key, hfile, hdeleted⟩
  · -- nothing was flushed, but there is a sidecar to flush
    obtain ⟨flushed, -, hcovered, hflushed⟩ := h.covers.leaves
    obtain ⟨p, hp⟩ := List.exists_mem_of_ne_nil paths hne
    have hmem : ofString (tagMeta p) ∈
        (batchPaths sha serde threshold st paths).map ofString :=
      List.mem_map_of_mem (List.mem_append_right _ (List.mem_map_of_mem hp))
    have hnone := (hcovered _).mpr ⟨_, hmem, deletes_tagMeta p⟩
    rw [hflushed hs3 hzero, h.empty] at hnone
    simp [Deleted] at hnone
  · have hkept := h.covers.of_zero hzero
    have hgone := h.covers.leaves_of_empty h.empty
    have hobjects := hgone.objects_get key
    have hstaging := hgone.staging_get key
    rw [if_pos hdeleted, hkept.objects_get, if_neg (by simp [Deleted])] at hobjects
    rw [if_pos hdeleted, hkept.staging_get, if_neg (by simp [Deleted])] at hstaging
    rcases hfile with hfile | hfile
    · simp [hobjects] at hfile
    · simp [hstaging] at hfile

theorem hasFile_of_stored {i : StoredImage} (h : storedImage? serde st path = some i) :
    HasFile st (ofString path).components ∧
      deletes st.backend (ofString path) (ofString path).components = true := by
  obtain ⟨-, -, hopen, -⟩ := storedImage?_eq_some_iff.mp h
  obtain ⟨-, hget⟩ := openFile_eq_file_iff.mp hopen
  unfold lookupKey? at hget
  cases hbackend : st.backend with
  | «local» =>
    grind [HasFile, StoragePath.ofString, DynStorage.deletes]
  | s3 =>
    rw [hbackend] at hget
    cases hdir : (ofString path).isDirectory with
    | true => simp [hdir] at hget
    | false =>
      simp only [hdir, Bool.false_eq_true, if_false, Option.bind_some] at hget
      grind [deletes, HasFile, StoragePath.ofString]

theorem BatchReport.deletesSomething (h : BatchReport sha serde threshold st paths b)
    (hfound : path ∈ foundPaths sha serde threshold st paths) :
    DeletesSomething st (batchPaths sha serde threshold st paths) := by
  obtain ⟨i, hi⟩ := h.stored path hfound
  obtain ⟨hfile, hdeletes⟩ := hasFile_of_stored hi
  refine .inr ⟨_, hfile, ofString path, List.mem_map_of_mem (List.mem_append_left _ ?_), hdeletes⟩
  exact ownPaths_subset hfound hi [] (List.mem_append_left _ List.mem_cons_self)

/-! ### The endpoint -/

def OnAccount (sha : Sha256) (serde : SerdeJson) (st : DynStorage) (paths : List String)
    (key : List String) : Prop :=
  Deleted st.backend ((footprints sha serde st paths ++ paths.map tagMeta).map .ofString) key

/-- The report, with `deleted` for the paths that it counts as deleted: each path is in exactly one
list, no row but those of deleted paths is marked, and nothing is removed on account of a rejected
path. -/
structure Exact (sha : Sha256) (serde : SerdeJson) (st : DynStorage) (files : List PackageFile)
    (paths : List String) (st' : DynStorage) (files' : List PackageFile)
    (response : PackageDeleteResponse) (deleted : List String) : Prop where
  perm : (deleted ++ response.missing ++ response.rejected).Perm paths
  deleted_eq : response.deleted = deleted.length
  rows : ∀ file file', (file, file') ∈ files.zip files' → file.deleted = false →
    file'.deleted = true → file.path ∈ deleted
  objects : ∀ key content, st.objects.get key = some content → st'.objects.get key = none →
    OnAccount sha serde st (paths.filter fun p => decide (p ∉ response.rejected)) key

def ReportExact (sha : Sha256) (serde : SerdeJson) (order : HashOrder) (accounting : Bool)
    (c : Collation) (st : DynStorage) (files : List PackageFile) (paths : List String) : Prop :=
  ∃ st' files' response deleted,
    deleteCachedPackagePaths sha serde order accounting c st files paths =
      ((st', files'), some (.ok response)) ∧
    Exact sha serde st files paths st' files' response deleted

/-- The deletion succeeds and deletes something, no row of a path that was not found is live, and
no sidecar of a rejected path is stored, unless it is removed on account of another path. -/
structure Reportable (sha : Sha256) (serde : SerdeJson) (accounting : Bool) (c : Collation)
    (threshold : ℕ) (st : DynStorage) (files : List PackageFile) (paths : List String) : Prop where
  database : accounting = true
  accepted : ∀ q ∈ batchPaths sha serde threshold st paths, st.rejects (.ofString q) = false
  something : DeletesSomething st (batchPaths sha serde threshold st paths)
  rows : ∀ file ∈ files, file.deleted = false →
    (∃ p ∈ paths, c.lowerPath file.path = c.lowerPath p) →
      file.path ∈ foundPaths sha serde threshold st paths
  sidecars : ∀ p ∈ paths, isRejectedPath p = true →
    ∀ key content, st.objects.get key = some content →
      deletes st.backend (ofString (tagMeta p)) key = true →
        OnAccount sha serde st (paths.filter fun p => !isRejectedPath p) key

theorem mem_zip_map {α β : Type} {f : α → β} {l : List α} {a : α} {b : β} :
    (a, b) ∈ l.zip (l.map f) ↔ a ∈ l ∧ b = f a := by
  rw [← List.map_prod_left_eq_zip, List.mem_map]
  grind

theorem rows_softDeleteByPaths {deleted : List String} :
    (∀ file file', (file, file') ∈ files.zip (softDeleteByPaths c files paths) →
        file.deleted = false → file'.deleted = true → file.path ∈ deleted) ↔
      ∀ file ∈ files, file.deleted = false →
        (∃ p ∈ paths, c.lowerPath file.path = c.lowerPath p) → file.path ∈ deleted := by
  unfold softDeleteByPaths
  simp only [mem_zip_map]
  constructor
  · simp_all
  grind

theorem BatchReport.filter_not_rejected (h : BatchReport sha serde threshold st paths b) :
    (paths.filter fun p => decide (p ∉ b.rejected)) = paths.filter fun p => !isRejectedPath p := by
  refine List.filter_congr fun p hp => ?_
  rw [h.rejected_eq]
  cases hrejected : isRejectedPath p <;> simp [hp, hrejected]

theorem BatchReport.objects_iff (h : BatchReport sha serde threshold st paths b) :
    (∀ key content, st.objects.get key = some content → b.storage.objects.get key = none →
        OnAccount sha serde st (paths.filter fun p => decide (p ∉ b.rejected)) key) ↔
      ∀ p ∈ paths, isRejectedPath p = true →
        ∀ key content, st.objects.get key = some content →
          deletes st.backend (ofString (tagMeta p)) key = true →
            OnAccount sha serde st (paths.filter fun p => !isRejectedPath p) key := by
  rw [h.filter_not_rejected]
  have hleaves := h.covers.leaves_of_empty h.empty
  constructor
  · intro hobjects p hp _ key content hget hdeletes
    refine hobjects key content hget ?_
    rw [hleaves.objects_get, if_pos]
    exact ⟨_, List.mem_map_of_mem (List.mem_append_right _ (List.mem_map_of_mem hp)), hdeletes⟩
  · intro hsidecars key content hget hgone
    rw [hleaves.objects_get] at hgone
    by_cases hdeleted : Deleted st.backend
      ((batchPaths sha serde threshold st paths).map .ofString) key
    · obtain ⟨location, hlocation, hdeletes⟩ := hdeleted
      obtain ⟨q, hq, rfl⟩ := List.mem_map.mp hlocation
      rcases List.mem_append.mp hq with hq | hq
      · -- found manifests are not rejected
        obtain ⟨p, hp, i, hi, hown⟩ := mem_footprints_iff.mp (collectedPaths_subset [] _ hq)
        have hpaths : p ∈ paths :=
          h.perm.mem_iff.mp (List.mem_append_left _ (List.mem_append_left _ hp))
        have hkept : p ∈ paths.filter fun p => !isRejectedPath p :=
          List.mem_filter.mpr ⟨hpaths, by simp [not_isRejectedPath_of_stored hi]⟩
        refine ⟨_, List.mem_map_of_mem (List.mem_append_left _ ?_), hdeletes⟩
        exact mem_footprints_iff.mpr ⟨p, hkept, i, hi, hown⟩
      · obtain ⟨p, hp, rfl⟩ := List.mem_map.mp hq
        by_cases hrejected : isRejectedPath p = true
        · exact hsidecars p hp hrejected key content hget hdeletes
        · have hkept : p ∈ paths.filter fun p => !isRejectedPath p :=
            List.mem_filter.mpr ⟨hp, by simp [hrejected]⟩
          exact ⟨_, List.mem_map_of_mem (List.mem_append_right _ (List.mem_map_of_mem hkept)),
            hdeletes⟩
    · rw [if_neg hdeleted, hget] at hgone
      cases hgone

theorem reportExact_nil :
    ReportExact sha serde order accounting c st files [] := by
  refine ⟨st, files, ⟨0, [], []⟩, [], rfl, .refl _, rfl, ?_, ?_⟩
  · intro file file' hrow hlive hmarked
    have hsame : (file, file') ∈ files.zip (files.map id) := by rwa [List.map_id]
    obtain ⟨-, heq⟩ := mem_zip_map.mp hsame
    rw [heq, id_eq, hlive] at hmarked
    cases hmarked
  · intro key content hget hgone
    rw [hget] at hgone
    cases hgone

theorem exact_iff {paths : List String} {b : BatchDeletion}
    (h : BatchReport sha serde dockerBatchDeleteFlushThreshold st paths b) :
    (∃ deleted, Exact sha serde st files paths b.storage (softDeleteByPaths c files paths)
        ⟨b.deletedPackages, b.missing, b.rejected⟩ deleted) ↔
      (∀ file ∈ files, file.deleted = false →
        (∃ p ∈ paths, c.lowerPath file.path = c.lowerPath p) →
          file.path ∈ foundPaths sha serde dockerBatchDeleteFlushThreshold st paths) ∧
      ∀ p ∈ paths, isRejectedPath p = true →
        ∀ key content, st.objects.get key = some content →
          deletes st.backend (ofString (tagMeta p)) key = true →
            OnAccount sha serde st (paths.filter fun p => !isRejectedPath p) key := by
  constructor
  · rintro ⟨deleted, hperm, -, hrows, hobjects⟩
    -- the paths that count as deleted are those that were found
    have hsame : deleted.Perm
        (foundPaths sha serde dockerBatchDeleteFlushThreshold st paths) := by
      have hlists := hperm.trans h.perm.symm
      rw [List.append_assoc, List.append_assoc, List.perm_append_right_iff] at hlists
      exact hlists
    refine ⟨fun file hfile hlive hpath => ?_, h.objects_iff.mp hobjects⟩
    exact hsame.mem_iff.mp (rows_softDeleteByPaths.mp hrows file hfile hlive hpath)
  · rintro ⟨hrows, hsidecars⟩
    exact ⟨_, h.perm, h.deletedPackages_eq, rows_softDeleteByPaths.mpr hrows,
      h.objects_iff.mpr hsidecars⟩

theorem reportExact_cons_iff (hne : paths ≠ []) :
    ReportExact sha serde order accounting c st files paths ↔
      Reportable sha serde accounting c dockerBatchDeleteFlushThreshold st files paths := by
  unfold ReportExact deleteCachedPackagePaths
  constructor
  · rintro ⟨st', files', response, deleted, hresult, hexact⟩
    match hbatch : collectDockerDeletionsBatch sha serde order accounting
      dockerBatchDeleteFlushThreshold st paths, hresult with
    | (b, none), hresult => cases (Prod.mk.inj hresult).2
    | (b, some (.error e)), hresult => cases (Prod.mk.inj hresult).2
    | (b, some (.ok ())), hresult =>
    obtain ⟨rfl, haccepted⟩ := accepted_of_batch hne hbatch
    obtain ⟨b', hbatch', hreport⟩ := @batch_succeeds sha serde order _ st paths haccepted
    obtain rfl : b' = b := (Prod.mk.inj (hbatch'.symm.trans hbatch)).1
    dsimp only at hresult
    by_cases hzero : b'.deletedObjects = 0
    · -- then every path is missing, and nothing else may be reported
      exfalso
      rw [if_neg (by omega)] at hresult
      obtain ⟨-, hresponse⟩ := Prod.mk.inj hresult
      obtain rfl := Except.ok.inj (Option.some.inj hresponse)
      have hlists := hexact.perm.length_eq
      have hsorted := hreport.perm.length_eq
      have hlength : 0 < paths.length := List.length_pos_iff.mpr hne
      simp only [List.length_append] at hlists hsorted
      have hfound : 0 <
          (foundPaths sha serde dockerBatchDeleteFlushThreshold st paths).length := by omega
      obtain ⟨p, hp⟩ := List.exists_mem_of_length_pos hfound
      exact (hreport.deletedObjects_ne_zero_iff hne).mpr (hreport.deletesSomething hp) hzero
    · have hsomething := (hreport.deletedObjects_ne_zero_iff hne).mp hzero
      rw [if_pos (by omega)] at hresult
      obtain ⟨hstate, hresponse⟩ := Prod.mk.inj hresult
      obtain ⟨rfl, rfl⟩ := Prod.mk.inj hstate
      obtain rfl := Except.ok.inj (Option.some.inj hresponse)
      obtain ⟨hrows, hsidecars⟩ := (exact_iff hreport).mp ⟨deleted, hexact⟩
      exact ⟨rfl, haccepted, hsomething, hrows, hsidecars⟩
  · rintro ⟨rfl, haccepted, hsomething, hrows, hsidecars⟩
    obtain ⟨b, hbatch, hreport⟩ := @batch_succeeds sha serde order _ st paths haccepted
    have hcount := (hreport.deletedObjects_ne_zero_iff hne).mpr hsomething
    obtain ⟨deleted, hexact⟩ := (@exact_iff sha serde c st files paths b hreport).mpr
      ⟨hrows, hsidecars⟩
    refine ⟨_, _, _, deleted, ?_, hexact⟩
    rw [hbatch]
    dsimp only
    rw [if_pos (by omega)]

/-- **The report of the deletion endpoint**: it is exact when nothing is requested, and else exactly
when the deletion succeeds and deletes something, no row of a path without a manifest at its turn is
live, and no sidecar of a rejected path is removed. -/
theorem reportExact_iff (sha : Sha256) (serde : SerdeJson) (order : HashOrder) (accounting : Bool)
    (c : Collation) (st : DynStorage) (files : List PackageFile) (paths : List String) :
    ReportExact sha serde order accounting c st files paths ↔ paths = [] ∨
      Reportable sha serde accounting c dockerBatchDeleteFlushThreshold st files paths := by
  by_cases hempty : paths = []
  · subst hempty
    exact ⟨fun _ => .inl rfl, fun _ => reportExact_nil⟩
  · rw [reportExact_cons_iff hempty, or_iff_right hempty]

/-! ### A tag that is already gone -/

/-- The row of a tag that is no longer stored, and a request for it and a stored one. -/
def staleRow : List PackageFile := [⟨"v2/img/manifests/z", false⟩]

def staleRequest : List String := ["v2/img/manifests/a", "v2/img/manifests/z"]

theorem not_reportExact_staleRequest : ¬ ∀ (sha : Sha256) (serde : SerdeJson) (order : HashOrder)
    (c : Collation) (st : DynStorage) (files : List PackageFile) (paths : List String),
    paths.Nodup → ReportExact sha serde order true c st files paths := by
  intro h
  have hexact := h .hexText layeredSerde insertionOrder .exact twoImages staleRow staleRequest
    (by decide)
  have hreportable := (reportExact_cons_iff (List.cons_ne_nil _ _)).mp hexact
  have hfound := hreportable.rows ⟨"v2/img/manifests/z", false⟩ (List.mem_singleton_self _) rfl
    ⟨_, List.mem_cons_of_mem _ (List.mem_singleton_self _), rfl⟩
  obtain ⟨b, -, hreport⟩ := @batch_succeeds .hexText layeredSerde insertionOrder _ twoImages
    staleRequest hreportable.accepted
  obtain ⟨i, hi⟩ := hreport.stored _ hfound
  obtain ⟨-, -, hopen, -⟩ := storedImage?_eq_some_iff.mp hi
  have hnone : twoImages.openFile (ofString "v2/img/manifests/z") = .ok none := by decide
  rw [hnone] at hopen
  cases hopen

end Pkgly.Docker
