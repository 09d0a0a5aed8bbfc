import Pkgly.Npm.DistTags

/-!
# Distribution tags under concurrent requests

Every tag names a version of the project, and has the value that the last committed change of it
wrote, or the one that it had at the start (`tags_safe`).  This holds in the runs in which a
publication finds its version when it writes its tags, a deletion that deletes rows has locked the
project or finds tags stored, and as long as no tags are stored, what a request has inferred is what
the project started with.

The lock of the project orders the changes: a transaction that has written tags holds it until its
end, so that the tags that it commits are the committed ones with its own changes (`TxOk`).  A
deletion has cleared the tags of all versions that it has deleted before it commits (`Cleared`).  A
publication takes no lock before its version is inserted, so that it may write its tags after the
version has been deleted (`not_tagsSafe_deleted`).
-/

namespace Pkgly.Npm

variable {format : TagFormat} {c : Collation} {base : Tags} {s s' : TaggedProject}
  {tx tx' : Transaction} {id : ℕ}

/-! ### Changes -/

def TagEdit.write (value : Option String) (tag : String) : TagEdit → Option String
  | .merge tags => (tags.get tag).or value
  | .remove removed => if tag = removed then none else value
  | .clear version => value.filter (· != version)

def lastWrite (value : Option String) (tag : String) : List TagEdit → Option String
  | [] => value
  | edit :: edits => edit.write (lastWrite value tag edits) tag

def TagEdit.Writes (value : Option String) (tag : String) : TagEdit → Prop
  | .merge tags => (tags.get tag).isSome
  | .remove removed => tag = removed
  | .clear version => value = some version

theorem lastWrite_append (value : Option String) (tag : String) (edits older : List TagEdit) :
    lastWrite value tag (edits ++ older) = lastWrite (lastWrite value tag older) tag edits := by
  induction edits with
  | nil => rfl
  | cons edit edits ih => rw [List.cons_append, lastWrite, lastWrite, ih]

theorem lastWrite_of_not_writes {value : Option String} {tag : String} {edits : List TagEdit}
    (h : ∀ edit ∈ edits, ¬ edit.Writes value tag) : lastWrite value tag edits = value := by
  induction edits with
  | nil => rfl
  | cons edit edits ih =>
    rw [lastWrite, ih fun e he => h e (List.mem_cons_of_mem _ he)]
    have hedit := h edit (List.mem_cons_self ..)
    cases edit with
    | merge tags =>
      rw [TagEdit.Writes, Bool.not_eq_true, Option.isSome_eq_false_iff,
        Option.isNone_iff_eq_none] at hedit
      rw [TagEdit.write, hedit, Option.none_or]
    | remove removed => exact if_neg hedit
    | clear version =>
      cases value with
      | none => rfl
      | some v =>
        rw [TagEdit.write, Option.filter_some, if_pos (bne_iff_ne.mpr fun hv => hedit (congrArg some hv))]

/-! ### The project and its transactions -/

theorem hasVersion_iff {version : String} :
    s.hasVersion version = true ↔ ∃ v ∈ s.versions, v.version = version := by
  simp [TaggedProject.hasVersion]

/-- A project whose tags were `base` at the start. -/
structure ProjectOk (base : Tags) (s : TaggedProject) : Prop where
  versions : ∀ v ∈ s.versions, ∀ w ∈ s.versions, v.version = w.version → v = w
  valid : ∀ tag version, (s.tags.getD base).get tag = some version → s.hasVersion version = true
  last : ∀ tag, (s.tags.getD base).get tag = lastWrite (base.get tag) tag s.history
  lock_lt : ∀ id, s.lock = some id → id < s.nextTx
  deleted_lt : ∀ v ∈ s.versions, ∀ id, v.deletedBy = some id → id < s.nextTx

structure TxOk (base : Tags) (s : TaggedProject) (tx : Transaction) : Prop where
  id_lt : tx.id < s.nextTx
  locked : tx.written ≠ none → s.lock = some tx.id
  unwritten : tx.written = none → tx.edits = []
  last : ∀ tag, ((s.view tx).getD base).get tag =
    lastWrite ((s.tags.getD base).get tag) tag tx.edits
  valid : ∀ tag version, ((s.view tx).getD base).get tag = some version →
    s.hasVersion version = true

def Cleared (base : Tags) (s : TaggedProject) (tx : Transaction) (versions : List String) : Prop :=
  ∀ v ∈ s.versions, v.deletedBy = some tx.id → v.version ∈ versions ∨
    s.lock = some tx.id ∧ ∀ tag, ((s.view tx).getD base).get tag ≠ some v.version

def NoDeletes (s : TaggedProject) (tx : Transaction) : Prop :=
  ∀ v ∈ s.versions, v.deletedBy ≠ some tx.id

theorem NoDeletes.cleared {versions : List String} (h : NoDeletes s tx) :
    Cleared base s tx versions := fun v hv hdeleted => absurd hdeleted (h v hv)

theorem view_of_unwritten (h : tx.written = none) : s.view tx = s.tags := by
  rw [TaggedProject.view, h, Option.none_or]

theorem TxOk.of_unwritten (hs : ProjectOk base s) (hlt : tx.id < s.nextTx) (hwritten : tx.written = none)
    (hedits : tx.edits = []) : TxOk base s tx where
  id_lt := hlt
  locked h := absurd hwritten h
  unwritten _ := hedits
  last tag := by rw [view_of_unwritten hwritten, hedits]; rfl
  valid tag version h := hs.valid tag version (by rwa [view_of_unwritten hwritten] at h)

/-- What a step of one process may do to the transaction `id` of another one. -/
structure Env (s s' : TaggedProject) (id : ℕ) : Prop where
  next : s.nextTx ≤ s'.nextTx
  lock : s.lock = some id → s'.lock = some id ∧ s'.tags = s.tags ∧
    ∀ version, s.hasVersion version = true → s'.hasVersion version = true
  deleted : ∀ v ∈ s'.versions, v.deletedBy = some id → v ∈ s.versions
  stored : s.tags ≠ none → s'.tags ≠ none

theorem Env.refl (s : TaggedProject) (id : ℕ) : Env s s id :=
  ⟨le_rfl, fun h => ⟨h, rfl, fun _ hv => hv⟩, fun _ hv _ => hv, fun h => h⟩

theorem TxOk.of_env (h : TxOk base s tx) (hs' : ProjectOk base s') (he : Env s s' tx.id) :
    TxOk base s' tx := by
  by_cases hwritten : tx.written = none
  · exact .of_unwritten hs' (h.id_lt.trans_le he.next) hwritten (h.unwritten hwritten)
  · obtain ⟨hlock, htags, hversions⟩ := he.lock (h.locked hwritten)
    have hview : s'.view tx = s.view tx := by rw [TaggedProject.view, TaggedProject.view, htags]
    refine ⟨h.id_lt.trans_le he.next, fun _ => hlock, h.unwritten, fun tag => ?_,
      fun tag version hv => ?_⟩
    · rw [hview, htags]
      exact h.last tag
    · rw [hview] at hv
      exact hversions version (h.valid tag version hv)

theorem NoDeletes.of_env (h : NoDeletes s tx) (he : Env s s' tx.id) : NoDeletes s' tx :=
  fun v hv hdeleted => h v (he.deleted v hv hdeleted) hdeleted

theorem Cleared.of_env {versions : List String} (h : Cleared base s tx versions)
    (he : Env s s' tx.id) : Cleared base s' tx versions := by
  intro v hv hdeleted
  refine (h v (he.deleted v hv hdeleted) hdeleted).imp_right fun ⟨hlock, hview⟩ => ?_
  obtain ⟨hlock', htags, -⟩ := he.lock hlock
  refine ⟨hlock', fun tag => ?_⟩
  rw [TaggedProject.view, htags]
  exact hview tag

/-! ### Statements -/

theorem eq_of_lockRow (h : s.lockRow tx = some s') :
    s' = { s with lock := some tx.id } ∧ (s.lock = none ∨ s.lock = some tx.id) := by
  unfold TaggedProject.lockRow at h
  split_ifs at h with hlock
  exact ⟨(Option.some.inj h).symm, hlock⟩

theorem ProjectOk.begin (hs : ProjectOk base s) {lock : Option ℕ}
    (hlock : lock = s.lock ∨ s.lock = none ∧ lock = some s.nextTx) :
    ProjectOk base { s with nextTx := s.nextTx + 1, lock } ∧
      (∀ id < s.nextTx, Env s { s with nextTx := s.nextTx + 1, lock } id) ∧
      TxOk base { s with nextTx := s.nextTx + 1, lock } ⟨s.nextTx, none, []⟩ ∧
      NoDeletes { s with nextTx := s.nextTx + 1, lock } ⟨s.nextTx, none, []⟩ := by
  have hok : ProjectOk base { s with nextTx := s.nextTx + 1, lock } := by
    refine ⟨hs.versions, hs.valid, hs.last, fun id hid => ?_, fun v hv id hid =>
      Nat.lt_succ_of_lt (hs.deleted_lt v hv id hid)⟩
    rcases hlock with rfl | ⟨-, rfl⟩
    · exact Nat.lt_succ_of_lt (hs.lock_lt id hid)
    · rw [← Option.some.inj hid]
      exact Nat.lt_succ_self _
  refine ⟨hok, fun id hlt => ⟨Nat.le_succ _, fun hid => ?_, fun _ hv _ => hv, fun h => h⟩,
    .of_unwritten hok (Nat.lt_succ_self _) rfl rfl, fun v hv hdeleted => ?_⟩
  · aesop
  · exact absurd (hs.deleted_lt v hv _ hdeleted) (lt_irrefl _)

theorem eq_of_update {edit : TagEdit} {tags : Tags} (h : s.update tx edit tags = some (s', tx')) :
    s' = { s with lock := some tx.id } ∧ (s.lock = none ∨ s.lock = some tx.id) ∧
      tx' = { tx with written := some tags, edits := edit :: tx.edits } := by
  obtain ⟨s₁, hlock, heq⟩ := Option.map_eq_some_iff.mp h
  obtain ⟨rfl, rfl⟩ := Prod.mk.inj heq
  obtain ⟨rfl, hfree⟩ := eq_of_lockRow hlock
  exact ⟨rfl, hfree, rfl⟩

theorem Env.of_lock (hlock : s.lock = none ∨ s.lock = some tx.id) (hne : id ≠ tx.id) :
    Env s { s with lock := some tx.id } id := by
  refine ⟨le_rfl, fun hid => ?_, fun _ hv _ => hv, fun h => h⟩
  grind

theorem ProjectOk.lock (hs : ProjectOk base s) (hlt : id < s.nextTx) :
    ProjectOk base { s with lock := some id } :=
  ⟨hs.versions, hs.valid, hs.last, fun _ hid => Option.some.inj hid ▸ hlt, hs.deleted_lt⟩

/-- An update whose tags are those of the transaction with the change, and name versions. -/
theorem TxOk.update (htx : TxOk base s tx) {edit : TagEdit} {tags : Tags}
    (hwrite : ∀ tag, tags.get tag = edit.write (((s.view tx).getD base).get tag) tag)
    (hvalid : ∀ tag version, tags.get tag = some version → s.hasVersion version = true) :
    TxOk base { s with lock := some tx.id }
      { tx with written := some tags, edits := edit :: tx.edits } where
  id_lt := htx.id_lt
  locked _ := rfl
  unwritten h := by cases h
  last tag := by
    rw [lastWrite, ← htx.last tag]
    exact hwrite tag
  valid tag version h := hvalid tag version h

theorem ProjectOk.mapRows (hs : ProjectOk base s) {f : VersionRow → VersionRow} {lock : Option ℕ}
    (hf : ∀ v, (f v).version = v.version)
    (hdeleted : ∀ v ∈ s.versions, ∀ id, (f v).deletedBy = some id → id < s.nextTx)
    (hlock : ∀ id, lock = some id → id < s.nextTx) :
    ProjectOk base { s with versions := s.versions.map f, lock } := by
  refine ⟨fun v hv w hw heq => ?_, fun tag version h => ?_, hs.last, hlock, fun v hv id hid => ?_⟩
  · obtain ⟨a, ha, rfl⟩ := List.mem_map.mp hv
    obtain ⟨b, hb, rfl⟩ := List.mem_map.mp hw
    rw [hf, hf] at heq
    rw [hs.versions a ha b hb heq]
  · obtain ⟨v, hv, rfl⟩ := hasVersion_iff.mp (hs.valid tag version h)
    exact hasVersion_iff.mpr ⟨f v, List.mem_map_of_mem hv, hf v⟩
  · obtain ⟨a, ha, rfl⟩ := List.mem_map.mp hv
    exact hdeleted a ha id hid

theorem Env.mapRows {f : VersionRow → VersionRow} {lock : Option ℕ}
    (hf : ∀ v, (f v).version = v.version)
    (hdeleted : ∀ v ∈ s.versions, (f v).deletedBy = some id → f v = v)
    (hlock : s.lock = some id → lock = some id) :
    Env s { s with versions := s.versions.map f, lock } id := by
  refine ⟨le_rfl, fun hid => ⟨hlock hid, rfl, fun version hv => ?_⟩, fun v hv hid => ?_, fun h => h⟩
  · obtain ⟨a, ha, rfl⟩ := hasVersion_iff.mp hv
    exact hasVersion_iff.mpr ⟨f a, List.mem_map_of_mem ha, hf a⟩
  · obtain ⟨a, ha, rfl⟩ := List.mem_map.mp hv
    rw [hdeleted a ha hid]
    exact ha

theorem lock_of_release (s : TaggedProject) (tx : Transaction) {lock : Option ℕ} (h : (if s.lock = some tx.id then none else s.lock) = lock) :
    (∀ id, lock = some id → s.lock = some id) ∧
      ∀ id ≠ tx.id, s.lock = some id → lock = some id := by
  grind

theorem rollback_ok (hs : ProjectOk base s) (tx : Transaction) : ProjectOk base (s.rollback tx) ∧
    ∀ id ≠ tx.id, Env s (s.rollback tx) id := by
  have hlock := lock_of_release s tx rfl
  have hversion : ∀ v : VersionRow,
      (if v.deletedBy = some tx.id then { v with deletedBy := none } else v).version = v.version := by
    intro v
    split_ifs <;> rfl
  refine ⟨hs.mapRows hversion (fun v hv id hid => ?_) fun id hid => hs.lock_lt id (hlock.1 id hid),
    fun id hne => .mapRows hversion (fun v hv hid => ?_) (hlock.2 id hne)⟩
  · split_ifs at hid
    exact hs.deleted_lt v hv id hid
  · split_ifs at hid ⊢ with hmine
    rfl

theorem commit_ok (hs : ProjectOk base s) (htx : TxOk base s tx) (hcleared : Cleared base s tx []) :
    ProjectOk base (s.commit tx) ∧ ∀ id ≠ tx.id, Env s (s.commit tx) id := by
  have hlock := lock_of_release s tx rfl
  have hmem : ∀ v ∈ (s.commit tx).versions, v ∈ s.versions := fun v hv => List.mem_of_mem_filter hv
  have hkept : ∀ v ∈ s.versions, v.deletedBy ≠ some tx.id → v ∈ (s.commit tx).versions :=
    fun v hv hne => List.mem_filter.mpr ⟨hv, decide_eq_true hne⟩
  refine ⟨⟨fun v hv w hw => hs.versions v (hmem v hv) w (hmem w hw), fun tag version h => ?_,
    fun tag => ?_, fun id hid => hs.lock_lt id (hlock.1 id hid),
    fun v hv => hs.deleted_lt v (hmem v hv)⟩, fun id hne => ⟨le_rfl, fun hid => ?_,
    fun v hv _ => hmem v hv, fun hstored hnone => ?_⟩⟩
  · obtain ⟨v, hv, rfl⟩ := hasVersion_iff.mp (htx.valid tag version h)
    refine hasVersion_iff.mpr ⟨v, hkept v hv fun hdeleted => ?_, rfl⟩
    rcases hcleared v hv hdeleted with hnil | ⟨-, hview⟩
    · cases hnil
    · exact hview tag h
  · rw [show (s.commit tx).tags = s.view tx from rfl, htx.last tag, hs.last tag]
    exact (lastWrite_append _ _ _ _).symm
  · -- a transaction without the lock has written no tags, and deleted no rows
    have hother : s.lock ≠ some tx.id := by
      rw [hid]
      exact fun heq => hne (Option.some.inj heq)
    have hwritten : tx.written = none := by_contra fun h => hother (htx.locked h)
    refine ⟨hlock.2 id hne hid, view_of_unwritten hwritten, fun version hv => ?_⟩
    obtain ⟨a, ha, rfl⟩ := hasVersion_iff.mp hv
    refine hasVersion_iff.mpr ⟨a, hkept a ha fun hdeleted => ?_, rfl⟩
    rcases hcleared a ha hdeleted with hnil | ⟨hheld, -⟩
    · cases hnil
    · exact hother hheld
  · exact hstored (Option.or_eq_none_iff.mp hnone).2

theorem insert_ok (hs : ProjectOk base s) (row : VersionRow) (hrow : row.deletedBy = none)
    (hnew : ∀ v ∈ s.versions, v.version ≠ row.version) :
    ProjectOk base { s with versions := s.versions ++ [row] } ∧
      ∀ id, Env s { s with versions := s.versions ++ [row] } id := by
  have hkeeps : ∀ version, s.hasVersion version = true →
      TaggedProject.hasVersion { s with versions := s.versions ++ [row] } version = true := by
    intro version hv
    obtain ⟨a, ha, rfl⟩ := hasVersion_iff.mp hv
    exact hasVersion_iff.mpr ⟨a, List.mem_append_left _ ha, rfl⟩
  have hdeleted : ∀ v ∈ s.versions ++ [row], ∀ id, v.deletedBy = some id → v ∈ s.versions := by grind
  refine ⟨⟨?_, fun tag version h => hkeeps version (hs.valid tag version h),
    hs.last, hs.lock_lt, fun v hv id hid => hs.deleted_lt v (hdeleted v hv id hid) id hid⟩,
    fun id => ⟨le_rfl, fun hid => ⟨hid, rfl, hkeeps⟩, fun v hv hid => hdeleted v hv id hid,
      fun h => h⟩⟩
  exact related_concat (fun v w hvw heq => (hvw heq.symm).symm) hs.versions
    (fun v hv heq => absurd heq (hnew v hv)) fun _ => rfl

/-! ### Processes -/

def EachOk (base : Tags) (s : TaggedProject) : TagProcess format → Prop
  | .publish _ (.mergeTags tx _) => TxOk base s tx ∧ NoDeletes s tx ∧ tx.written = none
  | .publish _ (.commit tx) => TxOk base s tx ∧ NoDeletes s tx
  | .publish _ _ => True
  | .change _ .lockProject => True
  | .change _ (.loadTags tx) | .change _ (.loadCandidates tx) | .change _ (.check tx _) =>
    TxOk base s tx ∧ NoDeletes s tx ∧ tx.written = none ∧ s.lock = some tx.id
  | .change r (.write tx _) =>
    TxOk base s tx ∧ NoDeletes s tx ∧ tx.written = none ∧ s.lock = some tx.id ∧
      ∀ tag version, r = .set tag version → s.hasVersion version = true
  | .change _ (.commit tx) => TxOk base s tx ∧ NoDeletes s tx
  | .delete (.lockProjects _) => True
  | .delete (.loadTags tx _ _) | .delete (.loadCandidates tx _ _) | .delete (.deleteRows tx _ _ _)
  | .delete (.commit tx _) => TxOk base s tx ∧ Cleared base s tx []
  | .delete (.clear tx _ versions _ _) =>
    TxOk base s tx ∧ Cleared base s tx versions ∧
      (versions ≠ [] → s.lock = some tx.id ∨ s.tags ≠ none)
  | .done _ => True

theorem EachOk.of_env {p : TagProcess format} (h : EachOk base s p) (hs' : ProjectOk base s')
    (he : ∀ tx ∈ p.transaction?, Env s s' tx.id) : EachOk base s' p := by
  match p, h, he with
  | .publish _ (.mergeTags tx _), ⟨htx, hno, hwritten⟩, he =>
    exact ⟨htx.of_env hs' (he tx rfl), hno.of_env (he tx rfl), hwritten⟩
  | .publish _ (.commit tx), ⟨htx, hno⟩, he =>
    exact ⟨htx.of_env hs' (he tx rfl), hno.of_env (he tx rfl)⟩
  | .publish _ .loadTags, _, _ => trivial
  | .publish _ .loadCandidates, _, _ => trivial
  | .publish _ (.findVersion _), _, _ => trivial
  | .publish _ (.insertVersion _), _, _ => trivial
  | .publish _ (.lockProject _), _, _ => trivial
  | .change _ .lockProject, _, _ => trivial
  | .change _ (.loadTags tx), ⟨htx, hno, hwritten, hlock⟩, he =>
    exact ⟨htx.of_env hs' (he tx rfl), hno.of_env (he tx rfl), hwritten, ((he tx rfl).lock hlock).1⟩
  | .change _ (.loadCandidates tx), ⟨htx, hno, hwritten, hlock⟩, he =>
    exact ⟨htx.of_env hs' (he tx rfl), hno.of_env (he tx rfl), hwritten, ((he tx rfl).lock hlock).1⟩
  | .change _ (.check tx _), ⟨htx, hno, hwritten, hlock⟩, he =>
    exact ⟨htx.of_env hs' (he tx rfl), hno.of_env (he tx rfl), hwritten, ((he tx rfl).lock hlock).1⟩
  | .change _ (.write tx _), ⟨htx, hno, hwritten, hlock, hversion⟩, he =>
    obtain ⟨hlock', -, hkeeps⟩ := (he tx rfl).lock hlock
    exact ⟨htx.of_env hs' (he tx rfl), hno.of_env (he tx rfl), hwritten, hlock',
      fun tag version hr => hkeeps version (hversion tag version hr)⟩
  | .change _ (.commit tx), ⟨htx, hno⟩, he =>
    exact ⟨htx.of_env hs' (he tx rfl), hno.of_env (he tx rfl)⟩
  | .delete (.lockProjects _), _, _ => trivial
  | .delete (.loadTags tx _ _), ⟨htx, hcleared⟩, he =>
    exact ⟨htx.of_env hs' (he tx rfl), hcleared.of_env (he tx rfl)⟩
  | .delete (.loadCandidates tx _ _), ⟨htx, hcleared⟩, he =>
    exact ⟨htx.of_env hs' (he tx rfl), hcleared.of_env (he tx rfl)⟩
  | .delete (.deleteRows tx _ _ _), ⟨htx, hcleared⟩, he =>
    exact ⟨htx.of_env hs' (he tx rfl), hcleared.of_env (he tx rfl)⟩
  | .delete (.commit tx _), ⟨htx, hcleared⟩, he =>
    exact ⟨htx.of_env hs' (he tx rfl), hcleared.of_env (he tx rfl)⟩
  | .delete (.clear tx _ versions _ _), ⟨htx, hcleared, hstored⟩, he =>
    refine ⟨htx.of_env hs' (he tx rfl), hcleared.of_env (he tx rfl), fun hne => ?_⟩
    exact (hstored hne).imp (fun hlock => ((he tx rfl).lock hlock).1) (he tx rfl).stored
  | .done _, _, _ => trivial

theorem EachOk.id_lt {p : TagProcess format} (h : EachOk base s p) :
    ∀ tx ∈ p.transaction?, tx.id < s.nextTx := by
  intro tx htx
  match p, h, htx with
  | .publish _ (.mergeTags tx _), h, rfl => exact h.1.id_lt
  | .publish _ (.commit tx), h, rfl => exact h.1.id_lt
  | .change _ (.loadTags tx), h, rfl => exact h.1.id_lt
  | .change _ (.loadCandidates tx), h, rfl => exact h.1.id_lt
  | .change _ (.check tx _), h, rfl => exact h.1.id_lt
  | .change _ (.write tx _), h, rfl => exact h.1.id_lt
  | .change _ (.commit tx), h, rfl => exact h.1.id_lt
  | .delete (.loadTags tx _ _), h, rfl => exact h.1.id_lt
  | .delete (.loadCandidates tx _ _), h, rfl => exact h.1.id_lt
  | .delete (.deleteRows tx _ _ _), h, rfl => exact h.1.id_lt
  | .delete (.clear tx _ _ _ _), h, rfl => exact h.1.id_lt
  | .delete (.commit tx _), h, rfl => exact h.1.id_lt

structure StepOk (base : Tags) (s s' : TaggedProject) (p q : TagProcess format) : Prop where
  project : ProjectOk base s'
  each : EachOk base s' q
  /-- Other transactions are left alone. -/
  env : ∀ id < s.nextTx, (∀ tx ∈ p.transaction?, id ≠ tx.id) → Env s s' id
  /-- A transaction begins with an id of its own. -/
  fresh : ∀ tx ∈ q.transaction?, (∃ tx' ∈ p.transaction?, tx'.id = tx.id) ∨ tx.id = s.nextTx
  history : ∃ edits, s'.history = edits ++ s.history

theorem StepOk.same {p q : TagProcess format} (hs : ProjectOk base s) (hq : EachOk base s q)
    (htx : ∀ tx ∈ q.transaction?, ∃ tx' ∈ p.transaction?, tx'.id = tx.id) :
    StepOk base s s p q :=
  ⟨hs, hq, fun id _ _ => .refl s id, fun tx h => .inl (htx tx h), [], rfl⟩

theorem StepOk.finish {p q : TagProcess format} (hp : p.transaction? = some tx)
    (hs' : ProjectOk base s') (he : ∀ id ≠ tx.id, Env s s' id)
    (hhistory : ∃ edits, s'.history = edits ++ s.history) (hq : EachOk base s' q)
    (hnone : q.transaction? = none) : StepOk base s s' p q := by
  refine ⟨hs', hq, fun id _ hne => he id (hne tx hp), fun tx' htx' => ?_, hhistory⟩
  rw [hnone] at htx'
  cases htx'

theorem StepOk.begin {p q : TagProcess format} {lock : Option ℕ} (hs : ProjectOk base s)
    (hlock : lock = s.lock ∨ s.lock = none ∧ lock = some s.nextTx)
    (hq : EachOk base { s with nextTx := s.nextTx + 1, lock } q)
    (htx : q.transaction? = some ⟨s.nextTx, none, []⟩) :
    StepOk base s { s with nextTx := s.nextTx + 1, lock } p q := by
  refine ⟨(hs.begin hlock).1, hq, fun id hlt _ => (hs.begin hlock).2.1 id hlt, fun tx h => .inr ?_,
    [], rfl⟩
  rw [htx] at h
  rw [← Option.some.inj h]

theorem eq_of_begin_lockRow (hs : ProjectOk base s)
    (h : s.begin.1.lockRow s.begin.2 = some s') :
    s' = { s with nextTx := s.nextTx + 1, lock := some s.nextTx } ∧ s.lock = none := by
  obtain ⟨rfl, hlock⟩ := eq_of_lockRow h
  refine ⟨rfl, hlock.resolve_right fun hmine => ?_⟩
  exact absurd (hs.lock_lt _ hmine) (lt_irrefl _)

theorem StepOk.update {p q : TagProcess format} (hs : ProjectOk base s) (hlt : tx.id < s.nextTx)
    (hp : p.transaction? = some tx) (hlock : s.lock = none ∨ s.lock = some tx.id)
    (hq : EachOk base { s with lock := some tx.id } q) (htx : ∀ tx' ∈ q.transaction?, tx'.id = tx.id) :
    StepOk base s { s with lock := some tx.id } p q :=
  ⟨hs.lock hlt, hq, fun _ _ hne => .of_lock hlock (hne tx hp),
    fun tx' h => .inl ⟨tx, hp, (htx tx' h).symm⟩, [], rfl⟩

/-! ### Guards -/

def inferredAsStarted (base fallback : Tags) (writes : String → Bool) : Bool :=
  (base.keys ++ fallback.keys).all fun tag => writes tag || fallback.get tag == base.get tag

theorem get_of_inferredAsStarted {fallback : Tags} {writes : String → Bool}
    (h : inferredAsStarted base fallback writes = true) {tag : String} (htag : writes tag = false) :
    fallback.get tag = base.get tag := by
  rw [inferredAsStarted, List.all_eq_true] at h
  have hkeys : ∀ tags : Tags, tag ∉ tags.keys → tags.get tag = none := by
    intro tags hmem
    rw [← Option.not_isSome_iff_eq_none, Option.isSome_iff_exists]
    exact fun hget => hmem (Store.mem_keys_iff.mpr hget)
  grind

def TagChange.tag : TagChange → String
  | .set tag _ | .remove tag => tag

def DeletionTargets.selects (c : Collation) (targets : DeletionTargets) (path : String)
    (tx : Transaction) (v : VersionRow) : Bool :=
  v.deletedBy != some tx.id && Packages.matchesTarget c targets.includeDescendants path v.path

/-- A publication finds its version when it writes its tags; a deletion that deletes rows has locked
the project or finds tags stored; and as long as no tags are stored, what a request has inferred is
what the project started with. -/
def TagProcess.guarded (c : Collation) (base : Tags) (s : TaggedProject) : TagProcess format → Bool
  | .publish u (.mergeTags _ fallback) => s.hasVersion u.version &&
      (s.tags.isSome || inferredAsStarted base fallback fun tag => (u.tags.get tag).isSome)
  | .change r (.write _ fallback) => s.tags.isSome || inferredAsStarted base fallback (· == r.tag)
  | .delete (.deleteRows tx _ targets _) => s.lock == some tx.id || s.tags.isSome ||
      !(targets.paths.take 1).any fun path => s.versions.any (targets.selects c path tx)
  | .delete (.clear tx inferred (version :: _) _ _) => (s.view tx).isSome ||
      base.entries.all fun entry => (entry.2 == version) == (inferred == some version)
  | _ => true

/-! ### Steps -/

variable {u : TagPublication format} {r : TagChange} {q : TagProcess format}

theorem TagPublication.version_of_get (u : TagPublication format) {tag version : String}
    (h : u.tags.get tag = some version) : version = u.version := by
  obtain ⟨requested, hvalid⟩ := u.valid
  have hchosen : ∀ chosen : Tags, (if chosen.keys.any fun tag =>
      !validTag format tag || chosen.get tag != some u.version then none else some chosen) =
        some u.tags → version = u.version := by
    intro chosen heq
    split_ifs at heq with hbad
    rw [← Option.some.inj heq] at h
    by_contra hne
    refine hbad (List.any_eq_true.mpr ⟨tag, Store.mem_keys_iff.mpr ⟨version, h⟩, ?_⟩)
    rw [h, Bool.or_eq_true, bne_iff_ne]
    exact .inr fun hsome => hne (Option.some.inj hsome)
  exact hchosen _ hvalid

theorem TxOk.mergeTags (htx : TxOk base s tx) (hwritten : tx.written = none)
    {tags fallback : Tags}
    (hversions : ∀ tag version, tags.get tag = some version → s.hasVersion version = true)
    (hfallback : s.tags = none → ∀ tag, tags.get tag = none → fallback.get tag = base.get tag)
    (h : mergeTags s tx tags fallback = some (s', tx')) :
    s' = { s with lock := some tx.id } ∧ (s.lock = none ∨ s.lock = some tx.id) ∧ tx'.id = tx.id ∧
      TxOk base s' tx' := by
  obtain ⟨rfl, hlock, rfl⟩ := eq_of_update h
  have hget : ∀ tag, (((s.view tx).getD fallback).putAll tags).get tag =
      (tags.get tag).or (((s.view tx).getD base).get tag) := by
    intro tag
    rw [Store.get_putAll, view_of_unwritten hwritten]
    cases htag : tags.get tag with
    | some version => rfl
    | none =>
      cases hstored : s.tags with
      | some stored => rfl
      | none => exact hfallback hstored tag htag
  refine ⟨rfl, hlock, rfl, htx.update hget fun tag version hv => ?_⟩
  rw [hget, Option.or_eq_some_iff] at hv
  rcases hv with hv | ⟨-, hv⟩
  · exact hversions tag version hv
  · exact htx.valid tag version hv

theorem TxOk.removeTag (htx : TxOk base s tx) (hwritten : tx.written = none) {removed : String}
    {fallback : Tags}
    (hfallback : s.tags = none → ∀ tag, tag ≠ removed → fallback.get tag = base.get tag)
    (h : removeTag s tx removed fallback = some (s', tx')) :
    s' = { s with lock := some tx.id } ∧ (s.lock = none ∨ s.lock = some tx.id) ∧ tx'.id = tx.id ∧
      TxOk base s' tx' := by
  obtain ⟨rfl, hlock, rfl⟩ := eq_of_update h
  have hget : ∀ tag, (((s.view tx).getD fallback).remove removed).get tag =
      if tag = removed then none else ((s.view tx).getD base).get tag := by
    intro tag
    rw [Store.get_remove, view_of_unwritten hwritten]
    split_ifs with htag
    · rfl
    · cases hstored : s.tags with
      | some stored => rfl
      | none => exact hfallback hstored tag htag
  refine ⟨rfl, hlock, rfl, htx.update hget fun tag version hv => ?_⟩
  rw [hget] at hv
  split_ifs at hv
  exact htx.valid tag version hv

/-- **A publication takes a step.** -/
theorem publish_ok {stage : PublishStage} (hs : ProjectOk base s)
    (hp : EachOk base s (.publish u stage))
    (hg : (TagProcess.publish u stage).guarded c base s = true)
    (h : publishNext s u stage = some (s', q)) : StepOk base s s' (.publish u stage) q := by
  cases stage with
  | loadTags =>
    rw [publishNext] at h
    cases htags : s.tags with
    | none | some tags =>
      rw [htags] at h
      obtain ⟨rfl, rfl⟩ := Prod.mk.inj (Option.some.inj h)
      exact .same hs trivial nofun
  | loadCandidates =>
    obtain ⟨rfl, rfl⟩ := Prod.mk.inj (Option.some.inj h)
    exact .same hs trivial nofun
  | findVersion fallback =>
    obtain ⟨rfl, rfl⟩ := Prod.mk.inj (Option.some.inj h)
    split_ifs
    · exact .same hs trivial nofun
    · exact .same hs trivial nofun
  | insertVersion fallback =>
    rw [publishNext] at h
    cases hfind : s.versions.find? fun v => v.version == u.version with
    | some row =>
      rw [hfind] at h
      dsimp only at h
      split_ifs at h
      obtain ⟨rfl, rfl⟩ := Prod.mk.inj (Option.some.inj h)
      exact .same hs trivial nofun
    | none =>
      rw [hfind] at h
      obtain ⟨rfl, rfl⟩ := Prod.mk.inj (Option.some.inj h)
      have hnew : ∀ v ∈ s.versions, v.version ≠ u.version := fun v hv heq =>
        List.find?_eq_none.mp hfind v hv (beq_iff_eq.mpr heq)
      obtain ⟨hs', henv⟩ := insert_ok hs ⟨u.version, u.path, none⟩ rfl hnew
      exact ⟨hs', trivial, fun id _ _ => henv id, nofun, [], rfl⟩
  | lockProject fallback =>
    obtain ⟨s₁, hlock, heq⟩ := Option.map_eq_some_iff.mp h
    obtain ⟨rfl, rfl⟩ := Prod.mk.inj heq
    obtain ⟨rfl, hfree⟩ := eq_of_begin_lockRow hs hlock
    obtain ⟨-, -, htx, hno⟩ := hs.begin (.inr ⟨hfree, rfl⟩)
    exact .begin hs (.inr ⟨hfree, rfl⟩) ⟨htx, hno, rfl⟩ rfl
  | mergeTags tx fallback =>
    obtain ⟨⟨s₁, tx'⟩, hmerge, heq⟩ := Option.map_eq_some_iff.mp h
    obtain ⟨rfl, rfl⟩ := Prod.mk.inj heq
    obtain ⟨htx, hno, hwritten⟩ := hp
    rw [TagProcess.guarded, Bool.and_eq_true, Bool.or_eq_true] at hg
    obtain ⟨rfl, hlock, hid, htx'⟩ := htx.mergeTags hwritten
      (fun tag version (hv : u.tags.get tag = some version) => by rw [u.version_of_get hv]; exact hg.1)
      (fun hstored tag htag => by
        have hinferred := hg.2.resolve_left (by rw [hstored]; exact Bool.false_ne_true)
        exact get_of_inferredAsStarted hinferred (by rw [htag]; rfl)) hmerge
    refine .update hs htx.id_lt rfl hlock ⟨htx', fun v hv => ?_⟩ fun tx'' h => ?_
    · rw [hid]
      exact hno v hv
    · rw [← Option.some.inj h]
      exact hid
  | commit tx =>
    obtain ⟨rfl, rfl⟩ := Prod.mk.inj (Option.some.inj h)
    obtain ⟨hs', henv⟩ := commit_ok hs hp.1 hp.2.cleared
    exact .finish rfl hs' henv ⟨tx.edits, rfl⟩ trivial rfl

/-- **A change of a tag takes a step.** -/
theorem change_ok {stage : ChangeStage} (hs : ProjectOk base s)
    (hp : EachOk base s (.change r stage : TagProcess format))
    (hg : (TagProcess.change r stage : TagProcess format).guarded c base s = true)
    (h : changeNext s r stage = some (s', q)) : StepOk base s s' (.change r stage) q := by
  cases stage with
  | lockProject =>
    obtain ⟨s₁, hlock, heq⟩ := Option.map_eq_some_iff.mp h
    obtain ⟨rfl, rfl⟩ := Prod.mk.inj heq
    obtain ⟨rfl, hfree⟩ := eq_of_begin_lockRow hs hlock
    obtain ⟨-, -, htx, hno⟩ := hs.begin (.inr ⟨hfree, rfl⟩)
    exact .begin hs (.inr ⟨hfree, rfl⟩) ⟨htx, hno, rfl, rfl⟩ rfl
  | loadTags tx =>
    rw [changeNext] at h
    cases htags : s.tags with
    | none | some tags =>
      rw [htags] at h
      obtain ⟨rfl, rfl⟩ := Prod.mk.inj (Option.some.inj h)
      exact .same hs hp fun tx' h => ⟨tx', h, rfl⟩
  | loadCandidates tx =>
    obtain ⟨rfl, rfl⟩ := Prod.mk.inj (Option.some.inj h)
    exact .same hs hp fun tx' h => ⟨tx', h, rfl⟩
  | check tx fallback =>
    obtain ⟨htx, hno, hwritten, hlock⟩ := hp
    unfold changeNext at h
    dsimp only at h
    split_ifs at h with hfound
    · obtain ⟨rfl, rfl⟩ := Prod.mk.inj (Option.some.inj h)
      refine .same hs ⟨htx, hno, hwritten, hlock, fun tag version hr => ?_⟩
        fun tx' h => ⟨tx', h, rfl⟩
      rw [hr] at hfound
      exact hfound
    · obtain ⟨rfl, rfl⟩ := Prod.mk.inj (Option.some.inj h)
      obtain ⟨hs', henv⟩ := rollback_ok hs tx
      exact .finish rfl hs' henv ⟨[], rfl⟩ trivial rfl
  | write tx fallback =>
    obtain ⟨⟨s₁, tx'⟩, hwrite, heq⟩ := Option.map_eq_some_iff.mp h
    obtain ⟨rfl, rfl⟩ := Prod.mk.inj heq
    obtain ⟨htx, hno, hwritten, -, hversion⟩ := hp
    rw [TagProcess.guarded, Bool.or_eq_true] at hg
    have hfallback : s.tags = none → ∀ tag, tag ≠ r.tag → fallback.get tag = base.get tag := by
      intro hstored tag htag
      have hinferred := hg.resolve_left (by rw [hstored]; exact Bool.false_ne_true)
      exact get_of_inferredAsStarted hinferred (beq_eq_false_iff_ne.mpr htag)
    have hresult : s₁ = { s with lock := some tx.id } ∧ (s.lock = none ∨ s.lock = some tx.id) ∧
        tx'.id = tx.id ∧ TxOk base s₁ tx' := by
      cases r with
      | remove tag => exact htx.removeTag hwritten hfallback hwrite
      | set tag version =>
        refine htx.mergeTags hwritten (fun tag' version' hv => ?_) (fun hstored tag' htag' => ?_) hwrite
        · rcases Store.get_put_eq_some.mp hv with ⟨-, rfl⟩ | ⟨-, hnone⟩
          · exact hversion tag version rfl
          · rw [Store.get_empty] at hnone
            cases hnone
        · refine hfallback hstored tag' fun heq => ?_
          aesop
    obtain ⟨rfl, hlock, hid, htx'⟩ := hresult
    refine .update hs htx.id_lt rfl hlock ⟨htx', fun v hv => ?_⟩ fun tx'' h => ?_
    · rw [hid]
      exact hno v hv
    · rw [← Option.some.inj h]
      exact hid
  | commit tx =>
    obtain ⟨rfl, rfl⟩ := Prod.mk.inj (Option.some.inj h)
    obtain ⟨hs', henv⟩ := commit_ok hs hp.1 hp.2.cleared
    exact .finish rfl hs' henv ⟨tx.edits, rfl⟩ trivial rfl

theorem deleteRows_ok {matched : VersionRow → Bool} (hs : ProjectOk base s) (htx : TxOk base s tx)
    (hcleared : Cleared base s tx []) {versions : List VersionRow}
    (heq : versions = s.versions.map fun v =>
      if matched v then { v with deletedBy := some tx.id } else v) :
    ProjectOk base { s with versions } ∧ (∀ id, id ≠ tx.id → Env s { s with versions } id) ∧
      TxOk base { s with versions } tx ∧
      Cleared base { s with versions } tx ((s.versions.filter matched).map (·.version)) := by
  subst heq
  have hversion : ∀ v : VersionRow,
      (if matched v then { v with deletedBy := some tx.id } else v).version = v.version := by
    intro v
    split_ifs <;> rfl
  have hs' := hs.mapRows hversion (fun v hv id hid => by
    split_ifs at hid
    · rw [← Option.some.inj hid]
      exact htx.id_lt
    · exact hs.deleted_lt v hv id hid) (hs.lock_lt)
  refine ⟨hs', fun id hne => .mapRows hversion (fun v hv hid => ?_) fun h => h,
    ⟨htx.id_lt, htx.locked, htx.unwritten, htx.last, fun tag version hv => ?_⟩, fun v hv hdeleted => ?_⟩
  · split_ifs at hid ⊢ with hmatched
    · exact absurd (Option.some.inj hid).symm hne
    · rfl
  · obtain ⟨a, ha, rfl⟩ := hasVersion_iff.mp (htx.valid tag version hv)
    exact hasVersion_iff.mpr ⟨_, List.mem_map_of_mem ha, hversion a⟩
  · obtain ⟨a, ha, rfl⟩ := List.mem_map.mp hv
    rw [hversion]
    split_ifs at hdeleted with hmatched
    · exact .inl (List.mem_map_of_mem (List.mem_filter.mpr ⟨ha, hmatched⟩))
    · refine (hcleared a ha hdeleted).imp_left fun hnil => ?_
      cases hnil

theorem value_eq {tags : Tags} {p : String → Bool} (h : (tags.entries.all fun entry => p entry.2) = true)
    {tag version : String} (hget : tags.get tag = some version) : p version = true :=
  List.all_eq_true.mp h ⟨tag, version⟩ (Store.get_eq_some_iff.mp hget)

theorem clear_ok {inferred : Option String} {version : String} {versions : List String}
    (htx : TxOk base s tx) (hcleared : Cleared base s tx (version :: versions))
    (hstored : s.lock = some tx.id ∨ s.tags ≠ none)
    (hg : (s.view tx).isSome = true ∨
      (base.entries.all fun entry => (entry.2 == version) == (inferred == some version)) = true)
    (h : clearDeletedVersionTags s tx version (inferred == some version) = some (s', tx')) :
    (s' = s ∨ s' = { s with lock := some tx.id } ∧ (s.lock = none ∨ s.lock = some tx.id)) ∧
      tx'.id = tx.id ∧ TxOk base s' tx' ∧ Cleared base s' tx' versions ∧
        (s'.lock = some tx.id ∨ s'.tags ≠ none) := by
  unfold clearDeletedVersionTags at h
  split_ifs at h with hcond
  · obtain ⟨rfl, hlock, rfl⟩ := eq_of_update h
    have hget : ∀ tag, (((s.view tx).getD ∅).filterValues (· != version)).get tag =
        (((s.view tx).getD base).get tag).filter (· != version) := by
      intro tag
      rw [Store.get_filterValues]
      cases hview : s.view tx with
      | some tags => rfl
      | none =>
        -- the inferred tags are those of the version
        rw [hview, Option.isSome_none, Bool.false_or] at hcond
        have hbase := hg.resolve_left (by rw [hview]; exact Bool.false_ne_true)
        rw [Option.getD_none, Option.getD_none, Store.get_empty]
        cases hvalue : base.get tag with
        | none => rfl
        | some value =>
          have hequal := value_eq (p := fun v => (v == version) == (inferred == some version)) hbase
            hvalue
          grind
    refine ⟨.inr ⟨rfl, hlock⟩, rfl, htx.update hget fun tag value hv => ?_, fun v hv hdeleted => ?_,
      .inl rfl⟩
    · rw [hget, Option.filter_eq_some_iff] at hv
      exact htx.valid tag value hv.1
    · by_cases hthis : v.version = version
      · refine .inr ⟨rfl, fun tag htag => ?_⟩
        have htag' := (hget tag).symm.trans htag
        rw [Option.filter_eq_some_iff, bne_iff_ne] at htag'
        exact htag'.2 hthis
      · refine (hcleared v hv hdeleted).imp (fun hmem => ?_) fun ⟨_, hview⟩ => ⟨rfl, fun tag htag => ?_⟩
        · exact (List.mem_cons.mp hmem).resolve_left hthis
        · have htag' := (hget tag).symm.trans htag
          exact hview tag (Option.filter_eq_some_iff.mp htag').1
  · -- no tags are stored, and none are inferred from the version
    obtain ⟨rfl, rfl⟩ := Prod.mk.inj (Option.some.inj h)
    rw [Bool.or_eq_true, not_or, Bool.not_eq_true, Bool.not_eq_true, Option.isSome_eq_false_iff,
      Option.isNone_iff_eq_none] at hcond
    obtain ⟨hview, hinferred⟩ := hcond
    have hlock := hstored.resolve_right (not_not.mpr (Option.or_eq_none_iff.mp hview).2)
    refine ⟨.inl rfl, rfl, htx, fun v hv hdeleted => ?_, .inl hlock⟩
    by_cases hthis : v.version = version
    · refine .inr ⟨hlock, fun tag htag => ?_⟩
      rw [hview, Option.getD_none, hthis] at htag
      have hbase := hg.resolve_left (by rw [hview]; exact Bool.false_ne_true)
      have hequal := value_eq (p := fun v => (v == version) == (inferred == some version)) hbase htag
      rw [hinferred, beq_self_eq_true] at hequal
      cases hequal
    · refine (hcleared v hv hdeleted).imp_left fun hmem => ?_
      exact (List.mem_cons.mp hmem).resolve_left hthis

/-- **A deletion takes a step.** -/
theorem delete_ok {stage : DeleteStage} (hs : ProjectOk base s)
    (hp : EachOk base s (.delete stage : TagProcess format))
    (hg : (TagProcess.delete stage : TagProcess format).guarded c base s = true)
    (h : deleteNext c s stage = some (s', q)) : StepOk base s s' (.delete stage) q := by
  match stage, hp, hg, h with
  | .lockProjects [], _, _, h =>
    obtain ⟨rfl, rfl⟩ := Prod.mk.inj (Option.some.inj h)
    exact .same hs trivial nofun
  | .lockProjects (targets :: rest), _, _, h =>
    unfold deleteNext at h
    dsimp only at h
    split_ifs at h with hmatches
    · obtain ⟨s₁, hlock, heq⟩ := Option.map_eq_some_iff.mp h
      obtain ⟨rfl, rfl⟩ := Prod.mk.inj heq
      obtain ⟨rfl, hfree⟩ := eq_of_begin_lockRow hs hlock
      obtain ⟨-, -, htx, hno⟩ := hs.begin (.inr ⟨hfree, rfl⟩)
      split_ifs
      · exact .begin hs (.inr ⟨hfree, rfl⟩) ⟨htx, hno.cleared⟩ rfl
      · exact .begin hs (.inr ⟨hfree, rfl⟩) ⟨htx, hno.cleared⟩ rfl
    · obtain ⟨rfl, rfl⟩ := Prod.mk.inj (Option.some.inj h)
      obtain ⟨-, -, htx, hno⟩ := hs.begin (.inl rfl)
      exact .begin hs (.inl rfl) ⟨htx, hno.cleared⟩ rfl
  | .loadTags tx targets rest, hp, _, h =>
    unfold deleteNext at h
    cases htags : s.tags with
    | none | some tags =>
      rw [htags] at h
      obtain ⟨rfl, rfl⟩ := Prod.mk.inj (Option.some.inj h)
      exact .same hs hp fun tx' h => ⟨tx', h, rfl⟩
  | .loadCandidates tx targets rest, hp, _, h =>
    obtain ⟨rfl, rfl⟩ := Prod.mk.inj (Option.some.inj h)
    exact .same hs hp fun tx' h => ⟨tx', h, rfl⟩
  | .deleteRows tx inferred ⟨[], includeDescendants⟩ rest, hp, _, h =>
    obtain ⟨rfl, rfl⟩ := Prod.mk.inj (Option.some.inj h)
    exact .same hs hp fun tx' h => ⟨tx', h, rfl⟩
  | .deleteRows tx inferred ⟨path :: paths, includeDescendants⟩ rest, ⟨htx, hcleared⟩, hg, h =>
    unfold deleteNext at h
    dsimp only at h
    split_ifs at h with hwaits
    obtain ⟨rfl, rfl⟩ := Prod.mk.inj (Option.some.inj h)
    obtain ⟨hs', henv, htx', hcleared'⟩ := deleteRows_ok hs htx hcleared rfl
    refine ⟨hs', ⟨htx', hcleared', fun hne => ?_⟩, fun id _ hid => henv id (hid tx rfl),
      fun tx' h => .inl ⟨tx', h, rfl⟩, [], rfl⟩
    rw [TagProcess.guarded, Bool.or_eq_true, Bool.or_eq_true, beq_iff_eq] at hg
    refine (hg.resolve_right fun hnone => ?_).imp_right fun hsome hnull => ?_
    · -- some row has been deleted
      obtain ⟨version, hversion⟩ := List.exists_mem_of_ne_nil _ hne
      obtain ⟨v, hv, -⟩ := List.mem_map.mp hversion
      obtain ⟨hv, hmatched⟩ := List.mem_filter.mp hv
      rw [Bool.not_eq_true', List.take_succ_cons, List.take_zero, List.any_cons, List.any_nil,
        Bool.or_false, List.any_eq_false] at hnone
      exact hnone v hv hmatched
    · rw [hnull] at hsome
      cases hsome
  | .clear tx inferred [] targets rest, ⟨htx, hcleared, _⟩, _, h =>
    obtain ⟨rfl, rfl⟩ := Prod.mk.inj (Option.some.inj h)
    exact .same hs ⟨htx, hcleared⟩ fun tx' h => ⟨tx', h, rfl⟩
  | .clear tx inferred (version :: versions) targets rest, ⟨htx, hcleared, hstored⟩, hg, h =>
    obtain ⟨⟨s₁, tx'⟩, hclear, heq⟩ := Option.map_eq_some_iff.mp h
    obtain ⟨rfl, rfl⟩ := Prod.mk.inj heq
    rw [TagProcess.guarded, Bool.or_eq_true] at hg
    obtain ⟨hcases, hid, htx', hcleared', hstored'⟩ :=
      clear_ok htx hcleared (hstored (List.cons_ne_nil _ _)) hg hclear
    have hq : EachOk base s₁ (.delete (.clear tx' inferred versions targets rest) : TagProcess format) :=
      ⟨htx', hcleared', fun _ => by rwa [hid]⟩
    have hfresh : ∀ tx'' ∈ (TagProcess.delete (.clear tx' inferred versions targets rest) :
        TagProcess format).transaction?, tx''.id = tx.id := by
      intro tx'' h
      rw [← Option.some.inj h]
      exact hid
    rcases hcases with rfl | ⟨rfl, hlock⟩
    · exact .same hs hq fun tx'' h => ⟨tx, rfl, (hfresh tx'' h).symm⟩
    · exact .update hs htx.id_lt rfl hlock hq hfresh
  | .commit tx rest, hp, _, h =>
    obtain ⟨rfl, rfl⟩ := Prod.mk.inj (Option.some.inj h)
    obtain ⟨hs', henv⟩ := commit_ok hs hp.1 hp.2
    exact .finish rfl hs' henv ⟨tx.edits, rfl⟩ trivial rfl

/-- **A process takes a step.** -/
theorem next_ok {fails : Bool} {p : TagProcess format} (hs : ProjectOk base s) (hp : EachOk base s p)
    (hg : fails = true ∨ p.guarded c base s = true) (h : p.next c fails s = some (s', q)) :
    StepOk base s s' p q := by
  cases fails with
  | true =>
    cases htx : p.transaction? with
    | none =>
      obtain ⟨rfl, rfl⟩ : s = s' ∧ .done (.error .other) = q := by
        cases p <;> grind [TagProcess.next]
      exact .same hs trivial nofun
    | some tx =>
      obtain ⟨rfl, rfl⟩ : s.rollback tx = s' ∧ .done (.error .other) = q := by
        cases p <;> grind [TagProcess.next]
      obtain ⟨hs', henv⟩ := rollback_ok hs tx
      exact .finish htx hs' henv ⟨[], rfl⟩ trivial rfl
  | false =>
    have hguard := hg.resolve_left Bool.false_ne_true
    cases p with
    | done answer => cases h
    | publish u stage => exact publish_ok hs hp hguard h
    | change r stage => exact change_ok hs hp hguard h
    | delete stage => exact delete_ok hs hp hguard h

/-! ### Runs -/

def tagInvariant (format : TagFormat) (base : Tags) :
    Pool.Invariant TaggedProject (TagProcess format) where
  shared := ProjectOk base
  each := EachOk base
  pair p q := ∀ tx ∈ p.transaction?, ∀ tx' ∈ q.transaction?, tx.id ≠ tx'.id

theorem transaction?_start (format : TagFormat) (base : Tags) (s : TaggedProject)
    (request : TagRequest) :
    (request.start format).transaction? = none ∧ EachOk base s (request.start format) := by
  cases request with
  | publish version path requested =>
    unfold TagRequest.start
    dsimp only
    split <;> exact ⟨rfl, trivial⟩
  | change r =>
    cases r with
    | set tag version => exact ⟨rfl, trivial⟩
    | remove tag =>
      unfold TagRequest.start
      dsimp only
      split_ifs <;> exact ⟨rfl, trivial⟩
  | delete transactions => exact ⟨rfl, trivial⟩

/-- The condition under which steps keep the tags. -/
def tagsGuarded (c : Collation) (base : Tags) (fails : Bool) (s : TaggedProject)
    (p : TagProcess format) : Prop :=
  fails = true ∨ p.guarded c base s = true

instance (fails : Bool) (p : TagProcess format) : Decidable (tagsGuarded c base fails s p) :=
  inferInstanceAs (Decidable (_ ∨ _))

theorem holds_of_tagStep {t t' : Pool TaggedProject (TagProcess format)}
    {a : Pool.Action TagRequest Bool} (h : Pool.Holds (tagInvariant format base) t)
    (hg : Program.Guarded (tagsGuarded c base) t a)
    (hstep : (npmTags format c).step t a = some t') : Pool.Holds (tagInvariant format base) t' := by
  refine h.of_step hstep (fun input _ => ?_) fun i fails p s' q ha hi hnext => ?_
  · obtain ⟨hnone, heach⟩ := transaction?_start format base t.shared input
    simp_all [npmTags, tagInvariant]
  · subst ha
    have hok := next_ok h.shared (h.each i p hi) (hg p hi) hnext
    refine ⟨hok.project, hok.each, fun j r hij hr => ?_⟩
    have hlt := (h.each j r hr).id_lt
    have hpair : ∀ tx ∈ q.transaction?, ∀ tx' ∈ r.transaction?, tx.id ≠ tx'.id := by
      intro tx htx tx' htx'
      rcases hok.fresh tx htx with ⟨old, hold, hid⟩ | hid
      · rw [← hid]
        exact h.pair i j p r hij hi hr old hold tx' htx'
      · rw [hid]
        exact (hlt tx' htx').ne'
    refine ⟨(h.each j r hr).of_env hok.project fun tx htx => hok.env tx.id (hlt tx htx) ?_, hpair,
      fun tx htx tx' htx' => (hpair tx' htx' tx htx).symm⟩
    exact fun tx' htx' => (h.pair i j p r hij hi hr tx' htx' tx htx).symm

theorem history_of_tagStep {t t' : Pool TaggedProject (TagProcess format)}
    {a : Pool.Action TagRequest Bool} (h : Pool.Holds (tagInvariant format base) t)
    (hg : Program.Guarded (tagsGuarded c base) t a)
    (hstep : (npmTags format c).step t a = some t') :
    ∃ edits, t'.shared.history = edits ++ t.shared.history := by
  cases a with
  | start input =>
    obtain rfl := Option.some.inj hstep
    exact ⟨[], rfl⟩
  | advance i fails =>
    obtain ⟨p, s', q, hi, hnext, rfl⟩ := Program.step_advance hstep
    exact (next_ok h.shared (h.each i p hi) (hg p hi) hnext).history

structure StartOk (start : TaggedProject) : Prop where
  versions : ∀ v ∈ start.versions, ∀ w ∈ start.versions, v.version = w.version → v = w
  valid : ∀ tags, start.tags = some tags → ∀ tag version, tags.get tag = some version →
    start.hasVersion version = true
  undeleted : ∀ v ∈ start.versions, v.deletedBy = none
  unlocked : start.lock = none
  history : start.history = []

def TaggedProject.currentTags (s : TaggedProject) (format : TagFormat) : Tags :=
  s.tags.getD (s.inferredTags format)

theorem hasVersion_of_inferredTags {tag version : String}
    (h : (s.inferredTags format).get tag = some version) : s.hasVersion version = true := by
  unfold TaggedProject.inferredTags legacyDistTags at h
  split at h
  · rename_i found hfound
    rcases Store.get_put_eq_some.mp h with ⟨-, rfl⟩ | ⟨-, hnone⟩
    · have hmem := List.mem_of_mem_filter (List.mem_of_find?_eq_some hfound)
      obtain ⟨v, hv, rfl⟩ := List.mem_map.mp hmem
      exact hasVersion_iff.mpr ⟨v, List.mem_reverse.mp hv, rfl⟩
    · rw [Store.get_empty] at hnone
      cases hnone
  · rw [Store.get_empty] at h
    cases h

theorem holds_start {start : TaggedProject} (h : StartOk start) :
    Pool.Holds (tagInvariant format (start.currentTags format)) ⟨start, []⟩ := by
  have hbase : start.tags.getD (start.currentTags format) = start.currentTags format := by
    unfold TaggedProject.currentTags
    cases start.tags <;> rfl
  refine Pool.holds_nil ⟨h.versions, fun tag version hv => ?_, fun tag => ?_, fun id hid => ?_,
    fun v hv id hid => ?_⟩
  · rw [hbase, TaggedProject.currentTags] at hv
    cases htags : start.tags with
    | none =>
      rw [htags] at hv
      exact hasVersion_of_inferredTags hv
    | some tags =>
      rw [htags] at hv
      exact h.valid tags htags tag version hv
  · rw [hbase, h.history]
    rfl
  · rw [h.unlocked] at hid
    cases hid
  · rw [h.undeleted v hv] at hid
    cases hid

structure TagsSafe (format : TagFormat) (c : Collation) (start : TaggedProject)
    (as : List (Pool.Action TagRequest Bool)) : Prop where
  /-- Every tag names a version of the project. -/
  valid : ∀ (pre : List (Pool.Action TagRequest Bool)) (t : Pool TaggedProject (TagProcess format)),
    pre <+: as → run (npmTags format c).step ⟨start, []⟩ pre = some t →
    ∀ tag version, (t.shared.currentTags format).get tag = some version →
      ∃ v ∈ t.shared.versions, v.version = version
  /-- Every stored tag has the value that the last committed change of it has written, and one that
  has not been changed the value that it had at the start. -/
  last : ∀ (pre : List (Pool.Action TagRequest Bool)) (t : Pool TaggedProject (TagProcess format)),
    pre <+: as → run (npmTags format c).step ⟨start, []⟩ pre = some t →
    ∀ tags, t.shared.tags = some tags → ∀ tag,
      tags.get tag = lastWrite ((start.currentTags format).get tag) tag t.shared.history
  /-- A step changes only tags that the changes write that it commits. -/
  others : ∀ (pre : List (Pool.Action TagRequest Bool)) (a : Pool.Action TagRequest Bool)
    (t t' : Pool TaggedProject (TagProcess format)), pre ++ [a] <+: as →
    run (npmTags format c).step ⟨start, []⟩ pre = some t → (npmTags format c).step t a = some t' →
    ∃ edits, t'.shared.history = edits ++ t.shared.history ∧ ∀ tag,
      (∀ edit ∈ edits, ¬ edit.Writes
        ((t.shared.tags.getD (start.currentTags format)).get tag) tag) →
      (t'.shared.tags.getD (start.currentTags format)).get tag =
        (t.shared.tags.getD (start.currentTags format)).get tag

/-- **Distribution tags stay valid and lose no update**, in the runs whose steps are guarded. -/
theorem tags_safe {start : TaggedProject} (hstart : StartOk start)
    {as : List (Pool.Action TagRequest Bool)}
    (h : StepsOk (npmTags format c).step
      (Program.Guarded (tagsGuarded c (start.currentTags format))) ⟨start, []⟩ as) :
    TagsSafe format c start as := by
  have hholds : ∀ pre post t, as = pre ++ post →
      run (npmTags format c).step ⟨start, []⟩ pre = some t →
        Pool.Holds (tagInvariant format (start.currentTags format)) t := by
    rintro pre post t rfl hrun
    exact run_invariant_of_stepsOk (fun _ _ _ ht hg hstep => holds_of_tagStep ht hg hstep)
      (holds_start hstart) ( StepsOk.prefix h) hrun
  refine ⟨?_, ?_, ?_⟩
  · rintro pre t ⟨post, has⟩ hrun tag version hv
    have hshared := (hholds pre post t has.symm hrun).shared
    rw [← hasVersion_iff]
    unfold TaggedProject.currentTags at hv
    cases htags : t.shared.tags with
    | none =>
      rw [htags] at hv
      exact hasVersion_of_inferredTags hv
    | some tags =>
      rw [htags] at hv
      exact hshared.valid tag version (by rw [htags]; exact hv)
  · rintro pre t ⟨post, has⟩ hrun tags htags tag
    have hlast := (hholds pre post t has.symm hrun).shared.last tag
    rwa [htags] at hlast
  · rintro pre a t t' ⟨post, has⟩ hrun hstep
    rw [List.append_assoc] at has
    have ht := hholds pre _ t has.symm hrun
    rw [← has] at h
    have hg := And.left ( StepsOk.suffix h hrun)
    obtain ⟨edits, hedits⟩ := history_of_tagStep ht hg hstep
    refine ⟨edits, hedits, fun tag hwrites => ?_⟩
    have hlast := (holds_of_tagStep ht hg hstep).shared.last tag
    rw [hedits, lastWrite_append, ← ht.shared.last tag, lastWrite_of_not_writes hwrites] at hlast
    exact hlast

/-! ### A run, and a version that is deleted while it is published -/

def releaseFormat : TagFormat where
  parseVersion version := if version ≠ "" ∧ '/' ∉ version.toList then some "" else none
  pathSegments _ := .error "relative URL without a base"
  percentDecode text := some text
  version_component version h := by
    split_ifs at h with hversion
    · exact hversion
    · cases h
  isVersionReq range := range.toList.head?.any Char.isDigit

def demoProject : TaggedProject := ⟨[⟨"1.0.0", "demo/1.0.0", none⟩], none, none, 0, []⟩

theorem startOk_demo : StartOk demoProject where
  versions v hv w hw _ := by rw [List.mem_singleton.mp hv, List.mem_singleton.mp hw]
  valid _ h := by cases h
  undeleted v hv := by rw [List.mem_singleton.mp hv]
  unlocked := rfl
  history := rfl

/-- A version is published while a tag is set, and the old version is deleted. -/
def demoTags : List (Pool.Action TagRequest Bool) :=
  [.start (.publish "2.0.0" "demo/2.0.0" ∅), .start (.change (.set "beta" "1.0.0")),
    .start (.delete [⟨["demo/1.0.0"], false⟩]), .start (.change (.remove "beta")),
    .advance 0 false, .advance 0 false, .advance 1 false, .advance 1 false, .advance 1 false,
    .advance 1 false, .advance 1 false, .advance 0 false, .advance 0 false, .advance 1 false,
    .advance 2 false, .advance 2 false, .advance 2 false, .advance 2 false, .advance 2 false,
    .advance 2 false, .advance 0 false, .advance 0 false, .advance 0 false, .advance 3 false, .advance 2 false,
    .advance 3 false, .advance 3 false]

theorem tags_safe_demo : TagsSafe releaseFormat Collation.exact demoProject demoTags :=
  tags_safe startOk_demo (by decide)

def taggedProject : TaggedProject :=
  { demoProject with tags := some (( ∅ : Tags).put "latest" "1.0.0") }

def deletedTags : List (Pool.Action TagRequest Bool) :=
  [.start (.publish "2.0.0" "demo/2.0.0" ∅), .start (.delete [⟨["demo/2.0.0"], false⟩])] ++
    List.replicate 3 (.advance 0 false) ++ List.replicate 7 (.advance 1 false) ++
    List.replicate 3 (.advance 0 false)

/-- The latest version is one that does not exist. -/
theorem not_tagsSafe_deleted :
    ¬ TagsSafe releaseFormat Collation.exact taggedProject deletedTags := by
  intro h
  have hrun : (run (npmTags releaseFormat Collation.exact).step ⟨taggedProject, []⟩ deletedTags).any
      (fun t => (t.shared.currentTags releaseFormat).get "latest" == some "2.0.0" &&
        !t.shared.hasVersion "2.0.0") = true := by
    decide
  obtain ⟨t, ht, hdangling⟩ := (Option.any_eq_true _ _).mp hrun
  rw [Bool.and_eq_true, beq_iff_eq, Bool.not_eq_true', ← Bool.not_eq_true] at hdangling
  exact hdangling.2 (hasVersion_iff.mpr
    (h.valid deletedTags t (List.prefix_refl _) ht "latest" "2.0.0" hdangling.1))

end Pkgly.Npm
