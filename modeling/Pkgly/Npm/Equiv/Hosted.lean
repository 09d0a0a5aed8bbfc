import Pkgly.Npm.Hosted
import Pkgly.Storage.Equiv.DynStorage

/-!
# Versions and their tarballs

A publication that has saved its tarball (`Saved`) stays paired with the row of its version, when
every tarball is saved over the same bytes or where there is none, for a row with the same metadata.
From that `versions_paired`; a version that is published again with other bytes breaks it
(`not_versionsPaired_republished`).
-/

namespace Pkgly.Npm

variable {ε : Type} {format : NpmFormat} {names : RepositoryNames} {c : Collation}

/-! ### Paths -/

theorem Publication.file_eq (u : Publication format names ε) : u.file = u.data.file := by
  have h := u.validated
  unfold validatePublication at h
  dsimp only at h
  split_ifs at h with hname hfile
  simp only [not_or, ne_eq, not_not] at hname
  grind [Except.ok.inj, PublishVersion.file, Publication.data]

theorem isDirectory_tarball (path : StoragePath) (data : PublishVersion ε) :
    (path.push data.file).isDirectory = false := by
  cases h : (path.push data.file).isDirectory with
  | false => rfl
  | true =>
    obtain ⟨stem, hstem⟩ := StoragePath.exists_of_isDirectory
      (show (StoragePath.ofString data.file).isDirectory = true from h)
    have hlast := congrArg (fun text : String => text.toList.getLast?) hstem
    simp only [PublishVersion.file, String.toList_append] at hlast
    rw [show (".tgz" : String).toList = ['.', 't', 'g'] ++ ['z'] from rfl,
      show ("/" : String).toList = ['/'] from rfl, ← List.append_assoc, List.getLast?_concat,
      List.getLast?_concat] at hlast
    exact absurd hlast (by decide)

theorem components_tarball (data : PublishVersion ε) :
    ((StoragePath.ofString (versionPath data).toString').push data.file).components =
      (tarballPath data data.file).components := by
  have hwf : (versionPath data).WellFormed := (StoragePath.wellFormed_ofString _).push _
  have hpath : (StoragePath.ofString (versionPath data).toString').components =
      (versionPath data).components :=
    (StoragePath.components_ofString _).trans hwf.segments_toString'
  exact congrArg (· ++ (StoragePath.ofString data.file).components) hpath

/-! ### What holds in every state -/

def HasProject (c : Collation) (s : NpmHosted ε) (u : Publication format names ε) (id : ℕ) : Prop :=
  ∃ project ∈ s.catalogue.projects, project.id = id ∧
    c.same project.key u.data.name.toString' = true

structure Saved (c : Collation) (s : NpmHosted ε) (u : Publication format names ε) (id : ℕ) :
    Prop where
  project : HasProject c s u id
  row : ∃ v ∈ s.catalogue.versions, v.projectId = id ∧ v.extra = u.data
  accepted : s.storage.rejects u.path = false
  stored : s.storage.objects.get u.path.components = some u.attachment

def StageOk (c : Collation) (s : NpmHosted ε) (u : Publication format names ε) : Stage → Prop
  | .findProject | .insertProject | .done (.error _) => True
  | .loadTags id | .findVersion id | .insertVersion id => HasProject c s u id
  | .recordFile id | .saveFile id => HasProject c s u id ∧
      ∃ v ∈ s.catalogue.versions, v.projectId = id ∧ v.version = u.data.version
  | .lockProject id | .mergeTags id | .commit id => Saved c s u id
  | .done (.ok ()) => ∃ id, Saved c s u id

structure RowOk (c : Collation) (db : Catalogue (PublishVersion ε))
    (v : DBProjectVersion (PublishVersion ε)) : Prop where
  version : v.version = v.extra.version
  path : v.path = (versionPath v.extra).toString'
  project : ∃ project ∈ db.projects, project.id = v.projectId ∧
    c.same project.key v.extra.name.toString' = true

structure SharedOk (c : Collation) (s : NpmHosted ε) : Prop where
  staging : ∀ key, s.storage.staging.get key = none
  projects : ∀ p ∈ s.catalogue.projects, ∀ q ∈ s.catalogue.projects,
    c.same p.key q.key = true → p.id = q.id
  versions : ∀ v ∈ s.catalogue.versions, ∀ w ∈ s.catalogue.versions,
    v.projectId = w.projectId → v.version = w.version → v = w
  rows : ∀ v ∈ s.catalogue.versions, RowOk c s.catalogue v

def publishInvariant (format : NpmFormat) (names : RepositoryNames) (c : Collation) (ε : Type) :
    Pool.Invariant (NpmHosted ε) (Publish format names ε) where
  shared := SharedOk c
  each s
    | .refused _ => True
    | .publishes u stage => StageOk c s u stage
  pair _ _ := True

/-! ### Steps -/

variable {s s' : NpmHosted ε} {u u' : Publication format names ε} {fails : Bool} {id : ℕ}
  {stage stage' : Stage}

theorem of_attempt {α : Type} {x : Except StorageError α} {a : α} (h : attempt fails x = .ok a) :
    x = .ok a := by
  unfold attempt at h
  split_ifs at h
  cases x with
  | error e => cases h
  | ok b => exact congrArg _ (Except.ok.inj h)

theorem of_attemptSql {α : Type} {x : Option α} {a : α} (h : attemptSql fails x = .ok a) :
    x = some a := by
  unfold attemptSql at h
  split_ifs at h
  cases x with
  | none => cases h
  | some b => exact congrArg _ (Except.ok.inj h)

theorem of_map {α β : Type} {x : Except NPMRegistryError α} {f : α → β} {b : β}
    (h : x.map f = .ok b) : ∃ a, x = .ok a ∧ f a = b := by
  cases x with
  | error e => cases h
  | ok a => exact ⟨a, rfl, Except.ok.inj h⟩

/-- The state after a step has the rows of the one before. -/
structure Extends (s s' : NpmHosted ε) : Prop where
  projects : ∀ project ∈ s.catalogue.projects, project ∈ s'.catalogue.projects
  versions : ∀ v ∈ s.catalogue.versions, v ∈ s'.catalogue.versions
  backend : s'.storage.backend = s.storage.backend

theorem Extends.refl (s : NpmHosted ε) : Extends s s := ⟨fun _ h => h, fun _ h => h, rfl⟩

theorem HasProject.of_extends (h : HasProject c s u id) (he : Extends s s') :
    HasProject c s' u id := by
  obtain ⟨project, hproject, hid, hkey⟩ := h
  exact ⟨project, he.projects project hproject, hid, hkey⟩

theorem Saved.of_extends (h : Saved c s u id) (he : Extends s s')
    (hstored : s'.storage.objects.get u.path.components = some u.attachment) : Saved c s' u id := by
  obtain ⟨v, hv, hid, hdata⟩ := h.row
  refine ⟨h.project.of_extends he, ⟨v, he.versions v hv, hid, hdata⟩, ?_, hstored⟩
  rw [DynStorage.rejects_congr he.backend rfl]
  exact h.accepted

theorem StageOk.of_extends (h : StageOk c s u stage) (he : Extends s s')
    (hstored : s.storage.objects.get u.path.components = some u.attachment →
      s'.storage.objects.get u.path.components = some u.attachment) : StageOk c s' u stage := by
  have hproject : ∀ {id}, HasProject c s u id → HasProject c s' u id := fun h => h.of_extends he
  have hsaved : ∀ {id}, Saved c s u id → Saved c s' u id :=
    fun h => h.of_extends he (hstored h.stored)
  cases stage with
  | findProject | insertProject => trivial
  | loadTags id | findVersion id | insertVersion id => exact hproject h
  | recordFile id | saveFile id =>
    obtain ⟨hp, v, hv, hid, hversion⟩ := h
    exact ⟨hproject hp, v, he.versions v hv, hid, hversion⟩
  | lockProject id | mergeTags id | commit id => exact hsaved h
  | done answer =>
    cases answer with
    | error e => trivial
    | ok _ =>
      obtain ⟨id, h⟩ := h
      exact ⟨id, hsaved h⟩

/-- A tarball is saved over the same bytes or where there is none, for a row with the metadata of
the publication. -/
def savesOwn [DecidableEq ε] (s : NpmHosted ε) (u : Publication format names ε) : Stage → Bool
  | .saveFile id =>
    (s.catalogue.versions.all fun v =>
      decide (v.projectId = id ∧ v.version = u.data.version → v.extra = u.data)) &&
      (s.storage.objects.get u.path.components).all fun content => decide (content = u.attachment)
  | _ => true

structure Effect (c : Collation) (s s' : NpmHosted ε) (u : Publication format names ε)
    (stage' : Stage) : Prop where
  shared : SharedOk c s'
  stage : StageOk c s' u stage'
  rows : Extends s s'
  objects : ∀ key content, s.storage.objects.get key = some content →
    s'.storage.objects.get key = some content

variable {v : DBProjectVersion (PublishVersion ε)} {db : Catalogue (PublishVersion ε)}

theorem RowOk.of_projects {db' : Catalogue (PublishVersion ε)} (h : RowOk c db v)
    (hsub : ∀ project ∈ db.projects, project ∈ db'.projects) : RowOk c db' v := by
  obtain ⟨project, hproject, hid, hkey⟩ := h.project
  exact ⟨h.version, h.path, project, hsub project hproject, hid, hkey⟩

theorem Effect.of_stage (hs : SharedOk c s) (hstage : StageOk c s u stage') :
    Effect c s s u stage' :=
  ⟨hs, hstage, Extends.refl s, fun _ _ h => h⟩

theorem effect_of_insertProject {project : DBProject} {path : String} (hs : SharedOk c s)
    (h : s.catalogue.insertProject c u.data.name.toString' path = some (db, project)) :
    Effect c s { s with catalogue := db } u (.loadTags project.id) := by
  obtain ⟨hproject, hdb, -⟩ := Catalogue.of_insertProject h
  have hprojects : db.projects = s.catalogue.projects ++ [project] := by rw [hdb]
  have hversions : db.versions = s.catalogue.versions := by rw [hdb]
  have hkey : project.key = u.data.name.toString' := by rw [hproject]
  have hsub : ∀ q ∈ s.catalogue.projects, q ∈ db.projects := fun q hq => by
    rw [hprojects]
    exact List.mem_append_left _ hq
  refine ⟨⟨hs.staging, Catalogue.unique_of_insertProject h hs.projects, hversions ▸ hs.versions,
    fun v hv => ?_⟩, ?_, ⟨hsub, fun v hv => hversions ▸ hv, rfl⟩, fun _ _ h => h⟩
  · exact (hs.rows v (hversions ▸ hv)).of_projects hsub
  · refine ⟨project, ?_, rfl, ?_⟩
    · rw [hprojects]
      exact List.mem_append_right _ (List.mem_singleton_self _)
    · rw [hkey]
      exact c.same_refl _

theorem effect_of_insertVersion (hs : SharedOk c s) (hproject : HasProject c s u id)
    (h : s.catalogue.insertVersion c id u.data.version (versionPath u.data).toString' u.data =
      some db) : Effect c s { s with catalogue := db } u (.recordFile id) := by
  have hnew := Catalogue.ne_of_insertVersion h
  obtain ⟨hdb, -⟩ := Catalogue.of_insertVersion h
  have hprojects : db.projects = s.catalogue.projects := by rw [hdb]
  obtain ⟨row, hversions, hrow⟩ : ∃ row, db.versions = s.catalogue.versions ++ [row] ∧
      row.projectId = id ∧ row.version = u.data.version ∧
        row.path = (versionPath u.data).toString' ∧ row.extra = u.data := by
    rw [hdb]
    exact ⟨_, rfl, rfl, rfl, rfl, rfl⟩
  have hmem : row ∈ db.versions := by
    rw [hversions]
    exact List.mem_append_right _ (List.mem_singleton_self _)
  have hextends : Extends s { s with catalogue := db } := by
    refine ⟨fun p hp => hprojects ▸ hp, fun v hv => ?_, rfl⟩
    rw [hversions]
    exact List.mem_append_left _ hv
  refine ⟨⟨hs.staging, hprojects ▸ hs.projects, ?_, ?_⟩,
    ⟨hproject.of_extends hextends, row, hmem, hrow.1, hrow.2.1⟩, hextends, fun _ _ h => h⟩
  · rw [hversions]
    refine related_concat (fun v w hvw hid hversion => (hvw hid.symm hversion.symm).symm)
      hs.versions (fun v hv hid hversion => ?_) fun _ _ => rfl
    exact absurd (hversion.trans hrow.2.1) (hnew v hv (hid.trans hrow.1))
  · rw [hversions]
    refine forall_mem_concat (fun v hv => (hs.rows v hv).of_projects fun p hp => hprojects ▸ hp) ?_
    obtain ⟨project, hmemProject, hid, hkey⟩ := hproject
    refine ⟨?_, ?_, project, hprojects ▸ hmemProject, ?_, ?_⟩
    · rw [hrow.2.1, hrow.2.2.2]
    · rw [hrow.2.2.1, hrow.2.2.2]
    · rw [hid, hrow.1]
    · rw [hrow.2.2.2]
      exact hkey

theorem effect_of_saveFile [DecidableEq ε] {st : DynStorage} (hs : SharedOk c s)
    (hstage : StageOk c s u (.saveFile id)) (hg : savesOwn s u (.saveFile id) = true)
    (h : s.storage.saveFile u.attachment u.path = .ok st) :
    Effect c s { s with storage := st } u (.lockProject id) := by
  obtain ⟨hproject, v, hv, hid, hversion⟩ := hstage
  obtain ⟨hrows, hbytes⟩ := (Bool.and_eq_true _ _).mp hg
  have hst := DynStorage.eq_of_saveFile h
  have hbackend : st.backend = s.storage.backend := by rw [hst]
  have hstored : st.objects.get u.path.components = some u.attachment := by
    rw [hst]
    exact Store.get_put_self _ _ _
  have hextends : Extends s { s with storage := st } := ⟨fun _ hp => hp, fun _ hv => hv, hbackend⟩
  refine ⟨⟨fun key => ?_, hs.projects, hs.versions, hs.rows⟩,
    ⟨hproject.of_extends hextends, ⟨v, hv, hid, ?_⟩, ?_, hstored⟩, hextends, fun key content hget => ?_⟩
  · rw [hst]
    exact hs.staging key
  · exact of_decide_eq_true (List.all_eq_true.mp hrows v hv) ⟨hid, hversion⟩
  · rw [DynStorage.rejects_congr hbackend (rfl : u.path.components = _)]
    exact DynStorage.rejects_of_saveFile h
  · by_cases hkey : key = u.path.components
    · grind
    · rw [hst]
      exact (Store.get_put_of_ne _ _ hkey).trans hget

/-- **A step of a publication** under the condition. -/
theorem effect_of_perform [DecidableEq ε] (hs : SharedOk c s) (hstage : StageOk c s u stage)
    (hg : savesOwn s u stage = true) (h : performStage c u fails s stage = .ok (s', stage')) :
    Effect c s s' u stage' := by
  cases stage with
  | findProject =>
    obtain ⟨found, hfound, heq⟩ := of_map h
    have hfound' := Option.some.inj (of_attemptSql hfound)
    cases found with
    | some project =>
      obtain ⟨rfl, rfl⟩ := Prod.mk.inj heq
      obtain ⟨hmem, hkey⟩ := Catalogue.of_findByProjectKey hfound'
      exact .of_stage hs ⟨project, hmem, rfl, hkey⟩
    | none =>
      obtain ⟨rfl, rfl⟩ := Prod.mk.inj heq
      exact .of_stage hs trivial
  | insertProject =>
    obtain ⟨⟨db, project⟩, hinsert, heq⟩ := of_map h
    obtain ⟨rfl, rfl⟩ := Prod.mk.inj heq
    exact effect_of_insertProject hs (of_attemptSql hinsert)
  | findVersion id =>
    obtain ⟨found, hfound, heq⟩ := of_map h
    have hfound' := Option.some.inj (of_attemptSql hfound)
    obtain ⟨rfl, rfl⟩ := Prod.mk.inj heq
    cases found with
    | some v =>
      obtain ⟨hv, hid, hversion⟩ := Catalogue.of_findByVersionAndProject hfound'
      exact .of_stage hs ⟨hstage, v, hv, hid, hversion⟩
    | none => exact .of_stage hs hstage
  | insertVersion id =>
    obtain ⟨db, hinsert, heq⟩ := of_map h
    obtain ⟨rfl, rfl⟩ := Prod.mk.inj heq
    exact effect_of_insertVersion hs hstage (of_attemptSql hinsert)
  | saveFile id =>
    obtain ⟨st, hsave, heq⟩ := of_map h
    obtain ⟨rfl, rfl⟩ := Prod.mk.inj heq
    exact effect_of_saveFile hs hstage hg (of_attempt hsave)
  | loadTags id | recordFile id | lockProject id | mergeTags id =>
    obtain ⟨-, -, heq⟩ := of_map h
    obtain ⟨rfl, rfl⟩ := Prod.mk.inj heq
    exact .of_stage hs hstage
  | commit id =>
    obtain ⟨-, -, heq⟩ := of_map h
    obtain ⟨rfl, rfl⟩ := Prod.mk.inj heq
    exact .of_stage hs ⟨id, hstage⟩
  | done answer =>
    obtain ⟨rfl, rfl⟩ := Prod.mk.inj (Except.ok.inj h)
    exact .of_stage hs hstage

theorem next_cases {r : Publish format names ε}
    (h : (Publish.publishes u stage).next c fails s = some (s', r)) :
    (∃ stage', performStage c u fails s stage = .ok (s', stage') ∧ r = .publishes u stage') ∨
      ∃ e, s' = s ∧ r = .publishes u (.done (.error e)) := by
  have hdone : ∀ answer, stage = .done answer → False := by
    rintro answer rfl
    cases h
  rw [Publish.next] at h
  · grind
  · exact hdone

/-! ### Runs -/

abbrev Publishing (format : NpmFormat) (names : RepositoryNames) (ε : Type) :=
  Pool (NpmHosted ε) (Publish format names ε)

variable {p p' : Publishing format names ε} {a : Pool.Action (PublishRequest ε) Bool}

/-- The condition on an action: a tarball is saved as `savesOwn` says, unless the step fails. -/
def publishGuarded [DecidableEq ε] (c : Collation) (p : Publishing format names ε) :
    Pool.Action (PublishRequest ε) Bool → Bool
  | .start _ => true
  | .advance i fails => p.processes[i]?.all fun
    | .refused _ => true
    | .publishes u stage =>
      (match performStage c u fails p.shared stage with
        | .ok _ => savesOwn p.shared u stage
        | .error _ => true)

theorem holds_of_step [DecidableEq ε] (h : Pool.Holds (publishInvariant format names c ε) p)
    (hg : publishGuarded c p a = true) (hstep : (npmHosted format names c ε).step p a = some p') :
    Pool.Holds (publishInvariant format names c ε) p' ∧ Extends p.shared p'.shared := by
  cases a with
  | start request =>
    obtain rfl := Option.some.inj hstep
    refine ⟨h.of_step hstep (fun input _ => ?_) (fun _ _ _ _ _ heq => by cases heq),
      Extends.refl _⟩
    refine ⟨?_, fun _ => ⟨trivial, trivial⟩⟩
    simp only [npmHosted, handlePublish]
    split <;> trivial
  | advance i fails =>
    obtain ⟨r, t, r', hr, hnext, rfl⟩ := Program.step_advance hstep
    rw [publishGuarded, hr, Option.all_some] at hg
    cases r with
    | refused e => cases hnext
    | publishes u stage =>
      have hstage : StageOk c p.shared u stage := h.each i _ hr
      have heffect : ∃ stage', r' = .publishes u stage' ∧ Effect c p.shared t u stage' := by
        rcases next_cases hnext with ⟨stage', hperform, rfl⟩ | ⟨e, rfl, rfl⟩
        · simp only [hperform] at hg
          exact ⟨stage', rfl, effect_of_perform h.shared hstage hg hperform⟩
        · exact ⟨_, rfl, .of_stage h.shared trivial⟩
      obtain ⟨stage', rfl, heffect⟩ := heffect
      refine ⟨h.of_step hstep (fun _ heq => by cases heq) ?_, heffect.rows⟩
      rintro j fails' q t' q' heq hj hnext'
      cases heq
      obtain rfl := Option.some.inj (hr.symm.trans hj)
      obtain ⟨rfl, rfl⟩ := Prod.mk.inj (Option.some.inj (hnext.symm.trans hnext'))
      refine ⟨heffect.shared, heffect.stage, fun k q _ hk => ⟨?_, trivial, trivial⟩⟩
      cases q with
      | refused e => trivial
      | publishes w stage'' =>
        have hw : StageOk c p.shared w stage'' := h.each k _ hk
        exact hw.of_extends heffect.rows (heffect.objects _ _)

def emptyRegistry (format : NpmFormat) (names : RepositoryNames) (backend : Backend) (ε : Type) :
    Publishing format names ε := ⟨⟨⟨backend, ∅, ∅⟩, .empty⟩, []⟩

theorem holds_empty (backend : Backend) :
    Pool.Holds (publishInvariant format names c ε) (emptyRegistry format names backend ε) :=
  Pool.holds_nil ⟨fun _ => rfl, fun _ hp => absurd hp List.not_mem_nil,
    fun _ hv => absurd hv List.not_mem_nil, fun _ hv => absurd hv List.not_mem_nil⟩

/-! ### Versions and tarballs -/

/-- The version has been published by `u`, which was answered with success. -/
def PublishedBy (c : Collation) (p : Publishing format names ε)
    (v : DBProjectVersion (PublishVersion ε)) (u : Publication format names ε) : Prop :=
  (∃ i : ℕ, p.processes[i]? = some (.publishes u (.done (.ok ())))) ∧
    u.data.version = v.version ∧ ∃ project ∈ p.shared.catalogue.projects,
      project.id = v.projectId ∧ c.same project.key u.data.name.toString' = true

def tarball (c : Collation) (s : NpmHosted ε) (v : DBProjectVersion (PublishVersion ε)) :
    Option StorageFile :=
  (resolveTarballPath c s.catalogue v.extra.name.toString' v.version v.extra.file).bind fun path =>
    (s.storage.openFile path).toOption.join

theorem resolveTarballPath_eq (hs : SharedOk c s) (hv : v ∈ s.catalogue.versions) :
    resolveTarballPath c s.catalogue v.extra.name.toString' v.version v.extra.file =
      some ((StoragePath.ofString v.path).push v.extra.file) := by
  obtain ⟨project, hproject, hid, hkey⟩ := (hs.rows v hv).project
  obtain ⟨found, hfound⟩ := Catalogue.exists_findByProjectKey hproject hkey
  obtain ⟨hmem, hsame⟩ := Catalogue.of_findByProjectKey hfound
  have hfoundId : found.id = v.projectId :=
    (hs.projects found hmem project hproject (c.same_trans _ _ _ hsame (c.same_symm _ _ hkey))).trans
      hid
  have hrow : s.catalogue.findByVersionAndProject v.version found.id = some v := by
    cases hfind : s.catalogue.findByVersionAndProject v.version found.id with
    | none =>
      have hnone := List.find?_eq_none.mp hfind v hv
      rw [hfoundId] at hnone
      simp at hnone
    | some w =>
      obtain ⟨hw, hwid, hwversion⟩ := Catalogue.of_findByVersionAndProject hfind
      rw [hs.versions w hw v hv (hwid.trans hfoundId) hwversion]
  rw [resolveTarballPath, hfound, Option.bind_some, hrow]
  rfl

/-- **A version that has been published is paired with the tarball of its publisher.** -/
theorem tarball_of_publishedBy (h : Pool.Holds (publishInvariant format names c ε) p)
    (hv : v ∈ p.shared.catalogue.versions) (hpublished : PublishedBy c p v u) :
    u.data = v.extra ∧ tarball c p.shared v = some (.file u.attachment) := by
  obtain ⟨⟨i, hi⟩, hversion, project, hproject, hid, hkey⟩ := hpublished
  obtain ⟨id, hsaved⟩ : ∃ id, Saved c p.shared u id := h.each i _ hi
  obtain ⟨project', hproject', hid', hkey'⟩ := hsaved.project
  obtain ⟨w, hw, hwid, hwdata⟩ := hsaved.row
  have hsame : project.id = project'.id := h.shared.projects project hproject project' hproject'
    (c.same_trans _ _ _ hkey (c.same_symm _ _ hkey'))
  -- the row of the publication is that of the version
  obtain rfl : w = v := by
    refine h.shared.versions w hw v hv ?_ ?_
    · rw [hwid, ← hid', ← hsame, hid]
    · rw [(h.shared.rows w hw).version, hwdata, hversion]
  refine ⟨hwdata.symm, ?_⟩
  have hcomponents : ((StoragePath.ofString w.path).push w.extra.file).components =
      u.path.components := by
    rw [(h.shared.rows w hw).path, components_tarball, hwdata, Publication.path, u.file_eq]
  rw [tarball, resolveTarballPath_eq h.shared hv, Option.bind_some,
    DynStorage.openFile_of_get u.attachment]
  · rfl
  · rw [DynStorage.rejects_congr rfl hcomponents]
    exact hsaved.accepted
  · exact isDirectory_tarball _ _
  · exact h.shared.staging
  · rw [hcomponents]
    exact hsaved.stored

/-- In the run over `as`, a version that has been published has the metadata and the tarball of a
publication that was answered with success, and keeps both. -/
structure VersionsPaired (format : NpmFormat) (names : RepositoryNames) (c : Collation)
    (backend : Backend) (as : List (Pool.Action (PublishRequest ε) Bool)) : Prop where
  paired : ∀ pre post p v u, as = pre ++ post →
    run (npmHosted format names c ε).step (emptyRegistry format names backend ε) pre = some p →
    v ∈ p.shared.catalogue.versions → PublishedBy c p v u →
      u.data = v.extra ∧ tarball c p.shared v = some (.file u.attachment)
  kept : ∀ pre mid post p p' v u, as = pre ++ (mid ++ post) →
    run (npmHosted format names c ε).step (emptyRegistry format names backend ε) pre = some p →
    run (npmHosted format names c ε).step p mid = some p' →
    v ∈ p.shared.catalogue.versions → PublishedBy c p v u →
      v ∈ p'.shared.catalogue.versions ∧ tarball c p'.shared v = tarball c p.shared v

theorem PublishedBy.of_run {as : List (Pool.Action (PublishRequest ε) Bool)}
    (h : PublishedBy c p v u) (hrun : run (npmHosted format names c ε).step p as = some p')
    (hextends : Extends p.shared p'.shared) : PublishedBy c p' v u := by
  obtain ⟨⟨i, hi⟩, hversion, project, hproject, hid, hkey⟩ := h
  obtain ⟨q, hq, rfl⟩ := Pool.keeps_of_run (P := fun r => r = .publishes u (.done (.ok ())))
    (fun fails t r t' r' hnext hr => by
      subst hr
      cases hnext) hrun hi rfl
  exact ⟨⟨i, hq⟩, hversion, project, hextends.projects project hproject, hid, hkey⟩

/-- **Versions are written once and stay paired with their tarballs**, in a run in which every
tarball is saved over the same bytes or where there is none, for a row with the same metadata. -/
theorem versions_paired [DecidableEq ε] {backend : Backend}
    {as : List (Pool.Action (PublishRequest ε) Bool)}
    (h : StepsOk (npmHosted format names c ε).step (fun p a => publishGuarded c p a = true)
      (emptyRegistry format names backend ε) as) : VersionsPaired format names c backend as := by
  have hrun : ∀ {q q' : Publishing format names ε} {bs : List (Pool.Action (PublishRequest ε) Bool)},
      Pool.Holds (publishInvariant format names c ε) q →
      StepsOk (npmHosted format names c ε).step (fun p a => publishGuarded c p a = true) q bs →
      run (npmHosted format names c ε).step q bs = some q' →
      Pool.Holds (publishInvariant format names c ε) q' ∧ Extends q.shared q'.shared := by
    intro q q' bs hq hok hbs
    refine run_invariant_of_stepsOk (I := fun t =>
      Pool.Holds (publishInvariant format names c ε) t ∧ Extends q.shared t.shared) ?_
      ⟨hq, Extends.refl _⟩ hok hbs
    rintro t a t' ⟨ht, hextends⟩ hg hstep
    obtain ⟨ht', hnext⟩ := holds_of_step ht hg hstep
    exact ⟨ht', fun project hproject => hnext.projects _ (hextends.projects project hproject),
      fun v hv => hnext.versions _ (hextends.versions v hv), hnext.backend.trans hextends.backend⟩
  constructor
  · rintro pre post p v u rfl hpre hv hpublished
    exact tarball_of_publishedBy (hrun (holds_empty backend) ( StepsOk.prefix h) hpre).1 hv hpublished
  · rintro pre mid post p p' v u rfl hpre hmid hv hpublished
    have hp := (hrun (holds_empty backend) ( StepsOk.prefix h) hpre).1
    have hsuffix := StepsOk.suffix h hpre
    obtain ⟨hp', hextends⟩ := hrun hp ( StepsOk.prefix hsuffix) hmid
    have hv' := hextends.versions v hv
    have hpublished' := hpublished.of_run hmid hextends
    refine ⟨hv', ?_⟩
    rw [(tarball_of_publishedBy hp' hv' hpublished').2, (tarball_of_publishedBy hp hv hpublished).2]

/-! ### A run, and one in which a version is published again -/

def demoFormat : NpmFormat where
  parseVersion text := if text = "1.0.0" ∨ text = "1.1.0" then some "" else none
  pathSegments url := .ok (some ((pieces '/' url).drop 3))
  percentDecode text := some text
  version_component text h := by
    split_ifs at h with hversion
    · rcases hversion with rfl | rfl <;> decide
    · cases h

def demoNames : RepositoryNames := ⟨"main", "npm"⟩

theorem valid_none : ∀ s ∈ (none : Option String), s ≠ "" ∧ validateName s = .ok () := nofun

def demoName : NPMPackageName := ⟨"demo", none, by decide, valid_none⟩

def demoRequest (version : String) (attachment : Bytes) (shasum : String) : PublishRequest Unit where
  route := .ofString "demo"
  name := "demo"
  version := version
  data := ⟨demoName, version,
    ⟨"", shasum, "http://host/repositories/main/npm/demo/-/demo-" ++ version ++ ".tgz"⟩, ()⟩
  attachmentName := "demo-" ++ version ++ ".tgz"
  attachment := attachment

/-- Two versions are published, and the first once more as it is; its first save fails. -/
def demoRun : List (Pool.Action (PublishRequest Unit) Bool) :=
  [.start (demoRequest "1.0.0" [1] "a")] ++ List.replicate 6 (.advance 0 false) ++
    [.advance 0 true, .start (demoRequest "1.0.0" [1] "a"),
      .start (demoRequest "1.1.0" [2] "b")] ++
    List.replicate 7 (.advance 1 false) ++ List.replicate 9 (.advance 2 false)

theorem versions_paired_demo :
    VersionsPaired demoFormat demoNames Collation.exact .local demoRun :=
  versions_paired (by decide +kernel)

def republishedRun : List (Pool.Action (PublishRequest Unit) Bool) :=
  [.start (demoRequest "1.0.0" [1] "a")] ++ List.replicate 10 (.advance 0 false) ++
    [.start (demoRequest "1.0.0" [2] "b")] ++ List.replicate 7 (.advance 1 false)

def isPublished (s : NpmHosted Unit) (v : DBProjectVersion (PublishVersion Unit)) :
    Publish demoFormat demoNames Unit → Bool
  | .publishes u (.done (.ok ())) => u.data == (demoRequest "1.0.0" [1] "a").data &&
      u.attachment == [1] && tarball Collation.exact s v == some (.file [2])
  | _ => false

/-- Without the condition the tarball of the version is the second one, and its metadata those of the
first. -/
theorem not_versionsPaired_republished :
    ¬ VersionsPaired demoFormat demoNames Collation.exact .local republishedRun := by
  intro h
  have hrun : (run (npmHosted demoFormat demoNames Collation.exact Unit).step
      (emptyRegistry demoFormat demoNames .local Unit) republishedRun).any (fun p =>
        p.shared.catalogue.versions.any fun v => p.shared.catalogue.projects.any fun project =>
          project.id == v.projectId && project.key == "demo" && v.version == "1.0.0" &&
          p.processes[0]?.any (isPublished p.shared v)) = true := by
    decide +kernel
  obtain ⟨p, hp, hany⟩ := (Option.any_eq_true _ _).mp hrun
  obtain ⟨v, hv, hany⟩ := List.any_eq_true.mp hany
  obtain ⟨project, hproject, hall⟩ := List.any_eq_true.mp hany
  simp only [Bool.and_eq_true, beq_iff_eq] at hall
  obtain ⟨⟨⟨hid, hkey⟩, hversion⟩, hdone⟩ := hall
  obtain ⟨r, hr, hdone⟩ := (Option.any_eq_true _ _).mp hdone
  unfold isPublished at hdone
  split at hdone
  · rename_i u
    simp only [Bool.and_eq_true, beq_iff_eq] at hdone
    obtain ⟨⟨hdata, hattachment⟩, htarball⟩ := hdone
    have hpublished : PublishedBy Collation.exact p v u := by
      refine ⟨⟨0, hr⟩, ?_, project, hproject, hid, ?_⟩
      · rw [hdata, hversion]
        rfl
      · rw [hkey, hdata]
        decide
    have hpaired := (h.paired republishedRun [] p v u (List.append_nil _).symm hp hv hpublished).2
    rw [htarball, hattachment] at hpaired
    cases hpaired
  · cases hdone

end Pkgly.Npm
