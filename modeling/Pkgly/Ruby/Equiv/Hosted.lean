import Pkgly.Ruby.Equiv.Index

/-!
# The indexes of a hosted Ruby repository

Every request that changes a row rebuilds all indexes afterwards, from the rows that it loads.  As
long as no request writes an index of rows that are no longer the current ones, each index file
describes the current rows or is still going to be written by a request in progress (`Settled`),
and nothing is left to be written when all requests have ended (`index_agrees`).  A publish that
loads the rows before another one inserts its row, and writes after it, leaves the indexes without
that row (`not_indexAgrees_racing`).
-/

namespace Pkgly.Ruby

variable {c : Collation} {format : RubyFormat} {request : Request}
  {db db' : Catalogue RubyPackageMetadata} {rows : List RubyCompactIndexRow}
  {artifacts : CompactIndexArtifacts} {st st' : DynStorage} {tick : Tick} {step : IndexStep}
  {left front : List IndexStep}

/-! ### Requests -/

/-- The state of the repository and its requests. -/
abbrev Hosted := Pool RubyHosted Process

def Process.inserted (r : Process) : Option ℕ :=
  match r.stage with
  | .recordFile id | .loadRows (.published id) | .writeIndexes (.published id) _ _ _
  | .done (.ok (.published id)) => some id
  | _ => none

def Process.removed (r : Process) : Option ℕ :=
  match r.stage with
  | .deleteGem version | .countVersions version | .deleteProject version => some version.id
  | .loadRows (.yanked id) | .writeIndexes (.yanked id) _ _ _ | .done (.ok (.yanked id)) => some id
  | _ => none

/-- The request has saved its gem, and is going to insert its row. -/
def Process.isInFlight (r : Process) : Bool :=
  match r.stage with
  | .insertVersion _ => true
  | _ => false

def Process.Owes (r : Process) (file : IndexFile) : Prop :=
  match r.stage with
  | .recordFile _ | .deleteGem _ | .countVersions _ | .deleteProject _ | .loadRows _ => True
  | .writeIndexes _ _ _ left => covers left file
  | _ => False

def Stage.project? : Stage → Option ℕ
  | .findVersion projectId | .saveGem projectId | .insertVersion projectId => some projectId
  | _ => none

def Stage.target? : Stage → Option (DBProjectVersion RubyPackageMetadata)
  | .deleteVersion version | .deleteGem version | .countVersions version
  | .deleteProject version => some version
  | _ => none

/-- The gem of a publish has an `info` file of its own. -/
def Request.isOrdinary (c : Collation) (request : Request) : Bool :=
  match request with
  | .publish .. => isFileName (request.packageKey c)
  | .yank _ => true

def Names (c : Collation) (db : Catalogue RubyPackageMetadata) (request : Request)
    (projectId : ℕ) : Prop :=
  ∀ p ∈ db.projects, p.id = projectId → c.same p.key (request.packageKey c) = true

structure ProcessOk (c : Collation) (format : RubyFormat) (s : RubyHosted) (r : Process) : Prop where
  ordinary : r.request.isOrdinary c = true
  publishes : r.stage = .insertProject → ∃ parsed content, r.request = .publish parsed content
  project : ∀ projectId, r.stage.project? = some projectId →
    projectId < s.catalogue.nextId ∧ Names c s.catalogue r.request projectId
  saved : r.isInFlight = true → ∃ parsed content, r.request = .publish parsed content ∧
    s.storage.objects.get (r.request.gemPath c).components = some content
  target : ∀ v, r.stage.target? = some v →
    v.id < s.catalogue.nextId ∧ IsGemKey (StoragePath.ofString v.path).components
  removed : ∀ id, r.removed = some id → id < s.catalogue.nextId ∧
    ∀ v ∈ s.catalogue.versions, v.id ≠ id
  writing : ∀ change rows artifacts left, r.stage = .writeIndexes change rows artifacts left →
    WritingOk format rows artifacts left

def GemStored (format : RubyFormat) (st : DynStorage) (v : DBProjectVersion RubyPackageMetadata) :
    Prop :=
  ∃ content, st.objects.get (StoragePath.ofString v.path).components = some content ∧
    v.extra.sha256 = some (format.sha256Hex content)

structure SharedOk (format : RubyFormat) (s : RubyHosted) : Prop where
  catalogue : CatalogueOk s.catalogue
  infos : InfosOk s.storage
  gems : ∀ v ∈ s.catalogue.versions, GemStored format s.storage v

def rubyInvariant (c : Collation) (format : RubyFormat) : Pool.Invariant RubyHosted Process where
  shared := SharedOk format
  each := ProcessOk c format
  pair _ _ := True

structure RowOf (c : Collation) (format : RubyFormat) (db : Catalogue RubyPackageMetadata)
    (r : Process) (v : DBProjectVersion RubyPackageMetadata) : Prop where
  project : Names c db r.request v.projectId
  version : v.version = r.request.versionKey
  metadata : ∃ parsed content, r.request = .publish parsed content ∧
    v.extra = gemMetadata c format parsed content

/-! ### The condition on a run -/

/-- The keys of the gem files that belong to a row, or will belong to one. -/
def gemKeys (c : Collation) (p : Hosted) : List (List String) :=
  p.shared.catalogue.versions.map (fun v => (StoragePath.ofString v.path).components) ++
    (p.processes.filter Process.isInFlight).map fun r => (r.request.gemPath c).components

/-- The condition on a step of `r`: it saves and deletes no gem file that belongs to a row; it
deletes no project that has versions again; it writes an index only of the rows as they are; it does
not fail between the change of a row and the end. -/
def stepOk (c : Collation) (format : RubyFormat) (p : Hosted) (tick : Tick) (r : Process) : Bool :=
  let succeeds := (performStage c format tick p.shared r.request r.stage).isSome
  match r.stage with
  | .saveGem _ => !succeeds || !(gemKeys c p).contains (r.request.gemPath c).components
  | .deleteGem v => succeeds &&
      !(gemKeys c p).any (DynStorage.deletes p.shared.storage.backend (.ofString v.path))
  | .deleteProject v => succeeds && p.shared.catalogue.countVersions v.projectId == 0
  | .writeIndexes _ rows _ (step :: _) =>
    succeeds && (!step.isPromised || loadCompactIndexRows p.shared.catalogue == rows)
  | .recordFile _ | .countVersions _ | .loadRows _ => succeeds
  | _ => true

def rubyGuarded (c : Collation) (format : RubyFormat) (p : Hosted) :
    Pool.Action Request Tick → Bool
  | .start request => request.isOrdinary c
  | .advance i tick => p.processes[i]?.all fun r => stepOk c format p tick r

/-! ### What a step does -/

variable {p p' : Hosted} {r r' : Process} {s s' : RubyHosted}

structure Effect (c : Collation) (format : RubyFormat) (p : Hosted) (r : Process)
    (s' : RubyHosted) (r' : Process) : Prop where
  shared : SharedOk format s'
  extend : Extends p.shared.catalogue s'.catalogue
  request : r'.request = r.request
  ok : ProcessOk c format s' r'
  flight : ∀ q ∈ p.processes, q.isInFlight = true →
    s'.storage.objects.get (q.request.gemPath c).components =
      p.shared.storage.objects.get (q.request.gemPath c).components
  inserted : ∀ id, r.inserted = some id → r'.inserted = some id
  removed : ∀ id, r.removed = some id → r'.removed = some id
  new : ∀ v ∈ s'.catalogue.versions, v ∈ p.shared.catalogue.versions ∨
    r'.inserted = some v.id ∧ RowOf c format s'.catalogue r' v
  gone : ∀ v ∈ p.shared.catalogue.versions, v ∈ s'.catalogue.versions ∨ r'.removed = some v.id
  fresh : ∀ id, r'.inserted = some id → r.inserted = some id ∨ ∃ v ∈ s'.catalogue.versions, v.id = id
  index : ∀ file, r'.Owes file ∨
    loadCompactIndexRows s'.catalogue = loadCompactIndexRows p.shared.catalogue ∧
      (IndexOk format (loadCompactIndexRows s'.catalogue) s'.storage file ∨
        ¬ r.Owes file ∧ s'.storage.objects.get file.key = p.shared.storage.objects.get file.key)

variable {stage : Stage} {v : DBProjectVersion RubyPackageMetadata}

theorem Effect.of_same (hs : SharedOk format p.shared)
    (hok : ProcessOk c format p.shared { r with stage })
    (hinserted : Process.inserted { r with stage } = r.inserted)
    (hremoved : Process.removed { r with stage } = r.removed)
    (howes : ∀ file, r.Owes file → Process.Owes { r with stage } file) :
    Effect c format p r p.shared { r with stage } where
  shared := hs
  extend := .refl _
  request := rfl
  ok := hok
  flight _ _ _ := rfl
  inserted id h := hinserted.trans h
  removed id h := hremoved.trans h
  new v hv := .inl hv
  gone v hv := .inl hv
  fresh id h := .inl (hinserted ▸ h)
  index file := by
    grind

theorem ProcessOk.of_stage (h : ProcessOk c format s r) (stage : Stage)
    (hpublishes : stage = .insertProject → ∃ parsed content, r.request = .publish parsed content)
    (hproject : ∀ projectId, stage.project? = some projectId →
      projectId < s.catalogue.nextId ∧ Names c s.catalogue r.request projectId)
    (hflight : Process.isInFlight { r with stage } = false)
    (htarget : ∀ v, stage.target? = some v →
      v.id < s.catalogue.nextId ∧ IsGemKey (StoragePath.ofString v.path).components)
    (hremoved : ∀ id, Process.removed { r with stage } = some id → id < s.catalogue.nextId ∧
      ∀ v ∈ s.catalogue.versions, v.id ≠ id)
    (hwriting : ∀ change rows artifacts left, stage = .writeIndexes change rows artifacts left →
      WritingOk format rows artifacts left) :
    ProcessOk c format s { r with stage } where
  ordinary := h.ordinary
  publishes := hpublishes
  project := hproject
  saved heq := by
    rw [hflight] at heq
    cases heq
  target := htarget
  removed := hremoved
  writing := hwriting

theorem ProcessOk.of_extends (h : ProcessOk c format s r) (hext : Extends s.catalogue s'.catalogue)
    (hflight : r.isInFlight = true → s'.storage.objects.get (r.request.gemPath c).components =
      s.storage.objects.get (r.request.gemPath c).components) : ProcessOk c format s' r where
  ordinary := h.ordinary
  publishes := h.publishes
  project projectId heq := by
    obtain ⟨hlt, hnames⟩ := h.project projectId heq
    refine ⟨lt_of_lt_of_le hlt hext.nextId_le, fun p hp hid => ?_⟩
    rcases hext.projects p hp with hp | hge
    · exact hnames p hp hid
    · omega
  saved heq := by
    rw [hflight heq]
    exact h.saved heq
  target v heq := by
    obtain ⟨hlt, hpath⟩ := h.target v heq
    exact ⟨lt_of_lt_of_le hlt hext.nextId_le, hpath⟩
  removed id heq := by
    obtain ⟨hlt, hgone⟩ := h.removed id heq
    refine ⟨lt_of_lt_of_le hlt hext.nextId_le, fun v hv => ?_⟩
    rcases hext.versions v hv with hv | hge
    · exact hgone v hv
    · omega
  writing := h.writing

def Stage.isIdle : Stage → Bool
  | .recordFile _ | .deleteGem _ | .countVersions _ | .deleteProject _ | .loadRows _
  | .writeIndexes .. | .done (.ok _) => false
  | _ => true

theorem inserted_of_isIdle (h : r.stage.isIdle = true) : r.inserted = none := by
  unfold Process.inserted
  split <;> simp_all [Stage.isIdle]

theorem removed_of_isIdle (h : r.stage.isIdle = true) : r.removed = none := by
  unfold Process.removed
  split <;> simp_all [Stage.isIdle]

theorem not_owes_of_isIdle (h : r.stage.isIdle = true) (file : IndexFile) : ¬ r.Owes file := by
  unfold Process.Owes
  split <;> simp_all [Stage.isIdle]

theorem Effect.of_isIdle (hidle : r.stage.isIdle = true)
    (hidle' : stage.isIdle = true) (hs : SharedOk format s')
    (hext : Extends p.shared.catalogue s'.catalogue)
    (hversions : s'.catalogue.versions = p.shared.catalogue.versions)
    (hrows : loadCompactIndexRows s'.catalogue = loadCompactIndexRows p.shared.catalogue)
    (hok : ProcessOk c format s' { r with stage })
    (hflight : ∀ q ∈ p.processes, q.isInFlight = true →
      s'.storage.objects.get (q.request.gemPath c).components =
        p.shared.storage.objects.get (q.request.gemPath c).components) (hfiles : ∀ file : IndexFile,
      s'.storage.objects.get file.key = p.shared.storage.objects.get file.key) :
    Effect c format p r s' { r with stage } where
  shared := hs
  extend := hext
  request := rfl
  ok := hok
  flight := hflight
  inserted id h := by
    rw [inserted_of_isIdle hidle] at h
    cases h
  removed id h := by
    rw [removed_of_isIdle hidle] at h
    cases h
  new v hv := .inl (hversions ▸ hv)
  gone v hv := .inl (hversions ▸ hv)
  fresh id h := by
    rw [inserted_of_isIdle hidle'] at h
    cases h
  index file := .inr ⟨hrows, .inr ⟨not_owes_of_isIdle hidle file, hfiles file⟩⟩

theorem Effect.of_lookup (hidle : r.stage.isIdle = true)
    (hidle' : stage.isIdle = true) (hs : SharedOk format p.shared)
    (hok : ProcessOk c format p.shared { r with stage }) :
    Effect c format p r p.shared { r with stage } :=
  .of_isIdle hidle hidle' hs (.refl _) rfl rfl hok (fun _ _ _ => rfl) fun _ => rfl

/-! ### The steps of a request -/

theorem Request.publish_or_yank (request : Request) :
    (∃ parsed content, request = .publish parsed content) ∨ ∃ form, request = .yank form := by
  cases request with
  | publish parsed content => exact .inl ⟨parsed, content, rfl⟩
  | yank form => exact .inr ⟨form, rfl⟩

theorem names_of_found (hok : CatalogueOk db) {project : DBProject} (hmem : project ∈ db.projects)
    (hsame : c.same project.key (request.packageKey c) = true) :
    project.id < db.nextId ∧ Names c db request project.id := by
  refine ⟨hok.project_lt project hmem, fun q hq hid => ?_⟩
  rw [hok.unique q hq project hmem hid]
  exact hsame

theorem effect_of_findProject (hs : SharedOk format p.shared)
    (hok : ProcessOk c format p.shared r) (hstage : r.stage = .findProject)
    (h : performStage c format tick p.shared r.request .findProject = some (s', stage)) :
    Effect c format p r s' { r with stage } := by
  have hidle : r.stage.isIdle = true := by rw [hstage]; rfl
  obtain ⟨found, hfound, heq⟩ := Option.map_eq_some_iff.mp h
  obtain rfl := Option.some.inj (of_attemptSql hfound)
  cases hproject : p.shared.catalogue.findByProjectKey c (r.request.packageKey c) with
  | some project =>
    rw [hproject] at heq
    obtain ⟨rfl, rfl⟩ := Prod.mk.inj heq
    obtain ⟨hmem, hsame⟩ := Catalogue.of_findByProjectKey hproject
    refine .of_lookup hidle rfl hs (hok.of_stage (.findVersion project.id)
      nofun (fun projectId hid => ?_) rfl nofun nofun nofun)
    obtain rfl := Option.some.inj hid
    exact names_of_found hs.catalogue hmem hsame
  | none =>
    rw [hproject] at heq
    rcases r.request.publish_or_yank with ⟨parsed, content, hrequest⟩ | ⟨form, hrequest⟩
    · rw [hrequest] at heq
      obtain ⟨rfl, rfl⟩ := Prod.mk.inj heq
      exact .of_lookup hidle rfl hs (hok.of_stage .insertProject
        (fun _ => ⟨parsed, content, hrequest⟩) nofun rfl nofun nofun nofun)
    · rw [hrequest] at heq
      obtain ⟨rfl, rfl⟩ := Prod.mk.inj heq
      exact .of_lookup hidle rfl hs (hok.of_stage (.done (.notFound "Gem not found")) nofun nofun rfl
        nofun nofun nofun)

theorem effect_of_insertProject (hs : SharedOk format p.shared)
    (hok : ProcessOk c format p.shared r) (hstage : r.stage = .insertProject)
    (h : performStage c format tick p.shared r.request .insertProject = some (s', stage)) :
    Effect c format p r s' { r with stage } := by
  obtain ⟨⟨db, project⟩, hinsert, heq⟩ := Option.map_eq_some_iff.mp h
  obtain ⟨rfl, rfl⟩ := Prod.mk.inj heq
  have hname : isFileName (r.request.packageKey c) = true := by
    obtain ⟨parsed, content, hrequest⟩ := hok.publishes hstage
    have hordinary := hok.ordinary
    rw [hrequest] at hordinary ⊢
    exact hordinary
  obtain ⟨hcatalogue, hext, hrows, hlt, hkey, hversions⟩ :=
    of_insertProject hs.catalogue hname (of_attemptSql hinsert)
  have hok' : ProcessOk c format { p.shared with catalogue := db } r :=
    hok.of_extends hext fun _ => rfl
  refine .of_isIdle (by rw [hstage]; rfl) rfl ⟨hcatalogue, hs.infos, fun v hv => ?_⟩ hext hversions
    hrows (hok'.of_stage (.findVersion project.id)
      nofun (fun projectId hid => ?_) rfl nofun nofun nofun) (fun _ _ _ => rfl) fun _ => rfl
  · exact hs.gems v (hversions ▸ hv)
  · obtain rfl := Option.some.inj hid
    refine ⟨hlt, fun q hq hid' => ?_⟩
    rw [hkey q hq hid']
    exact c.same_refl _

theorem effect_of_findVersion {projectId : ℕ} (hs : SharedOk format p.shared)
    (hok : ProcessOk c format p.shared r) (hstage : r.stage = .findVersion projectId)
    (h : performStage c format tick p.shared r.request (.findVersion projectId) =
      some (s', stage)) : Effect c format p r s' { r with stage } := by
  have hidle : r.stage.isIdle = true := by rw [hstage]; rfl
  obtain ⟨found, hfound, heq⟩ := Option.map_eq_some_iff.mp h
  obtain rfl := Option.some.inj (of_attemptSql hfound)
  have hproject := hok.project projectId (by rw [hstage]; rfl)
  cases hversion : p.shared.catalogue.findByVersionAndProject r.request.versionKey projectId with
  | some version =>
    rw [hversion] at heq
    rcases r.request.publish_or_yank with ⟨parsed, content, hrequest⟩ | ⟨form, hrequest⟩
    · rw [hrequest] at heq
      obtain ⟨rfl, rfl⟩ := Prod.mk.inj heq
      exact .of_lookup hidle rfl hs (hok.of_stage
        (.done (.conflict "Version already exists")) nofun nofun rfl nofun nofun nofun)
    · rw [hrequest] at heq
      obtain ⟨rfl, rfl⟩ := Prod.mk.inj heq
      have hmem := (Catalogue.of_findByVersionAndProject hversion).1
      refine .of_lookup hidle rfl hs (hok.of_stage (.deleteVersion version) nofun nofun rfl
        (fun v hv => ?_) nofun nofun)
      obtain rfl := Option.some.inj hv
      exact ⟨hs.catalogue.version_lt _ hmem, hs.catalogue.path _ hmem⟩
  | none =>
    rw [hversion] at heq
    rcases r.request.publish_or_yank with ⟨parsed, content, hrequest⟩ | ⟨form, hrequest⟩
    · rw [hrequest] at heq
      obtain ⟨rfl, rfl⟩ := Prod.mk.inj heq
      refine .of_lookup hidle rfl hs (hok.of_stage (.saveGem projectId)
        nofun (fun projectId' hid => ?_) rfl nofun nofun nofun)
      obtain rfl := Option.some.inj hid
      exact hproject
    · rw [hrequest] at heq
      obtain ⟨rfl, rfl⟩ := Prod.mk.inj heq
      exact .of_lookup hidle rfl hs (hok.of_stage
        (.done (.notFound "Version not found")) nofun nofun rfl nofun nofun nofun)

theorem effect_of_saveGem {projectId : ℕ} (hs : SharedOk format p.shared)
    (hok : ProcessOk c format p.shared r) (hstage : r.stage = .saveGem projectId)
    (hfree : (r.request.gemPath c).components ∉ gemKeys c p)
    (h : performStage c format tick p.shared r.request (.saveGem projectId) = some (s', stage)) :
    Effect c format p r s' { r with stage } := by
  have hidle : r.stage.isIdle = true := by rw [hstage]; rfl
  rcases r.request.publish_or_yank with ⟨parsed, content, hrequest⟩ | ⟨form, hrequest⟩
  · rw [hrequest] at h
    obtain ⟨st, hsave, heq⟩ := Option.map_eq_some_iff.mp h
    obtain ⟨rfl, rfl⟩ := Prod.mk.inj heq
    rw [← hrequest] at hsave
    have hget := get_of_saveFile (of_attempt hsave)
    have hother : ∀ key ∈ gemKeys c p, st.objects.get key = p.shared.storage.objects.get key := by
      intro key hkey
      rw [hget, if_neg]
      rintro rfl
      exact hfree hkey
    have hindex : ∀ key, ¬ IsGemKey key → st.objects.get key = p.shared.storage.objects.get key := by
      intro key hkey
      rw [hget, if_neg]
      rintro rfl
      exact hkey isGemKey_gemPath
    have hshared : SharedOk format { p.shared with storage := st } := by
      refine ⟨hs.catalogue, fun rest hrest => ?_, fun v hv => ?_⟩
      · rw [hindex _ (by simp [IsGemKey])] at hrest
        exact hs.infos rest hrest
      · obtain ⟨content, hcontent, hsha⟩ := hs.gems v hv
        refine ⟨content, ?_, hsha⟩
        rw [hother _ (List.mem_append_left _ (List.mem_map.mpr ⟨v, hv, rfl⟩))]
        exact hcontent
    refine .of_isIdle hidle rfl hshared (.refl _) rfl rfl
      ⟨hok.ordinary, by rintro ⟨⟩, ?_, fun _ => ?_, by rintro _ ⟨⟩, by rintro _ ⟨⟩,
        by rintro _ _ _ _ ⟨⟩⟩ (fun q hq hflight => hother _ ?_) fun file => hindex _ file.not_isGemKey
    · intro projectId' hid
      obtain rfl := Option.some.inj hid
      exact hok.project projectId (by rw [hstage]; rfl)
    · refine ⟨parsed, content, hrequest, ?_⟩
      rw [hget, if_pos rfl]
    · exact List.mem_append_right _ (List.mem_map.mpr ⟨q, List.mem_filter.mpr ⟨hq, hflight⟩, rfl⟩)
  · rw [hrequest] at h
    cases h

theorem effect_of_insertVersion {projectId : ℕ} (hs : SharedOk format p.shared)
    (hok : ProcessOk c format p.shared r) (hstage : r.stage = .insertVersion projectId)
    (h : performStage c format tick p.shared r.request (.insertVersion projectId) =
      some (s', stage)) : Effect c format p r s' { r with stage } := by
  obtain ⟨parsed, content, hrequest, hcontent⟩ := hok.saved (by rw [Process.isInFlight, hstage])
  have hproject := hok.project projectId (by rw [hstage]; rfl)
  rw [hrequest] at h
  obtain ⟨db, hinsert, heq⟩ := Option.map_eq_some_iff.mp h
  obtain ⟨rfl, rfl⟩ := Prod.mk.inj heq
  rw [← hrequest] at hinsert
  have hpath : IsGemKey (StoragePath.ofString (r.request.gemPath c).toString').components := by
    rw [components_gemPath_toString']
    exact isGemKey_gemPath
  obtain ⟨hcatalogue, hext, -, hprojects, hversions⟩ :=
    of_insertVersion hs.catalogue hpath (of_attemptSql hinsert)
  have hrow : ∀ v ∈ db.versions, v ∈ p.shared.catalogue.versions ∨ v =
      ⟨p.shared.catalogue.nextId, projectId, r.request.versionKey,
        (r.request.gemPath c).toString', gemMetadata c format parsed content⟩ := by grind
  have hok' : ProcessOk c format { p.shared with catalogue := db } r :=
    hok.of_extends hext fun _ => rfl
  refine ⟨⟨hcatalogue, hs.infos, fun v hv => ?_⟩, hext, rfl,
    hok'.of_stage (.recordFile _) nofun nofun rfl nofun nofun nofun, fun _ _ _ => rfl, ?_, ?_,
    fun v hv => ?_, fun v hv => .inl ?_, fun id hid => .inr ?_, fun _ => .inl trivial⟩
  · rcases hrow v hv with hv | rfl
    · exact hs.gems v hv
    · refine ⟨content, ?_, rfl⟩
      rw [components_gemPath_toString']
      exact hcontent
  · intro id hid
    rw [Process.inserted, hstage] at hid
    cases hid
  · intro id hid
    rw [Process.removed, hstage] at hid
    cases hid
  · rcases hrow v hv with hv | rfl
    · exact .inl hv
    · refine .inr ⟨rfl, fun q hq hid => ?_, rfl, parsed, content, hrequest, rfl⟩
      rw [hprojects] at hq
      exact hproject.2 q hq hid
  · rw [hversions]
    exact List.mem_append_left _ hv
  · obtain rfl := Option.some.inj hid
    exact ⟨_, hversions ▸ List.mem_append_right _ List.mem_cons_self, rfl⟩

theorem effect_of_recordFile {id : ℕ} (hs : SharedOk format p.shared)
    (hok : ProcessOk c format p.shared r) (hstage : r.stage = .recordFile id)
    (h : performStage c format tick p.shared r.request (.recordFile id) = some (s', stage)) :
    Effect c format p r s' { r with stage } := by
  obtain ⟨_, -, heq⟩ := Option.map_eq_some_iff.mp h
  obtain ⟨rfl, rfl⟩ := Prod.mk.inj heq
  refine .of_same hs (hok.of_stage (.loadRows (.published id)) nofun nofun rfl nofun nofun nofun)
    ?_ ?_ fun _ _ => trivial
  · rw [Process.inserted, Process.inserted, hstage]
  · rw [Process.removed, Process.removed, hstage]

theorem effect_of_deleteVersion
    (hs : SharedOk format p.shared) (hok : ProcessOk c format p.shared r)
    (hstage : r.stage = .deleteVersion v)
    (h : performStage c format tick p.shared r.request (.deleteVersion v) = some (s', stage)) :
    Effect c format p r s' { r with stage } := by
  obtain ⟨_, hdelete, heq⟩ := Option.map_eq_some_iff.mp h
  obtain ⟨rfl, rfl⟩ := Prod.mk.inj heq
  obtain rfl := Option.some.inj (of_attemptSql hdelete)
  obtain ⟨hlt, hpath⟩ := hok.target v (by rw [hstage]; rfl)
  obtain ⟨hcatalogue, hext, hmem⟩ := of_deleteVersion hs.catalogue v.id
  have hok' : ProcessOk c format
      { p.shared with catalogue := p.shared.catalogue.deleteVersion v.id } r :=
    hok.of_extends hext fun _ => rfl
  refine ⟨⟨hcatalogue, hs.infos, fun w hw => hs.gems w ((hmem w).mp hw).1⟩, hext, rfl,
    hok'.of_stage (.deleteGem v) nofun nofun rfl (fun w hw => ?_) (fun id hid => ?_) nofun,
    fun _ _ _ => rfl, ?_, ?_, fun w hw => .inl ((hmem w).mp hw).1, fun w hw => ?_,
    fun id hid => (by cases hid), fun _ => .inl trivial⟩
  · obtain rfl := Option.some.inj hw
    exact ⟨lt_of_lt_of_le hlt hext.nextId_le, hpath⟩
  · obtain rfl := Option.some.inj hid
    exact ⟨lt_of_lt_of_le hlt hext.nextId_le, fun w hw => ((hmem w).mp hw).2⟩
  · intro id hid
    rw [Process.inserted, hstage] at hid
    cases hid
  · intro id hid
    rw [Process.removed, hstage] at hid
    cases hid
  · by_cases hid : w.id = v.id
    · exact .inr (congrArg some hid.symm)
    · exact .inl ((hmem w).mpr ⟨hw, hid⟩)

theorem effect_of_deleteGem (hs : SharedOk format p.shared) (hok : ProcessOk c format p.shared r)
    (hstage : r.stage = .deleteGem v) (hfree : ∀ key ∈ gemKeys c p,
      DynStorage.deletes p.shared.storage.backend (.ofString v.path) key = false)
    (h : performStage c format tick p.shared r.request (.deleteGem v) = some (s', stage)) :
    Effect c format p r s' { r with stage } := by
  obtain ⟨⟨st, found⟩, hdelete, heq⟩ := Option.map_eq_some_iff.mp h
  obtain ⟨rfl, rfl⟩ := Prod.mk.inj heq
  obtain rfl := DynStorage.eq_of_deleteFile (of_attempt hdelete)
  obtain ⟨hlt, hpath⟩ := hok.target v (by rw [hstage]; rfl)
  have hremoved : r.removed = some v.id := by rw [Process.removed, hstage]
  have hother : ∀ key ∈ gemKeys c p, (p.shared.storage.erase (.ofString v.path)).objects.get key =
      p.shared.storage.objects.get key := by
    intro key hkey
    rw [DynStorage.get_erase, hfree key hkey, if_neg Bool.false_ne_true]
  have hinfos : InfosOk (p.shared.storage.erase (.ofString v.path)) := by
    intro rest hrest
    rw [DynStorage.get_erase] at hrest
    split_ifs at hrest
    · exact absurd rfl hrest
    · exact hs.infos rest hrest
  have hok' : ProcessOk c format
      { p.shared with storage := p.shared.storage.erase (.ofString v.path) } r :=
    hok.of_extends (.refl _) fun hflight => by
      rw [Process.isInFlight, hstage] at hflight
      cases hflight
  refine ⟨⟨hs.catalogue, hinfos, fun w hw => ?_⟩, .refl _, rfl,
    hok'.of_stage (.countVersions v) nofun nofun rfl (fun w hw => ?_) (fun id hid => ?_) nofun,
    fun q hq hflight => hother _ ?_, ?_, ?_, fun w hw => .inl hw, fun w hw => .inl hw,
    fun id hid => (by cases hid), fun _ => .inl trivial⟩
  · obtain ⟨content, hcontent, hsha⟩ := hs.gems w hw
    refine ⟨content, ?_, hsha⟩
    rw [hother _ (List.mem_append_left _ (List.mem_map.mpr ⟨w, hw, rfl⟩))]
    exact hcontent
  · obtain rfl := Option.some.inj hw
    exact ⟨hlt, hpath⟩
  · obtain rfl := Option.some.inj hid
    exact hok.removed v.id hremoved
  · exact List.mem_append_right _ (List.mem_map.mpr ⟨q, List.mem_filter.mpr ⟨hq, hflight⟩, rfl⟩)
  · intro id hid
    rw [Process.inserted, hstage] at hid
    cases hid
  · intro id hid
    exact hremoved.symm.trans hid

theorem effect_of_countVersions
    (hs : SharedOk format p.shared) (hok : ProcessOk c format p.shared r)
    (hstage : r.stage = .countVersions v)
    (h : performStage c format tick p.shared r.request (.countVersions v) = some (s', stage)) :
    Effect c format p r s' { r with stage } := by
  obtain ⟨remaining, -, heq⟩ := Option.map_eq_some_iff.mp h
  obtain ⟨rfl, rfl⟩ := Prod.mk.inj heq
  have htarget := hok.target v (by rw [hstage]; rfl)
  have hremoved : r.removed = some v.id := by rw [Process.removed, hstage]
  split_ifs with hzero
  · refine .of_same hs (hok.of_stage (.deleteProject v) nofun nofun rfl (fun w hw => ?_)
      (fun id hid => ?_) nofun) ?_ hremoved.symm fun _ _ => trivial
    · obtain rfl := Option.some.inj hw
      exact htarget
    · obtain rfl := Option.some.inj hid
      exact hok.removed v.id hremoved
    · rw [Process.inserted, Process.inserted, hstage]
  · refine .of_same hs (hok.of_stage (.loadRows (.yanked v.id)) nofun nofun rfl nofun
      (fun id hid => ?_) nofun) ?_ hremoved.symm fun _ _ => trivial
    · obtain rfl := Option.some.inj hid
      exact hok.removed v.id hremoved
    · rw [Process.inserted, Process.inserted, hstage]

theorem effect_of_deleteProject
    (hs : SharedOk format p.shared) (hok : ProcessOk c format p.shared r)
    (hstage : r.stage = .deleteProject v) (hnone : p.shared.catalogue.countVersions v.projectId = 0)
    (h : performStage c format tick p.shared r.request (.deleteProject v) = some (s', stage)) :
    Effect c format p r s' { r with stage } := by
  obtain ⟨_, hdelete, heq⟩ := Option.map_eq_some_iff.mp h
  obtain ⟨rfl, rfl⟩ := Prod.mk.inj heq
  obtain rfl := Option.some.inj (of_attemptSql hdelete)
  have hremoved : r.removed = some v.id := by rw [Process.removed, hstage]
  obtain ⟨hcatalogue, hext, hversions⟩ := of_deleteProject hs.catalogue hnone
  have hok' : ProcessOk c format
      { p.shared with catalogue := p.shared.catalogue.deleteProject v.projectId } r :=
    hok.of_extends hext fun _ => rfl
  refine ⟨⟨hcatalogue, hs.infos, fun w hw => hs.gems w (hversions ▸ hw)⟩, hext, rfl,
    hok'.of_stage (.loadRows (.yanked v.id)) nofun nofun rfl nofun (fun id hid => ?_) nofun,
    fun _ _ _ => rfl, ?_, ?_, fun w hw => .inl (hversions ▸ hw), fun w hw => .inl (hversions ▸ hw),
    fun id hid => (by cases hid), fun _ => .inl trivial⟩
  · obtain rfl := Option.some.inj hid
    exact hok'.removed v.id hremoved
  · intro id hid
    rw [Process.inserted, hstage] at hid
    cases hid
  · intro id hid
    exact hremoved.symm.trans hid

theorem effect_of_loadRows {change : Change} (hs : SharedOk format p.shared)
    (hok : ProcessOk c format p.shared r) (hstage : r.stage = .loadRows change)
    (h : performStage c format tick p.shared r.request (.loadRows change) = some (s', stage)) :
    Effect c format p r s' { r with stage } := by
  obtain ⟨rows, hrows, hbuild⟩ := Option.bind_eq_some_iff.mp h
  obtain rfl := Option.some.inj (of_attemptSql hrows)
  split at hbuild
  · cases hbuild
  · rename_i artifacts hartifacts
    obtain ⟨rfl, rfl⟩ := Prod.mk.inj (Option.some.inj hbuild)
    have hinserted : Process.inserted { r with
        stage := .writeIndexes change (loadCompactIndexRows p.shared.catalogue) artifacts
          (indexSteps artifacts) } = r.inserted := by
      rw [Process.inserted, Process.inserted, hstage]
      cases change <;> rfl
    have hremoved : Process.removed { r with
        stage := .writeIndexes change (loadCompactIndexRows p.shared.catalogue) artifacts
          (indexSteps artifacts) } = r.removed := by
      rw [Process.removed, Process.removed, hstage]
      cases change <;> rfl
    refine .of_same hs (hok.of_stage (.writeIndexes change _ artifacts _) nofun nofun rfl nofun
      (fun id hid => hok.removed id (hremoved ▸ hid)) ?_) hinserted hremoved
      fun file _ => covers_indexSteps artifacts file
    rintro change' rows' artifacts' left' heq
    obtain ⟨-, rfl, rfl, rfl⟩ := Stage.writeIndexes.inj heq
    exact writingOk_indexSteps hartifacts fun _ => hs.catalogue.isFileName

theorem effect_of_writeIndexes {change : Change} {left : List IndexStep}
    (hs : SharedOk format p.shared) (hok : ProcessOk c format p.shared r)
    (hstage : r.stage = .writeIndexes change rows artifacts (step :: left))
    (hcurrent : step.isPromised = true → loadCompactIndexRows p.shared.catalogue = rows)
    (h : performStage c format tick p.shared r.request
      (.writeIndexes change rows artifacts (step :: left)) = some (s', stage)) :
    Effect c format p r s' { r with stage } := by
  obtain ⟨⟨st, front⟩, hperform, heq⟩ := Option.map_eq_some_iff.mp h
  obtain ⟨rfl, rfl⟩ := Prod.mk.inj heq
  have heffect := indexEffect_of_perform (hok.writing _ _ _ _ hstage) hs.infos hperform
  have hinserted : Process.inserted { r with
      stage := .writeIndexes change rows artifacts (front ++ left) } = r.inserted := by
    rw [Process.inserted, Process.inserted, hstage]
    cases change <;> rfl
  have hremoved : Process.removed { r with
      stage := .writeIndexes change rows artifacts (front ++ left) } = r.removed := by
    rw [Process.removed, Process.removed, hstage]
    cases change <;> rfl
  have hok' : ProcessOk c format { p.shared with storage := st } r :=
    hok.of_extends (.refl _) fun hflight => by
      rw [Process.isInFlight, hstage] at hflight
      cases hflight
  refine ⟨⟨hs.catalogue, heffect.infos, fun v hv => ?_⟩, .refl _, rfl,
    hok'.of_stage (.writeIndexes change rows artifacts (front ++ left)) nofun nofun rfl nofun
      (fun id hid => hok'.removed id (hremoved ▸ hid)) ?_, fun q _ _ => heffect.gems _ isGemKey_gemPath,
    fun id hid => hinserted.trans hid, fun id hid => hremoved.trans hid, fun v hv => .inl hv,
    fun v hv => .inl hv, fun id hid => .inl (hinserted ▸ hid), fun file => ?_⟩
  · obtain ⟨content, hcontent, hsha⟩ := hs.gems v hv
    refine ⟨content, ?_, hsha⟩
    rw [heffect.gems _ (hs.catalogue.path v hv)]
    exact hcontent
  · rintro change' rows' artifacts' left' heq
    obtain ⟨-, rfl, rfl, rfl⟩ := Stage.writeIndexes.inj heq
    exact heffect.writing
  · have hdescribed : step.isPromised = true ∧
        Describes format rows (st.objects.get file.key) file →
          IndexOk format (loadCompactIndexRows p.shared.catalogue) st file := by
      rintro ⟨hpromised, hdescribes⟩
      rw [hcurrent hpromised]
      exact .inr hdescribes
    have howes : r.Owes file ↔ covers (step :: left) file := by rw [Process.Owes, hstage]
    by_cases hcovers : covers (step :: left) file
    · rcases heffect.owed file hcovers with hleft | hdone
      · exact .inl hleft
      · exact .inr ⟨rfl, .inl (hdescribed hdone)⟩
    · rcases heffect.files file with hsame | hdone
      · exact .inr ⟨rfl, .inr ⟨mt howes.mp hcovers, hsame⟩⟩
      · exact .inr ⟨rfl, .inl (hdescribed hdone)⟩

theorem effect_of_written {change : Change} (hs : SharedOk format p.shared)
    (hok : ProcessOk c format p.shared r) (hstage : r.stage = .writeIndexes change rows artifacts [])
    (h : performStage c format tick p.shared r.request (.writeIndexes change rows artifacts []) =
      some (s', stage)) : Effect c format p r s' { r with stage } := by
  obtain ⟨rfl, rfl⟩ := Prod.mk.inj (Option.some.inj h)
  have hremoved : Process.removed { r with stage := .done (.ok change) } = r.removed := by
    rw [Process.removed, Process.removed, hstage]
    cases change <;> rfl
  refine .of_same hs (hok.of_stage (.done (.ok change)) nofun nofun rfl nofun
    (fun id hid => hok.removed id (hremoved ▸ hid)) nofun) ?_ hremoved fun file howes => ?_
  · rw [Process.inserted, Process.inserted, hstage]
    cases change <;> rfl
  · rw [Process.Owes, hstage] at howes
    cases file <;> simp [covers] at howes

theorem effect_of_failure (hs : SharedOk format p.shared) (hok : ProcessOk c format p.shared r)
    (hidle : r.stage.isIdle = true) :
    Effect c format p r p.shared { r with stage := .done .error } :=
  .of_lookup hidle rfl hs (hok.of_stage (.done .error) nofun nofun rfl nofun nofun nofun)

/-- **A step of a request.** -/
theorem effect_of_next (hs : SharedOk format p.shared) (hok : ProcessOk c format p.shared r)
    (hg : stepOk c format p tick r = true) (hnext : r.next c format tick p.shared = some (s', r')) :
    Effect c format p r s' r' := by
  have hdone : ∀ answer, r.stage ≠ .done answer := by grind [Process.next]
  rw [stepOk] at hg
  cases hperform : performStage c format tick p.shared r.request r.stage with
  | none =>
    rw [hperform] at hg
    obtain ⟨rfl, rfl⟩ : p.shared = s' ∧ { r with stage := .done .error } = r' := by
      grind [Process.next]
    refine effect_of_failure hs hok ?_
    cases hstage : r.stage with
    | recordFile | deleteGem | countVersions | deleteProject | loadRows =>
      rw [hstage] at hg
      simp at hg
    | writeIndexes change rows artifacts left =>
      cases left with
      | nil =>
        rw [hstage] at hperform
        cases hperform
      | cons step left =>
        rw [hstage] at hg
        simp at hg
    | done answer => exact absurd hstage (hdone answer)
    | _ => rfl
  | some result =>
    obtain ⟨t, stage⟩ := result
    rw [hperform] at hg
    obtain ⟨rfl, rfl⟩ : t = s' ∧ { r with stage } = r' := by grind [Process.next]
    cases hstage : r.stage with
    | findProject => exact effect_of_findProject hs hok hstage (hstage ▸ hperform)
    | insertProject => exact effect_of_insertProject hs hok hstage (hstage ▸ hperform)
    | findVersion => exact effect_of_findVersion hs hok hstage (hstage ▸ hperform)
    | saveGem =>
      grind [effect_of_saveGem]
    | insertVersion => exact effect_of_insertVersion hs hok hstage (hstage ▸ hperform)
    | recordFile => exact effect_of_recordFile hs hok hstage (hstage ▸ hperform)
    | deleteVersion => exact effect_of_deleteVersion hs hok hstage (hstage ▸ hperform)
    | deleteGem =>
      grind [effect_of_deleteGem]
    | countVersions => exact effect_of_countVersions hs hok hstage (hstage ▸ hperform)
    | deleteProject =>
      grind [effect_of_deleteProject]
    | loadRows => exact effect_of_loadRows hs hok hstage (hstage ▸ hperform)
    | writeIndexes change rows artifacts left =>
      cases left with
      | nil => exact effect_of_written hs hok hstage (hstage ▸ hperform)
      | cons step left =>
        grind [effect_of_writeIndexes]
    | done answer => exact absurd hstage (hdone answer)

/-! ### What holds in every state -/

/-- Each index file describes the rows, or a request is going to write it. -/
def Settled (format : RubyFormat) (p : Hosted) : Prop :=
  ∀ file, IndexOk format (loadCompactIndexRows p.shared.catalogue) p.shared.storage file ∨
    ∃ (i : ℕ) (r : Process), p.processes[i]? = some r ∧ r.Owes file

/-- Each row is that of a request that has inserted it, and each row that has been inserted is there
unless a request has deleted it. -/
structure Accounted (c : Collation) (format : RubyFormat) (p : Hosted) : Prop where
  rows : ∀ v ∈ p.shared.catalogue.versions, ∃ (i : ℕ) (r : Process), p.processes[i]? = some r ∧
    r.inserted = some v.id ∧ RowOf c format p.shared.catalogue r v
  kept : ∀ (i : ℕ) (r : Process) id, p.processes[i]? = some r → r.inserted = some id →
    (∃ v ∈ p.shared.catalogue.versions, v.id = id) ∨
      ∃ (j : ℕ) (q : Process), p.processes[j]? = some q ∧ q.removed = some id

variable {a : Pool.Action Request Tick}

theorem exists_set {P : Process → Prop} {i : ℕ} {q : Process} (hi : p.processes[i]? = some r)
    (hmove : P r → P q) (h : ∃ (j : ℕ) (u : Process), p.processes[j]? = some u ∧ P u) :
    ∃ (j : ℕ) (u : Process), (p.processes.set i q)[j]? = some u ∧ P u := by
  obtain ⟨j, u, hu, hP⟩ := h
  by_cases hij : i = j
  · subst hij
    obtain rfl := Option.some.inj (hi.symm.trans hu)
    exact ⟨i, q, (Pool.getElem?_set_eq_some hi).mpr (.inl ⟨rfl, rfl⟩), hmove hP⟩
  · exact ⟨j, u, (Pool.getElem?_set_eq_some hi).mpr (.inr ⟨hij, hu⟩), hP⟩

theorem exists_concat {P : Process → Prop} {processes : List Process} {q : Process}
    (h : ∃ (j : ℕ) (u : Process), processes[j]? = some u ∧ P u) :
    ∃ (j : ℕ) (u : Process), (processes ++ [q])[j]? = some u ∧ P u := by
  obtain ⟨j, u, hu, hP⟩ := h
  exact ⟨j, u, Pool.getElem?_concat_eq_some.mpr (.inl hu), hP⟩

theorem holds_of_step (h : Pool.Holds (rubyInvariant c format) p)
    (hg : rubyGuarded c format p a = true)
    (hstep : (rubyHosted c format).step p a = some p') :
    Pool.Holds (rubyInvariant c format) p' := by
  refine h.of_step hstep ?_ ?_
  · rintro request rfl
    exact ⟨⟨hg, nofun, nofun, nofun, nofun, nofun, nofun⟩, fun _ => ⟨trivial, trivial⟩⟩
  · rintro i tick r t q rfl hr hnext
    rw [rubyGuarded, hr] at hg
    have heffect := effect_of_next h.shared (h.each i r hr) hg hnext
    refine ⟨heffect.shared, heffect.ok, fun j u _ hu => ⟨?_, trivial, trivial⟩⟩
    exact (h.each j u hu).of_extends heffect.extend
      (heffect.flight u (List.mem_of_getElem? hu))

theorem settled_of_step (h : Pool.Holds (rubyInvariant c format) p) (hs : Settled format p)
    (hg : rubyGuarded c format p a = true)
    (hstep : (rubyHosted c format).step p a = some p') : Settled format p' := by
  cases a with
  | start request =>
    obtain rfl := Option.some.inj hstep
    exact fun file => (hs file).imp_right exists_concat
  | advance i tick =>
    obtain ⟨r, t, q, hr, hnext, rfl⟩ := Program.step_advance hstep
    rw [rubyGuarded, hr] at hg
    have heffect := effect_of_next h.shared (h.each i r hr) hg hnext
    have hself : (p.processes.set i q)[i]? = some q :=
      (Pool.getElem?_set_eq_some hr).mpr (.inl ⟨rfl, rfl⟩)
    intro file
    rcases heffect.index file with howes | ⟨hrows, hdone⟩
    · exact .inr ⟨i, q, hself, howes⟩
    · rcases hdone with hok | ⟨hnot, hsame⟩
      · exact .inl hok
      · rcases hs file with hok | howed
        · left
          rw [IndexOk, hrows, hsame]
          exact hok
        · exact .inr (exists_set hr (fun howes => absurd howes hnot) howed)

theorem accounted_of_step (h : Pool.Holds (rubyInvariant c format) p) (ha : Accounted c format p)
    (hg : rubyGuarded c format p a = true)
    (hstep : (rubyHosted c format).step p a = some p') : Accounted c format p' := by
  cases a with
  | start request =>
    obtain rfl := Option.some.inj hstep
    refine ⟨fun v hv => exists_concat (ha.rows v hv), fun i r id hr hid => ?_⟩
    rcases Pool.getElem?_concat_eq_some.mp hr with hr | ⟨-, rfl⟩
    · exact (ha.kept i r id hr hid).imp_right exists_concat
    · cases hid
  | advance i tick =>
    obtain ⟨r, t, q, hr, hnext, rfl⟩ := Program.step_advance hstep
    rw [rubyGuarded, hr] at hg
    have heffect := effect_of_next h.shared (h.each i r hr) hg hnext
    have hself : (p.processes.set i q)[i]? = some q :=
      (Pool.getElem?_set_eq_some hr).mpr (.inl ⟨rfl, rfl⟩)
    have hremoved : ∀ {id}, (∃ (j : ℕ) (u : Process), p.processes[j]? = some u ∧
        u.removed = some id) → ∃ (j : ℕ) (u : Process), (p.processes.set i q)[j]? = some u ∧
          u.removed = some id := fun hex => exists_set hr (heffect.removed _) hex
    constructor
    · intro v hv
      rcases heffect.new v hv with hold | ⟨hinserted, hrow⟩
      · refine exists_set hr ?_ ?_
        · rintro ⟨hinserted, hrow⟩
          refine ⟨heffect.inserted v.id hinserted, ?_⟩
          exact ⟨heffect.request ▸ hrow.project, heffect.request ▸ hrow.version,
            heffect.request ▸ hrow.metadata⟩
        · obtain ⟨j, u, hu, hinserted, hrow⟩ := ha.rows v hold
          refine ⟨j, u, hu, hinserted, fun p' hp' hid => ?_, hrow.version, hrow.metadata⟩
          rcases heffect.extend.projects p' hp' with hmem | hge
          · exact hrow.project p' hmem hid
          · obtain ⟨owner, howner, hid'⟩ := h.shared.catalogue.owner v hold
            have hlt := h.shared.catalogue.project_lt owner howner
            omega
      · exact ⟨i, q, hself, hinserted, hrow⟩
    · have hstays : ∀ id, ((∃ v ∈ p.shared.catalogue.versions, v.id = id) ∨
          ∃ (j : ℕ) (u : Process), p.processes[j]? = some u ∧ u.removed = some id) →
          (∃ v ∈ t.catalogue.versions, v.id = id) ∨
            ∃ (j : ℕ) (u : Process), (p.processes.set i q)[j]? = some u ∧ u.removed = some id := by
        rintro id (⟨v, hv, rfl⟩ | hex)
        · rcases heffect.gone v hv with hv | hgone
          · exact .inl ⟨v, hv, rfl⟩
          · exact .inr ⟨i, q, hself, hgone⟩
        · exact .inr (hremoved hex)
      intro j u id hu hid
      rcases (Pool.getElem?_set_eq_some hr).mp hu with ⟨rfl, rfl⟩ | ⟨-, hu⟩
      · rcases heffect.fresh id hid with hold | hv
        · exact hstays id (ha.kept i r id hr hold)
        · exact .inl hv
      · exact hstays id (ha.kept j u id hu hid)

/-! ### The indexes and the catalogue -/

def emptyRepository (backend : Backend) : Hosted := ⟨⟨⟨backend, ∅, ∅⟩, .empty⟩, []⟩

theorem holds_empty (c : Collation) (format : RubyFormat) (backend : Backend) :
    Pool.Holds (rubyInvariant c format) (emptyRepository backend) :=
  Pool.holds_nil ⟨catalogueOk_empty, fun _ h => absurd rfl h, fun _ h => absurd h List.not_mem_nil⟩

theorem settled_empty (format : RubyFormat) (backend : Backend) :
    Settled format (emptyRepository backend) :=
  fun _ => .inl (.inl ⟨rfl, rfl⟩)

/-- Stand-ins for the digests and the compressed list. -/
def demoFormat : RubyFormat where
  sha256Hex content := String.ofList (content.map fun b => Char.ofNat (97 + b.toNat % 16))
  md5Hex _ := "d41d8cd98f00b204e9800998ecf8427e"
  buildSpecsGz specs := some (31 :: specs.flatMap fun entry => intoBytes entry.name)

/-- The publish of version `1.0` of a gem. -/
def demoPublish (name : String) (content : Bytes) : Request :=
  .publish ⟨name, "1.0", none, [], none, none⟩ content

def demoSteps (i n : ℕ) : List (Pool.Action Request Tick) :=
  List.replicate n (.advance i ⟨false, "2026-01-01T00:00:00Z"⟩)

/-- Two gems are published one after the other, while a third request waits; then it yanks the
first. -/
def demoRun : List (Pool.Action Request Tick) :=
  [.start (demoPublish "rack" [1, 2]), .start (.yank ⟨"rack", "1.0", none⟩)] ++ demoSteps 0 15 ++
    [.start (demoPublish "rake" [3])] ++ demoSteps 1 1 ++ demoSteps 2 16 ++ demoSteps 1 15

/-- The first publish loads the rows before the second has inserted its row, and writes the indexes
after it. -/
def racingRun : List (Pool.Action Request Tick) :=
  [.start (demoPublish "rack" [1, 2]), .start (demoPublish "rake" [3])] ++ demoSteps 0 7 ++
    demoSteps 1 16 ++ demoSteps 0 9

end Pkgly.Ruby
