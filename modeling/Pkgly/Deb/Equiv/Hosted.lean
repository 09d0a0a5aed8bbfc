import Pkgly.Deb.Hosted
import Pkgly.Storage.Equiv.DynStorage

/-!
# The pool of a hosted Debian repository

The rows and the pool agree (`PoolMatches`) as long as an upload saves its file at a path that
belongs to no other row, and an upload that is refused has changed nothing as long as it is not
refused after it has changed a file (`pool_matches`).  An upload of a new version under the name of
a file that is already in the pool breaks both (`not_keepsPool_renamed`).
-/

namespace Pkgly.Deb

variable {format : DebFormat} {c : Collation} {config : DebHostedConfig} {u : Upload format}
  {st st' : DynStorage}

/-! ### Files of the pool -/

structure Stored (st : DynStorage) (path : StoragePath) (content : Bytes) : Prop where
  accepted : st.rejects path = false
  lookup : st.lookupKey? path = some path.components
  content : st.objects.get path.components = some content

def Unstaged (st : DynStorage) : Prop := ∀ key, st.staging.get key = none

variable {path : StoragePath}

theorem Stored.openFile {content : Bytes} (h : Stored st path content)
    (hstaging : Unstaged st) : st.openFile path = .ok (some (.file content)) := by
  unfold DynStorage.openFile
  rw [h.accepted, if_neg Bool.false_ne_true, h.lookup, Option.bind_some, hstaging,
    Option.bind_some, h.content]

theorem Stored.toString' {content : Bytes} (hwf : path.WellFormed)
    (h : Stored st path content) : Stored st (.ofString path.toString') content := by
  have hcomponents : (StoragePath.ofString path.toString').components = path.components :=
    hwf.segments_toString'
  refine ⟨?_, ?_, ?_⟩
  · have haccepted := h.accepted
    grind [DynStorage.rejects, StoragePath.validate]
  · have hlookup := h.lookup
    unfold DynStorage.lookupKey? at hlookup ⊢
    rw [hwf.isDirectory_toString', hcomponents]
    exact hlookup
  · rw [hcomponents]
    exact h.content

theorem Stored.of_saveFile {location : StoragePath} {content saved : Bytes}
    (h : Stored st path content) (hsave : st.saveFile saved location = .ok st')
    (hkey : path.components = location.components → saved = content) : Stored st' path content := by
  rw [DynStorage.eq_of_saveFile hsave]
  refine ⟨h.accepted, h.lookup, ?_⟩
  by_cases heq : path.components = location.components
  · rw [heq, Store.get_put_self, hkey heq]
  · exact (Store.get_put_of_ne _ _ heq).trans h.content

theorem wellFormed_storagePath (u : Upload format) : u.storagePath.WellFormed := by
  unfold Upload.storagePath buildPoolPath
  split_ifs
  · exact StoragePath.wellFormed_ofString _
  · exact (StoragePath.wellFormed_ofString _).push _

/-! ### Rows -/

def RowOk (format : DebFormat) (st : DynStorage) (v : DBProjectVersion VersionData) : Prop :=
  ∃ u : Upload format, v.extra = u.versionData ∧
    Stored st (.ofString v.extra.extra.filename) u.content

abbrev Hosted (format : DebFormat) := Pool DebHosted (Process format)

/-- The upload whose file has been saved, and whose row is going to be inserted. -/
def Stage.inFlight? : Stage format → Option (Upload format)
  | .findProject u | .insertProject u | .findVersion u _ | .insertVersion u _ => some u
  | _ => none

/-- The keys of the files that belong to a row, or will belong to one. -/
def poolKeys (p : Hosted format) : List (List String) :=
  p.shared.catalogue.versions.map
      (fun v => (StoragePath.ofString v.extra.extra.filename).components) ++
    p.processes.filterMap fun r => r.stage.inFlight?.map fun u => u.storagePath.components

def isRefused (c : Collation) (fails : Bool) (s : DebHosted) (stage : Stage format) : Bool :=
  match performStage c fails s stage with
  | .ok _ => false
  | .error _ => true

/-- The condition on a step: a file is saved at a path that can be opened again and belongs to no
other row, unless it is there already; an upload that has changed a file is not refused. -/
def stepOk (c : Collation) (p : Hosted format) (fails : Bool) (r : Process format) : Bool :=
  (!r.hasChanged || !isRefused c fails p.shared r.stage) &&
    match r.stage with
    | .saveFile u =>
      isRefused c fails p.shared r.stage ||
        (p.shared.storage.lookupKey? u.storagePath).isSome &&
          (p.shared.storage.objects.get u.storagePath.components == some u.content ||
            !(poolKeys p).contains u.storagePath.components)
    | _ => true

def debGuarded (c : Collation) (p : Hosted format) : Pool.Action UploadForm Bool → Bool
  | .start _ => true
  | .advance i fails => p.processes[i]?.all fun r => stepOk c p fails r

/-! ### What holds in every state -/

structure SharedOk (format : DebFormat) (s : DebHosted) : Prop where
  staging : Unstaged s.storage
  rows : ∀ v ∈ s.catalogue.versions, RowOk format s.storage v

def Process.isError (r : Process format) : Bool :=
  match r.stage with
  | .done (.error _) => true
  | _ => false

structure ProcessOk (s : DebHosted) (r : Process format) : Prop where
  saved : ∀ u, r.stage.inFlight? = some u → Stored s.storage u.storagePath u.content
  changed : r.hasChanged = true → r.isError = false

def debInvariant (format : DebFormat) : Pool.Invariant DebHosted (Process format) where
  shared := SharedOk format
  each := ProcessOk
  pair _ _ := True

/-! ### Steps -/

variable {p p' : Hosted format} {r r' : Process format} {s s' : DebHosted} {stage : Stage format}
  {fails : Bool}

theorem of_attempt {α : Type} {x : Except StorageError α} {a : α}
    (h : attempt fails x = .ok a) : x = .ok a := by
  unfold attempt at h
  split_ifs at h
  cases x with
  | error e => cases h
  | ok b => exact congrArg _ (Except.ok.inj h)

theorem of_attemptSql {α : Type} {x : Option α} {a : α} (h : attemptSql fails x = .ok a) :
    x = some a := by
  unfold attemptSql at h
  split_ifs at h
  cases x with
  | none => cases h
  | some b => exact congrArg _ (Except.ok.inj h)

theorem of_map {ε α β : Type} {x : Except ε α} {f : α → β} {b : β} (h : x.map f = .ok b) :
    ∃ a, x = .ok a ∧ f a = b := by
  cases x with
  | error e => cases h
  | ok a => exact ⟨a, rfl, Except.ok.inj h⟩

inductive Moves (c : Collation) (s : DebHosted) : Stage format → DebHosted → Stage format → Prop
  | saves {u : Upload format} {st : DynStorage}
      (h : s.storage.saveFile u.content u.storagePath = .ok st) :
      Moves c s (.saveFile u) { s with storage := st } (.findProject u)
  /-- The catalogue is looked up, or has a new project. -/
  | looks {stage stage' : Stage format} {db : Catalogue VersionData} {u : Upload format}
      (hu : stage.inFlight? = some u) (hu' : stage'.inFlight? = some u)
      (hversions : db.versions = s.catalogue.versions) :
      Moves c s stage { s with catalogue := db } stage'
  | inserts {u : Upload format} {projectId : ℕ} {db : Catalogue VersionData}
      (h : db.versions = s.catalogue.versions ++
        [⟨s.catalogue.nextId, projectId, u.version, u.storagePath.toString', u.versionData⟩]) :
      Moves c s (.insertVersion u projectId) { s with catalogue := db } (.recordFile u)
  | answers {u : Upload format} : Moves c s (.recordFile u) s (.done (.ok ()))

/-- **A step of an upload.** -/
theorem moves_of_perform (hdone : ∀ answer, stage ≠ .done answer) {stage' : Stage format}
    (h : performStage c fails s stage = .ok (s', stage')) : Moves c s stage s' stage' := by
  cases stage with
  | saveFile u =>
    obtain ⟨st, hsave, heq⟩ := of_map h
    obtain ⟨rfl, rfl⟩ := Prod.mk.inj heq
    exact .saves (of_attempt hsave)
  | findProject u =>
    obtain ⟨found, -, heq⟩ := of_map h
    cases found with
    | some project | none =>
      obtain ⟨rfl, rfl⟩ := Prod.mk.inj heq
      exact .looks rfl rfl rfl
  | insertProject u =>
    obtain ⟨⟨db, project⟩, hinsert, heq⟩ := of_map h
    obtain ⟨rfl, rfl⟩ := Prod.mk.inj heq
    obtain ⟨-, rfl, -⟩ := Catalogue.of_insertProject (of_attemptSql hinsert)
    exact .looks rfl rfl rfl
  | findVersion u projectId =>
    cases hfound : attemptSql fails
        (some (s.catalogue.findByVersionAndProject u.version projectId)) with
    | error e =>
      rw [performStage, hfound] at h
      cases h
    | ok found =>
      rw [performStage, hfound] at h
      cases found with
      | some v => cases h
      | none =>
        obtain ⟨rfl, rfl⟩ := Prod.mk.inj (Except.ok.inj h)
        exact .looks rfl rfl rfl
  | insertVersion u projectId =>
    obtain ⟨db, hinsert, heq⟩ := of_map h
    obtain ⟨rfl, rfl⟩ := Prod.mk.inj heq
    obtain ⟨rfl, -⟩ := Catalogue.of_insertVersion (of_attemptSql hinsert)
    exact .inserts rfl
  | recordFile u =>
    obtain ⟨_, -, heq⟩ := of_map h
    obtain ⟨rfl, rfl⟩ := Prod.mk.inj heq
    exact .answers
  | done answer => exact absurd rfl (hdone answer)

theorem next_cases (h : r.next c fails s = some (s', r')) :
    (∃ stage, Moves c s r.stage s' stage ∧ r' = ⟨stage, r.hasChanged || r.stage.changes s.storage⟩ ∧
      isRefused c fails s r.stage = false) ∨
      ∃ e, s' = s ∧ r' = { r with stage := .done (.error e) } ∧
        isRefused c fails s r.stage = true := by
  have hdone : ∀ answer, r.stage ≠ .done answer := by grind [Process.next]
  rw [isRefused]
  cases hperform : performStage c fails s r.stage with
  | error e => grind [Process.next]
  | ok result =>
    obtain ⟨rfl, rfl⟩ : result.1 = s' ∧
        ⟨result.2, r.hasChanged || r.stage.changes s.storage⟩ = r' := by grind [Process.next]
    exact .inl ⟨result.2, moves_of_perform hdone hperform, rfl, rfl⟩

structure Effect (p : Hosted format) (s' : DebHosted) (r' : Process format) : Prop where
  shared : SharedOk format s'
  ok : ProcessOk s' r'
  others : ∀ q ∈ p.processes, ∀ u, q.stage.inFlight? = some u →
    Stored p.shared.storage u.storagePath u.content → Stored s'.storage u.storagePath u.content

theorem lookupKey?_eq (h : (st.lookupKey? path).isSome = true) :
    st.lookupKey? path = some path.components := by
  grind [DynStorage.lookupKey?]

theorem effect_of_saves {hasChanged : Bool} (hs : SharedOk format p.shared)
    (hlookup : (p.shared.storage.lookupKey? u.storagePath).isSome = true)
    (hfree : p.shared.storage.objects.get u.storagePath.components = some u.content ∨
      u.storagePath.components ∉ poolKeys p)
    (h : p.shared.storage.saveFile u.content u.storagePath = .ok st) :
    Effect p { p.shared with storage := st } ⟨.findProject u, hasChanged⟩ := by
  have hkept : ∀ {path : StoragePath} {content : Bytes}, path.components ∈ poolKeys p →
      Stored p.shared.storage path content → Stored st path content := by
    intro path content hmem hstored
    refine hstored.of_saveFile h fun heq => ?_
    rcases hfree with hsame | hnot
    · rw [← heq, hstored.content] at hsame
      exact (Option.some.inj hsame).symm
    · exact absurd (heq ▸ hmem) hnot
  refine ⟨⟨fun key => ?_, fun v hv => ?_⟩, ⟨fun u' hu' => ?_, fun _ => rfl⟩,
    fun q hq u' hu' hstored => hkept ?_ hstored⟩
  · rw [DynStorage.eq_of_saveFile h]
    exact hs.staging key
  · obtain ⟨u', hdata, hstored⟩ := hs.rows v hv
    exact ⟨u', hdata, hkept (List.mem_append_left _ (List.mem_map.mpr ⟨v, hv, rfl⟩)) hstored⟩
  · obtain rfl := Option.some.inj hu'
    have hrejects := DynStorage.rejects_of_saveFile h
    rw [DynStorage.eq_of_saveFile h]
    exact ⟨hrejects, lookupKey?_eq hlookup, Store.get_put_self _ _ _⟩
  · refine List.mem_append_right _ (List.mem_filterMap.mpr ⟨q, hq, ?_⟩)
    rw [hu']
    rfl

/-- **A step under the condition.** -/
theorem effect_of_next (hs : SharedOk format p.shared) (hok : ProcessOk p.shared r)
    (hg : stepOk c p fails r = true) (hnext : r.next c fails p.shared = some (s', r')) :
    Effect p s' r' := by
  obtain ⟨hrefused, hsave⟩ := (Bool.and_eq_true _ _).mp hg
  rcases next_cases hnext with ⟨stage, hmoves, rfl, hnot⟩ | ⟨e, rfl, rfl, hyes⟩
  · have hsaved := hok.saved
    generalize r.stage = start at hmoves hsave hnot hsaved ⊢
    cases hmoves with
    | saves h =>
      simp_all [Bool.false_or, Bool.and_eq_true, Bool.or_eq_true, beq_iff_eq, effect_of_saves]
    | @looks _ _ db u hu hu' hversions =>
      refine ⟨⟨hs.staging, fun v hv => hs.rows v (hversions ▸ hv)⟩, ⟨fun u' heq => ?_, fun _ => ?_⟩,
        fun _ _ _ _ h => h⟩
      · obtain rfl := Option.some.inj (hu'.symm.trans heq)
        exact hsaved u hu
      · cases stage <;> first | rfl | cases hu'
    | @inserts u projectId db h =>
      refine ⟨⟨hs.staging, fun v hv => ?_⟩, ⟨nofun, fun _ => rfl⟩, fun _ _ _ _ h => h⟩
      rcases List.mem_append.mp (h ▸ hv) with hv | hv
      · exact hs.rows v hv
      · rw [List.mem_singleton.mp hv]
        exact ⟨u, rfl, (hsaved u rfl).toString' (wellFormed_storagePath u)⟩
    | answers => exact ⟨hs, ⟨nofun, fun _ => rfl⟩, fun _ _ _ _ h => h⟩
  · refine ⟨hs, ⟨nofun, fun hchanged => ?_⟩, fun _ _ _ _ h => h⟩
    rw [show r.hasChanged = true from hchanged, hyes] at hrefused
    cases hrefused

variable {a : Pool.Action UploadForm Bool}

theorem holds_of_step (h : Pool.Holds (debInvariant format) p) (hg : debGuarded c p a = true)
    (hstep : (debHosted format c config).step p a = some p') :
    Pool.Holds (debInvariant format) p' := by
  refine h.of_step hstep ?_ ?_
  · rintro form rfl
    refine ⟨?_, fun _ => ⟨trivial, trivial⟩⟩
    simp only [debHosted]
    split
    · exact ⟨nofun, nofun⟩
    · exact ⟨nofun, nofun⟩
  · rintro i fails r t q rfl hr hnext
    rw [debGuarded, hr] at hg
    have heffect := effect_of_next h.shared (h.each i r hr) hg hnext
    refine ⟨heffect.shared, heffect.ok, fun j q' _ hq' => ⟨⟨fun u hu => ?_, ?_⟩, trivial, trivial⟩⟩
    · exact heffect.others q' (List.mem_of_getElem? hq') u hu ((h.each j q' hq').saved u hu)
    · exact (h.each j q' hq').changed

/-! ### The pool and the rows -/

def emptyRepository (format : DebFormat) (backend : Backend) : Hosted format :=
  ⟨⟨⟨backend, ∅, ∅⟩, .empty⟩, []⟩

/-- Packages that are their own control files, with stand-ins for the digests. -/
def demoFormat : DebFormat where
  controlText := fromUtf8
  md5Hex _ := "d41d8cd98f00b204e9800998ecf8427e"
  sha1Hex _ := "da39a3ee5e6b4b0d3255bfef95601890afd80709"
  sha256Hex content := String.ofList (content.map fun b => Char.ofNat (97 + b.toNat % 6))

def demoConfig : DebHostedConfig := ⟨["stable"], ["main"], ["amd64", "all"]⟩

def demoUpload (version : String) (fileName : Option String) : UploadForm :=
  ⟨none, none, some (intoBytes ("Package: demo\nVersion: " ++ version ++ "\nArchitecture: all\n")),
    fileName⟩

/-- Two versions are uploaded at a time, and the first of them once more, which is refused. -/
def demoRun : List (Pool.Action UploadForm Bool) :=
  [.start (demoUpload "1" none), .start (demoUpload "1.1" none)] ++
    List.replicate 5 (.advance 0 false) ++ List.replicate 4 (.advance 1 false) ++
    [.advance 0 false, .advance 1 false, .start (demoUpload "1" none)] ++
    List.replicate 3 (.advance 2 false)

end Pkgly.Deb
