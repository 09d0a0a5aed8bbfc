import Mathlib.Data.List.Dedup
import Pkgly.Ruby.Hosted
import Pkgly.Storage.Equiv.DynStorage

/-!
# Writing the indexes of a Ruby repository

What the steps of `rebuild_indexes` leave in the storage.  `Describes` says what a file of the index
is for a list of rows, `covers` which files the steps that are left are going to handle, and
`indexEffect_of_perform` that a step either leaves a file to the steps after it or makes it describe
the rows that were loaded.
-/

namespace Pkgly.Ruby

/-! ### Paths -/

/-- The name of a gem whose `info` file lies directly in its directory and is listed there. -/
def isFileName (name : String) : Bool :=
  !('/' ∈ name.toList) && name != "" && !Objects.isHiddenName name &&
    !containsText ".nr-meta.tmp-" name

variable {name : String} {path : StoragePath}

theorem isFileName_iff : isFileName name = true ↔
    '/' ∉ name.toList ∧ name ≠ "" ∧ Objects.isHiddenName name = false ∧
      containsText ".nr-meta.tmp-" name = false := by
  simp [isFileName, and_assoc]

theorem components_infoPath (h : isFileName name = true) :
    (infoPath name).components = ["info", name] := by
  obtain ⟨hsep, hne, -⟩ := isFileName_iff.mp h
  have hpath : "info/" ++ name = "info" ++ ("/" ++ name) := by
    refine String.toList_inj.mp ?_
    simp
  have hinfo : segments '/' "info" = ["info"] := by decide
  have hname : name.toList ≠ [] := fun hnil => hne (String.toList_inj.mp hnil)
  rw [infoPath, hpath, StoragePath.components_ofString, StoragePath.segments_slash, hinfo,
    segments_eq_singleton hsep hname]
  rfl

def IsGemKey (key : List String) : Prop := key.head? = some "gems"

variable {c : Collation} {format : RubyFormat} {request : Request}

theorem isGemKey_gemPath : IsGemKey (request.gemPath c).components := by
  have hpath : "gems/" ++ request.fileName c = "gems" ++ ("/" ++ request.fileName c) := by
    refine String.toList_inj.mp ?_
    simp
  have hgems : segments '/' "gems" = ["gems"] := by decide
  rw [IsGemKey, Request.gemPath, hpath, StoragePath.components_ofString,
    StoragePath.segments_slash, hgems]
  rfl

theorem components_gemPath_toString' : (StoragePath.ofString (request.gemPath c).toString').components =
    (request.gemPath c).components :=
  (StoragePath.components_ofString _).trans
    (StoragePath.WellFormed.segments_toString' (StoragePath.wellFormed_ofString _))

inductive IndexFile
  | names
  | versions
  | info (gemKey : String)
  | specs

def IndexFile.key : IndexFile → List String
  | .names => ["names"]
  | .versions => ["versions"]
  | .info gemKey => ["info", gemKey]
  | .specs => ["specs.4.8.gz"]

theorem components_namesPath : namesPath.components = ["names"] := by decide

theorem components_versionsPath : versionsPath.components = ["versions"] := by decide

theorem components_specsPath : specsPath.components = ["specs.4.8.gz"] := by decide

theorem IndexFile.not_isGemKey (file : IndexFile) : ¬ IsGemKey file.key := by
  cases file <;> simp [IsGemKey, IndexFile.key]

/-! ### The rows -/

/-- What holds of the rows of the repository. -/
structure CatalogueOk (db : Catalogue RubyPackageMetadata) : Prop where
  owner : ∀ v ∈ db.versions, ∃ p ∈ db.projects, p.id = v.projectId
  project_lt : ∀ p ∈ db.projects, p.id < db.nextId
  version_lt : ∀ v ∈ db.versions, v.id < db.nextId
  unique : ∀ p ∈ db.projects, ∀ q ∈ db.projects, p.id = q.id → p = q
  name : ∀ p ∈ db.projects, isFileName p.key = true
  path : ∀ v ∈ db.versions, IsGemKey (StoragePath.ofString v.path).components

theorem catalogueOk_empty : CatalogueOk .empty where
  owner _ h := absurd h List.not_mem_nil
  project_lt _ h := absurd h List.not_mem_nil
  version_lt _ h := absurd h List.not_mem_nil
  unique _ h := absurd h List.not_mem_nil
  name _ h := absurd h List.not_mem_nil
  path _ h := absurd h List.not_mem_nil

/-- Rows come and go; those that are new have new ids. -/
structure Extends (db db' : Catalogue RubyPackageMetadata) : Prop where
  nextId_le : db.nextId ≤ db'.nextId
  projects : ∀ p ∈ db'.projects, p ∈ db.projects ∨ db.nextId ≤ p.id
  versions : ∀ v ∈ db'.versions, v ∈ db.versions ∨ db.nextId ≤ v.id

theorem Extends.refl (db : Catalogue RubyPackageMetadata) : Extends db db :=
  ⟨le_rfl, fun _ => .inl, fun _ => .inl⟩

variable {db db' : Catalogue RubyPackageMetadata}

theorem mem_loadCompactIndexRows {row : RubyCompactIndexRow} : row ∈ loadCompactIndexRows db ↔
    ∃ v ∈ db.versions, ∃ p ∈ db.projects, p.id = v.projectId ∧
      row = ⟨p.key, p.key, v.version, v.extra⟩ := by
  simp only [loadCompactIndexRows, List.mem_flatMap, List.mem_map, List.mem_filter, beq_iff_eq]
  grind

theorem of_insertProject {p : DBProject} {key path : String} (hok : CatalogueOk db)
    (hkey : isFileName key = true) (h : db.insertProject c key path = some (db', p)) :
    CatalogueOk db' ∧ Extends db db' ∧ loadCompactIndexRows db' = loadCompactIndexRows db ∧
      p.id < db'.nextId ∧ (∀ q ∈ db'.projects, q.id = p.id → q.key = key) ∧
      db'.versions = db.versions := by
  obtain ⟨rfl, rfl, -⟩ := Catalogue.of_insertProject h
  have hmem : ∀ {q : DBProject}, q ∈ db.projects ++ [(⟨db.nextId, key, path⟩ : DBProject)] →
      q ∈ db.projects ∨ q = ⟨db.nextId, key, path⟩ := by simp
  refine ⟨⟨fun v hv => ?_, fun q hq => ?_, fun v hv => ?_, fun q hq q' hq' hid => ?_,
    fun q hq => ?_, hok.path⟩, ⟨Nat.le_succ _, fun q hq => ?_, fun _ => .inl⟩, ?_, Nat.lt_succ_self _, fun q hq hid => ?_, rfl⟩
  · obtain ⟨q, hq, hid⟩ := hok.owner v hv
    exact ⟨q, List.mem_append_left _ hq, hid⟩
  · rcases hmem hq with hq | rfl
    · exact Nat.lt_succ_of_lt (hok.project_lt q hq)
    · exact Nat.lt_succ_self _
  · exact Nat.lt_succ_of_lt (hok.version_lt v hv)
  · rcases hmem hq with hq | rfl
    · rcases hmem hq' with hq' | rfl
      · exact hok.unique q hq q' hq' hid
      · exact absurd hid (Nat.ne_of_lt (hok.project_lt q hq))
    · rcases hmem hq' with hq' | rfl
      · exact absurd hid.symm (Nat.ne_of_lt (hok.project_lt q' hq'))
      · rfl
  · rcases hmem hq with hq | rfl
    · exact hok.name q hq
    · exact hkey
  · rcases hmem hq with hq | rfl
    · exact .inl hq
    · exact .inr le_rfl
  · refine List.flatMap_congr fun v hv => ?_
    obtain ⟨q, hq, hid⟩ := hok.owner v hv
    have hne : ¬ db.nextId = v.projectId := by
      have hlt := hok.project_lt q hq
      omega
    grind
  · rcases hmem hq with hq | rfl
    · exact absurd hid (Nat.ne_of_lt (hok.project_lt q hq))
    · rfl

theorem of_insertVersion {pid : ℕ} {version path : String} {extra : RubyPackageMetadata}
    (hok : CatalogueOk db) (hpath : IsGemKey (StoragePath.ofString path).components)
    (h : db.insertVersion c pid version path extra = some db') :
    CatalogueOk db' ∧ Extends db db' ∧ db.nextId < db'.nextId ∧ db'.projects = db.projects ∧
      db'.versions = db.versions ++ [⟨db.nextId, pid, version, path, extra⟩] := by
  obtain ⟨rfl, p, hp, hid⟩ := Catalogue.of_insertVersion h
  have hmem : ∀ {v : DBProjectVersion RubyPackageMetadata},
      v ∈ db.versions ++ [⟨db.nextId, pid, version, path, extra⟩] →
        v ∈ db.versions ∨ v = ⟨db.nextId, pid, version, path, extra⟩ := by simp
  refine ⟨⟨fun v hv => ?_, fun q hq => Nat.lt_succ_of_lt (hok.project_lt q hq), fun v hv => ?_,
    hok.unique, hok.name, fun v hv => ?_⟩, ⟨Nat.le_succ _, fun _ => .inl, fun v hv => ?_⟩,
    Nat.lt_succ_self _, rfl, rfl⟩
  · rcases hmem hv with hv | rfl
    · exact hok.owner v hv
    · exact ⟨p, hp, hid⟩
  · rcases hmem hv with hv | rfl
    · exact Nat.lt_succ_of_lt (hok.version_lt v hv)
    · exact Nat.lt_succ_self _
  · rcases hmem hv with hv | rfl
    · exact hok.path v hv
    · exact hpath
  · rcases hmem hv with hv | rfl
    · exact .inl hv
    · exact .inr le_rfl

theorem of_deleteVersion (hok : CatalogueOk db) (id : ℕ) :
    CatalogueOk (db.deleteVersion id) ∧ Extends db (db.deleteVersion id) ∧
      ∀ v, v ∈ (db.deleteVersion id).versions ↔ v ∈ db.versions ∧ v.id ≠ id := by
  have hmem : ∀ v, v ∈ (db.deleteVersion id).versions ↔ v ∈ db.versions ∧ v.id ≠ id := by
    intro v
    rw [Catalogue.deleteVersion, List.mem_filter, decide_eq_true_iff]
  exact ⟨⟨fun v hv => hok.owner v ((hmem v).mp hv).1, hok.project_lt,
    fun v hv => hok.version_lt v ((hmem v).mp hv).1, hok.unique, hok.name,
    fun v hv => hok.path v ((hmem v).mp hv).1⟩,
    ⟨le_rfl, fun _ => .inl, fun v hv => .inl ((hmem v).mp hv).1⟩, hmem⟩

theorem of_deleteProject (hok : CatalogueOk db) {id : ℕ} (hnone : db.countVersions id = 0) :
    CatalogueOk (db.deleteProject id) ∧ Extends db (db.deleteProject id) ∧
      (db.deleteProject id).versions = db.versions := by
  have hkept : ∀ v ∈ db.versions, v.projectId ≠ id := by
    intro v hv hid
    have hpos : 0 < db.countVersions id :=
      List.countP_pos_iff.mpr ⟨v, hv, beq_iff_eq.mpr hid⟩
    omega
  have hversions : (db.deleteProject id).versions = db.versions :=
    List.filter_eq_self.mpr fun v hv => decide_eq_true (hkept v hv)
  have hprojects : ∀ p ∈ (db.deleteProject id).projects, p ∈ db.projects := fun p hp =>
    (List.mem_filter.mp hp).1
  refine ⟨⟨fun v hv => ?_, fun p hp => hok.project_lt p (hprojects p hp), fun v hv => ?_,
    fun p hp q hq => hok.unique p (hprojects p hp) q (hprojects q hq),
    fun p hp => hok.name p (hprojects p hp), fun v hv => ?_⟩,
    ⟨le_rfl, fun p hp => .inl (hprojects p hp), fun v hv => .inl (hversions ▸ hv)⟩, hversions⟩
  · rw [hversions] at hv
    obtain ⟨p, hp, hid⟩ := hok.owner v hv
    grind [decide_eq_true, Catalogue.deleteProject]
  · rw [hversions] at hv
    exact hok.version_lt v hv
  · rw [hversions] at hv
    exact hok.path v hv

theorem CatalogueOk.isFileName (hok : CatalogueOk db)
    (h : name ∈ (loadCompactIndexRows db).map RubyCompactIndexRow.gemKey) :
    Ruby.isFileName name = true := by
  obtain ⟨row, hrow, rfl⟩ := List.mem_map.mp h
  obtain ⟨v, -, p, hp, -, rfl⟩ := mem_loadCompactIndexRows.mp hrow
  exact hok.name p hp

/-! ### The index files -/

variable {rows : List RubyCompactIndexRow} {artifacts : CompactIndexArtifacts}

def Describes (format : RubyFormat) (rows : List RubyCompactIndexRow) (content : Option Bytes) :
    IndexFile → Prop
  | .names => ∃ createdAt artifacts,
      buildCompactIndexArtifacts format.md5Hex createdAt rows = .ok artifacts ∧
        content = some (intoBytes artifacts.names)
  | .versions => ∃ createdAt artifacts,
      buildCompactIndexArtifacts format.md5Hex createdAt rows = .ok artifacts ∧
        content = some (intoBytes artifacts.versions)
  | .info gemKey => ∃ createdAt artifacts,
      buildCompactIndexArtifacts format.md5Hex createdAt rows = .ok artifacts ∧
        content = (artifacts.infos.lookup gemKey).map intoBytes
  | .specs => ∃ specs, specsBytes format rows = some specs ∧ content = some specs.1

/-- The file describes the rows; as long as there are none, it need not exist. -/
def IndexOk (format : RubyFormat) (rows : List RubyCompactIndexRow) (st : DynStorage)
    (file : IndexFile) : Prop :=
  rows = [] ∧ st.objects.get file.key = none ∨ Describes format rows (st.objects.get file.key) file

/-- The files below `info`. -/
def InfosOk (st : DynStorage) : Prop :=
  ∀ rest, st.objects.get ("info" :: rest) ≠ none → ∃ name, rest = [name] ∧ isFileName name = true

def covers (left : List IndexStep) : IndexFile → Prop
  | .names => .saveNames ∈ left
  | .versions => .saveVersions ∈ left
  | .info gemKey => .listInfos ∈ left ∨ .deleteInfo gemKey ∈ left ∨
      ∃ info, .saveInfo gemKey info ∈ left
  | .specs => .saveSpecs ∈ left

structure WritingOk (format : RubyFormat) (rows : List RubyCompactIndexRow)
    (artifacts : CompactIndexArtifacts) (left : List IndexStep) : Prop where
  built : ∃ createdAt, buildCompactIndexArtifacts format.md5Hex createdAt rows = .ok artifacts
  name : ∀ gemKey ∈ artifacts.infos.map Prod.fst, isFileName gemKey = true
  saved : ∀ gemKey info, .saveInfo gemKey info ∈ left → (gemKey, info) ∈ artifacts.infos
  stale : ∀ gemKey, .deleteInfo gemKey ∈ left →
    gemKey ∉ artifacts.infos.map Prod.fst ∧ isFileName gemKey = true
  listed : ∀ back, (.listInfos :: back) <:+ left →
    ∀ info ∈ artifacts.infos, .saveInfo info.1 info.2 ∈ back

theorem suffix_of_append {α : Type} {x : α} {front left back : List α} (hx : x ∉ front)
    (h : (x :: back) <:+ front ++ left) : (x :: back) <:+ left := by
  obtain ⟨pre, hpre⟩ := h
  rcases List.append_eq_append_iff.mp hpre with ⟨middle, hfront, hback⟩ | ⟨middle, -, hleft⟩
  · cases middle with
    | nil => exact ⟨[], hback⟩
    | cons y middle =>
      grind
  · exact ⟨middle, hleft.symm⟩

theorem lookup_of_mem {infos : List (String × String)} (h : (infos.map Prod.fst).Nodup)
    {gemKey info : String} (hmem : (gemKey, info) ∈ infos) :
    infos.lookup gemKey = some info := by
  induction infos with
  | nil => cases hmem
  | cons head infos ih =>
    grind

theorem lookup_of_not_mem {infos : List (String × String)} {gemKey : String}
    (h : gemKey ∉ infos.map Prod.fst) : infos.lookup gemKey = none := by
  grind

theorem writingOk_indexSteps {now : String}
    (h : buildCompactIndexArtifacts format.md5Hex now rows = .ok artifacts)
    (hname : ∀ gemKey ∈ rows.map RubyCompactIndexRow.gemKey, isFileName gemKey = true) :
    WritingOk format rows artifacts (indexSteps artifacts) where
  built := ⟨now, h⟩
  name gemKey hkey := hname gemKey ((mem_infos_iff h gemKey).mp hkey)
  saved gemKey info hmem := by
    simpa [indexSteps] using hmem
  stale gemKey hmem := by
    simp [indexSteps] at hmem
  listed back hback info hinfo := by
    have hback' : (.listInfos :: back) <:+ [.saveNames, .saveVersions] ++ (.listInfos ::
        (artifacts.infos.map (fun info => IndexStep.saveInfo info.1 info.2) ++
          [.saveSpecs, .saveLatestSpecs, .savePrereleaseSpecs])) := by
      simpa [indexSteps] using hback
    have hmem : IndexStep.saveInfo info.1 info.2 ∈
        artifacts.infos.map (fun info => IndexStep.saveInfo info.1 info.2) :=
      List.mem_map.mpr ⟨info, hinfo, rfl⟩
    rcases List.suffix_cons_iff.mp (suffix_of_append (by simp) hback') with heq | hback''
    · rw [(List.cons.inj heq).2]
      exact List.mem_append_left _ hmem
    · have habsurd := hback''.subset List.mem_cons_self
      simp at habsurd

theorem covers_indexSteps (artifacts : CompactIndexArtifacts) (file : IndexFile) :
    covers (indexSteps artifacts) file := by
  cases file <;> simp [covers, indexSteps]

theorem mem_staleInfos {files : List (String × Bool)} : name ∈ staleInfos artifacts files ↔
      (name, true) ∈ files ∧ name ∉ artifacts.infos.map Prod.fst := by
  rw [staleInfos, List.mem_map]
  simp

variable {st st' : DynStorage}

theorem mem_streamDirectory (hinfos : InfosOk st) {files : Option (List (String × Bool))}
    (h : st.streamDirectory (.ofString "info/") = .ok files) :
    (name, true) ∈ files.getD [] ↔ st.objects.get ["info", name] ≠ none := by
  have hcomponents : (StoragePath.ofString "info/").components = ["info"] := by decide
  have hdirectory : st.objects.get ["info"] = none := by
    by_contra hsome
    obtain ⟨_, hrest, -⟩ := hinfos [] hsome
    cases hrest
  have hlookup : (st.lookupKey? (.ofString "info/")).bind st.objects.get = none := by grind [DynStorage.lookupKey?]
  have hkey : ["info", name] ∈ st.objects.keys ↔ st.objects.get ["info", name] ≠ none := by
    rw [Store.mem_keys_iff, ← Option.isSome_iff_exists, Option.isSome_iff_ne_none]
  rw [DynStorage.streamDirectory, hlookup, hcomponents] at h
  dsimp only at h
  split_ifs at h with hrejects hdir
  · obtain rfl := Except.ok.inj h
    rw [Option.getD_some, List.mem_filter, Objects.children, List.mem_dedup, List.mem_filterMap]
    constructor
    · rintro ⟨⟨key, hmem, hchild⟩, -⟩
      split_ifs at hchild with hbelow
      obtain ⟨hlies, -⟩ := (Bool.and_eq_true _ _).mp hbelow
      obtain ⟨rest, rfl⟩ := List.isPrefixOf_iff_prefix.mp hlies
      grind
    · intro hsome
      obtain ⟨name', hrest, hname'⟩ := hinfos [name] hsome
      obtain rfl := (List.cons.inj hrest).1
      obtain ⟨-, -, hhidden, htemporary⟩ := isFileName_iff.mp hname'
      refine ⟨⟨["info", name], hkey.mpr hsome, ?_⟩, ?_⟩
      · rw [if_pos (by simp [Objects.below])]
        simp [hhidden]
      · simp [DynStorage.hides, hhidden, htemporary]
  · obtain rfl := Except.ok.inj h
    refine iff_of_false List.not_mem_nil fun hsome => hdir ?_
    grind [Objects.isDir, List.any_eq_true, Objects.below]

/-! ### One step of writing the indexes -/

variable {tick : Tick} {step : IndexStep} {left front : List IndexStep}

theorem of_attempt {α : Type} {x : Except StorageError α} {a : α} (h : attempt tick x = some a) :
    x = .ok a := by
  unfold attempt at h
  split_ifs at h
  cases x with
  | error e => cases h
  | ok b => exact congrArg _ (Option.some.inj h)

theorem of_attemptSql {α : Type} {x : Option α} {a : α} (h : attemptSql tick x = some a) :
    x = some a := by
  unfold attemptSql at h
  split_ifs at h
  exact h

theorem get_of_saveFile {content : Bytes}
    (h : st.saveFile content path = .ok st') (key : List String) :
    st'.objects.get key = if key = path.components then some content else st.objects.get key := by
  rw [DynStorage.eq_of_saveFile h]
  exact Store.get_put _ _ _ _

theorem prefix_of_deletes {backend : Backend} {key : List String}
    (h : DynStorage.deletes backend path key = true) : path.components <+: key := by
  unfold DynStorage.deletes at h
  grind

theorem deletes_infoPath {backend : Backend} (h : isFileName name = true) :
    DynStorage.deletes backend (infoPath name) ["info", name] = true := by
  have hdirectory : (infoPath name).isDirectory = false := by
    rw [← Bool.not_eq_true]
    intro hdirectory
    obtain ⟨stem, hstem⟩ := StoragePath.exists_of_isDirectory hdirectory
    obtain ⟨hsep, hne, -⟩ := isFileName_iff.mp h
    have hlast := congrArg (fun s => s.toList.getLast?) hstem
    have hname : name.toList ≠ [] := fun hnil => hne (String.toList_inj.mp hnil)
    simp only [String.toList_append, List.getLast?_append_of_ne_nil _ hname] at hlast
    refine hsep (List.mem_of_getLast? (hlast.trans ?_))
    simp
  unfold DynStorage.deletes
  rw [components_infoPath h, hdirectory]
  cases backend <;> simp

/-- The step is for one of the files that are promised; the other two lists of specs are not. -/
def IndexStep.isPromised : IndexStep → Bool
  | .saveLatestSpecs | .savePrereleaseSpecs => false
  | _ => true

structure IndexEffect (format : RubyFormat) (rows : List RubyCompactIndexRow)
    (artifacts : CompactIndexArtifacts) (step : IndexStep) (left : List IndexStep)
    (st st' : DynStorage) (front : List IndexStep) : Prop where
  infos : InfosOk st'
  gems : ∀ key, IsGemKey key → st'.objects.get key = st.objects.get key
  files : ∀ file : IndexFile, st'.objects.get file.key = st.objects.get file.key ∨
    step.isPromised = true ∧ Describes format rows (st'.objects.get file.key) file
  owed : ∀ file, covers (step :: left) file → covers (front ++ left) file ∨
    step.isPromised = true ∧ Describes format rows (st'.objects.get file.key) file
  writing : WritingOk format rows artifacts (front ++ left)

theorem WritingOk.tail (h : WritingOk format rows artifacts (step :: left)) :
    WritingOk format rows artifacts left where
  built := h.built
  name := h.name
  saved gemKey info hmem := h.saved gemKey info (List.mem_cons_of_mem _ hmem)
  stale gemKey hmem := h.stale gemKey (List.mem_cons_of_mem _ hmem)
  listed back hback := h.listed back (hback.trans (List.suffix_cons _ _))

theorem indexEffect_of_save (file : IndexFile) {content : Bytes}
    (hw : WritingOk format rows artifacts (step :: left)) (hinfos : InfosOk st)
    (h : st.saveFile content path = .ok st') (hkey : path.components = file.key)
    (hname : ∀ gemKey, file = .info gemKey → isFileName gemKey = true)
    (hcontent : Describes format rows (some content) file) (hstep : step.isPromised = true)
    (howed : ∀ other, other.key ≠ file.key → covers (step :: left) other → covers left other) :
    IndexEffect format rows artifacts step left st st' [] := by
  have hget := get_of_saveFile h
  rw [hkey] at hget
  have hfile : ∀ other : IndexFile, other.key = file.key → other = file := by
    intro other heq
    cases file <;> cases other <;> simp_all [IndexFile.key]
  have hwritten : ∀ other : IndexFile, other.key = file.key →
      Describes format rows (st'.objects.get other.key) other := by grind
  refine ⟨fun rest hrest => ?_, fun key hkey' => ?_, fun other => ?_, fun other hcovers => ?_,
    hw.tail⟩
  · rw [hget] at hrest
    split_ifs at hrest with heq
    · cases file with
      | info gemKey =>
        exact ⟨gemKey, (List.cons.inj heq).2, hname gemKey rfl⟩
      | _ => simp [IndexFile.key] at heq
    · exact hinfos rest hrest
  · rw [hget, if_neg]
    rintro rfl
    exact file.not_isGemKey hkey'
  · grind
  grind

theorem indexEffect_of_save_other {content : Bytes}
    (hw : WritingOk format rows artifacts (step :: left)) (hinfos : InfosOk st)
    (h : st.saveFile content path = .ok st') (hkey : path.components = [name])
    (hname : name ∉ ["gems", "info", "names", "versions", "specs.4.8.gz"])
    (howed : ∀ file, covers (step :: left) file → covers left file) :
    IndexEffect format rows artifacts step left st st' [] := by
  simp only [List.mem_cons, List.not_mem_nil, or_false, not_or] at hname
  obtain ⟨hgems, hinfo, hnames, hversions, hspecs⟩ := hname
  have hget := get_of_saveFile h
  rw [hkey] at hget
  refine ⟨fun rest hrest => ?_, fun key hkey' => ?_, fun file => .inl ?_, fun file hcovers =>
    .inl (howed file hcovers), hw.tail⟩
  · rw [hget, if_neg fun heq => hinfo (List.cons.inj heq).1.symm] at hrest
    exact hinfos rest hrest
  · rw [hget, if_neg]
    rintro rfl
    exact hgems (Option.some.inj hkey')
  · rw [hget, if_neg]
    intro heq
    cases file <;> simp_all [IndexFile.key]

/-- **One step of writing the indexes**: the files that it handles describe the rows, the others are
left as they are, and the steps that remain cover what it has not handled. -/
theorem indexEffect_of_perform (hw : WritingOk format rows artifacts (step :: left))
    (hinfos : InfosOk st)
    (h : performIndexStep format tick st rows artifacts step = some (st', front)) :
    IndexEffect format rows artifacts step left st st' front := by
  obtain ⟨now, hbuilt⟩ := hw.built
  cases step with
  | saveNames =>
    obtain ⟨_, hsave, heq⟩ := Option.map_eq_some_iff.mp h
    obtain ⟨rfl, rfl⟩ := Prod.mk.inj heq
    refine indexEffect_of_save .names hw hinfos (of_attempt hsave) components_namesPath
      (fun _ h => by cases h) ⟨now, artifacts, hbuilt, rfl⟩ rfl fun other hne hcovers => ?_
    cases other <;> simp_all [covers]
  | saveVersions =>
    obtain ⟨_, hsave, heq⟩ := Option.map_eq_some_iff.mp h
    obtain ⟨rfl, rfl⟩ := Prod.mk.inj heq
    refine indexEffect_of_save .versions hw hinfos (of_attempt hsave) components_versionsPath
      (fun _ h => by cases h) ⟨now, artifacts, hbuilt, rfl⟩ rfl fun other hne hcovers => ?_
    cases other <;> simp_all [covers]
  | saveInfo gemKey info =>
    obtain ⟨_, hsave, heq⟩ := Option.map_eq_some_iff.mp h
    obtain ⟨rfl, rfl⟩ := Prod.mk.inj heq
    have hmem := hw.saved gemKey info List.mem_cons_self
    have hname := hw.name gemKey (List.mem_map.mpr ⟨_, hmem, rfl⟩)
    refine indexEffect_of_save (.info gemKey) hw hinfos (of_attempt hsave)
      (components_infoPath hname) (fun other heq => ?_) ⟨now, artifacts, hbuilt, ?_⟩ rfl
      fun other hne hcovers => ?_
    · obtain rfl := IndexFile.info.inj heq
      exact hname
    · rw [lookup_of_mem (nodup_infos hbuilt) hmem]
      rfl
    · cases other <;> simp_all [covers, IndexFile.key]
  | saveSpecs =>
    obtain ⟨specs, hspecs, hmap⟩ := Option.bind_eq_some_iff.mp h
    obtain ⟨_, hsave, heq⟩ := Option.map_eq_some_iff.mp hmap
    obtain ⟨rfl, rfl⟩ := Prod.mk.inj heq
    refine indexEffect_of_save .specs hw hinfos (of_attempt hsave) components_specsPath
      (fun _ h => by cases h) ⟨specs, hspecs, rfl⟩ rfl fun other hne hcovers => ?_
    cases other <;> simp_all [covers]
  | saveLatestSpecs =>
    obtain ⟨specs, -, hmap⟩ := Option.bind_eq_some_iff.mp h
    obtain ⟨_, hsave, heq⟩ := Option.map_eq_some_iff.mp hmap
    obtain ⟨rfl, rfl⟩ := Prod.mk.inj heq
    have hkey : (StoragePath.ofString "latest_specs.4.8.gz").components =
        ["latest_specs.4.8.gz"] := by decide
    refine indexEffect_of_save_other hw hinfos (of_attempt hsave) hkey (by decide)
      fun file hcovers => ?_
    cases file <;> simp_all [covers]
  | savePrereleaseSpecs =>
    obtain ⟨specs, -, hmap⟩ := Option.bind_eq_some_iff.mp h
    obtain ⟨_, hsave, heq⟩ := Option.map_eq_some_iff.mp hmap
    obtain ⟨rfl, rfl⟩ := Prod.mk.inj heq
    have hkey : (StoragePath.ofString "prerelease_specs.4.8.gz").components =
        ["prerelease_specs.4.8.gz"] := by decide
    refine indexEffect_of_save_other hw hinfos (of_attempt hsave) hkey (by decide)
      fun file hcovers => ?_
    cases file <;> simp_all [covers]
  | deleteInfo name =>
    obtain ⟨⟨_, found⟩, hdelete, heq⟩ := Option.map_eq_some_iff.mp h
    obtain ⟨rfl, rfl⟩ := Prod.mk.inj heq
    obtain ⟨hstale, hname⟩ := hw.stale name List.mem_cons_self
    obtain rfl := DynStorage.eq_of_deleteFile (of_attempt hdelete)
    have hget : ∀ key, (st.erase (infoPath name)).objects.get key =
        if DynStorage.deletes st.backend (infoPath name) key then none
        else st.objects.get key := DynStorage.get_erase
    have hlies : ∀ {key}, DynStorage.deletes st.backend (infoPath name) key = true →
        ["info", name] <+: key := by grind [components_infoPath, prefix_of_deletes]
    have hgone : Describes format rows
        ((st.erase (infoPath name)).objects.get ["info", name]) (.info name) := by
      refine ⟨now, artifacts, hbuilt, ?_⟩
      rw [hget, if_pos (deletes_infoPath hname), lookup_of_not_mem hstale]
      rfl
    refine ⟨fun rest hrest => ?_, fun key hkey => ?_, fun file => ?_, fun file hcovers => ?_,
      hw.tail⟩
    · rw [hget] at hrest
      split_ifs at hrest
      · exact absurd rfl hrest
      · exact hinfos rest hrest
    · rw [hget, if_neg]
      intro hdeletes
      obtain ⟨rest, rfl⟩ := hlies hdeletes
      exact absurd (Option.some.inj hkey) (by decide)
    · by_cases hdeletes : DynStorage.deletes st.backend (infoPath name) file.key = true
      · obtain ⟨rest, hrest⟩ := hlies hdeletes
        cases file with
        | info gemKey =>
          obtain rfl : name = gemKey := by
            simpa [IndexFile.key] using (List.cons.inj (List.cons.inj hrest).2).1
          exact .inr ⟨rfl, hgone⟩
        | _ => simp [IndexFile.key] at hrest
      · rw [hget, if_neg hdeletes]
        exact .inl rfl
    · cases file with
      | info gemKey =>
        by_cases heq : gemKey = name
        · subst heq
          exact .inr ⟨rfl, hgone⟩
        · left
          simpa [covers, heq] using hcovers
      | _ =>
        left
        simpa [covers] using hcovers
  | listInfos =>
    obtain ⟨files, hlist, heq⟩ := Option.map_eq_some_iff.mp h
    obtain ⟨rfl, rfl⟩ := Prod.mk.inj heq
    have hlisted : ∀ name, (name, true) ∈ files.getD [] ↔ st.objects.get ["info", name] ≠ none :=
      fun _ => mem_streamDirectory hinfos (of_attempt hlist)
    have hfront : ∀ other, (∀ name, other ≠ .deleteInfo name) →
        other ∉ (staleInfos artifacts (files.getD [])).map IndexStep.deleteInfo := by grind
    refine ⟨hinfos, fun _ _ => rfl, fun _ => .inl rfl, fun file hcovers => ?_, ?_⟩
    · cases file with
      | info gemKey =>
        by_cases hmem : gemKey ∈ artifacts.infos.map Prod.fst
        · obtain ⟨info, hinfo, rfl⟩ := List.mem_map.mp hmem
          exact .inl (.inr (.inr ⟨info.2, List.mem_append_right _
            (hw.listed left (List.suffix_refl _) info hinfo)⟩))
        · by_cases hnone : st.objects.get ["info", gemKey] = none
          · refine .inr ⟨rfl, now, artifacts, hbuilt, ?_⟩
            rw [lookup_of_not_mem hmem]
            exact hnone
          · refine .inl (.inr (.inl (List.mem_append_left _ (List.mem_map_of_mem ?_))))
            exact mem_staleInfos.mpr ⟨(hlisted gemKey).mpr hnone, hmem⟩
      | _ =>
        refine .inl (List.mem_append_right _ ?_)
        simpa [covers] using hcovers
    · refine ⟨hw.built, hw.name, fun gemKey info hmem => ?_, fun gemKey hmem => ?_,
        fun back hback => ?_⟩
      · rcases List.mem_append.mp hmem with hmem | hmem
        · exact absurd hmem (hfront _ fun _ => nofun)
        · exact hw.tail.saved gemKey info hmem
      · rcases List.mem_append.mp hmem with hmem | hmem
        · obtain ⟨name, hname, heq⟩ := List.mem_map.mp hmem
          obtain rfl := IndexStep.deleteInfo.inj heq
          obtain ⟨hlist, hnot⟩ := mem_staleInfos.mp hname
          obtain ⟨_, hrest, hfile⟩ := hinfos [name] ((hlisted name).mp hlist)
          obtain rfl := (List.cons.inj hrest).1
          exact ⟨hnot, hfile⟩
        · exact hw.tail.stale gemKey hmem
      · exact hw.tail.listed back (suffix_of_append (hfront _ fun _ => nofun) hback)

end Pkgly.Ruby
