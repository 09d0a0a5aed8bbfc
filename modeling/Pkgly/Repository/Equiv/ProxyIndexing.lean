import Mathlib.Data.List.DropRight
import Pkgly.Algorithm.Run
import Pkgly.Repository.ProxyIndexing

/-!
# Catalogue rows and cached files of a proxy

A row of the catalogue stands for the cached files of one version.  It is there iff one of them is
cached, and the eviction of a file leaves the rows of the others, in a run in which no file is
evicted beside another one of its version, and every file that is recorded finds a place in the
catalogue (`catalogue_follows`).  The eviction of one of two files of a version deletes the row of
both (`not_catalogueFollows_sibling`).
-/

namespace Pkgly.Proxy

/-- A collation whose lower case of paths is stable, and keeps their slashes. -/
structure PathCollation extends Collation where
  lowerPath_toLowercase : ∀ a, lowerPath (toLowercase a) = toLowercase a
  trimEndSlashes_toLowercase : ∀ a, Packages.trimEndSlashes (toLowercase a).toList =
    (toLowercase (String.ofList (Packages.trimEndSlashes a.toList))).toList

variable {kind : ProxyKind} {c : PathCollation} {db db' : ProxyCatalogue} {s s' : ProxyCache}
  {file other : List String} {artifact : ProxyArtifactMeta}

/-! ### Files -/

def versionOf (kind : ProxyKind) (c : Collation) (file : List String) : Option (String × String) :=
  (metaFromCachePath kind c file 0 none).bind fun artifact =>
    artifact.version.map fun version => (artifact.packageKey, version)

theorem versionOf_eq {size : ℕ} {upstreamUrl : Option String}
    (h : metaFromCachePath kind c.toCollation file size upstreamUrl = some artifact) :
    ∃ version, artifact.version = some version ∧ artifact.cachePath = pathText file ∧
      versionOf kind c.toCollation file = some (artifact.packageKey, version) := by
  cases kind with
  | go =>
    unfold metaFromCachePath goProxyMetaFromCachePath at h
    cases hparts : goProxyComponents file with
    | none =>
      rw [hparts] at h
      cases h
    | some parts =>
      rw [hparts] at h
      dsimp only at h
      split_ifs at h with hzip
      obtain ⟨version, hversion, rfl⟩ := Option.map_eq_some_iff.mp h
      refine ⟨version, rfl, rfl, ?_⟩
      simp_all [versionOf, metaFromCachePath, goProxyMetaFromCachePath]
  | python =>
    obtain ⟨parts, hparts, rfl⟩ := Option.map_eq_some_iff.mp h
    refine ⟨parts.2, rfl, rfl, ?_⟩
    rw [versionOf, metaFromCachePath, pythonProxyMetaFromCachePath, hparts]
    rfl
  | ruby =>
    unfold metaFromCachePath rubyProxyMetaFromCachePath at h
    dsimp only at h
    split_ifs at h with hgems
    obtain ⟨parsed, hparsed, rfl⟩ := Option.map_eq_some_iff.mp h
    refine ⟨_, rfl, rfl, ?_⟩
    rw [versionOf, metaFromCachePath, rubyProxyMetaFromCachePath]
    dsimp only
    rw [if_pos hgems, hparsed]
    rfl

/-! ### What holds in every state -/

structure RowOk (c : PathCollation) (db : ProxyCatalogue) (v : DBProjectVersion ProxyArtifactMeta) :
    Prop where
  key : trim v.extra.packageKey ≠ []
  path : v.path = normalizeVersionPath c.toCollation v.extra.cachePath v.extra.packageKey v.version
  project : ∃ project ∈ db.projects, project.id = v.projectId ∧
    c.same project.key v.extra.packageKey = true

structure CatalogueOk (c : PathCollation) (db : ProxyCatalogue) : Prop where
  projects : ∀ p ∈ db.projects, ∀ q ∈ db.projects, p.id = q.id ↔ c.same p.key q.key = true
  projects_lt : ∀ p ∈ db.projects, p.id < db.nextId
  paths : ∀ p ∈ db.projects, p.path = p.key ++ "/"
  ids : ∀ v ∈ db.versions, ∀ w ∈ db.versions, v.id = w.id → v = w
  ids_lt : ∀ v ∈ db.versions, v.id < db.nextId
  versions : ∀ v ∈ db.versions, ∀ w ∈ db.versions, v.projectId = w.projectId →
    v.version = w.version → v = w
  rows : ∀ v ∈ db.versions, RowOk c db v

structure CacheOk (kind : ProxyKind) (c : PathCollation) (s : ProxyCache) : Prop where
  catalogue : CatalogueOk c s.catalogue
  /-- Every row is that of a file. -/
  file : ∀ v ∈ s.catalogue.versions, ∃ file ∈ s.recorded, v.extra.cachePath = pathText file ∧
    versionOf kind c.toCollation file = some (v.extra.packageKey, v.version)
  /-- Every file has a row. -/
  row : ∀ file ∈ s.recorded, ∀ package version,
    versionOf kind c.toCollation file = some (package, version) →
      ∃ v ∈ s.catalogue.versions, v.extra.packageKey = package ∧ v.version = version

theorem CatalogueOk.projectId_iff (h : CatalogueOk c db) {v : DBProjectVersion ProxyArtifactMeta}
    (hv : v ∈ db.versions) {project : DBProject} (hproject : project ∈ db.projects) {key : String}
    (hkey : c.same project.key key = true) :
    v.projectId = project.id ↔ c.same v.extra.packageKey key = true := by
  obtain ⟨p, hp, hpid, hpkey⟩ := (h.rows v hv).project
  rw [← hpid, h.projects p hp project hproject]
  constructor
  · intro hsame
    exact c.same_trans _ _ _ (c.same_symm _ _ hpkey) (c.same_trans _ _ _ hsame hkey)
  · intro hsame
    exact c.same_trans _ _ _ hpkey (c.same_trans _ _ _ hsame (c.same_symm _ _ hkey))

theorem CatalogueOk.filter (h : CatalogueOk c db) (keep : DBProjectVersion ProxyArtifactMeta → Bool) :
    CatalogueOk c { db with versions := db.versions.filter keep } where
  projects := h.projects
  projects_lt := h.projects_lt
  paths := h.paths
  ids v hv w hw := h.ids v (List.mem_of_mem_filter hv) w (List.mem_of_mem_filter hw)
  ids_lt v hv := h.ids_lt v (List.mem_of_mem_filter hv)
  versions v hv w hw := h.versions v (List.mem_of_mem_filter hv) w (List.mem_of_mem_filter hw)
  rows v hv :=
    have hrow := h.rows v (List.mem_of_mem_filter hv)
    ⟨hrow.key, hrow.path, hrow.project⟩

/-! ### Recording -/

/-- What the row of a file replaces: the row of its package, whatever its case, and version. -/
def isReplaced (c : Collation) (packageKey version : String)
    (v : DBProjectVersion ProxyArtifactMeta) : Bool :=
  c.same v.extra.packageKey packageKey && v.version == version

/-- The file finds a place in the catalogue: its package, its path and its version are accepted, a
row of its version is that of the same package, and no other row has its path, whatever its case. -/
def canRecord (c : Collation) (db : ProxyCatalogue) (artifact : ProxyArtifactMeta) : Bool :=
  let version := artifact.version.getD ""
  let path := normalizeVersionPath c artifact.cachePath artifact.packageKey version
  trim artifact.packageKey != [] && trim artifact.cachePath != [] &&
    decide (version.length ≤ 255) && db.versions.all fun v =>
      if isReplaced c artifact.packageKey version v then v.extra.packageKey == artifact.packageKey
      else c.lowerPath v.path != c.lowerPath path

theorem exists_ensureProject (h : CatalogueOk c db) (artifact : ProxyArtifactMeta) :
    ∃ db' project, ensureProject c.toCollation db artifact = some (db', project) ∧
      db'.versions = db.versions ∧ CatalogueOk c db' ∧
      project ∈ db'.projects ∧ c.same project.key artifact.packageKey = true := by
  unfold ensureProject
  cases hfind : db.findByProjectKey c.toCollation artifact.packageKey with
  | some project =>
    obtain ⟨hmem, hkey⟩ := Catalogue.of_findByProjectKey hfind
    exact ⟨db, project, rfl, rfl, h, hmem, hkey⟩
  | none =>
    have hnew : ∀ p ∈ db.projects, c.same p.key artifact.packageKey = false := by
      intro p hp
      rw [← Bool.not_eq_true]
      intro hsame
      obtain ⟨q, hq⟩ := Catalogue.exists_findByProjectKey hp hsame
      rw [hfind] at hq
      cases hq
    have hfree : (db.projects.any fun p => c.same p.key artifact.packageKey ||
        p.path == artifact.packageKey ++ "/") = false := by
      rw [List.any_eq_false]
      intro p hp
      rw [Bool.not_eq_true, Bool.or_eq_false_iff]
      refine ⟨hnew p hp, beq_eq_false_iff_ne.mpr fun heq => ?_⟩
      rw [h.paths p hp] at heq
      have hkey : p.key = artifact.packageKey := by simp_all
      have hsame := hnew p hp
      rw [hkey, c.same_refl] at hsame
      cases hsame
    let project : DBProject := ⟨db.nextId, artifact.packageKey, artifact.packageKey ++ "/"⟩
    refine ⟨{ db with projects := db.projects ++ [project], nextId := db.nextId + 1 }, project,
      ?_, rfl, ?_, List.mem_append_right _ (List.mem_singleton_self _), c.same_refl _⟩
    · dsimp only
      unfold Catalogue.insertProject
      rw [hfree]
      rfl
    · refine ⟨?_, ?_, forall_mem_concat h.paths rfl, h.ids, fun v hv =>
        Nat.lt_succ_of_lt (h.ids_lt v hv), h.versions, fun v hv => ?_⟩
      · -- the new project has an id and a key of its own
        refine related_concat (fun p q hpq => ?_) h.projects (fun p hp => ?_)
          (iff_of_true rfl (c.same_refl _))
        · rw [eq_comm, hpq]
          exact ⟨c.same_symm _ _, c.same_symm _ _⟩
        · refine iff_of_false (h.projects_lt p hp).ne fun hsame => ?_
          rw [show project.key = artifact.packageKey from rfl, hnew p hp] at hsame
          cases hsame
      · exact forall_mem_concat (fun p hp => Nat.lt_succ_of_lt (h.projects_lt p hp))
          (Nat.lt_succ_self _)
      · obtain ⟨p, hp, hid, hkey⟩ := (h.rows v hv).project
        exact ⟨(h.rows v hv).key, (h.rows v hv).path, p, List.mem_append_left _ hp, hid, hkey⟩

/-- **A file is recorded**: its row replaces that of its version. -/
theorem recordCachedArtifact_spec (h : CatalogueOk c db) {version : String}
    (hversion : artifact.version = some version) (hcan : canRecord c.toCollation db artifact = true) :
    ∃ db' row, recordCachedArtifact c.toCollation db artifact = (db', .ok ()) ∧
      CatalogueOk c db' ∧ row.extra = artifact ∧ row.version = version ∧
      db'.versions = (db.versions.filter fun v =>
        !isReplaced c.toCollation artifact.packageKey version v) ++ [row] := by
  unfold canRecord at hcan
  rw [hversion, Option.getD_some] at hcan
  simp only [Bool.and_eq_true, bne_iff_ne, decide_eq_true_eq, List.all_eq_true] at hcan
  obtain ⟨⟨⟨hkey, hpath⟩, hlength⟩, hrows⟩ := hcan
  obtain ⟨db₁, project, hensure, hversions, hok, hproject, hsame⟩ := exists_ensureProject h artifact
  rw [← hversions] at hrows ⊢
  -- the rows of the project and the version
  have hreplaced : ∀ v ∈ db₁.versions,
      isReplaced c.toCollation artifact.packageKey version v = true ↔
        (v.projectId == project.id && v.version == version) = true := by
    intro v hv
    rw [isReplaced, Bool.and_eq_true, Bool.and_eq_true, beq_iff_eq, beq_iff_eq,
      hok.projectId_iff hv hproject hsame]
  let path := normalizeVersionPath c.toCollation artifact.cachePath artifact.packageKey version
  let kept := db₁.versions.filter fun v => !isReplaced c.toCollation artifact.packageKey version v
  let row : DBProjectVersion ProxyArtifactMeta :=
    ⟨db₁.nextId, project.id, version, path, artifact⟩
  -- the row of the version is gone before the new one comes
  have hnone : db₁.findByVersionAndProject version project.id = none →
      { db₁ with versions := kept } = db₁ := by
    intro hfind
    have hkept : kept = db₁.versions := by
      rw [List.filter_eq_self]
      intro v hv
      rw [Bool.not_eq_true', ← Bool.not_eq_true, hreplaced v hv]
      exact List.find?_eq_none.mp hfind v hv
    rw [hkept]
  have hsome : ∀ existing, db₁.findByVersionAndProject version project.id = some existing →
      { db₁ with versions := kept } = db₁.deleteVersion existing.id := by
    intro existing hfind
    obtain ⟨hmem, hid, hexisting⟩ := Catalogue.of_findByVersionAndProject hfind
    have hkept : kept = db₁.versions.filter fun v => v.id ≠ existing.id := by
      refine List.filter_congr fun v hv => ?_
      rw [Bool.eq_iff_iff, Bool.not_eq_true', ← Bool.not_eq_true, hreplaced v hv,
        decide_eq_true_eq, not_iff_not, Bool.and_eq_true, beq_iff_eq, beq_iff_eq]
      constructor
      · rintro ⟨hproj, hver⟩
        rw [hok.versions v hv existing hmem (hproj.trans hid.symm) (hver.trans hexisting.symm)]
      · intro hids
        rw [hok.ids v hv existing hmem hids]
        exact ⟨hid, hexisting⟩
    rw [hkept]
    rfl
  have hmem : ∀ v ∈ kept, v ∈ db₁.versions ∧
      isReplaced c.toCollation artifact.packageKey version v = false := by
    intro v hv
    obtain ⟨hv, hnot⟩ := List.mem_filter.mp hv
    exact ⟨hv, Bool.not_eq_true' _ ▸ hnot⟩
  have hinsert : Catalogue.insertVersion c.toCollation { db₁ with versions := kept } project.id
      version path artifact = some { db₁ with versions := kept ++ [row], nextId := db₁.nextId + 1 } := by
    unfold Catalogue.insertVersion
    rw [if_neg]
    simp only [Bool.or_eq_true, decide_eq_true_eq, not_or, Bool.not_eq_true', Bool.not_eq_false,
      List.any_eq_true, not_exists, not_and]
    refine ⟨⟨by omega, project, hproject, beq_self_eq_true _⟩, fun v hv => ?_⟩
    obtain ⟨hv, hnot⟩ := hmem v hv
    have hlower := hrows v hv
    rw [hnot, if_neg Bool.false_ne_true, bne_iff_ne] at hlower
    have hneither := mt (hreplaced v hv).mpr (Bool.eq_false_iff.mp hnot)
    refine ⟨fun hboth => hneither ?_, fun heq => hlower (beq_iff_eq.mp heq)⟩
    rw [Bool.and_eq_true, Bool.or_eq_true] at hboth
    rcases hboth with ⟨hproj, hver | heq⟩
    · rw [hproj, hver]
      rfl
    · exact absurd (congrArg c.lowerPath (beq_iff_eq.mp heq)) hlower
  refine ⟨{ db₁ with versions := kept ++ [row], nextId := db₁.nextId + 1 }, row, ?_, ?_, rfl, rfl,
    rfl⟩
  · unfold recordCachedArtifact
    rw [hversion]
    dsimp only
    rw [if_neg hkey, if_neg hpath, hensure]
    dsimp only
    cases hfind : db₁.findByVersionAndProject version project.id with
    | none =>
      rw [hnone hfind] at hinsert
      rw [hinsert]
    | some existing =>
      rw [hsome existing hfind] at hinsert
      rw [hinsert]
  · have hkept := hok.filter fun v => !isReplaced c.toCollation artifact.packageKey version v
    have hother : ∀ v ∈ kept, v.projectId = project.id → v.version ≠ version := by
      intro v hv hproj hver
      obtain ⟨hv, hnot⟩ := hmem v hv
      have hboth := (hreplaced v hv).mpr (by rw [hproj, hver]; simp)
      rw [hnot] at hboth
      cases hboth
    refine ⟨hok.projects, fun p hp => Nat.lt_succ_of_lt (hok.projects_lt p hp), hok.paths, ?_, ?_, ?_,
      ?_⟩
    · exact related_concat (fun _ _ h heq => (h heq.symm).symm) hkept.ids
        (fun v hv hids => absurd hids (hkept.ids_lt v hv).ne) fun _ => rfl
    · exact forall_mem_concat (fun v hv => Nat.lt_succ_of_lt (hkept.ids_lt v hv))
        (Nat.lt_succ_self _)
    · exact related_concat (fun _ _ h hproj hver => (h hproj.symm hver.symm).symm) hkept.versions
        (fun v hv hproj hver => absurd hver (hother v hv hproj)) fun _ _ => rfl
    · refine forall_mem_concat (fun v hv => ?_) ⟨hkey, rfl, project, hproject, rfl, hsame⟩
      have hrow := hkept.rows v hv
      exact ⟨hrow.key, hrow.path, hrow.project⟩

/-! ### Eviction -/

def keyFromCachePath (kind : ProxyKind) (file : List String) : Option ProxyArtifactKey :=
  match kind with
  | .go => goProxyKeyFromCachePath file
  | .python => pythonProxyKeyFromCachePath file
  | .ruby => none

def deletesRow (kind : ProxyKind) (c : Collation) (file : List String)
    (packageKey version path : String) : Bool :=
  match kind with
  | .go | .python => (keyFromCachePath kind file).any fun key =>
      trim key.packageKey != [] && c.same packageKey key.packageKey && key.version == some version
  | .ruby => Packages.matchesPaths c false
      (pathText file :: (Packages.deriveVersionPath (pathText file) .exactPath).toList) path

theorem of_keyFromCachePath (c : PathCollation) (kind : ProxyKind) (hkind : kind ≠ .ruby) :
    (∀ key, keyFromCachePath kind file = some key → ∃ version, key.version = some version) ∧
      ∀ package version, versionOf kind c.toCollation file = some (package, version) →
        ∃ key, keyFromCachePath kind file = some key ∧ key.packageKey = package ∧
          key.version = some version := by
  cases kind with
  | go =>
    unfold keyFromCachePath goProxyKeyFromCachePath versionOf metaFromCachePath
      goProxyMetaFromCachePath
    cases goProxyComponents file with
    | none => exact ⟨nofun, nofun⟩
    | some parts =>
      dsimp only
      cases goProxyVersionFromFilename parts.2 with
      | none => exact ⟨nofun, fun _ _ h => by split_ifs at h <;> cases h⟩
      | some fileVersion =>
        constructor
        · intro key h
          obtain rfl := Option.some.inj h
          exact ⟨fileVersion, rfl⟩
        aesop
  | python =>
    unfold keyFromCachePath pythonProxyKeyFromCachePath versionOf metaFromCachePath
      pythonProxyMetaFromCachePath
    dsimp only
    cases file.getLast?.bind pythonProxyNameVersion with
    | none => exact ⟨nofun, nofun⟩
    | some parts =>
      simp
  | ruby => exact absurd rfl hkind

theorem evictProxyCacheEntry_spec (h : CatalogueOk c db) {key? : Option ProxyArtifactKey}
    (hkey : ∀ key, key? = some key → ∃ version, key.version = some version) :
    (evictProxyCacheEntry c.toCollation db key?).1 = { db with versions := db.versions.filter fun v =>
      !(key?.any fun key => trim key.packageKey != [] &&
        c.same v.extra.packageKey key.packageKey && key.version == some v.version) } := by
  cases key? with
  | none =>
    rw [evictProxyCacheEntry]
    simp
  | some key =>
    obtain ⟨version, hversion⟩ := hkey key rfl
    rw [evictProxyCacheEntry, evictCachedArtifact, hversion]
    simp only [Option.any_some]
    by_cases hblank : trim key.packageKey = []
    · rw [if_pos hblank]
      simp [hblank]
    · rw [if_neg hblank, bne_iff_ne.mpr hblank]
      simp only [Bool.true_and]
      cases hfind : db.findByProjectKey c.toCollation key.packageKey with
      | none =>
        have hkept : (db.versions.filter fun v => !(c.same v.extra.packageKey key.packageKey &&
            key.version == some v.version)) = db.versions := by
          rw [List.filter_eq_self]
          intro v hv
          rw [Bool.not_eq_true', Bool.and_eq_false_iff, ← Bool.not_eq_true]
          left
          intro hsame
          obtain ⟨p, hp, -, hpkey⟩ := (h.rows v hv).project
          obtain ⟨q, hq⟩ := Catalogue.exists_findByProjectKey hp (c.same_trans _ _ _ hpkey hsame)
          rw [hfind] at hq
          cases hq
        rw [hkept]
      | some project =>
        obtain ⟨hproject, hsame⟩ := Catalogue.of_findByProjectKey hfind
        have hkept : (db.versions.filter fun v => !(v.projectId == project.id && v.version == version)) =
            db.versions.filter fun v => !(c.same v.extra.packageKey key.packageKey &&
              key.version == some v.version) := by
          refine List.filter_congr fun v hv => congrArg _ ?_
          rw [hversion, Bool.eq_iff_iff, Bool.and_eq_true, Bool.and_eq_true, beq_iff_eq, beq_iff_eq, beq_iff_eq,
            h.projectId_iff hv hproject hsame, Option.some_inj, eq_comm (a := v.version)]
        dsimp only
        rw [hkept]

/-- **A file is evicted**: some rows are deleted. -/
theorem evictRows_spec (h : CatalogueOk c db) :
    evictRows kind c.toCollation db file = { db with versions := db.versions.filter fun v =>
      !(deletesRow kind c.toCollation file v.extra.packageKey v.version v.path) } := by
  cases kind with
  | go => exact evictProxyCacheEntry_spec h (of_keyFromCachePath c .go nofun).1
  | python => exact evictProxyCacheEntry_spec h (of_keyFromCachePath c .python nofun).1
  | ruby => rfl

theorem cons_of_prefix {ch : Char} {text : List Char} (pre : List Char) (h : pre <+: ch :: text) (hpre : pre ≠ []) :
    ∃ rest, pre = ch :: rest := by
  cases pre with
  | nil => exact absurd rfl hpre
  | cons a rest =>
    obtain ⟨rfl, -⟩ := List.cons_prefix_cons.mp h
    exact ⟨rest, rfl⟩

theorem trim_cons {text : String} (ch : Char) {rest : List Char} (h : text.toList = ch :: rest)
    (hch : isWhitespace ch = false) : ∃ rest', trim text = ch :: rest' := by
  have htrim : trim text = List.rdropWhile isWhitespace (ch :: rest) := by
    rw [trim, h, List.dropWhile_cons, hch]
    rfl
  rw [htrim]
  refine cons_of_prefix _ (List.rdropWhile_prefix _ _) fun hnil => ?_
  simp_all

theorem deletesRow_self {package version : String}
    (hversion : versionOf kind c.toCollation file = some (package, version))
    (hblank : trim package ≠ []) :
    deletesRow kind c.toCollation file package version
      (normalizeVersionPath c.toCollation (pathText file) package version) = true := by
  cases kind with
  | go =>
    obtain ⟨key, hkey, rfl, hkeyVersion⟩ :=
      (of_keyFromCachePath c .go nofun).2 package version hversion
    rw [deletesRow, hkey, Option.any_some, hkeyVersion, c.same_refl, bne_iff_ne.mpr hblank]
    simp
  | python =>
    obtain ⟨key, hkey, rfl, hkeyVersion⟩ :=
      (of_keyFromCachePath c .python nofun).2 package version hversion
    rw [deletesRow, hkey, Option.any_some, hkeyVersion, c.same_refl, bne_iff_ne.mpr hblank]
    simp
  | ruby =>
    -- the path starts with a letter, so that both normalizations trim it at its end only
    have hgems : startsWith "gems/" (pathText file) = true := by
      by_contra hgems
      rw [versionOf, metaFromCachePath, rubyProxyMetaFromCachePath, if_neg hgems] at hversion
      cases hversion
    obtain ⟨suffix, hsuffix⟩ := startsWith_iff.mp hgems
    obtain ⟨rest, htrim⟩ := trim_cons 'g' hsuffix.symm (by decide)
    let trimmed := Packages.trimEndSlashes ('g' :: rest)
    have hrow : normalizeVersionPath c.toCollation (pathText file) package version =
        c.toLowercase (String.ofList trimmed) := by
      unfold normalizeVersionPath trimSlashes
      rw [htrim, List.dropWhile_cons, if_neg (by decide)]
      obtain ⟨rest', hrest'⟩ := cons_of_prefix trimmed
        (List.rdropWhile_prefix (· == '/') ('g' :: rest)) fun hnil => by
          have hall := List.rdropWhile_eq_nil_iff.mp hnil 'g' (List.mem_cons_self ..)
          exact absurd hall (by decide)
      rw [show Packages.trimEndSlashes ('g' :: rest) = trimmed from rfl, hrest']
    have htarget : Packages.normalizeCatalogPath c.toCollation (pathText file) =
        some (c.toLowercase (String.ofList trimmed)) := by
      unfold Packages.normalizeCatalogPath
      rw [htrim]
    have hstable : Packages.trimEndSlashes trimmed = trimmed :=
      List.rdropWhile_idempotent (· == '/') ('g' :: rest)
    rw [deletesRow, Packages.matchesPaths, List.filterMap_cons, htarget, List.any_cons,
      Packages.matchesTarget, Packages.rowPath, hrow, c.trimEndSlashes_toLowercase,
      String.toList_ofList, hstable, String.ofList_toList, c.lowerPath_toLowercase, beq_self_eq_true]
    rfl

/-! ### Steps -/

def shares (kind : ProxyKind) (c : Collation) (file other : List String) : Bool :=
  (versionOf kind c other).any fun (package, version) =>
    versionOf kind c file == some (package, version) ||
      deletesRow kind c file package version (normalizeVersionPath c (pathText other) package version)

/-- What is recorded finds a place in the catalogue, and no file is evicted beside another one of its
row. -/
def proxyGuarded (kind : ProxyKind) (c : Collation) (s : ProxyCache) : CacheEvent → Bool
  | .record file size upstreamUrl =>
    (metaFromCachePath kind c file size upstreamUrl).all (canRecord c s.catalogue)
  | .evict file => s.recorded.all fun other => other == file || !shares kind c file other

theorem not_shares (hguard : proxyGuarded kind c.toCollation s (.evict file) = true)
    (hother : other ∈ s.recorded) (hne : other ≠ file) {package version : String}
    (hversion : versionOf kind c.toCollation other = some (package, version)) :
    versionOf kind c.toCollation file ≠ some (package, version) ∧
      deletesRow kind c.toCollation file package version
        (normalizeVersionPath c.toCollation (pathText other) package version) = false := by
  have hshares := List.all_eq_true.mp hguard other hother
  simp_all [shares, Option.any_some, beq_eq_false_iff_ne]

theorem CacheOk.record (h : CacheOk kind c s) {size : ℕ} {upstreamUrl : Option String}
    (hguard : proxyGuarded kind c.toCollation s (.record file size upstreamUrl) = true)
    (hstep : cacheStep kind c.toCollation s (.record file size upstreamUrl) = some s') :
    CacheOk kind c s' := by
  obtain rfl := Option.some.inj hstep
  cases hmeta : metaFromCachePath kind c.toCollation file size upstreamUrl with
  | none => exact h
  | some artifact =>
    obtain ⟨version, hversion, hpath, hfile⟩ := versionOf_eq hmeta
    rw [proxyGuarded, hmeta, Option.all_some] at hguard
    obtain ⟨db, row, hrecord, hdb, hextra, hrow, hversions⟩ :=
      recordCachedArtifact_spec h.catalogue hversion hguard
    have hreplaced : ∀ v ∈ s.catalogue.versions,
        isReplaced c.toCollation artifact.packageKey version v = true →
          v.extra.packageKey = artifact.packageKey ∧ v.version = version := by
      intro v hv hrep
      unfold canRecord at hguard
      rw [hversion, Option.getD_some, Bool.and_eq_true, List.all_eq_true] at hguard
      have hkey := hguard.2 v hv
      rw [if_pos hrep, beq_iff_eq] at hkey
      exact ⟨hkey, beq_iff_eq.mp (Bool.and_eq_true _ _ ▸ hrep).2⟩
    rw [Option.isSome_some, if_pos rfl, recordProxyCacheHit, hrecord]
    refine ⟨hdb, fun v hv => ?_, fun other hother package otherVersion hotherVersion => ?_⟩
    · rw [hversions] at hv
      rcases List.mem_append.mp hv with hv | hv
      · obtain ⟨hv, hkept⟩ := List.mem_filter.mp hv
        obtain ⟨other, hother, hotherPath, hotherVersion⟩ := h.file v hv
        refine ⟨other, List.mem_cons_of_mem _ (List.mem_filter.mpr ⟨hother, ?_⟩), hotherPath,
          hotherVersion⟩
        -- the row of the file itself has been replaced
        rw [decide_eq_true_eq]
        rintro rfl
        obtain ⟨hkey, hver⟩ := Prod.mk.inj (Option.some.inj (hfile.symm.trans hotherVersion))
        rw [isReplaced, hkey, hver, c.same_refl, beq_self_eq_true] at hkept
        cases hkept
      grind
    · have hnew : row ∈ db.versions := by
        rw [hversions]
        exact List.mem_append_right _ (List.mem_singleton_self _)
      rcases List.mem_cons.mp hother with rfl | hother
      · grind
      · obtain ⟨v, hv, rfl, rfl⟩ :=
          h.row other (List.mem_of_mem_filter hother) package otherVersion hotherVersion
        grind

theorem CacheOk.mem_of_evict (h : CacheOk kind c s)
    (hguard : proxyGuarded kind c.toCollation s (.evict file) = true)
    (hstep : cacheStep kind c.toCollation s (.evict file) = some s') (hother : other ∈ s.recorded)
    (hne : other ≠ file) {v : DBProjectVersion ProxyArtifactMeta} (hv : v ∈ s.catalogue.versions)
    (hversion : versionOf kind c.toCollation other = some (v.extra.packageKey, v.version)) :
    v ∈ s'.catalogue.versions := by
  obtain rfl := Option.some.inj hstep
  rw [evictRows_spec h.catalogue]
  refine List.mem_filter.mpr ⟨hv, ?_⟩
  -- the row is that of a file of the same version, which is not the one that is evicted
  obtain ⟨owner, howner, hpath, hownerVersion⟩ := h.file v hv
  have hownerNe : owner ≠ file := by
    rintro rfl
    exact (not_shares hguard hother hne hversion).1 hownerVersion
  have hkept := (not_shares hguard howner hownerNe hownerVersion).2
  rw [← hpath, ← (h.catalogue.rows v hv).path] at hkept
  rw [hkept]
  rfl

theorem CacheOk.evict (h : CacheOk kind c s)
    (hguard : proxyGuarded kind c.toCollation s (.evict file) = true)
    (hstep : cacheStep kind c.toCollation s (.evict file) = some s') : CacheOk kind c s' := by
  have hmem : ∀ other, other ∈ s'.recorded ↔ other ∈ s.recorded ∧ other ≠ file := by
    intro other
    obtain rfl := Option.some.inj hstep
    rw [List.mem_filter, decide_eq_true_eq]
  have hrows : s'.catalogue = { s.catalogue with versions := s.catalogue.versions.filter fun v =>
      !(deletesRow kind c.toCollation file v.extra.packageKey v.version v.path) } := by
    obtain rfl := Option.some.inj hstep
    exact evictRows_spec h.catalogue
  refine ⟨?_, fun v hv => ?_, fun other hother package version hversion => ?_⟩
  · rw [hrows]
    exact h.catalogue.filter _
  · rw [hrows] at hv
    obtain ⟨hrowv, hkept⟩ := List.mem_filter.mp hv
    obtain ⟨owner, howner, hpath, hversion⟩ := h.file v hrowv
    refine ⟨owner, (hmem owner).mpr ⟨howner, ?_⟩, hpath, hversion⟩
    -- its own row is deleted
    rintro rfl
    have hrow := h.catalogue.rows v hrowv
    have hdeleted := deletesRow_self hversion hrow.key
    rw [← hpath, ← hrow.path] at hdeleted
    rw [hdeleted] at hkept
    cases hkept
  · obtain ⟨hother, hne⟩ := (hmem other).mp hother
    obtain ⟨v, hv, rfl, rfl⟩ := h.row other hother package version hversion
    exact ⟨v, h.mem_of_evict hguard hstep hother hne hv hversion, rfl, rfl⟩

theorem cacheOk_of_step {event : CacheEvent} (h : CacheOk kind c s)
    (hguard : proxyGuarded kind c.toCollation s event = true)
    (hstep : cacheStep kind c.toCollation s event = some s') : CacheOk kind c s' := by
  cases event with
  | record file size upstreamUrl => exact h.record hguard hstep
  | evict file => exact h.evict hguard hstep

/-! ### Runs -/

def noCache : ProxyCache := ⟨Catalogue.empty, []⟩

theorem cacheOk_noCache : CacheOk kind c noCache :=
  ⟨⟨nofun, nofun, nofun, nofun, nofun, nofun, nofun⟩, nofun, nofun⟩

structure CatalogueFollows (kind : ProxyKind) (c : Collation) (as : List CacheEvent) : Prop where
  /-- A version has a row iff one of its recorded files is still cached. -/
  row_iff : ∀ pre s, pre <+: as → run (cacheStep kind c) noCache pre = some s →
    ∀ package version,
      (∃ v ∈ s.catalogue.versions, v.extra.packageKey = package ∧ v.version = version) ↔
        ∃ file ∈ s.recorded, versionOf kind c file = some (package, version)
  /-- The eviction of a file leaves the rows of all other cached files. -/
  others : ∀ pre file s s', pre ++ [.evict file] <+: as →
    run (cacheStep kind c) noCache pre = some s → cacheStep kind c s (.evict file) = some s' →
      ∀ other ∈ s.recorded, other ≠ file → ∀ v ∈ s.catalogue.versions,
        versionOf kind c other = some (v.extra.packageKey, v.version) → v ∈ s'.catalogue.versions

/-- **The catalogue follows the cache** in a run in which no file is evicted beside another one of
its row, and every file that is recorded finds a place in the catalogue. -/
theorem catalogue_follows {as : List CacheEvent}
    (h : StepsOk (cacheStep kind c.toCollation)
      (fun s event => proxyGuarded kind c.toCollation s event = true) noCache as) :
    CatalogueFollows kind c.toCollation as := by
  have hok : ∀ pre post s, as = pre ++ post →
      run (cacheStep kind c.toCollation) noCache pre = some s → CacheOk kind c s := by
    rintro pre post s rfl hrun
    exact run_invariant_of_stepsOk (fun _ _ _ hok hguard hstep => cacheOk_of_step hok hguard hstep)
      cacheOk_noCache ( StepsOk.prefix h) hrun
  refine ⟨?_, ?_⟩
  · rintro pre s ⟨post, has⟩ hrun package version
    have hs := hok pre post s has.symm hrun
    constructor
    · rintro ⟨v, hv, rfl, rfl⟩
      obtain ⟨file, hfile, -, hversion⟩ := hs.file v hv
      exact ⟨file, hfile, hversion⟩
    · rintro ⟨file, hfile, hversion⟩
      exact hs.row file hfile package version hversion
  · rintro pre file s s' ⟨post, has⟩ hrun hstep other hother hne v hv hversion
    rw [List.append_assoc] at has
    rw [← has] at h
    have hguard := And.left ( StepsOk.suffix h hrun)
    exact (hok pre _ s has.symm hrun).mem_of_evict hguard hstep hother hne hv hversion

/-! ### A run, and two files of one version -/

def PathCollation.exact : PathCollation where
  toCollation := Collation.exact
  lowerPath_toLowercase _ := rfl
  trimEndSlashes_toLowercase a := by
    show Packages.trimEndSlashes a.toList = (String.ofList (Packages.trimEndSlashes a.toList)).toList
    rw [String.toList_ofList]

/-- Files of two versions, of which one has two files. -/
def demoCache : List CacheEvent :=
  [.record ["packages", "demo", "demo-1.0.tar.gz"] 10 none,
    .record ["packages", "demo", "demo-2.0.tar.gz"] 20 none,
    .record ["packages", "demo", "demo-2.0-py3-none-any.whl"] 30 none,
    .evict ["packages", "demo", "demo-1.0.tar.gz"],
    .record ["packages", "demo", "demo-1.0.tar.gz"] 10 none]

theorem catalogue_follows_demo : CatalogueFollows .python Collation.exact demoCache :=
  catalogue_follows (c := PathCollation.exact) (by decide)

/-- The distribution for sources of a version is evicted beside its wheel. -/
def siblingCache : List CacheEvent :=
  [.record ["packages", "demo", "demo-2.0-py3-none-any.whl"] 30 none,
    .record ["packages", "demo", "demo-2.0.tar.gz"] 20 none,
    .evict ["packages", "demo", "demo-2.0.tar.gz"]]

/-- The wheel is still cached, and the row is gone. -/
theorem not_catalogueFollows_sibling :
    ¬ CatalogueFollows .python Collation.exact siblingCache := by
  intro h
  have hrun : (run (cacheStep .python Collation.exact) noCache siblingCache).any (fun s =>
      decide (s.catalogue.versions = [] ∧
        s.recorded = [["packages", "demo", "demo-2.0-py3-none-any.whl"]])) = true := by
    decide
  obtain ⟨s, hs, hgone⟩ := (Option.any_eq_true _ _).mp hrun
  obtain ⟨hversions, hrecorded⟩ := of_decide_eq_true hgone
  obtain ⟨v, hv, -⟩ := (h.row_iff siblingCache s (List.prefix_refl _) hs "demo" "2.0").mpr
    ⟨_, by rw [hrecorded]; exact List.mem_singleton_self _, by decide⟩
  rw [hversions] at hv
  cases hv

end Pkgly.Proxy
