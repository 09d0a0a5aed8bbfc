import Pkgly.Helm.Hosted
import Pkgly.Storage.Equiv.DynStorage

/-!
# What the steps of a publish do

Each step of a publish fails and changes nothing, or does what it says; what it can do alone is
`Ends`.  Most requests come down to two operations on the rows: a chart or a provenance file is
recorded (`recordChart`, `recordProvenance`).  Both may be written although the request fails, as
`package_files` comes after the row.
-/

namespace Pkgly.Helm

open Docker Resumption

variable {lib : HelmLibraries} {s t : HelmHosted}

/-! ### Rows that are recorded -/

structure RowsKept (db db' : Catalogue HelmVersion) : Prop where
  projects : ∀ p ∈ db.projects, p ∈ db'.projects
  versions : ∀ v ∈ db.versions, v ∈ db'.versions

def chartProject (lib : HelmLibraries) (db : Catalogue HelmVersion) (name : String) :
    Option (Catalogue HelmVersion × DBProject) :=
  match db.findByProjectKey lib.collation name with
  | some project => some (db, project)
  | none => db.insertProject lib.collation name ("charts/" ++ name ++ "/")

def writtenVersion (lib : HelmLibraries) (overwrite : Bool) (db : Catalogue HelmVersion)
    (parsed : ParsedChartArchive) (artifact : ChartArtifactPath) (path : StoragePath)
    (userId : ℤ) (project : DBProject) :
    Option (DBProjectVersion HelmVersion) → Option (Catalogue HelmVersion)
  | some v =>
    match v.extra.chartExtra with
    | .ok extra =>
      if overwrite then
        some (updateVersion db v.id ⟨some userId, some (some (versionExtra parsed path extra))⟩)
      else none
    | .error _ => none
  | none => db.insertVersion lib.collation project.id artifact.version path.toString'
      ⟨some userId, some (some (versionExtra parsed path none))⟩

def recordChart (lib : HelmLibraries) (overwrite : Bool) (db : Catalogue HelmVersion)
    (parsed : ParsedChartArchive) (artifact : ChartArtifactPath) (path : StoragePath)
    (userId : ℤ) : Option (Catalogue HelmVersion) :=
  (chartProject lib db parsed.metadata.name).bind fun r =>
    writtenVersion lib overwrite r.1 parsed artifact path userId r.2
      (r.1.findByVersionAndProject artifact.version r.2.id)

/-- A row that is there already holds `row`. -/
def RowSays (db : Catalogue HelmVersion) (id : ℕ) (row : HelmVersion) : Prop :=
  ∀ w ∈ db.versions, w.id = id → w.extra = row

def ChartFits (lib : HelmLibraries) (overwrite : Bool) (db : Catalogue HelmVersion)
    (parsed : ParsedChartArchive) (artifact : ChartArtifactPath) (path : StoragePath)
    (userId : ℤ) : Prop :=
  ∀ db' project v extra, chartProject lib db parsed.metadata.name = some (db', project) →
    db'.findByVersionAndProject artifact.version project.id = some v →
      v.extra.chartExtra = .ok extra → overwrite = true →
        RowSays db v.id ⟨some userId, some (some (versionExtra parsed path extra))⟩

/-- The row that a provenance file would update, if it was there before, already says so. -/
def ProvenanceFits (lib : HelmLibraries) (before db : Catalogue HelmVersion)
    (artifact : ChartArtifactPath) (path : StoragePath) (userId : ℤ) : Prop :=
  ∀ project v stored, db.findByProjectKey lib.collation artifact.name = some project →
    db.findByVersionAndProject artifact.version project.id = some v →
      v.extra.chart = .ok stored →
        RowSays before v.id ⟨some userId, some (some (stored.withProvenance path))⟩

/-! ### Steps -/

section Steps

variable {α : Type} {r : Except HelmRepositoryError α} {path : StoragePath} {content : Bytes}

theorem of_saveFile {r : Except HelmRepositoryError Unit} (h : Ends (saveFile content path) s r t) :
    (∃ e, r = .error e) ∧ t = s ∨ ∃ a, r = .ok a ∧
      ∃ st, s.storage.saveFile content path = .ok st ∧ t = { s with storage := st } := by
  obtain ⟨c, h⟩ := ends_act_iff.mp h
  grind

variable {f : Catalogue HelmVersion → Option (α × Catalogue HelmVersion)}

end Steps

/-! ### Rows -/

section Rows

variable {db db' db'' : Catalogue HelmVersion} {parsed : ParsedChartArchive}
  {artifact : ChartArtifactPath} {path : StoragePath} {userId : ℤ}

theorem RowsKept.trans (h : RowsKept db db') (h' : RowsKept db' db'') : RowsKept db db'' :=
  ⟨fun p hp => h'.projects p (h.projects p hp), fun v hv => h'.versions v (h.versions v hv)⟩

variable {row : HelmVersion} {projectId id : ℕ} {version : String}
  {r : Except HelmRepositoryError Unit}

end Rows

end Pkgly.Helm
