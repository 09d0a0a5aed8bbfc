import Mathlib.Data.List.Sort
import Pkgly.Storage.DynStorage

/-!
# The compact index of a Ruby repository

`compact_index.rs`: the texts of `names`, `versions` and the `info` files, which are built from one
list of rows.  The rows are grouped in a `BTreeMap` by gem (`addRow`, an ordered list here), so that
the order in which the database returns them is not seen in these texts.
-/

namespace Pkgly.Ruby

structure RubyDependencyMetadata where
  name : String
  requirements : List String
deriving DecidableEq

structure RubyPackageMetadata where
  filename : String
  platform : Option String
  sha256 : Option String
  dependencies : List RubyDependencyMetadata
  requiredRuby : Option String
  requiredRubygems : Option String
deriving DecidableEq

structure CompactIndexVersionEntry where
  version : String
  dependencies : List RubyDependencyMetadata
  sha256 : String
  requiredRuby : Option String
  requiredRubygems : Option String
deriving DecidableEq

structure VersionsLine where
  gemName : String
  versions : List String
  infoMd5 : String

structure RubyCompactIndexRow where
  gemKey : String
  gemName : String
  version : String
  metadata : RubyPackageMetadata
deriving DecidableEq

/-- The texts of the index; of the `info` files with the gems they are about. -/
structure CompactIndexArtifacts where
  names : String
  versions : String
  infos : List (String × String)
deriving DecidableEq

/-! ### Texts -/

def buildNamesFile (names : List String) : String :=
  "---\n" ++ String.join (names.map fun name => name ++ "\n")

def formatDependencies (dependencies : List RubyDependencyMetadata) : String :=
  String.intercalate "," (dependencies.map fun dep =>
    dep.name ++ ":" ++ String.intercalate "&" dep.requirements)

def formatRequirements (entry : CompactIndexVersionEntry) : String :=
  String.intercalate "," (["checksum:" ++ entry.sha256] ++
    (entry.requiredRuby.map fun value => "ruby:" ++ value).toList ++
    (entry.requiredRubygems.map fun value => "rubygems:" ++ value).toList)

def buildInfoFile (entries : List CompactIndexVersionEntry) : String :=
  "---\n" ++ String.join (entries.map fun entry =>
    entry.version ++ " " ++ formatDependencies entry.dependencies ++ "|" ++
      formatRequirements entry ++ "\n")

def buildVersionsFile (createdAt : String) (lines : List VersionsLine) : String :=
  "created_at: " ++ createdAt ++ "\n---\n" ++ String.join (lines.map fun line =>
    line.gemName ++ " " ++ String.intercalate "," line.versions ++ " " ++ line.infoMd5 ++ "\n")

/-! ### The rows of each gem -/

structure GemGroup where
  gemKey : String
  gemName : String
  versions : List CompactIndexVersionEntry

/-- `entry(gem_key)` of the map: add the version to its gem, or a gem with the version. -/
def addRow (gemKey gemName : String) (entry : CompactIndexVersionEntry) :
    List GemGroup → List GemGroup
  | [] => [⟨gemKey, gemName, [entry]⟩]
  | group :: rest =>
    if gemKey = group.gemKey then { group with versions := group.versions ++ [entry] } :: rest
    else if gemKey < group.gemKey then ⟨gemKey, gemName, [entry]⟩ :: group :: rest
    else group :: addRow gemKey gemName entry rest

/-- The version of a row; a row without a checksum is an error. -/
def versionEntry (row : RubyCompactIndexRow) : Except String CompactIndexVersionEntry :=
  match row.metadata.sha256 with
  | none => .error ("ruby metadata missing sha256 for " ++ row.gemName)
  | some sha256 => .ok ⟨row.version, row.metadata.dependencies, sha256, row.metadata.requiredRuby,
      row.metadata.requiredRubygems⟩

def groupRows (grouped : List GemGroup) : List RubyCompactIndexRow → Except String (List GemGroup)
  | [] => .ok grouped
  | row :: rows =>
    match versionEntry row with
    | .error e => .error e
    | .ok entry => groupRows (addRow row.gemKey row.gemName entry grouped) rows

def sortedVersions (group : GemGroup) : List CompactIndexVersionEntry :=
  group.versions.insertionSort fun a b => a.version ≤ b.version

def buildCompactIndexArtifacts (md5Hex : Bytes → String) (createdAt : String)
    (rows : List RubyCompactIndexRow) : Except String CompactIndexArtifacts :=
  match groupRows [] rows with
  | .error e => .error e
  | .ok grouped =>
    let infos := grouped.map fun group => (group.gemKey, buildInfoFile (sortedVersions group))
    let lines := grouped.map fun group => VersionsLine.mk group.gemName
      ((sortedVersions group).map CompactIndexVersionEntry.version)
      (md5Hex (intoBytes (buildInfoFile (sortedVersions group))))
    .ok {
      names := buildNamesFile (grouped.map GemGroup.gemKey)
      versions := buildVersionsFile createdAt (lines.insertionSort fun a b => a.gemName ≤ b.gemName)
      infos }

/-! ### The full index -/

structure SpecsIndexEntry where
  name : String
  version : String
  platform : String
deriving DecidableEq

def stripPlatformSuffix (versionKey : String) (platform : Option String) : String :=
  match platform with
  | none => versionKey
  | some platform =>
    match stripSuffix ("-" ++ platform).toList versionKey.toList with
    | some version => String.ofList version
    | none => versionKey

/-- The entry of a row in `specs.4.8.gz`. -/
def specsEntry (row : RubyCompactIndexRow) : SpecsIndexEntry where
  name := row.gemName
  version := stripPlatformSuffix row.version row.metadata.platform
  platform := row.metadata.platform.getD "ruby"

/-! ### Which gems have a file -/

def Ordered (grouped : List GemGroup) : Prop :=
  grouped.Pairwise fun a b => a.gemKey < b.gemKey

variable {grouped : List GemGroup}

theorem mem_addRow {gemKey gemName key : String} {entry : CompactIndexVersionEntry}
    : key ∈ (addRow gemKey gemName entry grouped).map GemGroup.gemKey ↔
      key = gemKey ∨ key ∈ grouped.map GemGroup.gemKey := by
  induction grouped with
  | nil => simp [addRow]
  | cons group rest ih =>
    rw [addRow]
    grind

theorem ordered_addRow {gemKey gemName : String} {entry : CompactIndexVersionEntry}
    (h : Ordered grouped) : Ordered (addRow gemKey gemName entry grouped) := by
  induction grouped with
  | nil => exact List.pairwise_singleton _ _
  | cons group rest ih =>
    obtain ⟨hhead, htail⟩ := List.pairwise_cons.mp h
    rw [addRow]
    split_ifs with heq hlt
    · exact List.pairwise_cons.mpr ⟨hhead, htail⟩
    · refine List.pairwise_cons.mpr ⟨fun other hother => ?_, h⟩
      grind
    · refine List.pairwise_cons.mpr ⟨fun other hother => ?_, ih htail⟩
      rcases mem_addRow.mp (List.mem_map_of_mem hother) with hkey | hkey
      · grind
      grind

theorem of_groupRows {rows : List RubyCompactIndexRow} {start : List GemGroup}
    (hstart : Ordered start) (h : groupRows start rows = .ok grouped) :
    Ordered grouped ∧ ∀ key, key ∈ grouped.map GemGroup.gemKey ↔
      key ∈ start.map GemGroup.gemKey ∨ key ∈ rows.map RubyCompactIndexRow.gemKey := by
  induction rows generalizing start with
  | nil =>
    obtain rfl := Except.ok.inj h
    exact ⟨hstart, fun key => by simp⟩
  | cons row rows ih =>
    rw [groupRows] at h
    split at h
    · cases h
    · obtain ⟨hordered, hkeys⟩ := ih (ordered_addRow hstart) h
      refine ⟨hordered, fun key => ?_⟩
      rw [hkeys, mem_addRow, List.map_cons, List.mem_cons]
      exact or_assoc.trans or_left_comm

variable {md5Hex : Bytes → String} {createdAt : String} {rows : List RubyCompactIndexRow}
  {artifacts : CompactIndexArtifacts}

theorem mem_infos_iff (h : buildCompactIndexArtifacts md5Hex createdAt rows = .ok artifacts)
    (key : String) : key ∈ artifacts.infos.map Prod.fst ↔
      key ∈ rows.map RubyCompactIndexRow.gemKey := by
  unfold buildCompactIndexArtifacts at h
  split at h
  · cases h
  · rename_i grouped hgrouped
    obtain rfl := Except.ok.inj h
    rw [List.map_map]
    exact ((of_groupRows List.Pairwise.nil hgrouped).2 key).trans (by simp)

theorem nodup_infos (h : buildCompactIndexArtifacts md5Hex createdAt rows = .ok artifacts) :
    (artifacts.infos.map Prod.fst).Nodup := by
  unfold buildCompactIndexArtifacts at h
  split at h
  · cases h
  · rename_i grouped hgrouped
    obtain rfl := Except.ok.inj h
    rw [List.map_map]
    refine List.pairwise_map.mpr ((of_groupRows List.Pairwise.nil hgrouped).1.imp fun {a b} hlt heq => ?_)
    have hkey : a.gemKey = b.gemKey := heq
    rw [hkey] at hlt
    exact String.lt_irrefl _ hlt

end Pkgly.Ruby
