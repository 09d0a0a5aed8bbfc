import Mathlib.Data.Bool.AllAny
import Pkgly.Algorithm.Separated
import Pkgly.Ruby.FullIndex
import Pkgly.Storage.Sha256

/-!
# What the compact index says

The texts of the compact index are read back by their grammar: lines, and in a line the first space,
the first bar, commas, the first colon of each part and ampersands.  They say what the rows say if
and only if no gem has a separator in a field that ends at it (`compactIndex_faithful_iff`): what is
read of a field never contains a separator that ends it, so that a field with one is not read back,
and it can look like a line of any other gem.
-/

namespace Pkgly.Ruby

/-! ### The grammar -/

/-- The texts between separators; an empty text has none. -/
def decodeList (sep : Char) (s : String) : List String := if s = "" then [] else pieces sep s

/-- What a line of an `info` file says. -/
structure InfoLine where
  version : String
  dependencies : List RubyDependencyMetadata
  requirements : List (String × String)
deriving DecidableEq

def decodeDependency (s : String) : RubyDependencyMetadata :=
  ⟨(cutFirst ':' s).1, decodeList '&' (cutFirst ':' s).2⟩

def decodeInfoLine (line : String) : InfoLine where
  version := (cutFirst ' ' line).1
  dependencies := (decodeList ',' (cutFirst '|' (cutFirst ' ' line).2).1).map decodeDependency
  requirements := (pieces ',' (cutFirst '|' (cutFirst ' ' line).2).2).map (cutFirst ':')

@[simp] theorem dependencies_decodeInfoLine (line : String) :
    (decodeInfoLine line).dependencies =
      (decodeList ',' (cutFirst '|' (cutFirst ' ' line).2).1).map decodeDependency := by
  rw [decodeInfoLine]

@[simp] theorem requirements_decodeInfoLine (line : String) :
    (decodeInfoLine line).requirements =
      (pieces ',' (cutFirst '|' (cutFirst ' ' line).2).2).map (cutFirst ':') := by
  rw [decodeInfoLine]

/-- The lines of an `info` file behind its head. -/
def decodeInfo (text : String) : List InfoLine :=
  ((terminatedPieces '\n' text).drop 1).map decodeInfoLine

/-- The lines of `names` behind its head. -/
def decodeNames (text : String) : List String := (terminatedPieces '\n' text).drop 1

def decodeVersionsLine (line : String) : VersionsLine where
  gemName := (cutFirst ' ' line).1
  versions := pieces ',' (cutFirst ' ' (cutFirst ' ' line).2).1
  infoMd5 := (cutFirst ' ' (cutFirst ' ' line).2).2

/-- The lines of `versions` behind its head, which has two lines. -/
def decodeVersions (text : String) : List VersionsLine :=
  ((terminatedPieces '\n' text).drop 2).map decodeVersionsLine

/-! ### What the index should say -/

def requirementsOf (sha256 requiredRuby requiredRubygems : Option String) :
    List (String × String) :=
  (sha256.map fun value => ("checksum", value)).toList ++
    (requiredRuby.map fun value => ("ruby", value)).toList ++
    (requiredRubygems.map fun value => ("rubygems", value)).toList

def RubyCompactIndexRow.infoLine (row : RubyCompactIndexRow) : InfoLine :=
  ⟨row.version, row.metadata.dependencies,
    requirementsOf row.metadata.sha256 row.metadata.requiredRuby row.metadata.requiredRubygems⟩

def CompactIndexVersionEntry.infoLine (entry : CompactIndexVersionEntry) : InfoLine :=
  ⟨entry.version, entry.dependencies,
    requirementsOf (some entry.sha256) entry.requiredRuby entry.requiredRubygems⟩

/-- Each gem has one name, one line in `versions` and one `info` file; the file has one line for
each row of the gem, and the line has the versions and the checksum of this file. -/
structure Faithful (md5Hex : Bytes → String) (rows : List RubyCompactIndexRow)
    (artifacts : CompactIndexArtifacts) : Prop where
  nodup_names : (decodeNames artifacts.names).Nodup
  mem_names : ∀ key, key ∈ decodeNames artifacts.names ↔ key ∈ rows.map RubyCompactIndexRow.gemKey
  infos : artifacts.infos.map Prod.fst = decodeNames artifacts.names
  info : ∀ file ∈ artifacts.infos, (decodeInfo file.2).Perm
    ((rows.filter fun row => row.gemKey = file.1).map RubyCompactIndexRow.infoLine)
  versions : decodeVersions artifacts.versions = artifacts.infos.map fun file =>
    ⟨file.1, (decodeInfo file.2).map InfoLine.version, md5Hex (intoBytes file.2)⟩

/-! ### Fields without separators -/

/-- The text contains none of the characters. -/
def Avoids (seps : List Char) (s : String) : Prop := ∀ ch ∈ seps, ch ∉ s.toList

instance (seps : List Char) (s : String) : Decidable (Avoids seps s) := List.decidableBAll _ _

theorem Avoids.mono {seps seps' : List Char} {s : String} (h : Avoids seps s)
    (hsub : seps' ⊆ seps) : Avoids seps' s :=
  fun ch hch => h ch (hsub hch)

theorem Avoids.append {seps : List Char} {s t : String} (hs : Avoids seps s) (ht : Avoids seps t) :
    Avoids seps (s ++ t) := by
  grind [String.toList_append, Avoids]

theorem avoids_intercalate {seps : List Char} {s : String} {parts : List String}
    (hs : Avoids seps s) (hparts : ∀ part ∈ parts, Avoids seps part) :
    Avoids seps (String.intercalate s parts) := by
  induction parts with
  | nil => exact fun ch _ hin => absurd hin (by simp)
  | cons a parts ih =>
    cases parts with
    | nil =>
      rw [String.intercalate_singleton]
      exact hparts a List.mem_cons_self
    | cons b parts =>
      rw [String.intercalate_cons_cons]
      exact ((hparts a List.mem_cons_self).append hs).append
        (ih fun part hpart => hparts part (List.mem_cons_of_mem a hpart))

/-- A name ends at the colon, or with its dependency; a requirement ends at an ampersand or with its
dependency; a dependency ends at a comma, at the bar or with its line. -/
def CleanDependency (dep : RubyDependencyMetadata) : Prop :=
  Avoids [':', ',', '|', '\n'] dep.name ∧ ∀ r ∈ dep.requirements, Avoids ['&', ',', '|', '\n'] r

/-- No field has a separator that ends it. -/
structure CleanRow (row : RubyCompactIndexRow) : Prop where
  gemKey : Avoids [' ', '\n'] row.gemKey
  version : Avoids [' ', ',', '\n'] row.version
  dependencies : ∀ dep ∈ row.metadata.dependencies, CleanDependency dep
  requiredRuby : ∀ r ∈ row.metadata.requiredRuby, Avoids [',', '\n'] r
  requiredRubygems : ∀ r ∈ row.metadata.requiredRubygems, Avoids [',', '\n'] r

/-- What holds of the rows of published gems: the checksum is a text of digits and no requirement is
empty. -/
structure PublishedRow (row : RubyCompactIndexRow) : Prop where
  gemName : row.gemName = row.gemKey
  sha256 : ∃ sha256, row.metadata.sha256 = some sha256 ∧ Avoids [',', '\n'] sha256
  requirements : ∀ dep ∈ row.metadata.dependencies, ∀ r ∈ dep.requirements, r ≠ ""

/-! ### Lines are read back -/

theorem decodeList_intercalate {sep : Char} {parts : List String}
    (h : ∀ s ∈ parts, sep ∉ s.toList ∧ s ≠ "") :
    decodeList sep (String.intercalate (String.ofList [sep]) parts) = parts := by
  by_cases hnil : parts = []
  · rw [hnil, decodeList]
    exact if_pos rfl
  · have hpieces := pieces_intercalate (fun s hs => (h s hs).1) hnil
    rw [decodeList, if_neg, hpieces]
    intro hempty
    rw [hempty, pieces_eq_singleton (by simp)] at hpieces
    exact (h "" (hpieces ▸ List.mem_cons_self)).2 rfl

def dependencyText (dep : RubyDependencyMetadata) : String :=
  dep.name ++ ":" ++ String.intercalate "&" dep.requirements

theorem avoids_dependencyText {dep : RubyDependencyMetadata} (h : CleanDependency dep) :
    Avoids [',', '|', '\n'] (dependencyText dep) := by
  have hsub : [',', '|', '\n'] ⊆ [':', ',', '|', '\n'] := by decide
  have hsub' : [',', '|', '\n'] ⊆ ['&', ',', '|', '\n'] := by decide
  have hcolon : Avoids [',', '|', '\n'] ":" := by decide
  have hamp : Avoids [',', '|', '\n'] "&" := by decide
  exact ((h.1.mono hsub).append hcolon).append
    (avoids_intercalate hamp fun r hr => (h.2 r hr).mono hsub')

theorem decodeDependency_text {dep : RubyDependencyMetadata} (h : CleanDependency dep)
    (hne : ∀ r ∈ dep.requirements, r ≠ "") : decodeDependency (dependencyText dep) = dep := by
  have hcut : cutFirst ':' (dependencyText dep) =
      (dep.name, String.intercalate "&" dep.requirements) := by
    have htext : dependencyText dep =
        dep.name ++ (String.ofList [':'] ++ String.intercalate "&" dep.requirements) :=
      String.append_assoc
    rw [htext, cutFirst_append (h.1 ':' (by decide))]
  have hlist : decodeList '&' (String.intercalate "&" dep.requirements) = dep.requirements :=
    decodeList_intercalate fun r hr => ⟨h.2 r hr '&' (by decide), hne r hr⟩
  rw [decodeDependency, hcut, hlist]

theorem decodeDependencies_format {dependencies : List RubyDependencyMetadata}
    (h : ∀ dep ∈ dependencies, CleanDependency dep)
    (hne : ∀ dep ∈ dependencies, ∀ r ∈ dep.requirements, r ≠ "") :
    (decodeList ',' (formatDependencies dependencies)).map decodeDependency = dependencies := by
  have hlist : decodeList ',' (formatDependencies dependencies) =
      dependencies.map dependencyText := by
    refine decodeList_intercalate fun s hs => ?_
    obtain ⟨dep, hdep, rfl⟩ := List.mem_map.mp hs
    refine ⟨avoids_dependencyText (h dep hdep) ',' (by decide), fun hempty => ?_⟩
    have hcolon : ':' ∈ (dependencyText dep).toList := by simp [dependencyText]
    have htext : dependencyText dep = "" := hempty
    rw [htext] at hcolon
    exact absurd hcolon (by simp)
  rw [hlist, List.map_map]
  refine (List.map_congr_left fun dep hdep => ?_).trans (List.map_id dependencies)
  exact decodeDependency_text (h dep hdep) (hne dep hdep)

def requirementTexts (entry : CompactIndexVersionEntry) : List String :=
  ["checksum:" ++ entry.sha256] ++ (entry.requiredRuby.map fun value => "ruby:" ++ value).toList ++
    (entry.requiredRubygems.map fun value => "rubygems:" ++ value).toList

structure CleanEntry (entry : CompactIndexVersionEntry) : Prop where
  version : Avoids [' ', ',', '\n'] entry.version
  dependencies : ∀ dep ∈ entry.dependencies,
    CleanDependency dep ∧ ∀ r ∈ dep.requirements, r ≠ ""
  sha256 : Avoids [',', '\n'] entry.sha256
  requiredRuby : ∀ r ∈ entry.requiredRuby, Avoids [',', '\n'] r
  requiredRubygems : ∀ r ∈ entry.requiredRubygems, Avoids [',', '\n'] r

section
variable {entry : CompactIndexVersionEntry}

theorem CleanEntry.avoids_requirementTexts (h : CleanEntry entry) {s : String}
    (hs : s ∈ requirementTexts entry) : Avoids [',', '\n'] s := by
  have hlabels : Avoids [',', '\n'] "checksum:" ∧ Avoids [',', '\n'] "ruby:" ∧
      Avoids [',', '\n'] "rubygems:" := by decide
  rw [requirementTexts, List.mem_append, List.mem_append] at hs
  rcases hs with (hs | hs) | hs
  · rw [List.mem_singleton.mp hs]
    exact hlabels.1.append h.sha256
  · obtain ⟨value, hvalue, rfl⟩ := Option.map_eq_some_iff.mp (Option.mem_toList.mp hs)
    exact hlabels.2.1.append (h.requiredRuby value hvalue)
  · obtain ⟨value, hvalue, rfl⟩ := Option.map_eq_some_iff.mp (Option.mem_toList.mp hs)
    exact hlabels.2.2.append (h.requiredRubygems value hvalue)

theorem map_cutFirst_requirementTexts (entry : CompactIndexVersionEntry) :
    (requirementTexts entry).map (cutFirst ':') =
      requirementsOf (some entry.sha256) entry.requiredRuby entry.requiredRubygems := by
  have hcut : ∀ text label value : String, text = label ++ String.ofList [':'] →
      ':' ∉ label.toList → cutFirst ':' (text ++ value) = (label, value) := by
    intro text label value htext hlabel
    rw [htext, String.append_assoc, cutFirst_append hlabel]
  have hchecksum : ∀ value : String, cutFirst ':' ("checksum:" ++ value) = ("checksum", value) :=
    fun value => hcut _ _ value (by decide) (by decide)
  have hruby : ∀ value : String, cutFirst ':' ("ruby:" ++ value) = ("ruby", value) :=
    fun value => hcut _ _ value (by decide) (by decide)
  have hrubygems : ∀ value : String, cutFirst ':' ("rubygems:" ++ value) = ("rubygems", value) :=
    fun value => hcut _ _ value (by decide) (by decide)
  rw [requirementTexts, requirementsOf, List.map_append, List.map_append, List.map_singleton,
    hchecksum]
  cases entry.requiredRuby <;> cases entry.requiredRubygems <;> simp [hruby, hrubygems]

def infoLineText (entry : CompactIndexVersionEntry) : String :=
  entry.version ++ " " ++ formatDependencies entry.dependencies ++ "|" ++ formatRequirements entry

theorem CleanEntry.avoids_formatDependencies (h : CleanEntry entry) :
    Avoids ['|', '\n'] (formatDependencies entry.dependencies) := by
  have hcomma : Avoids ['|', '\n'] "," := by decide
  refine avoids_intercalate hcomma fun part hpart => ?_
  obtain ⟨dep, hdep, rfl⟩ := List.mem_map.mp hpart
  exact (avoids_dependencyText (h.dependencies dep hdep).1).mono (by decide)

theorem CleanEntry.newline_notMem (h : CleanEntry entry) : '\n' ∉ (infoLineText entry).toList := by
  have hspace : Avoids ['\n'] " " ∧ Avoids ['\n'] "|" ∧ Avoids ['\n'] "," := by
    decide
  have hrequirements : Avoids ['\n'] (formatRequirements entry) :=
    avoids_intercalate hspace.2.2 fun part hpart =>
      (h.avoids_requirementTexts hpart).mono (by decide)
  have hversion : Avoids ['\n'] entry.version := h.version.mono (by decide)
  have hdependencies : Avoids ['\n'] (formatDependencies entry.dependencies) :=
    h.avoids_formatDependencies.mono (by decide)
  exact ((((hversion.append hspace.1).append hdependencies).append hspace.2.1).append
    hrequirements) '\n' List.mem_cons_self

theorem CleanEntry.decodeInfoLine_text (h : CleanEntry entry) :
    decodeInfoLine (infoLineText entry) = entry.infoLine := by
  have hline : infoLineText entry = entry.version ++ (String.ofList [' '] ++
      (formatDependencies entry.dependencies ++
        (String.ofList ['|'] ++ formatRequirements entry))) := by
    rw [infoLineText, String.append_assoc, String.append_assoc, String.append_assoc]
  have hspace : cutFirst ' ' (infoLineText entry) = (entry.version,
      formatDependencies entry.dependencies ++
        (String.ofList ['|'] ++ formatRequirements entry)) := by
    rw [hline, cutFirst_append (h.version ' ' (by decide))]
  have hbar : cutFirst '|' (formatDependencies entry.dependencies ++
      (String.ofList ['|'] ++ formatRequirements entry)) =
        (formatDependencies entry.dependencies, formatRequirements entry) :=
    cutFirst_append (h.avoids_formatDependencies '|' (by decide)) _
  have hrequirements : pieces ',' (formatRequirements entry) = requirementTexts entry :=
    pieces_intercalate (fun s hs => h.avoids_requirementTexts hs ',' (by decide))
      (List.cons_ne_nil _ _)
  rw [decodeInfoLine, hspace, hbar, hrequirements, map_cutFirst_requirementTexts,
    decodeDependencies_format (fun dep hdep => (h.dependencies dep hdep).1)
      fun dep hdep => (h.dependencies dep hdep).2]
  rfl

end

/-! ### Files are read back -/

theorem decodeInfo_buildInfoFile {entries : List CompactIndexVersionEntry}
    (h : ∀ entry ∈ entries, CleanEntry entry) :
    decodeInfo (buildInfoFile entries) = entries.map CompactIndexVersionEntry.infoLine := by
  have hfile : buildInfoFile entries = terminated '\n' ("---" :: entries.map infoLineText) := by
    rw [buildInfoFile, terminated, List.map_cons, String.join_cons, List.map_map]
    rfl
  have hlines : terminatedPieces '\n' (buildInfoFile entries) =
      "---" :: entries.map infoLineText := by
    rw [hfile]
    refine terminatedPieces_terminated fun s hs => ?_
    rcases List.mem_cons.mp hs with rfl | hs
    · decide
    · obtain ⟨entry, hentry, rfl⟩ := List.mem_map.mp hs
      exact (h entry hentry).newline_notMem
  rw [decodeInfo, hlines, List.drop_one, List.tail_cons, List.map_map]
  exact List.map_congr_left fun entry hentry => (h entry hentry).decodeInfoLine_text

theorem decodeNames_buildNamesFile {names : List String} (h : ∀ name ∈ names, '\n' ∉ name.toList) :
    decodeNames (buildNamesFile names) = names := by
  have hfile : buildNamesFile names = terminated '\n' ("---" :: names) := by
    rw [buildNamesFile, terminated, List.map_cons, String.join_cons]
    rfl
  rw [decodeNames, hfile, terminatedPieces_terminated, List.drop_one, List.tail_cons]
  intro s hs
  rcases List.mem_cons.mp hs with rfl | hs
  · decide
  · exact h s hs

def versionsLineText (line : VersionsLine) : String :=
  line.gemName ++ " " ++ String.intercalate "," line.versions ++ " " ++ line.infoMd5

structure CleanVersionsLine (line : VersionsLine) : Prop where
  gemName : Avoids [' ', '\n'] line.gemName
  versions : ∀ version ∈ line.versions, Avoids [' ', ',', '\n'] version
  versions_ne_nil : line.versions ≠ []
  infoMd5 : Avoids ['\n'] line.infoMd5

section
variable {line : VersionsLine}

theorem CleanVersionsLine.avoids_versions (h : CleanVersionsLine line) :
    Avoids [' ', '\n'] (String.intercalate "," line.versions) := by
  have hcomma : Avoids [' ', '\n'] "," := by decide
  exact avoids_intercalate hcomma fun version hversion =>
    (h.versions version hversion).mono (by decide)

theorem CleanVersionsLine.newline_notMem (h : CleanVersionsLine line) :
    '\n' ∉ (versionsLineText line).toList := by
  have hspace : Avoids ['\n'] " " := by decide
  have hname : Avoids ['\n'] line.gemName := h.gemName.mono (by decide)
  have hversions : Avoids ['\n'] (String.intercalate "," line.versions) :=
    h.avoids_versions.mono (by decide)
  exact ((((hname.append hspace).append hversions).append hspace).append h.infoMd5) '\n'
    List.mem_cons_self

theorem CleanVersionsLine.decodeVersionsLine_text (h : CleanVersionsLine line) :
    decodeVersionsLine (versionsLineText line) = line := by
  have hline : versionsLineText line = line.gemName ++ (String.ofList [' '] ++
      (String.intercalate "," line.versions ++ (String.ofList [' '] ++ line.infoMd5))) := by
    rw [versionsLineText, String.append_assoc, String.append_assoc, String.append_assoc]
  have hname : cutFirst ' ' (versionsLineText line) = (line.gemName,
      String.intercalate "," line.versions ++ (String.ofList [' '] ++ line.infoMd5)) := by
    rw [hline, cutFirst_append (h.gemName ' ' (by decide))]
  have hversions : cutFirst ' ' (String.intercalate "," line.versions ++
      (String.ofList [' '] ++ line.infoMd5)) =
        (String.intercalate "," line.versions, line.infoMd5) :=
    cutFirst_append (h.avoids_versions ' ' (by decide)) _
  have hpieces : pieces ',' (String.intercalate "," line.versions) = line.versions :=
    pieces_intercalate (fun version hversion => h.versions version hversion ',' (by decide))
      h.versions_ne_nil
  rw [decodeVersionsLine, hname, hversions, hpieces]

end

/-- The time of a `versions` file, which fits in a line. -/
structure CreatedAt where
  text : String
  newline_notMem : '\n' ∉ text.toList

theorem decodeVersions_buildVersionsFile {lines : List VersionsLine} (createdAt : CreatedAt)
    (h : ∀ line ∈ lines, CleanVersionsLine line) :
    decodeVersions (buildVersionsFile createdAt.text lines) = lines := by
  have hfile : buildVersionsFile createdAt.text lines = terminated '\n'
      (("created_at: " ++ createdAt.text) :: "---" :: lines.map versionsLineText) := by
    rw [buildVersionsFile, terminated, List.map_cons, String.join_cons, List.map_cons,
      String.join_cons, List.map_map]
    have hhead : "created_at: " ++ createdAt.text ++ "\n---\n" =
        "created_at: " ++ createdAt.text ++ String.ofList ['\n'] ++
          ("---" ++ String.ofList ['\n']) := by grind [String.ofList, String.append_assoc]
    rw [← String.append_assoc, ← hhead]
    rfl
  have hlines : terminatedPieces '\n' (buildVersionsFile createdAt.text lines) =
      ("created_at: " ++ createdAt.text) :: "---" :: lines.map versionsLineText := by
    rw [hfile]
    refine terminatedPieces_terminated fun s hs => ?_
    rcases List.mem_cons.mp hs with rfl | hs
    · rw [String.toList_append, List.mem_append, not_or]
      exact ⟨by decide, createdAt.newline_notMem⟩
    · rcases List.mem_cons.mp hs with rfl | hs
      · decide
      · obtain ⟨line, hline, rfl⟩ := List.mem_map.mp hs
        exact (h line hline).newline_notMem
  have hdrop : (("created_at: " ++ createdAt.text) :: "---" :: lines.map versionsLineText).drop 2 =
      lines.map versionsLineText := rfl
  rw [decodeVersions, hlines, hdrop, List.map_map]
  refine (List.map_congr_left fun line hline => ?_).trans (List.map_id lines)
  exact (h line hline).decodeVersionsLine_text

/-! ### The versions of each gem -/

def versionsOf (key : String) (grouped : List GemGroup) : List CompactIndexVersionEntry :=
  grouped.flatMap fun group => if group.gemKey = key then group.versions else []

theorem versionsOf_cons (key : String) (group : GemGroup) (rest : List GemGroup) :
    versionsOf key (group :: rest) =
      (if group.gemKey = key then group.versions else []) ++ versionsOf key rest :=
  List.flatMap_cons

theorem versionsOf_eq_nil {key : String} {grouped : List GemGroup}
    (h : ∀ group ∈ grouped, group.gemKey ≠ key) : versionsOf key grouped = [] := by
  rw [versionsOf, List.flatMap_eq_nil_iff]
  exact fun group hgroup => if_neg (h group hgroup)

theorem versionsOf_gemKey {grouped : List GemGroup} (hordered : Ordered grouped)
    {group : GemGroup} (h : group ∈ grouped) :
    versionsOf group.gemKey grouped = group.versions := by
  induction grouped with
  | nil => exact absurd h List.not_mem_nil
  | cons first rest ih =>
    obtain ⟨hhead, htail⟩ := List.pairwise_cons.mp hordered
    rw [versionsOf_cons]
    rcases List.mem_cons.mp h with rfl | h
    · rw [if_pos rfl, versionsOf_eq_nil, List.append_nil]
      intro other hother heq
      exact absurd (heq ▸ hhead other hother) (String.lt_irrefl _)
    · have hne : first.gemKey ≠ group.gemKey := fun heq =>
        absurd (heq ▸ hhead group h) (String.lt_irrefl _)
      rw [if_neg hne, List.nil_append, ih htail h]

theorem versionsOf_addRow {gemKey gemName key : String} {entry : CompactIndexVersionEntry}
    {grouped : List GemGroup} (hordered : Ordered grouped) :
    versionsOf key (addRow gemKey gemName entry grouped) =
      versionsOf key grouped ++ if gemKey = key then [entry] else [] := by
  induction grouped with
  | nil =>
    rw [addRow, versionsOf_cons]
    exact List.append_nil _
  | cons group rest ih =>
    obtain ⟨hhead, htail⟩ := List.pairwise_cons.mp hordered
    have hbelow : ∀ {key : String}, (∀ other ∈ group :: rest, key < other.gemKey) →
        versionsOf key (group :: rest) = [] := fun hlt =>
      versionsOf_eq_nil fun other hother hsame =>
        absurd (hsame ▸ hlt other hother) (String.lt_irrefl _)
    rw [addRow]
    by_cases heq : gemKey = group.gemKey
    · rw [if_pos heq, versionsOf_cons, versionsOf_cons, ← heq]
      by_cases hkey : gemKey = key
      · have hrest : versionsOf key rest = [] := versionsOf_eq_nil fun other hother hsame =>
          absurd (hsame ▸ hkey ▸ heq ▸ hhead other hother) (String.lt_irrefl _)
        rw [if_pos hkey, if_pos hkey, if_pos hkey, hrest, List.append_nil, List.append_nil]
      · rw [if_neg hkey, if_neg hkey, if_neg hkey, List.append_nil]
    · rw [if_neg heq]
      by_cases hlt : gemKey < group.gemKey
      · rw [if_pos hlt, versionsOf_cons]
        grind
      · rw [if_neg hlt, versionsOf_cons, versionsOf_cons, ih htail, List.append_assoc]

def RubyCompactIndexRow.entry (row : RubyCompactIndexRow) : CompactIndexVersionEntry :=
  ⟨row.version, row.metadata.dependencies, row.metadata.sha256.getD "",
    row.metadata.requiredRuby, row.metadata.requiredRubygems⟩

theorem PublishedRow.versionEntry_eq {row : RubyCompactIndexRow} (h : PublishedRow row) :
    versionEntry row = .ok row.entry := by
  grind [sha256, versionEntry, RubyCompactIndexRow.entry]

theorem PublishedRow.infoLine_entry {row : RubyCompactIndexRow} (h : PublishedRow row) :
    row.entry.infoLine = row.infoLine := by
  obtain ⟨sha256, hsha256, -⟩ := h.sha256
  rw [RubyCompactIndexRow.infoLine, CompactIndexVersionEntry.infoLine, RubyCompactIndexRow.entry,
    hsha256, Option.getD_some]

theorem CleanRow.cleanEntry {row : RubyCompactIndexRow} (h : CleanRow row)
    (hpublished : PublishedRow row) : CleanEntry row.entry := by
  obtain ⟨sha256, hsha256, havoids⟩ := hpublished.sha256
  refine ⟨h.version, fun dep hdep => ⟨h.dependencies dep hdep, hpublished.requirements dep hdep⟩,
    ?_, h.requiredRuby, h.requiredRubygems⟩
  rw [RubyCompactIndexRow.entry, hsha256]
  exact havoids

structure Grouped (rows : List RubyCompactIndexRow) (grouped : List GemGroup) : Prop where
  ordered : Ordered grouped
  gemName : ∀ group ∈ grouped, group.gemName = group.gemKey
  mem_keys : ∀ key, key ∈ grouped.map GemGroup.gemKey ↔ key ∈ rows.map RubyCompactIndexRow.gemKey
  versions : ∀ group ∈ grouped, group.versions =
    (rows.filter fun row => row.gemKey = group.gemKey).map RubyCompactIndexRow.entry

theorem gemName_addRow {gemKey gemName : String} (entry : CompactIndexVersionEntry)
    {grouped : List GemGroup} (hname : gemName = gemKey)
    (h : ∀ group ∈ grouped, group.gemName = group.gemKey) :
    ∀ group ∈ addRow gemKey gemName entry grouped, group.gemName = group.gemKey := by
  induction grouped with
  | nil =>
    intro group hgroup
    rw [addRow, List.mem_singleton] at hgroup
    rw [hgroup, hname]
  | cons first rest ih =>
    intro group hgroup
    have hfirst := h first List.mem_cons_self
    have hrest := ih fun other hother => h other (List.mem_cons_of_mem first hother)
    rw [addRow] at hgroup
    grind

/-- Rows that are published are grouped; the versions of a gem are in the order of its rows. -/
theorem exists_groupRows {rows : List RubyCompactIndexRow} (start : List GemGroup)
    (hordered : Ordered start) (hnames : ∀ group ∈ start, group.gemName = group.gemKey)
    (hrows : ∀ row ∈ rows, PublishedRow row) :
    ∃ grouped, groupRows start rows = .ok grouped ∧
      (∀ group ∈ grouped, group.gemName = group.gemKey) ∧
      ∀ key, versionsOf key grouped = versionsOf key start ++
        (rows.filter fun row => row.gemKey = key).map RubyCompactIndexRow.entry := by
  induction rows generalizing start with
  | nil => exact ⟨start, rfl, hnames, fun key => (List.append_nil _).symm⟩
  | cons row rows ih =>
    have hrow := hrows row List.mem_cons_self
    obtain ⟨grouped, hgrouped, hgroups, hversions⟩ := ih _ (ordered_addRow hordered)
      (gemName_addRow row.entry hrow.gemName hnames)
      fun other hother => hrows other (List.mem_cons_of_mem row hother)
    refine ⟨grouped, ?_, hgroups, fun key => ?_⟩
    · rw [groupRows, hrow.versionEntry_eq]
      exact hgrouped
    · rw [hversions, versionsOf_addRow hordered, List.append_assoc]
      grind

theorem exists_grouped {rows : List RubyCompactIndexRow} (hrows : ∀ row ∈ rows, PublishedRow row) :
    ∃ grouped, groupRows [] rows = .ok grouped ∧ Grouped rows grouped := by
  obtain ⟨grouped, hgrouped, hnames, hversions⟩ := exists_groupRows []
    List.Pairwise.nil (fun group hgroup => absurd hgroup List.not_mem_nil) hrows
  obtain ⟨hordered, hkeys⟩ := of_groupRows List.Pairwise.nil hgrouped
  refine ⟨grouped, hgrouped, hordered, hnames, fun key => (hkeys key).trans (by simp), ?_⟩
  intro group hgroup
  rw [← versionsOf_gemKey hordered hgroup, hversions]
  rfl

/-! ### What the index says -/

section
variable {md5Hex : Bytes → String} {rows : List RubyCompactIndexRow} {grouped : List GemGroup}

def infoFile (group : GemGroup) : String × String :=
  (group.gemKey, buildInfoFile (sortedVersions group))

def versionsLine (md5Hex : Bytes → String) (group : GemGroup) : VersionsLine :=
  ⟨group.gemName, (sortedVersions group).map CompactIndexVersionEntry.version,
    md5Hex (intoBytes (buildInfoFile (sortedVersions group)))⟩

theorem Grouped.artifacts_eq (h : Grouped rows grouped) (hgrouped : groupRows [] rows = .ok grouped)
    (createdAt : String) : buildCompactIndexArtifacts md5Hex createdAt rows = .ok
      ⟨buildNamesFile (grouped.map GemGroup.gemKey),
        buildVersionsFile createdAt (grouped.map (versionsLine md5Hex)), grouped.map infoFile⟩ := by
  have hsorted : (grouped.map (versionsLine md5Hex)).insertionSort
      (fun a b => a.gemName ≤ b.gemName) = grouped.map (versionsLine md5Hex) := by
    refine List.Pairwise.insertionSort_eq (List.pairwise_map.mpr ?_)
    refine h.ordered.imp_of_mem fun {a b} ha hb hlt => ?_
    have hname : ∀ group ∈ grouped, (versionsLine md5Hex group).gemName = group.gemKey := h.gemName
    rw [hname a ha, hname b hb]
    exact String.not_lt.mp (String.lt_asymm hlt)
  rw [buildCompactIndexArtifacts, hgrouped, ← hsorted]
  rfl

theorem Grouped.entry_of_mem (h : Grouped rows grouped) {group : GemGroup}
    (hgroup : group ∈ grouped) {entry : CompactIndexVersionEntry}
    (hentry : entry ∈ sortedVersions group) :
    ∃ row ∈ rows, row.entry = entry := by
  rw [sortedVersions, (List.perm_insertionSort _ _).mem_iff, h.versions group hgroup] at hentry
  grind

theorem Grouped.row_of_mem (h : Grouped rows grouped) {group : GemGroup}
    (hgroup : group ∈ grouped) :
    ∃ row ∈ rows, row.gemKey = group.gemKey ∧ row.entry ∈ sortedVersions group := by
  obtain ⟨row, hrow, hkey⟩ := List.mem_map.mp ((h.mem_keys _).mp (List.mem_map_of_mem hgroup))
  refine ⟨row, hrow, hkey, ?_⟩
  rw [sortedVersions, (List.perm_insertionSort _ _).mem_iff, h.versions group hgroup]
  exact List.mem_map_of_mem (List.mem_filter.mpr ⟨hrow, by simpa using hkey⟩)

theorem Grouped.faithful (h : Grouped rows grouped) (hrows : ∀ row ∈ rows, PublishedRow row)
    (hclean : ∀ row ∈ rows, CleanRow row) (hmd5 : ∀ content, Avoids ['\n'] (md5Hex content))
    (createdAt : CreatedAt) : Faithful md5Hex rows
      ⟨buildNamesFile (grouped.map GemGroup.gemKey),
        buildVersionsFile createdAt.text (grouped.map (versionsLine md5Hex)),
        grouped.map infoFile⟩ := by
  have hentries : ∀ group ∈ grouped, ∀ entry ∈ sortedVersions group, CleanEntry entry := by
    intro group hgroup entry hentry
    obtain ⟨row, hrow, rfl⟩ := h.entry_of_mem hgroup hentry
    exact (hclean row hrow).cleanEntry (hrows row hrow)
  have hdecode : ∀ group ∈ grouped, decodeInfo (buildInfoFile (sortedVersions group)) =
      (sortedVersions group).map CompactIndexVersionEntry.infoLine :=
    fun group hgroup => decodeInfo_buildInfoFile (hentries group hgroup)
  have hkeys : ∀ key ∈ grouped.map GemGroup.gemKey, Avoids [' ', '\n'] key := by
    intro key hkey
    obtain ⟨row, hrow, rfl⟩ := List.mem_map.mp ((h.mem_keys key).mp hkey)
    exact (hclean row hrow).gemKey
  have hnames : decodeNames (buildNamesFile (grouped.map GemGroup.gemKey)) =
      grouped.map GemGroup.gemKey :=
    decodeNames_buildNamesFile fun key hkey => hkeys key hkey '\n' (by decide)
  constructor
  · rw [hnames]
    refine List.pairwise_map.mpr (h.ordered.imp fun {a b} hlt heq => ?_)
    exact absurd (heq ▸ hlt) (String.lt_irrefl _)
  · rw [hnames]
    exact h.mem_keys
  · rw [hnames, List.map_map]
    rfl
  · intro file hfile
    obtain ⟨group, hgroup, rfl⟩ := List.mem_map.mp hfile
    have hinfo : (sortedVersions group).map CompactIndexVersionEntry.infoLine |>.Perm
        (group.versions.map CompactIndexVersionEntry.infoLine) :=
      (List.perm_insertionSort _ _).map _
    have hlines : ((rows.filter fun row => row.gemKey = group.gemKey).map
        RubyCompactIndexRow.entry).map CompactIndexVersionEntry.infoLine =
          (rows.filter fun row => row.gemKey = group.gemKey).map RubyCompactIndexRow.infoLine := by
      rw [List.map_map]
      exact List.map_congr_left fun row hrow =>
        (hrows row (List.mem_filter.mp hrow).1).infoLine_entry
    rw [h.versions group hgroup, hlines] at hinfo
    rw [infoFile, hdecode group hgroup]
    exact hinfo
  · have hlines : ∀ line ∈ grouped.map (versionsLine md5Hex), CleanVersionsLine line := by
      intro line hline
      obtain ⟨group, hgroup, rfl⟩ := List.mem_map.mp hline
      obtain ⟨row, hrow, hkey, hentry⟩ := h.row_of_mem hgroup
      refine ⟨?_, ?_, ?_, hmd5 _⟩
      · rw [versionsLine, h.gemName group hgroup]
        exact hkeys _ (List.mem_map_of_mem hgroup)
      · intro version hversion
        obtain ⟨entry, hentry, rfl⟩ := List.mem_map.mp hversion
        exact (hentries group hgroup entry hentry).version
      · exact List.ne_nil_of_mem (List.mem_map_of_mem hentry)
    rw [decodeVersions_buildVersionsFile createdAt hlines, List.map_map]
    refine List.map_congr_left fun group hgroup => ?_
    rw [versionsLine, Function.comp_apply, infoFile, hdecode group hgroup, List.map_map,
      h.gemName group hgroup]
    rfl

end

/-! ### What is read has no separators -/

theorem of_mem_decodeList {sep : Char} {s x : String} (h : x ∈ decodeList sep s) :
    sep ∉ x.toList ∧ ∀ ch ∈ x.toList, ch ∈ s.toList := by
  grind [decodeList, absurd, notMem_of_mem_pieces, mem_of_mem_pieces]

theorem cleanDependency_decodeDependency {s : String} (h : Avoids [',', '|', '\n'] s) :
    CleanDependency (decodeDependency s) := by
  constructor
  · grind [cutFirst, notMem_fst_cutFirst, mem_of_mem_fst_cutFirst, Avoids, decodeDependency]
  · intro r hr ch hch hin
    obtain ⟨hamp, hmem⟩ := of_mem_decodeList hr
    rcases List.mem_cons.mp hch with heq | hch
    · exact hamp (heq ▸ hin)
    · exact h ch hch (mem_of_mem_snd_cutFirst (hmem ch hin))

section
variable {raw : String} (hraw : '\n' ∉ raw.toList)

include hraw

theorem avoids_version_decodeInfoLine : Avoids [' ', '\n'] (decodeInfoLine raw).version := by
  grind [cutFirst, notMem_fst_cutFirst, mem_of_mem_fst_cutFirst, Avoids, decodeInfoLine]

theorem cleanDependency_decodeInfoLine {dep : RubyDependencyMetadata}
    (h : dep ∈ (decodeInfoLine raw).dependencies) : CleanDependency dep := by
  rw [dependencies_decodeInfoLine, List.mem_map] at h
  obtain ⟨x, hx, rfl⟩ := h
  obtain ⟨hcomma, hmem⟩ := of_mem_decodeList hx
  have hbar : '|' ∉ x.toList := fun hin => notMem_fst_cutFirst _ _ (hmem _ hin)
  have hline : '\n' ∉ x.toList := fun hin =>
    hraw (mem_of_mem_snd_cutFirst (mem_of_mem_fst_cutFirst (hmem _ hin)))
  refine cleanDependency_decodeDependency ?_
  simp_all [Avoids, List.not_mem_nil]

theorem avoids_requirement_decodeInfoLine {requirement : String × String}
    (h : requirement ∈ (decodeInfoLine raw).requirements) : Avoids [',', '\n'] requirement.2 := by
  rw [requirements_decodeInfoLine, List.mem_map] at h
  obtain ⟨x, hx, rfl⟩ := h
  intro ch hch hin
  have hin : ch ∈ x.toList := mem_of_mem_snd_cutFirst hin
  grind [notMem_of_mem_pieces, mem_of_mem_snd_cutFirst, mem_of_mem_pieces]

end

theorem Faithful.cleanRow {md5Hex : Bytes → String} {rows : List RubyCompactIndexRow}
    {artifacts : CompactIndexArtifacts} (h : Faithful md5Hex rows artifacts)
    {row : RubyCompactIndexRow} (hrow : row ∈ rows) : CleanRow row := by
  have hname : row.gemKey ∈ decodeNames artifacts.names :=
    (h.mem_names _).mpr (List.mem_map_of_mem hrow)
  obtain ⟨⟨key, info⟩, hfile, hkey⟩ := List.mem_map.mp (h.infos ▸ hname)
  obtain rfl : key = row.gemKey := hkey
  have hmem : row.infoLine ∈ decodeInfo info := (h.info _ hfile).mem_iff.mpr
    (List.mem_map_of_mem (List.mem_filter.mpr ⟨hrow, by simp⟩))
  obtain ⟨text, htext, hinfo⟩ := List.mem_map.mp hmem
  have htext : '\n' ∉ text.toList := notMem_of_mem_terminatedPieces (List.mem_of_mem_drop htext)
  have hline : (⟨row.gemKey, (decodeInfo info).map InfoLine.version, md5Hex (intoBytes info)⟩ :
      VersionsLine) ∈ decodeVersions artifacts.versions := by
    rw [h.versions]
    exact List.mem_map_of_mem hfile
  obtain ⟨raw, -, hraw⟩ := List.mem_map.mp hline
  obtain ⟨hcut, hpieces, -⟩ := VersionsLine.mk.inj hraw
  have hversion : Avoids [' ', '\n'] row.version := by
    have hread := avoids_version_decodeInfoLine htext
    rw [hinfo] at hread
    exact hread
  have hdependencies : ∀ dep ∈ row.metadata.dependencies, CleanDependency dep := by
    intro dep hdep
    have hread : dep ∈ (decodeInfoLine text).dependencies := by
      rw [hinfo]
      exact hdep
    exact cleanDependency_decodeInfoLine htext hread
  have hrequirements : ∀ requirement ∈ row.infoLine.requirements,
      Avoids [',', '\n'] requirement.2 := by
    rw [← hinfo]
    exact fun requirement hin => avoids_requirement_decodeInfoLine htext hin
  constructor
  · intro ch hch hin
    rcases List.mem_cons.mp hch with heq | hch
    · exact notMem_fst_cutFirst ' ' raw (hcut ▸ heq ▸ hin)
    · rw [List.mem_singleton.mp hch] at hin
      exact notMem_of_mem_terminatedPieces (List.mem_of_mem_drop hname) hin
  · have hcomma : ',' ∉ row.version.toList := by
      have hin : row.version ∈ pieces ',' (cutFirst ' ' (cutFirst ' ' raw).2).1 := by
        rw [hpieces]
        exact List.mem_map_of_mem hmem
      exact notMem_of_mem_pieces hin
    simp_all [Avoids]
  · exact hdependencies
  · intro r hr
    refine hrequirements ("ruby", r) (List.mem_append_left _ (List.mem_append_right _ ?_))
    rw [Option.mem_def.mp hr]
    exact List.mem_cons_self
  · intro r hr
    refine hrequirements ("rubygems", r) (List.mem_append_right _ ?_)
    rw [Option.mem_def.mp hr]
    exact List.mem_cons_self

/-! ### Published gems -/

structure PublishedGem (gemFormat : GemFormat) where
  metadata : Bytes
  content : Bytes
  parsed : ParsedGemSpec
  accepted : parseGemspecMetadata gemFormat metadata = .ok parsed

structure Digests where
  sha256 : Bytes → Bytes
  md5 : Bytes → Bytes
  buildSpecsGz : List SpecsIndexEntry → Option Bytes

def Digests.format (digests : Digests) : RubyFormat where
  sha256Hex content := Sha256.hexText.hex (digests.sha256 content)
  md5Hex content := Sha256.hexText.hex (digests.md5 content)
  buildSpecsGz := digests.buildSpecsGz

theorem avoids_hex (digest : Bytes) : Avoids [',', '\n'] (Sha256.hexText.hex digest) := by
  intro ch hch hin
  have hhex := Sha256.hexText.isLowerHex_of_mem digest ch hin
  have hnot : isLowerHex ',' = false ∧ isLowerHex '\n' = false := by decide
  grind

variable (c : Collation) {gemFormat : GemFormat} (digests : Digests)

def PublishedGem.row (gem : PublishedGem gemFormat) : RubyCompactIndexRow :=
  let request := Request.publish gem.parsed gem.content
  ⟨request.packageKey c, request.packageKey c, request.versionKey,
    gemMetadata c digests.format gem.parsed gem.content⟩

/-- No field of the gem has a separator that ends it in the index. -/
structure CleanGem (parsed : ParsedGemSpec) : Prop where
  name : Avoids [' ', '\n'] (c.toLowercase parsed.name)
  version : Avoids [' ', ',', '\n'] (versionKey parsed.version parsed.platform)
  dependencies : ∀ dep ∈ parsed.dependencies, CleanDependency dep
  requiredRuby : ∀ r ∈ parsed.requiredRuby, Avoids [',', '\n'] r
  requiredRubygems : ∀ r ∈ parsed.requiredRubygems, Avoids [',', '\n'] r

theorem cleanRow_row_iff (gem : PublishedGem gemFormat) :
    CleanRow (gem.row c digests) ↔ CleanGem c gem.parsed :=
  ⟨fun h => ⟨h.1, h.2, h.3, h.4, h.5⟩, fun h => ⟨h.1, h.2, h.3, h.4, h.5⟩⟩

/-! ### Requirements are not empty -/

theorem constraint_ne_empty (op version : String) : op ++ " " ++ version ≠ "" := by
  intro hempty
  have hlength := congrArg String.length hempty
  simp at hlength

theorem ne_empty_of_mem_extractPairs {values : List RbAny} {out : List String}
    (h : extractPairs values = some out) : ∀ r ∈ out, r ≠ "" := by
  induction values using extractPairs.induct generalizing out with
  | case1 =>
    rw [extractPairs] at h
    obtain rfl := Option.some.inj h
    exact fun r hr => absurd hr List.not_mem_nil
  | case2 op version items ih =>
    rw [extractPairs] at h
    obtain ⟨opText, -, h⟩ := Option.bind_eq_some_iff.mp h
    obtain ⟨versionText, -, h⟩ := Option.bind_eq_some_iff.mp h
    obtain ⟨rest, hrest, rfl⟩ := Option.map_eq_some_iff.mp h
    exact List.forall_mem_cons.mpr ⟨constraint_ne_empty _ _, ih hrest⟩
  | case3 pair items hpair ih =>
    rw [extractPairs] at h
    · exact ih h
    · exact hpair
  | case4 value items hvalue =>
    rw [extractPairs] at h
    · cases h
    · exact hvalue
    · assumption

theorem ne_empty_of_mem_extractYamlPairs {values : List YamlValue} {out : List String}
    (h : extractYamlPairs values = some out) : ∀ r ∈ out, r ≠ "" := by
  induction values generalizing out with
  | nil =>
    rw [extractYamlPairs] at h
    obtain rfl := Option.some.inj h
    exact fun r hr => absurd hr List.not_mem_nil
  | cons entry entries ih =>
    rw [extractYamlPairs] at h
    split at h
    · cases h
    · obtain ⟨opText, -, h⟩ := Option.bind_eq_some_iff.mp h
      obtain ⟨versionText, -, h⟩ := Option.bind_eq_some_iff.mp h
      obtain ⟨rest, hrest, rfl⟩ := Option.map_eq_some_iff.mp h
      exact List.forall_mem_cons.mpr ⟨constraint_ne_empty _ _, ih hrest⟩
    · exact ih h

def RequirementsNonempty (parsed : ParsedGemSpec) : Prop :=
  ∀ dep ∈ parsed.dependencies, ∀ r ∈ dep.requirements, r ≠ ""

theorem requirementsNonempty_of_extractGemspec {value : RbAny} {parsed : ParsedGemSpec}
    (h : extractGemspec value = .ok parsed) : RequirementsNonempty parsed := by
  have hrequirements : ∀ (requirement : Option RbAny) (r : String),
      r ∈ (requirement.bind extractRequirementConstraints).getD [] → r ≠ "" := by
    intro requirement r hr
    cases hread : requirement.bind extractRequirementConstraints with
    | none =>
      rw [hread] at hr
      exact absurd hr List.not_mem_nil
    | some constraints =>
      rw [hread, Option.getD_some] at hr
      obtain ⟨requirement, -, hread⟩ := Option.bind_eq_some_iff.mp hread
      grind [extractRequirementConstraints.eq_def, ne_empty_of_mem_extractPairs]
  have hdependencies : ∀ values : List RbAny, ∀ dep ∈ extractDependencies values,
      ∀ r ∈ dep.requirements, r ≠ "" := by
    intro values dep hdep r hr
    obtain ⟨value, -, hread⟩ := List.mem_filterMap.mp hdep
    rw [extractDependency.eq_def] at hread
    split at hread
    · split_ifs at hread
      obtain ⟨name, -, rfl⟩ := Option.map_eq_some_iff.mp hread
      exact hrequirements _ r hr
    · cases hread
  rw [extractGemspec.eq_def] at h
  repeat' split at h
  all_goals cases h
  · exact hdependencies _
  · exact fun dep hdep => absurd hdep List.not_mem_nil

theorem requirementsNonempty_of_extractYamlGemspec {spec : YamlValue} {parsed : ParsedGemSpec}
    (h : extractYamlGemspec spec = .ok parsed) : RequirementsNonempty parsed := by
  have hrequirements : ∀ (requirement : Option YamlValue) (r : String),
      r ∈ (requirement.bind extractYamlRequirementConstraints).getD [] → r ≠ "" := by
    intro requirement r hr
    cases hread : requirement.bind extractYamlRequirementConstraints with
    | none =>
      rw [hread] at hr
      exact absurd hr List.not_mem_nil
    | some constraints =>
      rw [hread, Option.getD_some] at hr
      obtain ⟨requirement, -, hread⟩ := Option.bind_eq_some_iff.mp hread
      obtain ⟨map, -, hread⟩ := Option.bind_eq_some_iff.mp hread
      obtain ⟨requirements, -, hread⟩ := Option.bind_eq_some_iff.mp hread
      obtain ⟨items, -, hread⟩ := Option.bind_eq_some_iff.mp hread
      exact ne_empty_of_mem_extractYamlPairs hread r hr
  have hdependencies : ∀ values : List YamlValue, ∀ dep ∈ extractYamlDependencies values,
      ∀ r ∈ dep.requirements, r ≠ "" := by
    intro values dep hdep r hr
    obtain ⟨value, -, hread⟩ := List.mem_filterMap.mp hdep
    obtain ⟨map, -, hread⟩ := Option.bind_eq_some_iff.mp hread
    dsimp only at hread
    split_ifs at hread
    obtain ⟨name, -, rfl⟩ := Option.map_eq_some_iff.mp hread
    exact hrequirements _ r hr
  rw [extractYamlGemspec] at h
  repeat' split at h
  all_goals cases h
  · exact hdependencies _
  · exact fun dep hdep => absurd hdep List.not_mem_nil

theorem requirementsNonempty_of_parse {metadata : Bytes} {parsed : ParsedGemSpec}
    (h : parseGemspecMetadata gemFormat metadata = .ok parsed) : RequirementsNonempty parsed := by
  have hyaml : ∀ {spec : ParsedGemSpec}, parseYamlGemspec gemFormat metadata = .ok spec →
      RequirementsNonempty spec := by grind [parseYamlGemspec,
                                     requirementsNonempty_of_extractYamlGemspec]
  rw [parseGemspecMetadata] at h
  split_ifs at h
  · exact hyaml h
  · split at h
    · exact requirementsNonempty_of_extractGemspec h
    grind

theorem publishedRow_row (gem : PublishedGem gemFormat) : PublishedRow (gem.row c digests) :=
  ⟨rfl, ⟨_, rfl, avoids_hex _⟩, requirementsNonempty_of_parse gem.accepted⟩

/-! ### The index of published gems -/

/-- **The compact index says what its rows say** iff no published gem has a field with a separator
that ends it. -/
theorem compactIndex_faithful_iff (createdAt : CreatedAt) (gems : List (PublishedGem gemFormat)) :
    (∃ artifacts, buildCompactIndexArtifacts digests.format.md5Hex createdAt.text
        (gems.map fun gem => gem.row c digests) = .ok artifacts ∧
      Faithful digests.format.md5Hex (gems.map fun gem => gem.row c digests) artifacts) ↔
      ∀ gem ∈ gems, CleanGem c gem.parsed := by
  have hpublished : ∀ row ∈ gems.map fun gem => gem.row c digests, PublishedRow row := by
    intro row hrow
    obtain ⟨gem, -, rfl⟩ := List.mem_map.mp hrow
    exact publishedRow_row c digests gem
  constructor
  · rintro ⟨artifacts, -, hfaithful⟩ gem hgem
    exact (cleanRow_row_iff c digests gem).mp
      (hfaithful.cleanRow (List.mem_map_of_mem (f := fun gem => gem.row c digests) hgem))
  · intro hclean
    have hrows : ∀ row ∈ gems.map fun gem => gem.row c digests, CleanRow row := by
      intro row hrow
      obtain ⟨gem, hgem, rfl⟩ := List.mem_map.mp hrow
      exact (cleanRow_row_iff c digests gem).mpr (hclean gem hgem)
    obtain ⟨grouped, hgrouped, hok⟩ := exists_grouped hpublished
    refine ⟨_, hok.artifacts_eq hgrouped createdAt.text, hok.faithful hpublished hrows ?_ createdAt⟩
    exact fun content => (avoids_hex _).mono (by decide)

/-! ### A name with a line break -/

/-- The gemspec of a gem whose name has a line break. -/
def brokenYaml : YamlValue :=
  .mapping [(.string "name", .string "demo\nrails"), (.string "version", .string "1.0.0")]

def brokenYamlText : String := "\nname: \"demo\\nrails\"\nversion: 1.0.0\n"

def brokenGemFormat : GemFormat where
  fromSlice metadata :=
    if metadata = intoBytes ("---" ++ brokenYamlText) then .ok brokenYaml else .error "unknown"
  fromReader _ := .error "unknown"

def brokenGem : PublishedGem brokenGemFormat where
  metadata := intoBytes ("---" ++ brokenYamlText)
  content := []
  parsed := ⟨"demo\nrails", "1.0.0", none, [], none, none⟩
  accepted := by
    aesop

/-- A gem whose name has a line break adds the name of another gem. -/
theorem not_faithful_lineBreak : ¬ ∀ (c : Collation) (gemFormat : GemFormat) (digests : Digests)
    (createdAt : CreatedAt) (gems : List (PublishedGem gemFormat)), ∃ artifacts,
      buildCompactIndexArtifacts digests.format.md5Hex createdAt.text
        (gems.map fun gem => gem.row c digests) = .ok artifacts ∧
      Faithful digests.format.md5Hex (gems.map fun gem => gem.row c digests) artifacts := by
  intro h
  obtain ⟨artifacts, -, hfaithful⟩ := h .exact brokenGemFormat ⟨fun _ => [], fun _ => [],
    fun _ => none⟩ ⟨"", by decide⟩ [brokenGem]
  have hclean := hfaithful.cleanRow List.mem_cons_self
  exact hclean.gemKey '\n' (by decide) (by decide)

end Pkgly.Ruby
