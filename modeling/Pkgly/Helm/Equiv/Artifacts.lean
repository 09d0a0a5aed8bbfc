import Pkgly.Algorithm.Semver
import Pkgly.Helm.Equiv.Publish
import Pkgly.Helm.Index

/-!
# The paths of charts

A chart or its provenance file is read back from the paths at which it may be asked for, and stored
at the path in the index, iff its version has no dash (`artifact_roundTrip_iff`).
-/

namespace Pkgly.Helm

open StoragePath

def isChartName (name : String) : Bool :=
  (name.toList.all fun ch => ch.isLower || ch.isDigit || ch == '-') &&
    name.toList.getLast?.any (· != '-')

def ChartArtifactPath.canonicalFileName (artifact : ChartArtifactPath) : String :=
  artifact.name ++ "-" ++ artifact.version ++
    if artifact.isProvenance then ".tgz.prov" else ".tgz"

def ChartArtifactPath.directories (artifact : ChartArtifactPath) : List (List String) :=
  [[], ["charts"], ["charts", artifact.name]]

def requestPath (directory : List String) (file : String) : String :=
  "/".intercalate (directory ++ [file])

structure RoundTrips (artifact : ChartArtifactPath) : Prop where
  parsed : ∀ directory ∈ artifact.directories,
    parseChartArtifact (.ofString (requestPath directory artifact.canonicalFileName)) =
      some artifact
  canonical : artifact.canonicalStoragePath.toString' =
    requestPath ["charts", artifact.name] artifact.canonicalFileName
  advertised : ∀ baseUrl stored,
    stored.canonicalPath = artifact.canonicalStoragePath.toString' →
      (indexEntry baseUrl stored).urls =
        [String.ofList (trimEndMatches '/' baseUrl.toList) ++ "/" ++
          requestPath ["charts", artifact.name] artifact.canonicalFileName]

/-! ### The last dash -/

variable {name version : List Char}

theorem rsplitOnce_append (hversion : '-' ∉ version) :
    rsplitOnce '-' (name ++ '-' :: version) = some (name, version) := by
  have hcut := @splitOnce_append '-' [] version.reverse (by simpa using hversion) name.reverse
  rw [rsplitOnce, List.reverse_append, List.reverse_cons, List.append_assoc]
  simpa using congrArg (Option.map fun parts => (parts.2.reverse, parts.1.reverse)) hcut

theorem notMem_of_rsplitOnce {text : List Char} (h : rsplitOnce '-' text = some (name, version)) :
    '-' ∉ version := by
  obtain ⟨⟨front, back⟩, hcut, hparts⟩ := Option.map_eq_some_iff.mp h
  obtain ⟨-, rfl⟩ := Prod.mk.inj hparts
  intro hmem
  obtain ⟨first, rest, rfl, hfirst⟩ := List.eq_append_cons_of_mem (List.mem_reverse.mp hmem)
  have hcut' := @splitOnce_append '-' [] first hfirst (rest ++ '-' :: back)
  rw [eq_of_splitOnce hcut, List.append_assoc, List.append_assoc, List.cons_append] at hcut
  have hsame := hcut.symm.trans hcut'
  simp at hsame

/-! ### Reading a path -/

theorem stripSuffix_file (base : List Char) (isProvenance : Bool) :
    let file := base ++ (if isProvenance then ".tgz.prov" else ".tgz").toList
    (isProvenance = true ∧ stripSuffix ".tgz.prov".toList file = some base) ∨
      (isProvenance = false ∧ stripSuffix ".tgz.prov".toList file = none ∧
        stripSuffix ".tgz".toList file = some base) := by
  cases isProvenance with
  | true => exact .inl ⟨rfl, stripSuffix_eq_some_iff.mpr rfl⟩
  | false =>
    refine .inr ⟨rfl, Option.eq_none_iff_forall_ne_some.mpr fun rest hrest => ?_,
      stripSuffix_eq_some_iff.mpr rfl⟩
    have hlast := congrArg List.getLast? (stripSuffix_eq_some_iff.mp hrest)
    simp at hlast

section Read

variable {artifact : ChartArtifactPath} {directory : List String}

def IsComponent (text : String) : Prop := text.toList ≠ [] ∧ '/' ∉ text.toList

theorem isComponent_fileName (hname : IsComponent artifact.name)
    (hversion : '/' ∉ artifact.version.toList) : IsComponent artifact.canonicalFileName := by
  have hsuffix : '/' ∉ (if artifact.isProvenance then ".tgz.prov" else ".tgz").toList := by
    cases artifact.isProvenance <;> decide
  refine ⟨?_, ?_⟩
  · simp [ChartArtifactPath.canonicalFileName, String.toList_append, hname.1]
  · simp only [ChartArtifactPath.canonicalFileName, String.toList_append, List.mem_append, not_or]
    exact ⟨⟨⟨hname.2, by decide⟩, hversion⟩, hsuffix⟩

theorem parse_requestPath (hname : IsComponent artifact.name)
    (hversion : '/' ∉ artifact.version.toList) (hdirectory : directory ∈ artifact.directories) :
    parseChartArtifact (.ofString (requestPath directory artifact.canonicalFileName)) =
      match rsplitOnce '-' (artifact.name.toList ++ '-' :: artifact.version.toList) with
      | some (name, version) =>
        if name = [] || version = [] ||
            (directory = ["charts", artifact.name] && artifact.name.toList != name) then none
        else some ⟨String.ofList name, String.ofList version, artifact.isProvenance⟩
      | none => none := by
  have hcharts : IsComponent "charts" := ⟨by decide, by decide⟩
  have hnames : ∀ s ∈ directory ++ [artifact.canonicalFileName], IsComponent s := by
    have hfile := isComponent_fileName hname hversion
    simp only [ChartArtifactPath.directories, List.mem_cons, List.not_mem_nil, or_false]
      at hdirectory
    rcases hdirectory with rfl | rfl | rfl <;> simp_all
  have hsplit : (requestPath directory artifact.canonicalFileName).toList.splitOn '/' =
      directory.map String.toList ++ [artifact.canonicalFileName.toList] := by
    rw [requestPath, String.toList_intercalate]
    refine (List.splitOn_intercalate '/' ?_ ?_).trans ?_
    · intro l hl
      obtain ⟨s, hs, rfl⟩ := List.mem_map.mp hl
      exact (hnames s hs).2
    · simp
    · simp
  obtain ⟨-, hstring, hdir⟩ := ofString_intercalate hnames
  have hempty : ("/".intercalate (directory ++ [artifact.canonicalFileName]) == "") = false := by
    rw [beq_eq_false_iff_ne]
    intro hnil
    rw [requestPath, hnil] at hsplit
    have hlast := congrArg List.getLast? hsplit
    rw [List.getLast?_concat] at hlast
    exact (isComponent_fileName hname hversion).1 (Option.some.inj hlast).symm
  have hfile : artifact.canonicalFileName.toList =
      (artifact.name.toList ++ '-' :: artifact.version.toList) ++
        (if artifact.isProvenance then ".tgz.prov" else ".tgz").toList := by
    simp [ChartArtifactPath.canonicalFileName, String.toList_append]
  have hstrip := stripSuffix_file (artifact.name.toList ++ '-' :: artifact.version.toList)
    artifact.isProvenance
  rw [← hfile] at hstrip
  simp only [ChartArtifactPath.directories, List.mem_cons, List.not_mem_nil, or_false]
    at hdirectory
  unfold parseChartArtifact
  rw [requestPath] at hsplit ⊢
  simp only [hdir, hstring, hsplit, hempty, Bool.or_false, Bool.false_eq_true, if_false,
    List.reverse_append, List.reverse_singleton, List.singleton_append, List.reverse_reverse]
  rcases hstrip with ⟨hkind, htgz⟩ | ⟨hkind, hprov, htgz⟩
  · rcases hdirectory with rfl | rfl | rfl <;>
      simp only [hkind, htgz, List.map, if_true] <;>
      cases rsplitOnce '-' _ <;> simp
  · rcases hdirectory with rfl | rfl | rfl <;>
      simp only [hkind, hprov, htgz, List.map, Option.map, if_true] <;>
      cases rsplitOnce '-' _ <;> simp

end Read

theorem isComponent_of_isChartName {name : String} (h : isChartName name = true) :
    IsComponent name := by
  obtain ⟨hall, hlast⟩ := (Bool.and_eq_true _ _).mp h
  refine ⟨fun hnil => ?_, fun hslash => ?_⟩
  · rw [hnil] at hlast
    cases hlast
  · exact absurd (List.all_eq_true.mp hall '/' hslash) (by decide)

theorem artifact_roundTrip_iff (artifact : ChartArtifactPath)
    (hname : isChartName artifact.name = true)
    (hversion : artifact.version ≠ "" ∧ '/' ∉ artifact.version.toList) :
    RoundTrips artifact ↔ '-' ∉ artifact.version.toList := by
  have hcomponent := isComponent_of_isChartName hname
  constructor
  · intro h
    have hbare := h.parsed [] List.mem_cons_self
    rw [parse_requestPath hcomponent hversion.2 List.mem_cons_self] at hbare
    cases hparts : rsplitOnce '-' (artifact.name.toList ++ '-' :: artifact.version.toList) with
    | none =>
      rw [hparts] at hbare
      cases hbare
    | some parts =>
      rw [hparts] at hbare
      obtain ⟨-, heq⟩ := Option.ite_none_left_eq_some.mp hbare
      rw [← Option.some.inj heq, String.toList_ofList]
      exact notMem_of_rsplitOnce hparts
  · intro h
    have hfile := isComponent_fileName hcomponent hversion.2
    have hcanonical : artifact.canonicalStoragePath.toString' =
        requestPath ["charts", artifact.name] artifact.canonicalFileName := by
      have hcomponents : artifact.canonicalStoragePath.components =
          ["charts", artifact.name, artifact.canonicalFileName] := by
        change segments '/' "charts/" ++ segments '/' artifact.name ++
          segments '/' artifact.canonicalFileName = _
        rw [segments_eq_singleton hcomponent.2 hcomponent.1,
          segments_eq_singleton hfile.2 hfile.1]
        rfl
      rw [toString', hcomponents, isDirectory_canonicalStoragePath]
      exact String.append_empty
    refine ⟨fun directory hdirectory => ?_, hcanonical, fun baseUrl stored hstored => ?_⟩
    · rw [parse_requestPath hcomponent hversion.2 hdirectory, rsplitOnce_append h]
      have hversion' : artifact.version.toList ≠ [] := fun hnil =>
        hversion.1 (String.toList_eq_nil_iff.mp hnil)
      simp [hcomponent.1, hversion']
    · rw [hcanonical] at hstored
      have hhead : (requestPath ["charts", artifact.name] artifact.canonicalFileName).toList.head? =
          some 'c' := by
        simp only [requestPath, List.cons_append, List.nil_append, String.intercalate_cons_cons,
          String.append_assoc, String.toList_append]
        rfl
      have hstart : ∀ text : String, text.toList.head? = some 'c' →
          String.ofList (text.toList.dropWhile (· == '/')) = text := by
        intro text htext
        obtain ⟨rest, hrest⟩ := List.head?_eq_some_iff.mp htext
        rw [hrest, List.dropWhile_cons_of_neg (by decide), ← hrest, String.ofList_toList]
      simp only [indexEntry, hstored, hstart _ hhead]

theorem artifact_roundTrip_app : RoundTrips ⟨"app", "1.0.0+build.5", true⟩ :=
  (artifact_roundTrip_iff ⟨"app", "1.0.0+build.5", true⟩ (by decide) (by decide)).mpr (by decide)

/-- A pre-release is taken for a release of another chart. -/
theorem not_artifact_roundTrip_candidate : ¬ ∀ artifact : ChartArtifactPath,
    isChartName artifact.name = true → precedence artifact.version ≠ none → RoundTrips artifact := by
  intro h
  have hparsed := (h ⟨"app", "1.0.0-rc.1", false⟩ (by decide) (by decide)).parsed []
    List.mem_cons_self
  revert hparsed
  decide

end Pkgly.Helm
