import Pkgly.Algorithm.Semver
import Pkgly.Helm.Index

/-!
# The order of charts

Both listings of the charts sort the versions of a chart by their texts, and so show the newest
version first iff the order of the texts is that of the versions (`chartOrder_iff`).
-/

namespace Pkgly.Helm

/-! ### ChartMuseum -/

structure ChartMuseumVersion where
  name : String
  version : String
  digest : String
  urls : List String
  fields : List (String × String)
deriving DecidableEq

def chartMuseumVersion (baseUrl : String) (stored : HelmChartVersionExtra) : ChartMuseumVersion where
  name := stored.metadata.name
  version := stored.metadata.version
  digest := stored.digest
  urls := (indexEntry baseUrl stored).urls
  fields := stored.metadata.fields

/-- The `grouped` of `handle_chartmuseum_get`; the names are those of the projects. -/
def chartMuseumVersions (baseUrl : String) (records : List (String × HelmChartVersionExtra)) :
    List (String × List ChartMuseumVersion) :=
  ((records.map Prod.fst).dedup.insertionSort (· ≤ ·)).map fun name =>
    (name, ((records.filter (·.1 = name)).map fun record =>
      chartMuseumVersion baseUrl record.2).insertionSort fun a b => b.version ≤ a.version)

inductive ChartMuseumResponse
  | notFound (body : String)
  | unauthorized
  | charts (grouped : List (String × List ChartMuseumVersion))
  | versions (versions : List ChartMuseumVersion)
deriving DecidableEq

/-- `handle_chartmuseum_get`, with what `fetch_version_metadata` has read. -/
def handleChartmuseumGet (mode : HelmRepositoryMode) (allowed : Bool) (baseUrl path : String)
    (records : List (String × HelmChartVersionExtra)) : ChartMuseumResponse :=
  if mode ≠ .http then .notFound "HTTP chart access disabled for this repository"
  else if !allowed then .unauthorized
  else
    let grouped := chartMuseumVersions baseUrl records
    match pieces '/' path with
    | ["api", "charts"] => .charts grouped
    | ["api", "charts", chart] =>
      match grouped.lookup chart with
      | some versions => .versions versions
      | none => .notFound "chart not found"
    | _ => .notFound "unsupported ChartMuseum route"

/-! ### The order of versions -/

section Order

variable {α : Type}

structure LatestFirst (version : α → String) (given listed : List α) : Prop where
  perm : listed.Perm given
  descending : listed.Pairwise fun a b => PrecedenceLe (version b) (version a)

def TextOrderAgrees (versions : List String) : Prop :=
  ∀ v ∈ versions, ∀ w ∈ versions, v < w → PrecedenceLe v w

theorem latestFirst_insertionSort_iff (version : α → String) (given : List α) :
    LatestFirst version given (given.insertionSort fun a b => version b ≤ version a) ↔
      TextOrderAgrees (given.map version) := by
  have hperm : (given.insertionSort fun a b => version b ≤ version a).Perm given :=
    List.perm_insertionSort _ _
  have hsorted : (given.insertionSort fun a b => version b ≤ version a).Pairwise
      fun a b => version b ≤ version a := List.pairwise_insertionSort _ _
  constructor
  · intro h v hv w hw hlt
    obtain ⟨a, ha, rfl⟩ := List.mem_map.mp hv
    obtain ⟨b, hb, rfl⟩ := List.mem_map.mp hw
    let R (a b : α) : Prop := (version a < version b → PrecedenceLe (version a) (version b)) ∧
      (version b < version a → PrecedenceLe (version b) (version a))
    have hsymm : Std.Symm R := ⟨fun a b h => h.symm⟩
    -- the entry with the later text comes first
    have hlisted : (given.insertionSort fun a b => version b ≤ version a).Pairwise R :=
      (hsorted.and h.descending).imp fun {a b} hab =>
        ⟨fun hlt => absurd hlt (not_lt.mpr hab.1), fun _ => hab.2⟩
    exact (hlisted.forall_of_forall (fun a _ => ⟨fun _ => .refl _, fun _ => .refl _⟩)
      (hperm.mem_iff.mpr ha) (hperm.mem_iff.mpr hb)).1 hlt
  · intro h
    refine ⟨hperm, hsorted.imp_of_mem fun {a b} ha hb hle => ?_⟩
    rcases hle.eq_or_lt with heq | hlt
    · rw [heq]
      exact PrecedenceLe.refl _
    · exact h _ (List.mem_map_of_mem (hperm.mem_iff.mp hb)) _
        (List.mem_map_of_mem (hperm.mem_iff.mp ha)) hlt

end Order

/-! ### The two listings -/

section Groups

variable {β : Type}

/-- What the two listings do: the entries of each name, sorted by the texts of their versions. -/
def grouped (version : β → String) (given : List (String × β)) : List (String × List β) :=
  ((given.map Prod.fst).dedup.insertionSort (· ≤ ·)).map fun name =>
    (name, ((given.filter (·.1 = name)).map Prod.snd).insertionSort fun a b =>
      version b ≤ version a)

structure InOrder (version : β → String) (given : List (String × β))
    (listed : List (String × List β)) : Prop where
  nodup : (listed.map Prod.fst).Nodup
  mem_iff : ∀ name, name ∈ listed.map Prod.fst ↔ name ∈ given.map Prod.fst
  latestFirst : ∀ group ∈ listed,
    LatestFirst version ((given.filter (·.1 = group.1)).map Prod.snd) group.2

def TextOrdersAgree (version : β → String) (given : List (String × β)) : Prop :=
  ∀ name ∈ given.map Prod.fst,
    TextOrderAgrees (((given.filter (·.1 = name)).map Prod.snd).map version)

theorem inOrder_grouped_iff (version : β → String) (given : List (String × β)) :
    InOrder version given (grouped version given) ↔ TextOrdersAgree version given := by
  have hnames : (grouped version given).map Prod.fst =
      (given.map Prod.fst).dedup.insertionSort (· ≤ ·) := by
    rw [grouped, List.map_map]
    exact List.map_id _
  have hmem : ∀ name, name ∈ (grouped version given).map Prod.fst ↔ name ∈ given.map Prod.fst := by
    intro name
    rw [hnames, List.mem_insertionSort, List.mem_dedup]
  constructor
  · intro h name hname
    obtain ⟨group, hgroup, rfl⟩ := List.mem_map.mp ((hmem name).mpr hname)
    obtain ⟨name, -, rfl⟩ := List.mem_map.mp hgroup
    exact (latestFirst_insertionSort_iff _ _).mp (h.latestFirst _ hgroup)
  · intro h
    refine ⟨?_, hmem, fun group hgroup => ?_⟩
    · rw [hnames]
      exact (List.perm_insertionSort _ _).nodup_iff.mpr (List.nodup_dedup _)
    · have hname := (hmem group.1).mp (List.mem_map_of_mem hgroup)
      obtain ⟨name, -, rfl⟩ := List.mem_map.mp hgroup
      exact (latestFirst_insertionSort_iff _ _).mpr (h name hname)

end Groups

def indexVersions (config : IndexRenderConfig) (entries : List IndexEntry) :
    List (String × IndexEntryDocument) :=
  entries.map fun entry => (entry.metadata.name, entry.document config)

def listedVersions (baseUrl : String) (records : List (String × HelmChartVersionExtra)) :
    List (String × ChartMuseumVersion) :=
  records.map fun record => (record.1, chartMuseumVersion baseUrl record.2)

def indexDocument (config : IndexRenderConfig) (entries : List IndexEntry) :
    List (String × List IndexEntryDocument) :=
  grouped (·.version) (indexVersions config entries)

theorem renderIndexYaml_eq (lib : IndexLibraries) (config : IndexRenderConfig)
    (entries : List IndexEntry) (generated : ℕ) :
    renderIndexYaml lib config entries generated =
      match lib.serdeYaml generated (indexDocument config entries) with
      | .ok yaml => .ok yaml
      | .error message => .error (.invalidRequest ("failed to render Helm index: " ++ message)) := by
  unfold renderIndexYaml indexDocument grouped indexVersions
  simp only [List.filter_map, Function.comp_def, IndexEntry.document, List.map_map] <;> rfl

theorem chartMuseumVersions_eq (baseUrl : String)
    (records : List (String × HelmChartVersionExtra)) :
    chartMuseumVersions baseUrl records = grouped (·.version) (listedVersions baseUrl records) := by
  unfold chartMuseumVersions grouped listedVersions
  simp [List.filter_map, Function.comp_def]

theorem chartOrder_iff (lib : IndexLibraries) (config : IndexRenderConfig) (generated : ℕ)
    (entries : List IndexEntry) (baseUrl : String)
    (records : List (String × HelmChartVersionExtra)) :
    renderIndexYaml lib config entries generated =
      (match lib.serdeYaml generated (indexDocument config entries) with
      | .ok yaml => .ok yaml
      | .error message => .error (.invalidRequest ("failed to render Helm index: " ++ message))) ∧
    (InOrder (·.version) (indexVersions config entries) (indexDocument config entries) ↔
      TextOrdersAgree (·.version) (indexVersions config entries)) ∧
    handleChartmuseumGet .http true baseUrl "api/charts" records =
      .charts (chartMuseumVersions baseUrl records) ∧
    (InOrder (·.version) (listedVersions baseUrl records) (chartMuseumVersions baseUrl records) ↔
      TextOrdersAgree (·.version) (listedVersions baseUrl records)) := by
  refine ⟨renderIndexYaml_eq lib config entries generated, inOrder_grouped_iff _ _, rfl, ?_⟩
  rw [chartMuseumVersions_eq]
  exact inOrder_grouped_iff _ _

def demoEntry (version : String) : IndexEntry := ⟨⟨"app", version, []⟩, "", 0, [], false⟩

/-- A minor version of two digits is listed behind one of a single digit. -/
theorem not_inOrder_twoDigits : ¬ ∀ (config : IndexRenderConfig) (entries : List IndexEntry),
    InOrder (·.version) (indexVersions config entries) (indexDocument config entries) := by
  intro h
  have hlatest := (h ⟨"", true⟩ [demoEntry "1.10.0", demoEntry "1.9.0"]).latestFirst
    ("app", [(demoEntry "1.9.0").document ⟨"", true⟩, (demoEntry "1.10.0").document ⟨"", true⟩])
    (by decide)
  exact absurd hlatest.descending (by decide)

end Pkgly.Helm
