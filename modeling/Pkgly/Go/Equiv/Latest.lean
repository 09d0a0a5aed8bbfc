import Pkgly.Algorithm.Semver
import Pkgly.Go.Equiv.Hosted

/-!
# The order of the versions of a Go module

The list of versions is kept in the order of the texts.  It is in the order of precedence, whatever
version is added to it, and its last entry is the latest version, if and only if the order of the
texts agrees with the precedence on the versions (`versionsInOrder_iff`).  It does not on a release
and its pre-releases (`lt_prerelease`), and on numbers that do not have equally many digits.
-/

namespace Pkgly.Go

/-- `get_latest_go_version` of the content of a list. -/
def latestOf (content : Option Bytes) : Option GoVersion :=
  (listedVersions content).bind latestVersion

/-- The content that `ensure_version_list` writes. -/
def ensuredContent (version : GoVersion) (content : Option Bytes) : Option Bytes :=
  (listedVersions content).map fun entries => intoBytes (joinLines (ensureVersion version entries))

structure Semantic (text : String) : Prop where
  valid : validateVersion text = true
  precedence : (precedence text).isSome = true

/-- The latest of the listed versions is one with the highest precedence, and a list to which
`version` is added is written in the order of precedence. -/
structure VersionsInOrder (content : Option Bytes) (entries : List String) (version : GoVersion) :
    Prop where
  latest : entries ≠ [] → ∃ latest, latestOf content = some latest ∧ latest.text ∈ entries ∧
    ∀ v ∈ entries, PrecedenceLe v latest.text
  written : ensuredContent version content =
    some (intoBytes (joinLines (ensureVersion version entries)))
  mem_iff : ∀ v, v ∈ ensureVersion version entries ↔ v ∈ entries ∨ v = version.text
  ordered : (ensureVersion version entries).Pairwise PrecedenceLe

def TextsAgree (versions : List String) : Prop :=
  ∀ v ∈ versions, ∀ w ∈ versions, v < w → PrecedenceLe v w

instance (versions : List String) : Decidable (TextsAgree versions) :=
  inferInstanceAs (Decidable (∀ v ∈ versions, ∀ w ∈ versions, v < w → PrecedenceLe v w))

/-! ### The order of the texts -/

instance : Std.Total fun v w : GoVersion => v.text ≤ w.text := ⟨fun _ _ => le_total _ _⟩

instance : IsTrans GoVersion fun v w => v.text ≤ w.text := ⟨fun _ _ _ => le_trans⟩

theorem pairwise_ensureVersion (version : GoVersion) (entries : List String) :
    (ensureVersion version entries).Pairwise (· ≤ ·) := by
  unfold ensureVersion
  rw [List.pairwise_map]
  exact List.pairwise_insertionSort _ _

theorem pairwise_precedenceLe {versions : List String} (h : TextsAgree versions)
    (hsorted : versions.Pairwise (· ≤ ·)) : versions.Pairwise PrecedenceLe := by
  refine hsorted.imp_of_mem fun {v w} hv hw hle => ?_
  rcases eq_or_lt_of_le hle with rfl | hlt
  · exact PrecedenceLe.refl v
  · exact h v hv w hw hlt

theorem textsAgree_of_pairwise {versions : List String} (hsorted : versions.Pairwise (· ≤ ·))
    (hprecedence : versions.Pairwise PrecedenceLe) : TextsAgree versions := by
  intro v hv w hw hlt
  let Agree : String → String → Prop := fun a b =>
    (a < b → PrecedenceLe a b) ∧ (b < a → PrecedenceLe b a)
  have hsymm : Std.Symm Agree := ⟨fun _ _ h => ⟨h.2, h.1⟩⟩
  have hagree : versions.Pairwise Agree := (hsorted.and hprecedence).imp fun {a b} h =>
    ⟨fun _ => h.2, fun hlt => absurd hlt (not_lt.mpr h.1)⟩
  exact (hagree.forall hv hw hlt.ne).1 hlt

theorem latestVersion_of_textsAgree {entries : List String}
    (hvalid : ∀ v ∈ entries, validateVersion v = true) (h : TextsAgree entries)
    (hne : entries ≠ []) : ∃ latest, latestVersion entries = some latest ∧
      latest.text ∈ entries ∧ ∀ v ∈ entries, PrecedenceLe v latest.text := by
  set sorted := (entries.filterMap GoVersion.new).insertionSort fun v w => v.text ≤ w.text
    with hsorted
  have hperm : (sorted.map GoVersion.text).Perm entries := by
    have hmap := (List.perm_insertionSort (fun v w : GoVersion => v.text ≤ w.text)
      (entries.filterMap GoVersion.new)).map GoVersion.text
    rwa [map_filterMap_new hvalid] at hmap
  have hpairwise : (sorted.map GoVersion.text).Pairwise PrecedenceLe := by
    refine pairwise_precedenceLe (fun v hv w hw => h v (hperm.mem_iff.mp hv) w
      (hperm.mem_iff.mp hw)) ?_
    rw [List.pairwise_map]
    exact List.pairwise_insertionSort _ _
  rcases List.eq_nil_or_concat sorted with hnil | ⟨front, latest, hconcat⟩
  · rw [hnil, List.map_nil] at hperm
    exact absurd hperm.symm.eq_nil hne
  · have hlast : latestVersion entries = some latest := by
      rw [latestVersion, ← hsorted, hconcat, List.concat_eq_append, List.getLast?_concat]
    rw [hconcat, List.concat_eq_append, List.map_append, List.map_singleton] at hperm hpairwise
    grind [List.mem_append_right, List.mem_cons_self, PrecedenceLe.refl]

/-- The latest version and the list are in the order of precedence iff this agrees with the order of
the texts on all versions. -/
theorem versionsInOrder_iff {content : Option Bytes} {entries : List String}
    (hlisted : listedVersions content = some entries) (hentries : ∀ v ∈ entries, Semantic v)
    (version : GoVersion) :
    VersionsInOrder content entries version ↔ TextsAgree (version.text :: entries) := by
  have hvalid : ∀ v ∈ entries, validateVersion v = true := fun v hv => (hentries v hv).valid
  have hmem : ∀ v, v ∈ ensureVersion version entries ↔ v ∈ entries ∨ v = version.text :=
    fun v => mem_ensureVersion hvalid
  have hcontent : ensuredContent version content =
      some (intoBytes (joinLines (ensureVersion version entries))) := by
    rw [ensuredContent, hlisted, Option.map_some]
  have hcons : ∀ v, v ∈ version.text :: entries ↔ v ∈ ensureVersion version entries := by
    intro v
    rw [List.mem_cons, hmem, or_comm]
  constructor
  · intro h
    have hagree := textsAgree_of_pairwise (pairwise_ensureVersion version entries) h.ordered
    exact fun v hv w hw => hagree v ((hcons v).mp hv) w ((hcons w).mp hw)
  · intro h
    refine ⟨fun hne => ?_, hcontent, hmem, ?_⟩
    · obtain ⟨latest, hlatest, hrest⟩ := latestVersion_of_textsAgree hvalid
        (fun v hv w hw => h v (List.mem_cons_of_mem _ hv) w (List.mem_cons_of_mem _ hw)) hne
      refine ⟨latest, ?_, hrest⟩
      rw [latestOf, hlisted, Option.bind_some, hlatest]
    · exact pairwise_precedenceLe (fun v hv w hw => h v ((hcons v).mpr hv) w ((hcons w).mpr hw))
        (pairwise_ensureVersion version entries)

/-! ### Versions of one and of two digits -/

theorem versionsInOrder_demo :
    VersionsInOrder (listContent ["v1.0.0-rc.1", "v1.2.0"]) ["v1.0.0-rc.1", "v1.2.0"]
      ⟨"v1.9.0", by decide⟩ :=
  (versionsInOrder_iff (listedVersions_listContent ⟨by decide, by decide, by decide⟩)
    (List.forall_mem_cons.mpr ⟨⟨by decide, by decide⟩,
      List.forall_mem_singleton.mpr ⟨by decide, by decide⟩⟩) _).mpr (by decide)

/-- The version `v1.9.0` is taken for the latest one, although there is `v1.10.0`. -/
theorem not_versionsInOrder_digits : ¬ ∀ (content : Option Bytes) (entries : List String)
    (version : GoVersion), listedVersions content = some entries → (∀ v ∈ entries, Semantic v) →
      Semantic version.text → VersionsInOrder content entries version := by
  intro hall
  have hlisted : listedVersions (listContent ["v1.10.0", "v1.9.0"]) =
      some ["v1.10.0", "v1.9.0"] :=
    listedVersions_listContent ⟨by decide, by decide, by decide⟩
  have hsemantic : ∀ v ∈ ["v1.10.0", "v1.9.0"], Semantic v :=
    List.forall_mem_cons.mpr ⟨⟨by decide, by decide⟩,
      List.forall_mem_singleton.mpr ⟨by decide, by decide⟩⟩
  have horder := hall _ _ ⟨"v1.9.0", by decide⟩ hlisted hsemantic ⟨by decide, by decide⟩
  obtain ⟨latest, hlatest, -, hmaximal⟩ := horder.latest (List.cons_ne_nil _ _)
  have hnine : latestVersion ["v1.10.0", "v1.9.0"] = some ⟨"v1.9.0", by decide⟩ := by decide
  rw [latestOf, hlisted, Option.bind_some, hnine] at hlatest
  cases hlatest
  exact absurd (hmaximal "v1.10.0" List.mem_cons_self) (by decide)

end Pkgly.Go
