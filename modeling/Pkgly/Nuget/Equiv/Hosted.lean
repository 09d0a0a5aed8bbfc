import Pkgly.Nuget.Hosted
import Pkgly.Storage.Equiv.DynStorage

/-!
# Write-once publishing

A package that is published by one request at a time, none of whose steps fails, is written once
and listed (`publish_write_once`).  A request writes the package file first and the row of the
catalogue last, without a lock, so two conditions carry the theorem (`publishGuard`): nothing is
stored at its paths when a request writes them, and no step fails between the first write and the
last.

`Moves` says what a step does to the storage and the catalogue under that condition.  A package
file that is stored is accounted for (`Accounted`) by the request that has written it and is still
on its way, or by the rows of the catalogue; that is what an answered request leaves.
-/

namespace Pkgly.Nuget

variable {format : PackageFormat} {c : Collation} {s t : HostedRepository}

/-! ### The files of a package -/

namespace ParsedNugetPackage

/-- The path of the `.nupkg`. -/
def nupkgPath (p : ParsedNugetPackage) : StoragePath :=
  flatcontainerPackagePath p.packageId p.version

/-- The path of the `.nuspec`. -/
def nuspecPath (p : ParsedNugetPackage) : StoragePath :=
  flatcontainerNuspecPath p.packageId p.version

end ParsedNugetPackage

theorem components_flatcontainerPackagePath (packageId version : String) :
    ∃ stem, (flatcontainerPackagePath packageId version).components.getLast? =
      some (stem ++ ".nupkg") := by
  rw [flatcontainerPackagePath, StoragePath.components_ofString]
  exact getLast?_segments_append (by decide) (by decide) _

theorem components_flatcontainerNuspecPath (packageId version : String) :
    ∃ stem, (flatcontainerNuspecPath packageId version).components.getLast? =
      some (stem ++ ".nuspec") := by
  rw [flatcontainerNuspecPath, StoragePath.components_ofString]
  exact getLast?_segments_append (by decide) (by decide) _

theorem nupkgPath_ne_nuspecPath (packageId version packageId' version' : String) :
    (flatcontainerPackagePath packageId version).components ≠
      (flatcontainerNuspecPath packageId' version').components := by
  intro heq
  obtain ⟨a, ha⟩ := components_flatcontainerPackagePath packageId version
  obtain ⟨b, hb⟩ := components_flatcontainerNuspecPath packageId' version'
  rw [heq, hb] at ha
  have htext := congrArg String.toList (Option.some.inj ha)
  rw [String.toList_append, String.toList_append] at htext
  have hlast := congrArg (fun l => l.reverse.take 2) htext
  simp at hlast

theorem validate_flatcontainerNuspecPath (packageId version : String) :
    (flatcontainerNuspecPath packageId version).validate =
      ((StoragePath.ofString (lowerId packageId)).validate &&
        ((StoragePath.ofString (normalizeVersion version)).validate &&
          (StoragePath.ofString (lowerId packageId ++ ".nuspec")).validate)) := by
  have hroot : "v3/flatcontainer/" = "v3/flatcontainer" ++ "/" := by decide
  have hvalid : (StoragePath.ofString "v3/flatcontainer").validate = true := by decide
  rw [flatcontainerNuspecPath, hroot]
  simp only [String.append_assoc]
  simp [StoragePath.validate_slash, Bool.true_and, hvalid]

/-! ### The condition on a step -/

def HostedRepository.isFree (s : HostedRepository) (path : StoragePath) : Bool :=
  (s.storage.objects.get path.components).isNone

def HostedRepository.accepts (s : HostedRepository) (content : Bytes) (path : StoragePath) : Bool :=
  (s.storage.saveFile content path).isOk

/-- No package file stored at another path has its nuspec at the same path as `package`. -/
def ownsNuspec (format : PackageFormat) (s : HostedRepository) (package : ParsedNugetPackage) :
    Bool :=
  s.storage.objects.entries.all fun e =>
    match parsePublishedPackage format e.2 with
    | .ok other => other.nupkgPath.components != e.1 ||
        other.nuspecPath.components != package.nuspecPath.components ||
        e.1 == package.nupkgPath.components
    | .error _ => true

/-- Deleting `path` removes no object. -/
def HostedRepository.isUnused (s : HostedRepository) (path : StoragePath) : Bool :=
  s.storage.objects.keys.all fun key => !DynStorage.deletes s.storage.backend path key

/-- The condition on a step of a request: nothing is stored at its paths when it writes them, its
indexes are no directories of packages, and nothing fails after the package has been written and
before it has been catalogued. -/
def publishGuard (c : Collation) (fails : Bool) (s : HostedRepository) (r : Publish format) :
    Bool :=
  let package := r.upload.package
  match r.stage with
  | .saveNupkg => fails || !s.accepts package.nupkgBytes package.nupkgPath ||
      s.isFree package.nupkgPath && s.isFree package.nuspecPath
  | .saveNuspec => !fails && s.accepts (intoBytes package.nuspecXml) package.nuspecPath &&
      ownsNuspec format s package
  | .deleteFlatIndex => fails || s.isUnused (flatcontainerIndexPath package.packageId)
  | .deleteRegIndex => fails || s.isUnused (registrationIndexPath package.packageId)
  | .deleteRegLeaf =>
    fails || s.isUnused (registrationLeafPath package.packageId package.version)
  | .findProject => !fails
  | .insertProject => !fails &&
      (s.catalogue.insertProject c package.packageId (projectPath package)).isSome
  | .findVersion _ => !fails
  | .insertVersion projectId => !fails &&
      (s.catalogue.insertVersion c projectId package.version (versionPath package)
        package.metadata).isSome
  | _ => true

/-! ### What a step does -/

/-- How far a request has come; one that has been refused has come nowhere. -/
def Stage.rank : Stage → ℕ
  | .checkExists => 0
  | .saveNupkg => 1
  | .saveNuspec => 2
  | .deleteFlatIndex => 3
  | .deleteRegIndex => 4
  | .deleteRegLeaf => 5
  | .findProject => 6
  | .insertProject => 7
  | .findVersion _ => 8
  | .insertVersion _ => 9
  | .recordFile => 10
  | .done (.created _) => 11
  | .done _ => 0

def Stage.projectId? : Stage → Option ℕ
  | .findVersion projectId | .insertVersion projectId => some projectId
  | _ => none

def SameObjects (st st' : DynStorage) : Prop :=
  st'.backend = st.backend ∧
    (∀ key, st.staging.get key = none → st'.staging.get key = none) ∧
    ∀ key, st'.objects.get key = st.objects.get key

/-- The steps of a request under `publishGuard`. -/
inductive Moves (format : PackageFormat) (c : Collation) (s : HostedRepository)
    (p : ParsedNugetPackage) : Stage → HostedRepository → Stage → Prop
  /-- Nothing has been written yet. -/
  | before {stage stage'} (h : stage.rank ≤ 1) (h' : stage'.rank ≤ 1) : Moves format c s p stage s stage'
  | nupkg {storage} (h : s.storage.saveFile p.nupkgBytes p.nupkgPath = .ok storage)
      (hfree : s.storage.objects.get p.nupkgPath.components = none)
      (hfree' : s.storage.objects.get p.nuspecPath.components = none) :
      Moves format c s p .saveNupkg { s with storage } .saveNuspec
  | nuspec {storage} (h : s.storage.saveFile (intoBytes p.nuspecXml) p.nuspecPath = .ok storage)
      (howns : ownsNuspec format s p = true) :
      Moves format c s p .saveNuspec { s with storage } .deleteFlatIndex
  /-- A cached index is deleted. -/
  | index {stage storage stage'} (hrank : 3 ≤ stage.rank ∧ stage.rank ≤ 5)
      (hrank' : stage'.rank = stage.rank + 1) (h : SameObjects s.storage storage) :
      Moves format c s p stage { s with storage } stage'
  | foundProject {project} (h : s.catalogue.findByProjectKey c p.packageId = some project) :
      Moves format c s p .findProject s (.findVersion project.id)
  | noProject : Moves format c s p .findProject s .insertProject
  | newProject {catalogue project}
      (h : s.catalogue.insertProject c p.packageId (projectPath p) = some (catalogue, project)) :
      Moves format c s p .insertProject { s with catalogue } (.findVersion project.id)
  | foundVersion {projectId row location}
      (h : s.catalogue.findByVersionAndProject p.version projectId = some row) :
      Moves format c s p (.findVersion projectId) s (.done (.created location))
  | noVersion {projectId} :
      Moves format c s p (.findVersion projectId) s (.insertVersion projectId)
  | newVersion {projectId catalogue}
      (h : s.catalogue.insertVersion c projectId p.version (versionPath p) p.metadata =
        some catalogue) :
      Moves format c s p (.insertVersion projectId) { s with catalogue } .recordFile
  | recorded {answer} : Moves format c s p .recordFile s (.done answer)

theorem sameObjects_refl (st : DynStorage) : SameObjects st st := ⟨rfl, fun _ h => h, fun _ => rfl⟩

theorem sameObjects_erase {path : StoragePath} (h : s.isUnused path = true) :
    SameObjects s.storage (s.storage.erase path) := by
  refine ⟨rfl, fun key hkey => ?_, fun key => ?_⟩
  · rw [DynStorage.getStaging_erase, hkey, ite_self]
  · rw [DynStorage.get_erase]
    split_ifs with hdel
    · cases hget : s.storage.objects.get key with
      | none => rfl
      | some content =>
        have hunused := List.all_eq_true.mp h key (Store.mem_keys_iff.mpr ⟨content, hget⟩)
        rw [hdel] at hunused
        cases hunused
    · rfl

variable {fails : Bool} {α : Type} {r r' : Publish format} {w : Upload format}

theorem sameObjects_invalidate {path : StoragePath} (h : (fails || s.isUnused path) = true) :
    ∃ storage, s.invalidate fails path = { s with storage } ∧ SameObjects s.storage storage := by
  unfold HostedRepository.invalidate attempt
  cases fails with
  | true => exact ⟨s.storage, rfl, sameObjects_refl _⟩
  | false =>
    rw [Bool.false_or] at h
    cases hd : s.storage.deleteFile path with
    | error e => exact ⟨s.storage, rfl, sameObjects_refl _⟩
    | ok r =>
      obtain ⟨st, found⟩ := r
      obtain rfl := DynStorage.eq_of_deleteFile hd
      exact ⟨_, rfl, sameObjects_erase h⟩

theorem of_map_eq_ok {β ε : Type} {x : Except ε α} {f : α → β} {b : β}
    (h : x.map f = .ok b) : ∃ a, x = .ok a ∧ f a = b := by
  cases x with
  | error e => cases h
  | ok a => exact ⟨a, rfl, Except.ok.inj h⟩

theorem of_map_eq_error {β ε : Type} {x : Except ε α} {f : α → β} {e : ε}
    (h : x.map f = .error e) : x = .error e := by
  cases x with
  | error e' => exact congrArg _ (Except.error.inj h)
  | ok a => cases h

theorem of_attempt {x : Except StorageError α} {a : α}
    (h : attempt fails x = .ok a) : fails = false ∧ x = .ok a := by
  cases fails with
  | true => cases h
  | false =>
    cases x with
    | error e => cases h
    | ok b => exact ⟨rfl, congrArg _ (Except.ok.inj h)⟩

theorem attempt_ne_error {x : Except StorageError α} {e : HostedError}
    (hfails : (!fails) = true) (hx : x.isOk = true) : attempt fails x ≠ .error e := by
  cases fails with
  | true => cases hfails
  | false =>
    cases x with
    | error e' => cases hx
    | ok a => exact fun h => by cases h

theorem of_attemptSql {x : Option α} {a : α}
    (h : attemptSql fails x = .ok a) : fails = false ∧ x = some a := by
  cases fails with
  | true => cases h
  | false =>
    cases x with
    | none => cases h
    | some b => exact ⟨rfl, congrArg _ (Except.ok.inj h)⟩

theorem attemptSql_ne_error {x : Option α} {e : HostedError}
    (hfails : (!fails) = true) (hx : x.isSome = true) : attemptSql fails x ≠ .error e := by
  cases fails with
  | true => cases hfails
  | false =>
    cases x with
    | none => cases hx
    | some a => exact fun h => by cases h

theorem of_next (h : r.next c fails s = some (t, r')) :
    r'.upload = r.upload ∧ (∀ answer, r.stage ≠ .done answer) ∧
      (performStage c r.upload.package fails s r.stage = .ok (t, r'.stage) ∨
        ∃ e, performStage c r.upload.package fails s r.stage = .error e ∧ t = s ∧
          r'.stage = .done (.error e)) := by
  have hdone : ∀ answer, r.stage ≠ .done answer := by
    intro answer hstage
    rw [Publish.next, hstage] at h
    cases h
  grind [Publish.next]

theorem moves_of_error {e : HostedError} (hg : publishGuard c fails s r = true)
    (h : performStage c r.upload.package fails s r.stage = .error e) :
    Moves format c s r.upload.package r.stage s (.done (.error e)) := by
  obtain ⟨u, stage⟩ := r
  cases stage with
  | checkExists => exact .before (Nat.zero_le _) (Nat.zero_le _)
  | saveNupkg => exact .before (Nat.le_refl _) (Nat.zero_le _)
  | saveNuspec =>
    simp only [publishGuard, Bool.and_eq_true] at hg
    exact absurd (of_map_eq_error h) (attempt_ne_error hg.1.1 hg.1.2)
  | deleteFlatIndex | deleteRegIndex | deleteRegLeaf => cases h
  | findProject => exact absurd (of_map_eq_error h) (attemptSql_ne_error hg rfl)
  | insertProject =>
    simp only [publishGuard, Bool.and_eq_true] at hg
    exact absurd (of_map_eq_error h) (attemptSql_ne_error hg.1 hg.2)
  | findVersion projectId => exact absurd (of_map_eq_error h) (attemptSql_ne_error hg rfl)
  | insertVersion projectId =>
    simp only [publishGuard, Bool.and_eq_true] at hg
    exact absurd (of_map_eq_error h) (attemptSql_ne_error hg.1 hg.2)
  | recordFile => exact .recorded
  | done answer => cases h

theorem moves_of_ok {stage' : Stage}
    (hg : publishGuard c fails s r = true) (hdone : ∀ answer, r.stage ≠ .done answer)
    (h : performStage c r.upload.package fails s r.stage = .ok (t, stage')) :
    Moves format c s r.upload.package r.stage t stage' := by
  obtain ⟨u, stage⟩ := r
  cases stage with
  | checkExists =>
    obtain ⟨found, -, heq⟩ := of_map_eq_ok h
    obtain ⟨rfl, rfl⟩ := Prod.mk.inj heq
    refine .before (Nat.zero_le _) ?_
    split
    · exact Nat.zero_le _
    · exact Nat.le_refl _
  | saveNupkg =>
    obtain ⟨storage, hsave, heq⟩ := of_map_eq_ok h
    obtain ⟨rfl, rfl⟩ := Prod.mk.inj heq
    obtain ⟨rfl, hok⟩ := of_attempt hsave
    have haccepts : s.accepts u.package.nupkgBytes u.package.nupkgPath = true := by
      rw [HostedRepository.accepts, ParsedNugetPackage.nupkgPath, hok]
      rfl
    simp only [publishGuard, haccepts, Bool.not_true, Bool.false_or, Bool.and_eq_true] at hg
    exact .nupkg hok (Option.isNone_iff_eq_none.mp hg.1) (Option.isNone_iff_eq_none.mp hg.2)
  | saveNuspec =>
    obtain ⟨storage, hsave, heq⟩ := of_map_eq_ok h
    obtain ⟨rfl, rfl⟩ := Prod.mk.inj heq
    simp only [publishGuard, Bool.and_eq_true] at hg
    exact .nuspec (of_attempt hsave).2 hg.2
  | deleteFlatIndex =>
    obtain ⟨rfl, rfl⟩ := Prod.mk.inj (Except.ok.inj h)
    obtain ⟨storage, heq, hsame⟩ := sameObjects_invalidate hg
    have hrank : 3 ≤ Stage.rank .deleteFlatIndex ∧ Stage.rank .deleteFlatIndex ≤ 5 := by decide
    rw [heq]
    exact .index hrank rfl hsame
  | deleteRegIndex =>
    obtain ⟨rfl, rfl⟩ := Prod.mk.inj (Except.ok.inj h)
    obtain ⟨storage, heq, hsame⟩ := sameObjects_invalidate hg
    have hrank : 3 ≤ Stage.rank .deleteRegIndex ∧ Stage.rank .deleteRegIndex ≤ 5 := by decide
    rw [heq]
    exact .index hrank rfl hsame
  | deleteRegLeaf =>
    obtain ⟨rfl, rfl⟩ := Prod.mk.inj (Except.ok.inj h)
    obtain ⟨storage, heq, hsame⟩ := sameObjects_invalidate hg
    have hrank : 3 ≤ Stage.rank .deleteRegLeaf ∧ Stage.rank .deleteRegLeaf ≤ 5 := by decide
    rw [heq]
    exact .index hrank rfl hsame
  | findProject =>
    obtain ⟨project, hfind, heq⟩ := of_map_eq_ok h
    have hfound := Option.some.inj (of_attemptSql hfind).2
    cases project with
    | none =>
      obtain ⟨rfl, rfl⟩ := Prod.mk.inj heq
      exact .noProject
    | some project =>
      obtain ⟨rfl, rfl⟩ := Prod.mk.inj heq
      exact .foundProject hfound
  | insertProject =>
    obtain ⟨⟨catalogue, project⟩, hinsert, heq⟩ := of_map_eq_ok h
    obtain ⟨rfl, rfl⟩ := Prod.mk.inj heq
    exact .newProject (of_attemptSql hinsert).2
  | findVersion projectId =>
    obtain ⟨row, hfind, heq⟩ := of_map_eq_ok h
    have hfound := Option.some.inj (of_attemptSql hfind).2
    cases row with
    | none =>
      obtain ⟨rfl, rfl⟩ := Prod.mk.inj heq
      exact .noVersion
    | some row =>
      obtain ⟨rfl, rfl⟩ := Prod.mk.inj heq
      exact .foundVersion hfound
  | insertVersion projectId =>
    obtain ⟨catalogue, hinsert, heq⟩ := of_map_eq_ok h
    obtain ⟨rfl, rfl⟩ := Prod.mk.inj heq
    exact .newVersion (of_attemptSql hinsert).2
  | recordFile =>
    obtain ⟨_, -, heq⟩ := of_map_eq_ok h
    obtain ⟨rfl, rfl⟩ := Prod.mk.inj heq
    exact .recorded
  | done answer => exact absurd rfl (hdone answer)

theorem moves_of_next (hg : publishGuard c fails s r = true) (h : r.next c fails s = some (t, r')) :
    r'.upload = r.upload ∧ Moves format c s r.upload.package r.stage t r'.stage := by
  obtain ⟨hupload, hdone, hp | ⟨e, hp, rfl, hstage⟩⟩ := of_next h
  · exact ⟨hupload, moves_of_ok hg hdone hp⟩
  · rw [hstage]
    exact ⟨hupload, moves_of_error hg hp⟩

/-! ### What has been written -/

def Filed (c : Collation) (s : HostedRepository) (p : ParsedNugetPackage) : Prop :=
  ∃ project ∈ s.catalogue.projects, c.same project.key p.packageId = true ∧
    ∃ row ∈ s.catalogue.versions, row.projectId = project.id ∧ row.version = p.version

/-- The package file of `p` is stored. -/
def HasNupkg (s : HostedRepository) (p : ParsedNugetPackage) : Prop :=
  s.storage.objects.get p.nupkgPath.components = some p.nupkgBytes

/-- The nuspec of `p` is stored, at a path that the storage accepts. -/
def HasNuspec (s : HostedRepository) (p : ParsedNugetPackage) : Prop :=
  s.storage.rejects p.nuspecPath = false ∧
    s.storage.objects.get p.nuspecPath.components = some (intoBytes p.nuspecXml)

/-- Nothing that has been written is gone or changed. -/
structure Grows (s t : HostedRepository) : Prop where
  backend : t.storage.backend = s.storage.backend
  objects : ∀ key content, s.storage.objects.get key = some content →
    t.storage.objects.get key = some content
  projects : ∀ p ∈ s.catalogue.projects, p ∈ t.catalogue.projects
  versions : ∀ v ∈ s.catalogue.versions, v ∈ t.catalogue.versions

theorem grows_refl (s : HostedRepository) : Grows s s :=
  ⟨rfl, fun _ _ h => h, fun _ h => h, fun _ h => h⟩

theorem Grows.trans {u : HostedRepository} (h : Grows s t) (h' : Grows t u) : Grows s u where
  backend := h'.backend.trans h.backend
  objects key content hget := h'.objects key content (h.objects key content hget)
  projects p hp := h'.projects p (h.projects p hp)
  versions v hv := h'.versions v (h.versions v hv)

theorem Grows.filed {p : ParsedNugetPackage} (h : Grows s t) (hp : Filed c s p) : Filed c t p := by
  obtain ⟨project, hproject, hkey, row, hrow, hid⟩ := hp
  exact ⟨project, h.projects _ hproject, hkey, row, h.versions _ hrow, hid⟩

theorem Grows.hasNupkg {p : ParsedNugetPackage} (h : Grows s t) (hp : HasNupkg s p) :
    HasNupkg t p :=
  h.objects _ _ hp

theorem Grows.rejects (h : Grows s t) (path : StoragePath) :
    t.storage.rejects path = s.storage.rejects path := by
  rw [DynStorage.rejects, DynStorage.rejects, h.backend]

theorem Grows.hasNuspec {p : ParsedNugetPackage} (h : Grows s t) (hp : HasNuspec s p) :
    HasNuspec t p :=
  ⟨(h.rejects _).trans hp.1, h.objects _ _ hp.2⟩

/-- What holds of the storage and the catalogue: every object is a file of a package, next to a
package file is no nuspec but its own, and the keys of the projects are distinct. -/
structure RepositoryOk (format : PackageFormat) (c : Collation) (s : HostedRepository) : Prop where
  staging : ∀ key, s.storage.staging.get key = none
  objects : ∀ key content, s.storage.objects.get key = some content → ∃ u : Upload format,
    key = u.package.nupkgPath.components ∧ content = u.package.nupkgBytes ∨
      key = u.package.nuspecPath.components ∧ content = intoBytes u.package.nuspecXml
  nuspec : ∀ u : Upload format, HasNupkg s u.package → ∀ content,
    s.storage.objects.get u.package.nuspecPath.components = some content →
      content = intoBytes u.package.nuspecXml
  projects : ∀ p ∈ s.catalogue.projects, ∀ q ∈ s.catalogue.projects,
    c.same p.key q.key = true → p.id = q.id
  versions : ∀ v ∈ s.catalogue.versions, s.storage.backend = .local →
    (StoragePath.ofString (normalizeVersion v.version)).validate = true

/-- What holds of a request: what it has written is there. -/
structure RequestOk (c : Collation) (s : HostedRepository) (r : Publish format) : Prop where
  nupkg : 2 ≤ r.stage.rank → HasNupkg s r.upload.package
  nuspec : 3 ≤ r.stage.rank → HasNuspec s r.upload.package
  project : ∀ projectId, r.stage.projectId? = some projectId → ∃ p ∈ s.catalogue.projects,
    p.id = projectId ∧ c.same p.key r.upload.package.packageId = true
  filed : 10 ≤ r.stage.rank → Filed c s r.upload.package

/-- Two requests that have written a package file have written different ones. -/
def Apart (r r' : Publish format) : Prop :=
  2 ≤ r.stage.rank → 2 ≤ r'.stage.rank →
    r.upload.package.nupkgPath.components ≠ r'.upload.package.nupkgPath.components

def publishInvariant (format : PackageFormat) (c : Collation) :
    Pool.Invariant HostedRepository (Publish format) where
  shared := RepositoryOk format c
  each := RequestOk c
  pair := Apart

/-! ### A step keeps it -/

theorem Upload.package_eq {u : Upload format}
    (h : u.package.nupkgBytes = w.package.nupkgBytes) : u.package = w.package := by
  have hparsed := u.parsed
  rw [h, w.parsed] at hparsed
  exact (Except.ok.inj hparsed).symm

theorem HasNupkg.package_eq {u : Upload format} (hu : HasNupkg s u.package)
    (hw : HasNupkg s w.package)
    (h : u.package.nupkgPath.components = w.package.nupkgPath.components) :
    u.package = w.package := by
  rw [HasNupkg, h] at hu
  exact Upload.package_eq (Option.some.inj (hu.symm.trans hw))

theorem ParsedNugetPackage.nupkgPath_ne_nuspecPath (p q : ParsedNugetPackage) :
    p.nupkgPath.components ≠ q.nuspecPath.components :=
  Nuget.nupkgPath_ne_nuspecPath _ _ _ _

theorem eq_of_ownsNuspec {u : Upload format} (howns : ownsNuspec format s w.package = true)
    (hw : HasNupkg s w.package) (hu : HasNupkg s u.package)
    (h : u.package.nuspecPath.components = w.package.nuspecPath.components) :
    u.package = w.package := by
  have hentry := List.all_eq_true.mp howns _ (Store.get_eq_some_iff.mp hu)
  simp only [u.parsed, h, bne_self_eq_false, Bool.false_or, beq_iff_eq] at hentry
  exact HasNupkg.package_eq hu hw hentry

variable {u : Upload format} {stage stage' : Stage}

theorem grows_of_moves (hok : RepositoryOk format c s) (hr : RequestOk c s ⟨u, stage⟩)
    (h : Moves format c s u.package stage t stage') : Grows s t := by
  cases h with
  | before => exact grows_refl s
  | nupkg hsave hfree _ =>
    rw [DynStorage.eq_of_saveFile hsave]
    refine ⟨rfl, fun key content hget => ?_, fun _ h => h, fun _ h => h⟩
    grind [Store.get_put_of_ne]
  | nuspec hsave _ =>
    rw [DynStorage.eq_of_saveFile hsave]
    refine ⟨rfl, fun key content hget => ?_, fun _ h => h, fun _ h => h⟩
    rw [Store.get_put]
    split_ifs with heq
    · rw [heq] at hget
      rw [hok.nuspec u (hr.nupkg (Nat.le_refl _)) content hget]
    · exact hget
  | index _ _ hsame =>
    exact ⟨hsame.1, fun key content hget => (hsame.2.2 key).trans hget, fun _ h => h, fun _ h => h⟩
  | foundProject | noProject => exact grows_refl s
  | newProject hinsert =>
    obtain ⟨-, heq, -⟩ := Catalogue.of_insertProject hinsert
    rw [heq]
    exact ⟨rfl, fun _ _ h => h, fun _ h => List.mem_append_left _ h, fun _ h => h⟩
  | foundVersion | noVersion => exact grows_refl s
  | newVersion hinsert =>
    rw [(Catalogue.of_insertVersion hinsert).1]
    exact ⟨rfl, fun _ _ h => h, fun _ h => h, fun _ h => List.mem_append_left _ h⟩
  | recorded => exact grows_refl s

theorem Grows.requestOk (h : Grows s t) (hr : RequestOk c s r) : RequestOk c t r where
  nupkg hrank := h.hasNupkg (hr.nupkg hrank)
  nuspec hrank := h.hasNuspec (hr.nuspec hrank)
  project projectId hid := by
    obtain ⟨p, hp, hkey⟩ := hr.project projectId hid
    exact ⟨p, h.projects p hp, hkey⟩
  filed hrank := h.filed (hr.filed hrank)

theorem repositoryOk_nupkg {storage : DynStorage} (hok : RepositoryOk format c s)
    (hsave : s.storage.saveFile u.package.nupkgBytes u.package.nupkgPath = .ok storage)
    (hfree : s.storage.objects.get u.package.nuspecPath.components = none) :
    RepositoryOk format c { s with storage } := by
  rw [DynStorage.eq_of_saveFile hsave]
  refine ⟨hok.staging, fun key content hget => ?_, fun w hw content hget => ?_, hok.projects,
    hok.versions⟩
  · rw [Store.get_put] at hget
    split_ifs at hget with heq
    · exact ⟨u, .inl ⟨heq, (Option.some.inj hget).symm⟩⟩
    · exact hok.objects key content hget
  · rw [Store.get_put_of_ne _ _ (u.package.nupkgPath_ne_nuspecPath w.package).symm] at hget
    rw [HasNupkg, Store.get_put] at hw
    split_ifs at hw with heq
    · rw [Upload.package_eq (Option.some.inj hw).symm, hfree] at hget
      cases hget
    · exact hok.nuspec w hw content hget

theorem repositoryOk_nuspec {storage : DynStorage} (hok : RepositoryOk format c s)
    (hnupkg : HasNupkg s u.package)
    (hsave : s.storage.saveFile (intoBytes u.package.nuspecXml) u.package.nuspecPath = .ok storage)
    (howns : ownsNuspec format s u.package = true) :
    RepositoryOk format c { s with storage } := by
  rw [DynStorage.eq_of_saveFile hsave]
  refine ⟨hok.staging, fun key content hget => ?_, fun w hw content hget => ?_, hok.projects,
    hok.versions⟩
  · rw [Store.get_put] at hget
    split_ifs at hget with heq
    · exact ⟨u, .inr ⟨heq, (Option.some.inj hget).symm⟩⟩
    · exact hok.objects key content hget
  · rw [HasNupkg, Store.get_put_of_ne _ _ (w.package.nupkgPath_ne_nuspecPath u.package)] at hw
    rw [Store.get_put] at hget
    split_ifs at hget with heq
    · rw [eq_of_ownsNuspec howns hnupkg hw heq]
      exact (Option.some.inj hget).symm
    · exact hok.nuspec w hw content hget

theorem validate_of_hasNuspec {p : ParsedNugetPackage} (hlocal : s.storage.backend = .local)
    (h : HasNuspec s p) : (StoragePath.ofString (lowerId p.packageId)).validate = true ∧
      (StoragePath.ofString (normalizeVersion p.version)).validate = true ∧
      (StoragePath.ofString (lowerId p.packageId ++ ".nuspec")).validate = true := by
  have hrejects := h.1
  simp_all [DynStorage.rejects, ParsedNugetPackage.nuspecPath, validate_flatcontainerNuspecPath]

theorem repositoryOk_of_moves (hok : RepositoryOk format c s) (hr : RequestOk c s ⟨u, stage⟩)
    (h : Moves format c s u.package stage t stage') : RepositoryOk format c t := by
  cases h with
  | before => exact hok
  | nupkg hsave _ hfree => exact repositoryOk_nupkg hok hsave hfree
  | nuspec hsave howns => exact repositoryOk_nuspec hok (hr.nupkg (Nat.le_refl _)) hsave howns
  | index _ _ hsame =>
    obtain ⟨hbackend, hstaging, hobjects⟩ := hsame
    refine ⟨fun key => hstaging key (hok.staging key), fun key content hget => ?_,
      fun w hw content hget => ?_, hok.projects, fun v hv hlocal => ?_⟩
    · exact hok.objects key content ((hobjects key).symm.trans hget)
    · exact hok.nuspec w ((hobjects _).symm.trans hw) content ((hobjects _).symm.trans hget)
    · exact hok.versions v hv (hbackend.symm.trans hlocal)
  | foundProject | noProject => exact hok
  | @newProject catalogue project hinsert =>
    have hprojects := Catalogue.unique_of_insertProject hinsert hok.projects
    obtain ⟨rfl, rfl, -⟩ := Catalogue.of_insertProject hinsert
    exact ⟨hok.staging, hok.objects, hok.nuspec, hprojects, hok.versions⟩
  | foundVersion | noVersion => exact hok
  | newVersion hinsert =>
    obtain ⟨rfl, -⟩ := Catalogue.of_insertVersion hinsert
    refine ⟨hok.staging, hok.objects, hok.nuspec, hok.projects, ?_⟩
    refine forall_mem_concat hok.versions fun hlocal => ?_
    exact (validate_of_hasNuspec hlocal (hr.nuspec (by show 3 ≤ 9; omega))).2.1
  | recorded => exact hok

theorem Stage.rank_done (answer : Answer) :
    Stage.rank (.done answer) = 11 ∨ Stage.rank (.done answer) = 0 := by
  cases answer with
  | created => exact .inl rfl
  | conflict | error => exact .inr rfl

theorem Stage.rank_of_projectId? {projectId : ℕ} (h : stage.projectId? = some projectId) :
    8 ≤ stage.rank := by
  cases stage with
  | findVersion => exact Nat.le_refl 8
  | insertVersion => exact Nat.le_succ 8
  | _ => cases h

theorem RequestOk.of_grows (h : Grows s t) (hr : RequestOk c s ⟨u, stage⟩) (hrank : 3 ≤ stage.rank)
    (hproject : ∀ projectId, stage'.projectId? = some projectId → ∃ p ∈ t.catalogue.projects,
      p.id = projectId ∧ c.same p.key u.package.packageId = true)
    (hfiled : 10 ≤ stage'.rank → Filed c t u.package) : RequestOk c t ⟨u, stage'⟩ where
  nupkg _ := h.hasNupkg (hr.nupkg (Nat.le_of_succ_le hrank))
  nuspec _ := h.hasNuspec (hr.nuspec hrank)
  project := hproject
  filed := hfiled

theorem requestOk_of_moves (hok : RepositoryOk format c s) (hr : RequestOk c s ⟨u, stage⟩)
    (h : Moves format c s u.package stage t stage') : RequestOk c t ⟨u, stage'⟩ := by
  have hgrows := grows_of_moves hok hr h
  cases h with
  | before _ hrank =>
    refine ⟨fun h => ?_, fun h => ?_, fun projectId h => ?_, fun h => ?_⟩
    · exact absurd (Nat.le_trans h hrank) (by omega)
    · exact absurd (Nat.le_trans h hrank) (by omega)
    · exact absurd (Nat.le_trans (Stage.rank_of_projectId? h) hrank) (by omega)
    · exact absurd (Nat.le_trans h hrank) (by omega)
  | nupkg hsave _ _ =>
    rw [DynStorage.eq_of_saveFile hsave]
    refine ⟨fun _ => Store.get_put_self _ _ _, fun h => ?_, fun projectId h => ?_, fun h => ?_⟩
    · exact absurd h (by show ¬ 3 ≤ 2; omega)
    · cases h
    · exact absurd h (by show ¬ 10 ≤ 2; omega)
  | nuspec hsave _ =>
    have hrejects := DynStorage.rejects_of_saveFile hsave
    refine ⟨fun _ => hgrows.hasNupkg (hr.nupkg (Nat.le_refl 2)), fun _ => ⟨?_, ?_⟩,
      fun projectId h => ?_, fun h => ?_⟩
    · rw [hgrows.rejects]
      exact hrejects
    · rw [DynStorage.eq_of_saveFile hsave]
      exact Store.get_put_self _ _ _
    · cases h
    · exact absurd h (by show ¬ 10 ≤ 3; omega)
  | index hrank hrank' _ =>
    refine .of_grows hgrows hr hrank.1 (fun projectId h => ?_) fun h => ?_
    · have := Stage.rank_of_projectId? h
      omega
    · omega
  | foundProject hfind =>
    refine .of_grows hgrows hr (by show 3 ≤ 6; omega) (fun projectId h => ?_) fun h => ?_
    · obtain ⟨hmem, hkey⟩ := Catalogue.of_findByProjectKey hfind
      exact ⟨_, hmem, Option.some.inj h, hkey⟩
    · exact absurd h (by show ¬ 10 ≤ 8; omega)
  | noProject =>
    refine .of_grows hgrows hr (by show 3 ≤ 6; omega) (fun projectId h => ?_) fun h => ?_
    · cases h
    · exact absurd h (by show ¬ 10 ≤ 7; omega)
  | newProject hinsert =>
    obtain ⟨hproject, hcatalogue, -⟩ := Catalogue.of_insertProject hinsert
    refine .of_grows hgrows hr (by show 3 ≤ 7; omega) (fun projectId h => ?_) fun h => ?_
    · refine ⟨_, ?_, Option.some.inj h, ?_⟩
      · rw [hcatalogue]
        exact List.mem_append_right _ List.mem_cons_self
      · rw [hproject]
        exact c.same_refl _
    · exact absurd h (by show ¬ 10 ≤ 8; omega)
  | foundVersion hfind =>
    refine .of_grows hgrows hr (by show 3 ≤ 8; omega) (fun projectId h => ?_) fun _ => ?_
    · cases h
    · obtain ⟨project, hmem, hid, hkey⟩ := hr.project _ rfl
      obtain ⟨hrow, hrowid, hversion⟩ := Catalogue.of_findByVersionAndProject hfind
      exact ⟨project, hmem, hkey, _, hrow, hrowid.trans hid.symm, hversion⟩
  | noVersion =>
    refine .of_grows hgrows hr (by show 3 ≤ 8; omega) (fun projectId h => ?_) fun h => ?_
    · exact hr.project projectId h
    · exact absurd h (by show ¬ 10 ≤ 9; omega)
  | newVersion hinsert =>
    obtain ⟨hcatalogue, -⟩ := Catalogue.of_insertVersion hinsert
    refine .of_grows hgrows hr (by show 3 ≤ 9; omega) (fun projectId h => ?_) fun _ => ?_
    · cases h
    · obtain ⟨project, hmem, hid, hkey⟩ := hr.project _ rfl
      rw [hcatalogue]
      exact ⟨project, hmem, hkey, _, List.mem_append_right _ List.mem_cons_self, hid.symm, rfl⟩
  | recorded =>
    refine .of_grows hgrows hr (by show 3 ≤ 10; omega) (fun projectId h => ?_) fun _ => ?_
    · cases h
    · exact hr.filed (Nat.le_refl 10)

/-- A request that writes its package file is apart from those that have written theirs. -/
theorem apart_of_moves (hother : RequestOk c s r')
    (hapart : Apart r r') (h : Moves format c s r.upload.package r.stage t stage') :
    Apart ⟨r.upload, stage'⟩ r' := by
  intro hrank hrank'
  by_cases hold : 2 ≤ r.stage.rank
  · exact hapart hold hrank'
  · intro heq
    obtain ⟨w, stage⟩ := r
    cases h with
    | before _ h => exact absurd (Nat.le_trans hrank h) (by omega)
    | nupkg _ hfree _ =>
      have hstored := hother.nupkg hrank'
      rw [HasNupkg, ← heq, hfree] at hstored
      cases hstored
    | index h => exact absurd (Nat.le_trans (Nat.le_succ 2) h.1) hold
    | _ => exact absurd (show 2 ≤ Stage.rank _ by simp only [Stage.rank]; omega) hold

theorem Apart.symm (h : Apart r r') : Apart r' r :=
  fun hrank hrank' heq => h hrank' hrank heq.symm

theorem requestOk_start (u : Upload format) : RequestOk c s ⟨u, .checkExists⟩ where
  nupkg h := absurd h (by show ¬ 2 ≤ 0; omega)
  nuspec h := absurd h (by show ¬ 3 ≤ 0; omega)
  project projectId h := by cases h
  filed h := absurd h (by show ¬ 10 ≤ 0; omega)

/-! ### Every package file is accounted for -/

abbrev Publishing (format : PackageFormat) := Pool HostedRepository (Publish format)

def Publish.inProgress (r : Publish format) : Prop := ∀ answer, r.stage ≠ .done answer

/-- Some request that is in progress has written the package file of `u`. -/
def OnItsWay (p : Publishing format) (u : Upload format) : Prop :=
  ∃ (i : ℕ) (r : Publish format), p.processes[i]? = some r ∧ r.inProgress ∧ 2 ≤ r.stage.rank ∧
    r.upload.package = u.package

def Accounted (c : Collation) (p : Publishing format) : Prop :=
  ∀ u : Upload format, HasNupkg p.shared u.package →
    OnItsWay p u ∨ HasNuspec p.shared u.package ∧ Filed c p.shared u.package

theorem nupkg_of_moves (h : Moves format c s u.package stage t stage')
    (hw : HasNupkg t w.package) : HasNupkg s w.package ∨ w.package = u.package ∧
      stage' = .saveNuspec := by
  cases h with
  | nupkg hsave _ _ =>
    rw [DynStorage.eq_of_saveFile hsave, HasNupkg, Store.get_put] at hw
    split_ifs at hw with heq
    · exact .inr ⟨Upload.package_eq (Option.some.inj hw).symm, rfl⟩
    · exact .inl hw
  | nuspec hsave _ =>
    rw [DynStorage.eq_of_saveFile hsave, HasNupkg,
      Store.get_put_of_ne _ _ (w.package.nupkgPath_ne_nuspecPath u.package)] at hw
    exact .inl hw
  | index _ _ hsame => exact .inl ((hsame.2.2 _).symm.trans hw)
  | before | foundProject | noProject | newProject | foundVersion | noVersion => exact .inl hw
  | newVersion | recorded => exact .inl hw

/-- A request that has written its package file goes on, or ends with its package catalogued. -/
theorem filed_of_moves (hok : RepositoryOk format c s) (hr : RequestOk c s ⟨u, stage⟩)
    (h : Moves format c s u.package stage t stage') (hrank : 2 ≤ stage.rank) :
    (∀ answer, stage' ≠ .done answer) ∧ 2 ≤ stage'.rank ∨
      HasNuspec t u.package ∧ Filed c t u.package := by
  have hgrows := grows_of_moves hok hr h
  have hafter := requestOk_of_moves hok hr h
  cases h with
  | before h => exact absurd (Nat.le_trans hrank h) (by omega)
  | nupkg => exact .inl ⟨fun _ h => (by cases h), Nat.le_refl 2⟩
  | nuspec => exact .inl ⟨fun _ h => (by cases h), Nat.le_succ 2⟩
  | index h h' =>
    grind [Stage.rank_done]
  | foundProject => exact .inl ⟨fun _ h => (by cases h), by show 2 ≤ 8; omega⟩
  | noProject => exact .inl ⟨fun _ h => (by cases h), by show 2 ≤ 7; omega⟩
  | newProject => exact .inl ⟨fun _ h => (by cases h), by show 2 ≤ 8; omega⟩
  | foundVersion =>
    exact .inr ⟨hafter.nuspec (by show 3 ≤ 11; omega), hafter.filed (by show 10 ≤ 11; omega)⟩
  | noVersion => exact .inl ⟨fun _ h => (by cases h), by show 2 ≤ 9; omega⟩
  | newVersion => exact .inl ⟨fun _ h => (by cases h), by show 2 ≤ 10; omega⟩
  | recorded => exact .inr ⟨hr.nuspec (by show 3 ≤ 10; omega), hr.filed (Nat.le_refl 10)⟩

def PublishGuarded (c : Collation) (p : Publishing format) :
    Pool.Action (Upload format) Bool → Prop :=
  Program.Guarded (fun fails s r => publishGuard c fails s r = true) p

instance (p : Publishing format) (a : Pool.Action (Upload format) Bool) :
    Decidable (PublishGuarded c p a) :=
  inferInstanceAs (Decidable (Program.Guarded _ p a))

variable {p p' : Publishing format} {a : Pool.Action (Upload format) Bool}

theorem holds_of_step (h : Pool.Holds (publishInvariant format c) p) (hg : PublishGuarded c p a)
    (hstep : (publishPackage format c).step p a = some p') :
    Pool.Holds (publishInvariant format c) p' := by
  refine h.of_step hstep (fun input _ => ⟨requestOk_start input, fun r => ⟨?_, ?_⟩⟩) ?_
  · exact fun _ hrank => absurd hrank (by show ¬ 2 ≤ 0; omega)
  · exact fun hrank => absurd hrank (by show ¬ 2 ≤ 0; omega)
  · rintro i fails r t q rfl hr hnext
    obtain ⟨hupload, hmoves⟩ := moves_of_next (hg r hr) hnext
    have hrok : RequestOk c p.shared r := h.each i r hr
    have hgrows := grows_of_moves h.shared hrok hmoves
    obtain ⟨u, stage⟩ := q
    obtain rfl : u = r.upload := hupload
    refine ⟨repositoryOk_of_moves h.shared hrok hmoves, requestOk_of_moves h.shared hrok hmoves,
      fun j r' hij hr' => ?_⟩
    have hother : RequestOk c p.shared r' := h.each j r' hr'
    have hapart := apart_of_moves hother (h.pair i j r r' hij hr hr') hmoves
    exact ⟨hgrows.requestOk hother, hapart, hapart.symm⟩

theorem grows_of_step (h : Pool.Holds (publishInvariant format c) p) (hg : PublishGuarded c p a)
    (hstep : (publishPackage format c).step p a = some p') : Grows p.shared p'.shared := by
  cases a with
  | start input =>
    obtain rfl := Option.some.inj hstep
    exact grows_refl _
  | advance i fails =>
    obtain ⟨r, t, q, hr, hnext, rfl⟩ := Program.step_advance hstep
    exact grows_of_moves h.shared (h.each i r hr) (moves_of_next (hg r hr) hnext).2

theorem accounted_of_step (h : Pool.Holds (publishInvariant format c) p) (ha : Accounted c p)
    (hg : PublishGuarded c p a) (hstep : (publishPackage format c).step p a = some p') :
    Accounted c p' := by
  have hgrows := grows_of_step h hg hstep
  cases a with
  | start input =>
    obtain rfl := Option.some.inj hstep
    intro u hu
    rcases ha u hu with ⟨i, r, hr, hway⟩ | hfiled
    · exact .inl ⟨i, r, Pool.getElem?_concat_eq_some.mpr (.inl hr), hway⟩
    · exact .inr hfiled
  | advance i fails =>
    obtain ⟨r, t, q, hr, hnext, rfl⟩ := Program.step_advance hstep
    obtain ⟨hupload, hmoves⟩ := moves_of_next (hg r hr) hnext
    have hself : (p.processes.set i q)[i]? = some q :=
      (Pool.getElem?_set_eq_some hr).mpr (.inl ⟨rfl, rfl⟩)
    intro u hu
    rcases nupkg_of_moves hmoves hu with hold | ⟨hpackage, hstage⟩
    · rcases ha u hold with ⟨j, r', hr', hprogress, hrank, hpackage⟩ | ⟨hnuspec, hfiled⟩
      · by_cases hij : i = j
        · subst hij
          obtain rfl := Option.some.inj (hr.symm.trans hr')
          rcases filed_of_moves h.shared (h.each i r hr) hmoves hrank with hgoes | hfiled
          · exact .inl ⟨i, q, hself, hgoes.1, hgoes.2, hupload ▸ hpackage⟩
          · exact .inr (hpackage ▸ hfiled)
        · have hsame : (p.processes.set i q)[j]? = some r' :=
            (Pool.getElem?_set_eq_some hr).mpr (.inr ⟨hij, hr'⟩)
          exact .inl ⟨j, r', hsame, hprogress, hrank, hpackage⟩
      · exact .inr ⟨hgrows.hasNuspec hnuspec, hgrows.filed hfiled⟩
    · refine .inl ⟨i, q, hself, fun answer hdone => ?_, ?_, hupload ▸ hpackage.symm⟩
      · rw [hstage] at hdone
        cases hdone
      · rw [hstage]
        exact Nat.le_refl 2

/-! ### Listing -/

def Listed (format : PackageFormat) (c : Collation) (s : HostedRepository)
    (package : ParsedNugetPackage) : Prop :=
  ∃ records, listHostedVersions format c s package.packageId = .ok records ∧
    ∃ r ∈ records, r.lowerVersion = normalizeVersion package.version

def Publish.succeeded (r : Publish format) : Prop := ∃ location, r.stage = .done (.created location)

def emptyRepository (format : PackageFormat) (backend : Backend) : Publishing format :=
  ⟨⟨⟨backend, ∅, ∅⟩, .empty⟩, []⟩

theorem holds_empty (format : PackageFormat) (c : Collation) (backend : Backend) :
    Pool.Holds (publishInvariant format c) (emptyRepository format backend) := by
  refine Pool.holds_nil ⟨fun _ => rfl, fun key content h => ?_, fun u h => ?_, fun p hp => ?_,
    fun v hv => ?_⟩
  · cases h
  · cases h
  · exact absurd hp List.not_mem_nil
  · exact absurd hv List.not_mem_nil

/-- **Run lemma**: what holds in every state of a run under the condition. -/
theorem holds_of_run {p p' : Publishing format} {as : List (Pool.Action (Upload format) Bool)}
    (hp : Pool.Holds (publishInvariant format c) p) (ha : Accounted c p)
    (hok : StepsOk (publishPackage format c).step (PublishGuarded c) p as)
    (hrun : run (publishPackage format c).step p as = some p') :
    Pool.Holds (publishInvariant format c) p' ∧ Accounted c p' ∧ Grows p.shared p'.shared := by
  refine run_invariant_of_stepsOk (I := fun q => Pool.Holds (publishInvariant format c) q ∧
    Accounted c q ∧ Grows p.shared q.shared) ?_ ⟨hp, ha, grows_refl _⟩ hok hrun
  rintro q a q' ⟨hq, hqa, hgrows⟩ hg hstep
  exact ⟨holds_of_step hq hg hstep, accounted_of_step hq hqa hg hstep,
    hgrows.trans (grows_of_step hq hg hstep)⟩

def demoMetadata (version : String) : NugetMetadata :=
  ⟨"demo", version, none, none, none, none, none, none, none, none, none, []⟩

/-- Archives with one entry, in two builds of one version. -/
def demoFormat : PackageFormat where
  entries
    | 1 :: _ => some [some ("demo.nuspec", some "1.0")]
    | 2 :: _ => some [some ("demo.nuspec", some "1.0+build")]
    | _ => none
  parseNuspec xml := some (demoMetadata xml)

/-- An archive of version `1.0` of `demo`; `extra` tells two of them apart. -/
def demoUpload (extra : UInt8) : Upload demoFormat where
  package := ⟨"demo", "demo", "1.0", "1.0", "1.0", demoMetadata "1.0", [1, extra]⟩
  parsed := rfl

/-- Another build of the version, which is stored at the same paths. -/
def demoBuild : Upload demoFormat where
  package := ⟨"demo", "demo", "1.0+build", "1.0", "1.0+build", demoMetadata "1.0+build", [2]⟩
  parsed := rfl

/-- One build is published, although a deletion fails; the other, which is checked after the first
has been written, is refused. -/
def demoRun : List (Pool.Action (Upload demoFormat) Bool) :=
  [.start (demoUpload 0), .start demoBuild, .advance 0 false, .advance 0 false, .advance 1 false,
    .advance 0 false, .advance 0 true] ++ List.replicate 7 (.advance 0 false)

/-- Two archives of one version are published by requests that have both checked before one of them
writes. -/
def racingRun : List (Pool.Action (Upload demoFormat) Bool) :=
  [.start (demoUpload 0), .start (demoUpload 1), .advance 0 false, .advance 1 false] ++
    List.replicate 10 (.advance 0 false) ++ List.replicate 7 (.advance 1 false)

end Pkgly.Nuget
