import Pkgly.Docker.Equiv.Manifests
import Pkgly.Docker.Proxy
import Pkgly.Storage.Equiv.StoragePath

/-!
# The cached manifests of a proxy

A manifest is written under its reference and under its digest.  A write stores the content at its
path (`written`), keeps a file that has it already, and replaces another one under a tag.  It ends
with a mismatch exactly if it is blocked (`WriteBlocked`): by another file under a digest, or by a
file above the path.  `ensureManifestCached_cases` and `recordManifest_cases` say the same of both
writes and of what is recorded after them.
-/

namespace Pkgly.Docker

open StoragePath DynStorage

/-- The error is a `DigestMismatch`. -/
def DownloadError.isMismatch : DownloadError → Bool
  | .digestMismatch .. => true
  | _ => false

/-! ### The storage -/

def Unstaged (st : DynStorage) : Prop := ∀ key, st.staging.get key = none

def cleared (st : DynStorage) (path : StoragePath) (content : Bytes) : DynStorage :=
  match st.openFile path with
  | .ok (some (.file old)) => if old = content then st else st.erase path
  | _ => st

/-- There is nothing at the path, and nothing can be: a file lies above it. -/
def Colliding (st : DynStorage) (path : StoragePath) : Prop :=
  st.rejects path = false ∧ Objects.hasFileAncestor st.objects path.components = true ∧
    st.openFile path = .ok none

/-- The content is not stored at the path although it could be: another one is stored there under a
digest, or a file lies above the path. -/
def WriteBlocked (st : DynStorage) (path : StoragePath) (reference : String) (content : Bytes) :
    Prop :=
  st.openFile path ≠ .ok (some (.file content)) ∧
    (isDigestReference reference = true ∧ (∃ old, st.openFile path = .ok (some (.file old))) ∨
      Colliding (cleared st path content) path)

def written (st : DynStorage) (path : StoragePath) (content : Bytes) : Option DynStorage :=
  if st.openFile path = .ok (some (.file content)) then some st
  else ((cleared st path content).saveFile content path).toOption

variable {env : DownloadEnvironment} {st st' : DynStorage} {path : StoragePath}
  {name reference : String} {content : Bytes}

theorem openFile_of_rejects (h : st.rejects path = true) :
    st.openFile path = .error .invalidStoragePath := by
  unfold openFile
  rw [if_pos h]

theorem openFile_cases (hunstaged : Unstaged st) (haccepted : st.rejects path = false) :
    (∃ old, st.openFile path = .ok (some (.file old)) ∧
        st.objects.get path.components = some old ∧ st.fileExists path = .ok true) ∨
      st.openFile path = .ok none ∧ st.fileExists path = .ok false ∨
      (∃ files, st.openFile path = .ok (some (.directory files))) ∧
        st.fileExists path = .ok (st.backend == .local) ∧
        Objects.isDir st.objects path.components = true := by
  have hstaged : (st.lookupKey? path).bind st.staging.get = none := by
    cases st.lookupKey? path with
    | none => rfl
    | some key => exact hunstaged key
  unfold openFile fileExists
  rw [haccepted, hstaged, if_neg Bool.false_ne_true, if_neg Bool.false_ne_true]
  cases hbackend : st.backend with
  | «local» =>
    have hlookup : st.lookupKey? path = some path.components := by
      unfold lookupKey?
      rw [hbackend]
    grind
  | s3 =>
    have hlookup : (st.lookupKey? path).bind st.objects.get = none ∨
        (st.lookupKey? path).bind st.objects.get = st.objects.get path.components := by
      unfold lookupKey?
      rw [hbackend]
      dsimp only
      split_ifs
      · exact .inl rfl
      · exact .inr rfl
    grind

theorem saveFile_eq_pathCollision_iff : st.saveFile content path = .error .pathCollision ↔
    st.rejects path = false ∧ Objects.hasFileAncestor st.objects path.components = true := by
  unfold saveFile pathForCreation
  split_ifs with hrejects hancestor
  · simp [bind, Except.bind, hrejects]
  · simp [bind, Except.bind, hrejects, hancestor]
  · simp only [bind, Except.bind]
    split_ifs <;> simp [hancestor]

/-- The save of a file where there is none: it is stored, or there is an error that is a mismatch
only in a collision. -/
theorem saveManifestFile_cases (hnone : ∀ old, st.openFile path ≠ .ok (some (.file old)))
    (expected : String) (streamed : StreamedDownload) :
    (∃ st', st.saveFile streamed.content path = .ok st' ∧ ¬ Colliding st path ∧
      saveManifestFile env st path reference expected streamed = (st', .ok ())) ∨
    (st.saveFile streamed.content path).toOption = none ∧ ∃ e,
      saveManifestFile env st path reference expected streamed = (st, .error e) ∧
        (e.isMismatch = true ↔ Colliding st path) := by
  unfold saveManifestFile
  cases hsave : st.saveFile streamed.content path with
  | ok st' =>
    refine .inl ⟨st', rfl, fun hcolliding => ?_, rfl⟩
    have hcollision : st.saveFile streamed.content path = .error .pathCollision :=
      saveFile_eq_pathCollision_iff.mpr ⟨hcolliding.1, hcolliding.2.1⟩
    rw [hsave] at hcollision
    cases hcollision
  | error e =>
    refine .inr ⟨rfl, ?_⟩
    by_cases hcollision : e = .pathCollision
    · subst hcollision
      obtain ⟨haccepted, hancestor⟩ := saveFile_eq_pathCollision_iff.mp hsave
      dsimp only
      cases hopen : st.openFile path with
      | error e =>
        refine ⟨.storage e, ?_, iff_of_false Bool.false_ne_true fun h => ?_⟩
        · rw [verifyCachedDigest, loadCachedManifest, hopen]
        · rw [h.2.2] at hopen
          cases hopen
      | ok found =>
        cases found with
        | none =>
          refine ⟨.digestMismatch expected (cachedDigestString env st path reference), ?_,
            iff_of_true rfl ⟨haccepted, hancestor, hopen⟩⟩
          rw [verifyCachedDigest, loadCachedManifest, hopen]
          rfl
        | some file =>
          cases file with
          | file old => exact absurd hopen (hnone old)
          | directory files =>
            refine ⟨.invalidManifest "Expected file, got directory", ?_,
              iff_of_false Bool.false_ne_true fun h => ?_⟩
            · rw [verifyCachedDigest, loadCachedManifest, hopen]
            · rw [h.2.2] at hopen
              cases hopen
    · have hnot : ¬ Colliding st path := by
        intro hcolliding
        have hsave' : st.saveFile streamed.content path = .error .pathCollision :=
          saveFile_eq_pathCollision_iff.mpr ⟨hcolliding.1, hcolliding.2.1⟩
        rw [hsave] at hsave'
        exact hcollision (Except.error.inj hsave')
      aesop

theorem cleared_of_ne (hnone : ∀ old, st.openFile path ≠ .ok (some (.file old))) :
    cleared st path content = st := by
  unfold cleared
  split
  · rename_i old hopen
    exact absurd hopen (hnone old)
  · rfl

theorem openFile_erase_ne (hunstaged : Unstaged st) (old : Bytes) :
    (st.erase path).openFile path ≠ .ok (some (.file old)) := by
  intro hopen
  have hstaged : ∀ key, (st.erase path).staging.get key = none := by
    intro key
    rw [getStaging_erase, hunstaged key, ite_self]
  grind [openFile_eq_file_iff, get_erase, lookupKey?, backend_erase, deletes, Option.some.inj]

theorem written_of_ne (hnone : ∀ old, st.openFile path ≠ .ok (some (.file old))) :
    written st path content = (st.saveFile content path).toOption := by
  rw [written, if_neg (hnone content), cleared_of_ne hnone]

theorem writeBlocked_iff_of_ne (hnone : ∀ old, st.openFile path ≠ .ok (some (.file old))) :
    WriteBlocked st path reference content ↔ Colliding st path := by
  grind [WriteBlocked, cleared_of_ne, absurd]

/-- The outcomes of a write: the content is stored, or there is an error that is a mismatch only if
the write is blocked. -/
def WriteOutcome (st : DynStorage) (path : StoragePath)
    (reference : String) (content : Bytes) (result : DynStorage × Except DownloadError Unit) :
    Prop :=
  (∃ st', written st path content = some st' ∧ ¬ WriteBlocked st path reference content ∧
      result = (st', .ok ())) ∨
    ∃ st' e, result = (st', .error e) ∧
      (e.isMismatch = true ↔ WriteBlocked st path reference content) ∧
      (isDigestReference reference = false → written st path content = none)

theorem writeOutcome_of_ne (hnone : ∀ old, st.openFile path ≠ .ok (some (.file old))) :
    WriteOutcome st path reference content (saveManifestFile env st path reference
      (env.sha.digest content) ⟨content, env.sha.digest content⟩) := by
  rw [WriteOutcome, writeBlocked_iff_of_ne hnone, written_of_ne hnone]
  rcases saveManifestFile_cases hnone (env.sha.digest content)
    (⟨content, env.sha.digest content⟩ : StreamedDownload) with
    ⟨st', hsave, hnot, hresult⟩ | ⟨hfails, e, hresult, hmismatch⟩
  · refine .inl ⟨st', ?_, hnot, hresult⟩
    rw [hsave]
    rfl
  · exact .inr ⟨st, e, hresult, hmismatch, fun _ => hfails⟩

theorem writeOutcome_of_file (hunstaged : Unstaged st) (haccepted : st.rejects path = false)
    (hdigest : isDigestReference reference = true → reference = env.sha.digest content)
    {old : Bytes} (hopen : st.openFile path = .ok (some (.file old))) (hne : old ≠ content)
    (hexists : st.fileExists path = .ok true) :
    WriteOutcome st path reference content (writeManifestFile env st path reference
      (env.sha.digest content) ⟨content, env.sha.digest content⟩) := by
  have hdigestNe : env.sha.digest old ≠ env.sha.digest content := fun h =>
    hne (env.sha.digest_injective h)
  have hother : st.openFile path ≠ .ok (some (.file content)) := by
    rw [hopen]
    rintro ⟨⟩
    exact hne rfl
  rw [writeManifestFile, hexists]
  dsimp only
  cases hreference : isDigestReference reference with
  | true =>
    have hnot : reference ≠ env.sha.digest old := by
      rw [hdigest hreference]
      exact hdigestNe.symm
    have hload : loadCachedManifest env st path reference =
        .error (.digestMismatch reference (env.sha.digest old)) := by
      rw [loadCachedManifest, hopen]
      dsimp only
      rw [if_pos (by simp [hreference, hnot])]
    rw [hload]
    refine .inr ⟨st, _, rfl, iff_of_true rfl ⟨hother, .inl ⟨hreference, old, hopen⟩⟩, ?_⟩
    rw [hreference]
    exact fun h => nomatch h
  | false =>
    have hcleared : cleared st path content = st.erase path := by
      rw [cleared, hopen]
      exact if_neg hne
    have hdrop : dropFile st path = st.erase path := by
      obtain ⟨found, hdelete⟩ := exists_deleteFile haccepted
      rw [dropFile, hdelete]
    have hload : ∃ contentType, loadCachedManifest env st path reference =
        .ok (some ⟨old, env.sha.digest old, contentType, old.length⟩) := by
      refine ⟨(env.recordedType path old).getD (manifestMediaType env.serde old none), ?_⟩
      rw [loadCachedManifest, hopen]
      dsimp only
      rw [if_neg (by simp [hreference])]
    obtain ⟨contentType, hload⟩ := hload
    have hdiffers : ¬ (some (⟨old, env.sha.digest old, contentType, old.length⟩ :
        CachedManifest)).map CachedManifest.digest = some (env.sha.digest content) :=
      fun h => hdigestNe (Option.some.inj h)
    rw [hload]
    dsimp only
    rw [if_neg hdiffers, hdrop]
    have hblocked : WriteBlocked st path reference content ↔ Colliding (st.erase path) path := by grind [WriteBlocked]
    have hwritten : written st path content = ((st.erase path).saveFile content path).toOption := by
      rw [written, if_neg hother, hcleared]
    rw [WriteOutcome, hblocked, hwritten]
    rcases saveManifestFile_cases (openFile_erase_ne hunstaged) (env.sha.digest content)
      (⟨content, env.sha.digest content⟩ : StreamedDownload) with
      ⟨st', hsave, hnot, hresult⟩ | ⟨hfails, e, hresult, hmismatch⟩
    · refine .inl ⟨st', ?_, hnot, hresult⟩
      rw [hsave]
      rfl
    · exact .inr ⟨_, e, hresult, hmismatch, fun _ => hfails⟩

theorem writeManifestFile_of_file (hunstaged : Unstaged st)
    (hdigest : isDigestReference reference = true → reference = env.sha.digest content)
    (hopen : st.openFile path = .ok (some (.file content))) :
    writeManifestFile env st path reference (env.sha.digest content)
      ⟨content, env.sha.digest content⟩ = (st, .ok ()) := by
  have haccepted : st.rejects path = false := (openFile_eq_file_iff.mp hopen).1
  have hexists : st.fileExists path = .ok true := by grind [openFile_cases]
  have hagrees : ¬ (isDigestReference reference && reference != env.sha.digest content) = true := by
    rw [Bool.and_eq_true, bne_iff_ne]
    exact fun h => h.2 (hdigest h.1)
  rw [writeManifestFile, hexists]
  dsimp only
  rw [loadCachedManifest, hopen]
  dsimp only
  rw [if_neg hagrees]
  exact if_pos rfl

theorem writeManifestFile_cases (hunstaged : Unstaged st)
    (hdigest : isDigestReference reference = true → reference = env.sha.digest content) :
    WriteOutcome st path reference content (writeManifestFile env st path reference
      (env.sha.digest content) ⟨content, env.sha.digest content⟩) := by
  by_cases hrejects : st.rejects path = true
  · have hopen := openFile_of_rejects hrejects
    have hnone : ∀ old, st.openFile path ≠ .ok (some (.file old)) := by
      intro old h
      rw [hopen] at h
      cases h
    have hexists : st.fileExists path = .error .invalidStoragePath := by
      unfold fileExists
      rw [if_pos hrejects]
    have hsave : st.saveFile content path = .error .invalidStoragePath := by
      unfold saveFile pathForCreation
      rw [if_pos hrejects]
      rfl
    rw [WriteOutcome, writeBlocked_iff_of_ne hnone, written_of_ne hnone, writeManifestFile, hexists,
      hsave]
    refine .inr ⟨st, _, rfl, iff_of_false Bool.false_ne_true fun h => ?_, fun _ => rfl⟩
    have haccepted := h.1
    rw [hrejects] at haccepted
    cases haccepted
  have haccepted : st.rejects path = false := Bool.not_eq_true _ ▸ hrejects
  rcases openFile_cases hunstaged haccepted with
    ⟨old, hopen, -, hexists⟩ | ⟨hopen, hexists⟩ | ⟨⟨files, hopen⟩, hexists, hdir⟩
  · by_cases heq : old = content
    · subst heq
      refine .inl ⟨st, if_pos hopen, fun h => h.1 hopen, ?_⟩
      exact writeManifestFile_of_file hunstaged hdigest hopen
    · exact writeOutcome_of_file hunstaged haccepted hdigest hopen heq hexists
  · grind [writeManifestFile, writeOutcome_of_ne]
  · have hnone : ∀ old, st.openFile path ≠ .ok (some (.file old)) := by
      intro old h
      rw [hopen] at h
      cases h
    rw [writeManifestFile, hexists]
    cases hbackend : st.backend with
    | s3 => exact writeOutcome_of_ne hnone
    | «local» =>
      have hsave : (st.saveFile content path).toOption = none := by
        unfold saveFile pathForCreation
        rw [haccepted, hbackend, if_neg Bool.false_ne_true]
        split_ifs
        · rfl
        · simp [bind, Except.bind, hdir, Except.toOption]
      have hload : loadCachedManifest env st path reference =
          .error (.invalidManifest "Expected file, got directory") := by
        rw [loadCachedManifest, hopen]
      rw [WriteOutcome, writeBlocked_iff_of_ne hnone, written_of_ne hnone, hsave, hload]
      refine .inr ⟨st, .invalidManifest "Expected file, got directory", rfl, iff_of_false Bool.false_ne_true fun h => ?_, fun _ => rfl⟩
      rw [h.2.2] at hopen
      cases hopen

theorem unstaged_cleared (hunstaged : Unstaged st) : Unstaged (cleared st path content) := by
  unfold cleared
  split
  · split_ifs
    · exact hunstaged
    · intro key
      rw [getStaging_erase, hunstaged key, ite_self]
  · exact hunstaged

theorem of_written (hunstaged : Unstaged st) (h : written st path content = some st') :
    Unstaged st' ∧ st'.rejects path = false ∧
      st'.objects.get path.components = some content := by
  unfold written at h
  split_ifs at h with hopen
  · obtain rfl := Option.some.inj h
    rcases openFile_cases hunstaged (openFile_eq_file_iff.mp hopen).1 with
      ⟨old, hold, hget, -⟩ | ⟨hold, -⟩ | ⟨⟨files, hold⟩, -⟩
    · rw [hold] at hopen
      cases hopen
      exact ⟨hunstaged, (openFile_eq_file_iff.mp hold).1, hget⟩
    · rw [hold] at hopen
      cases hopen
    · rw [hold] at hopen
      cases hopen
  · cases hsave : (cleared st path content).saveFile content path with
    | error e =>
      rw [hsave] at h
      cases h
    | ok saved =>
      rw [hsave] at h
      obtain rfl : saved = st' := Option.some.inj h
      have haccepted := rejects_of_saveFile hsave
      obtain rfl := eq_of_saveFile hsave
      exact ⟨unstaged_cleared hunstaged, haccepted, Store.get_put_self _ _ _⟩

theorem get_of_written (hfile : ∀ old, st.openFile path = .ok (some (.file old)) → old = content)
    (h : written st path content = some st') {key : List String} (hkey : key ≠ path.components) :
    st'.objects.get key = st.objects.get key := by
  have hcleared : cleared st path content = st := by
    unfold cleared
    split
    · rename_i old hopen
      exact if_pos (hfile old hopen)
    · rfl
  unfold written at h
  rw [hcleared] at h
  split_ifs at h with hopen
  · rw [Option.some.inj h]
  · cases hsave : st.saveFile content path with
    | error e =>
      rw [hsave] at h
      cases h
    | ok saved =>
      rw [hsave] at h
      obtain rfl : saved = st' := Option.some.inj h
      rw [eq_of_saveFile hsave]
      exact (Store.get_put _ _ _ _).trans (if_neg hkey)

theorem isDigestReference_digest (sha : Sha256) (content : Bytes) :
    isDigestReference (sha.digest content) = true := by
  rw [isDigestReference, startsWith, List.isPrefixOf_iff_prefix, Sha256.digest,
    String.toList_append]
  exact List.prefix_append _ _

theorem isDirectory_manifestPath_digest (sha : Sha256) (name : String) (content : Bytes) :
    (manifestPath name (sha.digest content)).isDirectory = false := by
  have hne := sha.digest_ne_nil content
  refine isDirectory_append "v2" ?_ ?_
  · simp
  · have hlast : ("/" ++ (name ++ ("/" ++ ("manifests" ++ ("/" ++
        sha.digest content))))).toList.getLast? = (sha.digest content).toList.getLast? := by
      simp only [String.toList_append]
      rw [← List.append_assoc, ← List.append_assoc, ← List.append_assoc, ← List.append_assoc,
        List.getLast?_append_of_ne_nil _ hne]
    rw [hlast]
    exact fun h => sha.slash_notMem_digest content (List.mem_of_getLast? h)

/-! ### Both objects -/

structure Stored (env : DownloadEnvironment) (name reference : String) (content : Bytes)
    (st : DynStorage) : Prop where
  tag : st.objects.get (manifestPath name reference).components = some content
  digest : st.objects.get (manifestPath name (env.sha.digest content)).components = some content

/-- A write under the reference or, for a tag, the one under the digest that follows is blocked. -/
def Blocked (env : DownloadEnvironment) (st : DynStorage) (name reference : String)
    (content : Bytes) : Prop :=
  WriteBlocked st (manifestPath name reference) reference content ∨
    isDigestReference reference = false ∧
      ∃ st', written st (manifestPath name reference) content = some st' ∧
        WriteBlocked st' (manifestPath name (env.sha.digest content)) (env.sha.digest content)
          content

theorem ensureManifestCached_cases (name : String) (hunstaged : Unstaged st)
    (hdigest : isDigestReference reference = true → reference = env.sha.digest content) :
    (∃ st', ensureManifestCached env st (manifestPath name reference) name reference
          ⟨content, env.sha.digest content⟩ (env.sha.digest content) = (st', .ok ()) ∧
        ¬ Blocked env st name reference content ∧ Unstaged st' ∧
        st'.rejects (manifestPath name (env.sha.digest content)) = false ∧
        Stored env name reference content st') ∨
      ∃ st' e, ensureManifestCached env st (manifestPath name reference) name reference
          ⟨content, env.sha.digest content⟩ (env.sha.digest content) = (st', .error e) ∧
        (e.isMismatch = true ↔ Blocked env st name reference content) := by
  have hwrite : WriteOutcome st (manifestPath name reference) reference content
      (writeManifestFile env st (manifestPath name reference) reference (env.sha.digest content)
        ⟨content, env.sha.digest content⟩) := writeManifestFile_cases hunstaged hdigest
  rw [ensureManifestCached]
  cases hreference : isDigestReference reference with
  | true =>
    have hblocked : Blocked env st name reference content ↔
        WriteBlocked st (manifestPath name reference) reference content := by
      rw [Blocked, hreference]
      simp
    rw [hblocked, if_pos rfl, saveManifestAtomically]
    rcases hwrite with ⟨st', hwritten, hnot, hresult⟩ | ⟨st', e, hresult, hmismatch, -⟩
    · rw [hresult]
      obtain ⟨hunstaged', haccepted, hget⟩ := of_written hunstaged hwritten
      have heq := hdigest hreference
      exact .inl ⟨st', rfl, hnot, hunstaged', heq ▸ haccepted, hget, heq ▸ hget⟩
    · rw [hresult]
      exact .inr ⟨st', e, rfl, hmismatch⟩
  | false =>
    rw [if_neg Bool.false_ne_true, saveManifestAtomically]
    rcases hwrite with ⟨st₁, hwritten, hnot, hresult⟩ | ⟨st₁, e, hresult, hmismatch, hnone⟩
    swap
    · rw [hresult]
      refine .inr ⟨st₁, e, rfl, hmismatch.trans ⟨.inl, ?_⟩⟩
      grind [Blocked, WriteBlocked, manifestPath]
    rw [hresult]
    dsimp only
    obtain ⟨hunstaged₁, haccepted₁, hget₁⟩ := of_written hunstaged hwritten
    have hblocked : Blocked env st name reference content ↔
        WriteBlocked st₁ (manifestPath name (env.sha.digest content)) (env.sha.digest content)
          content := by grind [absurd, hnot, Blocked, WriteBlocked, manifestPath, Sha256.digest]
    rw [hblocked]
    have hwrite₁ : WriteOutcome st₁ (manifestPath name (env.sha.digest content))
        (env.sha.digest content) content (writeManifestFile env st₁
          (manifestPath name (env.sha.digest content)) (env.sha.digest content)
          (env.sha.digest content) ⟨content, env.sha.digest content⟩) :=
      writeManifestFile_cases hunstaged₁ fun _ => rfl
    rcases hwrite₁ with
      ⟨st₂, hwritten₂, hnot₂, hresult₂⟩ | ⟨st₂, e, hresult₂, hmismatch, -⟩
    · rw [hresult₂]
      obtain ⟨hunstaged₂, haccepted₂, hget₂⟩ := of_written hunstaged₁ hwritten₂
      refine .inl ⟨st₂, rfl, hnot₂, hunstaged₂, haccepted₂, ?_, hget₂⟩
      by_cases hkey : (manifestPath name reference).components =
          (manifestPath name (env.sha.digest content)).components
      · rw [hkey]
        exact hget₂
      · rw [get_of_written ?_ hwritten₂ hkey, hget₁]
        intro old hopen
        by_contra hne
        refine hnot₂ ⟨?_, .inl ⟨isDigestReference_digest env.sha content, old, hopen⟩⟩
        rw [hopen]
        rintro ⟨⟩
        exact hne rfl
    · rw [hresult₂]
      exact .inr ⟨_, e, rfl, hmismatch⟩

/-! ### The path of the metadata -/

def characters (key : List String) : List Char := (key.map String.toList).flatten

theorem flatten_splitOn (sep : Char) (s : List Char) :
    (s.splitOn sep).flatten = s.filter (· ≠ sep) := by
  induction s with
  | nil => rfl
  | cons c s ih =>
    rw [List.splitOn_cons_eq_if_modifyHead]
    by_cases hc : c = sep
    · grind
    · rw [if_neg (by simpa using hc), List.filter_cons_of_pos (by simpa using hc), ← ih]
      cases hsplit : s.splitOn sep with
      | nil => exact absurd hsplit (List.splitOn_ne_nil _ _)
      | cons first rest => rfl

theorem characters_segments (s : String) :
    characters (segments '/' s) = s.toList.filter (· ≠ '/') := by
  rw [characters, toList_segments, ← flatten_splitOn]
  exact List.flatten_filter_ne_nil

theorem characters_manifestMetaPath (h : path.WellFormed) :
    characters (manifestMetaPath path).components =
      characters path.components ++ ".nr-docker-tagmeta".toList := by
  have hpath : characters path.components = path.toString'.toList.filter (· ≠ '/') := by
    rw [← characters_segments, h.segments_toString']
  rw [manifestMetaPath, components_ofString, characters_segments, String.toList_append,
    List.filter_append, hpath]
  rfl

theorem manifestMetaPath_ne_self (h : path.WellFormed) :
    path.components ≠ (manifestMetaPath path).components := by
  grind [characters_manifestMetaPath, List.self_eq_append_right, absurd]

theorem manifestMetaPath_ne_digest (sha : Sha256) (name reference : String) (content : Bytes) :
    (manifestPath name (sha.digest content)).components ≠
      (manifestMetaPath (manifestPath name reference)).components := by
  intro heq
  have hcharacters : characters (manifestPath name (sha.digest content)).components =
      characters (manifestPath name reference).components ++ ".nr-docker-tagmeta".toList := by
    rw [heq]
    exact characters_manifestMetaPath (wellFormed_ofString _)
  have hkey : ∀ reference, characters (manifestPath name reference).components =
      characters ("v2" :: (segments '/' name ++ ["manifests"])) ++
        characters (segments '/' reference) := by
    intro reference
    rw [components_manifestPath]
    simp [characters]
  have hsegments : segments '/' (sha.digest content) = [sha.digest content] :=
    segments_eq_singleton (sha.slash_notMem_digest content) (sha.digest_ne_nil content)
  rw [hkey, hkey, List.append_assoc, List.append_cancel_left_eq, hsegments] at hcharacters
  have hdot : '.' ∈ (sha.digest content).toList := by simp_all [characters]
  rw [Sha256.digest, String.toList_append, List.mem_append] at hdot
  rcases hdot with hdot | hdot
  · exact absurd hdot (by decide)
  · exact absurd (sha.isLowerHex_of_mem content '.' hdot) (by decide)

/-! ### What is recorded -/

theorem recordManifest_cases (hunstaged : Unstaged st)
    (haccepted : st.rejects (manifestPath name (env.sha.digest content)) = false)
    (hstored : Stored env name reference content st) (references : List String) :
    (∃ st', recordManifest env st name reference ⟨content, env.sha.digest content⟩ references =
        (st', .ok ()) ∧ Stored env name reference content st') ∨
      ∃ st' e, recordManifest env st name reference ⟨content, env.sha.digest content⟩ references =
        (st', .error e) ∧ e.isMismatch = false := by
  have hrecord : ∀ reference path digest size, recordDockerManifestCacheHit env name reference path
        digest size references = .ok () ∨
      ∃ e, recordDockerManifestCacheHit env name reference path digest size references =
        .error e ∧ e.isMismatch = false := by
    intro reference path digest size
    rw [recordDockerManifestCacheHit]
    split
    · exact .inr ⟨_, rfl, rfl⟩
    · exact .inl rfl
  rw [recordManifest]
  dsimp only
  rcases hrecord reference (manifestPath name reference) (env.sha.digest content) content.length
    with hok | ⟨e, herror, he⟩
  swap
  · rw [herror]
    exact .inr ⟨st, e, rfl, he⟩
  rw [hok]
  dsimp only
  split_ifs with hreference
  · exact .inl ⟨st, rfl, hstored⟩
  -- a tag: its digest is stored already
  have hopen := openFile_of_get content haccepted
    (isDirectory_manifestPath_digest env.sha name content) hunstaged hstored.digest
  have hensure : ensureManifestCached env st (manifestPath name (env.sha.digest content)) name
      (env.sha.digest content) ⟨content, env.sha.digest content⟩ (env.sha.digest content) =
        (st, .ok ()) := by
    rw [ensureManifestCached, isDigestReference_digest, if_pos rfl, saveManifestAtomically,
      writeManifestFile_of_file hunstaged (fun _ => rfl) hopen]
  rw [cacheDigest]
  dsimp only
  rw [hensure]
  dsimp only
  rcases hrecord (env.sha.digest content) (manifestPath name (env.sha.digest content))
    (env.sha.digest content) content.length with hok | ⟨e, herror, he⟩
  swap
  · rw [herror]
    exact .inr ⟨st, e, rfl, he⟩
  rw [hok]
  dsimp only
  rw [saveManifestMeta]
  cases hsave : st.saveFile (env.metaText (env.sha.digest content))
      (manifestMetaPath (manifestPath name reference)) with
  | error e => exact .inr ⟨st, _, rfl, rfl⟩
  | ok st' =>
    have hwellFormed : (manifestPath name reference).WellFormed := wellFormed_ofString _
    refine .inl ⟨st', rfl, ?_, ?_⟩
    · rw [eq_of_saveFile hsave]
      refine (Store.get_put _ _ _ _).trans ?_
      rw [if_neg (manifestMetaPath_ne_self hwellFormed)]
      exact hstored.tag
    · rw [eq_of_saveFile hsave]
      refine (Store.get_put _ _ _ _).trans ?_
      rw [if_neg (manifestMetaPath_ne_digest env.sha name reference content)]
      exact hstored.digest

end Pkgly.Docker
