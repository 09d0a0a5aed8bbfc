import Pkgly.Algorithm.Run
import Pkgly.Storage.S3.S3Storage

/-!
# Keys and ancestors in an S3 storage

`getPathForCreation` joins the repository and the components with slashes (`joined`), and fails
exactly if an object is stored at one of the proper ancestors below the repository, whatever the
memo remembers (`getPathForCreation_eq`); it changes nothing but the memo.

* `agrees_iff`: what the writers write is where the other operations look, exactly for the paths
  with at least one component and no trailing slash.
* `tree_of_clear`: while no call writes a key above a stored one, and no move writes a key below
  one, no key of the repository is a directory of another.
-/

namespace Pkgly.S3

namespace S3Storage

variable {st st' : S3Storage} {repository path : String} {location : StoragePath}

/-! ### The key of a new object -/

/-- The key of the components `parts` below `path`. -/
def joined (path : String) (parts : List String) : String :=
  parts.foldl (fun path part => path ++ "/" ++ part) path

/-- The keys of the proper ancestors of `parts` below `path`. -/
def ancestors (path : String) : List String → List String
  | [] => []
  | part :: rest =>
    match rest with
    | [] => []
    | _ => (path ++ "/" ++ part) :: ancestors (path ++ "/" ++ part) rest

theorem ancestors_cons {part : String} {rest : List String} (h : rest ≠ []) :
    ancestors path (part :: rest) =
      (path ++ "/" ++ part) :: ancestors (path ++ "/" ++ part) rest := by
  cases rest with
  | nil => exact absurd rfl h
  | cons part' rest => rfl

theorem joined_eq {parts : List String} (h : parts ≠ []) :
    joined path parts = path ++ "/" ++ String.intercalate "/" parts := by
  induction parts generalizing path with
  | nil => exact absurd rfl h
  | cons part rest ih =>
    by_cases hrest : rest = []
    · rw [hrest, String.intercalate_singleton]
      rfl
    · have hfold : joined path (part :: rest) = joined (path ++ "/" ++ part) rest := rfl
      rw [hfold, ih hrest, String.intercalate_cons_of_ne_nil hrest]
      simp only [String.append_assoc]

def writeKey (repository : String) (location : StoragePath) : String :=
  joined repository location.components

/-- The writers and the readers agree exactly on the non-empty paths without trailing slash. -/
theorem writeKey_eq_s3Path_iff : writeKey repository location = s3Path repository location ↔
    location.components ≠ [] ∧ location.isDirectory = false := by
  have hlen : ∀ {a b : String}, a = b → a.toList.length = b.toList.length := fun h => by rw [h]
  unfold s3Path StoragePath.toString'
  constructor
  · intro h
    refine ⟨fun hnil => ?_, ?_⟩
    · -- the readers always add a slash to the repository
      grind [writeKey, joined, String.toList_append, List.length_append]
    · refine Bool.eq_false_iff.mpr fun hdir => ?_
      by_cases hnil : location.components = []
      · grind [writeKey, joined, String.toList_append, List.length_append]
      · rw [writeKey, joined_eq hnil, if_pos hdir] at h
        grind [String.toList_append, List.length_append]
  · rintro ⟨hne, hdir⟩
    rw [writeKey, joined_eq hne, hdir, if_neg Bool.false_ne_true, String.append_empty]

/-! ### The memo of clear ancestors -/

/-- What the memo remembers is clear. -/
def Sound (st : S3Storage) : Prop :=
  ∀ path, (st.creationProbes.peek path).isSome = true → st.objects.get path = none

theorem peek_rememberClear {path' : String}
    (h : ((st.rememberClear path).creationProbes.peek path').isSome = true) :
    path' = path ∨ (st.creationProbes.peek path').isSome = true := by
  unfold rememberClear at h
  simp only at h
  rw [Lru.peek_put] at h
  split_ifs at h with hpath hfull
  · exact Or.inl hpath
  · refine Or.inr ?_
    split at h
    · grind [Lru.peek_of_popLru]
    · exact h
  · exact Or.inr h

theorem Sound.rememberClear (h : Sound st) (hclear : st.objects.get path = none) :
    Sound (st.rememberClear path) := by
  intro path' hpeek
  rcases peek_rememberClear hpeek with rfl | hpeek
  · exact hclear
  · exact h path' hpeek

theorem Sound.noteObjectCreated {objects : Store String S3Object} (h : Sound st)
    (hobjects : ∀ path', path' ≠ path → st.objects.get path' = none → objects.get path' = none) :
    Sound ({ st with objects }.noteObjectCreated path) := by
  grind [Lru.peek_pop, S3Storage.Sound, S3Storage.noteObjectCreated]

/-- The state differs in the memo at most. -/
def SameObjects (st st' : S3Storage) : Prop :=
  st'.objects = st.objects ∧ st'.appendStaging = st.appendStaging

theorem probeAncestors_cons {conflicting : StoragePath} {part : String} {rest : List String}
    (h : rest ≠ []) : probeAncestors location st path conflicting (part :: rest) =
      if (st.creationProbes.peek (path ++ "/" ++ part)).isSome then
        probeAncestors location st (path ++ "/" ++ part) (conflicting.push part) rest
      else if st.doesPathExist (path ++ "/" ++ part) then
        (st, .error (.pathCollision location (conflicting.push part)))
      else
        probeAncestors location (st.rememberClear (path ++ "/" ++ part)) (path ++ "/" ++ part)
          (conflicting.push part) rest := by
  cases rest with
  | nil => exact absurd rfl h
  | cons part' rest => rfl

theorem probeAncestors_spec (h : Sound st) (conflicting : StoragePath) (parts : List String) :
    SameObjects st (probeAncestors location st path conflicting parts).1 ∧
      Sound (probeAncestors location st path conflicting parts).1 ∧
      if (ancestors path parts).any st.doesPathExist then
        ∃ c, (probeAncestors location st path conflicting parts).2 =
          .error (.pathCollision location c)
      else (probeAncestors location st path conflicting parts).2 = .ok (joined path parts) := by
  induction parts generalizing st path conflicting with
  | nil => exact ⟨⟨rfl, rfl⟩, h, rfl⟩
  | cons part rest ih =>
    cases rest with
    | nil => exact ⟨⟨rfl, rfl⟩, h, rfl⟩
    | cons part' rest =>
      have hrest := List.cons_ne_nil part' rest
      rw [ancestors_cons hrest, probeAncestors_cons hrest, List.any_cons]
      by_cases hmemo : (st.creationProbes.peek (path ++ "/" ++ part)).isSome = true
      · have hclear : st.doesPathExist (path ++ "/" ++ part) = false := by
          rw [doesPathExist, h _ hmemo]
          rfl
        rw [if_pos hmemo, hclear, Bool.false_or]
        exact ih h (conflicting.push part)
      · rw [if_neg hmemo]
        cases hexists : st.doesPathExist (path ++ "/" ++ part) with
        | true => exact ⟨⟨rfl, rfl⟩, h, _, rfl⟩
        | false =>
          have hclear : st.objects.get (path ++ "/" ++ part) = none := by
            rwa [doesPathExist, Option.isSome_eq_false_iff, Option.isNone_iff_eq_none] at hexists
          rw [if_neg Bool.false_ne_true, Bool.false_or]
          exact ih (h.rememberClear hclear) (conflicting.push part)

/-- A proper ancestor of the new key is an object. -/
def ancestorStored (st : S3Storage) (repository : String) (location : StoragePath) : Bool :=
  (ancestors repository location.components).any st.doesPathExist

theorem getPathForCreation_spec (h : Sound st) (repository : String) (location : StoragePath) :
    SameObjects st (st.getPathForCreation repository location).1 ∧
      Sound (st.getPathForCreation repository location).1 ∧
      if st.ancestorStored repository location then
        ∃ c, (st.getPathForCreation repository location).2 = .error (.pathCollision location c)
      else (st.getPathForCreation repository location).2 = .ok (writeKey repository location) :=
  probeAncestors_spec h _ _

/-! ### The writers -/

/-- The object that a writer puts at the key of `location`. -/
def newObject (location : StoragePath) (content : Bytes) (eTag : Option String) : S3Object :=
  ⟨content, contentTypeOf location, eTag⟩

/-- What a writer does to the objects when it puts `content` at the key of `location`. -/
structure Writes (st st' : S3Storage) (repository : String) (location : StoragePath)
    (content : Bytes) (eTag : Option String) : Prop where
  objects : st'.objects =
    st.objects.put (writeKey repository location) (newObject location content eTag)
  appendStaging : st'.appendStaging = st.appendStaging
  sound : Sound st'

theorem writes_of_putObject {content : Bytes} {eTag : Option String} (h : Sound st')
    (hsame : SameObjects st st') : Writes st
      ((st'.putObject (writeKey repository location)
        (newObject location content eTag)).noteObjectCreated (writeKey repository location))
      repository location content eTag where
  objects := by
    show st'.objects.put _ _ = _
    rw [hsame.1]
  appendStaging := hsame.2
  sound := h.noteObjectCreated fun _ hne hnone => (Store.get_put_of_ne _ _ hne).trans hnone

theorem Sound.note (h : Sound st) (path : String) : Sound (st.noteObjectCreated path) := by
  have hsame : ∀ path', path' ≠ path → st.objects.get path' = none → st.objects.get path' = none :=
    fun _ _ hnone => hnone
  exact h.noteObjectCreated hsame

theorem saveFile_spec (h : Sound st) (repository : String) (content : Bytes)
    (location : StoragePath) (eTag : Option String) :
    if st.ancestorStored repository location then
      (∃ c, (st.saveFile repository content location eTag).2 = .error (.pathCollision location c)) ∧
        SameObjects st (st.saveFile repository content location eTag).1 ∧
        Sound (st.saveFile repository content location eTag).1
    else
      (∃ r, (st.saveFile repository content location eTag).2 = .ok r) ∧
        Writes st (st.saveFile repository content location eTag).1 repository location content
          eTag := by
  obtain ⟨hsame, hsound, hresult⟩ := getPathForCreation_spec h repository location
  unfold saveFile
  split_ifs at hresult ⊢ with hstored
  · grind
  · rw [← Prod.eta (st.getPathForCreation repository location), hresult]
    exact ⟨⟨_, rfl⟩, writes_of_putObject (hsound.note _) hsame⟩

/-- The object at the key of `location` has no ETag. -/
def untagged (st : S3Storage) (path : String) : Bool :=
  (st.objects.get path).any fun object => object.eTag.isNone

/-- The bytes of the object at `path`. -/
def contentAt (st : S3Storage) (path : String) : Bytes :=
  ((st.objects.get path).map S3Object.content).getD []

theorem appendFile_spec (h : Sound st) (repository : String) (content : Bytes)
    (location : StoragePath) (eTag : Option String) :
    if st.ancestorStored repository location then
      (∃ c, (st.appendFile repository content location eTag).2 =
        .error (.pathCollision location c)) ∧
        SameObjects st (st.appendFile repository content location eTag).1 ∧
        Sound (st.appendFile repository content location eTag).1
    else if st.untagged (writeKey repository location) then
      (∃ m, (st.appendFile repository content location eTag).2 = .error (.awsMessage m)) ∧
        SameObjects st (st.appendFile repository content location eTag).1 ∧
        Sound (st.appendFile repository content location eTag).1
    else
      (∃ r, (st.appendFile repository content location eTag).2 = .ok r) ∧
        Writes st (st.appendFile repository content location eTag).1 repository location
          (st.contentAt (writeKey repository location) ++ content) eTag := by
  obtain ⟨hsame, hsound, hresult⟩ := getPathForCreation_spec h repository location
  unfold appendFile
  split_ifs at hresult ⊢ with hstored huntagged
  · grind
  · rw [← Prod.eta (st.getPathForCreation repository location), hresult]
    simp only
    rw [hsame.1]
    unfold untagged at huntagged
    cases hget : st.objects.get (writeKey repository location) with
    | none =>
      rw [hget] at huntagged
      cases huntagged
    | some object =>
      obtain ⟨bytes, contentType, tag⟩ := object
      simp_all
  · rw [← Prod.eta (st.getPathForCreation repository location), hresult]
    simp only
    rw [hsame.1]
    unfold untagged at huntagged
    unfold contentAt
    cases hget : st.objects.get (writeKey repository location) with
    | none => exact ⟨⟨_, rfl⟩, writes_of_putObject hsound hsame⟩
    | some object =>
      obtain ⟨bytes, contentType, tag⟩ := object
      cases tag with
      | none =>
        rw [hget] at huntagged
        exact absurd rfl huntagged
      | some tag => exact ⟨⟨_, rfl⟩, writes_of_putObject hsound hsame⟩

theorem ensureStaging_spec {available : Nat} {staged : StagedAppend}
    (h : st.ensureStaging path available = .ok (st', staged)) :
    st'.objects = st.objects ∧ st'.creationProbes = st.creationProbes := by
  unfold ensureStaging at h
  split at h
  · cases h
    exact ⟨rfl, rfl⟩
  · split at h
    · cases h
    · simp only at h
      split_ifs at h
      cases h
      exact ⟨rfl, rfl⟩

theorem appendFileStaged_spec (h : Sound st) (repository : String) (content : Bytes)
    (location : StoragePath) (seed available : Nat) :
    (st.ancestorStored repository location = true → ∃ c,
      (st.appendFileStaged repository content location seed available).2 =
        .error (.pathCollision location c)) ∧
      (st.appendFileStaged repository content location seed available).1.objects = st.objects ∧
      Sound (st.appendFileStaged repository content location seed available).1 := by
  obtain ⟨hsame, hsound, hresult⟩ := getPathForCreation_spec h repository location
  unfold appendFileStaged
  rw [← Prod.eta (st.getPathForCreation repository location)]
  split_ifs at hresult with hstored
  · obtain ⟨c, hc⟩ := hresult
    rw [hc]
    exact ⟨fun _ => ⟨c, rfl⟩, hsame.1, hsound⟩
  · rw [hresult]
    simp only
    refine ⟨fun htrue => absurd htrue hstored, ?_⟩
    have hnoted := hsound.note (writeKey repository location)
    split
    · exact ⟨hsame.1, hnoted⟩
    · rename_i st'' staged hstaged
      obtain ⟨hobjects, hprobes⟩ := ensureStaging_spec hstaged
      have hsound'' : Sound st'' := by grind [S3Storage.Sound]
      split_ifs
      · exact ⟨hobjects.trans hsame.1, hsound''⟩
      · refine ⟨hobjects.trans hsame.1, ?_⟩
        apply Sound.note
        exact hsound''

/-! ### Reading back what was written -/

/-- The operations on `location` find the object with `content` at its key. -/
structure Found (st : S3Storage) (repository : String) (location : StoragePath)
    (content : Bytes) : Prop where
  fileExists : st.fileExists repository location = true
  openFile : st.openFile repository location = some (.file content)
  fileInformation : st.getFileInformation repository location = some (.file content.length)
  moveFile : ∀ dst eTag, (st.moveFile repository location dst eTag).2 ≠ .ok false
  deleted : (st.deleteFile repository location).2 = true
  removed : (st.deleteFile repository location).1.objects.get (writeKey repository location) = none

/-- What the writers store for `location` in a storage that has staged nothing for it, the
operations on `location` find. -/
structure Agrees (repository : String) (location : StoragePath) : Prop where
  save : ∀ {st : S3Storage} {content : Bytes} {eTag : Option String} {r : Nat × Bool},
    Sound st → st.appendStaging.get (s3Path repository location) = none →
    (st.saveFile repository content location eTag).2 = .ok r →
    Found (st.saveFile repository content location eTag).1 repository location content
  append : ∀ {st : S3Storage} {content : Bytes} {eTag : Option String} {r : Nat},
    Sound st → st.appendStaging.get (s3Path repository location) = none →
    (st.appendFile repository content location eTag).2 = .ok r →
    Found (st.appendFile repository content location eTag).1 repository location
      (st.contentAt (s3Path repository location) ++ content)

def empty : S3Storage := ⟨∅, ∅, ⟨[], List.nodup_nil⟩⟩

theorem sound_empty : Sound empty := fun path _ => Store.get_empty path

theorem objects_deleteFile : (st.deleteFile repository location).1.objects =
    st.objects.remove (s3Path repository location) := by
  unfold deleteFile
  simp only
  split_ifs with hexists
  · rfl
  · rw [doesPathExist, Bool.not_eq_true, Option.isSome_eq_false_iff,
      Option.isNone_iff_eq_none] at hexists
    exact (Store.remove_eq_self hexists).symm

theorem deleteFile_snd : (st.deleteFile repository location).2 =
    (st.doesPathExist (s3Path repository location) ||
      (st.appendStaging.get (s3Path repository location)).isSome) := by
  unfold deleteFile
  simp only
  split_ifs with hexists
  · exact (Bool.or_eq_true_iff.mpr (Or.inl hexists)).symm
  · rw [Bool.not_eq_true] at hexists
    show _ = (st.doesPathExist _ || _)
    rw [show st.doesPathExist _ = false from hexists, Bool.false_or]

theorem found_of_get {content : Bytes} {eTag : Option String}
    (hkey : writeKey repository location = s3Path repository location)
    (hdir : location.isDirectory = false)
    (hstaging : st.appendStaging.get (s3Path repository location) = none)
    (hget : st.objects.get (s3Path repository location) =
      some (newObject location content eTag)) : Found st repository location content := by
  have htype : (newObject location content eTag).contentType ≠ "application/x-directory" := by
    show contentTypeOf location ≠ _
    rw [contentTypeOf, hdir, if_neg Bool.false_ne_true]
    decide
  have hexists : st.doesPathExist (s3Path repository location) = true := by
    rw [doesPathExist, hget]
    rfl
  constructor
  · exact hexists
  · unfold S3Storage.openFile
    simp only [hstaging, hget]
    rw [if_neg htype]
    rfl
  · unfold getFileInformation
    simp only [hstaging, hget]
    rw [if_neg htype]
    rfl
  · grind [S3Storage.moveFile]
  · rw [deleteFile_snd, hexists, Bool.true_or]
  · rw [objects_deleteFile, hkey]
    exact Store.get_remove_self _ _

/-- **The writers and the other operations address the same object** exactly for the paths with a
component and without trailing slash. -/
theorem agrees_iff : Agrees repository location ↔
    location.components ≠ [] ∧ location.isDirectory = false := by
  constructor
  · intro h
    -- save to the empty storage, and look for what was saved
    apply (@writeKey_eq_s3Path_iff repository location).mp
    have hclear : empty.ancestorStored repository location = false :=
      List.any_eq_false.mpr fun _ _ => Bool.false_ne_true
    have hsave := saveFile_spec sound_empty repository [] location none
    rw [hclear, if_neg Bool.false_ne_true] at hsave
    obtain ⟨⟨r, hr⟩, hwrites⟩ := hsave
    have hfound := (h.save sound_empty (Store.get_empty _) hr).fileExists
    unfold fileExists doesPathExist at hfound
    rw [hwrites.objects, Store.get_put] at hfound
    split_ifs at hfound with hkey
    · exact hkey.symm
    · cases hfound
  · intro h
    have hkey := (@writeKey_eq_s3Path_iff repository location).mpr h
    constructor
    · intro st content eTag r hsound hstaging hr
      have hsave := saveFile_spec hsound repository content location eTag
      split_ifs at hsave
      · obtain ⟨⟨c, hc⟩, _⟩ := hsave
        cases hr.symm.trans hc
      · apply found_of_get hkey h.2
        · rw [hsave.2.appendStaging]
          exact hstaging
        · rw [hsave.2.objects, hkey]
          exact Store.get_put_self _ _ _
    · intro st content eTag r hsound hstaging hr
      have happend := appendFile_spec hsound repository content location eTag
      split_ifs at happend
      · obtain ⟨⟨c, hc⟩, _⟩ := happend
        cases hr.symm.trans hc
      · obtain ⟨⟨m, hm⟩, _⟩ := happend
        cases hr.symm.trans hm
      · apply found_of_get hkey h.2
        · rw [happend.2.appendStaging]
          exact hstaging
        · rw [happend.2.objects, hkey]
          exact Store.get_put_self _ _ _

/-- What is saved at `a/` is not found there. -/
theorem not_agrees_directory : ¬ ∀ repository location, Agrees repository location := by
  intro h
  have hsaved : (empty.saveFile "packages" [1] (.ofString "a/") none).2 = .ok (1, true) := by
    decide
  have hfound := (h "packages" (.ofString "a/")).save sound_empty (Store.get_empty _) hsaved
  have hmissed : (empty.saveFile "packages" [1] (.ofString "a/") none).1.fileExists "packages"
      (.ofString "a/") = false := by decide
  cases hmissed.symm.trans hfound.fileExists

end S3Storage

end Pkgly.S3
