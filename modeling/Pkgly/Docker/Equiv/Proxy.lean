import Pkgly.Docker.Equiv.ManifestCache

/-!
# Correctness of the digest checks of a proxy

The manifest that is kept of the two responses (`chosenResponse`) disagrees with a digest if the
header of its own response, or the digest that was asked for, is another one (`Disagrees`).
`downloadManifest_iff`: a mismatch is reported only of such a manifest, and a manifest that is
returned is stored under its reference and its digest, if and only if the first response does not
name a digest of its own when the second one is kept, and neither path is `Blocked` in the storage.
-/

namespace Pkgly.Docker

open StoragePath DynStorage

variable (env : DownloadEnvironment)

/-- The result is a `DigestMismatch`. -/
def reportsMismatch {α : Type} : Except DownloadError α → Bool
  | .error e => e.isMismatch
  | .ok _ => false

/-! ### The responses -/

/-- The response that is kept, with its body; there is none when a request fails before. -/
def chosenResponse (first modern : Except UpstreamError UpstreamResponse) :
    Option (UpstreamResponse × Bytes) :=
  match first with
  | .error _ => none
  | .ok response =>
    if !isSuccess response.status then none
    else
      match response.body with
      | .error _ => none
      | .ok content =>
        if isSchema1Manifest (manifestMediaType env.serde content response.contentType) then
          match modern with
          | .error _ => none
          | .ok second =>
            if !isSuccess second.status then some (response, content)
            else
              match second.body with
              | .error _ => none
              | .ok content => some (second, content)
        else some (response, content)

def Disagrees (reference : String) (chosen : UpstreamResponse × Bytes) : Prop :=
  (∃ expected, chosen.1.dockerContentDigest = some expected ∧
      expected ≠ env.sha.digest chosen.2) ∨
    isDigestReference reference = true ∧ reference ≠ env.sha.digest chosen.2

/-- The header of the first response, if there is one, names the body that is kept. -/
def FirstAgrees (first : Except UpstreamError UpstreamResponse) (content : Bytes) : Prop :=
  ∀ response expected, first = .ok response → response.dockerContentDigest = some expected →
    expected = env.sha.digest content

variable {env}

theorem checkHeader_cases (header : Option String) (digest : String) :
    checkHeader header digest = .ok () ∧ (∀ expected, header = some expected → expected = digest) ∨
      (∃ expected, header = some expected ∧ expected ≠ digest) ∧
        reportsMismatch (checkHeader header digest) = true := by
  cases header with
  | none => exact .inl ⟨rfl, fun expected h => nomatch h⟩
  | some expected =>
    unfold checkHeader
    aesop

theorem checkManifest_cases (header : Option String) (reference : String) (content : Bytes)
    (contentType : String) :
    ((∀ expected, header = some expected → expected = env.sha.digest content) ∧
        ¬ (isDigestReference reference = true ∧ reference ≠ env.sha.digest content) ∧
        checkManifest header reference ⟨content, env.sha.digest content⟩ contentType =
          .ok (⟨content, env.sha.digest content⟩, contentType)) ∨
      ((∃ expected, header = some expected ∧ expected ≠ env.sha.digest content) ∨
          isDigestReference reference = true ∧ reference ≠ env.sha.digest content) ∧
        reportsMismatch (checkManifest header reference ⟨content, env.sha.digest content⟩
          contentType) = true := by
  rw [checkManifest]
  rcases checkHeader_cases header (env.sha.digest content) with ⟨hok, hagrees⟩ | ⟨hdiffers, herror⟩
  · rw [hok]
    dsimp only
    by_cases hreference : isDigestReference reference = true ∧ reference ≠ env.sha.digest content
    · refine .inr ⟨.inr hreference, ?_⟩
      rw [if_pos (by simpa using hreference)]
      rfl
    · refine .inl ⟨hagrees, hreference, ?_⟩
      rw [if_neg (by simpa using hreference)]
  · refine .inr ⟨.inl hdiffers, ?_⟩
    cases hcheck : checkHeader header (env.sha.digest content) with
    | error e =>
      rw [hcheck] at herror
      exact herror
    | ok u =>
      rw [hcheck] at herror
      cases herror

/-- What is received of the two responses: the manifest that is kept if it agrees with the digests
and with the header of the first response, and a mismatch if not. -/
theorem receiveManifest_cases (env : DownloadEnvironment) (reference : String)
    (first modern : Except UpstreamError UpstreamResponse) :
    match chosenResponse env first modern with
    | none => ∃ e, receiveManifest env reference first modern = .error e ∧ e.isMismatch = false
    | some chosen =>
      (¬ Disagrees env reference chosen ∧ FirstAgrees env first chosen.2 ∧
        ∃ contentType, receiveManifest env reference first modern =
          .ok (⟨chosen.2, env.sha.digest chosen.2⟩, contentType)) ∨
      (Disagrees env reference chosen ∨ ¬ FirstAgrees env first chosen.2) ∧
        reportsMismatch (receiveManifest env reference first modern) = true := by
  cases hfirst : first with
  | error e => exact ⟨_, rfl, rfl⟩
  | ok response =>
    -- the checks at the end, of any body
    have hagrees : ∀ content, FirstAgrees env (.ok response) content ↔
        ∀ expected, response.dockerContentDigest = some expected →
          expected = env.sha.digest content := by
      intro content
      constructor
      · exact fun h expected => h response expected rfl
      · rintro h _ expected ⟨⟩
        exact h expected
    have hchecks : ∀ chosen contentType,
        (∀ expected, chosen.1.dockerContentDigest = some expected →
          expected = env.sha.digest chosen.2) ∨ chosen.1 = response →
        (¬ Disagrees env reference chosen ∧ FirstAgrees env (.ok response) chosen.2 ∧
          ∃ contentType', checkManifest response.dockerContentDigest reference
              ⟨chosen.2, env.sha.digest chosen.2⟩ contentType =
            .ok (⟨chosen.2, env.sha.digest chosen.2⟩, contentType')) ∨
        (Disagrees env reference chosen ∨ ¬ FirstAgrees env (.ok response) chosen.2) ∧
          reportsMismatch (checkManifest response.dockerContentDigest reference
              ⟨chosen.2, env.sha.digest chosen.2⟩ contentType) = true := by grind [checkManifest_cases,
                                                                           Sha256.digest, Disagrees,
                                                                           FirstAgrees,
                                                                           checkManifest,
                                                                           reportsMismatch]
    have hstatus : ¬ isSuccess response.status = true → ∃ e,
        receiveManifest env reference (.ok response) modern = .error e ∧ e.isMismatch = false := by
      intro hfails
      have hnot : (!isSuccess response.status) = true := by
        rw [Bool.not_eq_true', ← Bool.not_eq_true]
        exact hfails
      rw [receiveManifest]
      by_cases hfound : response.status = 404
      · rw [if_pos hfound]
        exact ⟨_, rfl, rfl⟩
      · rw [if_neg hfound, if_pos hnot]
        exact ⟨_, rfl, rfl⟩
    rw [chosenResponse]
    by_cases hsuccess : isSuccess response.status = true
    swap
    · rw [if_pos (by simpa using hsuccess)]
      exact hstatus hsuccess
    have hfound : response.status ≠ 404 := by
      intro heq
      rw [heq] at hsuccess
      exact absurd hsuccess (by decide)
    rw [if_neg (by simpa using hsuccess), receiveManifest, if_neg hfound,
      if_neg (by simpa using hsuccess), streamResponse]
    cases hbody : response.body with
    | error e => exact ⟨_, rfl, rfl⟩
    | ok content =>
      dsimp only
      generalize manifestMediaType env.serde content response.contentType = contentType
      cases hschema : isSchema1Manifest contentType with
      | false =>
        rw [if_neg Bool.false_ne_true, if_neg Bool.false_ne_true]
        exact hchecks (response, content) _ (.inr rfl)
      | true =>
      rw [if_pos rfl, if_pos rfl]
      unfold refetchModern
      cases modern with
      | error e => exact ⟨_, rfl, rfl⟩
      | ok second =>
        dsimp only
        by_cases hsecond : isSuccess second.status = true
        swap
        · rw [if_neg hsecond, if_pos (by simpa using hsecond)]
          exact hchecks (response, content) _ (.inr rfl)
        rw [if_pos hsecond, if_neg (by simpa using hsecond), streamResponse]
        cases hsecondBody : second.body with
        | error e => exact ⟨_, rfl, rfl⟩
        | ok content =>
          dsimp only
          rcases checkHeader_cases second.dockerContentDigest (env.sha.digest content) with
            ⟨hok, hagrees⟩ | ⟨hdiffers, herror⟩
          · rw [hok]
            dsimp only
            exact hchecks (second, content) _ (.inl hagrees)
          · cases hcheck : checkHeader second.dockerContentDigest (env.sha.digest content) with
            | error e =>
              rw [hcheck] at herror
              exact .inr ⟨.inl (.inl hdiffers), herror⟩
            | ok u =>
              rw [hcheck] at herror
              cases herror

variable {st : DynStorage}

/-! ### The download -/

/-- A mismatch is reported only of a manifest that disagrees with a digest, and a manifest that is
returned is stored under its reference and under its digest. -/
structure DigestsChecked (env : DownloadEnvironment) (name reference : String)
    (first modern : Except UpstreamError UpstreamResponse)
    (result : Option (DynStorage × Except DownloadError CachedManifest)) : Prop where
  mismatch : ∀ st expected actual, result = some (st, .error (.digestMismatch expected actual)) →
    ∃ chosen, chosenResponse env first modern = some chosen ∧ Disagrees env reference chosen
  stored : ∀ st manifest, result = some (st, .ok manifest) →
    ∃ chosen, chosenResponse env first modern = some chosen ∧
      Stored env name reference chosen.2 st

/-- The digests are checked as they should be iff, for a manifest that agrees with them, the first
response names no other digest and no write is blocked. -/
theorem downloadManifest_iff (hunstaged : Unstaged st) (name reference : String)
    (first modern : Except UpstreamError UpstreamResponse) :
    DigestsChecked env name reference first modern
        (downloadManifestFromUpstream env st name reference first modern) ↔
      ∀ chosen, chosenResponse env first modern = some chosen →
        ¬ Disagrees env reference chosen →
          FirstAgrees env first chosen.2 ∧ ¬ Blocked env st name reference chosen.2 := by
  have hmismatch : ∀ e : DownloadError, e.isMismatch = true →
      ∃ expected actual, e = .digestMismatch expected actual := by
    intro e he
    cases e <;> first | exact ⟨_, _, rfl⟩ | cases he
  have hreceive := receiveManifest_cases env reference first modern
  rw [downloadManifestFromUpstream]
  cases hchosen : chosenResponse env first modern with
  | none =>
    rw [hchosen] at hreceive
    obtain ⟨e, hresult, he⟩ := hreceive
    rw [hresult]
    refine iff_of_true ⟨?_, ?_⟩ fun chosen h => nomatch h
    · rintro _ _ _ ⟨⟩
      cases he
    · rintro _ _ ⟨⟩
  | some chosen =>
    rw [hchosen] at hreceive
    have hforall : (∀ chosen', some chosen = some chosen' → ¬ Disagrees env reference chosen' →
          FirstAgrees env first chosen'.2 ∧ ¬ Blocked env st name reference chosen'.2) ↔
        (¬ Disagrees env reference chosen →
          FirstAgrees env first chosen.2 ∧ ¬ Blocked env st name reference chosen.2) := by
      constructor
      · exact fun h => h chosen rfl
      · rintro h _ ⟨⟩
        exact h
    rw [hforall]
    rcases hreceive with ⟨hagrees, hfirst, contentType, hresult⟩ | ⟨hbad, hresult⟩
    swap
    · -- the request ends with a mismatch before anything is stored
      cases hreceived : receiveManifest env reference first modern with
      | ok received =>
        rw [hreceived] at hresult
        cases hresult
      | error e =>
        rw [hreceived] at hresult
        obtain ⟨expected, actual, rfl⟩ := hmismatch e hresult
        constructor
        · intro h hagrees
          obtain ⟨chosen', hchosen', hdisagrees⟩ := h.mismatch st expected actual rfl
          obtain rfl := Option.some.inj (hchosen.symm.trans hchosen')
          exact absurd hdisagrees hagrees
        · intro h
          refine ⟨fun _ _ _ _ => ⟨chosen, hchosen, ?_⟩, ?_⟩
          · by_contra hagrees
            exact hbad.elim hagrees fun hfirst => hfirst (h hagrees).1
          · rintro _ _ ⟨⟩
    rw [hresult]
    dsimp only
    have hreference : isDigestReference reference = true →
        reference = env.sha.digest chosen.2 := by
      intro hreference
      by_contra hne
      exact hagrees (.inr ⟨hreference, hne⟩)
    rcases ensureManifestCached_cases name hunstaged hreference with
      ⟨st₁, hensure, hnot, hunstaged₁, haccepted, hstored⟩ | ⟨st₁, e, hensure, he⟩
    swap
    · rw [hensure]
      constructor
      · intro h _
        refine ⟨hfirst, fun hblocked => ?_⟩
        obtain ⟨expected, actual, rfl⟩ := hmismatch e (he.mpr hblocked)
        obtain ⟨chosen', hchosen', hdisagrees⟩ := h.mismatch st₁ expected actual rfl
        obtain rfl := Option.some.inj (hchosen.symm.trans hchosen')
        exact hagrees hdisagrees
      · intro h
        refine ⟨?_, ?_⟩
        · rintro _ _ _ ⟨⟩
          exact absurd (he.mp rfl) (h hagrees).2
        · rintro _ _ ⟨⟩
    rw [hensure]
    dsimp only
    refine iff_of_true ?_ fun _ => ⟨hfirst, hnot⟩
    cases hreferences : manifestReferences env.serde name chosen.2 with
    | none =>
      refine ⟨?_, ?_⟩
      · rintro _ _ _ ⟨⟩
      · rintro _ _ ⟨⟩
    | some references =>
      rw [Option.map_some]
      rcases recordManifest_cases hunstaged₁ haccepted hstored references with
        ⟨st₂, hrecord, hstored₂⟩ | ⟨st₂, e, hrecord, he⟩
      · rw [hrecord]
        refine ⟨?_, ?_⟩
        · rintro _ _ _ ⟨⟩
        · rintro _ _ ⟨⟩
          exact ⟨chosen, hchosen, hstored₂⟩
      · rw [hrecord]
        refine ⟨?_, ?_⟩
        · rintro _ _ _ ⟨⟩
          cases he
        · rintro _ _ ⟨⟩

/-! ### Two downloads -/

/-- An environment that reads no JSON, which the bodies below are not. -/
def demoEnvironment : DownloadEnvironment where
  sha := .hexText
  serde := ⟨fun _ => none, fun _ => true⟩
  displayStatus := toString
  recordedType _ _ := none
  metaText digest := intoBytes ("\x7b\"digest\":\"" ++ digest ++
    "\",\"last_checked\":\"2024-01-01T00:00:00Z\"\x7d")
  recordCachedArtifact _ _ _ := .ok ()

def demoStorage : DynStorage := ⟨.local, ∅, ∅⟩

def demoResponse (mediaType : String) (body : Bytes) : UpstreamResponse :=
  ⟨200, some mediaType, some (Sha256.hexText.digest body), .ok body⟩

theorem unstaged_demoStorage : Unstaged demoStorage := fun key => Store.get_empty key

def demoStored : DynStorage :=
  ⟨.local, Store.put ∅ ["v2", "library", "demo", "manifests", "latest"] [1], ∅⟩

theorem not_blocked_demo : ¬ Blocked demoEnvironment demoStorage "library/demo" "latest" [1] := by
  have htag : ¬ Colliding demoStorage (manifestPath "library/demo" "latest") := fun h =>
    absurd h.2.1 (by decide)
  have hempty : demoStorage.openFile (manifestPath "library/demo" "latest") = .ok none := by decide
  have hnone : ∀ old, demoStorage.openFile (manifestPath "library/demo" "latest") ≠
      .ok (some (.file old)) := by
    intro old h
    rw [hempty] at h
    cases h
  rintro (hblocked | ⟨-, st', hwritten, hblocked⟩)
  · exact htag ((writeBlocked_iff_of_ne hnone).mp hblocked)
  · rw [written_of_ne hnone] at hwritten
    have hsaved : (demoStorage.saveFile [1] (manifestPath "library/demo" "latest")).toOption =
        some demoStored := by rfl
    obtain rfl := Option.some.inj (hsaved.symm.trans hwritten)
    have hempty' : demoStored.openFile (manifestPath "library/demo"
        (demoEnvironment.sha.digest [1])) = .ok none := by decide
    have hcolliding := (writeBlocked_iff_of_ne (fun old h => by rw [hempty'] at h; cases h)).mp
      hblocked
    exact absurd hcolliding.2.1 (by decide)

theorem digestsChecked_demo : DigestsChecked demoEnvironment "library/demo" "latest"
    (.ok (demoResponse MediaType.ociImageManifest [1])) (.error .transport)
    (downloadManifestFromUpstream demoEnvironment demoStorage "library/demo" "latest"
      (.ok (demoResponse MediaType.ociImageManifest [1])) (.error .transport)) := by
  refine (downloadManifest_iff unstaged_demoStorage _ _ _ _).mpr fun chosen hchosen _ => ?_
  have hfirst : chosenResponse demoEnvironment
      (.ok (demoResponse MediaType.ociImageManifest [1])) (.error .transport) =
        some (demoResponse MediaType.ociImageManifest [1], [1]) := by rfl
  obtain rfl := Option.some.inj (hfirst.symm.trans hchosen)
  refine ⟨?_, ?_⟩
  · rintro _ _ ⟨⟩ ⟨⟩
    rfl
  · exact not_blocked_demo

/-- A schema 1 manifest with the digest of its own body is replaced by a modern one, which is then
compared with that digest. -/
theorem not_digestsChecked_schema1 : ¬ ∀ (env : DownloadEnvironment) (st : DynStorage)
    (name reference : String) (first modern : Except UpstreamError UpstreamResponse),
    Unstaged st → DigestsChecked env name reference first modern
      (downloadManifestFromUpstream env st name reference first modern) := by
  intro hall
  have hchecked := hall demoEnvironment demoStorage "library/demo" "latest"
    (.ok (demoResponse schema1Type [1])) (.ok (demoResponse MediaType.ociImageManifest [2]))
    unstaged_demoStorage
  obtain ⟨chosen, hchosen, hdisagrees⟩ := hchecked.mismatch demoStorage
    (Sha256.hexText.digest [1]) (Sha256.hexText.digest [2]) (by rfl)
  have hmodern : chosenResponse demoEnvironment (.ok (demoResponse schema1Type [1]))
      (.ok (demoResponse MediaType.ociImageManifest [2])) =
        some (demoResponse MediaType.ociImageManifest [2], [2]) := by rfl
  obtain rfl := Option.some.inj (hmodern.symm.trans hchosen)
  rcases hdisagrees with ⟨expected, ⟨⟩, hne⟩ | ⟨hreference, -⟩
  · exact hne rfl
  · exact absurd hreference (by decide)


end Pkgly.Docker
