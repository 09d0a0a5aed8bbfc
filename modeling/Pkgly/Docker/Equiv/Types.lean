import Pkgly.Docker.Manifests

/-!
# Two calls decide `from_bytes`

Given an unknown media type, `from_bytes` calls itself with the media type the document names.
That call either decodes or meets the same document with an unknown type again, so that more than
two nested calls return nothing new (`fromBytesFuel_add_two`), and a document `fromBytes` gives no
result for has none at any depth (`fromBytes_eq_none_iff`).
-/

namespace Pkgly.Manifest

variable {serde : SerdeJson} {bytes : Bytes} {contentType : String}

theorem fromBytesFuel_of_decoder {decode : Json → Option Manifest} (fuel : ℕ)
    (h : decoder? contentType = some decode) :
    fromBytesFuel serde bytes (fuel + 1) contentType = some ((serde.parse bytes).bind decode) := by
  rw [fromBytesFuel, h]

theorem fromBytes_of_decoder {decode : Json → Option Manifest}
    (h : decoder? contentType = some decode) :
    fromBytes serde bytes contentType = some ((serde.parse bytes).bind decode) :=
  fromBytesFuel_of_decoder 1 h

theorem fromBytesFuel_eq_none {mediaType : String}
    (hv : (serde.value bytes).bind (Json.getStr? "mediaType") = some mediaType)
    (h : decoder? mediaType = none) (fuel : ℕ) :
    fromBytesFuel serde bytes fuel mediaType = none := by
  induction fuel with
  | zero => rfl
  | succ fuel ih =>
    rw [fromBytesFuel, h]
    simp only [hv]
    exact ih

theorem fromBytesFuel_add_two (fuel : ℕ) :
    fromBytesFuel serde bytes (fuel + 2) contentType = fromBytes serde bytes contentType := by
  unfold fromBytes
  rw [fromBytesFuel, fromBytesFuel]
  cases hct : decoder? contentType with
  | some decode => rfl
  | none =>
    cases hv : (serde.value bytes).bind (Json.getStr? "mediaType") with
    | none => rfl
    | some mediaType =>
      grind [fromBytesFuel, decoder?, fromBytesFuel_of_decoder, fromBytesFuel_eq_none]

theorem fromBytes_eq_none_iff : fromBytes serde bytes contentType = none ↔
    ∀ fuel, fromBytesFuel serde bytes fuel contentType = none := by
  constructor
  · intro h fuel
    match fuel with
    | 0 => rfl
    | 1 =>
      rw [fromBytes, fromBytesFuel] at h
      rw [fromBytesFuel]
      cases hct : decoder? contentType with
      | some decode => rw [hct] at h; exact absurd h (by simp)
      | none =>
        cases hv : (serde.value bytes).bind (Json.getStr? "mediaType") with
        | none => rw [hct, hv] at h; exact absurd h (by simp)
        | some mediaType => rfl
    | fuel + 2 => rw [fromBytesFuel_add_two, h]
  · intro h
    exact h 2

end Pkgly.Manifest
