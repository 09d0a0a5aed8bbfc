import Pkgly.Docker.Equiv.Backfill
import Pkgly.Docker.Equiv.Deletion

/-!
# The manifest graph of deletion and the one of accounting

`collect_manifest_paths` reads every stored manifest as an OCI image, whatever it is, and gathers
the blobs of that image.  `manifest_references` reads it by the media type that the document names.
For a body that a push accepted the two find the same paths exactly when the body is readable as a
`Value` and names no media type or that of an OCI image, when it names that of a Docker image and
has both forms, or when neither reading refers to anything (`gathers_iff_readAlike`).  So deletion
gathers nothing for an index.
-/

namespace Pkgly.Docker

open StoragePath

variable {sha : Sha256} {serde : SerdeJson} {st : DynStorage} {name path : String} {bytes : Bytes}

/-- The blobs and child manifests that a first visit gathers: the collected paths that are not the
manifest's own, and the child manifests to visit. -/
def gatheredPaths (sha : Sha256) (serde : SerdeJson) (st : DynStorage) (name path : String)
    (bytes : Bytes) : List String :=
  match collectManifestPaths sha serde st name ⟨[], []⟩ path with
  | .ok (collected, nested) =>
    collected.paths.filter
      (· ∉ manifestPaths path (objectPath name "manifests" (sha.digest bytes))) ++ nested
  | .error _ => []

/-- The visit of a stored body gathers what the accounting records for it. -/
def GathersReferences (sha : Sha256) (serde : SerdeJson) (st : DynStorage) (name path : String)
    (bytes : Bytes) : Prop :=
  ∃ references, manifestReferences serde name bytes = some references ∧
    ∀ p, p ∈ gatheredPaths sha serde st name path bytes ↔ p ∈ references

def imageDigests (serde : SerdeJson) (bytes : Bytes) : List String :=
  match readImage serde bytes with
  | some image => blobDigests image
  | none => []

/-- The directory and the digests of a body read by the media type it names. -/
def namedDigests (serde : SerdeJson) (bytes : Bytes) : String × List String :=
  match parseManifest serde bytes with
  | some (some manifest) => manifest.digests
  | _ => ("blobs", [])

/-- A body has the same references for both readers. -/
def ReadAlike (serde : SerdeJson) (bytes : Bytes) : Prop :=
  (bytes ≠ [] ∧ ∃ value, serde.value bytes = some value ∧
    (Json.getStr? "mediaType" value = none ∨
      Json.getStr? "mediaType" value = some MediaType.ociImageManifest ∨
      (Json.getStr? "mediaType" value = some MediaType.dockerManifestV2 ∨
        Json.getStr? "mediaType" value = some MediaType.dockerManifestV2Alt) ∧
      (ImageManifestV2.decode value).isSome ∧ (OciImageManifest.decode value).isSome)) ∨
  imageDigests serde bytes = [] ∧ (namedDigests serde bytes).2 = []

/-! ### What deletion gathers -/

theorem objectPath_blobs_ne (name digest reference : String) :
    objectPath name "blobs" digest ≠ objectPath name "manifests" reference := by
  intro h
  have hlist := congrArg String.toList h
  simp [objectPath, String.toList_append] at hlist

theorem objectPath_blobs_notMem (name digest reference digest' : String) :
    objectPath name "blobs" digest ∉ manifestPaths (objectPath name "manifests" reference)
      (objectPath name "manifests" digest') := by
  grind [of_mem_manifestPaths, objectPath_blobs_ne, tagMeta_objectPath]

theorem mem_gatheredPaths_iff {reference : String}
    (hopen : st.openFile (manifestPath name reference) = .ok (some (.file bytes))) (p : String) :
    p ∈ gatheredPaths sha serde st name (objectPath name "manifests" reference) bytes ↔
      p ∈ (imageDigests serde bytes).map (objectPath name "blobs") := by
  have hopen' : st.openFile (.ofString (objectPath name "manifests" reference)) =
      .ok (some (.file bytes)) := hopen
  unfold gatheredPaths imageDigests
  cases hcollect : collectManifestPaths sha serde st name ⟨[], []⟩
      (objectPath name "manifests" reference) with
  | error e =>
    -- the visit fails only when the body is no OCI image
    have himage : readImage serde bytes = none := by
      cases himage : readImage serde bytes with
      | none => rfl
      | some image =>
        simp_all [collectManifestPaths, fromBytes_ociImageManifest, Option.map_some,
          List.not_mem_nil]
    simp only [himage, List.map_nil]
  | ok r =>
    obtain ⟨collected, nested⟩ := r
    obtain ⟨rfl, bytes', image, hbytes', himage, hpaths⟩ := collectManifestPaths_eq_ok hcollect
    obtain rfl : bytes' = bytes := by
      rw [hopen'] at hbytes'
      simpa using hbytes'.symm
    simp only [himage, List.append_nil, List.mem_filter, hpaths, footprint, List.mem_append,
      decide_eq_true_eq]
    constructor
    · rintro ⟨hown | hblob, hnot⟩
      · exact absurd hown hnot
      · exact hblob
    · intro hblob
      refine ⟨.inr hblob, ?_⟩
      obtain ⟨digest, -, rfl⟩ := List.mem_map.mp hblob
      exact objectPath_blobs_notMem _ _ _ _

/-! ### What the accounting records -/

theorem mem_manifestReferences_iff {references : List String}
    (h : manifestReferences serde name bytes = some references) (p : String) :
    p ∈ references ↔
      p ∈ (namedDigests serde bytes).2.map (objectPath name (namedDigests serde bytes).1) := by
  rw [manifestReferences] at h
  obtain ⟨parsed, hparsed, rfl⟩ := Option.map_eq_some_iff.mp h
  grind [namedDigests, List.mem_dedup, List.mem_mergeSort]

theorem exists_references_of_admitManifest {settings : PushSettings} {req : PutManifest}
    (h : admitManifest serde settings st req = some (.ok ())) :
    ∃ references, manifestReferences serde req.repositoryName req.body = some references := by
  grind [admitManifest, Manifest.fromBytes, MediaType.ociImageManifest, manifestPath,
    Option.map_eq_some_iff]

/-! ### The two readings -/

theorem gathersReferences_iff {reference : String} {references : List String}
    (hopen : st.openFile (manifestPath name reference) = .ok (some (.file bytes)))
    (hreferences : manifestReferences serde name bytes = some references) :
    GathersReferences sha serde st name (objectPath name "manifests" reference) bytes ↔
      ∀ p, p ∈ (imageDigests serde bytes).map (objectPath name "blobs") ↔
        p ∈ (namedDigests serde bytes).2.map (objectPath name (namedDigests serde bytes).1) := by
  constructor
  · rintro ⟨references', hreferences', h⟩ p
    obtain rfl : references' = references := Option.some.inj (hreferences'.symm.trans hreferences)
    rw [← mem_gatheredPaths_iff hopen, h, mem_manifestReferences_iff hreferences]
  · intro h
    refine ⟨references, hreferences, fun p => ?_⟩
    rw [mem_gatheredPaths_iff hopen, h, mem_manifestReferences_iff hreferences]

theorem eq_nil_of_map_mem_iff {xs ys : List String} {f g : String → String}
    (h : ∀ p, p ∈ xs.map f ↔ p ∈ ys.map g) (hys : ys = []) : xs = [] := by
  subst hys
  refine List.eq_nil_iff_forall_not_mem.mpr fun x hx => ?_
  exact absurd ((h (f x)).mp (List.mem_map_of_mem hx)) List.not_mem_nil

variable {mediaType : String}

theorem decoder?_of_docker (h : mediaType = MediaType.dockerManifestV2 ∨
    mediaType = MediaType.dockerManifestV2Alt) :
    Manifest.decoder? mediaType = some fun j => (ImageManifestV2.decode j).map .dockerV2 := by
  rw [Manifest.decoder?, if_pos h]

theorem decoder?_cases (h : Manifest.decoder? mediaType ≠ none) :
    (mediaType = MediaType.dockerManifestV2 ∨ mediaType = MediaType.dockerManifestV2Alt) ∨
    mediaType = MediaType.ociImageManifest ∨
    Manifest.decoder? mediaType = some fun j => (OciImageIndex.decode j).map .ociIndex := by
  unfold Manifest.decoder? at h ⊢
  grind

theorem of_required {α : Type} {decode : Json → Option α} {slot : Json.Slot} {a : α}
    (h : Json.required decode slot = some a) : ∃ v, slot = .present v ∧ decode v = some a := by
  cases slot with
  | present v => exact ⟨v, rfl, h⟩
  | missing | missingElement => simp [Json.required] at h

def memberSlot (members : List (String × Json)) (name : String) : Json.Slot :=
  match members.lookup name with
  | some v => .present v
  | none => .missing

theorem eq_memberSlot_of_fields {names : List String} {members : List (String × Json)}
    {slot : String → Json.Slot} (h : Json.fields names (.obj members) = some slot) :
    slot = memberSlot members := by
  rw [Json.fields] at h
  split_ifs at h
  obtain rfl := Option.some.inj h
  rfl

theorem descriptors_eq {members : List (String × Json)} {docker : ImageManifestV2}
    {image : OciImageManifest} (hdocker : ImageManifestV2.decode (.obj members) = some docker)
    (himage : OciImageManifest.decode (.obj members) = some image) :
    image.config.toList ++ image.layers = docker.config :: docker.layers := by
  simp only [ImageManifestV2.decode, Option.bind_eq_bind, Option.bind_eq_some_iff, Option.pure_def,
    Option.some.injEq] at hdocker
  obtain ⟨slot, hslot, _, -, _, -, config, hconfig, layers, hlayers, rfl⟩ := hdocker
  simp only [OciImageManifest.decode, Option.bind_eq_bind, Option.bind_eq_some_iff, Option.pure_def,
    Option.some.injEq] at himage
  obtain ⟨slot', hslot', _, -, _, -, config', hconfig', layers', hlayers', _, -, rfl⟩ := himage
  obtain rfl := eq_memberSlot_of_fields hslot
  obtain rfl := eq_memberSlot_of_fields hslot'
  obtain ⟨v, hv, hvconfig⟩ := of_required hconfig
  obtain ⟨w, hw, hwlayers⟩ := of_required hlayers
  have hconfigs : config' = some config := by
    cases v with
    | null => simp [Descriptor.decode, Json.fields] at hvconfig
    | _ => simpa [hv, Json.optional, hvconfig, eq_comm] using hconfig'
  have hlayerss : layers' = layers := by
    rw [hw, Json.defaulted, hwlayers] at hlayers'
    exact (Option.some.inj hlayers').symm
  rw [hconfigs, hlayerss]
  rfl

/-! ### The named reading -/

variable {value : Json}

theorem parse_of_value (h : serde.value bytes = some value) : serde.parse bytes = some value := by
  rw [SerdeJson.value, Option.filter_eq_some_iff] at h
  exact h.1

theorem parseManifest_of_value (hbytes : bytes ≠ []) (hvalue : serde.value bytes = some value) :
    parseManifest serde bytes = Manifest.fromBytes serde bytes
      ((Json.getStr? "mediaType" value).getD MediaType.ociImageManifest) := by
  rw [parseManifest, if_neg hbytes, hvalue]

theorem namedDigests_of_image (hbytes : bytes ≠ []) (hvalue : serde.value bytes = some value)
    (hmedia : Json.getStr? "mediaType" value = none ∨
      Json.getStr? "mediaType" value = some MediaType.ociImageManifest) :
    namedDigests serde bytes = ("blobs", imageDigests serde bytes) := by
  have hfrom : (Json.getStr? "mediaType" value).getD MediaType.ociImageManifest =
      MediaType.ociImageManifest := by
    rcases hmedia with h | h <;> rw [h] <;> rfl
  unfold namedDigests imageDigests
  rw [parseManifest_of_value hbytes hvalue, hfrom, fromBytes_ociImageManifest]
  cases readImage serde bytes with
  | none => rfl
  | some image => rfl

theorem parseManifest_of_decoder {decode : Json → Option Manifest}
    (hbytes : bytes ≠ []) (hvalue : serde.value bytes = some value)
    (hmedia : Json.getStr? "mediaType" value = some mediaType)
    (hdecode : Manifest.decoder? mediaType = some decode) :
    parseManifest serde bytes = some (decode value) := by
  rw [parseManifest_of_value hbytes hvalue, hmedia, Option.getD_some,
    Manifest.fromBytes_of_decoder hdecode, parse_of_value hvalue, Option.bind_some]

/-- What a Docker image names: its descriptors, or nothing when it does not decode. -/
theorem namedDigests_of_docker (hbytes : bytes ≠ []) (hvalue : serde.value bytes = some value)
    (hmedia : Json.getStr? "mediaType" value = some mediaType)
    (hdocker : mediaType = MediaType.dockerManifestV2 ∨
      mediaType = MediaType.dockerManifestV2Alt) :
    namedDigests serde bytes = ("blobs", ((ImageManifestV2.decode value).elim [] fun docker =>
      (docker.config :: docker.layers).map Descriptor.digest)) := by
  unfold namedDigests
  rw [parseManifest_of_decoder hbytes hvalue hmedia (decoder?_of_docker hdocker)]
  cases ImageManifestV2.decode value with
  | none => rfl
  | some docker => rfl

theorem exists_members_of_getStr?
    (h : Json.getStr? "mediaType" value = some mediaType) : ∃ members, value = .obj members := by
  cases value with
  | obj members => exact ⟨members, rfl⟩
  | _ => simp [Json.getStr?] at h

theorem imageDigests_of_value (hvalue : serde.value bytes = some value) :
    imageDigests serde bytes = (OciImageManifest.decode value).elim [] blobDigests := by
  grind [imageDigests, readImage, parse_of_value, OciImageManifest.decode]

theorem readAlike_of_paths (hreturns : manifestReferences serde name bytes ≠ none)
    (h : ∀ p, p ∈ (imageDigests serde bytes).map (objectPath name "blobs") ↔
      p ∈ (namedDigests serde bytes).2.map (objectPath name (namedDigests serde bytes).1)) :
    ReadAlike serde bytes := by
  by_cases hnamed : (namedDigests serde bytes).2 = []
  · exact .inr ⟨eq_nil_of_map_mem_iff h hnamed, hnamed⟩
  · have hbytes : bytes ≠ [] := by
      rintro rfl
      exact hnamed rfl
    cases hvalue : serde.value bytes with
    | none => exact absurd (by simp [namedDigests, parseManifest, hbytes, hvalue]) hnamed
    | some value =>
      refine .inl ⟨hbytes, value, hvalue, ?_⟩
      cases hmedia : Json.getStr? "mediaType" value with
      | none => exact .inl rfl
      | some mediaType =>
        have hknown : Manifest.decoder? mediaType ≠ none := by grind [NamesUnknown,
                                                              manifestReferences_ne_none_iff, hnot]
        rcases decoder?_cases hknown with hdocker | rfl | hindex
        · refine .inr (.inr ?_)
          rw [namedDigests_of_docker hbytes hvalue hmedia hdocker] at h hnamed
          obtain ⟨docker, hdecode⟩ : ∃ docker, ImageManifestV2.decode value = some docker := by
            cases hdecode : ImageManifestV2.decode value with
            | none => simp [hdecode] at hnamed
            | some docker => exact ⟨docker, rfl⟩
          refine ⟨by simpa using hdocker, by simp [hdecode], ?_⟩
          -- an image without its OCI form gathers nothing, and a Docker image has a configuration
          by_contra himage
          rw [Option.not_isSome_iff_eq_none] at himage
          have hnone : imageDigests serde bytes = [] := by
            rw [imageDigests_of_value hvalue, himage]
            rfl
          have hconfig := (h (objectPath name "blobs" docker.config.digest)).mpr (by simp [hdecode])
          rw [hnone] at hconfig
          exact absurd hconfig List.not_mem_nil
        · exact .inr (.inl rfl)
        · -- an index names manifests, which are no blobs
          have hkind : (namedDigests serde bytes).1 = "manifests" := by
            unfold namedDigests at hnamed ⊢
            rw [parseManifest_of_decoder hbytes hvalue hmedia hindex] at hnamed ⊢
            cases hdecode : OciImageIndex.decode value with
            | none => simp [hdecode] at hnamed
            | some index => simp only [Option.map_some, Manifest.digests]
          obtain ⟨digest, hdigest⟩ := List.exists_mem_of_ne_nil _ hnamed
          grind [objectPath, List.mem_map_of_mem, absurd, objectPath_blobs_ne]

theorem paths_of_readAlike (h : ReadAlike serde bytes) (p : String) :
    p ∈ (imageDigests serde bytes).map (objectPath name "blobs") ↔
      p ∈ (namedDigests serde bytes).2.map (objectPath name (namedDigests serde bytes).1) := by
  rcases h with ⟨hbytes, value, hvalue, hmedia⟩ | ⟨himage, hnamed⟩
  · have heq : namedDigests serde bytes = ("blobs", imageDigests serde bytes) := by
      rcases hmedia with hmedia | hmedia | ⟨hmedia, hdocker, himage⟩
      · exact namedDigests_of_image hbytes hvalue (.inl hmedia)
      · exact namedDigests_of_image hbytes hvalue (.inr hmedia)
      · obtain ⟨docker, hdocker⟩ := Option.isSome_iff_exists.mp hdocker
        obtain ⟨image, himage⟩ := Option.isSome_iff_exists.mp himage
        obtain ⟨mediaType, hname, hknown⟩ : ∃ mediaType,
            Json.getStr? "mediaType" value = some mediaType ∧
            (mediaType = MediaType.dockerManifestV2 ∨
              mediaType = MediaType.dockerManifestV2Alt) := by
          grind
        obtain ⟨members, rfl⟩ := exists_members_of_getStr? hname
        grind [namedDigests_of_docker, imageDigests_of_value, blobDigests, descriptors_eq]
    rw [heq]
  · rw [himage, hnamed]
    simp

/-- **One manifest graph**: for a body that a push accepted, deletion gathers the paths that the
accounting records exactly when the body is read alike. -/
theorem gathers_iff_readAlike (sha : Sha256) (serde : SerdeJson) (settings : PushSettings)
    (st st' : DynStorage) (req : PutManifest)
    (hpush : admitManifest serde settings st req = some (.ok ()))
    (hstored : st'.openFile (manifestPath req.repositoryName req.reference) =
      .ok (some (.file req.body))) :
    GathersReferences sha serde st' req.repositoryName
      (objectPath req.repositoryName "manifests" req.reference) req.body ↔
    ReadAlike serde req.body := by
  obtain ⟨references, hreferences⟩ := exists_references_of_admitManifest hpush
  rw [gathersReferences_iff hstored hreferences]
  constructor
  · exact readAlike_of_paths (by rw [hreferences]; exact Option.some_ne_none references)
  · exact fun h p => paths_of_readAlike h p

/-- A push of the image `img` under the tag `latest`. -/
def latestPush (mediaType : String) (body : Bytes) : PutManifest where
  repositoryName := "img"
  reference := "latest"
  hasUser := true
  contentType := some mediaType
  body := body

def latestStored (body : Bytes) : DynStorage where
  backend := .local
  objects := (∅ : Objects).put ["v2", "img", "manifests", "latest"] body
  staging := ∅

theorem openFile_latestStored (body : Bytes) :
    (latestStored body).openFile (manifestPath "img" "latest") = .ok (some (.file body)) := rfl

theorem admitManifest_latestPush {settings : PushSettings} {body : Bytes}
    {digests : Option (String × List String)} (hallow : settings.allowTagOverwrite = true)
    (hbytes : (Manifest.fromBytes serde body mediaType).map Option.isSome = some true)
    (hparsed : (parseManifest serde body).map (Option.map Manifest.digests) = some digests) :
    admitManifest serde settings st (latestPush mediaType body) = some (.ok ()) := by
  have hallowed : ¬ ((!isDigestReference "latest" && !settings.allowTagOverwrite) = true) := by
    simp [hallow]
  obtain ⟨parsed, hfrom, hsome⟩ := Option.map_eq_some_iff.mp hbytes
  obtain ⟨manifest, rfl⟩ := Option.isSome_iff_exists.mp hsome
  obtain ⟨parsed', hparse, -⟩ := Option.map_eq_some_iff.mp hparsed
  unfold admitManifest latestPush
  simp only [Option.getD_some, hfrom, manifestReferences, hparse, Option.map_some,
    if_neg hallowed]

/-- A Docker image without layers: the digest of its configuration. -/
def configText : Bytes :=
  intoBytes ("\x7b\"schemaVersion\":2,\"mediaType\":\"" ++ MediaType.dockerManifestV2 ++
    "\",\"config\":\x7b\"mediaType\":\"\",\"digest\":\"sha256:aa\",\"size\":1\x7d," ++
    "\"layers\":[]\x7d")

def configJson : Json :=
  .obj [("schemaVersion", .int 2), ("mediaType", .str MediaType.dockerManifestV2),
    ("config", entryJson "" "sha256:aa" 1), ("layers", .arr [])]

/-- `serde_json` on that image. -/
def configSerde : SerdeJson where
  parse bytes := if bytes = configText then some configJson else none
  acceptsValue _ := true

set_option maxRecDepth 4000 in
theorem digests_configText :
    (parseManifest configSerde configText).map (Option.map Manifest.digests) =
      some (some ("blobs", ["sha256:aa"])) := by
  decide

set_option maxRecDepth 4000 in
/-- Of a Docker image deletion gathers what the accounting records. -/
theorem gathers_configText : GathersReferences .hexText configSerde
    (latestStored configText) "img" (objectPath "img" "manifests" "latest") configText := by
  have hpush : admitManifest configSerde ⟨true, false, true, true⟩ ⟨.local, ∅, ∅⟩
      (latestPush MediaType.dockerManifestV2 configText) = some (.ok ()) :=
    admitManifest_latestPush rfl (by decide) digests_configText
  have hvalue : configSerde.value configText = some configJson := by
    simp [SerdeJson.value, configSerde]
  have halike : ReadAlike configSerde configText :=
    .inl ⟨by decide, configJson, hvalue, .inr (.inr ⟨.inl (by decide),
      by decide, by decide⟩)⟩
  exact (gathers_iff_readAlike .hexText configSerde _ _ (latestStored configText) _ hpush
    (openFile_latestStored _)).mpr halike

set_option maxRecDepth 4000 in
/-- Of an index it gathers nothing. -/
theorem not_gathers_innerText :
    ¬ ∀ (sha : Sha256) (serde : SerdeJson) (settings : PushSettings) (st st' : DynStorage)
      (req : PutManifest), admitManifest serde settings st req = some (.ok ()) →
      st'.openFile (manifestPath req.repositoryName req.reference) =
        .ok (some (.file req.body)) →
      GathersReferences sha serde st' req.repositoryName
        (objectPath req.repositoryName "manifests" req.reference) req.body := by
  intro hall
  have hpush : admitManifest sharedSerde ⟨true, false, true, true⟩ ⟨.local, ∅, ∅⟩
      (latestPush MediaType.ociImageIndex innerText) = some (.ok ()) :=
    admitManifest_latestPush rfl (by decide) digests_innerText
  have hgathers := hall .hexText _ _ _ (latestStored innerText) _ hpush (openFile_latestStored _)
  obtain ⟨references, hreferences⟩ := exists_references_of_admitManifest hpush
  have hpaths := (gathersReferences_iff (openFile_latestStored innerText) hreferences).mp hgathers
  have himage : imageDigests sharedSerde innerText = [] := by decide
  have hnamed : namedDigests sharedSerde innerText = ("manifests", ["sha256:c"]) := by
    decide
  rw [himage, hnamed] at hpaths
  have hin := (hpaths (objectPath "img" "manifests" "sha256:c")).mpr (by simp)
  exact absurd hin List.not_mem_nil

end Pkgly.Docker
