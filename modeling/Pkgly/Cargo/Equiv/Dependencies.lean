import Pkgly.Cargo.Metadata

/-!
# The dependencies of a crate in the index

The metadata of a publication names the requirement of a dependency `version_req`, and keeps the
name that a renamed dependency has in the manifest in `explicit_name_in_toml`.  `PublishDependency`
has neither of these fields, and the ones it has instead are not in the document, so that every
line of the index asks for any version of a dependency under its own name
(`dependencies_kept_iff`).
-/

namespace Pkgly.Cargo

open Json

/-! ### Documents of the registry web API -/

structure WebDependency where
  name : String
  versionReq : String
  features : List String
  isOptional : Bool
  defaultFeatures : Bool
  target : Option String
  kind : String
  registry : Option String
  explicitNameInToml : Option String

structure WebMetadata where
  name : String
  vers : Version
  deps : List WebDependency
  features : List (String × List String)
  links : Option String

/-- A text, or neither a text nor a member. -/
def textMember (members : List (String × Json)) (name : String) : Option (Option String) :=
  match members.lookup name with
  | none | some .null => some none
  | some (.str s) => some (some s)
  | _ => none

def texts (names : List String) : Json := .arr (names.map .str)

/-- An object with some of the members, each of them once. -/
structure IsObject (names : List String) (members : List (String × Json)) : Prop where
  nodup : (members.map Prod.fst).Nodup
  known : ∀ name ∈ members.map Prod.fst, name ∈ names

structure WebDependency.IsObject (d : WebDependency) (members : List (String × Json)) : Prop
    extends Cargo.IsObject ["name", "version_req", "features", "optional", "default_features",
      "target", "kind", "registry", "explicit_name_in_toml"] members where
  name : members.lookup "name" = some (.str d.name)
  versionReq : members.lookup "version_req" = some (.str d.versionReq)
  features : members.lookup "features" = some (texts d.features)
  isOptional : members.lookup "optional" = some (.bool d.isOptional)
  defaultFeatures : members.lookup "default_features" = some (.bool d.defaultFeatures)
  target : textMember members "target" = some d.target
  kind : members.lookup "kind" = some (.str d.kind)
  registry : textMember members "registry" = some d.registry
  explicitNameInToml : textMember members "explicit_name_in_toml" = some d.explicitNameInToml

structure WebMetadata.IsObject (d : WebMetadata) (members : List (String × Json)) : Prop
    extends Cargo.IsObject (["name", "vers", "deps", "features", "links", "badges",
      "rust_version"] ++ textLists ++ optionalTexts) members where
  name : members.lookup "name" = some (.str d.name)
  vers : members.lookup "vers" = some (.str d.vers.text)
  deps : ∃ objects, members.lookup "deps" = some (.arr (objects.map .obj)) ∧
    List.Forall₂ WebDependency.IsObject d.deps objects
  featureNames : (d.features.map Prod.fst).Nodup
  features : members.lookup "features" =
    some (.obj (d.features.map fun feature => (feature.1, texts feature.2)))
  links : textMember members "links" = some d.links
  textLists : ∀ name ∈ textLists, ∃ names, members.lookup name = some (texts names)
  optionalTexts : ∀ name ∈ optionalTexts, ∃ text, textMember members name = some text
  badges : members.lookup "badges" = none ∨ ∃ badges, members.lookup "badges" = some (.obj badges)

/-! ### What is read -/

/-- What is left of a dependency. -/
def WebDependency.published (d : WebDependency) : PublishDependency where
  name := d.name
  vers := none
  isOptional := d.isOptional
  defaultFeatures := d.defaultFeatures
  features := d.features
  target := d.target
  kind := some d.kind
  registry := d.registry
  package := none

variable {members : List (String × Json)} {names : List String}

/-- The slot of a field in an object. -/
def slotOf (members : List (String × Json)) (name : String) : Slot :=
  match members.lookup name with
  | some v => .present v
  | none => .missing

theorem fields_obj (h : (members.map Prod.fst).Nodup) (names : List String) :
    fields names (.obj members) = some (slotOf members) := by
  rw [fields, if_neg]
  · rfl
  · rw [Bool.not_eq_true, List.any_eq_false]
    intro name _
    have hcount := List.nodup_iff_count_le_one.mp h name
    simpa using hcount

theorem slotOf_of_lookup {name : String} {v : Json} (h : members.lookup name = some v) :
    slotOf members name = .present v := by
  rw [slotOf, h]

theorem slotOf_of_unknown (h : Cargo.IsObject names members) {name : String} (hname : name ∉ names) :
    slotOf members name = .missing := by
  have hlookup : members.lookup name = none := by
    rw [List.lookup_eq_none_iff]
    intro m hm
    refine bne_iff_ne.mpr fun heq : name = m.1 => hname (h.known name ?_)
    rw [heq]
    exact List.mem_map_of_mem hm
  rw [slotOf, hlookup]

theorem defaulted_of_textMember {name : String} {text : Option String}
    (h : textMember members name = some text) :
    defaulted none (nullable string) (slotOf members name) = some text := by
  unfold textMember at h
  unfold slotOf
  split at h
  · rename_i hnone
    rw [hnone]
    exact h
  · rename_i hnull
    rw [hnull]
    exact h
  · rename_i s hs
    rw [hs]
    exact h
  · cases h

theorem mapM_of_forall₂ {α β γ : Type} {decode : γ → Option β} {R : α → γ → Prop} {f : α → β}
    (hdecode : ∀ a j, R a j → decode j = some (f a)) {as : List α} {js : List γ}
    (h : List.Forall₂ R as js) : js.mapM decode = some (as.map f) := by
  induction h with
  | nil => rfl
  | cons hr _ ih =>
    rw [List.mapM_cons, hdecode _ _ hr, ih]
    rfl

theorem exists_mapM {β γ : Type} {decode : γ → Option β} {js : List γ}
    (h : ∀ j ∈ js, ∃ b, decode j = some b) : ∃ bs, js.mapM decode = some bs := by
  induction js with
  | nil => exact ⟨[], rfl⟩
  | cons j js ih =>
    obtain ⟨b, hb⟩ := h j List.mem_cons_self
    obtain ⟨bs, hbs⟩ := ih fun j hj => h j (List.mem_cons_of_mem _ hj)
    exact ⟨b :: bs, by rw [List.mapM_cons, hb, hbs]; rfl⟩

theorem vec_texts (names : List String) : vec string (texts names) = some names := by
  have h : List.Forall₂ (fun name j => j = Json.str name) names (names.map .str) :=
    List.forall₂_map_right_iff.mpr (List.forall₂_same.mpr fun _ _ => rfl)
  rw [texts, vec, mapM_of_forall₂ (f := id) (fun name j hj => by rw [hj]; rfl) h, List.map_id]

theorem decode_dependency {d : WebDependency} (h : d.IsObject members) :
    PublishDependency.decode (.obj members) = some d.published := by
  have hvers := slotOf_of_unknown h.toIsObject (show "vers" ∉ _ by decide)
  have hpackage := slotOf_of_unknown h.toIsObject (show "package" ∉ _ by decide)
  have hfeatures : defaulted [] (vec string) (.present (texts d.features)) = some d.features :=
    vec_texts d.features
  rw [PublishDependency.decode, fields_obj h.nodup]
  simp only [Option.bind_eq_bind, Option.bind_some, slotOf_of_lookup h.name, hvers,
    slotOf_of_lookup h.isOptional, slotOf_of_lookup h.defaultFeatures, slotOf_of_lookup h.features,
    hfeatures, defaulted_of_textMember h.target, slotOf_of_lookup h.kind,
    defaulted_of_textMember h.registry, hpackage]
  rfl

theorem featureMap_texts (features : List (String × List String)) :
    featureMap (.obj (features.map fun feature => (feature.1, texts feature.2))) =
      some features := by
  rw [featureMap]
  induction features with
  | nil => rfl
  | cons feature features ih =>
    rw [List.map_cons, List.mapM_cons, ih, vec_texts]
    rfl

/-- The document without the requirements and the new names of its dependencies. -/
def WebMetadata.published (d : WebMetadata) : PublishMetadata where
  name := d.name
  vers := d.vers
  deps := d.deps.map WebDependency.published
  features := d.features
  links := d.links
  v := none

theorem decode_metadata {semver : String → Option Version} {d : WebMetadata}
    (hsemver : semver d.vers.text = some d.vers) (h : d.IsObject members) :
    PublishMetadata.decode semver (.obj members) = some d.published := by
  have hv := slotOf_of_unknown h.toIsObject (show "v" ∉ _ by decide)
  obtain ⟨objects, hobjects, hdeps⟩ := h.deps
  have hdeps : defaulted [] (vec PublishDependency.decode) (slotOf members "deps") =
      some (d.deps.map WebDependency.published) := by
    rw [slotOf_of_lookup hobjects, defaulted, vec, List.mapM_map]
    exact mapM_of_forall₂ (fun _ _ hd => decode_dependency hd) hdeps
  have hfeatures : defaulted [] featureMap (slotOf members "features") = some d.features := by
    rw [slotOf_of_lookup h.features, defaulted, featureMap_texts]
  have hvers : (required string (slotOf members "vers")).bind semver = some d.vers := by
    rw [slotOf_of_lookup h.vers]
    exact hsemver
  obtain ⟨lists, hlists⟩ : ∃ lists, textLists.mapM (fun name =>
      defaulted [] (vec string) (slotOf members name)) = some lists :=
    exists_mapM fun name hname => by
      obtain ⟨found, hfound⟩ := h.textLists name hname
      rw [slotOf_of_lookup hfound]
      exact ⟨found, vec_texts found⟩
  obtain ⟨found, htexts⟩ := exists_mapM fun name hname => by
    obtain ⟨text, htext⟩ := h.optionalTexts name hname
    exact ⟨text, defaulted_of_textMember htext⟩
  have hbadges : defaulted () badgeMap (slotOf members "badges") = some () := by
    unfold slotOf
    rcases h.badges with hnone | ⟨badges, hsome⟩
    · rw [hnone]
      rfl
    · rw [hsome]
      rfl
  rw [PublishMetadata.decode, fields_obj h.nodup]
  simp only [Option.bind_eq_bind, Option.bind_some, hlists, htexts, hbadges,
    slotOf_of_lookup h.name, hvers, hv, hdeps, hfeatures, defaulted_of_textMember h.links]
  rfl

/-! ### The body of a publication -/

/-- `u32::to_le_bytes`. -/
def u32ToLeBytes (n : ℕ) : Bytes :=
  [UInt8.ofNat n, UInt8.ofNat (n / 256), UInt8.ofNat (n / 65536), UInt8.ofNat (n / 16777216)]

/-- The document and the archive, each behind its length. -/
def publishBody (document archive : Bytes) : Bytes :=
  u32ToLeBytes document.length ++ document ++ (u32ToLeBytes archive.length ++ archive)

theorem u32FromLeBytes_append {n : ℕ} (h : n < 2 ^ 32) (rest : Bytes) :
    u32FromLeBytes (u32ToLeBytes n ++ rest) = n := by
  simp only [u32FromLeBytes, u32ToLeBytes, List.cons_append, List.nil_append, List.take_succ_cons,
    List.take_zero, List.foldr_cons, List.foldr_nil, UInt8.toNat_ofNat']
  omega

theorem parsePublishPayload_publishBody {fromSlice : Bytes → Except String PublishMetadata}
    {document archive : Bytes} (hdocument : document.length < 2 ^ 32)
    (harchive : archive.length < 2 ^ 32) {metadata : PublishMetadata}
    (hmetadata : fromSlice document = .ok metadata) :
    parsePublishPayload fromSlice (publishBody document archive) = .ok ⟨metadata, archive⟩ := by
  have hlength : ∀ n, (u32ToLeBytes n).length = 4 := fun n => rfl
  have hdrop : ∀ n rest, (u32ToLeBytes n ++ rest).drop 4 = rest := fun n rest => rfl
  rw [parsePublishPayload, publishBody, List.append_assoc, u32FromLeBytes_append hdocument]
  simp only [hdrop, List.drop_left, List.take_left, u32FromLeBytes_append harchive,
    List.length_append, hlength]
  rw [if_neg (by omega), if_neg (by omega), if_neg (by omega), if_neg (by omega), hmetadata]
  rw [List.take_length]

/-! ### The lines of the index -/

/-- The dependency of a line is the one of the document: under the name of the manifest, and for
the crate of the document. -/
structure Prescribed (d : WebDependency) (e : IndexDependency) : Prop where
  name : e.name = d.explicitNameInToml.getD d.name
  crate : e.package.getD e.name = d.name
  req : e.req = d.versionReq
  features : e.features = d.features
  isOptional : e.isOptional = d.isOptional
  defaultFeatures : e.defaultFeatures = d.defaultFeatures
  target : e.target = d.target
  kind : e.kind = some d.kind
  registry : e.registry = d.registry

structure IsLineOf (d : WebMetadata) (checksum : String) (entry : IndexEntry) : Prop where
  name : entry.name = d.name
  vers : entry.vers = d.vers.text
  deps : List.Forall₂ Prescribed d.deps entry.deps
  cksum : entry.cksum = checksum
  features : entry.features = d.features
  yanked : entry.yanked = false
  links : entry.links = d.links

/-- Any version will do, and the name in the manifest is that of the crate. -/
def Unconstrained (d : WebDependency) : Prop :=
  d.versionReq = "*" ∧ d.explicitNameInToml.getD d.name = d.name

theorem isLineOf_published_iff (d : WebMetadata) (checksum : String) :
    IsLineOf d checksum (buildIndexEntry d.published checksum) ↔
      ∀ dep ∈ d.deps, Unconstrained dep := by
  have hdeps : List.Forall₂ Prescribed d.deps (buildIndexEntry d.published checksum).deps ↔
      ∀ dep ∈ d.deps, Unconstrained dep := by
    rw [buildIndexEntry, WebMetadata.published, List.map_map, List.forall₂_map_right_iff,
      List.forall₂_same]
    refine forall₂_congr fun dep _ => ?_
    constructor
    · intro h
      exact ⟨h.req.symm, h.name.symm⟩
    · rintro ⟨hreq, hname⟩
      exact ⟨hname.symm, rfl, hreq.symm, rfl, rfl, rfl, rfl, rfl, rfl⟩
  exact ⟨fun h => hdeps.mp h.deps, fun h => ⟨rfl, rfl, hdeps.mpr h, rfl, rfl, rfl, rfl⟩⟩

/-- The line of a publication keeps the dependencies iff there is nothing to keep. -/
theorem dependencies_kept_iff (semver : String → Option Version) (parse : Bytes → Option Json)
    (d : WebMetadata) (hsemver : semver d.vers.text = some d.vers)
    (members : List (String × Json)) (h : d.IsObject members) (document archive : Bytes)
    (hparse : parse document = some (.obj members)) (hdocument : document.length < 2 ^ 32)
    (harchive : archive.length < 2 ^ 32) (checksum : String) :
    (∃ payload, parsePublishPayload (fromSlice semver parse) (publishBody document archive) =
        .ok payload ∧ IsLineOf d checksum (buildIndexEntry payload.metadata checksum)) ↔
      ∀ dep ∈ d.deps, Unconstrained dep := by
  have hmetadata : fromSlice semver parse document = .ok d.published := by
    rw [fromSlice, hparse, Option.bind_some, decode_metadata hsemver h]
  rw [← isLineOf_published_iff d checksum]
  constructor
  · rintro ⟨payload, hpayload, hline⟩
    rw [parsePublishPayload_publishBody hdocument harchive hmetadata] at hpayload
    obtain rfl := Except.ok.inj hpayload
    exact hline
  · intro hline
    exact ⟨_, parsePublishPayload_publishBody hdocument harchive hmetadata, hline⟩

/-! ### A crate that depends on another one -/

/-- Texts of the right characters are taken for versions. -/
def plainVersion (text : String) : Option Version :=
  if h : text.toList ≠ [] ∧ text.toList.all isVersionChar = true then some ⟨text, h.1, h.2⟩
  else none

theorem plainVersion_text (v : Version) : plainVersion v.text = some v := by
  rw [plainVersion, dif_pos ⟨v.nonempty, v.plain⟩]

def randDependency (versionReq : String) : WebDependency :=
  ⟨"rand", versionReq, [], false, true, none, "normal", none, none⟩

def randMembers (versionReq : String) : List (String × Json) :=
  [("name", .str "rand"), ("version_req", .str versionReq), ("features", .arr []),
    ("optional", .bool false), ("default_features", .bool true), ("target", .null),
    ("kind", .str "normal")]

def demoMetadata (versionReq : String) : WebMetadata :=
  ⟨"demo", ⟨"0.1.0", by decide, by decide⟩, [randDependency versionReq], [], none⟩

def demoMembers (versionReq : String) : List (String × Json) :=
  [("name", .str "demo"), ("vers", .str "0.1.0"), ("deps", .arr [.obj (randMembers versionReq)]),
    ("features", .obj []), ("authors", .arr []), ("keywords", .arr []), ("categories", .arr [])]

/-- The text of the document. -/
def demoDocument (versionReq : String) : Bytes :=
  intoBytes ("\x7b\"name\":\"demo\",\"vers\":\"0.1.0\",\"deps\":[\x7b\"name\":\"rand\"," ++
    "\"version_req\":\"" ++ versionReq ++ "\",\"features\":[],\"optional\":false," ++
    "\"default_features\":true,\"target\":null,\"kind\":\"normal\"\x7d]," ++
    "\"features\":\x7b\x7d,\"authors\":[],\"keywords\":[],\"categories\":[]\x7d")

def demoParse (versionReq : String) (text : Bytes) : Option Json :=
  if text = demoDocument versionReq then some (.obj (demoMembers versionReq)) else none

theorem isObject_demoMembers (versionReq : String) :
    (demoMetadata versionReq).IsObject (demoMembers versionReq) where
  nodup := by simp only [demoMembers, List.map_cons, List.map_nil]; decide
  known := by simp only [demoMembers, List.map_cons, List.map_nil]; decide
  name := rfl
  vers := rfl
  deps := ⟨[randMembers versionReq], rfl, .cons {
    nodup := by simp only [randMembers, List.map_cons, List.map_nil]; decide
    known := by simp only [randMembers, List.map_cons, List.map_nil]; decide
    name := rfl, versionReq := rfl, features := rfl, isOptional := rfl, defaultFeatures := rfl
    target := rfl, kind := rfl, registry := rfl, explicitNameInToml := rfl } .nil⟩
  featureNames := .nil
  features := rfl
  links := rfl
  textLists := by
    simp only [textLists, List.forall_mem_cons]
    exact ⟨⟨[], rfl⟩, ⟨[], rfl⟩, ⟨[], rfl⟩, nofun⟩
  optionalTexts := by
    simp only [optionalTexts, List.forall_mem_cons]
    exact ⟨⟨none, rfl⟩, ⟨none, rfl⟩, ⟨none, rfl⟩, ⟨none, rfl⟩, ⟨none, rfl⟩, ⟨none, rfl⟩,
      ⟨none, rfl⟩, ⟨none, rfl⟩, nofun⟩
  badges := .inl rfl

theorem dependencies_kept_any : ∃ payload, parsePublishPayload
    (fromSlice plainVersion (demoParse "*")) (publishBody (demoDocument "*") []) = .ok payload ∧
      IsLineOf (demoMetadata "*") "" (buildIndexEntry payload.metadata "") :=
  (dependencies_kept_iff plainVersion (demoParse "*") (demoMetadata "*") (plainVersion_text _)
    (demoMembers "*") (isObject_demoMembers "*") (demoDocument "*") [] (if_pos rfl)
    (by decide +kernel) (by decide) "").mpr fun dep hdep => by
      rw [List.mem_singleton.mp hdep]
      exact ⟨rfl, rfl⟩

/-- The requirement `^0.6` is lost. -/
theorem not_dependencies_kept_rand : (demoMetadata "^0.6").IsObject (demoMembers "^0.6") ∧
    ¬∃ payload, parsePublishPayload (fromSlice plainVersion (demoParse "^0.6"))
      (publishBody (demoDocument "^0.6") []) = .ok payload ∧
        IsLineOf (demoMetadata "^0.6") "" (buildIndexEntry payload.metadata "") := by
  refine ⟨isObject_demoMembers "^0.6", ?_⟩
  rintro ⟨payload, hpayload, hline⟩
  have hmetadata : fromSlice plainVersion (demoParse "^0.6") (demoDocument "^0.6") =
      .ok (demoMetadata "^0.6").published := by
    rw [fromSlice, demoParse, if_pos rfl, Option.bind_some,
      decode_metadata (plainVersion_text _) (isObject_demoMembers "^0.6")]
  rw [parsePublishPayload_publishBody (by decide +kernel) (by decide) hmetadata] at hpayload
  obtain rfl := Except.ok.inj hpayload
  obtain ⟨hreq, -⟩ := (isLineOf_published_iff _ _).mp hline _ List.mem_cons_self
  exact absurd hreq (by decide)

end Pkgly.Cargo
