import Pkgly.Nuget.Proxy
import Pkgly.Storage.Equiv.DynStorage
import Pkgly.Storage.Equiv.StoragePath

/-!
# Routes of the NuGet proxy

What `route` makes of a path is told by its pieces (`route_cases`).  `texts_mapTexts` and
`mapTexts_eq_iff` are what is used of changing the texts of a document.
-/

namespace Pkgly.Nuget

/-! ### Texts in documents -/

mutual

theorem texts_mapTexts (f : String → String) :
    ∀ value : Json, texts (mapTexts f value) = (texts value).map f
  | .str _ => rfl
  | .arr items => itemTexts_mapItems f items
  | .obj members => memberTexts_mapMembers f members
  | .null => rfl
  | .bool _ => rfl
  | .int _ => rfl
  | .float => rfl

theorem itemTexts_mapItems (f : String → String) :
    ∀ items : List Json, itemTexts (mapItems f items) = (itemTexts items).map f
  | [] => rfl
  | item :: items => by
    rw [mapItems, itemTexts, itemTexts, List.map_append, texts_mapTexts f item,
      itemTexts_mapItems f items]

theorem memberTexts_mapMembers (f : String → String) :
    ∀ members : List (String × Json),
      memberTexts (mapMembers f members) = (memberTexts members).map f
  | [] => rfl
  | (_, value) :: members => by
    rw [mapMembers, memberTexts, memberTexts, List.map_append, texts_mapTexts f value,
      memberTexts_mapMembers f members]

end

mutual

theorem mapTexts_eq_iff (f g : String → String) :
    ∀ value : Json, mapTexts f value = mapTexts g value ↔ ∀ s ∈ texts value, f s = g s
  | .str text => by simp [mapTexts, texts]
  | .arr items => by
    rw [mapTexts, mapTexts, texts, ← mapItems_eq_iff f g items, Json.arr.injEq]
  | .obj members => by
    rw [mapTexts, mapTexts, texts, ← mapMembers_eq_iff f g members, Json.obj.injEq]
  | .null => by simp [mapTexts, texts]
  | .bool _ => by simp [mapTexts, texts]
  | .int _ => by simp [mapTexts, texts]
  | .float => by simp [mapTexts, texts]

theorem mapItems_eq_iff (f g : String → String) :
    ∀ items : List Json, mapItems f items = mapItems g items ↔ ∀ s ∈ itemTexts items, f s = g s
  | [] => by simp [mapItems, itemTexts]
  | item :: items => by
    rw [mapItems, mapItems, itemTexts, List.cons.injEq, mapTexts_eq_iff f g item,
      mapItems_eq_iff f g items, List.forall_mem_append]

theorem mapMembers_eq_iff (f g : String → String) :
    ∀ members : List (String × Json),
      mapMembers f members = mapMembers g members ↔ ∀ s ∈ memberTexts members, f s = g s
  | [] => by simp [mapMembers, memberTexts]
  | (name, value) :: members => by
    rw [mapMembers, mapMembers, memberTexts, List.cons.injEq, Prod.mk.injEq,
      mapTexts_eq_iff f g value, mapMembers_eq_iff f g members, List.forall_mem_append]
    simp

end

/-! ### Rewritten texts -/

theorem stripPrefix_append (pat rest : String) : stripPrefix pat (pat ++ rest) = some rest := by
  rw [stripPrefix, if_pos (startsWith_append pat rest), String.toList_append, List.drop_left,
    String.ofList_toList]

/-- The base that a text is rewritten at, with the name of the local directory that takes its
place. -/
def rewrittenBase (resources : ProxyResources) (text : String) : Option (String × String) :=
  if startsWith resources.registrationBase text then
    some (resources.registrationBase, "v3/registration")
  else if startsWith resources.flatcontainerBase text then
    some (resources.flatcontainerBase, "v3/flatcontainer")
  else (resources.publishBase.filter fun base => startsWith base text).map (·, "api/v2/package")

theorem startsWith_append_iff {pat s : String} :
    startsWith pat s = true ↔ ∃ rest, s = pat ++ rest := by
  rw [startsWith_iff]
  constructor
  · rintro ⟨tail, htail⟩
    refine ⟨String.ofList tail, ?_⟩
    rw [← String.toList_inj, String.toList_append, String.toList_ofList, htail]
  · rintro ⟨rest, rfl⟩
    exact ⟨rest.toList, (String.toList_append).symm⟩

variable {resources : ProxyResources} {path : String}

theorem rewriteText_of_base {text base name : String}
    (h : rewrittenBase resources text = some (base, name)) (localBase : String) :
    ∃ rest, text = base ++ rest ∧
      rewriteText resources localBase text = localBase ++ ("/" ++ name) ++ rest := by
  have hnone : ∀ pat, startsWith pat text ≠ true → stripPrefix pat text = none := by
    intro pat hpat
    rw [stripPrefix, if_neg hpat]
  unfold rewrittenBase at h
  unfold rewriteText
  split_ifs at h with hregistration hflatcontainer
  · obtain ⟨rfl, rfl⟩ := Prod.mk.inj (Option.some.inj h)
    obtain ⟨rest, rfl⟩ := startsWith_append_iff.mp hregistration
    refine ⟨rest, rfl, ?_⟩
    rw [stripPrefix_append]
    rfl
  · obtain ⟨rfl, rfl⟩ := Prod.mk.inj (Option.some.inj h)
    obtain ⟨rest, rfl⟩ := startsWith_append_iff.mp hflatcontainer
    refine ⟨rest, rfl, ?_⟩
    rw [hnone _ hregistration, stripPrefix_append]
    rfl
  · obtain ⟨base', hbase, heq⟩ := Option.map_eq_some_iff.mp h
    obtain ⟨rfl, rfl⟩ := Prod.mk.inj heq
    obtain ⟨hpublish, hstarts⟩ := Option.filter_eq_some_iff.mp hbase
    obtain ⟨rest, rfl⟩ := startsWith_append_iff.mp hstarts
    refine ⟨rest, rfl, ?_⟩
    grind [stripPrefix_append]

theorem rewriteText_of_none {text : String}
    (h : rewrittenBase resources text = none) (localBase : String) :
    rewriteText resources localBase text = text := by
  have hnone : ∀ pat, startsWith pat text ≠ true → stripPrefix pat text = none := by
    intro pat hpat
    rw [stripPrefix, if_neg hpat]
  grind [rewrittenBase, rewriteText, Option.map_eq_none_iff, startsWith, Option.filter,
    Option.filter_some_pos]

/-! ### Routes -/

def isRegistration (path : String) : Bool :=
  match pieces '/' path with
  | [version, kind, _, file] =>
    version == "v3" && kind == "registration" && endsWith ".json" file
  | _ => false

def Route.url : Route → Option String
  | .json url _ => some url
  | .binary url => some url
  | .nuspec url => some url
  | .unsupported => none

theorem route_cases (resources : ProxyResources) (path : String) :
    (∃ id more, pieces '/' path = "v3" :: "flatcontainer" :: id :: "index.json" :: more ∧
      route resources path =
        .json (resources.flatcontainerBase ++ "/" ++ id ++ "/index.json") false) ∨
    (∃ id version file, pieces '/' path = ["v3", "flatcontainer", id, version, file] ∧
      version ≠ "index.json" ∧ endsWith ".nupkg" file = true ∧ route resources path =
        .binary (resources.flatcontainerBase ++ "/" ++ id ++ "/" ++ version ++ "/" ++ file)) ∨
    (∃ id version file, pieces '/' path = ["v3", "flatcontainer", id, version, file] ∧
      version ≠ "index.json" ∧ endsWith ".nuspec" file = true ∧ route resources path =
        .nuspec (resources.flatcontainerBase ++ "/" ++ id ++ "/" ++ version ++ "/" ++ file)) ∨
    (∃ id file, pieces '/' path = ["v3", "registration", id, file] ∧
      endsWith ".json" file = true ∧ route resources path =
        .json (resources.registrationBase ++ "/" ++ id ++ "/" ++ file) true) ∨
    route resources path = .unsupported := by
  unfold route
  generalize pieces '/' path = parts
  have hfour : 4 ≤ parts.length → ∃ a b c d more, parts = a :: b :: c :: d :: more := by
    intro hlength
    rcases parts with _ | ⟨a, _ | ⟨b, _ | ⟨c, _ | ⟨d, more⟩⟩⟩⟩
    case cons.cons.cons.cons => exact ⟨a, b, c, d, more, rfl⟩
    all_goals simp at hlength
  simp only []
  split_ifs with hindex hbinary hnuspec hregistration hleaf
  · obtain ⟨hlength, h0, h1, h3⟩ := hindex
    obtain ⟨a, b, c, d, more, rfl⟩ := hfour hlength
    cases h0
    cases h1
    cases h3
    exact .inl ⟨c, more, rfl, rfl⟩
  · obtain ⟨hlength, h0, h1, hend⟩ := hbinary
    obtain ⟨a, b, c, d, more, rfl⟩ := hfour (by omega)
    obtain ⟨e, rfl⟩ : ∃ e, more = [e] := List.length_eq_one_iff.mp (by simpa using hlength)
    simp_all
  · obtain ⟨hlength, h0, h1, hend⟩ := hnuspec
    obtain ⟨a, b, c, d, more, rfl⟩ := hfour (by omega)
    obtain ⟨e, rfl⟩ : ∃ e, more = [e] := List.length_eq_one_iff.mp (by simpa using hlength)
    simp_all
  · obtain ⟨hlength, h0, h1, h3⟩ := hregistration
    obtain ⟨a, b, c, d, more, rfl⟩ := hfour (by omega)
    obtain rfl : more = [] := List.length_eq_zero_iff.mp (by simpa using hlength)
    cases h0
    cases h1
    cases h3
    refine .inr (.inr (.inr (.inl ⟨c, "index.json", rfl, by decide, ?_⟩)))
    rw [show ("/index.json" : String) = "/" ++ "index.json" by decide, ← String.append_assoc]
    rfl
  · obtain ⟨hlength, h0, h1, hend⟩ := hleaf
    obtain ⟨a, b, c, d, more, rfl⟩ := hfour (by omega)
    simp_all
  · exact .inr (.inr (.inr (.inr rfl)))

theorem route_registration (resources : ProxyResources) {id file : String}
    (h : pieces '/' path = ["v3", "registration", id, file]) (hend : endsWith ".json" file = true) :
    route resources path = .json (resources.registrationBase ++ "/" ++ id ++ "/" ++ file) true := by
  simp_all [route, String.append_assoc]

theorem route_index (resources : ProxyResources) {id : String} {more : List String}
    (h : pieces '/' path = "v3" :: "flatcontainer" :: id :: "index.json" :: more) :
    route resources path =
      .json (resources.flatcontainerBase ++ "/" ++ id ++ "/index.json") false := by
  unfold route
  rw [h]
  simp

theorem route_package (resources : ProxyResources) {id version file : String}
    (h : pieces '/' path = ["v3", "flatcontainer", id, version, file])
    (hversion : version ≠ "index.json")
    (hend : endsWith ".nupkg" file = true ∨ endsWith ".nuspec" file = true) :
    (route resources path).url =
      some (resources.flatcontainerBase ++ "/" ++ id ++ "/" ++ version ++ "/" ++ file) := by
  unfold route
  rw [h]
  by_cases hbinary : endsWith ".nupkg" file = true
  · simp [hversion, hbinary, Route.url]
  · simp [hversion, hbinary, hend.resolve_left hbinary, Route.url]

theorem isRegistration_iff :
    isRegistration path = true ↔ ∃ url, route resources path = .json url true := by
  constructor
  · intro h
    unfold isRegistration at h
    split at h
    · rename_i version kind id file hpieces
      rw [Bool.and_eq_true, Bool.and_eq_true, beq_iff_eq, beq_iff_eq] at h
      obtain ⟨⟨rfl, rfl⟩, hend⟩ := h
      exact ⟨_, route_registration resources hpieces hend⟩
    · cases h
  grind [route_cases, id, isRegistration]

/-! ### Keys -/

theorem segments_eq_filter_pieces (sep : Char) (s : String) :
    segments sep s = (pieces sep s).filter (· ≠ "") := by
  unfold segments pieces
  rw [List.filter_map]
  congr 2
  aesop

namespace ProxyRequest

theorem components_eq (request : ProxyRequest) :
    request.path.components = segments '/' request.path.toString' := by
  obtain ⟨text, htext⟩ := request.accepted
  rw [StoragePath.toString'_of_fromUntrusted htext,
    (StoragePath.validate_of_fromUntrusted htext).1, StoragePath.components_ofString]

theorem validate (request : ProxyRequest) : request.path.validate = true := by
  obtain ⟨text, htext⟩ := request.accepted
  exact (StoragePath.validate_of_fromUntrusted htext).2

variable {request request' : ProxyRequest}

/-- A page of a registration is stored below the directory of the registrations. -/
theorem getElem?_components_of_isRegistration (h : isRegistration request.path.toString' = true) :
    request.path.components[1]? = some "registration" := by
  rw [request.components_eq, segments_eq_filter_pieces]
  unfold isRegistration at h
  split at h
  · simp_all
  · cases h

theorem getElem?_components_of_flatcontainer {more : List String}
    (h : pieces '/' request.path.toString' = "v3" :: "flatcontainer" :: more) :
    request.path.components[1]? = some "flatcontainer" := by
  rw [request.components_eq, segments_eq_filter_pieces, h]
  rfl

theorem not_isDirectory_of_isRegistration (h : isRegistration request.path.toString' = true) :
    request.path.isDirectory = false := by
  obtain ⟨text, htext⟩ := request.accepted
  have hprinted := StoragePath.toString'_of_fromUntrusted htext
  rw [(StoragePath.validate_of_fromUntrusted htext).1, StoragePath.isDirectory_ofString,
    ← hprinted, ← Bool.not_eq_true]
  intro hslash
  obtain ⟨stem, hstem⟩ := List.isSuffixOf_iff_suffix.mp hslash
  -- the last piece would be empty
  have hpieces : pieces '/' request.path.toString' = pieces '/' (String.ofList stem) ++ [""] := by
    have htext : request.path.toString' = String.ofList stem ++ (String.ofList ['/'] ++ "") := by
      rw [← String.toList_inj, ← hstem]
      simp
    rw [htext, pieces_append]
    rfl
  unfold isRegistration at h
  split at h
  · rename_i version kind id file hfour
    rw [hfour] at hpieces
    have hfile : file = "" := by
      have hlast := congrArg List.getLast? hpieces
      rw [List.getLast?_concat] at hlast
      exact Option.some.inj hlast
    rw [Bool.and_eq_true, hfile] at h
    exact absurd h.2 (by decide)
  · cases h

theorem eq_of_components (h : isRegistration request.path.toString' = true)
    (h' : isRegistration request'.path.toString' = true)
    (heq : request.path.components = request'.path.components) :
    request.path.toString' = request'.path.toString' := by
  grind [StoragePath.toString', not_isDirectory_of_isRegistration]

end ProxyRequest

end Pkgly.Nuget
