import Pkgly.Algorithm.Separated
import Pkgly.Docker.Equiv.ManifestListing
import Pkgly.Docker.Handlers

/-!
# Who reads the path of a manifest?

The router takes the name of an image up to its last `manifests`, the other readers of the path that
`put_manifest` stores up to the first one.  All of them have the same name and reference iff no
segment of the name is `manifests` and S3 lists the key (`readersAgree_iff`).
-/

namespace Pkgly.Docker

open StoragePath

/-- `parse_manifest_reference_path` of the webhooks. -/
def parseManifestReferencePath (path : String) : Option (String × String) :=
  let trimmed := String.ofList (path.toList.dropWhile (· = '/'))
  if !startsWith "v2/" trimmed then none
  else
    let segments := pieces '/' trimmed
    match segments.findIdx? (· == "manifests") with
    | none => none
    | some manifestIdx =>
      if manifestIdx < 2 ∨ segments.length ≤ manifestIdx + 1 then none
      else
        let repository := "/".intercalate ((segments.take manifestIdx).drop 1)
        let reference := segments.getD (manifestIdx + 1) ""
        if repository = "" ∨ reference = "" then none else some (repository, reference)

structure ReadersAgree (name reference : String) : Prop where
  route : route .put (pathParts (manifestPath name reference)) = .manifest name reference
  cache : splitManifestCachePath (manifestPath name reference).toString' = some (name, reference)
  webhook : parseManifestReferencePath (manifestPath name reference).toString' =
    some (name, reference)
  listing : s3Entry (manifestPath name reference).components.tail = some ⟨name, reference⟩

variable {segments : List String} {name reference : String}

theorem ne_empty_of_splitManifestCachePath {path : String}
    (h : splitManifestCachePath path = some (name, reference)) : reference ≠ "" := by
  unfold splitManifestCachePath at h
  rintro rfl
  split_ifs at h
  split at h
  · split_ifs at h with hempty
    obtain ⟨-, hreference⟩ := Prod.mk.inj (Option.some.inj h)
    exact hempty (.inr (String.ofList_eq_empty_iff.mp hreference))
  · cases h

/-! ### The parser of the webhooks -/

theorem parse_of_cut {names front back : List String} {next : String} (h : AreNames names)
    (hcut : names = front ++ "manifests" :: next :: back) (hfront : "manifests" ∉ front) :
    parseManifestReferencePath (keyText ("v2" :: names)) =
      if front = [] then none else some ("/".intercalate front, next) := by
  have hne : names ≠ [] := by simp [hcut]
  have htrim : String.ofList ((keyText ("v2" :: names)).toList.dropWhile (· = '/')) =
      keyText ("v2" :: names) := by
    refine (congrArg String.ofList ?_).trans String.ofList_toList
    rw [toList_keyText, joined_cons _ hne]
    rfl
  have hpieces : pieces '/' (keyText ("v2" :: names)) = "v2" :: names :=
    pieces_intercalate (fun s hs => (areNames_cons.mpr ⟨by decide, h⟩ s hs).2)
      (List.cons_ne_nil _ _)
  have hfind : ("v2" :: names).findIdx? (· == "manifests") = some (front.length + 1) := by
    have hnone : front.findIdx? (· == "manifests") = none :=
      List.findIdx?_eq_none_iff.mpr fun s hs =>
        beq_eq_false_iff_ne.mpr (ne_of_mem_of_not_mem hs hfront)
    rw [List.findIdx?_cons, if_neg (by decide), hcut, List.findIdx?_append, hnone]
    simp [List.findIdx?_cons]
  unfold parseManifestReferencePath
  simp only [htrim, hpieces, hfind, (startsWith_keyText hne).1]
  cases front with
  | nil => simp
  | cons a rest =>
    have hnames := areNames_append.mp (hcut ▸ h)
    have hjoin : "/".intercalate (a :: rest) ≠ "" := fun hempty =>
      joined_ne_nil hnames.1 (List.cons_ne_nil a rest) (by rw [joined, hempty]; rfl)
    have hnext : next ≠ "" := fun hempty => hnames.2.tail.head.1 (by rw [hempty]; rfl)
    simp [hcut, hjoin, hnext]

theorem cutAt_key (hne : segments ≠ []) (hmem : "manifests" ∉ segments) :
    cutAt "manifests" (segments ++ ["manifests", reference]) = some (segments, [reference]) :=
  cutAt_eq_some_iff.mpr ⟨rfl, hne, List.cons_ne_nil _ _, fun h => hmem (List.mem_of_mem_tail h)⟩

/-! ### The stored path -/

section Key

variable (h : AreNames (segments ++ ["manifests", reference]))
include h

theorem areNames_key : AreNames ("v2" :: (segments ++ ["manifests", reference])) :=
  areNames_cons.mpr ⟨by decide, h⟩

theorem manifestPath_spec (hne : segments ≠ []) :
    let key := "v2" :: (segments ++ ["manifests", reference])
    (manifestPath ("/".intercalate segments) reference).components = key ∧
      (manifestPath ("/".intercalate segments) reference).toString' = keyText key := by
  intro key
  have hpath : (⟨key, none⟩ : StoragePath).WellFormed := areNames_key h
  have htext : objectPath ("/".intercalate segments) "manifests" reference =
      (⟨key, none⟩ : StoragePath).toString' := by
    have hjoin : keyText key = objectPath ("/".intercalate segments) "manifests" reference := by
      rw [← String.toList_inj, toList_keyText, joined_cons _ (by simp),
        joined_append segments (List.cons_ne_nil _ _), joined_cons _ (by simp), joined_singleton,
        dirText_eq hne, joined]
      simp [objectPath, String.toList_append]
    rw [← hjoin]
    exact (String.append_empty).symm
  rw [manifestPath, htext]
  refine ⟨hpath.segments_toString', ?_⟩
  rw [hpath.toString'_ofString]
  exact String.append_empty

theorem pieces_key :
    pieces '/' (keyText ("v2" :: (segments ++ ["manifests", reference]))) =
      "v2" :: (segments ++ ["manifests", reference]) :=
  pieces_intercalate (fun s hs => (areNames_key h s hs).2) (List.cons_ne_nil _ _)

theorem route_manifestPath (hne : segments ≠ []) :
    route .put (pathParts (manifestPath ("/".intercalate segments) reference)) =
      .manifest ("/".intercalate segments) reference := by
  have hparts : pathParts (manifestPath ("/".intercalate segments) reference) =
      "v2" :: (segments ++ ["manifests", reference]) := by
    rw [pathParts, (manifestPath_spec h hne).2]
    refine Eq.trans ?_ (pieces_key h)
    rw [pieces, toList_keyText, joined_cons _ (by simp)]
    rfl
  obtain ⟨n, rest, hreverse⟩ : ∃ n rest, segments.reverse = n :: rest :=
    List.exists_cons_of_ne_nil (by simpa using hne)
  have hjoin : joinName (n :: rest) = "/".intercalate segments := by
    rw [joinName, ← hreverse, List.reverse_reverse]
  have hparts' : (segments ++ ["manifests", reference]).reverse =
      reference :: "manifests" :: n :: rest := by
    rw [List.reverse_append, hreverse]
    rfl
  rw [hparts]
  simp only [route, hparts', hjoin]

/-! ### The readers -/

theorem parse_key (hne : segments ≠ []) :
    parseManifestReferencePath (keyText ("v2" :: (segments ++ ["manifests", reference]))) =
      some ("/".intercalate segments, reference) ↔ "manifests" ∉ segments := by
  by_cases hmem : "manifests" ∈ segments
  · refine iff_of_false (fun heq => ?_) (not_not_intro hmem)
    have hnames := (areNames_append.mp h).1
    obtain ⟨front, back, hcut, hfront⟩ := List.eq_append_cons_of_mem hmem
    obtain ⟨next, rest, hrest⟩ : ∃ next rest, back ++ ["manifests", reference] = next :: rest :=
      List.exists_cons_of_ne_nil (by simp)
    have hkey : segments ++ ["manifests", reference] = front ++ "manifests" :: next :: rest := by
      rw [← hrest, hcut, List.append_assoc, List.cons_append]
    rw [parse_of_cut h hkey hfront] at heq
    split_ifs at heq with hnil
    obtain ⟨hjoin, -⟩ := Prod.mk.inj (Option.some.inj heq)
    have hsame := joined_injective (areNames_append.mp (hcut ▸ hnames)).1 hnames
      (congrArg String.toList hjoin)
    rw [hsame] at hfront
    exact hfront hmem
  · rw [parse_of_cut h rfl hmem, if_neg hne]
    exact iff_of_true rfl hmem

theorem split_key (hne : segments ≠ []) (hmem : "manifests" ∉ segments) :
    splitManifestCachePath (keyText ("v2" :: (segments ++ ["manifests", reference]))) =
      some ("/".intercalate segments, reference) := by
  have hnames := areNames_append.mp h
  obtain ⟨hstarts, hdrop⟩ := startsWith_keyText (List.append_ne_nil_of_left_ne_nil hne
    ["manifests", reference])
  have hmark : "/manifests/".toList = '/' :: ("manifests".toList ++ ['/']) := by decide
  rw [splitManifestCachePath, if_pos hstarts, hdrop, hmark, splitOnce_joined (by decide) h,
    cutAt_key hne hmem]
  have hfront := joined_ne_nil hnames.1 hne
  have hback := hnames.2.tail.head.1
  have hname : String.ofList (joined segments) = "/".intercalate segments := String.ofList_toList
  simp [hfront, hback, hname]

end Key

/-! ### The result -/

theorem readersAgree_iff (hsegments : AreNames segments) (hne : segments ≠ [])
    (hreference : '/' ∉ reference.toList) :
    ReadersAgree ("/".intercalate segments) reference ↔
      "manifests" ∉ segments ∧ reference ≠ "" ∧ endsWith ".nr-docker-tagmeta" reference = false ∧
        s3Listed (segments ++ ["manifests", reference]) = true ∧
        isHiddenKey (keyText ("v2" :: (segments ++ ["manifests", reference]))) = false := by
  by_cases hempty : reference = ""
  · exact iff_of_false (fun h => ne_empty_of_splitManifestCachePath h.cache hempty)
      fun h => h.2.1 hempty
  have h : AreNames (segments ++ ["manifests", reference]) :=
    areNames_append.mpr ⟨hsegments, areNames_cons.mpr ⟨by decide, areNames_cons.mpr
      ⟨⟨fun hnil => hempty (String.toList_eq_nil_iff.mp hnil), hreference⟩, nofun⟩⟩⟩
  obtain ⟨hcomponents, htext⟩ := manifestPath_spec h hne
  have hlisting := s3Entry_eq_some_iff (e := ⟨"/".intercalate segments, reference⟩) h (by simp)
  constructor
  · intro hagree
    have hmem := (parse_key h hne).mp (htext ▸ hagree.webhook)
    have hentry := hagree.listing
    rw [hcomponents] at hentry
    obtain ⟨hlisted, hvisible, front, rest, hcut, htag, heq⟩ := hlisting.mp hentry
    obtain ⟨hfront, hrest⟩ := ManifestEntry.mk.inj heq
    rw [← hrest] at htag
    exact ⟨hmem, hempty, htag, hlisted, hvisible⟩
  · rintro ⟨hmem, -, htag, hlisted, hvisible⟩
    refine ⟨route_manifestPath h hne, ?_, ?_, ?_⟩
    · rw [htext]
      exact split_key h hne hmem
    · rw [htext]
      exact (parse_key h hne).mpr hmem
    · rw [hcomponents]
      exact hlisting.mpr ⟨hlisted, hvisible, segments, [reference], cutAt_key hne hmem,
        by rwa [String.intercalate_singleton], by rw [String.intercalate_singleton]⟩

theorem readersAgree_nginx : ReadersAgree ("/".intercalate ["library", "nginx"]) "1.27" :=
  (readersAgree_iff (by unfold AreNames; decide) (by decide) (by decide)).mpr (by decide)

/-- An image in a directory `manifests`. -/
theorem not_readersAgree_nested :
    ¬ ∀ (segments : List String) (reference : String), AreNames segments → segments ≠ [] →
      '/' ∉ reference.toList → ReadersAgree ("/".intercalate segments) reference := by
  intro h
  have hcache := (h ["app", "manifests", "web"] "1.0" (by unfold AreNames; decide) (by decide)
    (by decide)).cache
  revert hcache
  decide

end Pkgly.Docker
