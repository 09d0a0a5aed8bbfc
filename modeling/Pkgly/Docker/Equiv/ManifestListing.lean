import Pkgly.Algorithm.JoinedNames
import Pkgly.Docker.ManifestListing
import Pkgly.Storage.Equiv.DynStorage

/-!
# The manifest listings of the two backends

Both walks end.  On a local disk they list the objects that `localEntry` lists
(`exists_walk_local`), on S3 those that `s3Entry` lists (`exists_walk_s3`).  The entries determine
the objects, so the listings of a set of objects that a local disk can hold agree exactly when every
object is listed by both or by neither (`listingsAgree_iff`).
-/

namespace Pkgly.Docker

open StoragePath DynStorage Objects BreadthFirst DepthFirst

variable {objects : Objects} {segments : List String} {name : String}

/-! ### Objects of a local disk -/

/-- What a local disk can hold: the names are those of a path that it accepts, and no file is a
directory. -/
structure Storable (objects : Objects) : Prop where
  names : ∀ key ∈ objects.keys, AreNames key
  valid : ∀ key ∈ objects.keys, ∀ s ∈ key, validComponent s = true
  apart : ∀ key ∈ objects.keys, ∀ key' ∈ objects.keys, key <+: key' → key = key'

variable {dir before rest relative : List String} {path : StoragePath} {e : ManifestEntry}

theorem Storable.names_of_directory (h : Storable objects)
    (hdir : IsDirectory objects.keys dir) : AreNames dir := by
  obtain ⟨rest, -, hkey⟩ := hdir
  exact (areNames_append.mp (h.names _ hkey)).1

theorem Storable.valid_of_directory (h : Storable objects)
    (hdir : IsDirectory objects.keys dir) : ∀ s ∈ dir, validComponent s = true := by
  obtain ⟨rest, -, hkey⟩ := hdir
  exact fun s hs => h.valid _ hkey s (List.mem_append_left rest hs)

theorem Storable.not_mem_of_directory (h : Storable objects)
    (hdir : IsDirectory objects.keys dir) : dir ∉ objects.keys := by
  obtain ⟨rest, hrest, hkey⟩ := hdir
  intro hfile
  have heq := h.apart dir hfile _ hkey (List.prefix_append dir rest)
  exact hrest (List.append_right_eq_self.mp heq.symm)

theorem isDir_iff : isDir objects dir = true ↔ IsDirectory objects.keys dir := by
  rw [isDir, List.any_eq_true]
  constructor
  · rintro ⟨key, hkey, hbelow⟩
    obtain ⟨habove, hne⟩ := (Bool.and_eq_true _ _).mp hbelow
    obtain ⟨rest, rfl⟩ := List.isPrefixOf_iff_prefix.mp habove
    refine ⟨rest, ?_, hkey⟩
    rintro rfl
    simp at hne
  · rintro ⟨rest, hrest, hkey⟩
    refine ⟨_, hkey, ?_⟩
    simp [below, hrest]

theorem mem_children_directory_iff : (name, false) ∈ children objects dir ↔
      IsDirectory objects.keys (dir ++ [name]) ∧ isHiddenName name = false := by
  rw [children, List.mem_dedup, List.mem_filterMap]
  constructor
  · rintro ⟨key, hkey, hentry⟩
    split_ifs at hentry with hbelow
    obtain ⟨habove, -⟩ := (Bool.and_eq_true _ _).mp hbelow
    obtain ⟨tail, rfl⟩ := List.isPrefixOf_iff_prefix.mp habove
    rw [List.drop_left] at hentry
    rcases tail with _ | ⟨head, _ | ⟨next, tail⟩⟩
    · cases hentry
    · grind
    · simp only [] at hentry
      split_ifs at hentry with hhidden
      obtain ⟨rfl, -⟩ := Prod.mk.inj (Option.some.inj hentry)
      refine ⟨⟨next :: tail, List.cons_ne_nil _ _, ?_⟩, Bool.not_eq_true _ ▸ hhidden⟩
      rwa [List.append_assoc]
  · rintro ⟨⟨rest, hrest, hkey⟩, hhidden⟩
    obtain ⟨next, tail, rfl⟩ := List.exists_cons_of_ne_nil hrest
    rw [List.append_assoc, List.singleton_append] at hkey
    refine ⟨_, hkey, ?_⟩
    simp_all [below, Bool.false_eq_true]

/-! ### The local walk -/

def onDisk (objects : Objects) : DynStorage := ⟨.local, objects, ∅⟩

def folder (objects : Objects) (dir : List String) : List (String × Bool) :=
  (children objects dir).filter fun entry => !isHiddenFile entry.1

theorem mem_folder_file_iff : (name, true) ∈ folder objects dir ↔
    dir ++ [name] ∈ objects.keys ∧ isHiddenFile name = false := by
  rw [folder, List.mem_filter, mem_children_iff, ← Store.mem_keys_iff]
  simp only [isHiddenFile, Bool.not_eq_true', Bool.or_eq_false_iff]
  tauto

theorem mem_folder_directory_iff : (name, false) ∈ folder objects dir ↔
    IsDirectory objects.keys (dir ++ [name]) ∧ isHiddenFile name = false := by
  rw [folder, List.mem_filter, mem_children_directory_iff]
  simp only [isHiddenFile, Bool.not_eq_true', Bool.or_eq_false_iff]
  tauto

theorem folder_eq_nil (h : ¬ IsDirectory objects.keys dir) : folder objects dir = [] := by
  refine List.eq_nil_iff_forall_not_mem.mpr ?_
  rintro ⟨name, isFile⟩ hentry
  cases isFile with
  | true =>
    obtain ⟨hkey, -⟩ := mem_folder_file_iff.mp hentry
    exact h ⟨[name], List.cons_ne_nil _ _, hkey⟩
  | false =>
    obtain ⟨hdir, -⟩ := mem_folder_directory_iff.mp hentry
    exact h hdir.of_append

theorem openFolder_of_directory (h : Storable objects)
    (hdir : IsDirectory objects.keys path.components) :
    openFolder (onDisk objects) path = .ok (some (folder objects path.components)) := by
  have haccepted : (onDisk objects).rejects path = false := by
    rw [rejects, onDisk, Bool.not_eq_false', validate, List.all_eq_true]
    exact h.valid_of_directory hdir
  have hfile : objects.get path.components = none := by
    refine Option.eq_none_iff_forall_ne_some.mpr fun content hget => ?_
    exact h.not_mem_of_directory hdir (Store.mem_keys_iff.mpr ⟨content, hget⟩)
  have hopen : (onDisk objects).openFile path =
      .ok (some (.directory (children objects path.components))) := by
    unfold openFile
    rw [haccepted]
    simp [onDisk, lookupKey?, hfile, isDir_iff.mpr hdir]
  unfold openFolder
  rw [hopen]
  rfl

theorem openFolder_of_not_directory (hvalid : path.components.all validComponent = true)
    (hdir : ¬ IsDirectory objects.keys path.components) :
    openFolder (onDisk objects) path = .ok none := by
  have haccepted : (onDisk objects).rejects path = false := by
    rw [rejects, onDisk, Bool.not_eq_false', validate, hvalid]
  have hnot : isDir objects path.components = false := by
    rw [← Bool.not_eq_true, isDir_iff]
    exact hdir
  grind [openFolder, openFile, onDisk, lookupKey?, hnot]

/-- A directory that the local walk enters below another one. -/
structure EntersFolder (name : String) : Prop where
  not_manifests : name ≠ "manifests"
  not_internal : ¬ (name = "blobs" ∨ name = "uploads" ∨ name = "_uploads")
  shown : isHiddenFile name = false

def folderShows (objects : Objects) (item : List String × StoragePath) : List ManifestEntry :=
  (folder objects item.2.components).flatMap fun entry =>
    if entry.2 = false ∧ entry.1 = "manifests" then
      manifestsOf item.1 (folder objects (item.2.components ++ ["manifests"]))
    else []

/-- The directories that the walk enters from a directory. -/
def folderNext (objects : Objects) (item : List String × StoragePath) :
    List (List String × StoragePath) :=
  (folder objects item.2.components).flatMap fun entry =>
    if entry.2 = false ∧ entry.1 ≠ "manifests" ∧
        ¬ (entry.1 = "blobs" ∨ entry.1 = "uploads" ∨ entry.1 = "_uploads") then
      [(item.1 ++ [entry.1], item.2.push entry.1)]
    else []

theorem collectFolder_eq {st : DynStorage} {shows : String × Bool → List ManifestEntry}
    {next : String × Bool → List (List String × StoragePath)} {files : List (String × Bool)}
    (h : ∀ entry ∈ files, collectEntry st segments path entry = .ok (shows entry, next entry)) :
    collectFolder st segments path files = .ok (files.flatMap shows, files.flatMap next) := by
  induction files with
  | nil => rfl
  | cons entry files ih =>
    rw [collectFolder, h entry List.mem_cons_self,
      ih fun e he => h e (List.mem_cons_of_mem entry he)]
    rfl

theorem components_push (h : name.toList ≠ [] ∧ '/' ∉ name.toList) :
    (path.push name).components = path.components ++ [name] := by
  rw [StoragePath.push, components_ofString, segments_eq_singleton h.2 h.1]

theorem expandFolder_eq {item : List String × StoragePath} (h : Storable objects)
    (hvalid : item.2.components.all validComponent = true) :
    expandFolder (onDisk objects) item =
      .ok (folderShows objects item, folderNext objects item) := by
  obtain ⟨segments, path⟩ := item
  unfold expandFolder
  by_cases hdir : IsDirectory objects.keys path.components
  · rw [openFolder_of_directory h hdir]
    refine collectFolder_eq ?_
    rintro ⟨name, isFile⟩ hentry
    cases isFile with
    | true => rfl
    | false =>
      obtain ⟨hchild, -⟩ := mem_folder_directory_iff.mp hentry
      rw [collectEntry]
      by_cases hmanifests : name = "manifests"
      · subst hmanifests
        have hpush : (path.push "manifests").components = path.components ++ ["manifests"] :=
          components_push (by decide)
        rw [if_pos rfl, openFolder_of_directory h (hpush.symm ▸ hchild), hpush]
        simp
      grind
  · rw [openFolder_of_not_directory hvalid hdir]
    unfold folderShows folderNext
    rw [folder_eq_nil hdir]
    rfl

/-- The queue's item for the image name `segments`. -/
def folderItem (segments : List String) : List String × StoragePath :=
  (segments, segments.foldl StoragePath.push (.ofString "v2"))

theorem components_folderItem (h : AreNames segments) :
    (folderItem segments).2.components = "v2" :: segments := by
  have hfold : ∀ path : StoragePath, (segments.foldl StoragePath.push path).components =
      path.components ++ segments := by
    intro path
    induction segments generalizing path with
    | nil => exact (List.append_nil _).symm
    | cons a segments ih =>
      rw [List.foldl_cons, ih h.tail, components_push h.head, List.append_assoc,
        List.singleton_append]
  rw [folderItem, hfold]
  rfl

theorem folderItem_concat (segments : List String) (name : String) :
    folderItem (segments ++ [name]) =
      (segments ++ [name], (folderItem segments).2.push name) := by
  rw [folderItem, folderItem, List.foldl_append]
  rfl

theorem mem_folderNext_iff (h : AreNames segments) {c : List String × StoragePath} :
    c ∈ folderNext objects (folderItem segments) ↔ ∃ name, EntersFolder name ∧
      IsDirectory objects.keys (["v2"] ++ (segments ++ [name])) ∧
        c = folderItem (segments ++ [name]) := by
  rw [folderNext, components_folderItem h, List.mem_flatMap]
  constructor
  · rintro ⟨⟨name, isFile⟩, hentry, hc⟩
    split_ifs at hc with henters
    · obtain ⟨rfl, hmanifests, hinternal⟩ := henters
      obtain ⟨hdir, hshown⟩ := mem_folder_directory_iff.mp hentry
      refine ⟨name, ⟨hmanifests, hinternal, hshown⟩, hdir, ?_⟩
      rw [folderItem_concat]
      exact List.mem_singleton.mp hc
    · exact absurd hc List.not_mem_nil
  · rintro ⟨name, ⟨hmanifests, hinternal, hshown⟩, hdir, rfl⟩
    refine ⟨(name, false), mem_folder_directory_iff.mpr ⟨hdir, hshown⟩, ?_⟩
    rw [if_pos ⟨rfl, hmanifests, hinternal⟩, folderItem_concat]
    exact List.mem_singleton_self _

structure IsTag (name : String) : Prop where
  not_sidecar : endsWith ".nr-docker-tagmeta" name = false
  shown : isHiddenFile name = false

theorem mem_folderShows_iff (h : AreNames segments) :
    e ∈ folderShows objects (folderItem segments) ↔ ∃ n, IsTag n ∧
      ["v2"] ++ (segments ++ ["manifests", n]) ∈ objects.keys ∧
        e = ⟨"/".intercalate segments, n⟩ := by
  rw [folderShows, components_folderItem h, List.mem_flatMap]
  constructor
  · rintro ⟨⟨name, isFile⟩, hentry, he⟩
    split_ifs at he with hmanifests
    · obtain ⟨rfl, rfl⟩ := hmanifests
      obtain ⟨⟨n, isManifest⟩, hn, hshown⟩ := List.mem_filterMap.mp he
      split_ifs at hshown with hskip
      rw [Bool.or_eq_true, not_or, Bool.not_eq_true, Bool.not_eq_true, Bool.not_eq_false'] at hskip
      obtain ⟨hsidecar, rfl⟩ := hskip
      obtain ⟨hkey, hvisible⟩ := mem_folder_file_iff.mp hn
      refine ⟨n, ⟨hsidecar, hvisible⟩, ?_, (Option.some.inj hshown).symm⟩
      rwa [List.append_assoc] at hkey
    · exact absurd he List.not_mem_nil
  · rintro ⟨n, htag, hkey, rfl⟩
    have hfile : "v2" :: segments ++ ["manifests"] ++ [n] ∈ objects.keys := by
      rwa [List.append_assoc]
    have hdir : IsDirectory objects.keys ("v2" :: segments ++ ["manifests"]) :=
      ⟨[n], List.cons_ne_nil _ _, hfile⟩
    refine ⟨("manifests", false), mem_folder_directory_iff.mpr ⟨hdir, by decide⟩, ?_⟩
    rw [if_pos ⟨rfl, rfl⟩]
    refine List.mem_filterMap.mpr ⟨(n, true), mem_folder_file_iff.mpr ⟨hfile, htag.shown⟩, ?_⟩
    simp [htag.not_sidecar, folderItem]

theorem exists_length_le (keys : List (List String)) : ∃ bound, ∀ key ∈ keys, key.length ≤ bound :=
  ⟨(keys.map List.length).sum, fun _ hkey =>
    List.single_le_sum (fun _ _ => Nat.zero_le _) _ (List.mem_map_of_mem hkey)⟩

theorem exists_walk_onDisk (h : Storable objects) :
    ∃ fuel entries, walkManifestEntries fuel (onDisk objects) = some (.ok entries) ∧
      ∀ e, e ∈ entries ↔ ∃ segments n, ["v2"] ++ (segments ++ ["manifests", n]) ∈ objects.keys ∧
        (∀ s ∈ segments, EntersFolder s) ∧ IsTag n ∧ e = ⟨"/".intercalate segments, n⟩ := by
  have hnames : ∀ segments, (segments = [] ∨ IsDirectory objects.keys (["v2"] ++ segments)) →
      AreNames segments := by
    rintro segments (rfl | hdir)
    · exact fun _ hs => absurd hs List.not_mem_nil
    · exact (areNames_append.mp (h.names_of_directory hdir)).2
  have hbelow : ∀ a, a ∈ Below (folderNext objects) [folderItem []] ↔ ∃ segments,
      (segments = [] ∨ IsDirectory objects.keys (["v2"] ++ segments)) ∧
        (∀ s ∈ segments, EntersFolder s) ∧ a = folderItem segments := fun a =>
    mem_below_directories_iff fun segments hdir c => mem_folderNext_iff (hnames segments hdir)
  have hexpand : ∀ a ∈ Below (folderNext objects) [folderItem []],
      expandFolder (onDisk objects) a = .ok (folderShows objects a, folderNext objects a) := by
    intro a ha
    obtain ⟨segments, hdir, -, rfl⟩ := (hbelow a).mp ha
    refine expandFolder_eq h ?_
    rw [components_folderItem (hnames segments hdir), List.all_eq_true]
    rcases hdir with rfl | hdir
    · decide
    · exact h.valid_of_directory hdir
  obtain ⟨bound, hbound⟩ := exists_length_le objects.keys
  have hrank : ∀ a ∈ Below (folderNext objects) [folderItem []], ∀ c ∈ folderNext objects a,
      bound - c.1.length < bound - a.1.length := by
    intro a ha c hc
    obtain ⟨segments, hdir, -, rfl⟩ := (hbelow a).mp ha
    obtain ⟨name, -, ⟨rest, -, hkey⟩, rfl⟩ := (mem_folderNext_iff (hnames segments hdir)).mp hc
    have hlength := hbound _ hkey
    simp only [List.length_append, List.length_singleton] at hlength
    simp only [folderItem, List.length_append, List.length_singleton]
    omega
  obtain ⟨fuel, entries, hwalk, hentries⟩ :=
    exists_breadthFirst (fun a => bound - a.1.length) hexpand hrank
  refine ⟨fuel, entries, hwalk, fun e => ?_⟩
  rw [hentries]
  constructor
  · rintro ⟨a, ha, he⟩
    obtain ⟨segments, hdir, henters, rfl⟩ := (hbelow a).mp ha
    obtain ⟨n, htag, hkey, rfl⟩ := (mem_folderShows_iff (hnames segments hdir)).mp he
    exact ⟨segments, n, hkey, henters, htag, rfl⟩
  · rintro ⟨segments, n, hkey, henters, htag, rfl⟩
    have hdir : IsDirectory objects.keys (["v2"] ++ segments) := by
      refine ⟨["manifests", n], List.cons_ne_nil _ _, ?_⟩
      rwa [List.append_assoc]
    refine ⟨folderItem segments, (hbelow _).mpr ⟨segments, .inr hdir, henters, rfl⟩, ?_⟩
    exact (mem_folderShows_iff (hnames segments (.inr hdir))).mpr ⟨n, htag, hkey, rfl⟩

/-! ### The walk on S3 -/

/-- A common prefix that the walk on S3 descends into, by its last name. -/
structure EntersPrefix (name : String) : Prop where
  not_internal : (endsWith "blobs" name || endsWith "uploads" name || endsWith "_uploads" name) =
    false
  not_manifests : endsWith "manifests" name = false

/-- A common prefix below which the walk lists the keys. -/
structure ListsPrefix (name : String) : Prop where
  not_internal : (endsWith "blobs" name || endsWith "uploads" name || endsWith "_uploads" name) =
    false
  manifests : endsWith "manifests" name = true

/-- The queue's item for the directory of an image name. -/
def prefixItem (segments : List String) : String := String.ofList (dirText ("v2" :: segments))

theorem areNames_v2 (h : AreNames segments) : AreNames ("v2" :: segments) :=
  areNames_cons.mpr ⟨by decide, h⟩

theorem toList_keyText (key : List String) : (keyText key).toList = joined key := rfl

theorem startsWith_dirText_iff {key : List String} (hdir : AreNames dir) (hkey : AreNames key)
    (hne : dir ≠ []) : startsWith (String.ofList (dirText dir)) (keyText key) = true ↔
      ∃ rest, rest ≠ [] ∧ key = dir ++ rest := by
  rw [startsWith_iff, String.toList_ofList, toList_keyText, dirText_prefix_iff_of_ne hdir hkey hne]

theorem endsWith_dirText {word : String} (hword : '/' ∉ word.toList) (dir : List String)
    (name : String) :
    endsWith (word ++ "/") (String.ofList (dirText (dir ++ [name]))) = endsWith word name := by
  have hslash : (word ++ "/").toList = word.toList ++ ['/'] := String.toList_append
  rw [Bool.eq_iff_iff, endsWith, endsWith, List.isSuffixOf_iff_suffix, List.isSuffixOf_iff_suffix,
    String.toList_ofList, hslash, suffix_dirText_iff hword]

theorem mem_commonPrefixes_iff (h : ∀ key ∈ objects.keys, AreNames key)
    (hdir : AreNames dir) (hne : dir ≠ []) {p : String} :
    p ∈ commonPrefixes (objects.keys.map keyText) (String.ofList (dirText dir)) ↔
      ∃ name, IsDirectory objects.keys (dir ++ [name]) ∧
        p = String.ofList (dirText (dir ++ [name])) := by
  have htext : ∀ name : String, String.ofList (dirText dir) ++ String.ofList name.toList ++ "/" =
      String.ofList (dirText (dir ++ [name])) := by
    intro name
    refine String.toList_injective ?_
    simp [dirText_append]
  rw [commonPrefixes, List.mem_dedup, List.mem_filterMap]
  constructor
  · rintro ⟨text, htexts, hp⟩
    obtain ⟨key, hkey, rfl⟩ := List.mem_map.mp htexts
    split_ifs at hp with hstarts
    obtain ⟨rest, hrest, rfl⟩ := (startsWith_dirText_iff hdir (h key hkey) hne).mp hstarts
    obtain ⟨name, tail, rfl⟩ := List.exists_cons_of_ne_nil hrest
    have hnames := (areNames_append.mp (h _ hkey)).2
    rw [toList_keyText, joined_append dir hrest, String.length_ofList, List.drop_left,
      splitOnce_slash hnames] at hp
    by_cases htail : tail = []
    · rw [if_pos htail] at hp
      cases hp
    · rw [if_neg htail] at hp
      refine ⟨name, ⟨tail, htail, by rwa [List.append_assoc]⟩, ?_⟩
      rw [← htext]
      exact (Option.some.inj hp).symm
  · rintro ⟨name, ⟨tail, htail, hkey⟩, rfl⟩
    rw [List.append_assoc, List.singleton_append] at hkey
    refine ⟨_, List.mem_map_of_mem hkey, ?_⟩
    have hnames := (areNames_append.mp (h _ hkey)).2
    have hstarts := (startsWith_dirText_iff hdir (h _ hkey) hne).mpr
      ⟨_, List.cons_ne_nil name tail, rfl⟩
    simp_all [toList_keyText, joined_append, List.cons_ne_nil, String.length_ofList,
      splitOnce_slash]

theorem mem_commonPrefixes_item_iff (h : ∀ key ∈ objects.keys, AreNames key)
    (hsegments : AreNames segments) {p : String} :
    p ∈ commonPrefixes (objects.keys.map keyText) (prefixItem segments) ↔ ∃ name,
      IsDirectory objects.keys (["v2"] ++ (segments ++ [name])) ∧
        p = prefixItem (segments ++ [name]) :=
  mem_commonPrefixes_iff h (areNames_v2 hsegments) (List.cons_ne_nil _ _)

theorem endsWith_internal (segments : List String) (name : String) :
    (endsWith "blobs/" (prefixItem (segments ++ [name])) ||
      endsWith "uploads/" (prefixItem (segments ++ [name])) ||
        endsWith "_uploads/" (prefixItem (segments ++ [name]))) =
    (endsWith "blobs" name || endsWith "uploads" name || endsWith "_uploads" name) := by
  have hend : ∀ word : String, '/' ∉ word.toList →
      endsWith (word ++ "/") (prefixItem (segments ++ [name])) = endsWith word name :=
    fun word hword => endsWith_dirText hword ("v2" :: segments) name
  grind

theorem endsWith_manifests (segments : List String) (name : String) :
    endsWith "manifests/" (prefixItem (segments ++ [name])) = endsWith "manifests" name := by
  have hend := @endsWith_dirText "manifests" (by decide) ("v2" :: segments) name
  exact hend

theorem mem_prefixNext_iff (h : ∀ key ∈ objects.keys, AreNames key) (hsegments : AreNames segments)
    {c : String} :
    c ∈ (expandPrefix (objects.keys.map keyText) (prefixItem segments)).2 ↔ ∃ name,
      EntersPrefix name ∧ IsDirectory objects.keys (["v2"] ++ (segments ++ [name])) ∧
        c = prefixItem (segments ++ [name]) := by
  rw [expandPrefix, List.mem_filter, List.mem_filter, mem_commonPrefixes_item_iff h hsegments]
  constructor
  · rintro ⟨⟨⟨name, hdir, rfl⟩, hinternal⟩, hmanifests⟩
    rw [endsWith_internal, Bool.not_eq_true'] at hinternal
    rw [endsWith_manifests, Bool.not_eq_true'] at hmanifests
    exact ⟨name, ⟨hinternal, hmanifests⟩, hdir, rfl⟩
  · rintro ⟨name, ⟨hinternal, hmanifests⟩, hdir, rfl⟩
    rw [endsWith_internal, Bool.not_eq_true', endsWith_manifests, Bool.not_eq_true']
    exact ⟨⟨⟨name, hdir, rfl⟩, hinternal⟩, hmanifests⟩

theorem mem_prefixShows_iff (h : ∀ key ∈ objects.keys, AreNames key) (hsegments : AreNames segments)
    {text : String} :
    text ∈ (expandPrefix (objects.keys.map keyText) (prefixItem segments)).1 ↔
      ∃ name rest, ListsPrefix name ∧ rest ≠ [] ∧
        ["v2"] ++ (segments ++ name :: rest) ∈ objects.keys ∧
          text = keyText ("v2" :: (segments ++ name :: rest)) ∧ isHiddenKey text = false := by
  rw [expandPrefix, List.mem_flatMap]
  constructor
  · rintro ⟨p, hp, htext⟩
    rw [List.mem_filter, List.mem_filter, mem_commonPrefixes_item_iff h hsegments] at hp
    obtain ⟨⟨⟨name, hdir, rfl⟩, hinternal⟩, hmanifests⟩ := hp
    rw [endsWith_internal, Bool.not_eq_true'] at hinternal
    rw [endsWith_manifests] at hmanifests
    obtain ⟨hkeys, hkept⟩ := List.mem_filter.mp htext
    obtain ⟨hstarts, hshown⟩ := (Bool.and_eq_true _ _).mp hkept
    obtain ⟨key, hkey, rfl⟩ := List.mem_map.mp hkeys
    have hnames : AreNames ("v2" :: segments ++ [name]) := by
      obtain ⟨tail, -, hbelow⟩ := hdir
      exact (areNames_append.mp (h _ hbelow)).1
    obtain ⟨rest, hrest, rfl⟩ :=
      (startsWith_dirText_iff hnames (h key hkey) (List.cons_ne_nil _ _)).mp hstarts
    rw [List.append_assoc, List.singleton_append] at hkey hshown ⊢
    exact ⟨name, rest, ⟨hinternal, hmanifests⟩, hrest, hkey, rfl, (Bool.not_eq_true' _).mp hshown⟩
  · rintro ⟨name, rest, ⟨hinternal, hmanifests⟩, hrest, hkey, rfl, hshown⟩
    have hsplit : "v2" :: segments ++ name :: rest = "v2" :: segments ++ [name] ++ rest := by simp
    have hkey' : "v2" :: segments ++ [name] ++ rest ∈ objects.keys := hsplit ▸ hkey
    refine ⟨prefixItem (segments ++ [name]), ?_, ?_⟩
    · rw [List.mem_filter, List.mem_filter, mem_commonPrefixes_item_iff h hsegments,
        endsWith_internal, Bool.not_eq_true', endsWith_manifests]
      exact ⟨⟨⟨name, ⟨rest, hrest, hkey'⟩, rfl⟩, hinternal⟩, hmanifests⟩
    · have hnames := (areNames_append.mp (h _ hkey')).1
      refine List.mem_filter.mpr ⟨List.mem_map_of_mem hkey, ?_⟩
      rw [hshown, Bool.not_false, Bool.and_true]
      exact (startsWith_dirText_iff hnames (h _ hkey) (List.cons_ne_nil _ _)).mpr
        ⟨rest, hrest, hsplit⟩

/-- The walk on S3 ends, and lists the keys below the first directory that ends with `manifests`. -/
theorem exists_walk_s3 (h : ∀ key ∈ objects.keys, AreNames key) (staging : Objects) :
    ∃ fuel entries, walkManifestEntries fuel ⟨.s3, objects, staging⟩ = some (.ok entries) ∧
      ∀ e, e ∈ entries ↔ ∃ segments name rest,
        ["v2"] ++ (segments ++ name :: rest) ∈ objects.keys ∧ rest ≠ [] ∧
          (∀ s ∈ segments, EntersPrefix s) ∧ ListsPrefix name ∧
          isHiddenKey (keyText ("v2" :: (segments ++ name :: rest))) = false ∧
          manifestEntryOf (keyText ("v2" :: (segments ++ name :: rest))) = some e := by
  set keys := objects.keys.map keyText with hkeys
  have hnames : ∀ segments, (segments = [] ∨ IsDirectory objects.keys (["v2"] ++ segments)) →
      AreNames segments := by
    rintro segments (rfl | ⟨rest, -, hkey⟩)
    · exact fun _ hs => absurd hs List.not_mem_nil
    · exact (areNames_append.mp (areNames_append.mp (h _ hkey)).1).2
  have hbelow : ∀ a, a ∈ Below (fun dir => (expandPrefix keys dir).2) [prefixItem []] ↔
      ∃ segments, (segments = [] ∨ IsDirectory objects.keys (["v2"] ++ segments)) ∧
        (∀ s ∈ segments, EntersPrefix s) ∧ a = prefixItem segments := fun a =>
    mem_below_directories_iff fun segments hdir c => mem_prefixNext_iff h (hnames segments hdir)
  obtain ⟨bound, hbound⟩ : ∃ bound, ∀ key ∈ objects.keys, (joined key).length ≤ bound := by
    refine ⟨(objects.keys.map fun key => (joined key).length).sum, fun key hkey => ?_⟩
    simp_all [List.single_le_sum, List.mem_map_of_mem, joined]
  have hrank : ∀ a ∈ Below (fun dir => (expandPrefix keys dir).2) [prefixItem []],
      ∀ c ∈ (expandPrefix keys a).2, bound - c.length < bound - a.length := by
    intro a ha c hc
    obtain ⟨segments, hdir, -, rfl⟩ := (hbelow a).mp ha
    obtain ⟨name, -, ⟨rest, hrest, hkey⟩, rfl⟩ :=
      (mem_prefixNext_iff h (hnames segments hdir)).mp hc
    have hlength := hbound _ hkey
    have hchild : (prefixItem (segments ++ [name])).length ≤
        (joined (["v2"] ++ (segments ++ [name]) ++ rest)).length := by
      rw [joined_append _ hrest, List.length_append, prefixItem, String.length_ofList]
      exact Nat.le_add_right _ _
    have hparent : (prefixItem segments).length < (prefixItem (segments ++ [name])).length := by
      rw [prefixItem, prefixItem, String.length_ofList, String.length_ofList, ← List.cons_append,
        dirText_append]
      simp
    omega
  obtain ⟨fuel, found, hwalk, hfound⟩ :=
    @exists_breadthFirst _ _ StorageError _ (fun dir => (expandPrefix keys dir).1) _
      (fun a => bound - a.length) _ (fun a _ => rfl) hrank
  have hv2 : prefixItem [] = "v2/" := by decide
  refine ⟨fuel, found.filterMap manifestEntryOf, ?_, fun e => ?_⟩
  · rw [hv2] at hwalk
    exact congrArg (Option.map (Except.map fun found => found.filterMap manifestEntryOf)) hwalk
  · rw [List.mem_filterMap]
    constructor
    · rintro ⟨text, htext, hentry⟩
      obtain ⟨a, ha, hshown⟩ := (hfound text).mp htext
      obtain ⟨segments, hdir, henters, rfl⟩ := (hbelow a).mp ha
      obtain ⟨name, rest, hlists, hrest, hkey, rfl, hvisible⟩ :=
        (mem_prefixShows_iff h (hnames segments hdir)).mp hshown
      exact ⟨segments, name, rest, hkey, hrest, henters, hlists, hvisible, hentry⟩
    · rintro ⟨segments, name, rest, hkey, hrest, henters, hlists, hvisible, hentry⟩
      have hdir : segments = [] ∨ IsDirectory objects.keys (["v2"] ++ segments) := by
        refine .inr ⟨name :: rest, List.cons_ne_nil _ _, ?_⟩
        rwa [List.append_assoc]
      refine ⟨_, (hfound _).mpr ⟨_, (hbelow _).mpr ⟨segments, hdir, henters, rfl⟩, ?_⟩, hentry⟩
      exact (mem_prefixShows_iff h (hnames segments hdir)).mpr
        ⟨name, rest, hlists, hrest, hkey, rfl, hvisible⟩

/-! ### The listed objects -/

theorem localEntry_manifests : localEntry before ("manifests" :: rest) = some e ↔
      ∃ n, rest = [n] ∧ IsTag n ∧ e = ⟨"/".intercalate before, n⟩ := by
  rcases rest with _ | ⟨n, _ | ⟨next, rest⟩⟩
  · simp [localEntry]
  · rw [localEntry]
    split_ifs with hskip
    · rw [Bool.or_eq_true] at hskip
      refine iff_of_false (by simp) ?_
      rintro ⟨m, hm, ⟨hsidecar, hshown⟩, -⟩
      obtain ⟨rfl, -⟩ := List.cons.inj hm
      rw [hsidecar, hshown] at hskip
      simp at hskip
    · rw [Bool.or_eq_true, not_or, Bool.not_eq_true, Bool.not_eq_true] at hskip
      constructor
      · intro h
        exact ⟨n, rfl, ⟨hskip.1, hskip.2⟩, (Option.some.inj h).symm⟩
      · rintro ⟨m, hm, -, rfl⟩
        rw [(List.cons.inj hm).1]
  · simp [localEntry]

theorem localEntry_cons (hname : name ≠ "manifests")
    (hrest : rest ≠ []) : localEntry before (name :: rest) = some e ↔
      EntersFolder name ∧ localEntry (before ++ [name]) rest = some e := by
  obtain ⟨next, rest, rfl⟩ := List.exists_cons_of_ne_nil hrest
  rw [localEntry]
  · split_ifs with hskip
    · refine iff_of_false (by simp) ?_
      rintro ⟨⟨-, hinternal, hshown⟩, -⟩
      grind
    · simp only [not_or, Bool.not_eq_true] at hskip
      refine (and_iff_right ⟨hname, ?_, hskip.2.2.2⟩).symm
      rw [not_or, not_or]
      exact ⟨hskip.1, hskip.2.1, hskip.2.2.1⟩
  · exact hname

theorem localEntry_eq_some_iff :
    localEntry before relative = some e ↔ ∃ segments n, relative = segments ++ ["manifests", n] ∧
      (∀ s ∈ segments, EntersFolder s) ∧ IsTag n ∧
        e = ⟨"/".intercalate (before ++ segments), n⟩ := by
  induction relative generalizing before with
  | nil => simp [localEntry]
  | cons name rest ih =>
    by_cases hmanifests : name = "manifests"
    · subst hmanifests
      rw [localEntry_manifests]
      constructor
      · simp_all
      · rintro ⟨segments, n, heq, henters, htag, rfl⟩
        cases segments with
        | nil => exact ⟨n, (List.cons.inj heq).2, htag, by rw [List.append_nil]⟩
        | cons s segments =>
          obtain ⟨rfl, -⟩ := List.cons.inj heq
          exact absurd rfl (henters _ List.mem_cons_self).not_manifests
    · by_cases hrest : rest = []
      · subst hrest
        refine iff_of_false (by simp [localEntry, hmanifests]) ?_
        rintro ⟨segments, n, heq, -⟩
        have hlength := congrArg List.length heq
        simp at hlength
      · rw [localEntry_cons hmanifests hrest, ih]
        constructor
        · grind
        · rintro ⟨segments, n, heq, henters, htag, rfl⟩
          cases segments with
          | nil => exact absurd (List.cons.inj heq).1 hmanifests
          | cons s segments =>
            grind

theorem s3Listed_cons (hrest : rest ≠ []) : s3Listed (name :: rest) = true ↔
    ListsPrefix name ∨ EntersPrefix name ∧ s3Listed rest = true := by
  obtain ⟨next, rest, rfl⟩ := List.exists_cons_of_ne_nil hrest
  rw [s3Listed]
  split_ifs with hinternal
  · refine iff_of_false (by simp) ?_
    rintro (⟨hnot, -⟩ | ⟨⟨hnot, -⟩, -⟩)
    · rw [hinternal] at hnot
      cases hnot
    · rw [hinternal] at hnot
      cases hnot
  · rw [Bool.not_eq_true] at hinternal
    cases hmanifests : endsWith "manifests" name with
    | true => exact iff_of_true (Bool.true_or _) (.inl ⟨hinternal, hmanifests⟩)
    | false =>
      rw [Bool.false_or]
      constructor
      · exact fun h => .inr ⟨⟨hinternal, hmanifests⟩, h⟩
      · rintro (⟨-, hends⟩ | ⟨-, h⟩)
        · rw [hmanifests] at hends
          cases hends
        · exact h

theorem s3Listed_iff : s3Listed relative = true ↔
    ∃ segments name rest, relative = segments ++ name :: rest ∧ rest ≠ [] ∧
      (∀ s ∈ segments, EntersPrefix s) ∧ ListsPrefix name := by
  induction relative with
  | nil => simp [s3Listed]
  | cons name rest ih =>
    by_cases hrest : rest = []
    · subst hrest
      refine iff_of_false (by simp [s3Listed]) ?_
      rintro ⟨segments, s, tail, heq, htail, -⟩
      have hlength := congrArg List.length heq
      have hpos := List.length_pos_iff.mpr htail
      simp at hlength
      omega
    · rw [s3Listed_cons hrest, ih]
      constructor
      · rintro (hlists | ⟨henters, segments, s, tail, rfl, htail, hsegments, hlists⟩)
        · exact ⟨[], name, rest, rfl, hrest, fun _ hs => absurd hs List.not_mem_nil, hlists⟩
        grind
      · rintro ⟨segments, s, tail, heq, htail, hsegments, hlists⟩
        cases segments with
        | nil =>
          obtain ⟨rfl, rfl⟩ := List.cons.inj heq
          exact .inl hlists
        | cons a segments =>
          grind

theorem startsWith_keyText (hne : relative ≠ []) :
    startsWith "v2/" (keyText ("v2" :: relative)) = true ∧
      (keyText ("v2" :: relative)).toList.drop 3 = joined relative := by
  grind [keyText, joined, toList_keyText, joined_cons, startsWith_iff, List.prefix_append,
    List.drop_left']

theorem s3Entry_eq (hne : relative ≠ []) : s3Entry relative =
    if s3Listed relative && !isHiddenKey (keyText ("v2" :: relative)) then
      manifestEntryOf (keyText ("v2" :: relative)) else none := by
  obtain ⟨hstarts, hdrop⟩ := startsWith_keyText hne
  rw [s3Entry, manifestEntryOf, if_pos hstarts, hdrop]
  rfl

theorem manifestEntryOf_eq_some_iff (h : AreNames relative) (hne : relative ≠ []) :
    manifestEntryOf (keyText ("v2" :: relative)) = some e ↔ ∃ segments rest,
      cutAt "manifests" relative = some (segments, rest) ∧
        endsWith ".nr-docker-tagmeta" ("/".intercalate rest) = false ∧
          e = ⟨"/".intercalate segments, "/".intercalate rest⟩ := by
  obtain ⟨hstarts, hdrop⟩ := startsWith_keyText hne
  have hmark : "/manifests/".toList = '/' :: ("manifests".toList ++ ['/']) := by decide
  rw [manifestEntryOf, if_pos hstarts, hdrop, hmark, splitOnce_joined (by decide) h]
  cases hcut : cutAt "manifests" relative with
  | none => simp
  | some r =>
    obtain ⟨segments, rest⟩ := r
    obtain ⟨rfl, hsegments, hrest, -⟩ := cutAt_eq_some_iff.mp hcut
    obtain ⟨hfront, hback⟩ := areNames_append.mp h
    have hsegments' := joined_ne_nil hfront hsegments
    have hrest' := joined_ne_nil hback.tail hrest
    have htext : ∀ names, String.ofList (joined names) = "/".intercalate names :=
      fun names => String.ofList_toList
    grind

theorem s3Entry_eq_some_iff (h : AreNames relative) (hne : relative ≠ [])
    : s3Entry relative = some e ↔ s3Listed relative = true ∧
      isHiddenKey (keyText ("v2" :: relative)) = false ∧ ∃ segments rest,
        cutAt "manifests" relative = some (segments, rest) ∧
          endsWith ".nr-docker-tagmeta" ("/".intercalate rest) = false ∧
            e = ⟨"/".intercalate segments, "/".intercalate rest⟩ := by
  grind [s3Entry_eq, manifestEntryOf_eq_some_iff, s3Listed, isHiddenKey, keyText]

theorem exists_walk_local (h : Storable objects) :
    ∃ fuel entries, walkManifestEntries fuel (onDisk objects) = some (.ok entries) ∧
      ∀ e, e ∈ entries ↔ ∃ relative, "v2" :: relative ∈ objects.keys ∧
        localEntry [] relative = some e := by
  obtain ⟨fuel, entries, hwalk, hentries⟩ := exists_walk_onDisk h
  refine ⟨fuel, entries, hwalk, fun e => ?_⟩
  rw [hentries]
  constructor
  · rintro ⟨segments, n, hkey, henters, htag, rfl⟩
    exact ⟨_, hkey, localEntry_eq_some_iff.mpr ⟨segments, n, rfl, henters, htag, rfl⟩⟩
  · rintro ⟨relative, hkey, hentry⟩
    obtain ⟨segments, n, rfl, henters, htag, rfl⟩ := localEntry_eq_some_iff.mp hentry
    exact ⟨segments, n, hkey, henters, htag, rfl⟩

theorem exists_walk_bucket (h : ∀ key ∈ objects.keys, AreNames key) (staging : Objects) :
    ∃ fuel entries, walkManifestEntries fuel ⟨.s3, objects, staging⟩ = some (.ok entries) ∧
      ∀ e, e ∈ entries ↔ ∃ relative, "v2" :: relative ∈ objects.keys ∧
        s3Entry relative = some e := by
  obtain ⟨fuel, entries, hwalk, hentries⟩ := exists_walk_s3 h staging
  refine ⟨fuel, entries, hwalk, fun e => ?_⟩
  rw [hentries]
  constructor
  · rintro ⟨segments, name, rest, hkey, hrest, henters, hlists, hvisible, hentry⟩
    refine ⟨segments ++ name :: rest, hkey, ?_⟩
    have hlisted := s3Listed_iff.mpr ⟨segments, name, rest, rfl, hrest, henters, hlists⟩
    rw [s3Entry_eq (List.append_ne_nil_of_right_ne_nil segments (List.cons_ne_nil name rest)),
      hlisted, hvisible]
    exact hentry
  · rintro ⟨relative, hkey, hentry⟩
    have hne : relative ≠ [] := by
      rintro rfl
      cases hentry
    rw [s3Entry_eq hne] at hentry
    split_ifs at hentry with hkept
    rw [Bool.and_eq_true, Bool.not_eq_true'] at hkept
    obtain ⟨segments, name, rest, rfl, hrest, henters, hlists⟩ := s3Listed_iff.mp hkept.1
    exact ⟨segments, name, rest, hkey, hrest, henters, hlists, hkept.2, hentry⟩

/-! ### The result -/

def ListingsAgree (objects : Objects) : Prop :=
  ∃ fuel fuel' onDisk inBucket,
    walkManifestEntries fuel ⟨.local, objects, ∅⟩ = some (.ok onDisk) ∧
    walkManifestEntries fuel' ⟨.s3, objects, ∅⟩ = some (.ok inBucket) ∧
    ∀ e, e ∈ onDisk ↔ e ∈ inBucket

/-- An object is listed on both backends or on none: the manifest of an image is found on S3, and
what is found there is the manifest of an image. -/
structure SeenAlike (relative : List String) : Prop where
  found : ∀ segments n, relative = segments ++ ["manifests", n] → (∀ s ∈ segments, EntersFolder s) →
    IsTag n → segments ≠ [] ∧ s3Listed relative = true
  image : ∀ segments rest, cutAt "manifests" relative = some (segments, rest) →
    s3Listed relative = true → isHiddenKey (keyText ("v2" :: relative)) = false →
      endsWith ".nr-docker-tagmeta" ("/".intercalate rest) = false →
        (∀ s ∈ segments, EntersFolder s) ∧ ∃ n, rest = [n] ∧ IsTag n

theorem eq_of_entry {relative' : List String}
    (h : AreNames relative) (h' : AreNames relative') (hlocal : localEntry [] relative = some e)
    (hs3 : s3Entry relative' = some e) : relative = relative' := by
  have hne : relative' ≠ [] := by
    rintro rfl
    cases hs3
  obtain ⟨segments, n, rfl, -, -, rfl⟩ := localEntry_eq_some_iff.mp hlocal
  obtain ⟨-, -, segments', rest, hcut, -, heq⟩ := (s3Entry_eq_some_iff h' hne).mp hs3
  obtain ⟨rfl, -⟩ := cutAt_eq_some_iff.mp hcut
  obtain ⟨hfront, hback⟩ := areNames_append.mp h
  obtain ⟨hfront', hback'⟩ := areNames_append.mp h'
  obtain ⟨hrepository, hreference⟩ := ManifestEntry.mk.inj heq
  rw [List.nil_append] at hrepository
  have hsegments : segments = segments' :=
    joined_injective hfront hfront' (congrArg String.toList hrepository)
  have hrest : [n] = rest := by
    refine joined_injective hback.tail hback'.tail ?_
    rw [joined_singleton, hreference]
    rfl
  rw [hsegments, ← hrest]

theorem endsWith_keyText {word : String} (hword : '/' ∉ word.toList) (dir : List String)
    (last : String) : endsWith word (keyText (dir ++ [last])) = endsWith word last := by
  rw [Bool.eq_iff_iff, endsWith, endsWith, List.isSuffixOf_iff_suffix, List.isSuffixOf_iff_suffix,
    toList_keyText, suffix_joined_iff hword]

theorem not_isHiddenKey {n : String} (h : AreNames (segments ++ ["manifests", n]))
    (henters : ∀ s ∈ segments, EntersFolder s) (htag : IsTag n) :
    isHiddenKey (keyText ("v2" :: (segments ++ ["manifests", n]))) = false := by
  have hname : ∀ s, isHiddenFile s = false → endsWith ".nr-meta" s = false :=
    fun s hs => (Bool.or_eq_false_iff.mp hs).1
  have hsplit : "v2" :: (segments ++ ["manifests", n]) =
      ("v2" :: segments ++ ["manifests"]) ++ [n] := by simp
  have hpieces : pieces '/' (keyText ("v2" :: (segments ++ ["manifests", n]))) =
      "v2" :: (segments ++ ["manifests", n]) :=
    pieces_joined (areNames_v2 h) (List.cons_ne_nil _ _)
  have hshown : ∀ s ∈ "v2" :: (segments ++ ["manifests", n]), endsWith ".nr-meta" s = false := by
    intro s hs
    simp only [List.mem_cons, List.mem_append, List.not_mem_nil, or_false] at hs
    rcases hs with rfl | hs | rfl | rfl
    · decide
    · exact hname s (henters s hs).shown
    · decide
    · exact hname _ htag.shown
  rw [isHiddenKey, hpieces, hsplit, endsWith_keyText (by decide), hname n htag.shown, Bool.false_or,
    ← hsplit, List.any_eq_false]
  intro s hs heq
  have hfalse := hshown s hs
  rw [beq_iff_eq.mp heq] at hfalse
  revert hfalse
  decide

theorem seenAlike_iff (h : AreNames relative) :
    SeenAlike relative ↔ localEntry [] relative = s3Entry relative := by
  constructor
  · rintro ⟨hfound, himage⟩
    refine Option.ext fun e => ?_
    constructor
    · intro hlocal
      obtain ⟨segments, n, rfl, henters, htag, rfl⟩ := localEntry_eq_some_iff.mp hlocal
      obtain ⟨hsegments, hlisted⟩ := hfound segments n rfl henters htag
      have hcut : cutAt "manifests" (segments ++ ["manifests", n]) = some (segments, [n]) := by
        refine cutAt_eq_some_iff.mpr ⟨rfl, hsegments, List.cons_ne_nil _ _, fun hmem => ?_⟩
        exact (henters _ (List.mem_of_mem_tail hmem)).not_manifests rfl
      refine (s3Entry_eq_some_iff h (List.append_ne_nil_of_left_ne_nil hsegments _)).mpr
        ⟨hlisted, not_isHiddenKey h henters htag, segments, [n], hcut, ?_, ?_⟩
      · rw [String.intercalate_singleton]
        exact htag.not_sidecar
      · rw [String.intercalate_singleton, List.nil_append]
    · intro hs3
      have hne : relative ≠ [] := by
        rintro rfl
        cases hs3
      obtain ⟨hlisted, hshown, segments, rest, hcut, hsidecar, rfl⟩ :=
        (s3Entry_eq_some_iff h hne).mp hs3
      obtain ⟨henters, n, rfl, htag⟩ := himage segments rest hcut hlisted hshown hsidecar
      obtain ⟨rfl, -⟩ := cutAt_eq_some_iff.mp hcut
      refine localEntry_eq_some_iff.mpr ⟨segments, n, rfl, henters, htag, ?_⟩
      rw [String.intercalate_singleton, List.nil_append]
  · intro heq
    refine ⟨?_, ?_⟩
    · rintro segments n rfl henters htag
      have hlocal : localEntry [] (segments ++ ["manifests", n]) =
          some ⟨"/".intercalate segments, n⟩ :=
        localEntry_eq_some_iff.mpr ⟨segments, n, rfl, henters, htag, rfl⟩
      have hne : segments ++ ["manifests", n] ≠ [] :=
        List.append_ne_nil_of_right_ne_nil segments (List.cons_ne_nil _ _)
      obtain ⟨hlisted, -, segments', rest, hcut, -, hentry⟩ :=
        (s3Entry_eq_some_iff h hne).mp (heq ▸ hlocal)
      refine ⟨?_, hlisted⟩
      rintro rfl
      -- without an image name there is no name before the cut
      obtain ⟨hnames, hsegments', -⟩ := cutAt_eq_some_iff.mp hcut
      have hrepository := (ManifestEntry.mk.inj hentry).1
      have hfront := (areNames_append.mp (hnames ▸ h)).1
      exact joined_ne_nil hfront hsegments' (congrArg String.toList hrepository).symm
    · intro segments rest hcut hlisted hshown hsidecar
      have hne : relative ≠ [] := by
        rintro rfl
        cases hcut
      have hs3 := (s3Entry_eq_some_iff h hne).mpr
        ⟨hlisted, hshown, segments, rest, hcut, hsidecar, rfl⟩
      obtain ⟨segments', n, rfl, henters, htag, hentry⟩ :=
        localEntry_eq_some_iff.mp (heq.trans hs3)
      obtain ⟨hnames, -⟩ := cutAt_eq_some_iff.mp hcut
      have hsegments : segments = segments' := by
        have hfront := (areNames_append.mp h).1
        have hfront' := (areNames_append.mp (hnames ▸ h)).1
        exact joined_injective hfront' hfront
          (congrArg String.toList (ManifestEntry.mk.inj hentry).1)
      grind [List.cons.inj, List.append_cancel_left]

theorem walk_unique {st : DynStorage} {fuel fuel' : ℕ}
    {result result' : Except StorageError (List ManifestEntry)}
    (h : walkManifestEntries fuel st = some result)
    (h' : walkManifestEntries fuel' st = some result') : result = result' := by
  unfold walkManifestEntries at h h'
  cases hbackend : st.backend with
  | «local» =>
    rw [hbackend] at h h'
    exact breadthFirst_unique h h'
  | s3 =>
    rw [hbackend] at h h'
    obtain ⟨found, hfound, rfl⟩ := Option.map_eq_some_iff.mp h
    obtain ⟨found', hfound', rfl⟩ := Option.map_eq_some_iff.mp h'
    rw [breadthFirst_unique hfound hfound']

theorem ListingsAgree.seenAlike (hagree : ListingsAgree objects) (h : Storable objects)
    (hkey : "v2" :: relative ∈ objects.keys) : SeenAlike relative := by
  have hnames : ∀ relative, "v2" :: relative ∈ objects.keys → AreNames relative :=
    fun relative hkey => (h.names _ hkey).tail
  obtain ⟨fuel, onDisk, hdisk, hlocal⟩ := exists_walk_local h
  obtain ⟨fuel', inBucket, hbucket, hs3⟩ := exists_walk_bucket h.names ∅
  obtain ⟨_, _, onDisk', inBucket', hdisk', hbucket', hagree⟩ := hagree
  obtain rfl : onDisk' = onDisk := Except.ok.inj (walk_unique hdisk' hdisk)
  obtain rfl : inBucket' = inBucket := Except.ok.inj (walk_unique hbucket' hbucket)
  refine (seenAlike_iff (hnames relative hkey)).mpr (Option.ext fun e => ?_)
  constructor
  · intro hentry
    obtain ⟨relative', hkey', hentry'⟩ :=
      (hs3 e).mp ((hagree e).mp ((hlocal e).mpr ⟨relative, hkey, hentry⟩))
    rwa [eq_of_entry (hnames relative hkey) (hnames relative' hkey') hentry hentry']
  · intro hentry
    obtain ⟨relative', hkey', hentry'⟩ :=
      (hlocal e).mp ((hagree e).mpr ((hs3 e).mpr ⟨relative, hkey, hentry⟩))
    rwa [← eq_of_entry (hnames relative' hkey') (hnames relative hkey) hentry' hentry]

/-- **The listings of the backends**: for the objects that a local disk can hold they agree exactly
when each object is seen alike. -/
theorem listingsAgree_iff (objects : Objects) (h : Storable objects) :
    ListingsAgree objects ↔ ∀ relative, "v2" :: relative ∈ objects.keys → SeenAlike relative := by
  constructor
  · exact fun hagree relative hkey => hagree.seenAlike h hkey
  · intro hseen
    obtain ⟨fuel, onDisk, hdisk, hlocal⟩ := exists_walk_local h
    obtain ⟨fuel', inBucket, hbucket, hs3⟩ := exists_walk_bucket h.names ∅
    refine ⟨fuel, fuel', onDisk, inBucket, hdisk, hbucket, fun e => ?_⟩
    rw [hlocal, hs3]
    refine exists_congr fun relative => and_congr_right fun hkey => ?_
    rw [(seenAlike_iff (h.names _ hkey).tail).mp (hseen relative hkey)]

/-! ### Two images -/

def oneImage : Objects :=
  ((∅ : Objects).put ["v2", "app", "manifests", "latest"] [0x7b]).put
    ["v2", "app", "blobs", "sha256:aa"] [0xaa]

theorem mem_oneImage_iff {key : List String} : key ∈ oneImage.keys ↔
    key ∈ [["v2", "app", "blobs", "sha256:aa"], ["v2", "app", "manifests", "latest"]] := by
  rfl

theorem listingsAgree_oneImage : ListingsAgree oneImage := by
  have hstorable : Storable oneImage := by
    refine ⟨?_, ?_, ?_⟩
    · unfold AreNames
      decide
    · decide
    · decide
  refine (listingsAgree_iff oneImage hstorable).mpr fun relative hkey => ?_
  refine (seenAlike_iff (hstorable.names _ hkey).tail).mpr ?_
  rcases List.mem_pair.mp (mem_oneImage_iff.mp hkey) with h | h
  · obtain rfl := (List.cons.inj h).2
    decide
  · obtain rfl := (List.cons.inj h).2
    decide

/-- An image whose name ends with the name of an internal directory. -/
def namedBlobs : Objects := (∅ : Objects).put ["v2", "myblobs", "manifests", "latest"] [0x7b]

theorem not_listingsAgree_namedBlobs :
    ¬ ∀ objects : Objects, Storable objects → ListingsAgree objects := by
  intro h
  have hstorable : Storable namedBlobs := by
    refine ⟨?_, ?_, ?_⟩
    · unfold AreNames
      decide
    · decide
    · decide
  have hkey : ["v2", "myblobs", "manifests", "latest"] ∈ namedBlobs.keys := by decide
  have hseen := (h namedBlobs hstorable).seenAlike hstorable hkey
  have henters : ∀ s ∈ ["myblobs"], EntersFolder s := by
    intro s hs
    obtain rfl := List.mem_singleton.mp hs
    exact ⟨by decide, by decide, by decide⟩
  have htag : IsTag "latest" := ⟨by decide, by decide⟩
  have hlisted := (hseen.found ["myblobs"] "latest" rfl henters htag).2
  revert hlisted
  decide

end Pkgly.Docker
