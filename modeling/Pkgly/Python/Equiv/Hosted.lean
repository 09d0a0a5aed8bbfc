import Pkgly.Algorithm.Run
import Pkgly.Python.Hosted
import Pkgly.Storage.Equiv.DynStorage

/-!
# Uploads to a hosted Python repository are listed

A file is stored under the name that its upload spells, and its row under the name that
`normalize_package_name` makes of it; a page lists the directories of the rows.  The two agree for
the uploads that spell the name as PEP 503 normalizes it (`listable`).

`HostedOk` is what such uploads keep: every stored file has the rows of its project and of its
version, and the digest in a sidecar is that of the file, unless the file waits for the background
task.  `links_spec` computes the links of a page, each of which leads to its file (`target_link`,
`serveFile_fileUri`), and `uploads_listed` puts these together.
-/

namespace Pkgly.Python

variable {format : PythonFormat} {base : String}

/-! ### Names -/

/-- The characters between the words of a name. -/
def isSeparator (ch : Char) : Bool := ch == '-' || ch == '_' || ch == '.'

def isPep508Name (name : String) : Bool :=
  name.toList.all (fun ch => ch.isAlphanum || isSeparator ch) &&
    (name.toList.head?.any Char.isAlphanum && name.toList.getLast?.any Char.isAlphanum)

/-- Every run of separators becomes one hyphen; the mark says whether a run goes on. -/
def collapseRuns : Bool → List Char → List Char
  | _, [] => []
  | inRun, ch :: rest =>
    if isSeparator ch then
      if inRun then collapseRuns true rest else '-' :: collapseRuns true rest
    else ch :: collapseRuns false rest

/-- `re.sub(r"[-_.]+", "-", name).lower()`, as PEP 503 normalizes names. -/
def pep503 (name : String) : String :=
  String.ofList (collapseRuns false (toAsciiLowercase name).toList)

def hasNoRuns : List Char → Bool
  | ch :: ch' :: rest => !(isSeparator ch && isSeparator ch') && hasNoRuns (ch' :: rest)
  | _ => true

/-- The characters of a normalized name. -/
def isPlain (ch : Char) : Bool := ch.isLower || ch.isDigit || ch == '-'

/-- The names that a database with `CITEXT` keys tells apart: those in lower case that differ. -/
structure AsciiCollation extends Collation where
  eq_of_same : ∀ a b, a.toList.all isPlain = true → b.toList.all isPlain = true →
    same a b = true → a = b

/-- The hyphen that a separator becomes. -/
def normalizeChar (ch : Char) : Char := if ch = '-' ∨ ch = '_' ∨ ch = '.' then '-' else ch

variable {ch : Char} {project : DBProject} {content : Bytes} {path : StoragePath}

theorem normalizeChar_of_separator (h : isSeparator ch = true) : normalizeChar ch = '-' := by
  unfold isSeparator at h
  unfold normalizeChar
  rw [if_pos]
  simpa [or_assoc] using h

theorem normalizeChar_of_not_separator (h : isSeparator ch = false) : normalizeChar ch = ch := by
  unfold isSeparator at h
  unfold normalizeChar
  rw [if_neg]
  simpa [and_assoc, or_assoc] using h

theorem collapseRuns_of_hasNoRuns {name : List Char} (h : hasNoRuns name = true) (inRun : Bool)
    (hstart : inRun = true → ∀ ch ∈ name.head?, isSeparator ch = false) :
    collapseRuns inRun name = name.map normalizeChar := by
  induction name generalizing inRun with
  | nil => rfl
  | cons ch rest ih =>
    have hrest : hasNoRuns rest = true := by
      cases rest with
      | nil => rfl
      | cons ch' rest =>
        rw [hasNoRuns, Bool.and_eq_true] at h
        exact h.2
    rw [collapseRuns, List.map_cons]
    cases hsep : isSeparator ch with
    | true =>
      cases inRun with
      | true => exact absurd (hstart rfl ch rfl) (by simp [hsep])
      | false =>
        rw [if_pos rfl, if_neg Bool.false_ne_true, normalizeChar_of_separator hsep, ih hrest]
        rintro - ch' hch'
        cases rest with
        | nil => cases hch'
        | cons next rest =>
          obtain rfl := Option.some.inj hch'
          rw [hasNoRuns, hsep, Bool.true_and, Bool.and_eq_true] at h
          simpa using h.1
    | false =>
      rw [if_neg Bool.false_ne_true, normalizeChar_of_not_separator hsep, ih hrest]
      intro h
      cases h

theorem isSeparator_eq_false (h : ch.isAlphanum = true) : isSeparator ch = false := by
  unfold isSeparator
  aesop

theorem isSeparator_toLower (ch : Char) : isSeparator ch.toLower = isSeparator ch := by
  grind [toLower_cases, isSeparator_eq_false, Char.isAlphanum, isAlpha_eq]

theorem hasNoRuns_toLower (name : List Char) :
    hasNoRuns (name.map Char.toLower) = hasNoRuns name := by
  induction name with
  | nil => rfl
  | cons ch rest ih =>
    cases rest with
    | nil => rfl
    | cons ch' rest =>
      grind [hasNoRuns, isSeparator_toLower]

theorem toList_normalizePackageName (name : String) : (normalizePackageName name).toList =
    (toAsciiLowercase name).toList.map normalizeChar := by
  rw [normalizePackageName, String.toList_ofList]
  rfl

theorem normalizePackageName_eq {name : String} (h : hasNoRuns name.toList = true) :
    normalizePackageName name = pep503 name := by
  grind [String.toList_inj, toList_normalizePackageName, pep503, String.toList_ofList,
    collapseRuns_of_hasNoRuns, toAsciiLowercase, hasNoRuns_toLower]

theorem length_collapseRuns_le (name : List Char) (inRun : Bool) :
    (collapseRuns inRun name).length ≤ name.length := by
  induction name generalizing inRun with
  | nil => exact le_rfl
  | cons ch rest ih =>
    rw [collapseRuns, List.length_cons]
    grind

theorem map_normalizeChar_of_collapseRuns {name : List Char} {inRun : Bool}
    (h : collapseRuns inRun name = name) : name.map normalizeChar = name := by
  induction name generalizing inRun with
  | nil => rfl
  | cons ch rest ih =>
    rw [collapseRuns] at h
    split_ifs at h with hsep hrun
    · have hlength := congrArg List.length h
      have hle := length_collapseRuns_le rest true
      rw [List.length_cons] at hlength
      omega
    · aesop
    simp_all [List.map_cons, normalizeChar_of_not_separator, Bool.not_eq_true]

theorem mem_collapseRuns {name : List Char} {inRun : Bool}
    (h : ch ∈ collapseRuns inRun name) : ch = '-' ∨ ch ∈ name := by
  induction name generalizing inRun with
  | nil => cases h
  | cons a rest ih =>
    rw [collapseRuns] at h
    grind

theorem normalizePackageName_eq_self {name : String} (h : pep503 name = name) :
    normalizePackageName name = name := by
  have hcollapse : collapseRuns false (name.toList.map Char.toLower) = name.toList := by
    have hlist := congrArg String.toList h
    rwa [pep503, String.toList_ofList, toAsciiLowercase, String.toList_ofList] at hlist
  have hlower : name.toList.map Char.toLower = name.toList := by
    refine (List.map_congr_left fun ch hch => ?_).trans (List.map_id _)
    rw [← hcollapse] at hch
    rcases mem_collapseRuns hch with rfl | hch
    · decide
    · obtain ⟨a, -, rfl⟩ := List.mem_map.mp hch
      exact toLower_toLower a
  rw [hlower] at hcollapse
  rw [← String.toList_inj, toList_normalizePackageName, toAsciiLowercase, String.toList_ofList,
    hlower, map_normalizeChar_of_collapseRuns hcollapse]

theorem isPlain_normalizePackageName {name : String} (h : isPep508Name name = true) :
    (normalizePackageName name).toList.all isPlain = true := by
  rw [isPep508Name, Bool.and_eq_true] at h
  rw [toList_normalizePackageName, toAsciiLowercase, String.toList_ofList, List.map_map,
    List.all_map, List.all_eq_true]
  intro ch hch
  have hname := List.all_eq_true.mp h.1 ch hch
  rw [Function.comp_apply, Function.comp_apply]
  cases hsep : isSeparator ch with
  | true =>
    rw [normalizeChar_of_separator ((isSeparator_toLower ch).trans hsep)]
    decide
  | false =>
    rw [normalizeChar_of_not_separator ((isSeparator_toLower ch).trans hsep)]
    rw [hsep, Bool.or_false] at hname
    unfold isPlain
    rcases toLower_cases ch with ⟨-, hlower⟩ | ⟨hupper, heq⟩
    · rw [hlower, Bool.true_or, Bool.true_or]
    simp_all [Char.isAlphanum, isAlpha_eq, Bool.false_or]

/-! ### Reading sidecars -/

variable {s s' read : PythonHosted}

def PythonHosted.hash (format : PythonFormat) (s : PythonHosted) (key : List String) :
    Option String :=
  (s.readMeta format key).sidecars.get key

/-- What reading leaves: everything but the sidecars, of which there may be more. -/
structure Reads (format : PythonFormat) (s s' : PythonHosted) : Prop where
  storage : s'.storage = s.storage
  queue : s'.queue = s.queue
  catalogue : s'.catalogue = s.catalogue
  names : s'.names = s.names
  hash : ∀ key, s'.hash format key = s.hash format key

theorem Reads.refl (s : PythonHosted) : Reads format s s := ⟨rfl, rfl, rfl, rfl, fun _ => rfl⟩

theorem Reads.trans {s t u : PythonHosted} (h : Reads format s t) (h' : Reads format t u) :
    Reads format s u where
  storage := h'.storage.trans h.storage
  queue := h'.queue.trans h.queue
  catalogue := h'.catalogue.trans h.catalogue
  names := h'.names.trans h.names
  hash key := (h'.hash key).trans (h.hash key)

theorem readMeta_cases (format : PythonFormat) (s : PythonHosted) (key : List String) :
    s.readMeta format key = s ∨ s.storage.backend = .local ∧ s.sidecars.get key = none ∧
      ∃ content, s.storage.objects.get key = some content ∧ s.readMeta format key =
        { s with sidecars := s.sidecars.put key (format.digest content) } := by
  unfold PythonHosted.readMeta
  grind

theorem hash_of_sidecar {key : List String} {digest : String}
    (h : s.sidecars.get key = some digest) : s.hash format key = some digest := by
  grind [PythonHosted.hash, readMeta_cases]

theorem reads_readMeta (format : PythonFormat) (s : PythonHosted) (key : List String) :
    Reads format s (s.readMeta format key) := by
  rcases readMeta_cases format s key with heq | ⟨hbackend, hnone, content, hget, heq⟩
  · rw [heq]
    exact .refl s
  · refine ⟨by rw [heq], by rw [heq], by rw [heq], by rw [heq], fun key' => ?_⟩
    grind [Store.get_put_self, hash_of_sidecar, PythonHosted.hash, PythonHosted.readMeta,
      Store.get_put_of_ne, Store.get_put]

theorem reads_foldl (keys : List (List String)) (s : PythonHosted) :
    Reads format s (keys.foldl (fun s key => s.readMeta format key) s) := by
  induction keys generalizing s with
  | nil => exact .refl s
  | cons key keys ih => exact (reads_readMeta format s key).trans (ih _)

theorem sidecar_foldl {keys : List (List String)} {key : List String} {digest : Option String}
    (h : s.sidecars.get key = digest) (hkey : digest = none → key ∉ keys) :
    (keys.foldl (fun s key => s.readMeta format key) s).sidecars.get key = digest := by
  induction keys generalizing s with
  | nil => exact h
  | cons k keys ih =>
    rw [List.foldl_cons]
    refine ih ?_ fun hnone => (List.ne_and_not_mem_of_not_mem_cons (hkey hnone)).2
    rcases readMeta_cases format s k with heq | ⟨-, hnone, content, -, heq⟩
    · rw [heq, h]
    · have hne : key ≠ k := by
        rintro rfl
        exact hkey (h.symm.trans hnone) List.mem_cons_self
      rw [heq, Store.get_put_of_ne _ _ hne, h]

theorem sidecar_foldl_of_mem {keys : List (List String)} {key : List String} (h : key ∈ keys) :
    (keys.foldl (fun s key => s.readMeta format key) s).sidecars.get key = s.hash format key := by
  induction keys generalizing s with
  | nil => cases h
  | cons k keys ih =>
    rw [List.foldl_cons]
    by_cases hmem : key ∈ keys
    · rw [ih hmem, (reads_readMeta format s k).hash key]
    · obtain rfl := (List.mem_cons.mp h).resolve_right hmem
      exact sidecar_foldl rfl fun _ => hmem

structure FilesIn (s : PythonHosted) (dir : List String) (names : List String) : Prop where
  nodup : names.Nodup
  mem_iff : ∀ name, name ∈ names ↔
    (∃ content, s.storage.objects.get (dir ++ [name]) = some content) ∧
      s.storage.hides name = false

theorem openFolder_spec (format : PythonFormat) {location : StoragePath}
    (haccepted : s.storage.rejects location = false)
    (hstaging : ∀ key, s.storage.staging.get key = none)
    (hget : s.storage.objects.get location.components = none) :
    ∃ read files names, s.openFolder format location = .ok (read, files) ∧ Reads format s read ∧
      FilesIn s location.components names ∧
      files.getD [] =
        names.map fun name => (name, s.hash format (location.components ++ [name])) := by
  have hnone : (s.storage.lookupKey? location).bind s.storage.objects.get = none := by grind [DynStorage.lookupKey?]
  have hstaged : (s.storage.lookupKey? location).bind s.storage.staging.get = none := by simp_all
  have hopen : s.storage.openFile location =
      if Objects.isDir s.storage.objects location.components then
        .ok (some (.directory (Objects.children s.storage.objects location.components)))
      else .ok none := by
    unfold DynStorage.openFile
    rw [haccepted, if_neg Bool.false_ne_true, hstaged, hnone]
  unfold PythonHosted.openFolder
  rw [hopen]
  split_ifs with hdir
  · set names := ((Objects.children s.storage.objects location.components).filter
      fun file => file.2 && !s.storage.hides file.1).map Prod.fst with hnames
    have hfold : names.foldl (fun s name => s.readMeta format (location.components ++ [name])) s =
        (names.map fun name => location.components ++ [name]).foldl
          (fun s key => s.readMeta format key) s :=
      List.foldl_map.symm
    refine ⟨_, _, names, rfl, ?_, ⟨?_, fun name => ?_⟩, ?_⟩
    · rw [hfold]
      exact reads_foldl _ s
    · refine List.Nodup.map_on ?_ ((DynStorage.nodup_children _ _).filter _)
      simp
    · rw [hnames, List.mem_map]
      constructor
      · rintro ⟨⟨name, k⟩, hmem, rfl⟩
        obtain ⟨hmem, hk⟩ := List.mem_filter.mp hmem
        simp only [Bool.and_eq_true, Bool.not_eq_true'] at hk
        obtain ⟨rfl, hhides⟩ := hk
        exact ⟨(DynStorage.mem_children_iff.mp hmem).1, hhides⟩
      · rintro ⟨hget, hhides⟩
        have hvisible : Objects.isHiddenName name = false := by
          unfold DynStorage.hides at hhides
          exact ((Bool.or_eq_false_iff).mp hhides).1
        refine ⟨(name, true), List.mem_filter.mpr ⟨?_, by simp [hhides]⟩, rfl⟩
        exact DynStorage.mem_children_iff.mpr ⟨hget, hvisible⟩
    grind [List.map_congr_left, sidecar_foldl_of_mem, List.mem_map_of_mem]
  · refine ⟨s, none, [], rfl, .refl s, ⟨List.nodup_nil, fun name => ?_⟩, rfl⟩
    refine iff_of_false List.not_mem_nil ?_
    rintro ⟨⟨content, hget⟩, -⟩
    exact hdir (DynStorage.isDir_of_get hget)

/-! ### The links of a page -/

def IsComponent (text : String) : Prop :=
  text.toList ≠ [] ∧ '/' ∉ text.toList ∧ StoragePath.validComponent text = true

theorem IsComponent.segments {text : String} (h : IsComponent text) : segments '/' text = [text] :=
  segments_eq_singleton h.2.1 h.1

structure FolderOk (s : PythonHosted) (key version : String) : Prop where
  isKey : IsComponent key
  isVersion : IsComponent version
  staging : ∀ path, s.storage.staging.get path = none
  noFile : s.storage.objects.get [key, version] = none

/-- The file has a link on the page of its project. -/
def Shown (s : PythonHosted) (key version name : String) : Prop :=
  (∃ content, s.storage.objects.get [key, version, name] = some content) ∧
    s.storage.hides name = false ∧ shouldIgnore name = false

/-- The link to a file of the project with the directory `key`. -/
def PythonHosted.link (format : PythonFormat) (ctx : PythonSimpleRequestContext) (key : String)
    (s : PythonHosted) (item : DBProjectVersion PythonPackageMetadata × String) : SimpleIndexLink :=
  fileLink format ctx key item.1 (item.2, s.hash format [key, item.1.version, item.2])

variable {ctx : PythonSimpleRequestContext} {key : String}
  {version : DBProjectVersion PythonPackageMetadata}

theorem components_versionPath (hkey : IsComponent key) {v : String} (hv : IsComponent v) :
    (StoragePath.ofString (key ++ ("/" ++ (v ++ "/")))).components = [key, v] := by
  have hslash : v ++ "/" = v ++ ("/" ++ "") := by rw [String.append_empty]
  rw [StoragePath.components_ofString, StoragePath.segments_slash, hslash,
    StoragePath.segments_slash, segments_empty, hkey.segments, hv.segments]
  rfl

theorem versionLinks_spec (format : PythonFormat) (ctx : PythonSimpleRequestContext)
    (h : FolderOk s key version.version) :
    ∃ (read : PythonHosted) (names : List String), s.versionLinks format ctx key version =
        .ok (read, names.map fun name => s.link format ctx key (version, name)) ∧
      Reads format s read ∧ names.Nodup ∧
      ∀ name, name ∈ names ↔ Shown s key version.version name := by
  set location := StoragePath.ofString (key ++ ("/" ++ (version.version ++ "/"))) with hlocation
  have hcomponents : location.components = [key, version.version] :=
    components_versionPath h.isKey h.isVersion
  have haccepted : s.storage.rejects location = false := by
    unfold DynStorage.rejects StoragePath.validate
    rw [hcomponents]
    cases s.storage.backend <;> simp [h.isKey.2.2, h.isVersion.2.2]
  obtain ⟨read, files, names, hopen, hreads, hfiles, hnames⟩ := openFolder_spec format haccepted
    h.staging (by rw [hcomponents]; exact h.noFile)
  set entry : String → String × Option String := fun name =>
    (name, s.hash format [key, version.version, name]) with hentry
  have hgetD : files.getD [] = names.map entry := by
    rw [hnames, hcomponents]
    rfl
  set sorted := (names.map entry).insertionSort fun a b => a.1 ≤ b.1 with hsorted
  set shown := sorted.filter fun file => !shouldIgnore file.1 with hshown
  have hperm : (sorted.map Prod.fst).Perm names := by
    have hmap : (names.map entry).map Prod.fst = names := by
      rw [List.map_map]
      exact List.map_id names
    have hp := (List.perm_insertionSort (fun a b => a.1 ≤ b.1) (names.map entry)).map Prod.fst
    rwa [hmap] at hp
  have hpair : ∀ file ∈ shown, entry file.1 = file := by simp_all
  refine ⟨read, shown.map Prod.fst, ?_, hreads, ?_, fun name => ?_⟩
  · change Except.map _ (s.openFolder format location) = _
    rw [hopen, List.map_map]
    refine congrArg (fun links => Except.ok (read, links)) ?_
    rw [hgetD]
    refine List.map_congr_left fun file hfile => ?_
    rw [Function.comp_apply, PythonHosted.link]
    exact congrArg (fileLink format ctx key version) (hpair file hfile).symm
  · exact (hperm.nodup_iff.mpr hfiles.nodup).sublist ((List.filter_sublist).map _)
  · rw [Shown, ← and_assoc]
    have hdir := hfiles.mem_iff name
    simp_all

theorem links_spec (format : PythonFormat) (ctx : PythonSimpleRequestContext)
    {versions : List (DBProjectVersion PythonPackageMetadata)}
    (hnodup : (versions.map DBProjectVersion.version).Nodup)
    (h : ∀ v ∈ versions, FolderOk s key v.version) :
    ∃ (read : PythonHosted) (items : List (DBProjectVersion PythonPackageMetadata × String)),
      PythonHosted.links format ctx key s versions =
        .ok (read, items.map (s.link format ctx key)) ∧ Reads format s read ∧
      (items.map fun item => (item.1.version, item.2)).Nodup ∧
      ∀ v name, (v, name) ∈ items ↔ v ∈ versions ∧ Shown s key v.version name := by
  induction versions generalizing s with
  | nil => exact ⟨s, [], rfl, .refl s, List.nodup_nil, by simp⟩
  | cons version rest ih =>
    obtain ⟨read₁, names, hfront, hreads₁, hnames, hmem⟩ := versionLinks_spec format
      ctx (h version List.mem_cons_self)
    rw [List.map_cons, List.nodup_cons] at hnodup
    have hfolders : ∀ v ∈ rest, FolderOk read₁ key v.version := by
      intro v hv
      obtain ⟨hk, hversion, hstaging, hnoFile⟩ := h v (List.mem_cons_of_mem version hv)
      exact ⟨hk, hversion, by rwa [hreads₁.storage], by rwa [hreads₁.storage]⟩
    obtain ⟨read₂, items, hback, hreads₂, hitems, hitemsMem⟩ := ih hnodup.2 hfolders
    have hlink : read₁.link format ctx key = s.link format ctx key := by
      funext item
      rw [PythonHosted.link, PythonHosted.link, hreads₁.hash]
    refine ⟨read₂, names.map (fun name => (version, name)) ++ items, ?_, hreads₁.trans hreads₂, ?_,
      fun v name => ?_⟩
    · simp_all [PythonHosted.links, bind, Except.bind, pure, Except.pure, List.map_append,
        List.map_map]
    · rw [List.map_append, List.map_map, List.nodup_append]
      refine ⟨hnames.map fun a b hab => (Prod.mk.inj hab).2, hitems, ?_⟩
      grind
    · rw [List.mem_append, hitemsMem, List.mem_map, List.mem_cons]
      have hshown : Shown read₁ key v.version name ↔ Shown s key v.version name := by
        rw [Shown, Shown, hreads₁.storage]
      grind

/-! ### Following links -/

def linkSafe (component : String) : Bool :=
  StoragePath.validComponent component &&
    (component.toList.all (fun ch => ch != '#' && ch != '?') &&
      percentDecodeStr component == some component)

def fileUri (key version file : String) : String := key ++ ("/" ++ (version ++ ("/" ++ file)))

structure FileOk (key version file : String) : Prop where
  isComponent : ∀ component ∈ [key, version, file], IsComponent component
  safe : ∀ component ∈ [key, version, file], linkSafe component = true

variable {v file : String}

theorem FileOk.wellFormed (h : FileOk key v file) :
    (⟨[key, v, file], none⟩ : StoragePath).WellFormed :=
  fun component hc => ⟨(h.isComponent component hc).1, (h.isComponent component hc).2.1⟩

theorem fileUri_eq (key v file : String) :
    fileUri key v file = (⟨[key, v, file], none⟩ : StoragePath).toString' := by
  simp [StoragePath.toString', StoragePath.isDirectory, String.append_empty,
    String.intercalate_cons_cons, String.intercalate_singleton, fileUri, String.append_assoc]

theorem requestPath_fileUri (h : FileOk key v file) :
    requestPath (fileUri key v file) = some (.ofString (fileUri key v file)) := by
  have hdecode : ∀ component ∈ [key, v, file], percentDecodeStr component = some component := by
    intro component hc
    have hsafe := h.safe component hc
    simp only [linkSafe, Bool.and_eq_true, beq_iff_eq] at hsafe
    exact hsafe.2.2
  have huri : percentDecodeStr (fileUri key v file) = some (fileUri key v file) :=
    percentDecodeStr_slash (hdecode key (by simp))
      (percentDecodeStr_slash (hdecode v (by simp)) (hdecode file (by simp)))
  rw [requestPath, huri, Option.bind_some, fileUri_eq]
  refine h.wellFormed.fromUntrusted_toString' ?_ rfl
  exact List.all_eq_true.mpr fun component hc => (h.isComponent component hc).2.2

theorem components_fileUri (h : FileOk key v file) :
    (StoragePath.ofString (fileUri key v file)).components = [key, v, file] := by
  rw [fileUri_eq]
  exact h.wellFormed.segments_toString'

theorem isDirectory_fileUri (h : FileOk key v file) :
    (StoragePath.ofString (fileUri key v file)).isDirectory = false := by
  rw [fileUri_eq, h.wellFormed.isDirectory_toString']
  rfl

theorem followReference_fileUri (h : FileOk key v file) {tail : String}
    (htail : startsWith "#" tail ∨ tail = "") (spelling : String) :
    followReference ["simple", spelling] ("../../" ++ fileUri key v file ++ tail) =
      some (fileUri key v file) := by
  have hparts : ∀ component ∈ [key, v, file], component ≠ "." ∧ component ≠ ".." := by
    intro component hc
    have hvalid := (h.isComponent component hc).2.2
    simp only [StoragePath.validComponent, Bool.and_eq_true, bne_iff_ne] at hvalid
    exact ⟨hvalid.1.1, hvalid.1.2⟩
  have hchars : ∀ ch ∈ ("../../" ++ fileUri key v file).toList, ch ≠ '#' ∧ ch ≠ '?' := by
    have hpart : ∀ component ∈ [key, v, file], ∀ ch ∈ component.toList, ch ≠ '#' ∧ ch ≠ '?' := by
      intro component hc ch hch
      have hsafe := h.safe component hc
      simp only [linkSafe, Bool.and_eq_true] at hsafe
      have hall := List.all_eq_true.mp hsafe.2.1 ch hch
      simpa using hall
    have hplain : ∀ text : String, text.toList.all (fun ch => ch != '#' && ch != '?') = true →
        ∀ ch ∈ text.toList, ch ≠ '#' ∧ ch ≠ '?' := by
      intro text htext ch hch
      simpa using List.all_eq_true.mp htext ch hch
    intro ch hch
    simp only [fileUri, String.toList_append, List.mem_append] at hch
    rcases hch with hch | hch | hch | hch | hch | hch
    · exact hplain "../../" (by decide) ch hch
    · exact hpart key (by simp) ch hch
    · exact hplain "/" (by decide) ch hch
    · exact hpart v (by simp) ch hch
    · exact hplain "/" (by decide) ch hch
    · exact hpart file (by simp) ch hch
  have hpieces : pieces '/' ("../../" ++ fileUri key v file) =
      List.replicate ["simple", spelling].length ".." ++ [key, v, file] := by
    have hslash : ∀ a b : String, pieces '/' (a ++ ("/" ++ b)) = pieces '/' a ++ pieces '/' b :=
      pieces_append '/'
    have hone : ∀ component ∈ [key, v, file], pieces '/' component = [component] :=
      fun component hc => pieces_eq_singleton (h.isComponent component hc).2.1
    have hup : "../../" ++ fileUri key v file =
        ".." ++ ("/" ++ (".." ++ ("/" ++ fileUri key v file))) := by
      rw [← String.append_assoc, ← String.append_assoc, ← String.append_assoc]
      rfl
    rw [hup, hslash, hslash, fileUri, hslash, hslash, hone key (by simp), hone v (by simp),
      hone file (by simp), pieces_eq_singleton (by decide)]
    rfl
  have hstart : startsWith "/" ("../../" ++ fileUri key v file) = false := by
    rw [← Bool.not_eq_true, startsWith_iff, String.toList_append]
    rintro ⟨tail, htail⟩
    exact absurd (List.cons_eq_cons.mp htail).1 (by decide)
  rw [followReference, referencePath_append hchars htail, hstart, if_neg Bool.false_ne_true,
    hpieces, walkSegments_parents, walkSegments_append hparts, List.nil_append, Option.map_some,
    String.intercalate_cons_cons, String.intercalate_cons_cons, String.intercalate_singleton,
    fileUri]
  simp only [String.append_assoc]

/-! ### The rows and the files -/

def isNormalizedName (name : String) : Bool := isPep508Name name && pep503 name == name

theorem normalizePackageName_of_normalized {name : String} (h : isNormalizedName name = true) :
    normalizePackageName name = name := by
  rw [isNormalizedName, Bool.and_eq_true, beq_iff_eq] at h
  exact normalizePackageName_eq_self h.2

theorem isPlain_of_normalized {name : String} (h : isNormalizedName name = true) :
    name.toList.all isPlain = true := by
  have hkey := normalizePackageName_of_normalized h
  rw [isNormalizedName, Bool.and_eq_true] at h
  rw [← hkey]
  exact isPlain_normalizePackageName h.1

theorem notMem_of_normalized {name : String} (h : isNormalizedName name = true)
    (hch : isPlain ch = false) : ch ∉ name.toList := fun hmem =>
  absurd (List.all_eq_true.mp (isPlain_of_normalized h) ch hmem) (by rw [hch]; decide)

theorem isComponent_of_isPep508Name {name : String} (h : isPep508Name name = true) :
    IsComponent name := by
  rw [isPep508Name, Bool.and_eq_true, Bool.and_eq_true] at h
  obtain ⟨hall, hhead, -⟩ := h
  have hnot : ∀ ch : Char, (ch.isAlphanum || isSeparator ch) = false → ch ∉ name.toList :=
    fun ch hch hmem => absurd (List.all_eq_true.mp hall ch hmem) (by rw [hch]; decide)
  refine ⟨?_, hnot '/' (by decide), ?_⟩
  · intro hnil
    rw [hnil] at hhead
    cases hhead
  · have hdots : ∀ text : String, text.toList.head?.any Char.isAlphanum = false → name ≠ text := by
      rintro text htext rfl
      rw [htext] at hhead
      cases hhead
    unfold StoragePath.validComponent
    rw [Bool.and_eq_true, Bool.and_eq_true, bne_iff_ne, bne_iff_ne, List.all_eq_true]
    refine ⟨⟨hdots "." (by decide), hdots ".." (by decide)⟩, fun ch hch => ?_⟩
    have hbackslash : ch ≠ '\\' := by
      rintro rfl
      exact hnot _ (by decide) hch
    have hnul : ch ≠ '\x00' := by
      rintro rfl
      exact hnot _ (by decide) hch
    simp [hbackslash, hnul]

theorem isComponent_of_normalized {name : String} (h : isNormalizedName name = true) :
    IsComponent name := by
  rw [isNormalizedName, Bool.and_eq_true] at h
  exact isComponent_of_isPep508Name h.1

theorem linkSafe_of_normalized {name : String} (h : isNormalizedName name = true) :
    linkSafe name = true := by
  unfold linkSafe
  rw [(isComponent_of_normalized h).2.2, Bool.true_and, Bool.and_eq_true, beq_iff_eq,
    List.all_eq_true]
  refine ⟨fun ch hch => ?_, percentDecodeStr_of_notMem (notMem_of_normalized h (by decide))⟩
  have hhash : ch ≠ '#' := by
    rintro rfl
    exact notMem_of_normalized h (by decide) hch
  have hquery : ch ≠ '?' := by
    rintro rfl
    exact notMem_of_normalized h (by decide) hch
  simp [hhash, hquery]

def isListedName (backend : Backend) (file : String) : Bool :=
  !shouldIgnore file && !(backend == .local && containsText ".nr-meta.tmp-" file)

/-- An upload to this path is listed: the path has the three parts of a distribution file, the name
is spelled as PEP 503 normalizes it, the link carries the other two parts as they are, and the file
is not hidden. -/
def listable (backend : Backend) : List String → Bool
  | [package, version, file] =>
    isNormalizedName package && (linkSafe version && (linkSafe file && isListedName backend file))
  | _ => false

structure CatalogueOk (db : Catalogue PythonPackageMetadata) : Prop where
  keys : ∀ p ∈ db.projects, isNormalizedName p.key = true
  paths : ∀ p ∈ db.projects, p.path = p.key ++ "/"
  unique : ∀ p ∈ db.projects, ∀ q ∈ db.projects, p.key = q.key ∨ p.id = q.id → p = q
  ids_lt : ∀ p ∈ db.projects, p.id < db.nextId
  versions : (db.versions.map fun v => (v.projectId, v.version)).Nodup
  owners : ∀ v ∈ db.versions, v.projectId < db.nextId
  components : ∀ v ∈ db.versions, IsComponent v.version ∧ linkSafe v.version = true
  hashes : ∀ v ∈ db.versions, v.extra.sha256 = none

def HasRow (db : Catalogue PythonPackageMetadata) (package version : String) : Prop :=
  ∃ p ∈ db.projects, p.key = package ∧ ∃ v ∈ db.versions, v.projectId = p.id ∧ v.version = version

/-- What listable uploads keep. -/
structure HostedOk (format : PythonFormat) (backend : Backend) (s : PythonHosted) : Prop where
  isBackend : s.storage.backend = backend
  staging : ∀ path, s.storage.staging.get path = none
  catalogue : CatalogueOk s.catalogue
  files : ∀ path content, s.storage.objects.get path = some content → ∃ package version file,
    path = [package, version, file] ∧ FileOk package version file ∧
      isListedName backend file = true ∧ isNormalizedName package = true ∧
      HasRow s.catalogue package version
  sidecars : ∀ path digest, s.sidecars.get path = some digest →
    ∃ content, s.storage.objects.get path = some content ∧
      (digest = format.digest content ∨ path ∈ s.queue)
  /-- Only a local storage has sidecars. -/
  isLocal : (∃ path, path ∈ s.queue ∨ s.sidecars.get path ≠ none) → backend = .local

variable {c : AsciiCollation} {db db' : Catalogue PythonPackageMetadata} {backend : Backend}
  {package name : String}

theorem HasRow.mono (h : HasRow db package name) (hprojects : ∀ p ∈ db.projects, p ∈ db'.projects)
    (hversions : ∀ v ∈ db.versions, v ∈ db'.versions) : HasRow db' package name := by
  grind [HasRow]

theorem catalogueOk_empty : CatalogueOk .empty where
  keys p hp := by cases hp
  paths p hp := by cases hp
  unique p hp := by cases hp
  ids_lt p hp := by cases hp
  versions := List.nodup_nil
  owners v hv := by cases hv
  components v hv := by cases hv
  hashes v hv := by cases hv

theorem CatalogueOk.insertProject (h : CatalogueOk db) (hname : isNormalizedName name = true)
    (hinsert : db.insertProject c.toCollation name (name ++ "/") = some (db', project)) :
    CatalogueOk db' ∧ project ∈ db'.projects ∧ project.key = name := by
  obtain ⟨rfl, rfl, hnew⟩ := Catalogue.of_insertProject hinsert
  have hkey : ∀ p ∈ db.projects, p.key ≠ name := by
    rintro p hp rfl
    have hsame := hnew p hp
    rw [c.same_refl] at hsame
    cases hsame
  refine ⟨⟨?_, ?_, ?_, ?_, h.versions, ?_, h.components, h.hashes⟩, ?_, rfl⟩
  · exact forall_mem_concat h.keys hname
  · exact forall_mem_concat h.paths rfl
  · refine related_concat (fun p q hpq heq => ?_) h.unique (fun p hp heq => ?_) fun _ => rfl
    · exact (hpq (heq.imp Eq.symm Eq.symm)).symm
    · rcases heq with heq | heq
      · exact absurd heq (hkey p hp)
      · exact absurd heq (Nat.ne_of_lt (h.ids_lt p hp))
  · exact forall_mem_concat (fun p hp => Nat.lt_succ_of_lt (h.ids_lt p hp)) (Nat.lt_succ_self _)
  · exact fun v hv => Nat.lt_succ_of_lt (h.owners v hv)
  · exact List.mem_append_right _ (List.mem_singleton_self _)

theorem CatalogueOk.insertVersion (h : CatalogueOk db)
    (hproject : project ∈ db.projects) (hcomponent : IsComponent v ∧ linkSafe v = true)
    {path : String} {extra : PythonPackageMetadata} (hhash : extra.sha256 = none)
    (hinsert : db.insertVersion c.toCollation project.id v path extra = some db') :
    CatalogueOk db' ∧ HasRow db' project.key v := by
  have hnew := Catalogue.ne_of_insertVersion hinsert
  obtain ⟨rfl, -⟩ := Catalogue.of_insertVersion hinsert
  refine ⟨⟨h.keys, h.paths, h.unique, ?_, ?_, ?_, ?_, ?_⟩, project, hproject, rfl, _,
    List.mem_append_right _ (List.mem_singleton_self _), rfl, rfl⟩
  · exact fun p hp => Nat.lt_succ_of_lt (h.ids_lt p hp)
  · rw [List.map_append, List.map_singleton]
    refine List.nodup_append.mpr ⟨h.versions, List.nodup_singleton _, ?_⟩
    grind
  · exact forall_mem_concat (fun w hw => Nat.lt_succ_of_lt (h.owners w hw))
      (Nat.lt_succ_of_lt (h.ids_lt project hproject))
  · exact forall_mem_concat h.components hcomponent
  · exact forall_mem_concat h.hashes hhash

theorem CatalogueOk.key_of_find (h : CatalogueOk db) (hname : name.toList.all isPlain = true)
    (hfind : db.findByProjectKey c.toCollation name = some project) :
    project ∈ db.projects ∧ project.key = name := by
  obtain ⟨hmem, hsame⟩ := Catalogue.of_findByProjectKey hfind
  exact ⟨hmem, c.eq_of_same _ _ (isPlain_of_normalized (h.keys project hmem)) hname hsame⟩

variable {info : PythonPackagePathInfo}

/-- What recording an upload changes: there is a row for its version afterwards. -/
theorem of_upsertMetadata (h : s.upsertMetadata c.toCollation info = (s', .ok ()))
    (hs : CatalogueOk s.catalogue) (hname : isNormalizedName info.package = true)
    (hversion : IsComponent info.version ∧ linkSafe info.version = true) :
    s'.storage = s.storage ∧ s'.sidecars = s.sidecars ∧ s'.queue = s.queue ∧
      CatalogueOk s'.catalogue ∧ HasRow s'.catalogue info.package info.version ∧
      (∀ p ∈ s.catalogue.projects, p ∈ s'.catalogue.projects) ∧
      ∀ v ∈ s.catalogue.versions, v ∈ s'.catalogue.versions := by
  have hkey : info.projectKey = info.package := normalizePackageName_of_normalized hname
  unfold PythonHosted.upsertMetadata at h
  cases hproject : s.findOrInsertProject c.toCollation info with
  | none =>
    rw [hproject] at h
    cases (Prod.mk.inj h).2
  | some found =>
    obtain ⟨t, project⟩ := found
    rw [hproject] at h
    -- the project is there, or new
    have ht : (t.storage = s.storage ∧ t.sidecars = s.sidecars ∧ t.queue = s.queue) ∧
        CatalogueOk t.catalogue ∧ (project ∈ t.catalogue.projects ∧ project.key = info.package) ∧
        (∀ p ∈ s.catalogue.projects, p ∈ t.catalogue.projects) ∧
        t.catalogue.versions = s.catalogue.versions := by
      unfold PythonHosted.findOrInsertProject at hproject
      rw [hkey] at hproject
      split at hproject
      · rename_i found hfind
        obtain ⟨rfl, rfl⟩ := Prod.mk.inj (Option.some.inj hproject)
        exact ⟨⟨rfl, rfl, rfl⟩, hs, hs.key_of_find (isPlain_of_normalized hname) hfind,
          fun _ hp => hp, rfl⟩
      · obtain ⟨⟨db, new⟩, hinsert, heq⟩ := Option.map_eq_some_iff.mp hproject
        obtain ⟨rfl, rfl⟩ := Prod.mk.inj heq
        rw [PythonPackagePathInfo.projectStoragePath, hkey] at hinsert
        obtain ⟨hok, hmem, hnew⟩ := hs.insertProject hname hinsert
        obtain ⟨-, rfl, -⟩ := Catalogue.of_insertProject hinsert
        exact ⟨⟨rfl, rfl, rfl⟩, hok, ⟨hmem, hnew⟩, fun p hp => List.mem_append_left _ hp, rfl⟩
    obtain ⟨⟨hstorage, hsidecars, hqueue⟩, hok, ⟨hmem, hprojectKey⟩, hprojects, hversions⟩ := ht
    simp only [] at h
    split at h
    · rename_i w hfind
      obtain ⟨rfl, -⟩ := Prod.mk.inj h
      obtain ⟨hw, hid, hwversion⟩ := Catalogue.of_findByVersionAndProject hfind
      grind [HasRow]
    · split at h
      · rename_i db hinsert
        obtain ⟨rfl, -⟩ := Prod.mk.inj h
        obtain ⟨hok', hrow⟩ := hok.insertVersion hmem hversion rfl hinsert
        obtain ⟨rfl, -⟩ := Catalogue.of_insertVersion hinsert
        grind
      · cases (Prod.mk.inj h).2

/-! ### Steps -/

theorem ok_of_map {ε α β : Type} {f : α → β} {x : Except ε α} {b : β} (h : x.map f = .ok b) :
    ∃ a, x = .ok a ∧ f a = b := by
  cases x with
  | error e => cases h
  | ok a => exact ⟨a, rfl, Except.ok.inj h⟩

theorem reads_of_openFolder {location : StoragePath}
    {files : Option (List (String × Option String))}
    (h : s.openFolder format location = .ok (read, files)) : Reads format s read := by
  obtain ⟨found, -, heq⟩ := ok_of_map h
  split at heq
  · obtain ⟨rfl, -⟩ := Prod.mk.inj heq
    rw [← List.foldl_map (f := fun name => location.components ++ [name])
      (g := fun s key => PythonHosted.readMeta format s key)]
    exact reads_foldl _ s
  · obtain ⟨rfl, -⟩ := Prod.mk.inj heq
    exact .refl s

theorem reads_of_links {versions : List (DBProjectVersion PythonPackageMetadata)}
    {links : List SimpleIndexLink}
    (h : PythonHosted.links format ctx key s versions = .ok (read, links)) :
    Reads format s read := by
  induction versions generalizing s links with
  | nil =>
    obtain ⟨rfl, -⟩ := Prod.mk.inj (Except.ok.inj h)
    exact .refl s
  | cons version rest ih =>
    rw [PythonHosted.links] at h
    cases hfront : s.versionLinks format ctx key version with
    | error e =>
      rw [hfront] at h
      cases h
    | ok front =>
      obtain ⟨t, front⟩ := front
      rw [hfront] at h
      simp only [bind, Except.bind] at h
      cases hback : PythonHosted.links format ctx key t rest with
      | error e =>
        rw [hback] at h
        cases h
      | ok back =>
        obtain ⟨u, back⟩ := back
        rw [hback] at h
        obtain ⟨rfl, -⟩ := Prod.mk.inj (Except.ok.inj h)
        refine Reads.trans ?_ (ih hback)
        obtain ⟨⟨v, files⟩, hopen, heq⟩ := ok_of_map hfront
        obtain ⟨rfl, -⟩ := Prod.mk.inj heq
        exact reads_of_openFolder hopen

theorem reads_of_handleGet {uri : String} {response : Response} {collation : Collation}
    (h : s.handleGet format collation base uri = .ok (read, response)) : Reads format s read := by
  have hserve : ∀ path, s.serveFile format path = .ok (read, response) → Reads format s read := by
    intro path hfile
    obtain ⟨found, -, heq⟩ := ok_of_map hfile
    split at heq
    · obtain ⟨rfl, -⟩ := Prod.mk.inj heq
      exact reads_readMeta format s path.components
    · obtain ⟨rfl, -⟩ := Prod.mk.inj heq
      exact .refl s
    · obtain ⟨rfl, -⟩ := Prod.mk.inj heq
      exact .refl s
  have hpage : ∀ ctx package, s.renderPackageSimpleIndex format collation ctx package =
      .ok (read, response) → Reads format s read := by
    intro ctx package hrender
    unfold PythonHosted.renderPackageSimpleIndex at hrender
    split at hrender
    · obtain ⟨rfl, -⟩ := Prod.mk.inj (Except.ok.inj hrender)
      exact .refl s
    · obtain ⟨⟨t, links⟩, hlinks, heq⟩ := ok_of_map hrender
      obtain ⟨rfl, -⟩ := Prod.mk.inj heq
      exact reads_of_links hlinks
  unfold PythonHosted.handleGet at h
  cases hpath : requestPath uri with
  | none =>
    rw [hpath] at h
    obtain ⟨rfl, -⟩ := Prod.mk.inj (Except.ok.inj h)
    exact .refl s
  | some path =>
    rw [hpath] at h
    simp only [] at h
    split_ifs at h
    · obtain ⟨rfl, -⟩ := Prod.mk.inj (Except.ok.inj h)
      exact .refl s
    · split at h
      · obtain ⟨rfl, -⟩ := Prod.mk.inj (Except.ok.inj h)
        exact .refl s
      · exact hpage _ _ h
      · exact hserve path h
    · exact hserve path h

/-- The digest that reading a file finds is that of the file, unless the file is queued. -/
theorem HostedOk.hash (h : HostedOk format backend s) {path : List String} {digest : String}
    (hhash : s.hash format path = some digest) :
    backend = .local ∧ ∃ content, s.storage.objects.get path = some content ∧
      (digest = format.digest content ∨ path ∈ s.queue) := by
  unfold PythonHosted.hash at hhash
  rcases readMeta_cases format s path with heq | ⟨hbackend, -, content, hget, heq⟩
  · rw [heq] at hhash
    refine ⟨h.isLocal ⟨path, .inr ?_⟩, h.sidecars path digest hhash⟩
    rw [hhash]
    exact Option.some_ne_none _
  · rw [heq, Store.get_put_self] at hhash
    exact ⟨h.isBackend ▸ hbackend, content, hget, .inl (Option.some.inj hhash).symm⟩

theorem HostedOk.of_reads (h : HostedOk format backend s) (hreads : Reads format s read) :
    HostedOk format backend read where
  isBackend := by rw [hreads.storage, h.isBackend]
  staging := by rw [hreads.storage]; exact h.staging
  catalogue := by rw [hreads.catalogue]; exact h.catalogue
  files := by rw [hreads.storage, hreads.catalogue]; exact h.files
  sidecars path digest hget := by
    rw [hreads.storage, hreads.queue]
    exact (h.hash (hreads.hash path ▸ hash_of_sidecar hget)).2
  isLocal := by
    rw [hreads.queue]
    rintro ⟨path, hqueue | hsidecar⟩
    · exact h.isLocal ⟨path, .inl hqueue⟩
    · obtain ⟨digest, hget⟩ := Option.ne_none_iff_exists'.mp hsidecar
      exact (h.hash (hreads.hash path ▸ hash_of_sidecar hget)).1

theorem HostedOk.updateMeta (h : HostedOk format backend s) {path : List String}
    (hupdate : s.updateMeta format path = some s') : HostedOk format backend s' := by
  unfold PythonHosted.updateMeta at hupdate
  split_ifs at hupdate with hqueue
  obtain rfl := Option.some.inj hupdate
  have hlocal := h.isLocal ⟨path, .inl hqueue⟩
  refine ⟨h.isBackend, h.staging, h.catalogue, h.files, ?_, fun _ => hlocal⟩
  intro path' digest hget
  by_cases hpath : path' = path
  · subst hpath
    cases hcontent : s.storage.objects.get path' with
    | none =>
      simp only [hcontent] at hget
      obtain ⟨content, hsome, -⟩ := h.sidecars path' digest hget
      rw [hcontent] at hsome
      cases hsome
    | some content =>
      simp_all
  · have hold : s.sidecars.get path' = some digest := by grind [Store.get_put_of_ne]
    obtain ⟨content, hsome, hok⟩ := h.sidecars path' digest hold
    exact ⟨content, hsome, hok.imp_right (List.mem_erase_of_ne hpath).mpr⟩

/-! ### Uploads -/

theorem wellFormed_of_file {upload : Upload}
    (h : upload.file = .ok (content, path)) : path.WellFormed := by
  unfold Upload.file at h
  split at h
  · cases h
  · rename_i path' content' hpath hbody
    obtain ⟨-, rfl⟩ := Prod.mk.inj (Except.ok.inj h)
    obtain ⟨value, -, hvalue⟩ := Option.bind_eq_some_iff.mp hpath
    rw [(StoragePath.validate_of_fromUntrusted hvalue).1]
    exact StoragePath.wellFormed_ofString value
  · rename_i fields _ _
    unfold multipartFile at h
    simp only [] at h
    split at h
    · cases h
    · cases h
    · cases h
    · cases h
    · obtain ⟨-, rfl⟩ := Prod.mk.inj (Except.ok.inj h)
      exact StoragePath.wellFormed_ofString _
  · cases h

theorem of_listable (hwf : path.WellFormed)
    (h : listable backend path.components = true) : ∃ package version file,
      path.components = [package, version, file] ∧ FileOk package version file ∧
        isListedName backend file = true ∧ isNormalizedName package = true := by
  unfold listable at h
  split at h
  · rename_i package version file hcomponents
    simp only [Bool.and_eq_true] at h
    obtain ⟨hname, hversion, hfile, hlisted⟩ := h
    have hvalid : ∀ component, linkSafe component = true →
        StoragePath.validComponent component = true := by
      intro component hsafe
      rw [linkSafe, Bool.and_eq_true] at hsafe
      exact hsafe.1
    have hsafe : ∀ component ∈ [package, version, file], linkSafe component = true := by
      simp only [List.mem_cons, List.not_mem_nil, or_false]
      rintro component (rfl | rfl | rfl)
      · exact linkSafe_of_normalized hname
      · exact hversion
      · exact hfile
    refine ⟨package, version, file, hcomponents, ⟨fun component hc => ?_, hsafe⟩, hlisted, hname⟩
    obtain ⟨hne, hslash⟩ := hwf component (hcomponents ▸ hc)
    exact ⟨hne, hslash, hvalid component (hsafe component hc)⟩
  · cases h

theorem of_saveFile (h : s.saveFile content path = .ok s') : s'.storage = { s.storage with
      objects := s.storage.objects.put path.components content } ∧
      s'.sidecars = s.sidecars ∧ s'.catalogue = s.catalogue ∧
      s'.queue = if s.storage.backend == .local &&
          !s.storage.hides (path.components.getLastD "") &&
          (s.storage.objects.get path.components).isSome
        then s.queue ++ [path.components] else s.queue := by
  obtain ⟨storage, hsave, rfl⟩ := ok_of_map h
  exact ⟨DynStorage.eq_of_saveFile hsave, rfl, rfl, rfl⟩

theorem HostedOk.upload (h : HostedOk format backend s) {upload : Upload}
    (hlistable : ∀ content path, upload.file = .ok (content, path) →
      listable backend path.components = true)
    (hupload : s.handleUpload c.toCollation upload = (s', .ok ())) :
    HostedOk format backend s' := by
  unfold PythonHosted.handleUpload at hupload
  cases hfile : upload.file with
  | error e =>
    rw [hfile] at hupload
    cases (Prod.mk.inj hupload).2
  | ok r =>
    obtain ⟨content, path⟩ := r
    rw [hfile] at hupload
    obtain ⟨package, version, file, hcomponents, hok, hlisted, hname⟩ :=
      of_listable (wellFormed_of_file hfile) (hlistable content path hfile)
    have hinfo : PythonPackagePathInfo.tryFrom path.components = some ⟨package, version, file⟩ := by
      rw [hcomponents]
      rfl
    simp only [hinfo] at hupload
    cases hsave : s.saveFile content path with
    | error e =>
      rw [hsave] at hupload
      cases (Prod.mk.inj hupload).2
    | ok t =>
      rw [hsave] at hupload
      obtain ⟨hstorage, hsidecars, hcatalogue, hqueue⟩ := of_saveFile hsave
      have hversion : IsComponent version ∧ linkSafe version = true :=
        ⟨hok.isComponent version (by simp), hok.safe version (by simp)⟩
      obtain ⟨hstorage', hsidecars', hqueue', hrows, hrow, hprojects, hversions⟩ :=
        of_upsertMetadata hupload (hcatalogue ▸ h.catalogue) hname hversion
      rw [hcatalogue] at hprojects hversions
      have hget : ∀ key, s'.storage.objects.get key =
          if key = [package, version, file] then some content else s.storage.objects.get key := by
        intro key
        rw [hstorage', hstorage, ← hcomponents]
        exact Store.get_put _ _ _ _
      have hmono : ∀ key, key ∈ s.queue → key ∈ s'.queue := by
        intro key hkey
        rw [hqueue', hqueue]
        split_ifs
        · exact List.mem_append_left _ hkey
        · exact hkey
      -- a file that is saved over another waits for the background task
      have hqueued : backend = .local → (∃ old, s.storage.objects.get [package, version, file] =
          some old) → [package, version, file] ∈ s'.queue := by
        rintro hlocal ⟨old, hold⟩
        have hvisible : s.storage.hides file = false := by
          rw [isListedName, Bool.and_eq_true, shouldIgnore, Bool.not_eq_true',
            Bool.not_eq_true', Bool.or_eq_false_iff] at hlisted
          unfold DynStorage.hides Objects.isHiddenName
          rw [hlisted.1.2, h.isBackend, hlisted.2]
          rfl
        rw [hqueue', hqueue, hcomponents, hold, h.isBackend, hlocal]
        rw [show List.getLastD [package, version, file] "" = file from rfl, hvisible]
        exact List.mem_append_right _ (List.mem_singleton_self _)
      refine ⟨?_, ?_, hrows, ?_, ?_, ?_⟩
      · rw [hstorage', hstorage, h.isBackend]
      · rw [hstorage', hstorage]
        exact h.staging
      · intro key content' hkey
        rw [hget] at hkey
        split_ifs at hkey with heq
        · exact ⟨package, version, file, heq, hok, hlisted, hname, hrow⟩
        · obtain ⟨package', version', file', hparts, hok', hlisted', hname', hrow'⟩ :=
            h.files key content' hkey
          exact ⟨package', version', file', hparts, hok', hlisted', hname',
            hrow'.mono hprojects hversions⟩
      · intro key digest hkey
        rw [hsidecars', hsidecars] at hkey
        obtain ⟨old, hold, hdigest⟩ := h.sidecars key digest hkey
        rw [hget]
        split_ifs with heq
        · subst heq
          have hsidecar : s.sidecars.get [package, version, file] ≠ none := by
            rw [hkey]
            exact Option.some_ne_none _
          exact ⟨content, rfl, .inr (hqueued (h.isLocal ⟨_, .inr hsidecar⟩) ⟨old, hold⟩)⟩
        · exact ⟨old, hold, hdigest.imp_right (hmono key)⟩
      · rintro ⟨key, hkey | hkey⟩
        · rw [hqueue', hqueue] at hkey
          split_ifs at hkey with hcond
          · rw [Bool.and_eq_true, Bool.and_eq_true, beq_iff_eq] at hcond
            rw [← h.isBackend, hcond.1.1]
          · exact h.isLocal ⟨key, .inl hkey⟩
        · rw [hsidecars', hsidecars] at hkey
          exact h.isLocal ⟨key, .inr hkey⟩

/-! ### Pages -/

def simpleUri (spelling : String) : String := "simple" ++ ("/" ++ (spelling ++ "/"))

def Response.links : Response → List SimpleIndexLink
  | .package _ links => links
  | _ => []

def target (spelling : String) (link : SimpleIndexLink) : Option (List String) :=
  ((followReference ["simple", spelling] link.href).bind requestPath).map StoragePath.components

def IsFileOf (s : PythonHosted) (spelling : String) (path : List String) : Prop :=
  ∃ content info, s.storage.objects.get path = some content ∧
    PythonPackagePathInfo.tryFrom path = some info ∧ pep503 info.package = pep503 spelling

def sha256Hex (format : PythonFormat) (content : Bytes) : String :=
  String.ofList ((format.sha256 content).flatMap Sha256.hexPair)

/-- The simple page of a project lists each of its files once, and every link on it is served with
the bytes that its fragment names. -/
def Listed (format : PythonFormat) (c : Collation) (base : String) (s : PythonHosted)
    (spelling : String) : Prop :=
  ∃ read response, s.handleGet format c base (simpleUri spelling) = .ok (read, response) ∧
    (∀ path, IsFileOf s spelling path →
      response.links.countP (fun link => target spelling link = some path) = 1) ∧
    ∀ link ∈ response.links, ∃ uri content read',
      followReference ["simple", spelling] link.href = some uri ∧
      read.handleGet format c base uri = .ok (read', .file content) ∧
      ∀ fragment, referenceFragment link.href = some fragment →
        fragment = "sha256=" ++ sha256Hex format content

variable {spelling : String}

theorem components_simpleUri (h : isPep508Name spelling = true) :
    (StoragePath.ofString (simpleUri spelling)).components = ["simple", spelling] :=
  components_versionPath ⟨by decide, by decide, by decide⟩ (isComponent_of_isPep508Name h)

theorem endsWith_simpleUri (spelling : String) : endsWith "/" (simpleUri spelling) = true := by
  rw [simpleUri, endsWith, List.isSuffixOf_iff_suffix, ← String.append_assoc, ← String.append_assoc,
    String.toList_append]
  exact List.suffix_append _ _

theorem requestPath_simpleUri (h : isPep508Name spelling = true) :
    requestPath (simpleUri spelling) = some (.ofString (simpleUri spelling)) := by
  obtain ⟨hne, hslash, hvalid⟩ := isComponent_of_isPep508Name h
  have hdecode : percentDecodeStr (simpleUri spelling) = some (simpleUri spelling) := by
    have hname : '%' ∉ spelling.toList := by
      intro hmem
      rw [isPep508Name, Bool.and_eq_true] at h
      exact absurd (List.all_eq_true.mp h.1 _ hmem) (by decide)
    refine percentDecodeStr_slash (percentDecodeStr_of_notMem (by decide))
      (percentDecodeStr_of_notMem ?_)
    rw [String.toList_append, List.mem_append, not_or]
    exact ⟨hname, by decide⟩
  have htext : (simpleUri spelling).toList =
      "simple".toList ++ '/' :: (spelling.toList ++ '/' :: []) := by
    rw [simpleUri, String.toList_append, String.toList_append, String.toList_append]
    rfl
  have hdouble : StoragePath.hasDoubleSlash (simpleUri spelling).toList = false := by
    rw [htext]
    refine StoragePath.hasDoubleSlash_append (by decide) ?_
      (StoragePath.hasDoubleSlash_append hslash (by decide) rfl)
    rw [List.head?_append_of_ne_nil _ hne]
    intro hhead
    exact hslash (List.mem_of_head? hhead)
  have hvalidate : (StoragePath.ofString (simpleUri spelling)).validate = true := by
    rw [StoragePath.validate, components_simpleUri h, List.all_cons, List.all_cons, hvalid]
    decide
  have hfirst : ∀ ch, ch ≠ 's' → startsWith (String.ofList [ch]) (simpleUri spelling) = false := by
    intro ch hch
    rw [← Bool.not_eq_true, startsWith_iff, String.toList_ofList, htext]
    rintro ⟨tail, htail⟩
    exact hch (List.cons_eq_cons.mp htail).1
  simp_all [startsWith, simpleUri, requestPath, Option.bind_some, StoragePath.fromUntrusted,
    Bool.false_eq_true]

theorem context_simpleUri (h : isPep508Name spelling = true) :
    PythonSimpleRequestContext.new (.ofString (simpleUri spelling)) (simpleUri spelling) =
      ⟨[spelling], true, false, "../../"⟩ := by
  unfold PythonSimpleRequestContext.new
  rw [components_simpleUri h, endsWith_simpleUri]
  simp only [Bool.or_true, Bool.true_or, Bool.not_true, Bool.and_false]
  rfl

theorem serveFile_fileUri (base : String) (h : HostedOk format backend s) (hok : FileOk key v file)
    (hget : s.storage.objects.get [key, v, file] = some content) (collation : Collation) :
    ∃ read, s.handleGet format collation base (fileUri key v file) = .ok (read, .file content) := by
  have hdirectory : endsWith "/" (fileUri key v file) = false := by
    rw [← StoragePath.isDirectory_ofString]
    exact isDirectory_fileUri hok
  have hcontext : (PythonSimpleRequestContext.new (.ofString (fileUri key v file))
      (fileUri key v file)).isDirectory = false := by
    unfold PythonSimpleRequestContext.new
    rw [components_fileUri hok, hdirectory, isDirectory_fileUri hok]
    simp only [Bool.false_or]
    split_ifs <;> rfl
  have haccepted : s.storage.rejects (.ofString (fileUri key v file)) = false := by
    unfold DynStorage.rejects StoragePath.validate
    rw [components_fileUri hok]
    have hall : [key, v, file].all StoragePath.validComponent = true :=
      List.all_eq_true.mpr fun component hc => (hok.isComponent component hc).2.2
    rw [hall]
    cases s.storage.backend <;> rfl
  have hopen := DynStorage.openFile_of_get content haccepted (isDirectory_fileUri hok) h.staging
    (by rw [components_fileUri hok]; exact hget)
  unfold PythonHosted.handleGet PythonHosted.serveFile
  rw [requestPath_fileUri hok]
  simp only [hcontext, Bool.false_eq_true, if_false, hopen]
  exact ⟨_, rfl⟩

theorem trimEndSlashes_of_notMem {text : String} (h : '/' ∉ text.toList) :
    trimEndSlashes (text ++ "/") = text := by
  have hstay : text.toList.reverse.dropWhile (· == '/') = text.toList.reverse := by
    cases hreverse : text.toList.reverse with
    | nil => rfl
    | cons ch rest =>
      grind [List.dropWhile_cons_of_neg, List.mem_cons_self]
  grind [trimEndSlashes, String.toList_append, List.reverse_append, List.reverse_singleton,
    List.singleton_append, List.dropWhile_cons_of_pos, List.reverse_reverse, String.ofList_toList]

theorem HostedOk.fileOk (h : HostedOk format backend s)
    (hget : s.storage.objects.get [key, v, file] = some content) :
    FileOk key v file ∧ isNormalizedName key = true ∧ HasRow s.catalogue key v ∧
      s.storage.hides file = false ∧ shouldIgnore file = false := by
  obtain ⟨package, version, name, heq, hok, hlisted, hname, hrow⟩ := h.files _ _ hget
  simp only [List.cons.injEq, and_true] at heq
  obtain ⟨rfl, rfl, rfl⟩ := heq
  rw [isListedName, Bool.and_eq_true, Bool.not_eq_true', Bool.not_eq_true'] at hlisted
  refine ⟨hok, hname, hrow, ?_, hlisted.1⟩
  have hignore := hlisted.1
  rw [shouldIgnore, Bool.or_eq_false_iff] at hignore
  unfold DynStorage.hides Objects.isHiddenName
  rw [hignore.2, h.isBackend, hlisted.2]
  rfl

theorem CatalogueOk.nodup_versions (h : CatalogueOk db) (projectId : ℕ) :
    ((db.getAllVersions projectId).reverse.map DBProjectVersion.version).Nodup := by
  rw [Catalogue.getAllVersions, List.reverse_reverse]
  have hrows := (h.versions.sublist
    ((List.filter_sublist (p := fun v => v.projectId == projectId)).map _))
  refine List.Nodup.map_on ?_ (List.Nodup.of_map _ hrows)
  grind [List.inj_on_of_nodup_map]

theorem renderPackage_spec (base : String) (c : AsciiCollation) (h : HostedOk format backend s)
    (hname : isPep508Name spelling = true) (hruns : hasNoRuns spelling.toList = true) :
    ∃ (read : PythonHosted) (response : Response)
      (items : List (DBProjectVersion PythonPackageMetadata × String)),
      s.handleGet format c.toCollation base (simpleUri spelling) = .ok (read, response) ∧
      Reads format s read ∧
      response.links =
        items.map (s.link format ⟨[spelling], true, false, "../../"⟩ (pep503 spelling)) ∧
      (items.map fun item => (item.1.version, item.2)).Nodup ∧
      (∀ item ∈ items, item.1.extra.sha256 = none ∧ ∃ content,
        s.storage.objects.get [pep503 spelling, item.1.version, item.2] = some content) ∧
      ∀ version name content,
        s.storage.objects.get [pep503 spelling, version, name] = some content →
          (version, name) ∈ items.map fun item => (item.1.version, item.2) := by
  have hplain : (pep503 spelling).toList.all isPlain = true := by
    rw [← normalizePackageName_eq hruns]
    exact isPlain_normalizePackageName hname
  have hget : s.handleGet format c.toCollation base (simpleUri spelling) =
      s.renderPackageSimpleIndex format c.toCollation ⟨[spelling], true, false, "../../"⟩
        spelling := by
    unfold PythonHosted.handleGet
    rw [requestPath_simpleUri hname]
    simp only [context_simpleUri hname, if_true, Bool.false_eq_true, if_false]
  rw [hget, PythonHosted.renderPackageSimpleIndex, normalizePackageName_eq hruns]
  cases hfind : s.catalogue.findByProjectKey c.toCollation (pep503 spelling) with
  | none =>
    refine ⟨s, _, [], rfl, .refl s, rfl, List.nodup_nil, by simp,
      fun version name content hfile => ?_⟩
    obtain ⟨-, -, ⟨p, hp, hkey, -⟩, -⟩ := h.fileOk hfile
    have hsame : c.same p.key (pep503 spelling) = true := by
      rw [hkey]
      exact c.same_refl _
    grind [Catalogue.exists_findByProjectKey]
  | some project =>
    obtain ⟨hproject, hkey⟩ := h.catalogue.key_of_find hplain hfind
    have hcomponent := isComponent_of_normalized (h.catalogue.keys project hproject)
    rw [hkey] at hcomponent
    have hdir : trimEndSlashes project.path = pep503 spelling := by
      rw [h.catalogue.paths project hproject, hkey]
      exact trimEndSlashes_of_notMem hcomponent.2.1
    have hfolders : ∀ v ∈ (s.catalogue.getAllVersions project.id).reverse,
        FolderOk s (pep503 spelling) v.version := by
      intro v hv
      have hmem := (Catalogue.mem_getAllVersions.mp (List.mem_reverse.mp hv)).1
      refine ⟨hcomponent, (h.catalogue.components v hmem).1, h.staging, ?_⟩
      refine Option.eq_none_iff_forall_ne_some.mpr fun content hfile => ?_
      obtain ⟨package, version, file, heq, -⟩ := h.files _ _ hfile
      simp at heq
    obtain ⟨read, items, hlinks, hreads, hnodup, hmem⟩ := links_spec format
      ⟨[spelling], true, false, "../../"⟩ (h.catalogue.nodup_versions project.id) hfolders
    set shownName := (s.names.get project.id).getD "" with hshownName
    refine ⟨read, .package (if shownName = "" then spelling else shownName) (items.map
      (s.link format ⟨[spelling], true, false, "../../"⟩ (pep503 spelling))), items, ?_, hreads,
      rfl, hnodup, ?_, ?_⟩
    · simp only [hdir, hlinks]
      rfl
    · rintro ⟨v, name⟩ hitem
      obtain ⟨hv, ⟨content, hfile⟩, -⟩ := (hmem v name).mp hitem
      have hrow := (Catalogue.mem_getAllVersions.mp (List.mem_reverse.mp hv)).1
      exact ⟨h.catalogue.hashes v hrow, content, hfile⟩
    · intro version name content hfile
      obtain ⟨-, -, ⟨p, hp, hpkey, v, hv, hid, hversion⟩, hvisible, hshown⟩ := h.fileOk hfile
      obtain rfl := h.catalogue.unique p hp project hproject (.inl (hpkey.trans hkey.symm))
      refine List.mem_map.mpr ⟨(v, name), (hmem v name).mpr ⟨?_, ?_⟩, by rw [hversion]⟩
      · exact List.mem_reverse.mpr (Catalogue.mem_getAllVersions.mpr ⟨hv, hid⟩)
      · rw [hversion]
        exact ⟨⟨content, hfile⟩, hvisible, hshown⟩

theorem target_link {item : DBProjectVersion PythonPackageMetadata × String}
    (hok : FileOk key item.1.version item.2) :
    followReference ["simple", spelling]
        (s.link format ⟨[spelling], true, false, "../../"⟩ key item).href =
      some (fileUri key item.1.version item.2) := by
  refine followReference_fileUri hok ?_ spelling
  unfold hashFragment
  split
  · refine .inl (startsWith_iff.mpr ?_)
    rw [String.toList_append]
    exact List.IsPrefix.trans (by decide) (List.prefix_append _ _)
  · exact .inr rfl

theorem referenceFragment_link {item : DBProjectVersion PythonPackageMetadata × String}
    (hok : FileOk key item.1.version item.2) (hhash : item.1.extra.sha256 = none) :
    referenceFragment (s.link format ⟨[spelling], true, false, "../../"⟩ key item).href =
      (s.hash format [key, item.1.version, item.2]).map fun hash =>
        "sha256=" ++ (base64ToHex format hash).getD hash := by
  have hpath : '#' ∉ ("../../" ++ fileUri key item.1.version item.2).toList := by
    have hpart : ∀ component ∈ [key, item.1.version, item.2], '#' ∉ component.toList := by
      intro component hc hmem
      have hsafe := hok.safe component hc
      simp only [linkSafe, Bool.and_eq_true] at hsafe
      exact absurd (List.all_eq_true.mp hsafe.2.1 _ hmem) (by decide)
    simp only [fileUri, String.toList_append, List.mem_append, not_or]
    exact ⟨by decide, hpart key (by simp), by decide, hpart _ (by simp), by decide,
      hpart _ (by simp)⟩
  change referenceFragment ("../../" ++ fileUri key item.1.version item.2 ++ hashFragment format
    ((s.hash format [key, item.1.version, item.2]).or item.1.extra.sha256)) = _
  rw [hhash, Option.or_none]
  cases s.hash format [key, item.1.version, item.2] with
  | none =>
    rw [hashFragment, String.append_empty]
    exact referenceFragment_eq_none hpath
  | some hash =>
    have htail : hashFragment format (some hash) =
        "#" ++ ("sha256=" ++ (base64ToHex format hash).getD hash) := by
      rw [hashFragment, ← String.append_assoc]
      rfl
    rw [htail, Option.map_some]
    exact referenceFragment_append hpath _

/-- In a state that listable uploads have led to, a page lists the files of its project, if its name
is spelled without runs of separators and none of the files waits for the background task. -/
theorem listed_of_hostedOk (h : HostedOk format backend s) (hname : isPep508Name spelling = true)
    (hruns : hasNoRuns spelling.toList = true)
    (hqueue : ∀ path ∈ s.queue, ¬ IsFileOf s spelling path) :
    Listed format c.toCollation base s spelling := by
  obtain ⟨read, response, items, hget, hreads, hlinks, hnodup, hitems, hall⟩ :=
    renderPackage_spec base c h hname hruns
  have hok : ∀ item ∈ items, FileOk (pep503 spelling) item.1.version item.2 := by
    intro item hitem
    obtain ⟨-, content, hfile⟩ := hitems item hitem
    exact (h.fileOk hfile).1
  have htarget : ∀ item ∈ items,
      target spelling (s.link format ⟨[spelling], true, false, "../../"⟩ (pep503 spelling) item) =
        some [pep503 spelling, item.1.version, item.2] := by
    intro item hitem
    rw [target, target_link (hok item hitem), Option.bind_some,
      requestPath_fileUri (hok item hitem), Option.map_some, components_fileUri (hok item hitem)]
  refine ⟨read, response, hget, ?_, ?_⟩
  · rintro path ⟨content, info, hfile, hinfo, hkey⟩
    obtain ⟨package, version, name, rfl, -, -, hpackage, -⟩ := h.files path content hfile
    obtain rfl := Option.some.inj hinfo
    rw [isNormalizedName, Bool.and_eq_true, beq_iff_eq] at hpackage
    have hspelled : package = pep503 spelling := hpackage.2.symm.trans hkey
    subst hspelled
    have hone : (items.map fun item => (item.1.version, item.2)).count (version, name) = 1 :=
      List.count_eq_one_of_mem hnodup (hall version name content hfile)
    rw [hlinks, List.countP_map, ← hone, List.count_eq_countP, List.countP_map]
    refine List.countP_congr fun item hitem => ?_
    grind
  · intro link hlink
    rw [hlinks] at hlink
    obtain ⟨item, hitem, rfl⟩ := List.mem_map.mp hlink
    obtain ⟨hhash, content, hfile⟩ := hitems item hitem
    obtain ⟨read', hserve⟩ := serveFile_fileUri base (h.of_reads hreads) (hok item hitem)
      (by rw [hreads.storage]; exact hfile) c.toCollation
    refine ⟨_, content, read', target_link (hok item hitem), hserve, fun fragment hfragment => ?_⟩
    rw [referenceFragment_link (hok item hitem) hhash] at hfragment
    obtain ⟨hash, hdigest, rfl⟩ := Option.map_eq_some_iff.mp hfragment
    obtain ⟨-, content', hfile', hmatch⟩ := h.hash hdigest
    obtain rfl := Option.some.inj (hfile.symm.trans hfile')
    rcases hmatch with rfl | hqueued
    · rw [PythonFormat.digest, base64ToHex, format.decode_encode]
      rfl
    · refine absurd ⟨content, _, hfile, rfl, ?_⟩ (hqueue _ hqueued)
      have hnormal := (h.fileOk hfile).2.1
      rw [isNormalizedName, Bool.and_eq_true, beq_iff_eq] at hnormal
      exact hnormal.2

def uploadListable (s : PythonHosted) : Event → Bool
  | .upload upload =>
    match upload.file with
    | .ok (_, path) => listable s.storage.backend path.components
    | .error _ => true
  | .get _ => true
  | .updateMeta _ => true

theorem hostedOk_empty : HostedOk format backend (.empty backend) where
  isBackend := rfl
  staging _ := Store.get_empty _
  catalogue := catalogueOk_empty
  files path content h := by
    rw [PythonHosted.empty, Store.get_empty] at h
    cases h
  sidecars path digest h := by
    rw [PythonHosted.empty, Store.get_empty] at h
    cases h
  isLocal := by
    rintro ⟨path, hqueue | hsidecar⟩
    · cases hqueue
    · exact absurd (Store.get_empty path) hsidecar

theorem HostedOk.step (h : HostedOk format backend s) {event : Event}
    (hlistable : uploadListable s event = true)
    (hstep : pythonHosted format c.toCollation base s event = some s') :
    HostedOk format backend s' := by
  cases event with
  | upload upload =>
    rw [pythonHosted] at hstep
    split at hstep
    · rename_i t hupload
      obtain rfl := Option.some.inj hstep
      refine h.upload (fun content path hfile => ?_) hupload
      rw [uploadListable, hfile, h.isBackend] at hlistable
      exact hlistable
    · cases hstep
  | get uri =>
    rw [pythonHosted] at hstep
    split at hstep
    · rename_i read response hget
      obtain rfl := Option.some.inj hstep
      exact h.of_reads (reads_of_handleGet hget)
    · obtain rfl := Option.some.inj hstep
      exact h
  | updateMeta path => exact h.updateMeta hstep

/-- **Uploads are listed**, in a run in which every upload goes to a listable path: on the page of a
project, asked for by a spelling of its name without runs of separators, while no file of the
project that was saved over another waits for the background task. -/
theorem uploads_listed {events : List Event}
    (hlistable : StepsOk (pythonHosted format c.toCollation base)
      (fun s event => uploadListable s event = true) (.empty backend) events)
    (hrun : run (pythonHosted format c.toCollation base) (.empty backend) events = some s)
    (hname : isPep508Name spelling = true) (hruns : hasNoRuns spelling.toList = true)
    (hqueue : ∀ path ∈ s.queue, ¬ IsFileOf s spelling path) :
    Listed format c.toCollation base s spelling :=
  listed_of_hostedOk (run_invariant_of_stepsOk (I := HostedOk format backend)
    (fun _ _ _ h hok hstep => h.step hok hstep) hostedOk_empty hlistable hrun) hname hruns hqueue

/-- Two contents, their digests, and these in base 64. -/
def knownDigests : List (Bytes × Bytes × String) :=
  [([97, 98, 99], [186, 120, 22, 191, 143, 1, 207, 234, 65, 65, 64, 222, 93, 174, 34, 35, 176, 3,
      97, 163, 150, 23, 122, 156, 180, 16, 255, 97, 242, 0, 21, 173],
      "ungWv48Bz+pBQUDeXa4iI7ADYaOWF3qctBD/YfIAFa0="),
    ([], [227, 176, 196, 66, 152, 252, 28, 20, 154, 251, 244, 200, 153, 111, 185, 36, 39, 174, 65,
      228, 100, 155, 147, 76, 164, 149, 153, 27, 120, 82, 184, 85],
      "47DEQpj8HBSa+/TImW+5JCeuQeRkm5NMpJWZG3hSuFU=")]

/-- SHA-256 and base 64 on the known contents; other bytes are written out behind a star. -/
def PythonFormat.known : PythonFormat where
  sha256 content := ((knownDigests.find? fun e => e.1 == content).map fun e => e.2.1).getD content
  encode bytes := ((knownDigests.find? fun e => e.2.1 == bytes).map fun e => e.2.2).getD
    (String.ofList ('*' :: bytes.map fun b => Char.ofNat b.toNat))
  decode text := ((knownDigests.find? fun e => e.2.2 == text).map fun e => e.2.1).or
    (some ((text.toList.drop 1).map fun ch => UInt8.ofNat ch.toNat))
  decode_encode bytes := by
    cases hfind : knownDigests.find? fun e => e.2.1 == bytes with
    | none =>
      have hstar : (knownDigests.find? fun e => e.2.2 ==
          String.ofList ('*' :: bytes.map fun b => Char.ofNat b.toNat)) = none := by
        refine List.find?_eq_none.mpr fun e he heq => ?_
        have hlist := congrArg String.toList (beq_iff_eq.mp heq)
        rw [String.toList_ofList] at hlist
        have hhead : ∀ e ∈ knownDigests, e.2.2.toList.head? ≠ some '*' := by decide
        exact hhead e he (by rw [hlist]; rfl)
      simp only [Option.map_none, Option.getD_none, hstar, Option.none_or, String.toList_ofList,
        List.drop_one, List.tail_cons, List.map_map]
      refine congrArg some ((List.map_congr_left fun b _ => ?_).trans (List.map_id bytes))
      have hlt : b.toNat < 256 := b.toNat_lt
      have hvalid : b.toNat.isValidChar := .inl (by omega)
      have hchar : (Char.ofNat b.toNat).toNat = b.toNat := by
        rw [Char.ofNat, dif_pos hvalid]
        rfl
      rw [Function.comp_apply, hchar]
      exact UInt8.ofNat_toNat
    | some e =>
      have hmem := List.mem_of_find?_eq_some hfind
      have hbytes := List.find?_some hfind
      have hknown : ∀ e ∈ knownDigests,
          (knownDigests.find? fun e' => e'.2.2 == e.2.2).map (fun e' => e'.2.1) = some e.2.1 := by
        decide
      simp only [Option.map_some, Option.getD_some]
      rw [hknown e hmem, Option.some_or, beq_iff_eq.mp hbytes]

/-- Keys in lower case, compared as they are. -/
def AsciiCollation.exact : AsciiCollation where
  toCollation := .exact
  eq_of_same _ _ _ _ h := beq_iff_eq.mp h

/-- Two files of one version, by path and as a form, a second version, and the first file again,
with other bytes; the page is asked for in between, and the background task has its turn at the
end. -/
def demoUploads : List Event :=
  [.upload ⟨"demo-pkg/1.0/demo_pkg-1.0.tar.gz", .raw [97, 98, 99]⟩,
    .upload ⟨"", .multipart (some [⟨some "name", none, "demo-pkg", []⟩,
      ⟨some "version", none, "1.0", []⟩,
      ⟨some "content", some "demo_pkg-1.0-py3-none-any.whl", "", []⟩])⟩,
    .upload ⟨"demo-pkg/1.1/demo_pkg-1.1.tar.gz", .raw []⟩,
    .get "simple/Demo_Pkg/",
    .upload ⟨"demo-pkg/1.0/demo_pkg-1.0.tar.gz", .raw []⟩,
    .updateMeta ["demo-pkg", "1.0", "demo_pkg-1.0.tar.gz"]]

/-- An upload whose name is spelled in another way. -/
def spelledUpload : List Event :=
  [.upload ⟨"Example_Pkg/1.0.0/example_pkg-1.0.0.tar.gz", .raw [97, 98, 99]⟩]

theorem demo_runs :
    StepsOk (pythonHosted .known AsciiCollation.exact.toCollation "/repositories/test/pypi")
        (fun s event => uploadListable s event = true) (.empty .local) demoUploads ∧
      (run (pythonHosted .known .exact "/repositories/test/pypi") (.empty .local)
        demoUploads).any (fun s => s.queue.isEmpty) = true ∧
      (run (pythonHosted .known .exact "/repositories/test/pypi") (.empty .local)
        spelledUpload).any (fun s =>
          (s.storage.objects.get ["Example_Pkg", "1.0.0", "example_pkg-1.0.0.tar.gz"]).isSome &&
          match s.handleGet .known .exact "/repositories/test/pypi" (simpleUri "example-pkg") with
          | .ok (_, response) => response.links.isEmpty
          | .error _ => false) = true ∧
      pep503 "Example_Pkg" = pep503 "example-pkg" := by
  decide +kernel

theorem uploads_listed_demo : ∃ s, run (pythonHosted .known .exact "/repositories/test/pypi")
      (.empty .local) demoUploads = some s ∧
    Listed .known .exact "/repositories/test/pypi" s "Demo.Pkg" := by
  obtain ⟨hlistable, hrun, -⟩ := demo_runs
  obtain ⟨s, hs, hqueue⟩ := (Option.any_eq_true _ _).mp hrun
  rw [List.isEmpty_iff] at hqueue
  refine ⟨s, hs, uploads_listed (c := .exact) hlistable hs (by decide) (by decide) ?_⟩
  rw [hqueue]
  exact fun path hpath => absurd hpath List.not_mem_nil

/-- Without the condition the page of the project has no link to the file. -/
theorem not_listed_spelled : ∃ s, run (pythonHosted .known .exact "/repositories/test/pypi")
      (.empty .local) spelledUpload = some s ∧
    ¬ Listed .known .exact "/repositories/test/pypi" s "example-pkg" := by
  obtain ⟨-, -, hrun, hspelled⟩ := demo_runs
  obtain ⟨s, hs, hend⟩ := (Option.any_eq_true _ _).mp hrun
  rw [Bool.and_eq_true] at hend
  obtain ⟨hfile, hpage⟩ := hend
  obtain ⟨content, hcontent⟩ := Option.isSome_iff_exists.mp hfile
  refine ⟨s, hs, ?_⟩
  rintro ⟨read, response, hget, honce, -⟩
  rw [hget] at hpage
  have hlink := honce _ ⟨content, _, hcontent, rfl, hspelled⟩
  rw [List.isEmpty_iff.mp hpage] at hlink
  cases hlink

end Pkgly.Python
