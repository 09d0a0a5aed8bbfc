import Pkgly.Go.Hosted
import Pkgly.Storage.Equiv.DynStorage

/-!
# The list of versions of a Go module

The list is written as a whole by every upload and every deletion, from what the request has read a
step earlier.  As long as each write is of the list as it is, the list says of every version what
has been completed last about it (`versions_listed`); two requests that read the list before either
of them writes it lose one of their entries (`not_listsVersions_racing`).
-/

namespace Pkgly.Go

variable {module : GoModulePath}

/-! ### Reading a list back -/

def Plain (line : String) : Prop := '\n' ∉ line.toList ∧ trim line = line.toList ∧ line ≠ ""

instance (line : String) : Decidable (Plain line) :=
  inferInstanceAs (Decidable (_ ∧ _ ∧ _))

theorem readLines_line {line : String} (h : Plain line) (rest : String) :
    readLines (line ++ "\n" ++ rest) = line :: readLines rest := by
  obtain ⟨hbreak, htrim, hne⟩ := h
  simp_all [List.splitOn_append_cons_self, List.splitOn_eq_singleton, readLines, pieces,
    List.map_cons, List.filter_cons_of_pos, String.ofList_toList]

theorem joinLines_cons_cons (v w : String) (lines : List String) :
    joinLines (v :: w :: lines) = v ++ "\n" ++ joinLines (w :: lines) := by
  rw [joinLines, String.intercalate_cons_cons, String.append_assoc]
  rfl

/-- **Reading what was written.** -/
theorem readLines_joinLines {lines : List String} (h : ∀ line ∈ lines, Plain line) :
    readLines (joinLines lines) = lines := by
  induction lines with
  | nil => decide
  | cons v lines ih =>
    have hv : Plain v := h v List.mem_cons_self
    cases lines with
    | nil =>
      have hone : joinLines [v] = v ++ "\n" ++ "" := by
        rw [joinLines, String.intercalate_singleton, String.append_empty]
      have hnil : readLines "" = [] := by decide
      rw [hone, readLines_line hv, hnil]
    | cons w lines =>
      grind [joinLines_cons_cons, readLines_line, List.mem_cons_of_mem]

/-! ### Where the list is -/

def listKey (module : GoModulePath) : List String := (listPath module).components

theorem listKey_eq (module : GoModulePath) :
    listKey module = segments '/' module.text ++ ["@v", "list"] := by
  have h : segments '/' "@v/list" = ["@v", "list"] := by decide
  rw [← h]
  rfl

/-- Neither writing nor deleting the path concerns the list. -/
def Apart (module : GoModulePath) (path : StoragePath) : Prop :=
  path.components.isPrefixOf (listKey module) = false

variable {path : StoragePath} {entries : List String}

theorem apart_of_not_prefix {tail : List String}
    (h : path.components = segments '/' module.text ++ tail) (hne : ¬ tail <+: ["@v", "list"]) :
    Apart module path := by
  rw [Apart, h, listKey_eq, ← Bool.not_eq_true, List.isPrefixOf_iff_prefix,
    List.prefix_append_right_inj]
  exact hne

theorem GoFileType.notMem_suffix (fileType : GoFileType) : '/' ∉ fileType.suffix.toList := by
  cases fileType <;> decide

theorem GoFileType.suffix_ne (fileType : GoFileType) : fileType.suffix.toList ≠ [] := by
  cases fileType <;> decide

theorem not_prefix_of_suffix {suffix : String} (hsep : '/' ∉ suffix.toList)
    (hne : suffix.toList ≠ []) (hlast : suffix.toList.getLast? ≠ some 't') (version : String) :
    ¬ segments '/' ("@v/" ++ version ++ suffix) <+: ["@v", "list"] := by
  have hpath : "@v/" ++ version ++ suffix = "@v" ++ ("/" ++ (version ++ suffix)) := by
    refine String.toList_inj.mp ?_
    simp
  have hv : segments '/' "@v" = ["@v"] := by decide
  rw [hpath, StoragePath.segments_slash, hv, List.singleton_append, List.cons_prefix_cons]
  rintro ⟨-, hprefix⟩
  obtain ⟨stem, hstem⟩ := getLast?_segments_append hsep hne version
  have hmem : stem ++ suffix ∈ ["list"] :=
    hprefix.subset (List.mem_of_getLast? hstem)
  have htext := congrArg (fun s => s.toList.getLast?) (List.mem_singleton.mp hmem)
  simp only [String.toList_append, List.getLast?_append_of_ne_nil _ hne] at htext
  exact hlast (htext.trans (by decide))

theorem GoFileType.getLast?_suffix (fileType : GoFileType) :
    fileType.suffix.toList.getLast? ≠ some 't' := by
  cases fileType <;> decide

theorem apart_moduleFilePath (version : GoVersion) (fileType : GoFileType) :
    Apart module (moduleFilePath module version fileType) :=
  apart_of_not_prefix rfl (not_prefix_of_suffix fileType.notMem_suffix fileType.suffix_ne
    fileType.getLast?_suffix version.text)

theorem apart_latestPath : Apart module (latestPath module) := by
  have hsegments : segments '/' "@latest" = ["@latest"] := by decide
  have h : (latestPath module).components = segments '/' module.text ++ ["@latest"] := by
    rw [← hsegments]
    rfl
  exact apart_of_not_prefix h (by decide)

theorem apart_goModPath : Apart module (goModPath module) := by
  have hsegments : segments '/' "go.mod" = ["go.mod"] := by decide
  have h : (goModPath module).components = segments '/' module.text ++ ["go.mod"] := by
    rw [← hsegments]
    rfl
  exact apart_of_not_prefix h (by decide)

theorem isDirectory_listPath (module : GoModulePath) : (listPath module).isDirectory = false := by
  show (StoragePath.ofString "@v/list").isDirectory = false
  decide

/-! ### What a deletion does -/

theorem rsplitVersions_append {fileName : String} (h : '/' ∉ fileName.toList) (module : String) :
    rsplitVersions (module ++ "/@v/" ++ fileName) = some (module, fileName) := by
  have htext : (module ++ "/@v/" ++ fileName).toList.reverse =
      fileName.toList.reverse ++ '/' :: ("v@/".toList ++ module.toList.reverse) := by
    simp
  have hsplit : splitOnce ('/' :: "v@/".toList)
      (fileName.toList.reverse ++ '/' :: ("v@/".toList ++ module.toList.reverse)) =
      some (fileName.toList.reverse, module.toList.reverse) :=
    splitOnce_append (mt List.mem_reverse.mp h) module.toList.reverse
  rw [rsplitVersions, htext, show "/v@/".toList = '/' :: "v@/".toList by decide, hsplit]
  simp

theorem stripGoSuffix_append (text : String) (fileType : GoFileType) :
    stripGoSuffix (text ++ fileType.suffix) = some text := by
  have hown : stripSuffix fileType.suffix.toList (text ++ fileType.suffix).toList =
      some text.toList := by
    rw [stripSuffix_eq_some_iff, String.toList_append]
  have hother : ∀ suffix : String, suffix.toList.getLast? ≠ fileType.suffix.toList.getLast? →
      suffix.toList ≠ [] → stripSuffix suffix.toList (text ++ fileType.suffix).toList = none := by
    intro suffix hlast hne
    rw [Option.eq_none_iff_forall_ne_some]
    intro base hbase
    have heq := congrArg List.getLast? (stripSuffix_eq_some_iff.mp hbase)
    rw [String.toList_append, List.getLast?_append_of_ne_nil _ hne,
      List.getLast?_append_of_ne_nil _ fileType.suffix_ne] at heq
    exact hlast heq.symm
  unfold stripGoSuffix goFileSuffixes
  cases fileType with
  | zip =>
    rw [List.findSome?_cons, show ".zip" = GoFileType.zip.suffix from rfl, hown]
    simp
  | goMod =>
    rw [List.findSome?_cons, hother ".zip" (by decide) (by decide), List.findSome?_cons,
      show ".mod" = GoFileType.goMod.suffix from rfl, hown]
    simp
  | info =>
    rw [List.findSome?_cons, hother ".zip" (by decide) (by decide), List.findSome?_cons,
      hother ".mod" (by decide) (by decide), List.findSome?_cons,
      show ".info" = GoFileType.info.suffix from rfl, hown]
    simp

/-- **What a deletion does**: it deletes the three files of the version, and takes it off the
list. -/
theorem deleteGoPackage_eq {version : String} (h : '/' ∉ version.toList) (fileType : GoFileType) :
    deleteGoPackage (deletedPath module fileType version) =
      (goFileSuffixes.map fun suffix =>
        Instr.deleteFile (.ofString (module.text ++ "/@v/" ++ version ++ suffix))) ++
      [.openList (.ofString (module.text ++ "/@v/list")) version] ++ [.getLatest module] ++
      [.sql] := by
  have hname : '/' ∉ (version ++ fileType.suffix).toList := by
    rw [String.toList_append, List.mem_append, not_or]
    exact ⟨h, fileType.notMem_suffix⟩
  have hsplit : rsplitVersions (deletedPath module fileType version) =
      some (module.text, version ++ fileType.suffix) := by grind [deletedPath, String.append_assoc,
                                                          rsplitVersions_append]
  simp_all [goRelatedPaths, deletedPath, stripGoSuffix_append, deleteGoPackage, updateGoVersionList,
    GoModulePath.new_text, Option.getD_some, List.map_map]

theorem apart_deleted {suffix : String} (h : suffix ∈ goFileSuffixes) (version : String) :
    Apart module (.ofString (module.text ++ "/@v/" ++ version ++ suffix)) := by
  have hpath : module.text ++ "/@v/" ++ version ++ suffix =
      module.text ++ ("/" ++ ("@v/" ++ version ++ suffix)) := by
    refine String.toList_inj.mp ?_
    simp
  have hsegments : (StoragePath.ofString (module.text ++ "/@v/" ++ version ++ suffix)).components =
      segments '/' module.text ++ segments '/' ("@v/" ++ version ++ suffix) := by
    rw [hpath]
    exact StoragePath.segments_slash _ _
  refine apart_of_not_prefix hsegments (not_prefix_of_suffix ?_ ?_ ?_ version)
  all_goals
    simp only [goFileSuffixes, List.mem_cons, List.not_mem_nil, or_false] at h
    rcases h with rfl | rfl | rfl <;> decide

theorem components_deletedList (module : GoModulePath) :
    (StoragePath.ofString (module.text ++ "/@v/list")).components = listKey module := by
  have hpath : module.text ++ "/@v/list" = module.text ++ ("/" ++ "@v/list") := by
    refine String.toList_inj.mp ?_
    simp
  rw [hpath]
  exact StoragePath.segments_slash _ _

theorem isDirectory_deletedList (module : GoModulePath) :
    (StoragePath.ofString (module.text ++ "/@v/list")).isDirectory = false := by
  rw [← Bool.not_eq_true]
  intro h
  obtain ⟨stem, hstem⟩ := StoragePath.exists_of_isDirectory h
  have htext := congrArg (fun s => s.toList.reverse.head?) hstem
  simp at htext

/-! ### Changing one entry -/

structure Listing (entries : List String) : Prop where
  nodup : entries.Nodup
  plain : ∀ v ∈ entries, Plain v
  valid : ∀ v ∈ entries, validateVersion v = true

theorem listing_nil : Listing [] :=
  ⟨List.nodup_nil, fun _ h => absurd h List.not_mem_nil, fun _ h => absurd h List.not_mem_nil⟩

theorem map_filterMap_new (h : ∀ v ∈ entries, validateVersion v = true) :
    (entries.filterMap GoVersion.new).map GoVersion.text = entries := by
  induction entries with
  | nil => rfl
  | cons v entries ih =>
    simp_all [GoVersion.new, List.filterMap_cons_some, List.map_cons]

theorem ensureVersion_perm (h : ∀ v ∈ entries, validateVersion v = true)
    (version : GoVersion) : (ensureVersion version entries).Perm
      (if version.text ∈ entries then entries else entries ++ [version.text]) := by
  have hany : (entries.filterMap GoVersion.new).any (fun v => v.text == version.text) = true ↔
      version.text ∈ entries := by grind [List.any_eq_true, map_filterMap_new, List.mem_map_of_mem]
  unfold ensureVersion
  refine ((List.perm_insertionSort _ _).map _).trans (List.Perm.of_eq ?_)
  by_cases hmem : version.text ∈ entries
  · rw [if_pos (hany.mpr hmem), if_pos hmem, map_filterMap_new h]
  · rw [if_neg (mt hany.mp hmem), if_neg hmem, List.map_append, map_filterMap_new h]
    rfl

theorem mem_ensureVersion (h : ∀ v ∈ entries, validateVersion v = true)
    {version : GoVersion} {v : String} :
    v ∈ ensureVersion version entries ↔ v ∈ entries ∨ v = version.text := by
  rw [(ensureVersion_perm h version).mem_iff]
  grind

theorem listing_ensureVersion (h : Listing entries) {version : GoVersion}
    (hplain : Plain version.text) : Listing (ensureVersion version entries) where
  nodup := by
    rw [(ensureVersion_perm h.valid version).nodup_iff]
    split_ifs with hmem
    · exact h.nodup
    · rw [List.nodup_append]
      refine ⟨h.nodup, List.nodup_singleton _, fun v hv w hw heq => hmem ?_⟩
      rw [← List.mem_singleton.mp hw, ← heq]
      exact hv
  plain v hv := by
    rcases (mem_ensureVersion h.valid).mp hv with hv | rfl
    · exact h.plain v hv
    · exact hplain
  valid v hv := by
    rcases (mem_ensureVersion h.valid).mp hv with hv | rfl
    · exact h.valid v hv
    · exact version.valid

theorem mem_removeVersion {version v : String} :
    v ∈ removeVersion version entries ↔ v ∈ entries ∧ v ≠ version := by
  rw [removeVersion, List.mem_filter, decide_eq_true_iff]

theorem listing_removeVersion (h : Listing entries) (version : String) :
    Listing (removeVersion version entries) where
  nodup := h.nodup.filter _
  plain v hv := h.plain v (mem_removeVersion.mp hv).1
  valid v hv := h.valid v (mem_removeVersion.mp hv).1

/-! ### The list in the storage -/

variable {st st' : DynStorage}

/-- The content of the file that lists `entries`; there is none without entries. -/
def listContent (entries : List String) : Option Bytes :=
  if entries = [] then none else some (intoBytes (joinLines entries))

theorem listedVersions_listContent (h : Listing entries) :
    listedVersions (listContent entries) = some entries := by
  unfold listContent
  split_ifs with hnil
  · rw [hnil]
    rfl
  · rw [listedVersions, fromUtf8_intoBytes, Option.map_some, readLines_joinLines h.plain]

def entriesOf (module : GoModulePath) (st : DynStorage) : List String :=
  (listedVersions (st.objects.get (listKey module))).getD []

structure StorageOk (module : GoModulePath) (st : DynStorage) : Prop where
  staging : ∀ key, st.staging.get key = none
  content : st.objects.get (listKey module) = listContent (entriesOf module st)
  listing : Listing (entriesOf module st)
  accepted : st.objects.get (listKey module) ≠ none → st.rejects (listPath module) = false

theorem StorageOk.listed (h : StorageOk module st) :
    listedVersions (st.objects.get (listKey module)) = some (entriesOf module st) := by
  rw [h.content]
  exact listedVersions_listContent h.listing

theorem entriesOf_of_content
    (h : st.objects.get (listKey module) = listContent entries) (hlisting : Listing entries) :
    entriesOf module st = entries := by
  rw [entriesOf, h, listedVersions_listContent hlisting]
  rfl

theorem storageOk_of_content (hstaging : ∀ key, st.staging.get key = none)
    (h : st.objects.get (listKey module) = listContent entries) (hlisting : Listing entries)
    (haccepted : st.objects.get (listKey module) ≠ none → st.rejects (listPath module) = false) :
    StorageOk module st := by
  have hentries := entriesOf_of_content h hlisting
  exact ⟨hstaging, hentries ▸ h, hentries ▸ hlisting, haccepted⟩

structure SameList (module : GoModulePath) (st st' : DynStorage) : Prop where
  backend : st'.backend = st.backend
  staging : ∀ key, st.staging.get key = none → st'.staging.get key = none
  content : st'.objects.get (listKey module) = st.objects.get (listKey module)

theorem SameList.refl (st : DynStorage) : SameList module st st := ⟨rfl, fun _ h => h, rfl⟩

theorem SameList.entries_eq (h : SameList module st st') :
    entriesOf module st' = entriesOf module st := by
  rw [entriesOf, entriesOf, h.content]

theorem SameList.rejects_eq (h : SameList module st st') (path : StoragePath) :
    st'.rejects path = st.rejects path := by
  rw [DynStorage.rejects, DynStorage.rejects, h.backend]

theorem SameList.storageOk (h : SameList module st st') (hok : StorageOk module st) :
    StorageOk module st' where
  staging key := h.staging key (hok.staging key)
  content := by rw [h.content, h.entries_eq, hok.content]
  listing := h.entries_eq ▸ hok.listing
  accepted hne := by
    rw [h.rejects_eq]
    exact hok.accepted (h.content ▸ hne)

theorem sameList_saveFile {content : Bytes} (hapart : Apart module path)
    (h : st.saveFile content path = .ok st') : SameList module st st' := by
  rw [DynStorage.eq_of_saveFile h]
  refine ⟨rfl, fun _ h => h, Store.get_put_of_ne _ _ fun heq => ?_⟩
  rw [Apart, ← heq, ← Bool.not_eq_true, List.isPrefixOf_iff_prefix] at hapart
  exact hapart (List.prefix_refl _)

theorem sameList_deleteFile {found : Bool} (hapart : Apart module path)
    (h : st.deleteFile path = .ok (st', found)) : SameList module st st' := by
  have hkept : DynStorage.deletes st.backend path (listKey module) = false := by
    unfold DynStorage.deletes
    cases st.backend with
    | «local» => exact hapart
    | s3 =>
      rw [Bool.and_eq_false_iff, beq_eq_false_iff_ne]
      refine Or.inr fun heq => ?_
      rw [Apart, ← heq, ← Bool.not_eq_true, List.isPrefixOf_iff_prefix] at hapart
      exact hapart (List.prefix_refl _)
  rw [DynStorage.eq_of_deleteFile h]
  refine ⟨rfl, fun key hkey => ?_, ?_⟩
  · rw [DynStorage.getStaging_erase, hkey, ite_self]
  · rw [DynStorage.get_erase, hkept, if_neg Bool.false_ne_true]

theorem openContent_list (hstaging : ∀ key, st.staging.get key = none)
    (hkey : path.components = listKey module) (hdirectory : path.isDirectory = false)
    (haccepted : st.rejects path = false) :
    openContent st path = .ok (st.objects.get (listKey module)) := by
  have hlookup : st.lookupKey? path = some (listKey module) := by
    unfold DynStorage.lookupKey?
    rw [hdirectory, hkey]
    cases st.backend <;> rfl
  unfold openContent DynStorage.openFile
  grind

theorem rejects_of_openContent {content : Option Bytes}
    (h : openContent st path = .ok content) : st.rejects path = false := by
  rw [← Bool.not_eq_true]
  intro hrejects
  rw [openContent, DynStorage.openFile, if_pos hrejects] at h
  cases h

theorem rejects_congr {path' : StoragePath} (h : path.components = path'.components) :
    st.rejects path = st.rejects path' := by
  unfold DynStorage.rejects StoragePath.validate
  rw [h]

theorem of_attempt {α : Type} {fails : Bool} {x : Except StorageError α} {a : α}
    (h : attempt fails x = some a) : x = .ok a := by
  unfold attempt at h
  split_ifs at h
  cases x with
  | error e => cases h
  | ok b => exact congrArg _ (Option.some.inj h)

/-! ### The steps that are left -/

def IsList (module : GoModulePath) (path : StoragePath) : Prop :=
  path.components = listKey module ∧ path.isDirectory = false

/-- A step of `request`: those that are not for the list are apart from it. -/
def Instr.Fits (module : GoModulePath) (request : Request) : Instr → Prop
  | .saveFile path _ | .saveAlias path _ | .deleteFile path | .deleteAlias path
  | .loadAlias _ path => Apart module path
  | .stopUnlessPresent => request.isUpload = true
  | .openVersions path version | .saveVersions path version _ =>
    IsList module path ∧ request.isUpload = true ∧ version.text = request.version
  | .openList path version | .saveList path version _ =>
    IsList module path ∧ request.isUpload = false ∧ version = request.version
  | .getLatest module' => module' = module
  | _ => True

/-- The step belongs to `update_go_version_list`. -/
def Instr.updates : Instr → Bool
  | .openList .. | .saveList .. => true
  | _ => false

/-- The steps that are left of a request; a deletion that has not recorded its version is going
to. -/
structure ProgramOk (module : GoModulePath) (r : Process) (program : List Instr) : Prop where
  fits : ∀ instr ∈ program, instr.Fits module r.request
  updates : r.request.isUpload = false → r.recorded = false → ∃ instr ∈ program, instr.updates = true

theorem isList_listPath : IsList module (listPath module) := ⟨rfl, isDirectory_listPath module⟩

theorem programOk_start {request : Request}
    (h : request.isUpload = false → '/' ∉ request.version.toList) :
    ProgramOk module ⟨request, true, false, .running (request.program module)⟩
      (request.program module) := by
  cases request with
  | put fileType version content =>
    refine ⟨fun instr hinstr => ?_, fun hupload => by cases hupload⟩
    have hlist : IsList module (listPath module) := isList_listPath
    have hfile : Apart module (moduleFilePath module version fileType) :=
      apart_moduleFilePath version fileType
    simp only [Request.program, handlePut] at hinstr
    cases fileType with
    | _ =>
      simp only [List.cons_append, List.nil_append, List.mem_cons, List.not_mem_nil, or_false]
        at hinstr
      rcases hinstr with rfl | rfl | rfl | rfl | rfl | rfl | rfl | rfl <;> trivial
  | athens version archive canonical goMod info =>
    refine ⟨fun instr hinstr => ?_, fun hupload => by cases hupload⟩
    have hlist : IsList module (listPath module) := isList_listPath
    have hfile : ∀ fileType, Apart module (moduleFilePath module version fileType) :=
      apart_moduleFilePath version
    simp only [Request.program, handleAthensUpload] at hinstr
    cases canonical with
    | _ =>
      simp only [List.mem_cons, List.not_mem_nil, or_false] at hinstr
      rcases hinstr with rfl | rfl | rfl | rfl | rfl | rfl | rfl <;>
        first
        | trivial
        | exact hfile _
  | delete fileType version =>
    have hversion : '/' ∉ version.toList := h rfl
    rw [Request.program, deleteGoPackage_eq hversion fileType]
    refine ⟨fun instr hinstr => ?_, fun _ _ =>
      ⟨.openList (.ofString (module.text ++ "/@v/list")) version, ?_, rfl⟩⟩
    · simp only [List.mem_append, List.mem_map, List.mem_singleton] at hinstr
      rcases hinstr with ((⟨suffix, hsuffix, rfl⟩ | rfl) | rfl) | rfl
      · exact apart_deleted hsuffix version
      · exact ⟨⟨components_deletedList module, isDirectory_deletedList module⟩, rfl, rfl⟩
      · rfl
      · trivial
    simp

variable {fails : Bool} {r r' : Process} {instr : Instr} {rest : List Instr}

/-- What a step of a request leaves to do: the rest, after the steps that depend on what it has
read; a check may leave nothing. -/
theorem program_of_perform (hfit : instr.Fits module r.request)
    (h : r.perform fails st rest instr = some (st', r')) :
    r'.request = r.request ∧ ((∃ front, r'.status = .running (front ++ rest) ∧
      (∀ i ∈ front, i.Fits module r.request) ∧
      (instr.updates = true → r'.recorded = false → ∃ i ∈ front, i.updates = true)) ∨
      r'.status = .running [] ∧ r.request.isUpload = true) := by
  cases instr with
  | saveFile path content | saveAlias path content | deleteFile path | moduleFileExists path =>
    obtain ⟨_, -, heq⟩ := Option.map_eq_some_iff.mp h
    obtain ⟨rfl, rfl⟩ := Prod.mk.inj heq
    exact ⟨rfl, .inl ⟨[], rfl, by simp, fun hup => by cases hup⟩⟩
  | stopUnlessPresent =>
    obtain ⟨rfl, rfl⟩ := Prod.mk.inj (Option.some.inj h)
    split_ifs
    · exact ⟨rfl, .inl ⟨[], rfl, by simp, fun hup => by cases hup⟩⟩
    · exact ⟨rfl, .inr ⟨rfl, hfit⟩⟩
  | sql =>
    rw [Process.perform] at h
    split_ifs at h
    obtain ⟨rfl, rfl⟩ := Prod.mk.inj (Option.some.inj h)
    exact ⟨rfl, .inl ⟨[], rfl, by simp, fun hup => by cases hup⟩⟩
  | reject => cases h
  | openVersions path version =>
    obtain ⟨read, -, heq⟩ := Option.map_eq_some_iff.mp h
    obtain ⟨rfl, rfl⟩ := Prod.mk.inj heq
    refine ⟨rfl, .inl ⟨[.saveVersions path version read], rfl, fun i hi => ?_,
      fun hup => by cases hup⟩⟩
    rw [List.mem_singleton.mp hi]
    exact hfit
  | saveVersions path version read =>
    obtain ⟨entries, -, hsave⟩ := Option.bind_eq_some_iff.mp h
    obtain ⟨_, -, heq⟩ := Option.map_eq_some_iff.mp hsave
    obtain ⟨rfl, rfl⟩ := Prod.mk.inj heq
    exact ⟨rfl, .inl ⟨[], rfl, by simp, fun hup => by cases hup⟩⟩
  | openList path version =>
    obtain ⟨read, -, heq⟩ := Option.map_eq_some_iff.mp h
    cases read with
    | none =>
      obtain ⟨rfl, rfl⟩ := Prod.mk.inj heq
      exact ⟨rfl, .inl ⟨[], rfl, by simp, fun _ hrecorded => by cases hrecorded⟩⟩
    | some content =>
      obtain ⟨rfl, rfl⟩ := Prod.mk.inj heq
      refine ⟨rfl, .inl ⟨[.saveList path version content], rfl, fun i hi => ?_,
        fun _ _ => ⟨_, List.mem_cons_self, rfl⟩⟩⟩
      rw [List.mem_singleton.mp hi]
      exact hfit
  | saveList path version content =>
    obtain ⟨entries, -, hsave⟩ := Option.bind_eq_some_iff.mp h
    split at hsave
    all_goals
      obtain ⟨_, -, heq⟩ := Option.map_eq_some_iff.mp hsave
      obtain ⟨rfl, rfl⟩ := Prod.mk.inj heq
      exact ⟨rfl, .inl ⟨[], rfl, by simp, fun _ hrecorded => by cases hrecorded⟩⟩
  | getLatest module' =>
    obtain rfl : module' = module := hfit
    obtain ⟨entries, -, heq⟩ := Option.map_eq_some_iff.mp h
    cases hlatest : latestVersion entries with
    | none =>
      rw [hlatest] at heq
      obtain ⟨rfl, rfl⟩ := Prod.mk.inj heq
      refine ⟨rfl, .inl ⟨[.deleteAlias _, .deleteAlias _], rfl, fun i hi => ?_,
        fun hup => by cases hup⟩⟩
      simp only [List.mem_cons, List.not_mem_nil, or_false] at hi
      rcases hi with rfl | rfl
      · exact apart_latestPath
      · exact apart_goModPath
    | some version =>
      rw [hlatest] at heq
      obtain ⟨rfl, rfl⟩ := Prod.mk.inj heq
      refine ⟨rfl, .inl ⟨[.loadAlias _ _, .loadAlias _ _], rfl, fun i hi => ?_,
        fun hup => by cases hup⟩⟩
      simp only [List.mem_cons, List.not_mem_nil, or_false] at hi
      rcases hi with rfl | rfl
      · exact apart_latestPath
      · exact apart_goModPath
  | loadAlias source target =>
    rw [Process.perform] at h
    split at h
    · rename_i content _
      obtain ⟨rfl, rfl⟩ := Prod.mk.inj (Option.some.inj h)
      refine ⟨rfl, .inl ⟨[.saveAlias target content], rfl, fun i hi => ?_,
        fun hup => by cases hup⟩⟩
      rw [List.mem_singleton.mp hi]
      exact hfit
    · obtain ⟨rfl, rfl⟩ := Prod.mk.inj (Option.some.inj h)
      exact ⟨rfl, .inl ⟨[], rfl, by simp, fun hup => by cases hup⟩⟩
  | deleteAlias path =>
    rw [Process.perform] at h
    split at h
    all_goals
      obtain ⟨rfl, rfl⟩ := Prod.mk.inj (Option.some.inj h)
      exact ⟨rfl, .inl ⟨[], rfl, by simp, fun hup => by cases hup⟩⟩

inductive Records (module : GoModulePath) (st : DynStorage) : Instr → DynStorage → Prop
  | listed {path version read entries st'} (hread : listedVersions read = some entries)
      (h : st.saveFile (intoBytes (joinLines (ensureVersion version entries))) path = .ok st') :
      Records module st (.saveVersions path version read) st'
  | absent {path version} (h : st.objects.get (listKey module) = none) :
      Records module st (.openList path version) st
  | emptied {path version content entries st' found}
      (hread : listedVersions (some content) = some entries)
      (hempty : removeVersion version entries = []) (h : st.deleteFile path = .ok (st', found)) :
      Records module st (.saveList path version content) st'
  | removed {path version content entries st'}
      (hread : listedVersions (some content) = some entries)
      (hne : removeVersion version entries ≠ [])
      (h : st.saveFile (intoBytes (joinLines (removeVersion version entries))) path = .ok st') :
      Records module st (.saveList path version content) st'

theorem storage_of_perform (hok : StorageOk module st) (hfit : instr.Fits module r.request)
    (h : r.perform fails st rest instr = some (st', r')) :
    SameList module st st' ∧ r'.recorded = r.recorded ∨
      r'.recorded = true ∧ Records module st instr st' := by
  cases instr with
  | saveFile path content | saveAlias path content =>
    obtain ⟨_, hsave, heq⟩ := Option.map_eq_some_iff.mp h
    obtain ⟨rfl, rfl⟩ := Prod.mk.inj heq
    exact .inl ⟨sameList_saveFile hfit (of_attempt hsave), rfl⟩
  | deleteFile path =>
    obtain ⟨_, hdelete, heq⟩ := Option.map_eq_some_iff.mp h
    obtain ⟨rfl, rfl⟩ := Prod.mk.inj heq
    exact .inl ⟨sameList_deleteFile hfit (of_attempt hdelete), rfl⟩
  | moduleFileExists path =>
    obtain ⟨_, -, heq⟩ := Option.map_eq_some_iff.mp h
    obtain ⟨rfl, rfl⟩ := Prod.mk.inj heq
    exact .inl ⟨.refl _, rfl⟩
  | stopUnlessPresent =>
    obtain ⟨rfl, rfl⟩ := Prod.mk.inj (Option.some.inj h)
    refine .inl ⟨.refl _, ?_⟩
    split_ifs <;> rfl
  | sql =>
    rw [Process.perform] at h
    split_ifs at h
    obtain ⟨rfl, rfl⟩ := Prod.mk.inj (Option.some.inj h)
    exact .inl ⟨.refl _, rfl⟩
  | reject => cases h
  | openVersions path version =>
    obtain ⟨read, -, heq⟩ := Option.map_eq_some_iff.mp h
    obtain ⟨rfl, rfl⟩ := Prod.mk.inj heq
    exact .inl ⟨.refl _, rfl⟩
  | saveVersions path version read =>
    obtain ⟨entries, hread, hsave⟩ := Option.bind_eq_some_iff.mp h
    obtain ⟨_, hsaved, heq⟩ := Option.map_eq_some_iff.mp hsave
    obtain ⟨rfl, rfl⟩ := Prod.mk.inj heq
    exact .inr ⟨rfl, .listed hread (of_attempt hsaved)⟩
  | openList path version =>
    obtain ⟨read, hread, heq⟩ := Option.map_eq_some_iff.mp h
    cases read with
    | none =>
      obtain ⟨rfl, rfl⟩ := Prod.mk.inj heq
      have hopen := of_attempt hread
      rw [openContent_list hok.staging hfit.1.1 hfit.1.2 (rejects_of_openContent hopen)] at hopen
      exact .inr ⟨rfl, .absent (Except.ok.inj hopen)⟩
    | some content =>
      obtain ⟨rfl, rfl⟩ := Prod.mk.inj heq
      exact .inl ⟨.refl _, rfl⟩
  | saveList path version content =>
    obtain ⟨entries, hread, hsave⟩ := Option.bind_eq_some_iff.mp h
    split at hsave
    · rename_i hempty
      obtain ⟨⟨_, found⟩, hdelete, heq⟩ := Option.map_eq_some_iff.mp hsave
      obtain ⟨rfl, rfl⟩ := Prod.mk.inj heq
      exact .inr ⟨rfl, .emptied hread hempty (of_attempt hdelete)⟩
    · rename_i hne
      obtain ⟨_, hsaved, heq⟩ := Option.map_eq_some_iff.mp hsave
      obtain ⟨rfl, rfl⟩ := Prod.mk.inj heq
      exact .inr ⟨rfl, .removed hread hne (of_attempt hsaved)⟩
  | getLatest module' =>
    obtain ⟨entries, -, heq⟩ := Option.map_eq_some_iff.mp h
    split at heq
    all_goals
      obtain ⟨rfl, rfl⟩ := Prod.mk.inj heq
      exact .inl ⟨.refl _, rfl⟩
  | loadAlias source target =>
    rw [Process.perform] at h
    split at h
    all_goals
      obtain ⟨rfl, rfl⟩ := Prod.mk.inj (Option.some.inj h)
      exact .inl ⟨.refl _, rfl⟩
  | deleteAlias path =>
    rw [Process.perform] at h
    split at h
    · rename_i result hdelete
      obtain ⟨rfl, rfl⟩ := Prod.mk.inj (Option.some.inj h)
      exact .inl ⟨sameList_deleteFile hfit (of_attempt hdelete), rfl⟩
    · obtain ⟨rfl, rfl⟩ := Prod.mk.inj (Option.some.inj h)
      exact .inl ⟨.refl _, rfl⟩

/-- The write is based on what the list says now. -/
def Instr.isCurrent (module : GoModulePath) (st : DynStorage) : Instr → Bool
  | .saveVersions _ _ read => st.objects.get (listKey module) == read
  | .saveList _ _ content => st.objects.get (listKey module) == some content
  | _ => true

theorem storageOk_of_save (hok : StorageOk module st)
    (hlist : IsList module path) (hne : entries ≠ []) (hlisting : Listing entries)
    (h : st.saveFile (intoBytes (joinLines entries)) path = .ok st') :
    StorageOk module st' ∧ entriesOf module st' = entries := by
  have hcontent : st'.objects.get (listKey module) = listContent entries := by
    rw [DynStorage.eq_of_saveFile h, hlist.1, listContent, if_neg hne]
    exact Store.get_put_self _ _ _
  refine ⟨storageOk_of_content (fun key => ?_) hcontent hlisting fun _ => ?_,
    entriesOf_of_content hcontent hlisting⟩
  · rw [DynStorage.eq_of_saveFile h]
    exact hok.staging key
  · have hrejects := DynStorage.rejects_of_saveFile h
    rw [rejects_congr hlist.1] at hrejects
    rw [DynStorage.eq_of_saveFile h]
    exact hrejects

theorem storageOk_of_delete {found : Bool} (hok : StorageOk module st)
    (hlist : IsList module path) (h : st.deleteFile path = .ok (st', found)) :
    StorageOk module st' ∧ entriesOf module st' = [] := by
  have hdeleted : DynStorage.deletes st.backend path (listKey module) = true := by
    unfold DynStorage.deletes
    cases st.backend with
    | «local» =>
      rw [hlist.1, List.isPrefixOf_iff_prefix]
    | s3 =>
      rw [hlist.1, hlist.2]
      simp
  have hcontent : st'.objects.get (listKey module) = listContent [] := by
    rw [DynStorage.eq_of_deleteFile h, DynStorage.get_erase, hdeleted, if_pos rfl]
    rfl
  refine ⟨storageOk_of_content (fun key => ?_) hcontent listing_nil fun hne => ?_,
    entriesOf_of_content hcontent listing_nil⟩
  · rw [DynStorage.eq_of_deleteFile h, DynStorage.getStaging_erase, hok.staging, ite_self]
  · exact absurd hcontent hne

/-- **What a request records**: a write that is based on the current list leaves the list with the
version of an upload, or without that of a deletion, and the other versions as they were. -/
theorem Records.spec (h : Records module st instr st') (hok : StorageOk module st)
    (hfit : instr.Fits module r.request) (hcurrent : instr.isCurrent module st = true)
    (hplain : r.request.isUpload = true → Plain r.request.version) :
    StorageOk module st' ∧ ∀ v, v ∈ entriesOf module st' ↔
      if v = r.request.version then r.request.isUpload = true else v ∈ entriesOf module st := by
  cases h with
  | @listed path version read entries _ hread hsave =>
    obtain ⟨hlist, hupload, hversion⟩ := hfit
    rw [← beq_iff_eq.mp hcurrent, hok.listed] at hread
    obtain rfl := Option.some.inj hread
    have hmem : ∀ v, v ∈ ensureVersion version (entriesOf module st) ↔
        v ∈ entriesOf module st ∨ v = version.text := fun v => mem_ensureVersion hok.listing.valid
    have hne : ensureVersion version (entriesOf module st) ≠ [] :=
      List.ne_nil_of_mem ((hmem version.text).mpr (.inr rfl))
    have hlisting := listing_ensureVersion hok.listing (hversion ▸ hplain hupload)
    obtain ⟨hok', hentries⟩ := storageOk_of_save hok hlist hne hlisting hsave
    grind
  | absent hnone =>
    obtain ⟨-, hupload, -⟩ := hfit
    have hentries : entriesOf module st = [] := by
      rw [entriesOf, hnone]
      rfl
    refine ⟨hok, fun v => ?_⟩
    rw [hentries, hupload]
    split_ifs <;> simp
  | @emptied path version content entries _ found hread hempty hdelete =>
    obtain ⟨hlist, hupload, rfl⟩ := hfit
    rw [← beq_iff_eq.mp hcurrent, hok.listed] at hread
    obtain rfl := Option.some.inj hread
    grind [storageOk_of_delete, mem_removeVersion]
  | @removed path version content entries _ hread hne hsave =>
    obtain ⟨hlist, hupload, rfl⟩ := hfit
    rw [← beq_iff_eq.mp hcurrent, hok.listed] at hread
    obtain rfl := Option.some.inj hread
    have hlisting := listing_removeVersion hok.listing r.request.version
    grind [storageOk_of_save, mem_removeVersion]

/-! ### The condition on a run -/

abbrev Module := Pool GoHosted Process

/-- The request has dealt with the list and has not ended yet. -/
def Process.isTail (r : Process) : Bool :=
  r.recorded && match r.status with
    | .running _ => true
    | _ => false

/-- No request of the other kind about the version has dealt with the list and not ended yet. -/
def isUnopposed (p : Module) (request : Request) : Bool :=
  p.processes.all fun q => !(q.isTail && q.request.version == request.version &&
    q.request.isUpload != request.isUpload)

/-- A list keeps the version of an upload as a line; the path of a deletion names its version. -/
def Request.isOrdinary (request : Request) : Bool :=
  if request.isUpload then decide (Plain request.version)
  else !('/' ∈ request.version.toList)

/-- The condition on a step of `r`: it writes the list as it is now, not between the write and the
end of an opposite request, and it does not fail after that. -/
def stepOk (module : GoModulePath) (p : Module) (fails : Bool) (r : Process) : Bool :=
  match r.status with
  | .running (instr :: rest) =>
    (!r.recorded || (r.perform fails p.shared.storage rest instr).isSome ||
      r.request.isUpload && instr.refreshes) &&
    match instr with
    | .saveVersions .. | .saveList .. =>
      fails || instr.isCurrent module p.shared.storage && isUnopposed p r.request
    | _ => true
  | _ => true

def goGuarded (module : GoModulePath) (p : Module) : Pool.Action Request Bool → Bool
  | .start request => request.isOrdinary
  | .advance i fails => p.processes[i]?.all fun r => stepOk module p fails r

/-! ### The last event of a version -/

/-- What has been completed last about a version: an upload or a deletion. -/
def lastEvent (log : List Event) (version : String) : Option Bool :=
  (log.reverse.find? fun event => event.version == version).map Event.isUpload

theorem lastEvent_append (log : List Event) (event : Event) (version : String) :
    lastEvent (log ++ [event]) version =
      if event.version = version then some event.isUpload else lastEvent log version := by
  grind [lastEvent, List.reverse_append, List.reverse_singleton, List.singleton_append]

/-! ### What holds in every state -/

structure ProcessOk (module : GoModulePath) (s : GoHosted) (r : Process) : Prop where
  program : ∀ program, r.status = .running program → ProgramOk module r program
  plain : r.request.isUpload = true → Plain r.request.version
  /-- Until it ends, the list is as it has left it. -/
  current : r.isTail = true →
    (r.request.version ∈ entriesOf module s.storage ↔ r.request.isUpload = true)

/-- What holds of the list: it says of every version what has been completed last about it, unless
a request about the version is about to end. -/
def Settled (module : GoModulePath) (p : Module) : Prop :=
  ∀ version, (∃ (i : ℕ) (r : Process), p.processes[i]? = some r ∧ r.isTail = true ∧
    r.request.version = version) ∨
    (version ∈ entriesOf module p.shared.storage ↔ lastEvent p.shared.log version = some true)

def goInvariant (module : GoModulePath) : Pool.Invariant GoHosted Process where
  shared s := StorageOk module s.storage
  each := ProcessOk module
  pair _ _ := True

inductive Effect (module : GoModulePath) (p : Module) (r : Process) : GoHosted → Process → Prop
  /-- The list is left alone. -/
  | quiet {st : DynStorage} {r' : Process} (hsame : SameList module p.shared.storage st)
      (hrequest : r'.request = r.request)
      (hprogram : ∀ program, r'.status = .running program → ProgramOk module r' program)
      (htail : r'.isTail = r.isTail) :
      Effect module p r { p.shared with storage := st } r'
  /-- The version is recorded. -/
  | records {st : DynStorage} {r' : Process} (hok : StorageOk module st)
      (hrequest : r'.request = r.request)
      (hprogram : ∀ program, r'.status = .running program → ProgramOk module r' program)
      (htail : r'.isTail = true)
      (hentries : ∀ v, v ∈ entriesOf module st ↔ if v = r.request.version then
        r.request.isUpload = true else v ∈ entriesOf module p.shared.storage)
      (hunopposed : ∀ (j : ℕ) (q : Process), p.processes[j]? = some q → q.isTail = true →
        q.request.version = r.request.version → q.request.isUpload = r.request.isUpload) :
      Effect module p r { p.shared with storage := st } r'
  /-- The request ends. -/
  | ends (hstatus : r.status = .running []) :
      Effect module p r { p.shared with log := p.shared.log ++ r.events }
        { r with status := .finished }

variable {p p' : Module} {s' : GoHosted} {i : ℕ}

theorem programOk_of_perform (hprogram : ProgramOk module r (instr :: rest))
    (hkept : r'.recorded = false → r.recorded = false)
    (h : r.perform fails st rest instr = some (st', r')) :
    r'.request = r.request ∧ ∃ program, r'.status = .running program ∧
      ProgramOk module r' program := by
  obtain ⟨hrequest, ⟨front, hstatus, hfront, hupdates⟩ | ⟨hstatus, hupload⟩⟩ :=
    program_of_perform (hprogram.fits instr List.mem_cons_self) h
  · refine ⟨hrequest, _, hstatus, fun i hi => ?_, fun hupload hrecorded => ?_⟩
    · rw [hrequest]
      rcases List.mem_append.mp hi with hi | hi
      · exact hfront i hi
      · exact hprogram.fits i (List.mem_cons_of_mem _ hi)
    · rw [hrequest] at hupload
      obtain ⟨i, hi, hup⟩ := hprogram.updates hupload (hkept hrecorded)
      grind
  · refine ⟨hrequest, [], hstatus, fun i hi => absurd hi List.not_mem_nil, fun hdelete => ?_⟩
    rw [hrequest, hupload] at hdelete
    cases hdelete

theorem isTail_iff : r.isTail = true ↔
    r.recorded = true ∧ ∃ program, r.status = .running program := by
  unfold Process.isTail
  grind

theorem unopposed_of_records (h : Pool.Holds (goInvariant module) p)
    (hg : stepOk module p fails r = true) (hstatus : r.status = .running (instr :: rest))
    (hperform : r.perform fails p.shared.storage rest instr = some (st, r'))
    (hfit : instr.Fits module r.request) (hrecords : Records module p.shared.storage instr st) :
    instr.isCurrent module p.shared.storage = true ∧
      ∀ (j : ℕ) (q : Process), p.processes[j]? = some q → q.isTail = true →
        q.request.version = r.request.version → q.request.isUpload = r.request.isUpload := by
  have hguarded : ∀ {current : Bool}, (fails || current && isUnopposed p r.request) = true →
      fails = false → current = true ∧ ∀ (j : ℕ) (q : Process), p.processes[j]? = some q →
        q.isTail = true → q.request.version = r.request.version →
          q.request.isUpload = r.request.isUpload := by
    intro current hguard hfails
    rw [hfails, Bool.false_or, Bool.and_eq_true] at hguard
    refine ⟨hguard.1, fun j q hq htail hversion => ?_⟩
    have hq' := List.all_eq_true.mp hguard.2 q (List.mem_of_getElem? hq)
    rw [htail, hversion, beq_self_eq_true, Bool.true_and, Bool.true_and, Bool.not_eq_true',
      bne_eq_false_iff_eq] at hq'
    exact hq'
  have hfails : ∀ {α : Type} {x : Except StorageError α} {a : α}, attempt fails x = some a →
      fails = false := by
    intro α x a hx
    cases fails with
    | true => cases hx
    | false => rfl
  rw [stepOk, hstatus, Bool.and_eq_true] at hg
  cases hrecords with
  | listed =>
    obtain ⟨_, -, hsave⟩ := Option.bind_eq_some_iff.mp hperform
    obtain ⟨_, hattempt, -⟩ := Option.map_eq_some_iff.mp hsave
    exact hguarded hg.2 (hfails hattempt)
  | absent hnone =>
    refine ⟨rfl, fun j q hq htail hversion => ?_⟩
    have hcurrent := (h.each j q hq).current htail
    have hentries : entriesOf module p.shared.storage = [] := by
      rw [entriesOf, hnone]
      rfl
    rw [hentries] at hcurrent
    rw [hfit.2.1, ← Bool.not_eq_true]
    exact fun hupload => List.not_mem_nil (hcurrent.mpr hupload)
  | emptied | removed =>
    obtain ⟨_, -, hsave⟩ := Option.bind_eq_some_iff.mp hperform
    split at hsave
    all_goals
      obtain ⟨_, hattempt, -⟩ := Option.map_eq_some_iff.mp hsave
      exact hguarded hg.2 (hfails hattempt)

/-- A step that fails: the request ends, or an upload leaves out the rest of its refresh. -/
theorem effect_of_failure (hstatus : r.status = .running (instr :: rest))
    (hg : stepOk module p fails r = true)
    (hperform : r.perform fails p.shared.storage rest instr = none) :
    Effect module p r p.shared (if r.request.isUpload && instr.refreshes then r.goto []
      else { r with status := .failed }) := by
  rw [stepOk, hstatus, Bool.and_eq_true, hperform, Option.isSome_none, Bool.or_false] at hg
  by_cases hrefresh : (r.request.isUpload && instr.refreshes) = true
  · rw [if_pos hrefresh]
    have htail : (r.goto []).isTail = r.isTail := by
      rw [Process.isTail, Process.isTail, hstatus]
      rfl
    refine .quiet (.refl _) rfl (fun program hprogram => ⟨fun i hi => ?_, fun hdelete => ?_⟩) htail
    · obtain rfl := (Status.running.inj hprogram).symm
      exact absurd hi List.not_mem_nil
    simp_all [Bool.and_eq_true, Process.goto]
  · rw [if_neg hrefresh]
    have hrecorded : r.recorded = false := by grind
    refine .quiet (.refl _) rfl (fun program hprogram => by cases hprogram) ?_
    rw [Process.isTail, Process.isTail, hrecorded]
    rfl

/-- **A step of a request.** -/
theorem effect_of_next (h : Pool.Holds (goInvariant module) p) (hr : p.processes[i]? = some r)
    (hg : stepOk module p fails r = true) (hnext : r.next fails p.shared = some (s', r')) :
    Effect module p r s' r' := by
  have hok : ProcessOk module p.shared r := h.each i r hr
  cases hstatus : r.status with
  | finished | failed =>
    rw [Process.next, hstatus] at hnext
    cases hnext
  | running program =>
    cases program with
    | nil =>
      rw [Process.next, hstatus] at hnext
      obtain ⟨rfl, rfl⟩ := Prod.mk.inj (Option.some.inj hnext)
      exact .ends hstatus
    | cons instr rest =>
      rw [Process.next, hstatus] at hnext
      dsimp only at hnext
      have hprogram := hok.program _ hstatus
      have hfit := hprogram.fits instr List.mem_cons_self
      cases hperform : r.perform fails p.shared.storage rest instr with
      | none =>
        rw [hperform] at hnext
        obtain ⟨rfl, rfl⟩ := Prod.mk.inj (Option.some.inj hnext)
        exact effect_of_failure hstatus hg hperform
      | some result =>
        obtain ⟨st, q⟩ := result
        rw [hperform] at hnext
        obtain ⟨rfl, rfl⟩ := Prod.mk.inj (Option.some.inj hnext)
        rcases storage_of_perform h.shared hfit hperform with ⟨hsame, hrecorded⟩ | ⟨hrecorded, hrecords⟩
        · obtain ⟨hrequest, program, hq, hprogram'⟩ :=
            programOk_of_perform hprogram (fun hfalse => hrecorded ▸ hfalse) hperform
          refine .quiet hsame hrequest (fun program' hq' => ?_) ?_
          · obtain rfl := Status.running.inj (hq.symm.trans hq')
            exact hprogram'
          · rw [Process.isTail, Process.isTail, hrecorded, hq, hstatus]
        · obtain ⟨hrequest, program, hq, hprogram'⟩ :=
            programOk_of_perform hprogram (fun hfalse => by rw [hrecorded] at hfalse; cases hfalse)
              hperform
          obtain ⟨hcurrent, hunopposed⟩ :=
            unopposed_of_records h hg hstatus hperform hfit hrecords
          obtain ⟨hok', hentries⟩ := hrecords.spec h.shared hfit hcurrent hok.plain
          refine .records hok' hrequest (fun program' hq' => ?_)
            (isTail_iff.mpr ⟨hrecorded, program, hq⟩) hentries hunopposed
          obtain rfl := Status.running.inj (hq.symm.trans hq')
          exact hprogram'

/-! ### A step keeps it -/

theorem processOk_of_effect (hok : ProcessOk module p.shared r) (h : Effect module p r s' r') :
    ProcessOk module s' r' := by
  cases h with
  | quiet hsame hrequest hprogram htail =>
    refine ⟨hprogram, fun hupload => ?_, fun htail' => ?_⟩
    · rw [hrequest] at hupload ⊢
      exact hok.plain hupload
    · rw [hrequest, hsame.entries_eq]
      exact hok.current (htail ▸ htail')
  | records _ hrequest hprogram _ hentries _ =>
    refine ⟨hprogram, fun hupload => ?_, fun _ => ?_⟩
    · rw [hrequest] at hupload ⊢
      exact hok.plain hupload
    · rw [hrequest, hentries, if_pos rfl]
  | ends =>
    refine ⟨fun program hprogram => (by cases hprogram), hok.plain, fun htail => ?_⟩
    obtain ⟨-, program, hprogram⟩ := isTail_iff.mp htail
    cases hprogram

theorem ProcessOk.of_effect {q : Process} {j : ℕ} (hq : ProcessOk module p.shared q)
    (hj : p.processes[j]? = some q) (h : Effect module p r s' r') : ProcessOk module s' q := by
  refine ⟨hq.program, hq.plain, fun htail => ?_⟩
  cases h with
  | quiet hsame =>
    rw [hsame.entries_eq]
    exact hq.current htail
  | records _ _ _ _ hentries hunopposed =>
    rw [hentries]
    split_ifs with hversion
    · rw [hunopposed j q hj htail hversion]
    · exact hq.current htail
  | ends => exact hq.current htail

theorem processOk_start {s : GoHosted} {request : Request} (h : request.isOrdinary = true) :
    ProcessOk module s ((goHosted module).init request) := by
  refine ⟨fun program hprogram => ?_, fun hupload => ?_, fun htail => by cases htail⟩
  · obtain rfl := Status.running.inj hprogram
    refine programOk_start fun hdelete => ?_
    rw [Request.isOrdinary, hdelete, if_neg Bool.false_ne_true, Bool.not_eq_true'] at h
    exact of_decide_eq_false h
  · have hupload' : request.isUpload = true := hupload
    rw [Request.isOrdinary, if_pos hupload'] at h
    exact of_decide_eq_true h

variable {a : Pool.Action Request Bool}

theorem holds_of_step (h : Pool.Holds (goInvariant module) p) (hg : goGuarded module p a = true)
    (hstep : (goHosted module).step p a = some p') : Pool.Holds (goInvariant module) p' := by
  refine h.of_step hstep ?_ ?_
  · rintro input rfl
    exact ⟨processOk_start hg, fun _ => ⟨trivial, trivial⟩⟩
  · rintro i fails r t q rfl hr hnext
    rw [goGuarded, hr] at hg
    have heffect := effect_of_next h hr hg hnext
    refine ⟨?_, processOk_of_effect (h.each i r hr) heffect, fun j u _ hu =>
      ⟨(h.each j u hu).of_effect hu heffect, trivial, trivial⟩⟩
    cases heffect with
    | quiet hsame => exact hsame.storageOk h.shared
    | records hok => exact hok
    | ends => exact h.shared

theorem events_of_ends (hok : ProcessOk module p.shared r) (hstatus : r.status = .running []) :
    r.isTail = false ∧ r.events = [] ∨
      r.isTail = true ∧ r.events = [⟨r.request.isUpload, r.request.version⟩] := by
  have htail : r.isTail = r.recorded := by rw [Process.isTail, hstatus, Bool.and_true]
  rw [htail, Process.events]
  cases hrecorded : r.recorded with
  | true => exact .inr ⟨rfl, by rw [Bool.not_true, Bool.and_false]; rfl⟩
  | false =>
    cases hupload : r.request.isUpload with
    | true => exact .inl ⟨rfl, rfl⟩
    | false =>
      obtain ⟨instr, hinstr, -⟩ := (hok.program [] hstatus).updates hupload hrecorded
      exact absurd hinstr List.not_mem_nil

theorem settled_of_step (h : Pool.Holds (goInvariant module) p) (hs : Settled module p)
    (hg : goGuarded module p a = true) (hstep : (goHosted module).step p a = some p') :
    Settled module p' := by
  cases a with
  | start input =>
    obtain rfl := Option.some.inj hstep
    intro version
    rcases hs version with ⟨i, r, hr, htail⟩ | hsettled
    · exact .inl ⟨i, r, Pool.getElem?_concat_eq_some.mpr (.inl hr), htail⟩
    · exact .inr hsettled
  | advance i fails =>
    obtain ⟨r, t, q, hr, hnext, rfl⟩ := Program.step_advance hstep
    rw [goGuarded, hr] at hg
    have heffect := effect_of_next h hr hg hnext
    have hself : (p.processes.set i q)[i]? = some q :=
      (Pool.getElem?_set_eq_some hr).mpr (.inl ⟨rfl, rfl⟩)
    have hother : ∀ {j : ℕ} {u : Process}, i ≠ j → p.processes[j]? = some u →
        (p.processes.set i q)[j]? = some u := fun hij hu =>
      (Pool.getElem?_set_eq_some hr).mpr (.inr ⟨hij, hu⟩)
    intro version
    cases heffect with
    | @quiet st _ hsame hrequest _ htail =>
      rcases hs version with ⟨j, u, hu, hutail, hversion⟩ | hsettled
      · by_cases hij : i = j
        · subst hij
          obtain rfl := Option.some.inj (hr.symm.trans hu)
          exact .inl ⟨i, q, hself, htail.trans hutail, hrequest ▸ hversion⟩
        · exact .inl ⟨j, u, hother hij hu, hutail, hversion⟩
      · refine .inr ?_
        rw [hsame.entries_eq]
        exact hsettled
    | records _ hrequest _ htail hentries _ =>
      by_cases hown : version = r.request.version
      · exact .inl ⟨i, q, hself, htail, by rw [hrequest, hown]⟩
      · rcases hs version with ⟨j, u, hu, hutail, hversion⟩ | hsettled
        · refine .inl ⟨j, u, hother ?_ hu, hutail, hversion⟩
          rintro rfl
          obtain rfl := Option.some.inj (hr.symm.trans hu)
          exact hown hversion.symm
        · refine .inr ?_
          rw [hentries, if_neg hown]
          exact hsettled
    | ends hstatus =>
      have hstays : ∀ {j : ℕ} {u : Process}, p.processes[j]? = some u → u.isTail = true →
          u.request.version = version → (i = j → r.isTail = true ∧
            r.request.version = version) := by
        rintro j u hu hutail hversion rfl
        obtain rfl := Option.some.inj (hr.symm.trans hu)
        exact ⟨hutail, hversion⟩
      rcases events_of_ends (h.each i r hr) hstatus with ⟨htail, hevents⟩ | ⟨htail, hevents⟩
      · rcases hs version with ⟨j, u, hu, hutail, hversion⟩ | hsettled
        · refine .inl ⟨j, u, hother (fun hij => ?_) hu, hutail, hversion⟩
          rw [(hstays hu hutail hversion hij).1] at htail
          cases htail
        · refine .inr ?_
          rw [hevents, List.append_nil]
          exact hsettled
      · by_cases hown : r.request.version = version
        · refine .inr ?_
          rw [hevents, lastEvent_append, if_pos hown, ← hown,
            (h.each i r hr).current htail, Option.some_inj]
        · rcases hs version with ⟨j, u, hu, hutail, hversion⟩ | hsettled
          · exact .inl ⟨j, u, hother (fun hij => hown (hstays hu hutail hversion hij).2) hu, hutail,
              hversion⟩
          · refine .inr ?_
            rw [hevents, lastEvent_append, if_neg hown]
            exact hsettled

/-! ### The list of versions -/

structure ListOk (module : GoModulePath) (s : GoHosted) : Prop where
  /-- A version whose upload has completed after its last deletion is listed once. -/
  listed : ∀ version, lastEvent s.log version = some true →
    ∃ lines, listGoModuleVersions s.storage module = some lines ∧ lines.count version = 1
  /-- A version that was deleted last is not listed. -/
  unlisted : ∀ version lines, lastEvent s.log version = some false →
    listGoModuleVersions s.storage module = some lines → version ∉ lines

def emptyModule (backend : Backend) : Module := ⟨⟨⟨backend, ∅, ∅⟩, []⟩, []⟩

/-- After the actions `as`, when all requests have ended, the list is right. -/
def ListsVersions (module : GoModulePath) (backend : Backend)
    (as : List (Pool.Action Request Bool)) : Prop :=
  ∀ p, run (goHosted module).step (emptyModule backend) as = some p →
    (∀ (i : ℕ) (r : Process), p.processes[i]? = some r → ∀ program, r.status ≠ .running program) →
      ListOk module p.shared

theorem holds_empty (module : GoModulePath) (backend : Backend) :
    Pool.Holds (goInvariant module) (emptyModule backend) :=
  Pool.holds_nil (storageOk_of_content (fun _ => rfl) rfl listing_nil fun h => absurd rfl h)

theorem settled_empty (module : GoModulePath) (backend : Backend) :
    Settled module (emptyModule backend) :=
  fun version => .inr (iff_of_false List.not_mem_nil fun h => by cases h)

theorem listOk_of_settled (h : Pool.Holds (goInvariant module) p) (hs : Settled module p)
    (hended : ∀ (i : ℕ) (r : Process), p.processes[i]? = some r →
      ∀ program, r.status ≠ .running program) : ListOk module p.shared := by
  have hok : StorageOk module p.shared.storage := h.shared
  have hiff : ∀ version, version ∈ entriesOf module p.shared.storage ↔
      lastEvent p.shared.log version = some true := by
    intro version
    refine (hs version).resolve_left ?_
    rintro ⟨i, r, hr, htail, -⟩
    obtain ⟨-, program, hprogram⟩ := isTail_iff.mp htail
    exact hended i r hr program hprogram
  have hread : p.shared.storage.rejects (listPath module) = false →
      listGoModuleVersions p.shared.storage module = some (entriesOf module p.shared.storage) := by
    intro haccepted
    rw [listGoModuleVersions, openContent_list hok.staging rfl (isDirectory_listPath module)
      haccepted]
    exact hok.listed
  constructor
  · intro version hlast
    have hmem := (hiff version).mpr hlast
    have hstored : p.shared.storage.objects.get (listKey module) ≠ none := by
      intro hnone
      rw [entriesOf, hnone] at hmem
      exact List.not_mem_nil hmem
    exact ⟨_, hread (hok.accepted hstored), List.count_eq_one_of_mem hok.listing.nodup hmem⟩
  · intro version lines hlast hlines hmem
    rw [listGoModuleVersions] at hlines
    have haccepted : p.shared.storage.rejects (listPath module) = false := by
      cases hopen : openContent p.shared.storage (listPath module) with
      | error e =>
        rw [hopen] at hlines
        cases hlines
      | ok content => exact rejects_of_openContent hopen
    grind [listGoModuleVersions, Option.some.inj]

/-- **The list of versions loses no version**, in a run whose writes of the list are based on the
list as it is. -/
theorem versions_listed {backend : Backend} {as : List (Pool.Action Request Bool)}
    (h : StepsOk (goHosted module).step (fun p a => goGuarded module p a = true)
      (emptyModule backend) as) : ListsVersions module backend as := by
  intro p hrun hended
  have hinvariant := run_invariant_of_stepsOk
    (I := fun q => Pool.Holds (goInvariant module) q ∧ Settled module q)
    (fun q a q' hq hg hstep =>
      ⟨holds_of_step hq.1 hg hstep, settled_of_step hq.1 hq.2 hg hstep⟩)
    ⟨holds_empty module backend, settled_empty module backend⟩ h hrun
  exact listOk_of_settled hinvariant.1 hinvariant.2 hended

def demoModule : GoModulePath := ⟨"example.com/demo", by decide⟩

def demoVersion : GoVersion := ⟨"v1.0.0", by decide⟩

def demoSuccessor : GoVersion := ⟨"v1.1.0", by decide⟩

def demoUpload (version : GoVersion) : Request := .athens version [1] (some [2]) [3] [4]

/-- Two uploads that overlap, but do not read the list before the other has written it, and the
deletion of the first version after them. -/
def demoRun : List (Pool.Action Request Bool) :=
  [.start (demoUpload demoVersion), .start (demoUpload demoSuccessor)] ++
    List.replicate 6 (.advance 0 false) ++ List.replicate 6 (.advance 1 false) ++
    List.replicate 7 (.advance 0 false) ++ List.replicate 7 (.advance 1 false) ++
    [.start (.delete .zip "v1.0.0")] ++ List.replicate 12 (.advance 2 false)

theorem versions_listed_demo : ListsVersions demoModule .local demoRun :=
  versions_listed (by decide +kernel)

def racingRun : List (Pool.Action Request Bool) :=
  [.start (demoUpload demoVersion), .start (demoUpload demoSuccessor)] ++
    List.replicate 5 (.advance 0 false) ++ List.replicate 5 (.advance 1 false) ++
    List.replicate 8 (.advance 0 false) ++ List.replicate 8 (.advance 1 false)

def Process.hasEnded (r : Process) : Bool :=
  match r.status with
  | .running _ => false
  | _ => true

theorem Process.status_ne_of_hasEnded (h : r.hasEnded = true) (program : List Instr) :
    r.status ≠ .running program := by
  intro hrunning
  rw [Process.hasEnded, hrunning] at h
  cases h

/-- Without the condition the second write of the list drops the first version. -/
theorem not_listsVersions_racing : ¬ ListsVersions demoModule .local racingRun := by
  intro h
  have hrun : (run (goHosted demoModule).step (emptyModule .local) racingRun).any (fun p =>
      p.processes.all Process.hasEnded && (lastEvent p.shared.log "v1.0.0" == some true &&
        listGoModuleVersions p.shared.storage demoModule == some ["v1.1.0"])) = true := by
    decide +kernel
  obtain ⟨p, hp, hend⟩ := (Option.any_eq_true _ _).mp hrun
  rw [Bool.and_eq_true, Bool.and_eq_true, beq_iff_eq, beq_iff_eq] at hend
  obtain ⟨hended, hlast, hlist⟩ := hend
  have hok : ListOk demoModule p.shared := h p hp fun i r hr =>
    Process.status_ne_of_hasEnded (List.all_eq_true.mp hended r (List.mem_of_getElem? hr))
  obtain ⟨lines, hlines, hcount⟩ := hok.listed "v1.0.0" hlast
  obtain rfl := Option.some.inj (hlist.symm.trans hlines)
  exact absurd hcount (by decide)

end Pkgly.Go
