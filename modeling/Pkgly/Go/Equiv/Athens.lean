import Mathlib.Algebra.Order.BigOperators.Group.List
import Mathlib.Algebra.Order.Ring.Nat
import Pkgly.Algorithm.Separated
import Pkgly.Go.Athens
import Pkgly.Go.Equiv.Hosted
import Pkgly.Storage.Equiv.StoragePath

/-!
# Rejected uploads of Go modules

An upload that is rejected leaves the storage as it is, unless it is rejected for its archive
(`uploadRejection_iff`): that is made canonical when the archive has already been written.
-/

/-!
## What the canonical archive keeps

The files keep their paths below the directory that all of them are in, if and only if the paths
have no dots for directories, no two files clash, and no file has the name of such a directory
(`canonicalize_preserves_iff`): the prefix that is taken away is not that of the directories but
that of the whole paths (`skip_cases`), and a file that is all of it is lost.
-/

namespace Pkgly.Go

/-! ### Common prefixes -/

theorem prefix_commonPrefix_iff {α : Type*} [DecidableEq α] {q a b : List α} :
    q <+: commonPrefix a b ↔ q <+: a ∧ q <+: b := by
  induction a generalizing q b with
  | nil =>
    rw [commonPrefix.eq_def]
    simp +contextual [List.prefix_nil]
  | cons x a ih =>
    cases b with
    | nil => simp +contextual [commonPrefix, List.prefix_nil]
    | cons y b =>
      rw [commonPrefix]
      cases q with
      | nil => simp
      | cons z q =>
        grind

theorem prefix_longestCommonPrefix_iff {entries : List Components} (hne : entries ≠ [])
    {q : Components} : q <+: longestCommonPrefix entries ↔ ∀ entry ∈ entries, q <+: entry := by
  obtain ⟨entry, entries, rfl⟩ := List.exists_cons_of_ne_nil hne
  rw [longestCommonPrefix, List.forall_mem_cons]
  clear hne
  induction entries generalizing entry with
  | nil => simp
  | cons next entries ih =>
    rw [List.foldl_cons, ih, prefix_commonPrefix_iff, List.forall_mem_cons, and_assoc]

/-- No element of a list has a property that passes from each element to a larger one. -/
theorem not_of_increasing {α : Type*} {l : List α} {p : α → Prop} (f : α → ℕ)
    (h : ∀ a ∈ l, p a → ∃ b ∈ l, p b ∧ f a < f b) : ∀ a ∈ l, ¬ p a := by
  have hlarge : ∀ n, ∀ a ∈ l, p a → ∃ b ∈ l, p b ∧ n ≤ f b := by
    intro n
    induction n with
    | zero => exact fun a ha hp => ⟨a, ha, hp, Nat.zero_le _⟩
    | succ n ih =>
      grind
  intro a ha hp
  obtain ⟨b, hb, -, hn⟩ := hlarge ((l.map f).sum + 1) a ha hp
  have hle := List.le_sum_of_mem (List.mem_map_of_mem (f := f) hb)
  omega

/-! ### Files -/

variable {archive : List ArchiveEntry}

def moduleRoot (files : List (Components × Bytes)) : Components :=
  longestCommonPrefix (files.map fun file => file.1.dropLast)

def below (files : List (Components × Bytes)) (file : Components × Bytes) : Components :=
  file.1.drop (moduleRoot files).length

/-- How much is taken away. -/
def skip (files : List (Components × Bytes)) : ℕ :=
  (longestCommonPrefix (files.map Prod.fst)).length

structure PathOk (path : Components) : Prop where
  ne_nil : path ≠ []
  noSlash : ∀ component ∈ path, '/' ∉ component
  noBackslash : ∀ component ∈ path, '\\' ∉ component
  getLast?_ne : path.getLast? ≠ some []

theorem notMem_normalizedName (name : String) : '\\' ∉ normalizedName name := by
  intro h
  have hmem := subset_trimWhile _ _ h
  obtain ⟨ch, -, hch⟩ := List.mem_map.mp hmem
  split_ifs at hch with hback
  · exact absurd hch (by decide)
  · exact hback hch

theorem getLast?_splitOn_ne {path : List Char} (hne : path ≠ [])
    (h : path.getLast? ≠ some '/') : (path.splitOn '/').getLast? ≠ some [] := by
  rcases List.eq_nil_or_concat path with rfl | ⟨front, ch, rfl⟩
  · exact absurd rfl hne
  · rw [List.concat_eq_append, List.getLast?_concat, Ne, Option.some.injEq] at h
    have hnot : '/' ∉ [ch] := fun hmem => h (List.mem_singleton.mp hmem).symm
    obtain ⟨init, last, -, hsplit⟩ := splitOn_append_of_notMem hnot front
    rw [List.concat_eq_append, hsplit, List.getLast?_concat]
    simp

theorem pathOk_splitOn {path : List Char} (hne : path ≠ []) (hback : '\\' ∉ path)
    (hend : path.getLast? ≠ some '/') : PathOk (path.splitOn '/') :=
  ⟨List.splitOn_ne_nil _ _, fun _ hc => notMem_of_mem_splitOn hc,
    fun _ hc hmem => hback ((notMem_of_mem_splitOnP hc).2 _ hmem), getLast?_splitOn_ne hne hend⟩

variable {file : Components × Bytes} {entry : ArchiveEntry}

theorem pathOk_of_mem (h : file ∈ archiveFiles archive) : PathOk file.1 := by
  obtain ⟨entry, -, hentry⟩ := List.mem_filterMap.mp h
  simp only at hentry
  split_ifs at hentry with hempty
  obtain rfl := Option.some.inj hentry
  grind [pathOk_splitOn, notMem_normalizedName, getLast?_trimWhile, absurd, normalizedName]

namespace PathOk

variable {path relative : Components}

theorem drop (h : PathOk path) {n : ℕ} (hne : path.drop n ≠ []) : PathOk (path.drop n) where
  ne_nil := hne
  noSlash component hc := h.noSlash component (List.mem_of_mem_drop hc)
  noBackslash component hc := h.noBackslash component (List.mem_of_mem_drop hc)
  getLast?_ne := by
    rw [List.getLast?_drop, if_neg (by simpa using hne)]
    exact h.getLast?_ne

theorem splitOn_join (h : PathOk path) : (['/'].intercalate path).splitOn '/' = path :=
  List.splitOn_intercalate '/' h.noSlash h.ne_nil

theorem join_ne_nil (h : PathOk path) : ['/'].intercalate path ≠ [] := by
  intro hnil
  have hsplit := h.splitOn_join
  rw [hnil, List.splitOn_nil] at hsplit
  exact h.getLast?_ne (hsplit ▸ rfl)

theorem notMem_join (h : PathOk path) : '\\' ∉ ['/'].intercalate path := by
  intro hmem
  obtain ⟨component, hcomponent, hch⟩ :=
    StoragePath.exists_mem_splitOn (show '\\' ≠ '/' by decide) hmem
  rw [h.splitOn_join] at hcomponent
  exact h.noBackslash component hcomponent hch

theorem eq_of_canonicalName (h : PathOk path) (h' : PathOk relative) {root : List Char}
    (heq : canonicalName root path = canonicalName root relative) : path = relative := by
  have hjoin := List.append_cancel_left (String.ofList_inj.mp heq)
  rw [← h.splitOn_join, hjoin, h'.splitOn_join]

end PathOk

theorem pathOk_goModRelative : PathOk goModRelative where
  ne_nil := List.cons_ne_nil _ _
  noSlash := by
    intro component hc
    rw [List.mem_singleton.mp hc]
    decide
  noBackslash := by
    intro component hc
    rw [List.mem_singleton.mp hc]
    decide
  getLast?_ne := by decide

/-! ### The prefix that is taken away -/

variable {files : List (Components × Bytes)}

theorem prefix_moduleRoot_iff (hne : files ≠ []) {q : Components} :
    q <+: moduleRoot files ↔ ∀ file ∈ files, q <+: file.1.dropLast := by
  rw [moduleRoot, prefix_longestCommonPrefix_iff (by simpa using hne), List.forall_mem_map]

theorem prefix_prefix_iff (hne : files ≠ []) {q : Components} :
    q <+: longestCommonPrefix (files.map Prod.fst) ↔ ∀ file ∈ files, q <+: file.1 := by
  rw [prefix_longestCommonPrefix_iff (by simpa using hne), List.forall_mem_map]

theorem prefix_dropLast {α : Type*} {q l : List α} (h : q <+: l) (hne : q ≠ l) :
    q <+: l.dropLast := by
  obtain ⟨t, rfl⟩ := h
  grind

theorem length_moduleRoot_lt (hfiles : ∀ file ∈ files, PathOk file.1)
    (h : file ∈ files) : (moduleRoot files).length < file.1.length := by
  have hle := ((prefix_moduleRoot_iff (List.ne_nil_of_mem h)).mp List.prefix_rfl file h).length_le
  have hpos := List.length_pos_iff.mpr (hfiles file h).ne_nil
  rw [List.length_dropLast] at hle
  omega

theorem below_ok (hfiles : ∀ file ∈ files, PathOk file.1)
    (h : file ∈ files) : PathOk (below files file) := by
  have hlt := length_moduleRoot_lt hfiles h
  refine (hfiles file h).drop fun hnil => ?_
  rw [List.drop_eq_nil_iff] at hnil
  omega

def Swallowed (files : List (Components × Bytes)) : Prop :=
  ∃ file ∈ files, ∀ other ∈ files, file.1 <+: other.1

theorem skip_cases (hfiles : ∀ file ∈ files, PathOk file.1) (hne : files ≠ []) :
    ¬ Swallowed files ∧ skip files = (moduleRoot files).length ∨
      Swallowed files ∧ skip files = (moduleRoot files).length + 1 := by
  set whole := longestCommonPrefix (files.map Prod.fst) with hwhole
  have hpre := (prefix_prefix_iff hne).mp (List.prefix_rfl (l := whole))
  by_cases h : Swallowed files
  · refine .inr ⟨h, ?_⟩
    obtain ⟨file, hfile, hall⟩ := h
    have hlength : whole.length = file.1.length :=
      le_antisymm (hpre file hfile).length_le ((prefix_prefix_iff hne).mpr hall).length_le
    have hdir : file.1.dropLast <+: moduleRoot files := by grind [prefix_moduleRoot_iff,
                                                          List.dropLast_prefix, prefix_dropLast]
    have hle := hdir.length_le
    have hlt := length_moduleRoot_lt hfiles hfile
    rw [List.length_dropLast] at hle
    rw [skip, ← hwhole]
    omega
  · refine .inl ⟨h, le_antisymm (List.IsPrefix.length_le ?_) (List.IsPrefix.length_le ?_)⟩
    · refine (prefix_moduleRoot_iff hne).mpr fun file hfile => ?_
      refine prefix_dropLast (hpre file hfile) fun heq => h ⟨file, hfile, fun other hother => ?_⟩
      rw [← heq]
      exact hpre other hother
    · exact (prefix_prefix_iff hne).mpr fun file hfile =>
        ((prefix_moduleRoot_iff hne).mp List.prefix_rfl file hfile).trans (List.dropLast_prefix _)

/-! ### The files of the canonical archive -/

variable {root : List Char} {goMod : Bytes} {name : String} {content : Bytes}

def Placed (root : List Char) (files : List (Components × Bytes)) (name : String)
    (file : Components × Bytes) : Prop :=
  file.1.drop (skip files) ≠ [] ∧ canonicalName root (file.1.drop (skip files)) = name

instance (root : List Char) (files : List (Components × Bytes)) (name : String) :
    DecidablePred (Placed root files name) := fun _ => inferInstanceAs (Decidable (_ ∧ _))

theorem get_insertFirst (normalized : Store String Bytes) (path : String) (content : Bytes) :
    (insertFirst normalized path content).get name =
      (normalized.get name).or (if path = name then some content else none) := by
  rw [insertFirst]
  split_ifs with hsome heq heq
  · subst heq
    obtain ⟨old, hold⟩ := Option.isSome_iff_exists.mp hsome
    rw [hold, Option.some_or]
  · rw [Option.or_none]
  · subst heq
    rw [Store.get_put_self, Option.not_isSome_iff_eq_none.mp hsome, Option.none_or]
  · rw [Store.get_put_of_ne _ _ (Ne.symm heq), Option.or_none]

theorem get_foldl (k : ℕ) (files : List (Components × Bytes)) (normalized : Store String Bytes) :
    (files.foldl (fun normalized file =>
      let relative := file.1.drop k
      if relative = [] then normalized
      else insertFirst normalized (canonicalName root relative) file.2) normalized).get name =
    (normalized.get name).or ((files.find? fun file =>
      decide (file.1.drop k ≠ [] ∧ canonicalName root (file.1.drop k) = name)).map Prod.snd) := by
  induction files generalizing normalized with
  | nil => rw [List.foldl_nil, List.find?_nil, Option.map_none, Option.or_none]
  | cons file files ih =>
    rw [List.foldl_cons, ih]
    by_cases hempty : file.1.drop k = []
    · rw [List.find?_cons_of_neg (by simp [hempty])]
      simp only [hempty, if_true]
    · simp only [hempty, if_false, get_insertFirst]
      grind

theorem get_canonicalFiles : (canonicalFiles root files goMod).get name =
    if name = canonicalName root goModRelative then some goMod
    else (files.find? fun file => decide (Placed root files name file)).map Prod.snd := by
  rw [canonicalFiles, Store.get_put]
  split_ifs with h
  · rfl
  · rw [get_foldl, Store.get_empty, Option.none_or]
    rfl

theorem of_get_canonicalFiles (hname : name ≠ canonicalName root goModRelative)
    (h : (canonicalFiles root files goMod).get name = some content) :
    ∃ file ∈ files, Placed root files name file ∧ file.2 = content := by
  rw [get_canonicalFiles, if_neg hname] at h
  obtain ⟨file, hfind, rfl⟩ := Option.map_eq_some_iff.mp h
  grind

theorem exists_get_canonicalFiles (hname : name ≠ canonicalName root goModRelative)
    (hfile : file ∈ files) (h : Placed root files name file) :
    ∃ first ∈ files, Placed root files name first ∧
      (canonicalFiles root files goMod).get name = some first.2 := by
  rw [get_canonicalFiles, if_neg hname]
  cases hfind : files.find? fun file => decide (Placed root files name file) with
  | none => exact absurd (decide_eq_true h) (by simpa using List.find?_eq_none.mp hfind file hfile)
  | some first =>
    grind

/-! ### What is kept -/

def rootComponents (root : List Char) : Components := ((withSlashes root).splitOn '/').dropLast

/-- The files of an archive keep their paths, and the `go.mod` is the given one. -/
structure Preserved (root : List Char) (archive : List ArchiveEntry) (goMod : Bytes)
    (out : List (String × Bytes)) : Prop where
  names : ∀ entry ∈ out, ∃ relative, entry.1 = String.ofList (root ++ relative) ∧ relative ≠ [] ∧
    ∀ component ∈ relative.splitOn '/', component ≠ ['.'] ∧ component ≠ ['.', '.']
  nodup : (out.map Prod.fst).Nodup
  files : ∀ file ∈ archiveFiles archive,
    (canonicalName root (below (archiveFiles archive) file),
      if below (archiveFiles archive) file = goModRelative then goMod else file.2) ∈ out
  fixed : (∀ entry ∈ archive, entry.isDir = false → root <+: entry.name.toList) →
    ∀ name content, (name, content) ∈ out ↔
      if name = canonicalName root goModRelative then content = goMod
      else ∃ entry ∈ archive, entry.isDir = false ∧ entry.name = name ∧ entry.content = content

/-- The paths of the archive have no dots for directories, and no file has the name of a directory
of all files; where two files have the same path they have the same content; and where all files
are below the root, no deeper directory has them all, and no name has a backslash below it. -/
structure PlainArchive (root : List Char) (archive : List ArchiveEntry) : Prop where
  dots : ∀ file ∈ archiveFiles archive, ∀ component ∈ below (archiveFiles archive) file,
    component ≠ ['.'] ∧ component ≠ ['.', '.']
  clash : ∀ file ∈ archiveFiles archive, ∀ other ∈ archiveFiles archive, file.1 = other.1 →
    below (archiveFiles archive) file ≠ goModRelative → file.2 = other.2
  swallowed : Swallowed (archiveFiles archive) →
    ∀ file ∈ archiveFiles archive, below (archiveFiles archive) file = goModRelative
  fixed : (∀ entry ∈ archive, entry.isDir = false → root <+: entry.name.toList) →
    (archiveFiles archive ≠ [] →
      moduleRoot (archiveFiles archive) = rootComponents root) ∧
    ∀ entry ∈ archive, entry.isDir = false → '\\' ∉ entry.name.toList.drop root.length

/-! ### Plain archives -/

variable {module : GoModulePath} {version : GoVersion} {out : List (String × Bytes)}

theorem mem_iff_get (h : canonicalizeModuleZip module version archive goMod = some out) :
    (name, content) ∈ out ↔ (canonicalFiles (canonicalRoot module version) (archiveFiles archive)
      goMod).get name = some content := by
  unfold canonicalizeModuleZip at h
  split_ifs at h
  rw [← Option.some.inj h, (List.perm_insertionSort _ _).mem_iff, Store.get_eq_some_iff,
    List.mem_map]
  simp

theorem nodup_out (h : canonicalizeModuleZip module version archive goMod = some out) :
    (out.map Prod.fst).Nodup := by
  unfold canonicalizeModuleZip at h
  split_ifs at h
  rw [← Option.some.inj h, ((List.perm_insertionSort _ _).map Prod.fst).nodup_iff, List.map_map]
  exact (canonicalFiles _ _ _).nodupKeys

theorem mem_archiveFiles_iff : file ∈ archiveFiles archive ↔
    ∃ entry ∈ archive, entry.isDir = false ∧ normalizedName entry.name ≠ [] ∧
      file = ((normalizedName entry.name).splitOn '/', entry.content) := by
  rw [archiveFiles, List.mem_filterMap]
  grind

theorem filesOk (archive : List ArchiveEntry) : ∀ file ∈ archiveFiles archive, PathOk file.1 :=
  fun _ h => pathOk_of_mem h

theorem eq_of_below {other : Components × Bytes} (hfile : file ∈ files)
    (hother : other ∈ files) (h : below files file = below files other) : file.1 = other.1 := by
  have hne := List.ne_nil_of_mem hfile
  have hroot : ∀ f ∈ files, moduleRoot files ++ below files f = f.1 := by
    intro f hf
    have hpre := ((prefix_moduleRoot_iff hne).mp List.prefix_rfl f hf).trans
      (List.dropLast_prefix _)
    rw [below]
    exact List.prefix_append_drop hpre |>.symm
  rw [← hroot file hfile, ← hroot other hother, h]

theorem drop_skip_of_swallowed (hfiles : ∀ file ∈ files, PathOk file.1)
    (h : ∀ file ∈ files, below files file = goModRelative) (hs : Swallowed files)
    (hfile : file ∈ files) : file.1.drop (skip files) = [] := by
  rcases skip_cases hfiles (List.ne_nil_of_mem hfile) with ⟨hnot, -⟩ | ⟨-, hskip⟩
  · exact absurd hs hnot
  · have hlength := congrArg List.length (h file hfile)
    rw [below, List.length_drop] at hlength
    rw [hskip, List.drop_eq_nil_iff]
    change _ = 1 at hlength
    omega

theorem PlainArchive.get_iff (h : PlainArchive root archive) :
    (canonicalFiles root (archiveFiles archive) goMod).get name = some content ↔
      if name = canonicalName root goModRelative then content = goMod
      else ∃ file ∈ archiveFiles archive,
        canonicalName root (below (archiveFiles archive) file) = name ∧ file.2 = content := by
  set files := archiveFiles archive with hfiles
  have hok := filesOk archive
  rw [← hfiles] at hok
  split_ifs with hname
  · rw [get_canonicalFiles, if_pos hname, Option.some.injEq, eq_comm]
  · have hskip : ∀ file ∈ files, below files file ≠ goModRelative ∨ file.1.drop (skip files) ≠ [] →
        skip files = (moduleRoot files).length := by
      intro file hfile hnot
      rcases skip_cases hok (List.ne_nil_of_mem hfile) with ⟨-, hskip⟩ | ⟨hs, -⟩
      · exact hskip
      · have hall := h.swallowed hs
        grind [absurd, hnot, drop_skip_of_swallowed]
    constructor
    · intro hget
      obtain ⟨file, hfile, hplaced, hcontent⟩ := of_get_canonicalFiles hname hget
      refine ⟨file, hfile, ?_, hcontent⟩
      rw [below, ← hskip file hfile (.inr hplaced.1)]
      exact hplaced.2
    · rintro ⟨file, hfile, rfl, rfl⟩
      have hbelow : below files file ≠ goModRelative := fun heq => hname (by rw [heq])
      have hlength := hskip file hfile (.inl hbelow)
      have hplaced : Placed root files (canonicalName root (below files file)) file := by
        rw [Placed, hlength]
        exact ⟨(below_ok hok hfile).ne_nil, rfl⟩
      obtain ⟨first, hfirst, hfirstPlaced, hget⟩ :
          ∃ first ∈ files, Placed root files _ first ∧
            (canonicalFiles root files goMod).get _ = some first.2 :=
        exists_get_canonicalFiles hname hfile hplaced
      rw [Placed, hlength] at hfirstPlaced
      have hsame := (below_ok hok hfirst).eq_of_canonicalName (below_ok hok hfile) hfirstPlaced.2
      rw [hget, h.clash file hfile first hfirst (eq_of_below hfile hfirst hsame.symm) hbelow]

/-! ### Archives below the root -/

theorem withSlashes_of_notMem {s : List Char} (h : '\\' ∉ s) : withSlashes s = s := by
  refine (List.map_congr_left fun ch hch => ?_).trans (List.map_id s)
  refine if_neg ?_
  rintro rfl
  exact h hch

theorem splitOn_append_slash (a b : List Char) :
    (a ++ '/' :: b).splitOn '/' = a.splitOn '/' ++ b.splitOn '/' :=
  List.splitOn_append_cons_self ..

theorem canonicalRoot_spec (module : GoModulePath) (version : GoVersion) : ∃ base ch rest,
    canonicalRoot module version = base ++ ['/'] ∧ base = ch :: rest ∧ ch ≠ '/' ∧ ch ≠ '\\' := by
  have hvalid := module.valid
  simp only [validateModulePath, Bool.and_eq_true] at hvalid
  obtain ⟨⟨⟨⟨⟨hempty, hchars⟩, hstart⟩, -⟩, -⟩, -⟩ := hvalid
  cases htext : module.text.toList with
  | nil =>
    simp_all
  | cons ch rest =>
    refine ⟨_, ch, rest ++ '@' :: version.text.toList, rfl, ?_, ?_, ?_⟩
    · rw [htext, List.cons_append]
    · rintro rfl
      rw [startsWith, htext] at hstart
      exact absurd hstart (by simp)
    · rintro rfl
      rw [htext] at hchars
      exact absurd (List.all_eq_true.mp hchars '\\' List.mem_cons_self) (by decide)

theorem splitOn_normalizedName (hdir : entry.isDir = false) {relative : List Char}
    (hname : entry.name.toList = canonicalRoot module version ++ relative)
    (hback : '\\' ∉ relative) : (normalizedName entry.name).splitOn '/' =
      rootComponents (canonicalRoot module version) ++ relative.splitOn '/' ∧
    PathOk (relative.splitOn '/') := by
  obtain ⟨base, ch, rest, hroot, hbase, hslash, hbackslash⟩ := canonicalRoot_spec module version
  have hlast : entry.name.toList.getLast? ≠ some '/' := by
    intro hlast
    obtain ⟨front, hfront⟩ := List.getLast?_eq_some_iff.mp hlast
    have hend : endsWith "/" entry.name = true := by
      rw [endsWith, List.isSuffixOf_iff_suffix, hfront]
      exact List.suffix_append _ _
    rw [entry.isDir_of_slash hend] at hdir
    cases hdir
  have hne : relative ≠ [] := by grind
  have hrelative : relative.getLast? ≠ some '/' := by
    rwa [hname, List.getLast?_append_of_ne_nil _ hne] at hlast
  have hwith : withSlashes entry.name.toList = withSlashes base ++ '/' :: relative := by
    rw [hname, hroot, withSlashes, List.map_append, List.map_append, ← withSlashes, ← withSlashes,
      ← withSlashes, withSlashes_of_notMem hback, List.append_assoc]
    rfl
  have htrim : normalizedName entry.name = withSlashes base ++ '/' :: relative := by
    rw [normalizedName, hwith]
    refine trimWhile_eq_self (fun a ha => ?_) fun a ha => ?_
    · rw [hbase, withSlashes, List.map_cons, if_neg hbackslash, List.cons_append,
        List.head?_cons] at ha
      rw [← Option.some.inj ha]
      exact beq_eq_false_iff_ne.mpr hslash
    · grind
  refine ⟨?_, pathOk_splitOn hne hback hrelative⟩
  have hcomponents : rootComponents (canonicalRoot module version) =
      (withSlashes base).splitOn '/' := by
    have hend : withSlashes (base ++ ['/']) = withSlashes base ++ '/' :: [] := by
      rw [withSlashes, List.map_append]
      rfl
    rw [rootComponents, hroot, hend, splitOn_append_slash, List.splitOn_nil, List.dropLast_concat]
  rw [htrim, splitOn_append_slash, hcomponents]

def Below (module : GoModulePath) (version : GoVersion) (entry : ArchiveEntry)
    (relative : Components) : Prop :=
  PathOk relative ∧ entry.name = canonicalName (canonicalRoot module version) relative ∧
    (normalizedName entry.name).splitOn '/' =
      rootComponents (canonicalRoot module version) ++ relative

theorem exists_below (hdir : entry.isDir = false)
    (hunder : canonicalRoot module version <+: entry.name.toList)
    (hback : '\\' ∉ entry.name.toList.drop (canonicalRoot module version).length) :
    ∃ relative, Below module version entry relative := by
  obtain ⟨relative, hname⟩ := hunder
  rw [← hname, List.drop_left] at hback
  obtain ⟨hsplit, hok⟩ := splitOn_normalizedName hdir hname.symm hback
  refine ⟨relative.splitOn '/', hok, ?_, hsplit⟩
  rw [canonicalName, List.intercalate_splitOn, hname, String.ofList_toList]

theorem Below.mem_archiveFiles {relative : Components}
    (h : Below module version entry relative) (hentry : entry ∈ archive)
    (hdir : entry.isDir = false) :
    (rootComponents (canonicalRoot module version) ++ relative, entry.content) ∈
      archiveFiles archive := by
  refine mem_archiveFiles_iff.mpr ⟨entry, hentry, hdir, fun hnil => ?_, by rw [h.2.2]⟩
  have hsplit := h.2.2
  rw [hnil, List.splitOn_nil] at hsplit
  have hlast : (rootComponents (canonicalRoot module version) ++ relative).getLast? =
      relative.getLast? := List.getLast?_append_of_ne_nil _ h.1.ne_nil
  rw [← hsplit] at hlast
  exact h.1.getLast?_ne (hlast ▸ rfl)

theorem PlainArchive.preserved (h : PlainArchive (canonicalRoot module version) archive)
    (hout : canonicalizeModuleZip module version archive goMod = some out) :
    Preserved (canonicalRoot module version) archive goMod out where
  names := by
    rintro ⟨name, content⟩ hmem
    rw [mem_iff_get hout, h.get_iff] at hmem
    split_ifs at hmem with hname
    · refine ⟨"go.mod".toList, hname, by decide, fun component hc => ?_⟩
      rw [show "go.mod".toList.splitOn '/' = goModRelative by decide] at hc
      rw [List.mem_singleton.mp hc]
      decide
    · obtain ⟨file, hfile, rfl, -⟩ := hmem
      have hok := below_ok (filesOk archive) hfile
      refine ⟨_, rfl, hok.join_ne_nil, fun component hc => ?_⟩
      rw [hok.splitOn_join] at hc
      exact h.dots file hfile component hc
  nodup := nodup_out hout
  files file hfile := by
    rw [mem_iff_get hout, h.get_iff]
    by_cases hgoMod : below (archiveFiles archive) file = goModRelative
    · rw [if_pos (by rw [hgoMod]), if_pos hgoMod]
    · have hname : canonicalName (canonicalRoot module version)
          (below (archiveFiles archive) file) ≠
          canonicalName (canonicalRoot module version) goModRelative := fun heq =>
        hgoMod ((below_ok (filesOk archive) hfile).eq_of_canonicalName pathOk_goModRelative heq)
      rw [if_neg hname, if_neg hgoMod]
      exact ⟨file, hfile, rfl, rfl⟩
  fixed hunder name content := by
    rw [mem_iff_get hout, h.get_iff]
    obtain ⟨hroot, hback⟩ := h.fixed hunder
    have hbelow : ∀ file ∈ archiveFiles archive, ∀ relative : Components,
        file.1 = rootComponents (canonicalRoot module version) ++ relative →
        below (archiveFiles archive) file = relative := by
      intro file hfile relative hpath
      rw [below, hroot (List.ne_nil_of_mem hfile), hpath, List.drop_left]
    split_ifs with hname
    · exact Iff.rfl
    clear hname
    constructor
    · rintro ⟨file, hfile, rfl, rfl⟩
      obtain ⟨entry, hentry, hdir, -, rfl⟩ := mem_archiveFiles_iff.mp hfile
      obtain ⟨relative, hrelative⟩ := exists_below hdir (hunder entry hentry hdir)
        (hback entry hentry hdir)
      refine ⟨entry, hentry, hdir, ?_, rfl⟩
      rw [hbelow _ hfile relative hrelative.2.2, hrelative.2.1]
    · rintro ⟨entry, hentry, hdir, rfl, rfl⟩
      obtain ⟨relative, hrelative⟩ := exists_below hdir (hunder entry hentry hdir)
        (hback entry hentry hdir)
      have hfile := hrelative.mem_archiveFiles hentry hdir
      refine ⟨_, hfile, ?_, rfl⟩
      rw [hbelow _ hfile relative rfl, hrelative.2.1]

/-! ### Preserved archives -/

/-- A file of the canonical archive that is not the `go.mod` is what is left of some file. -/
theorem exists_of_mem (hout : canonicalizeModuleZip module version archive goMod = some out)
    {relative : Components} (hrelative : PathOk relative)
    (hmem : (canonicalName (canonicalRoot module version) relative, content) ∈ out) :
    relative = goModRelative ∨ ∃ file ∈ archiveFiles archive,
      file.1.drop (skip (archiveFiles archive)) = relative ∧ file.2 = content := by
  rw [mem_iff_get hout] at hmem
  by_cases hname : canonicalName (canonicalRoot module version) relative =
      canonicalName (canonicalRoot module version) goModRelative
  · exact .inl (hrelative.eq_of_canonicalName pathOk_goModRelative hname)
  · obtain ⟨file, hfile, hplaced, hcontent⟩ := of_get_canonicalFiles hname hmem
    have hdrop := (filesOk archive file hfile).drop hplaced.1
    exact .inr ⟨file, hfile, hdrop.eq_of_canonicalName hrelative hplaced.2, hcontent⟩

/-- If a file is taken away whole, then the others would have to be longer and longer. -/
theorem Preserved.goMod_of_swallowed
    (h : Preserved (canonicalRoot module version) archive goMod out)
    (hout : canonicalizeModuleZip module version archive goMod = some out)
    (hs : Swallowed (archiveFiles archive)) :
    ∀ file ∈ archiveFiles archive, below (archiveFiles archive) file = goModRelative := by
  set files := archiveFiles archive with hfiles
  have hok := filesOk archive
  rw [← hfiles] at hok
  have hnot : ∀ file ∈ files, ¬ below files file ≠ goModRelative := by
    refine not_of_increasing (fun file => file.1.length) fun file hfile hne => ?_
    have hskip : skip files = (moduleRoot files).length + 1 := by
      rcases skip_cases hok (List.ne_nil_of_mem hfile) with ⟨hnot, -⟩ | ⟨-, hskip⟩
      · exact absurd hs hnot
      · exact hskip
    rcases exists_of_mem hout (below_ok hok hfile) (h.files file hfile) with
      heq | ⟨other, hother, hdrop, -⟩
    · exact absurd heq hne
    · rw [← hfiles] at hother hdrop
      have hlength := congrArg List.length hdrop
      have hlt := length_moduleRoot_lt hok hfile
      have hlt' := length_moduleRoot_lt hok hother
      rw [below, hskip, List.length_drop, List.length_drop] at hlength
      refine ⟨other, hother, fun heq => ?_, by omega⟩
      have hone := congrArg List.length heq
      rw [below, List.length_drop] at hone
      change _ = 1 at hone
      omega
  exact fun file hfile => not_not.mp (hnot file hfile)

theorem Preserved.exists_relative (h : Preserved (canonicalRoot module version) archive goMod out)
    (hout : canonicalizeModuleZip module version archive goMod = some out)
    (hunder : ∀ entry ∈ archive, entry.isDir = false →
      canonicalRoot module version <+: entry.name.toList)
    (hentry : entry ∈ archive) (hdir : entry.isDir = false) :
    ∃ relative, Below module version entry relative ∧ (relative = goModRelative ∨
      ∃ file ∈ archiveFiles archive, file.1.drop (skip (archiveFiles archive)) = relative) := by
  have hname : ∃ relative, PathOk relative ∧
      entry.name = canonicalName (canonicalRoot module version) relative ∧
      (relative = goModRelative ∨
        ∃ file ∈ archiveFiles archive, file.1.drop (skip (archiveFiles archive)) = relative) := by
    by_cases hgoMod : entry.name = canonicalName (canonicalRoot module version) goModRelative
    · exact ⟨_, pathOk_goModRelative, hgoMod, .inl rfl⟩
    · have hmem := (h.fixed hunder entry.name entry.content).mpr
        (by rw [if_neg hgoMod]; exact ⟨entry, hentry, hdir, rfl, rfl⟩)
      rw [mem_iff_get hout] at hmem
      obtain ⟨file, hfile, hplaced, -⟩ := of_get_canonicalFiles hgoMod hmem
      exact ⟨_, (filesOk archive file hfile).drop hplaced.1, hplaced.2.symm,
        .inr ⟨file, hfile, rfl⟩⟩
  obtain ⟨relative, hok, hname, hcases⟩ := hname
  have htext : entry.name.toList =
      canonicalRoot module version ++ ['/'].intercalate relative := by
    rw [hname, canonicalName, String.toList_ofList]
  obtain ⟨hsplit, -⟩ := splitOn_normalizedName hdir htext hok.notMem_join
  rw [hok.splitOn_join] at hsplit
  exact ⟨relative, ⟨hok, hname, hsplit⟩, hcases⟩

theorem Preserved.moduleRoot_eq
    (h : Preserved (canonicalRoot module version) archive goMod out)
    (hout : canonicalizeModuleZip module version archive goMod = some out)
    (hunder : ∀ entry ∈ archive, entry.isDir = false →
      canonicalRoot module version <+: entry.name.toList)
    (hne : archiveFiles archive ≠ []) :
    moduleRoot (archiveFiles archive) = rootComponents (canonicalRoot module version) := by
  set files := archiveFiles archive with hfiles
  set base := rootComponents (canonicalRoot module version) with hbase
  have hok := filesOk archive
  rw [← hfiles] at hok
  have hrelative : ∀ file ∈ files, ∃ relative, PathOk relative ∧ file.1 = base ++ relative ∧
      (relative = goModRelative ∨ ∃ other ∈ files, other.1.drop (skip files) = relative) := by
    intro file hfile
    obtain ⟨entry, hentry, hdir, -, rfl⟩ := mem_archiveFiles_iff.mp hfile
    obtain ⟨relative, ⟨hpath, -, hsplit⟩, hcases⟩ :=
      h.exists_relative hout hunder hentry hdir
    exact ⟨relative, hpath, hsplit, hcases⟩
  have hpre : base <+: moduleRoot files := by
    refine (prefix_moduleRoot_iff hne).mpr fun file hfile => ?_
    obtain ⟨relative, hpath, heq, -⟩ := hrelative file hfile
    rw [heq, List.dropLast_append_of_ne_nil hpath.ne_nil]
    exact List.prefix_append _ _
  by_contra hdiffer
  have hlt : base.length < (moduleRoot files).length :=
    lt_of_le_of_ne hpre.length_le fun heq => hdiffer (hpre.eq_of_length heq).symm
  have hnone : ∀ file ∈ files, ¬ True := by
    refine not_of_increasing (fun file => file.1.length) fun file hfile _ => ?_
    obtain ⟨relative, hpath, heq, hcases⟩ := hrelative file hfile
    have hlength := congrArg List.length heq
    rw [List.length_append] at hlength
    have hroot := length_moduleRoot_lt hok hfile
    rcases hcases with rfl | ⟨other, hother, hdrop⟩
    · change _ = _ + 1 at hlength
      omega
    · have hother' := congrArg List.length hdrop
      rw [List.length_drop] at hother'
      have hpos := List.length_pos_iff.mpr hpath.ne_nil
      refine ⟨other, hother, trivial, ?_⟩
      rcases skip_cases hok hne with ⟨-, hskip⟩ | ⟨-, hskip⟩ <;> omega
  obtain ⟨file, files', hcons⟩ := List.exists_cons_of_ne_nil hne
  exact hnone file (hcons ▸ List.mem_cons_self) trivial

theorem Preserved.plain (h : Preserved (canonicalRoot module version) archive goMod out)
    (hout : canonicalizeModuleZip module version archive goMod = some out) :
    PlainArchive (canonicalRoot module version) archive where
  dots file hfile component hc := by
    have hok := below_ok (filesOk archive) hfile
    obtain ⟨relative, hname, -, hdots⟩ := h.names _ (h.files file hfile)
    have hjoin := List.append_cancel_left (String.ofList_inj.mp hname)
    rw [← hjoin, hok.splitOn_join] at hdots
    exact hdots component hc
  clash file hfile other hother hpath hne := by
    have hbelow : below (archiveFiles archive) other = below (archiveFiles archive) file := by
      rw [below, below, hpath]
    have hmem := h.files file hfile
    have hmem' := h.files other hother
    rw [hbelow, if_neg hne, mem_iff_get hout] at hmem'
    rw [if_neg hne, mem_iff_get hout] at hmem
    exact Option.some.inj (hmem.symm.trans hmem')
  swallowed := h.goMod_of_swallowed hout
  fixed hunder := by
    refine ⟨h.moduleRoot_eq hout hunder, fun entry hentry hdir => ?_⟩
    obtain ⟨relative, ⟨hok, hname, -⟩, -⟩ := h.exists_relative hout hunder hentry hdir
    rw [hname, canonicalName, String.toList_ofList, List.drop_left]
    exact hok.notMem_join

/-! ### Canonical archives -/

/-- An archive is preserved if and only if it is plain. -/
theorem canonicalize_preserves_iff
    (hout : canonicalizeModuleZip module version archive goMod = some out) :
    Preserved (canonicalRoot module version) archive goMod out ↔
      PlainArchive (canonicalRoot module version) archive :=
  ⟨fun h => h.plain hout, fun h => h.preserved hout⟩

/-! ### An archive of one file -/

def readme : ArchiveEntry := ⟨"README", false, [1], by decide⟩

def uploadedGoMod : ArchiveEntry := ⟨"go.mod", false, [0], by decide⟩

def plainModule : GoModulePath := ⟨"m", by decide⟩

theorem valid_plainVersion : validateVersion "v1.0.0" = true := by decide

def plainVersion : GoVersion := ⟨"v1.0.0", valid_plainVersion⟩

theorem canonicalize_preserves_readme :
    Preserved (canonicalRoot plainModule plainVersion) [readme, uploadedGoMod] [2]
        [("m@v1.0.0/README", [1]), ("m@v1.0.0/go.mod", [2])] ↔
      PlainArchive (canonicalRoot plainModule plainVersion) [readme, uploadedGoMod] :=
  canonicalize_preserves_iff (by decide)

/-- The only file of an archive is lost. -/
theorem not_preserved_readme : ¬ ∀ (module : GoModulePath) (version : GoVersion)
    (archive : List ArchiveEntry) (goMod : Bytes) (out : List (String × Bytes)),
    canonicalizeModuleZip module version archive goMod = some out →
      Preserved (canonicalRoot module version) archive goMod out := by
  intro h
  have hout : canonicalizeModuleZip plainModule plainVersion [readme] [2] =
      some [("m@v1.0.0/go.mod", [2])] := by decide
  have hfile : (["README".toList], [1]) ∈ archiveFiles [readme] := by decide
  have hkept := (h _ _ _ _ _ hout).files _ hfile
  exact absurd hkept (by decide)

end Pkgly.Go

namespace Pkgly.Go

def RejectionKeeps (lib : UploadLibrary) (s : GoHosted) (request : UploadRequest) : Prop :=
  ∀ steps s', handleUpload lib s request steps = (true, s') →
    ∀ key, s'.storage.objects.get key = s.storage.objects.get key

def Upload.path (upload : Upload) : StoragePath :=
  moduleFilePath upload.module upload.version .zip

/-- An archive that cannot be made canonical cannot be written either, or is there already. -/
def WritesNothing (lib : UploadLibrary) (s : GoHosted) (request : UploadRequest) : Prop :=
  ∀ upload, readUpload lib request = some upload → canonicalArchive lib upload = none →
    ∀ st, s.storage.saveFile upload.archive upload.path = .ok st →
      s.storage.objects.get upload.path.components = some upload.archive

/-! ### Requests that are not rejected -/

variable {s s' : GoHosted} {r r' : Process} {lib : UploadLibrary}

def NoReject (r : Process) : Prop := ∀ program, r.status = .running program → .reject ∉ program

theorem noReject_of_perform {fails : Bool} {st st' : DynStorage} {rest : List Instr}
    {instr : Instr} (h : r.perform fails st rest instr = some (st', r'))
    (hrest : .reject ∉ rest) : NoReject r' := by
  intro program hprogram
  cases instr <;>
    simp only [Process.perform, Process.goto, Option.map_eq_some_iff, Option.bind_eq_some_iff,
      Prod.mk.injEq] at h <;> grind [Option.map_eq_some_iff]

theorem noReject_of_next {fails : Bool} (h : r.next fails s = some (s', r')) (hr : NoReject r) :
    NoReject r' := by
  unfold Process.next at h
  split at h
  · obtain ⟨rfl, rfl⟩ := Prod.mk.inj (Option.some.inj h)
    rintro program ⟨⟩
  · rename_i instr rest hstatus
    have hrest : .reject ∉ rest := fun hmem =>
      hr _ hstatus (List.mem_cons_of_mem instr hmem)
    split at h
    · rename_i storage q hperform
      obtain ⟨rfl, rfl⟩ := Prod.mk.inj (Option.some.inj h)
      exact noReject_of_perform hperform hrest
    · obtain ⟨rfl, rfl⟩ := Prod.mk.inj (Option.some.inj h)
      intro program hprogram
      split_ifs at hprogram
      obtain rfl := Status.running.inj hprogram
      exact List.not_mem_nil
  · cases h

theorem runAlone_of_noReject (steps : List Bool) (hr : NoReject r) :
    (runAlone s r steps).1 = false := by
  induction steps generalizing s r with
  | nil => rfl
  | cons fails steps ih =>
    unfold runAlone
    split
    · rename_i rest hstatus
      exact absurd List.mem_cons_self (hr _ hstatus)
    · split
      · rename_i s' r' hnext
        exact ih (noReject_of_next hnext hr)
      · rfl

/-! ### Rejected uploads -/

theorem noReject_of_canonical {upload : Upload} {canonical : Bytes}
    (h : canonicalArchive lib upload = some canonical) :
    NoReject ((goHosted upload.module).init (upload.request lib)) := by
  simp_all [Upload.request, Request.program, handleAthensUpload, NoReject, goHosted]

theorem runAlone_of_damaged {upload : Upload} (h : canonicalArchive lib upload = none)
    (steps : List Bool) :
    runAlone s ((goHosted upload.module).init (upload.request lib)) steps = (true, s') ↔
      2 ≤ steps.length ∧ steps.head? = some false ∧ ∃ st,
        s.storage.saveFile upload.archive upload.path = .ok st ∧ s' = { s with storage := st } := by
  set r := (goHosted upload.module).init (upload.request lib) with hr
  have hstatus : r.status = .running [.saveFile upload.path upload.archive, .reject] := by
    rw [hr, goHosted, Upload.request]
    simp only [h]
    rfl
  have hfailed : ∀ (r : Process) (steps : List Bool), r.status = .failed →
      runAlone s r steps ≠ (true, s') := by grind [hnot, NoReject, runAlone_of_noReject]
  cases steps with
  | nil => simp [runAlone]
  | cons fails steps =>
    cases hsave : attempt fails (s.storage.saveFile upload.archive upload.path) with
    | none =>
      have hnext : r.next fails s = some (s, { r with status := .failed }) := by
        simp [Process.next, hstatus, Process.perform, hsave, Instr.refreshes]
      simp only [runAlone, hstatus, hnext]
      refine iff_of_false (hfailed _ _ rfl) ?_
      rintro ⟨-, hfails, st, hok, -⟩
      obtain rfl := Option.some.inj hfails
      rw [attempt, if_neg Bool.false_ne_true, hok] at hsave
      cases hsave
    | some st =>
      have hnext : r.next fails s = some ({ s with storage := st }, r.goto [.reject]) := by
        simp [Process.next, hstatus, Process.perform, hsave]
      have hok : fails = false ∧ s.storage.saveFile upload.archive upload.path = .ok st := by
        cases fails with
        | true => cases hsave
        | false => exact ⟨rfl, of_attempt hsave⟩
      obtain ⟨rfl, hok⟩ := hok
      simp only [runAlone, hstatus, hnext]
      cases steps with
      | nil => simp [runAlone]
      | cons _ steps => simp [runAlone, Process.goto, hok, eq_comm]

theorem handleUpload_of_damaged {request : UploadRequest} {upload : Upload} {st : DynStorage}
    (hupload : readUpload lib request = some upload) (h : canonicalArchive lib upload = none)
    (hsave : s.storage.saveFile upload.archive upload.path = .ok st) :
    handleUpload lib s request [false, false] = (true, { s with storage := st }) := by
  simp only [handleUpload, hupload]
  exact (runAlone_of_damaged h _).mpr ⟨le_rfl, rfl, st, hsave, rfl⟩

/-- A rejected upload changes nothing iff its archive is not written before it is rejected. -/
theorem uploadRejection_iff (lib : UploadLibrary) (s : GoHosted) (request : UploadRequest) :
    RejectionKeeps lib s request ↔ WritesNothing lib s request := by
  constructor
  · intro h upload hupload hdamaged st hsave
    have hkey := h _ _ (handleUpload_of_damaged hupload hdamaged hsave) upload.path.components
    rw [DynStorage.eq_of_saveFile hsave, Store.get_put_self] at hkey
    exact hkey.symm
  · intro h steps s' hrejected key
    unfold handleUpload at hrejected
    cases hupload : readUpload lib request with
    | none =>
      rw [hupload] at hrejected
      rw [← (Prod.mk.inj hrejected).2]
    | some upload =>
      simp only [hupload] at hrejected
      cases hcanonical : canonicalArchive lib upload with
      | some canonical =>
        have hfalse := runAlone_of_noReject (s := s) steps (noReject_of_canonical hcanonical)
        rw [hrejected] at hfalse
        cases hfalse
      | none =>
        obtain ⟨-, -, st, hsave, rfl⟩ := (runAlone_of_damaged hcanonical steps).mp hrejected
        have hsame := h upload hupload hcanonical st hsave
        rw [DynStorage.eq_of_saveFile hsave, Store.get_put]
        split_ifs with hkey
        · rw [hkey, hsame]
        · rfl

/-! ### An upload without an archive -/

/-- A form with all texts and a `go.mod`, whose archive cannot be read. -/
def damagedLibrary : UploadLibrary where
  parseForm _ _ := some [⟨some "module", [1], none⟩, ⟨some "version", [], some "v1.0.0"⟩,
    ⟨some "module_name", [], some "example.com/demo"⟩, ⟨some "gomod", [2], none⟩]
  infoVersion _ := none
  generateInfo _ := []
  readArchive _ := none
  writeArchive _ := none

theorem not_rejectionKeeps_damaged : ¬ ∀ (lib : UploadLibrary) (s : GoHosted)
    (request : UploadRequest), RejectionKeeps lib s request := by
  intro h
  have hupload : readUpload damagedLibrary ⟨some "multipart/form-data; boundary=x", []⟩ =
      some ⟨demoModule, demoVersion, [1], [2], []⟩ := by decide
  have hsave : (⟨.local, ∅, ∅⟩ : DynStorage).saveFile [1]
      (Upload.path ⟨demoModule, demoVersion, [1], [2], []⟩) = .ok _ :=
    DynStorage.saveFile_of_free _ _ (by decide) (by decide) (by decide)
  have hkey := h damagedLibrary ⟨⟨.local, ∅, ∅⟩, []⟩ _ _ _
    (handleUpload_of_damaged hupload rfl hsave)
    (Upload.path ⟨demoModule, demoVersion, [1], [2], []⟩).components
  rw [Store.get_put_self, Store.get_empty] at hkey
  cases hkey

end Pkgly.Go
