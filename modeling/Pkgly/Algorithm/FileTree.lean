import Pkgly.Algorithm.Store
import Mathlib.Data.List.Infix
import Mathlib.Data.List.Perm.Basic

/-!
# File trees

A tree of directories and files without links, over any names `ν`, contents `β` and times `τ`: a
finite map from paths (lists of names, the root being the empty one) to entries, in which every
entry lies in a directory.  That is a field of the structure, so that "the path exists" is "there is
an entry", with no walk along the path.

The changes are `insert` (write an entry), `touch` (set its time), `remove` and `moveTree` (whole
trees); each has one lemma that says what `get` reads afterwards.
-/

namespace Pkgly

inductive Node (β : Type*)
  | file (content : β)
  | directory
deriving DecidableEq

/-- An entry: what it is, and the times of its creation and of its last change. -/
structure Entry (β τ : Type*) where
  node : Node β
  created : τ
  modified : τ
deriving DecidableEq

inductive IoError
  | notFound
  | notADirectory
  | isADirectory
  | alreadyExists
  | directoryNotEmpty
  | invalidInput
  | invalidData
deriving DecidableEq, Repr

namespace Entry

variable {β τ : Type*}

def isDir (e : Entry β τ) : Bool :=
  match e.node with
  | .directory => true
  | .file _ => false

/-- The bytes of a file; a directory has none. -/
def content (e : Entry β τ) : Option β :=
  match e.node with
  | .directory => none
  | .file content => some content

/-- The entry, changed at `time`. -/
def changedAt (e : Entry β τ) (time : τ) : Entry β τ := { e with modified := time }

@[simp] theorem isDir_changedAt (e : Entry β τ) (time : τ) : (e.changedAt time).isDir = e.isDir :=
  rfl

/-- A directory made at `time`. -/
def directoryAt (time : τ) : Entry β τ := ⟨.directory, time, time⟩

@[simp] theorem isDir_directoryAt (time : τ) : (directoryAt time : Entry β τ).isDir = true := rfl

end Entry

/-- A tree of files and directories: the root is a directory, and what exists lies in a directory.
(The root is its own parent, `[].dropLast = []`.) -/
structure FileTree (ν β τ : Type*) [DecidableEq ν] where
  entries : Store (List ν) (Entry β τ)
  root_isDir : (entries.get []).any Entry.isDir = true
  parent_isDir : ∀ path, (entries.get path).isSome = true →
    (entries.get path.dropLast).any Entry.isDir = true

namespace FileTree

variable {ν β τ : Type*} [DecidableEq ν]

/-! ### Reading -/

/-- The entry at `path`. -/
def get (t : FileTree ν β τ) (path : List ν) : Option (Entry β τ) := t.entries.get path

def pathExists (t : FileTree ν β τ) (path : List ν) : Bool := (t.get path).isSome

def isDir (t : FileTree ν β τ) (path : List ν) : Bool := (t.get path).any Entry.isDir

def isFile (t : FileTree ν β τ) (path : List ν) : Bool := (t.get path).any fun e => !e.isDir

/-- The name of `key` in the directory `path`, if it lies there. -/
def childName (path key : List ν) : Option ν :=
  if key.dropLast = path then key.getLast? else none

/-- The names in the directory `path`. -/
def children (t : FileTree ν β τ) (path : List ν) : List ν :=
  t.entries.keys.filterMap (childName path)

/-- Why nothing is at `path`: a file on the way gives another error than a missing entry. -/
def missing (t : FileTree ν β τ) (path : List ν) : IoError :=
  if path.inits.any t.isFile then .notADirectory else .notFound

/-- `stat`. -/
def metadata (t : FileTree ν β τ) (path : List ν) : Except IoError (Entry β τ) :=
  match t.get path with
  | some e => .ok e
  | none => .error (t.missing path)

/-- The content of the file at `path`. -/
def readFile (t : FileTree ν β τ) (path : List ν) : Except IoError β :=
  match t.metadata path with
  | .ok e =>
    match e.content with
    | some content => .ok content
    | none => .error .isADirectory
  | .error e => .error e

/-- The empty tree, its root made at `time`. -/
def empty (time : τ) : FileTree ν β τ where
  entries := (∅ : Store (List ν) (Entry β τ)).put [] (.directoryAt time)
  root_isDir := by rw [Store.get_put_self]; rfl
  parent_isDir := by
    simp [Store.get_put, List.dropLast_nil, Store.get_empty]

@[simp] theorem isDir_nil (t : FileTree ν β τ) : t.isDir [] = true := t.root_isDir

variable {path : List ν} {t : FileTree ν β τ}

theorem isDir_dropLast (t : FileTree ν β τ) (h : t.pathExists path = true) :
    t.isDir path.dropLast = true := t.parent_isDir path h

theorem pathExists_of_get {e : Entry β τ} (h : t.get path = some e) : t.pathExists path = true := by
  rw [pathExists, h]
  rfl

theorem isDir_of_get {e : Entry β τ} (h : t.get path = some e) : t.isDir path = e.isDir := by
  rw [isDir, h]
  rfl

theorem pathExists_of_isDir (h : t.isDir path = true) : t.pathExists path = true := by
  obtain ⟨e, he, -⟩ := (Option.any_eq_true _ _).mp h
  exact pathExists_of_get he

theorem isDir_above {x : List ν} (hx : t.pathExists x = true)
    (hpre : path <+: x) (hne : path ≠ x) : t.isDir path = true := by
  induction x using List.reverseRecOn with
  | nil => exact absurd (List.prefix_nil.mp hpre) hne
  | append_singleton x name ih =>
    have hup : t.isDir x = true := by
      have hparent := t.isDir_dropLast hx
      rwa [List.dropLast_concat] at hparent
    rcases List.prefix_concat_iff.mp hpre with h | h
    · exact absurd h hne
    grind [pathExists_of_isDir]

theorem get_below_eq_none {x : List ν} (hd : t.isDir path = false)
    (hpre : path <+: x) (hne : path ≠ x) : t.get x = none := by
  cases hx : t.get x with
  | none => rfl
  | some e =>
    have h := isDir_above (pathExists_of_get hx) hpre hne
    rw [hd] at h
    cases h

/-! ### The changes the calls are made of -/

/-- Write the entry at `path`, whose parent is a directory; a directory is never replaced by a
file. -/
def insert (t : FileTree ν β τ) (path : List ν) (e : Entry β τ) (hp : t.isDir path.dropLast = true)
    (hd : t.isDir path = true → e.isDir = true) : FileTree ν β τ where
  entries := t.entries.put path e
  root_isDir := by
    rw [Store.get_put]
    split_ifs with h
    · subst h
      exact hd t.root_isDir
    · exact t.root_isDir
  parent_isDir := by
    intro x hx
    -- the entry's own parent, or the parent of an entry that was there
    have key : t.isDir x.dropLast = true := by
      rw [Store.get_put] at hx
      split_ifs at hx with h
      · rw [h]
        exact hp
      · exact t.parent_isDir x hx
    rw [Store.get_put]
    split_ifs with h
    · exact hd (h ▸ key)
    · exact key

def touch (t : FileTree ν β τ) (path : List ν) (time : τ) : FileTree ν β τ :=
  match h : t.get path with
  | none => t
  | some e => t.insert path (e.changedAt time) (t.isDir_dropLast (pathExists_of_get h)) fun hd => by
      rw [Entry.isDir_changedAt, ← isDir_of_get h]
      exact hd

/-- Drop the entry at `path` and all entries below it. -/
def remove (t : FileTree ν β τ) (path : List ν) (hpath : path ≠ []) : FileTree ν β τ where
  entries := t.entries.removeIf path.isPrefixOf
  root_isDir := by
    rw [Store.get_removeIf, if_neg]
    · exact t.root_isDir
    · rw [List.isPrefixOf_iff_prefix, List.prefix_nil]
      exact hpath
  parent_isDir := by
    intro x hx
    rw [Store.get_removeIf] at hx ⊢
    split_ifs at hx with h
    · cases hx
    · rw [if_neg]
      · exact t.parent_isDir x hx
      grind [List.dropLast_prefix]

/-- The path after `source` has become `target`. -/
def rebase (source target path : List ν) : List ν :=
  if source <+: path then target ++ path.drop source.length else path

theorem rebase_append (source target rest : List ν) :
    rebase source target (source ++ rest) = target ++ rest := by
  rw [rebase, if_pos (List.prefix_append source rest), List.drop_left]

/-- Two paths outside `target` keep apart. -/
theorem rebase_inj {source target k k' : List ν} (hk : ¬ target <+: k) (hk' : ¬ target <+: k')
    (h : rebase source target k = rebase source target k') : k = k' := by
  unfold rebase at h
  split_ifs at h with h1 h2 h2
  · obtain ⟨r, rfl⟩ := h1
    obtain ⟨r', rfl⟩ := h2
    rw [List.drop_left, List.drop_left] at h
    rw [List.append_cancel_left h]
  · exact absurd (h ▸ List.prefix_append target _) hk'
  · exact absurd (h ▸ List.prefix_append target _) hk
  · exact h

/-- No path in `target` is left once the entries there are dropped. -/
theorem not_prefix_of_mem_keys {s : Store (List ν) (Entry β τ)} {target k : List ν}
    (hk : k ∈ (s.removeIf target.isPrefixOf).keys) : ¬ target <+: k := by
  obtain ⟨b, hb⟩ := Store.mem_keys_iff.mp hk
  grind [Store.get_removeIf]

/-- The entries with those at and below `source` moved to `target`, in place of what is there. -/
def movedEntries (s : Store (List ν) (Entry β τ)) (source target : List ν) :
    Store (List ν) (Entry β τ) :=
  (s.removeIf target.isPrefixOf).mapKeys (rebase source target) fun _ hk _ hk' h =>
    rebase_inj (not_prefix_of_mem_keys hk) (not_prefix_of_mem_keys hk') h

theorem get_movedEntries (s : Store (List ν) (Entry β τ)) {source target : List ν}
    (hts : ¬ source <+: target ∧ ¬ target <+: source) (path : List ν) :
    (movedEntries s source target).get path =
      if target <+: path then s.get (source ++ path.drop target.length)
      else if source <+: path then none else s.get path := by
  have key : ∀ b, (movedEntries s source target).get path = some b ↔
      ∃ k, rebase source target k = path ∧ ¬ target <+: k ∧ s.get k = some b := by
    intro b
    rw [movedEntries, Store.get_mapKeys_eq_some_iff]
    refine exists_congr fun k => and_congr_right fun _ => ?_
    rw [Store.get_removeIf]
    split_ifs with h
    · exact iff_of_false (by simp) fun hk => hk.1 (List.isPrefixOf_iff_prefix.mp h)
    · rw [List.isPrefixOf_iff_prefix] at h
      exact (and_iff_right h).symm
  refine Option.ext fun b => ?_
  rw [key]
  split_ifs with h1 h2
  · -- a path in `target` comes from the path in `source` that ends alike
    obtain ⟨rest, rfl⟩ := h1
    rw [List.drop_left]
    constructor
    · rintro ⟨k, hk, hkt, hb⟩
      unfold rebase at hk
      split_ifs at hk with hsrc
      · obtain ⟨r, rfl⟩ := hsrc
        rw [List.drop_left] at hk
        rw [← List.append_cancel_left hk]
        exact hb
      · exact absurd (hk ▸ List.prefix_append target rest) hkt
    · intro hb
      refine ⟨source ++ rest, rebase_append source target rest, fun hpre => ?_, hb⟩
      -- two prefixes of one path are comparable
      grind [List.prefix_or_prefix_of_prefix, List.prefix_append]
  · -- nothing is left in `source`
    refine iff_of_false ?_ (by simp)
    grind [rebase, List.prefix_append]
  · constructor
    · grind [rebase, absurd, List.prefix_append]
    · intro hb
      exact ⟨path, by rw [rebase, if_neg h2], h1, hb⟩

/-- Move the entry at `source`, with all entries below it, to `target` in place of what is there. -/
def moveTree (t : FileTree ν β τ) (source target : List ν)
    (hts : ¬ source <+: target ∧ ¬ target <+: source) (hp : t.isDir target.dropLast = true) :
    FileTree ν β τ where
  entries := movedEntries t.entries source target
  root_isDir := by
    rw [get_movedEntries _ hts, if_neg, if_neg]
    · exact t.root_isDir
    · intro h
      rw [List.prefix_nil.mp h] at hts
      exact hts.1 List.nil_prefix
    · intro h
      rw [List.prefix_nil.mp h] at hts
      exact hts.2 List.nil_prefix
  parent_isDir := by
    intro x hx
    rw [get_movedEntries _ hts] at hx ⊢
    have htarget : target ≠ [] := fun h => hts.2 (h ▸ List.nil_prefix)
    split_ifs at hx with h1 h2
    · obtain ⟨rest, rfl⟩ := h1
      rw [List.drop_left] at hx
      by_cases hrest : rest = []
      · -- the moved entry itself: its parent is that of `target`
        rw [hrest, List.append_nil, if_neg, if_neg]
        · exact hp
        · exact fun h => hts.1 (h.trans (List.dropLast_prefix target))
        · intro h
          have hlen := h.length_le
          rw [List.length_dropLast] at hlen
          have hpos := List.length_pos_iff.mpr htarget
          omega
      · rw [List.dropLast_append_of_ne_nil hrest, if_pos (List.prefix_append _ _), List.drop_left,
          ← List.dropLast_append_of_ne_nil hrest]
        exact t.parent_isDir _ hx
    · cases hx
    · have hup : x.dropLast <+: x := List.dropLast_prefix x
      rw [if_neg fun h => h1 (h.trans hup), if_neg fun h => h2 (h.trans hup)]
      exact t.parent_isDir x hx

/-! ### What is read after a change -/

theorem get_empty (time : τ) (path : List ν) : (empty time : FileTree ν β τ).get path =
    if path = [] then some (.directoryAt time) else none := by
  change Store.get (Store.put _ _ _) path = _
  rw [Store.get_put, Store.get_empty]

@[simp] theorem get_insert (t : FileTree ν β τ) (path : List ν) (e : Entry β τ) (hp hd)
    (x : List ν) : (t.insert path e hp hd).get x = if x = path then some e else t.get x :=
  Store.get_put _ _ _ _

@[simp] theorem get_touch (t : FileTree ν β τ) (path : List ν) (time : τ) (x : List ν) :
    (t.touch path time).get x =
      if x = path then (t.get x).map (Entry.changedAt · time) else t.get x := by
  unfold touch
  split
  · next h =>
    split_ifs with hx
    · rw [hx, h]
      rfl
    · rfl
  · next e h =>
    rw [get_insert]
    split_ifs with hx
    · rw [hx, h]
      rfl
    · rfl

@[simp] theorem get_remove (t : FileTree ν β τ) (path : List ν) (hpath : path ≠ [])
    (x : List ν) : (t.remove path hpath).get x = if path <+: x then none else t.get x := by
  rw [get, remove, Store.get_removeIf]
  simp only [List.isPrefixOf_iff_prefix]
  rfl

@[simp] theorem get_moveTree (t : FileTree ν β τ) (source target : List ν) (hts hp)
    (x : List ν) : (t.moveTree source target hts hp).get x =
      if target <+: x then t.get (source ++ x.drop target.length)
      else if source <+: x then none else t.get x :=
  get_movedEntries _ hts x

@[simp] theorem isDir_touch (t : FileTree ν β τ) (path : List ν) (time : τ) (x : List ν) :
    (t.touch path time).isDir x = t.isDir x := by
  rw [isDir, isDir, get_touch]
  split_ifs
  · cases t.get x <;> rfl
  · rfl

theorem isDir_insert (t : FileTree ν β τ) (path : List ν) (e : Entry β τ) (hp hd) (x : List ν) :
    (t.insert path e hp hd).isDir x = if x = path then e.isDir else t.isDir x := by
  rw [isDir, get_insert]
  split_ifs <;> rfl

@[simp] theorem isFile_touch (t : FileTree ν β τ) (path : List ν) (time : τ) (x : List ν) :
    (t.touch path time).isFile x = t.isFile x := by
  rw [isFile, isFile, get_touch]
  split_ifs
  · cases t.get x <;> rfl
  · rfl

/-! ### The names in a directory -/

theorem childName_eq_some_iff {key : List ν} {name : ν} :
    childName path key = some name ↔ key = path ++ [name] := by
  unfold childName
  constructor
  · intro h
    split_ifs at h with hdir
    rw [← hdir, List.dropLast_append_getLast? name h]
  · rintro rfl
    rw [List.dropLast_concat, if_pos rfl, List.getLast?_concat]

theorem mem_children_iff {name : ν} :
    name ∈ t.children path ↔ t.pathExists (path ++ [name]) = true := by
  rw [children, List.mem_filterMap, pathExists, Option.isSome_iff_exists]
  simp only [childName_eq_some_iff, Store.mem_keys_iff]
  aesop

theorem nodup_children (t : FileTree ν β τ) (path : List ν) : (t.children path).Nodup := by
  refine List.Nodup.filterMap (fun key key' name hkey hkey' => ?_) t.entries.keys_nodup
  rw [childName_eq_some_iff.mp hkey, childName_eq_some_iff.mp hkey']

/-- Trees with the same entries in a directory list the same names there, in some order. -/
theorem children_perm {u : FileTree ν β τ}
    (h : ∀ name, t.get (path ++ [name]) = u.get (path ++ [name])) :
    (t.children path).Perm (u.children path) := by
  grind [List.perm_ext_iff_of_nodup, nodup_children, mem_children_iff, pathExists]

end FileTree

end Pkgly
