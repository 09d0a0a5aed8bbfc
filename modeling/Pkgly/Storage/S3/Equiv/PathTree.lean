import Pkgly.Storage.S3.Equiv.S3Storage

/-!
# The keys of a repository as a tree

A key is below another if it continues it with a slash.  Of the calls that store a new key, the
writers look for objects above it, but none for objects below it, and `move_file` looks for
neither.

* `mem_ancestors_of_below`: a key of the repository above a new key is one of the ancestors that
  `getPathForCreation` probes, or the bare key of the repository.
* `tree_of_clear`: in a run from an empty repository whose calls are all `Clear`, no key of the
  repository is ever below another, and a call that conflicts is rejected without a change.
-/

namespace Pkgly.S3

namespace S3Storage

variable {st st' : S3Storage} {repository path path' : String} {location : StoragePath}

/-- `path'` lies in the directory `path`. -/
def below (path path' : String) : Bool := startsWith (path ++ "/") path'

/-- The keys of a repository: below its name, and the name itself. -/
def inRepository (repository path : String) : Bool := path == repository || below repository path

/-! ### Keys below one another -/

theorem below_iff : below path path' = true ↔ ∃ rest, path'.toList = path.toList ++ '/' :: rest := by
  rw [below, startsWith_iff, String.toList_append]
  show path.toList ++ ['/'] <+: _ ↔ _
  constructor
  · rintro ⟨rest, hrest⟩
    refine ⟨rest, ?_⟩
    rw [← hrest, List.append_assoc]
    rfl
  · rintro ⟨rest, hrest⟩
    refine ⟨rest, ?_⟩
    rw [hrest, List.append_assoc]
    rfl

theorem below_self (path : String) : below path path = false := by
  rw [Bool.eq_false_iff]
  intro h
  obtain ⟨rest, hrest⟩ := below_iff.mp h
  have hlen := congrArg List.length hrest
  rw [List.length_append, List.length_cons] at hlen
  omega

theorem below_trans {path'' : String} (h : below path path' = true)
    (h' : below path' path'' = true) : below path path'' = true := by
  obtain ⟨rest, hrest⟩ := below_iff.mp h
  obtain ⟨rest', hrest'⟩ := below_iff.mp h'
  refine below_iff.mpr ⟨rest ++ '/' :: rest', ?_⟩
  rw [hrest', hrest, List.append_assoc]
  rfl

theorem inRepository_of_below (h : inRepository repository path = true)
    (hbelow : below path path' = true) : inRepository repository path' = true := by
  unfold inRepository at h ⊢
  rw [Bool.or_eq_true, beq_iff_eq] at h
  rw [Bool.or_eq_true]
  rcases h with rfl | h
  · exact Or.inr hbelow
  · exact Or.inr (below_trans h hbelow)

theorem toList_child (path part : String) :
    (path ++ "/" ++ part).toList = path.toList ++ '/' :: part.toList := by
  rw [String.toList_append, String.toList_append, List.append_assoc]
  rfl

/-- Two texts without slashes, each followed by a slash or the end, are equal if they start the
same text. -/
theorem eq_or_below_of_prefix {x y p r : List Char} (hp : '/' ∉ p)
    (h : x ++ '/' :: y = p ++ '/' :: r) : x = p ∨ ∃ z, x = p ++ '/' :: z ∧ z ++ '/' :: y = r := by
  rcases List.append_eq_append_iff.mp h with ⟨z, hz, hrest⟩ | ⟨z, hz, hrest⟩
  · cases z with
    | nil =>
      rw [List.append_nil] at hz
      exact Or.inl hz.symm
    | cons c z =>
      -- the slash after `x` lies in `p`
      grind
  · cases z with
    | nil =>
      rw [List.append_nil] at hz
      exact Or.inl hz
    | cons c z =>
      obtain ⟨rfl, htail⟩ := List.cons.inj hrest
      exact Or.inr ⟨z, hz, htail.symm⟩

theorem mem_ancestors_of_below_joined {parts : List String} {x : List Char}
    (hparts : ∀ part ∈ parts, '/' ∉ part.toList)
    (h : below (String.ofList (path.toList ++ '/' :: x)) (joined path parts) = true) :
    String.ofList (path.toList ++ '/' :: x) ∈ ancestors path parts := by
  obtain ⟨y, hy⟩ := below_iff.mp h
  rw [String.toList_ofList] at hy
  clear h
  induction parts generalizing path x with
  | nil =>
    simp_all [joined, List.foldl_nil, List.append_assoc]
  | cons part rest ih =>
    have hpart := hparts part List.mem_cons_self
    by_cases hrest : rest = []
    · have hkey : (joined path (part :: rest)).toList = path.toList ++ '/' :: part.toList := by
        rw [hrest]
        exact toList_child path part
      grind [List.append_assoc, List.append_cancel_left, List.cons.inj, absurd,
        List.mem_append_right, List.mem_cons_self]
    · have hkey : (joined path (part :: rest)).toList = path.toList ++ '/' ::
          (part.toList ++ '/' :: (String.intercalate "/" rest).toList) := by
        rw [joined_eq (List.cons_ne_nil part rest), toList_child,
          String.intercalate_cons_of_ne_nil hrest, toList_child]
      have hfold : joined path (part :: rest) = joined (path ++ "/" ++ part) rest := rfl
      have hcons := hy
      rw [hkey, List.append_assoc] at hcons
      have hcons := List.append_cancel_left hcons
      rw [List.cons_append] at hcons
      obtain ⟨_, hcons⟩ := List.cons.inj hcons
      rw [ancestors_cons hrest]
      rcases eq_or_below_of_prefix hpart hcons.symm with rfl | ⟨z, rfl, hz⟩
      · rw [← toList_child, String.ofList_toList]
        exact List.mem_cons_self
      · have hchild : path.toList ++ '/' :: (part.toList ++ '/' :: z) =
            (path ++ "/" ++ part).toList ++ '/' :: z := by
          rw [toList_child, List.append_assoc]
          rfl
        rw [hchild]
        refine List.mem_cons_of_mem _ (ih (fun p hp => hparts p (List.mem_cons_of_mem _ hp)) ?_)
        rw [← hchild, ← hfold, hy]

theorem mem_ancestors_of_below (hlocation : location.WellFormed)
    (hin : inRepository repository path = true)
    (h : below path (writeKey repository location) = true) :
    path = repository ∧ location.components ≠ [] ∨
      path ∈ ancestors repository location.components := by
  unfold inRepository at hin
  rw [Bool.or_eq_true, beq_iff_eq] at hin
  rcases hin with rfl | hin
  · refine Or.inl ⟨rfl, fun hnil => ?_⟩
    rw [writeKey, hnil] at h
    cases (below_self path).symm.trans h
  · obtain ⟨x, hx⟩ := below_iff.mp hin
    obtain rfl : path = String.ofList (repository.toList ++ '/' :: x) := by
      rw [← hx, String.ofList_toList]
    exact Or.inr (mem_ancestors_of_below_joined (fun part hp => (hlocation part hp).2) h)

/-! ### The calls -/

/-- The calls that change the objects of a repository.  An ETag is what S3 gives the object that
the call writes. -/
inductive S3Call
  | saveFile (content : Bytes) (location : StoragePath) (eTag : Option String)
  | appendFile (content : Bytes) (location : StoragePath) (eTag : Option String)
  | appendFileStaged (content : Bytes) (location : StoragePath) (seed available : Nat)
  | moveFile (src dst : StoragePath) (eTag : Option String)
  | deleteFile (location : StoragePath)

namespace S3Call

def WellFormed : S3Call → Prop
  | saveFile _ location _ => location.WellFormed
  | appendFile _ location _ => location.WellFormed
  | appendFileStaged _ location _ _ => location.WellFormed
  | moveFile src dst _ => src.WellFormed ∧ dst.WellFormed
  | deleteFile location => location.WellFormed

instance : DecidablePred WellFormed
  | saveFile _ location _ => inferInstanceAs (Decidable location.WellFormed)
  | appendFile _ location _ => inferInstanceAs (Decidable location.WellFormed)
  | appendFileStaged _ location _ _ => inferInstanceAs (Decidable location.WellFormed)
  | moveFile src dst _ => inferInstanceAs (Decidable (src.WellFormed ∧ dst.WellFormed))
  | deleteFile location => inferInstanceAs (Decidable location.WellFormed)

end S3Call

def exec (repository : String) (st : S3Storage) : S3Call → S3Storage × Except S3StorageError Unit
  | .saveFile content location eTag =>
    ((st.saveFile repository content location eTag).1,
      (st.saveFile repository content location eTag).2.map fun _ => ())
  | .appendFile content location eTag =>
    ((st.appendFile repository content location eTag).1,
      (st.appendFile repository content location eTag).2.map fun _ => ())
  | .appendFileStaged content location seed available =>
    ((st.appendFileStaged repository content location seed available).1,
      (st.appendFileStaged repository content location seed available).2.map fun _ => ())
  | .moveFile src dst eTag =>
    ((st.moveFile repository src dst eTag).1,
      (st.moveFile repository src dst eTag).2.map fun _ => ())
  | .deleteFile location => ((st.deleteFile repository location).1, .ok ())

def step (repository : String) (st : S3Storage) (call : S3Call) : Option S3Storage :=
  some (st.exec repository call).1

def TreeOk (repository : String) (st : S3Storage) : Prop :=
  ∀ path path', st.doesPathExist path = true → st.doesPathExist path' = true →
    inRepository repository path = true → below path path' = false

/-- `move_file` stores an object at `toPath` that may be new. -/
def moveWrites (st : S3Storage) (fromPath toPath : String) : Bool :=
  match st.appendStaging.get fromPath with
  | some _ => !st.doesPathExist toPath
  | none => ((st.objects.get fromPath).bind S3Object.eTag).isSome && fromPath != toPath

/-- `move_file` deletes the object at its source, if it stores one at another key. -/
def moveRemoves (st : S3Storage) (fromPath : String) : Bool :=
  match st.appendStaging.get fromPath with
  | some staged =>
    staged.baseEtag.isSome && (st.objects.get fromPath).bind S3Object.eTag == staged.baseEtag
  | none => true

def related (path path' : String) : Bool := below path path' || below path' path

def storedKeys (st : S3Storage) (repository : String) : List String :=
  st.objects.keys.filter (inRepository repository)

/-- `path` is a stored key of the repository above or below the destination of a move that leaves
it. -/
def moveMeets (st : S3Storage) (repository fromPath toPath : String) : Bool :=
  (st.storedKeys repository).any fun path =>
    related path toPath && !(path == fromPath && st.moveRemoves fromPath)

/-- The call stores a key above or below one that it leaves; a staged append only prepares it. -/
def conflicts (repository : String) (st : S3Storage) : S3Call → Bool
  | .saveFile _ location _ => (st.storedKeys repository).any (related (writeKey repository location))
  | .appendFile _ location _ =>
    (st.storedKeys repository).any (related (writeKey repository location))
  | .appendFileStaged _ location _ _ => st.ancestorStored repository location
  | .moveFile src dst _ =>
    st.moveWrites (s3Path repository src) (s3Path repository dst) &&
      st.moveMeets repository (s3Path repository src) (s3Path repository dst)
  | .deleteFile _ => false

/-- Nothing is stored below the new key, nor at the bare key of the repository above it. -/
def clearBelow (st : S3Storage) (repository : String) (location : StoragePath) : Bool :=
  !(st.objects.keys.any (below (writeKey repository location))) &&
    (location.components == [] || !st.doesPathExist repository)

/-- A writer finds an object above its key, or leaves none below it; a move meets no key. -/
def clear (repository : String) (st : S3Storage) : S3Call → Bool
  | .saveFile _ location _ =>
    st.ancestorStored repository location || st.clearBelow repository location
  | .appendFile _ location _ =>
    st.ancestorStored repository location || st.clearBelow repository location
  | .appendFileStaged .. => true
  | .moveFile src dst _ =>
    !(st.moveWrites (s3Path repository src) (s3Path repository dst) &&
      st.moveMeets repository (s3Path repository src) (s3Path repository dst))
  | .deleteFile _ => true

theorem mem_storedKeys_iff : path ∈ st.storedKeys repository ↔
    st.doesPathExist path = true ∧ inRepository repository path = true := by
  rw [storedKeys, List.mem_filter, Store.mem_keys_iff, doesPathExist, Option.isSome_iff_exists]

theorem related_comm (path path' : String) : related path path' = related path' path :=
  Bool.or_comm _ _

theorem unrelated_of_clearBelow (hlocation : location.WellFormed)
    (hclear : (st.ancestorStored repository location || st.clearBelow repository location) = true)
    (hnot : st.ancestorStored repository location = false)
    (hpath : path ∈ st.storedKeys repository) :
    related (writeKey repository location) path = false := by
  obtain ⟨hstored, hin⟩ := mem_storedKeys_iff.mp hpath
  rw [hnot, Bool.false_or, clearBelow, Bool.and_eq_true, Bool.not_eq_true', Bool.or_eq_true,
    Bool.not_eq_true', beq_iff_eq] at hclear
  obtain ⟨hbelow, hbare⟩ := hclear
  have hkey : path ∈ st.objects.keys := (List.mem_filter.mp hpath).1
  rw [related, Bool.or_eq_false_iff]
  constructor
  · exact Bool.eq_false_iff.mpr (List.any_eq_false.mp hbelow path hkey)
  · rw [Bool.eq_false_iff]
    intro habove
    rcases mem_ancestors_of_below hlocation hin habove with ⟨rfl, hne⟩ | hmem
    · rcases hbare with hnil | hbare
      · exact hne hnil
      · cases hbare.symm.trans hstored
    · exact List.any_eq_false.mp hnot path hmem hstored

/-! ### One call -/

theorem TreeOk.of_new (h : TreeOk repository st)
    (hnew : ∀ k, st'.doesPathExist k = true → k = path ∨ st.doesPathExist k = true)
    (hclear : ∀ k, st'.doesPathExist k = true → inRepository repository k = true → k ≠ path →
      related path k = false) : TreeOk repository st' := by
  intro k k' hk hk' hin
  rw [Bool.eq_false_iff]
  intro hbelow
  have hin' := inRepository_of_below hin hbelow
  by_cases hpath : k = path
  · grind [below_self, related]
  · by_cases hpath' : k' = path
    · simp_all [related]
    · have hold := (hnew k hk).resolve_left hpath
      have hold' := (hnew k' hk').resolve_left hpath'
      cases (h k k' hold hold' hin).symm.trans hbelow

theorem TreeOk.of_subset (h : TreeOk repository st)
    (hold : ∀ k, st'.doesPathExist k = true → st.doesPathExist k = true) :
    TreeOk repository st' :=
  fun k k' hk hk' hin => h k k' (hold k hk) (hold k' hk') hin

theorem doesPathExist_of_objects (h : st'.objects = st.objects) (k : String) :
    st'.doesPathExist k = st.doesPathExist k := by
  rw [doesPathExist, h, doesPathExist]

theorem Writes.doesPathExist {content : Bytes} {eTag : Option String}
    (h : Writes st st' repository location content eTag) (k : String) :
    st'.doesPathExist k = (k == writeKey repository location || st.doesPathExist k) := by
  rw [S3Storage.doesPathExist, h.objects, Store.get_put]
  split_ifs with hk
  · rw [hk, beq_self_eq_true, Bool.true_or]
    rfl
  · rw [beq_eq_false_iff_ne.mpr hk, Bool.false_or]
    rfl

theorem Writes.treeOk {content : Bytes} {eTag : Option String}
    (hwrites : Writes st st' repository location content eTag) (h : TreeOk repository st)
    (hlocation : location.WellFormed)
    (hclear : (st.ancestorStored repository location || st.clearBelow repository location) = true)
    (hnot : st.ancestorStored repository location = false) : TreeOk repository st' := by
  have hnew : ∀ k, st'.doesPathExist k = true →
      k = writeKey repository location ∨ st.doesPathExist k = true := by
    intro k hk
    rwa [hwrites.doesPathExist, Bool.or_eq_true, beq_iff_eq] at hk
  refine h.of_new hnew fun k hk hin hne => ?_
  have hstored := (hnew k hk).resolve_left hne
  exact unrelated_of_clearBelow hlocation hclear hnot (mem_storedKeys_iff.mpr ⟨hstored, hin⟩)

/-! ### Moves and deletions -/

theorem Sound.of_removed (h : Sound st) (hprobes : st'.creationProbes = st.creationProbes)
    (hobjects : ∀ k, st.objects.get k = none → st'.objects.get k = none) : Sound st' := by
  intro k hpeek
  rw [hprobes] at hpeek
  exact hobjects k (h k hpeek)

theorem get_remove_eq_none {objects : Store String S3Object} {k : String}
    (h : objects.get k = none) : (objects.remove path).get k = none := by
  rw [Store.get_remove]
  split_ifs
  · rfl
  · exact h

theorem Sound.deleteFile (h : Sound st) : Sound (st.deleteFile repository location).1 := by
  grind [S3Storage.deleteFile, objects_deleteFile, get_remove_eq_none, S3Storage.Sound]

/-- What `move_file` does to the objects and the memo. -/
structure Moved (st st' : S3Storage) (fromPath toPath : String) : Prop where
  sound : Sound st → Sound st'
  stored : ∀ k, st'.doesPathExist k = true →
    k = toPath ∧ st.moveWrites fromPath toPath = true ∨ st.doesPathExist k = true
  removed : st.moveWrites fromPath toPath = true → st.moveRemoves fromPath = true →
    fromPath ≠ toPath → st'.doesPathExist fromPath = false

variable {fromPath toPath : String}

theorem Moved.of_objects (hobjects : st'.objects = st.objects)
    (hsound : Sound st → Sound st') (hnot : st.moveWrites fromPath toPath = false) :
    Moved st st' fromPath toPath where
  sound := hsound
  stored k hk := by
    rw [doesPathExist_of_objects hobjects] at hk
    exact Or.inr hk
  removed hwrites := by
    rw [hnot] at hwrites
    cases hwrites

theorem doesPathExist_remove {objects : Store String S3Object} (hst : st'.objects =
    objects.remove path) (k : String) (hk : st'.doesPathExist k = true) :
    k ≠ path ∧ (objects.get k).isSome = true := by
  grind [doesPathExist, Store.get_remove]

theorem doesPathExist_eq_false_iff : st.doesPathExist path = false ↔ st.objects.get path = none := by
  rw [doesPathExist, Option.isSome_eq_false_iff, Option.isNone_iff_eq_none]

def deleteSource (st : S3Storage) (fromPath : String) (staged : StagedAppend) :
    S3Storage × Except S3StorageError Bool :=
  match staged.baseEtag with
  | none => ({ st with appendStaging := st.appendStaging.remove fromPath }, .ok true)
  | some base =>
    match st.deleteIfMatch fromPath base with
    | none => (st, .error .conflict)
    | some st => ({ st with appendStaging := st.appendStaging.remove fromPath }, .ok true)

/-- The deletion removes the source exactly if its ETag is the one that was staged. -/
theorem objects_deleteSource (fromPath : String) (staged : StagedAppend) :
    (st.deleteSource fromPath staged).1.creationProbes = st.creationProbes ∧
      (st.deleteSource fromPath staged).1.objects =
        if staged.baseEtag.isSome = true ∧
            (st.objects.get fromPath).bind S3Object.eTag = staged.baseEtag then
          st.objects.remove fromPath
        else st.objects := by
  unfold deleteSource
  cases hbase : staged.baseEtag with
  | none => exact ⟨rfl, rfl⟩
  | some base =>
    simp only [Option.isSome_some, true_and]
    unfold deleteIfMatch
    split_ifs with hmatch
    · exact ⟨rfl, rfl⟩
    · exact ⟨rfl, rfl⟩

theorem finalizeStaged_eq (fromPath toPath : String) (dst : StoragePath) (staged : StagedAppend)
    (eTag : Option String) : st.finalizeStaged fromPath toPath dst staged eTag =
      match st.objects.get toPath with
      | none =>
        (((st.noteObjectCreated toPath).putObject toPath
          (newObject dst staged.content eTag)).noteObjectCreated toPath).deleteSource fromPath staged
      | some object =>
        if object.content.length = staged.content.length then
          ((st.noteObjectCreated toPath).noteObjectCreated toPath).deleteSource fromPath staged
        else (st.noteObjectCreated toPath, .error .conflict) := by
  unfold finalizeStaged
  have hget : (st.noteObjectCreated toPath).objects.get toPath = st.objects.get toPath := rfl
  simp only [hget]
  cases st.objects.get toPath with
  | none => rfl
  | some object =>
    simp only
    split_ifs
    · rfl
    · rfl

theorem Moved.deleteSource {staged : StagedAppend} {st₁ : S3Storage}
    (hstaged : st.appendStaging.get fromPath = some staged) (hsound : Sound st → Sound st₁)
    (hstored : ∀ k, st₁.doesPathExist k = true →
      k = toPath ∧ st.moveWrites fromPath toPath = true ∨ st.doesPathExist k = true)
    (hsource : fromPath ≠ toPath → st₁.objects.get fromPath = st.objects.get fromPath) :
    Moved st (st₁.deleteSource fromPath staged).1 fromPath toPath := by
  obtain ⟨hprobes, hobjects⟩ := @objects_deleteSource st₁ fromPath staged
  constructor
  · grind [get_remove_eq_none, S3Storage.Sound, S3Storage.deleteSource]
  · grind [doesPathExist_remove, doesPathExist_of_objects, S3Storage.doesPathExist,
      S3Storage.deleteSource, S3Storage.moveWrites]
  simp_all [moveRemoves, Bool.and_eq_true, beq_iff_eq, doesPathExist_eq_false_iff,
    Store.get_remove_self]

theorem sound_upload (h : Sound st) (path : String) (object : S3Object) :
    Sound (((st.noteObjectCreated path).putObject path object).noteObjectCreated path) := by
  have hnew : ∀ k, k ≠ path → (st.noteObjectCreated path).objects.get k = none →
      ((st.noteObjectCreated path).objects.put path object).get k = none :=
    fun k hk hnone => (Store.get_put_of_ne _ _ hk).trans hnone
  exact (h.note path).noteObjectCreated hnew

theorem doesPathExist_upload (object : S3Object) (k : String)
    (h : (((st.noteObjectCreated path).putObject path object).noteObjectCreated path).doesPathExist k
      = true) : k = path ∨ st.doesPathExist k = true := by
  have h : ((st.objects.put path object).get k).isSome = true := h
  rw [Store.get_put] at h
  split_ifs at h with hk
  · exact Or.inl hk
  · exact Or.inr h

theorem finalizeStaged_spec {staged : StagedAppend}
    (hstaged : st.appendStaging.get fromPath = some staged) (dst : StoragePath)
    (eTag : Option String) :
    Moved st (st.finalizeStaged fromPath toPath dst staged eTag).1 fromPath toPath := by
  have hwrites : st.moveWrites fromPath toPath = !st.doesPathExist toPath := by
    unfold moveWrites
    rw [hstaged]
  rw [finalizeStaged_eq]
  cases hget : st.objects.get toPath with
  | none =>
    have hnew : st.moveWrites fromPath toPath = true := by
      rw [hwrites, doesPathExist, hget]
      rfl
    apply Moved.deleteSource hstaged
    · intro h
      exact sound_upload h toPath _
    · grind [doesPathExist_upload]
    · intro hne
      exact Store.get_put_of_ne _ _ hne
  | some object =>
    have hold : st.moveWrites fromPath toPath = false := by
      rw [hwrites, doesPathExist, hget]
      rfl
    simp only
    split_ifs
    · apply Moved.deleteSource hstaged
      · intro h
        exact (h.note toPath).note toPath
      · intro k hk
        exact Or.inr hk
      · intro _
        rfl
    · have hsound : Sound st → Sound (st.noteObjectCreated toPath) := fun h => h.note toPath
      exact Moved.of_objects rfl hsound hold

theorem moveFile_spec (repository : String) (src dst : StoragePath) (eTag : Option String) :
    Moved st (st.moveFile repository src dst eTag).1 (s3Path repository src)
      (s3Path repository dst) := by
  unfold moveFile
  simp only
  cases hstaged : st.appendStaging.get (s3Path repository src) with
  | some staged => exact finalizeStaged_spec hstaged dst eTag
  | none =>
    have hnote : Sound st → Sound (st.noteObjectCreated (s3Path repository dst)) :=
      fun h => h.note _
    have hwrites : st.moveWrites (s3Path repository src) (s3Path repository dst) =
        (((st.objects.get (s3Path repository src)).bind S3Object.eTag).isSome &&
          s3Path repository src != s3Path repository dst) := by
      unfold moveWrites
      rw [hstaged]
    cases hget : st.objects.get (s3Path repository src) with
    | none =>
      rw [hget] at hwrites
      exact Moved.of_objects rfl id hwrites
    | some object =>
      simp only
      rw [hget, Option.bind_some] at hwrites
      cases htag : object.eTag with
      | none =>
        rw [htag] at hwrites
        exact Moved.of_objects rfl hnote hwrites
      | some source =>
        rw [htag, Option.isSome_some, Bool.true_and] at hwrites
        simp only
        split_ifs with hsame
        · have hold := hwrites.trans (bne_eq_false_iff_eq.mpr hsame)
          exact Moved.of_objects rfl hnote hold
        · -- the copy leaves the source as it is, so that it is deleted
          rw [bne_iff_ne.mpr hsame] at hwrites
          unfold deleteIfMatch
          have hsource : ∀ o : S3Object, (((st.noteObjectCreated
              (s3Path repository dst)).putObject (s3Path repository dst) o).noteObjectCreated
                (s3Path repository dst)).objects.get (s3Path repository src) = some object := by
            intro o
            exact (Store.get_put_of_ne _ _ hsame).trans hget
          rw [hsource, Option.bind_some, if_pos htag]
          simp only
          constructor
          · intro h
            exact (sound_upload h _ _).of_removed rfl fun k hk => get_remove_eq_none hk
          · intro k hk
            obtain ⟨_, hk⟩ := doesPathExist_remove rfl k hk
            rcases doesPathExist_upload _ k hk with hk | hk
            · exact Or.inl ⟨hk, hwrites⟩
            · exact Or.inr hk
          simp [doesPathExist_eq_false_iff, Store.get_remove_self]

theorem Moved.treeOk (hmoved : Moved st st' fromPath toPath) (h : TreeOk repository st)
    (hclear : (st.moveWrites fromPath toPath && st.moveMeets repository fromPath toPath) = false) :
    TreeOk repository st' := by
  cases hwrites : st.moveWrites fromPath toPath with
  | false =>
    refine h.of_subset fun k hk => ?_
    rcases hmoved.stored k hk with ⟨_, htrue⟩ | hold
    · cases hwrites.symm.trans htrue
    · exact hold
  | true =>
    rw [hwrites, Bool.true_and] at hclear
    have hnew : ∀ k, st'.doesPathExist k = true → k = toPath ∨ st.doesPathExist k = true := by
      intro k hk
      rcases hmoved.stored k hk with ⟨hk, _⟩ | hold
      · exact Or.inl hk
      · exact Or.inr hold
    refine h.of_new hnew fun k hk hin hne => ?_
    have hmem := mem_storedKeys_iff.mpr ⟨(hnew k hk).resolve_left hne, hin⟩
    have hmeets := List.any_eq_false.mp hclear k hmem
    rw [Bool.and_eq_true, not_and, Bool.not_eq_true', Bool.not_eq_false, Bool.and_eq_true,
      beq_iff_eq] at hmeets
    rw [Bool.eq_false_iff]
    intro hrelated
    rw [related_comm] at hrelated
    -- the key would be the source, which is deleted
    obtain ⟨rfl, hremoves⟩ := hmeets hrelated
    cases (hmoved.removed hwrites hremoves hne).symm.trans hk

/-! ### Runs -/

theorem exec_treeOk {call : S3Call} (hwf : call.WellFormed) (hsound : Sound st)
    (h : TreeOk repository st) (hclear : clear repository st call = true) :
    Sound (st.exec repository call).1 ∧ TreeOk repository (st.exec repository call).1 := by
  cases call with
  | saveFile content location eTag =>
    have hsave := saveFile_spec hsound repository content location eTag
    split_ifs at hsave with hstored
    · obtain ⟨_, hsame, hsound'⟩ := hsave
      refine ⟨hsound', h.of_subset fun k hk => ?_⟩
      rwa [← doesPathExist_of_objects hsame.1]
    · rw [Bool.not_eq_true] at hstored
      exact ⟨hsave.2.sound, hsave.2.treeOk h hwf hclear hstored⟩
  | appendFile content location eTag =>
    have happend := appendFile_spec hsound repository content location eTag
    split_ifs at happend with hstored
    · obtain ⟨_, hsame, hsound'⟩ := happend
      refine ⟨hsound', h.of_subset fun k hk => ?_⟩
      rwa [← doesPathExist_of_objects hsame.1]
    · obtain ⟨_, hsame, hsound'⟩ := happend
      refine ⟨hsound', h.of_subset fun k hk => ?_⟩
      rwa [← doesPathExist_of_objects hsame.1]
    · rw [Bool.not_eq_true] at hstored
      exact ⟨happend.2.sound, happend.2.treeOk h hwf hclear hstored⟩
  | appendFileStaged content location seed available =>
    obtain ⟨_, hobjects, hsound'⟩ :=
      appendFileStaged_spec hsound repository content location seed available
    refine ⟨hsound', h.of_subset fun k hk => ?_⟩
    rwa [← doesPathExist_of_objects hobjects]
  | moveFile src dst eTag =>
    have hmoved := @moveFile_spec st repository src dst eTag
    rw [clear, Bool.not_eq_true'] at hclear
    exact ⟨hmoved.sound hsound, hmoved.treeOk h hclear⟩
  | deleteFile location =>
    refine ⟨hsound.deleteFile, h.of_subset fun k hk => ?_⟩
    exact (doesPathExist_remove objects_deleteFile k hk).2

theorem exec_rejected {call : S3Call} (hwf : call.WellFormed) (hsound : Sound st)
    (hclear : clear repository st call = true) (hconflicts : conflicts repository st call = true) :
    (∃ location conflicting,
      (st.exec repository call).2 = .error (.pathCollision location conflicting)) ∧
      (st.exec repository call).1.objects = st.objects := by
  have hstored : ∀ {location : StoragePath}, location.WellFormed →
      (st.ancestorStored repository location || st.clearBelow repository location) = true →
      (st.storedKeys repository).any (related (writeKey repository location)) = true →
      st.ancestorStored repository location = true := by grind [hnot, unrelated_of_clearBelow]
  cases call with
  | saveFile content location eTag =>
    have hsave := saveFile_spec hsound repository content location eTag
    rw [if_pos (hstored hwf hclear hconflicts)] at hsave
    obtain ⟨⟨c, hc⟩, hsame, _⟩ := hsave
    refine ⟨⟨location, c, ?_⟩, hsame.1⟩
    show Except.map _ _ = _
    rw [hc]
    rfl
  | appendFile content location eTag =>
    have happend := appendFile_spec hsound repository content location eTag
    rw [if_pos (hstored hwf hclear hconflicts)] at happend
    obtain ⟨⟨c, hc⟩, hsame, _⟩ := happend
    refine ⟨⟨location, c, ?_⟩, hsame.1⟩
    show Except.map _ _ = _
    rw [hc]
    rfl
  | appendFileStaged content location seed available =>
    obtain ⟨hrejected, hobjects, _⟩ :=
      appendFileStaged_spec hsound repository content location seed available
    obtain ⟨c, hc⟩ := hrejected hconflicts
    refine ⟨⟨location, c, ?_⟩, hobjects⟩
    show Except.map _ _ = _
    rw [hc]
    rfl
  | moveFile src dst eTag =>
    rw [clear, Bool.not_eq_true'] at hclear
    cases hclear.symm.trans hconflicts
  | deleteFile location => cases hconflicts

/-- **The keys of a repository form a tree** in every run from an empty repository whose calls all
have a clear place; what would break it is rejected. -/
theorem tree_of_clear {calls : List S3Call} (hwf : ∀ call ∈ calls, call.WellFormed)
    (hsound : Sound st) (hempty : st.storedKeys repository = [])
    (hclear : StepsOk (step repository) (fun st call => clear repository st call = true) st calls)
    (hr : run (step repository) st calls = some st') :
    TreeOk repository st' ∧
      ∀ call, call.WellFormed → clear repository st' call = true →
        conflicts repository st' call = true →
        (∃ location conflicting,
          (st'.exec repository call).2 = .error (.pathCollision location conflicting)) ∧
          (st'.exec repository call).1.objects = st'.objects := by
  have hstart : TreeOk repository st := by
    intro k k' hk _ hin
    have hmem := mem_storedKeys_iff.mpr ⟨hk, hin⟩
    rw [hempty] at hmem
    cases hmem
  have hsteps : StepsOk (step repository)
      (fun st call => call.WellFormed ∧ clear repository st call = true) st calls :=
    (stepsOk_of_mem hwf st).and hclear
  obtain ⟨hsound', htree⟩ := run_invariant_of_stepsOk
    (I := fun st => Sound st ∧ TreeOk repository st)
    (fun s call s' h hP hs => by
      obtain rfl := Option.some.inj hs
      exact exec_treeOk hP.1 h.1 h.2 hP.2) ⟨hsound, hstart⟩ hsteps hr
  exact ⟨htree, fun call hwf hclear hconflicts => exec_rejected hwf hsound' hclear hconflicts⟩

def movedCalls : List S3Call :=
  [.saveFile [1] (.ofString "a/b") (some "x"), .saveFile [2] (.ofString "a/b/c") (some "y"),
    .moveFile (.ofString "a/b") (.ofString "d") (some "z")]

theorem tree_of_clear_move : ∃ st, run (step "packages") empty movedCalls = some st ∧
    st.objects.keys = ["packages/d"] ∧ TreeOk "packages" st := by
  have hwf : ∀ call ∈ movedCalls, call.WellFormed := by decide
  have hclear : StepsOk (step "packages") (fun st call => clear "packages" st call = true) empty
      movedCalls := by decide
  exact ⟨_, rfl, by decide, (tree_of_clear hwf sound_empty rfl hclear rfl).1⟩

/-- A file is stored above another. -/
theorem not_treeOk_save_above :
    ∃ st st', empty.exec "packages" (.saveFile [1] (.ofString "a/b") none) = (st, .ok ()) ∧
      st.exec "packages" (.saveFile [2] (.ofString "a") none) = (st', .ok ()) ∧
      ¬ TreeOk "packages" st' := by
  have hfirst : (empty.exec "packages" (.saveFile [1] (.ofString "a/b") none)).2 = .ok () := rfl
  refine ⟨_, _, Prod.ext rfl hfirst, Prod.ext rfl ?_, fun h => ?_⟩
  · decide
  · have hbelow := h "packages/a" "packages/a/b" (by decide) (by decide)
      (by decide)
    revert hbelow
    decide

end S3Storage

end Pkgly.S3
