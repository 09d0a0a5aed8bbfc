import Pkgly.Algorithm.PrefixCode
import Pkgly.Php.Hosted
import Pkgly.Storage.Equiv.DynStorage

/-!
# Are the metadata files of a hosted PHP repository exact?

A metadata file is written as a whole, from what the upload has read two steps earlier, through a
temporary file that every upload of the package uses.  As long as each upload moves its own document
over the one that it has read, does not list a version again, and does not replace the archive of
another one, every upload that has succeeded is listed once, and what is listed can be fetched
(`metadata_exact`).  A version that is uploaded again is listed twice
(`not_exactMetadata_again`).
-/

namespace Pkgly.Php

variable {lib : PhpLibraries} {names : PhpNames}

/-! ### What is promised -/

def IsMetadataKey (key : List String) : Prop :=
  key.head? = some "p2" ∧ ∃ last, key.getLast? = some last ∧ endsWith ".json" last = true

def entriesAt (lib : PhpLibraries) (st : DynStorage) (key : List String) (name : String) :
    List ComposerEntry :=
  (((st.objects.get key).bind lib.fromSlice).bind fun doc => doc.get name).getD []

def timesListed (lib : PhpLibraries) (st : DynStorage) (key : List String)
    (name version : String) : ℕ :=
  (entriesAt lib st key name).countP fun e => e.version == version

/-- The path that a client asks for: line breaks and tabs are dropped from an address, and the
request ends where the query or the fragment starts. -/
def followTarget (names : PhpNames) (target : String) : Option StoragePath :=
  if startsWith names.root target then
    let rest := (target.toList.drop names.root.length).filter fun ch =>
      ch != '\t' && ch != '\n' && ch != '\r'
    (percentDecodeStr (referencePath (String.ofList rest))).bind StoragePath.fromUntrusted
  else none

def addressedPath (names : PhpNames) (target : String) : Option StoragePath :=
  (followTarget names target).bind getDistPath

structure MetadataOk (lib : PhpLibraries) (names : PhpNames) (s : PhpHosted) : Prop where
  /-- An upload that has succeeded is listed once, in the file of its package. -/
  listed : ∀ package ∈ s.log, ∃ path, metadataPathOf package.1 package.2 = some path ∧
    timesListed lib s.storage path.components package.1 package.2 = 1 ∧
      ∀ key, IsMetadataKey key → key ≠ path.components →
        timesListed lib s.storage key package.1 package.2 = 0
  /-- The address of an entry leads to an archive with its digest. -/
  served : ∀ key, IsMetadataKey key → ∀ name, ∀ e ∈ entriesAt lib s.storage key name,
    ∃ path content, addressedPath names e.dist.url.target = some path ∧
      openContent s.storage path = some content ∧ e.dist.shasum = some (lib.sha1 content)

/-! ### Paths -/

theorem components_slash {first : String} (hfirst : '/' ∉ first.toList) (hne : first.toList ≠ [])
    (rest : String) :
    (StoragePath.ofString (first ++ ("/" ++ rest))).components =
      first :: (StoragePath.ofString rest).components := by
  rw [StoragePath.components_ofString, StoragePath.segments_slash,
    segments_eq_singleton hfirst hne]
  rfl

theorem head_distStoragePath (dist : ComposerDistPath) :
    (distStoragePath dist).components.head? = some "dist" := by
  have htext : "dist/" ++ toAsciiLowercase dist.vendor ++ "/" ++ toAsciiLowercase dist.package ++
      "/" ++ dist.filename = "dist" ++ ("/" ++ (toAsciiLowercase dist.vendor ++ "/" ++
        toAsciiLowercase dist.package ++ "/" ++ dist.filename)) := by
    rw [show "dist/" = "dist" ++ "/" from rfl]
    simp only [String.append_assoc]
  rw [distStoragePath, htext, components_slash (by decide) (by decide)]
  rfl

theorem isMetadataKey_metadataPath (vendor package : String) (isDev : Bool) :
    IsMetadataKey (metadataPath vendor package isDev).components := by
  constructor
  · have htext : "p2/" ++ toAsciiLowercase vendor ++ "/" ++ toAsciiLowercase package ++
        (if isDev then "~dev" else "") ++ ".json" = "p2" ++ ("/" ++ (toAsciiLowercase vendor ++
          "/" ++ toAsciiLowercase package ++ (if isDev then "~dev" else "") ++ ".json")) := by
      rw [show "p2/" = "p2" ++ "/" from rfl]
      simp only [String.append_assoc]
    rw [metadataPath, htext, components_slash (by decide) (by decide)]
    rfl
  · obtain ⟨stem, hstem⟩ := getLast?_segments_append (show '/' ∉ ".json".toList by decide)
      (by decide) ("p2/" ++ toAsciiLowercase vendor ++ "/" ++ toAsciiLowercase package ++
        (if isDev then "~dev" else ""))
    simp_all [metadataPath, StoragePath.components_ofString, endsWith, String.toList_append,
      List.suffix_append]

theorem metadataPathOf_isMetadataKey {name version : String} {path : StoragePath}
    (h : metadataPathOf name version = some path) : IsMetadataKey path.components := by
  obtain ⟨parts, -, rfl⟩ := Option.map_eq_some_iff.mp h
  exact isMetadataKey_metadataPath _ _ _

theorem tmpPath_of_isMetadataKey {path : StoragePath} (h : IsMetadataKey path.components) :
    (tmpPath path).components.head? = some "p2" ∧ ¬ IsMetadataKey (tmpPath path).components := by
  obtain ⟨hhead, last, hlast, hjson⟩ := h
  constructor
  · -- the text of the path goes on after its first component
    obtain ⟨tail, htail⟩ : ∃ tail, path.components = "p2" :: tail := List.head?_eq_some_iff.mp hhead
    cases tail with
    | nil =>
      rw [htail] at hlast
      obtain rfl := Option.some.inj hlast
      exact absurd hjson (by decide)
    | cons second rest =>
      have htext : path.toString' ++ ".tmp" = "p2" ++ ("/" ++
          (String.intercalate "/" (second :: rest) ++ (if path.isDirectory then "/" else "") ++
            ".tmp")) := by
        rw [StoragePath.toString', htail, String.intercalate_cons_cons]
        simp only [String.append_assoc]
      rw [tmpPath, htext, components_slash (by decide) (by decide)]
      rfl
  · rintro ⟨-, last', hlast', hjson'⟩
    obtain ⟨stem, hstem⟩ := getLast?_segments_append (show '/' ∉ ".tmp".toList by decide)
      (by decide) path.toString'
    rw [tmpPath, StoragePath.components_ofString, hstem] at hlast'
    obtain rfl := Option.some.inj hlast'
    rw [endsWith, List.isSuffixOf_iff_suffix, String.toList_append] at hjson'
    -- a text cannot end in both
    have hlen : ".json".toList.getLast? = (stem.toList ++ ".tmp".toList).getLast? := by
      obtain ⟨front, hfront⟩ := hjson'
      rw [← hfront, List.getLast?_append_of_ne_nil _ (by decide)]
    rw [List.getLast?_append_of_ne_nil _ (by decide)] at hlen
    exact absurd hlen (by decide)

theorem not_isMetadataKey_distStoragePath (dist : ComposerDistPath) :
    ¬ IsMetadataKey (distStoragePath dist).components := by
  rintro ⟨hhead, -⟩
  rw [head_distStoragePath] at hhead
  exact absurd hhead (by decide)

theorem toLower_eq_slash_iff (ch : Char) : ch.toLower = '/' ↔ ch = '/' := by
  rcases toLower_cases ch with ⟨hupper, hlower⟩ | ⟨-, heq⟩
  · constructor
    · intro h
      rw [h] at hlower
      exact absurd hlower (by decide)
    · rintro rfl
      exact absurd hupper (by decide)
  · rw [heq]

theorem splitOnce_map_toLower (text : List Char) :
    splitOnce ['/'] (text.map Char.toLower) =
      (splitOnce ['/'] text).map fun parts =>
        (parts.1.map Char.toLower, parts.2.map Char.toLower) := by
  induction text with
  | nil => rfl
  | cons c text ih =>
    rw [List.map_cons, splitOnce, splitOnce]
    by_cases hc : c = '/'
    · subst hc
      simp [List.isPrefixOf]
    · have hlower : c.toLower ≠ '/' := fun h => hc ((toLower_eq_slash_iff c).mp h)
      simp only [List.isPrefixOf, beq_iff_eq, Bool.and_true, Ne.symm hc, Ne.symm hlower, if_false, ih,
        Option.map_map]
      rfl

theorem toAsciiLowercase_ofList_map (text : List Char) :
    toAsciiLowercase (String.ofList (text.map Char.toLower)) =
      toAsciiLowercase (String.ofList text) := by
  grind [toAsciiLowercase_idem, toAsciiLowercase, String.toList_ofList]

theorem metadataPathOf_toAsciiLowercase (name version : String) :
    metadataPathOf (toAsciiLowercase name) version = metadataPathOf name version := by
  have htext : (toAsciiLowercase name).toList = name.toList.map Char.toLower :=
    String.toList_ofList
  have hpath : ∀ (vendor package : List Char) (isDev : Bool),
      metadataPath (String.ofList (vendor.map Char.toLower))
        (String.ofList (package.map Char.toLower)) isDev =
      metadataPath (String.ofList vendor) (String.ofList package) isDev := by
    intro vendor package isDev
    unfold metadataPath
    rw [toAsciiLowercase_ofList_map, toAsciiLowercase_ofList_map]
  unfold metadataPathOf
  rw [htext, splitOnce_map_toLower, Option.map_map]
  cases splitOnce ['/'] name.toList with
  | none => rw [Option.map_none, Option.map_none]
  | some parts => rw [Option.map_some, Option.map_some, Function.comp_apply, hpath]

theorem filename_mem_of_tryFrom {path : StoragePath} {dist : ComposerDistPath}
    (h : ComposerDistPath.tryFrom path = .ok dist) : dist.filename ∈ path.components := by
  unfold ComposerDistPath.tryFrom at h
  grind

theorem tryFrom_of_parsePath {path : StoragePath} {dist : ComposerDistPath}
    (h : parsePath path = .ok (.dist dist)) : ComposerDistPath.tryFrom path = .ok dist := by
  unfold parsePath at h
  split at h
  · cases h
  · cases h
  · split_ifs at h
    · cases h
    · cases hdist : ComposerDistPath.tryFrom path with
      | error e =>
        rw [hdist] at h
        cases h
      | ok dist' =>
        rw [hdist] at h
        cases h
        rfl
    · cases h

theorem isDirectory_distPath (upload : PhpUpload lib) : upload.distPath.isDirectory = false := by
  have hmem := filename_mem_of_tryFrom (tryFrom_of_parsePath upload.parsed)
  obtain ⟨hne, hslash⟩ := upload.wellFormed _ hmem
  rw [PhpUpload.distPath, distStoragePath, StoragePath.isDirectory_ofString, ← Bool.not_eq_true,
    endsWith, List.isSuffixOf_iff_suffix]
  rintro ⟨front, hfront⟩
  -- the last character is one of the file name
  have hlast : upload.dist.filename.toList.getLast? = some '/' := by
    rw [String.toList_append] at hfront
    rw [← List.getLast?_append_of_ne_nil _ hne, ← hfront]
    exact List.getLast?_concat
  exact hslash (List.mem_of_getLast? hlast)

theorem isDirectory_metadataPath (vendor package : String) (isDev : Bool) :
    (metadataPath vendor package isDev).isDirectory = false := by
  rw [metadataPath, StoragePath.isDirectory_ofString, ← Bool.not_eq_true, endsWith,
    List.isSuffixOf_iff_suffix]
  rintro ⟨front, hfront⟩
  have hlast : (".json".toList).getLast? = some '/' := by
    rw [String.toList_append] at hfront
    rw [← List.getLast?_append_of_ne_nil _ (by decide), ← hfront]
    exact List.getLast?_concat
  exact absurd hlast (by decide)

/-! ### What an upload does to the files -/

variable {st st' : DynStorage} {upload : PhpUpload lib} {path : StoragePath}
  {read : Option ComposerMetadataDocument}

theorem entriesAt_of_loadMetadata (hstaging : ∀ key, st.staging.get key = none)
    (hfile : path.isDirectory = false) (h : loadMetadata lib st path = some read) (name : String) :
    entriesAt lib st path.components name = ((read.getD ∅).get name).getD [] := by
  have hlookup : st.lookupKey? path = some path.components := by
    unfold DynStorage.lookupKey?
    cases st.backend with
    | «local» => rfl
    | s3 => rw [if_neg (by rw [hfile]; exact Bool.false_ne_true)]
  unfold loadMetadata DynStorage.openFile at h
  rw [hlookup, Option.bind_some, hstaging, Option.bind_some] at h
  unfold entriesAt
  by_cases hrejects : st.rejects path = true
  · rw [if_pos hrejects] at h
    cases h
  rw [if_neg hrejects] at h
  cases hget : st.objects.get path.components with
  | some bytes =>
    aesop
  | none =>
    rw [hget] at h
    aesop

def PhpUpload.entry (upload : PhpUpload lib) (names : PhpNames) : ComposerEntry :=
  versionEntry upload.composer (upload.distUrl names) (some (lib.sha1 upload.content))

variable {key : List String}

theorem entriesAt_congr (h : st'.objects.get key = st.objects.get key)
    (name : String) : entriesAt lib st' key name = entriesAt lib st key name := by
  rw [entriesAt, h, entriesAt]

theorem entriesAt_updated
    (h : st'.objects.get key = some (lib.toVec (upload.updated names read))) (name : String) :
    entriesAt lib st' key name = ((read.getD ∅).get name).getD [] ++
      if name = upload.name then [upload.entry names] else [] := by
  rw [entriesAt, h, Option.bind_some, lib.fromSlice_toVec, Option.bind_some, PhpUpload.updated,
    addVersion]
  by_cases hname : name = upload.name
  · rw [if_pos hname, hname, PhpUpload.name, Store.get_put_self]
    rfl
  · have hkey : name ≠ toAsciiLowercase upload.composer.name := hname
    rw [if_neg hname, Store.get_put_of_ne _ _ hkey, List.append_nil]

/-- What no step of another upload takes away. -/
structure Extends (lib : PhpLibraries) (st st' : DynStorage) : Prop where
  backend : st'.backend = st.backend
  archive : ∀ key content, key.head? = some "dist" → st.objects.get key = some content →
    st'.objects.get key = some content
  listed : ∀ key name version, IsMetadataKey key → timesListed lib st key name version = 1 →
    timesListed lib st' key name version = 1

structure ArchiveOk (names : PhpNames) (st : DynStorage) (path : StoragePath) (target : String)
    (content : Bytes) : Prop where
  addressed : addressedPath names target = some path
  head : path.components.head? = some "dist"
  accepted : st.rejects path = false
  file : path.isDirectory = false
  stored : st.objects.get path.components = some content

theorem ArchiveOk.of_extends {target : String} {content : Bytes}
    (h : ArchiveOk names st path target content) (hext : Extends lib st st') :
    ArchiveOk names st' path target content where
  addressed := h.addressed
  head := h.head
  accepted := by
    rw [DynStorage.rejects_congr hext.backend rfl]
    exact h.accepted
  file := h.file
  stored := hext.archive _ _ h.head h.stored

structure EntryOk (lib : PhpLibraries) (names : PhpNames) (st : DynStorage) (key : List String)
    (name : String) (e : ComposerEntry) : Prop where
  file : ∃ path, metadataPathOf name e.version = some path ∧ key = path.components
  archive : ∃ path content, ArchiveOk names st path e.dist.url.target content ∧
    e.dist.shasum = some (lib.sha1 content)

theorem EntryOk.of_extends {name : String} {e : ComposerEntry}
    (h : EntryOk lib names st key name e) (hext : Extends lib st st') :
    EntryOk lib names st' key name e := by
  refine ⟨h.file, ?_⟩
  obtain ⟨path, content, harchive, hsum⟩ := h.archive
  exact ⟨path, content, harchive.of_extends hext, hsum⟩

structure StorageOk (lib : PhpLibraries) (names : PhpNames) (st : DynStorage) : Prop where
  unstaged : ∀ key, st.staging.get key = none
  entries : ∀ key, IsMetadataKey key → ∀ name, ∀ e ∈ entriesAt lib st key name,
    EntryOk lib names st key name e

theorem extends_of_saveFile {content : Bytes} (hkey : ¬ IsMetadataKey path.components)
    (hsame : ∀ old, st.objects.get path.components = some old →
      path.components.head? = some "dist" → old = content)
    (h : st.saveFile content path = .ok st') : Extends lib st st' := by
  rw [DynStorage.eq_of_saveFile h]
  refine ⟨rfl, fun key old hhead hold => ?_, fun key name version hmeta hlisted => ?_⟩
  · grind [get, Store.get_put]
  · rw [timesListed, entriesAt_congr]
    · exact hlisted
    · refine Store.get_put_of_ne _ _ ?_
      rintro rfl
      exact hkey hmeta

theorem StorageOk.of_saveFile {content : Bytes} (hok : StorageOk lib names st)
    (hkey : ¬ IsMetadataKey path.components) (hext : Extends lib st st')
    (h : st.saveFile content path = .ok st') : StorageOk lib names st' := by
  have heq := DynStorage.eq_of_saveFile h
  refine ⟨fun key => ?_, fun key hmeta name e he => ?_⟩
  · rw [heq]
    exact hok.unstaged key
  · have hsame : st'.objects.get key = st.objects.get key := by
      rw [heq]
      refine Store.get_put_of_ne _ _ ?_
      rintro rfl
      exact hkey hmeta
    rw [entriesAt_congr hsame] at he
    exact (hok.entries key hmeta name e he).of_extends hext

theorem eq_of_moveFile {src dst : StoragePath} (hstaging : ∀ key, st.staging.get key = none)
    (h : st.moveFile src dst = .ok (st', true)) :
    ∃ content, st.objects.get src.components = some content ∧
      st' = { st with objects := (st.objects.remove src.components).put dst.components content } := by
  by_cases hlocal : st.backend = .local
  · exact DynStorage.eq_of_moveFile_local hlocal h
  · have hs3 : st.backend = .s3 := by
      cases hbackend : st.backend with
      | «local» => exact absurd hbackend hlocal
      | s3 => rfl
    have hnone : (st.lookupKey? src).bind st.staging.get = none := by
      cases st.lookupKey? src with
      | none => rfl
      | some key => exact hstaging key
    unfold DynStorage.moveFile at h
    rw [hs3, hnone] at h
    simp only at h
    cases hobject : (st.lookupKey? src).bind st.objects.get with
    | none =>
      rw [hobject] at h
      cases (Prod.mk.inj (Except.ok.inj h)).2
    | some content =>
      rw [hobject] at h
      refine ⟨content, ?_, ?_⟩
      · obtain ⟨key, hkey, hget⟩ := Option.bind_eq_some_iff.mp hobject
        unfold DynStorage.lookupKey? at hkey
        grind
      · rw [← hs3] at h
        exact (Prod.mk.inj (Except.ok.inj h)).1.symm

/-- What a move of a document over the file that it was made of leaves behind. -/
structure Moved (names : PhpNames) (upload : PhpUpload lib) (path : StoragePath)
    (st st' : DynStorage) : Prop where
  backend : st'.backend = st.backend
  staging : st'.staging = st.staging
  own : ∀ name, entriesAt lib st' path.components name = entriesAt lib st path.components name ++
    if name = upload.name then [upload.entry names] else []
  new : timesListed lib st path.components upload.name upload.version = 0
  others : ∀ key, key ≠ path.components → IsMetadataKey key ∨ key.head? = some "dist" →
    st'.objects.get key = st.objects.get key

section Move

variable (hmoved : Moved names upload path st st')
include hmoved

theorem Moved.listed : timesListed lib st' path.components upload.name upload.version = 1 := by
  have hnew := hmoved.new
  unfold timesListed at hnew ⊢
  rw [hmoved.own, if_pos rfl, List.countP_append, hnew]
  simp [PhpUpload.entry, versionEntry, PhpUpload.version]

theorem Moved.extends (hkey : IsMetadataKey path.components) : Extends lib st st' := by
  refine ⟨hmoved.backend, fun key content hhead hstored => ?_,
    fun key name version hmeta hlisted => ?_⟩
  · rw [hmoved.others key ?_ (.inr hhead), hstored]
    rintro rfl
    rw [hkey.1] at hhead
    exact absurd hhead (by decide)
  · by_cases heq : key = path.components
    · subst heq
      unfold timesListed at hlisted ⊢
      rw [hmoved.own]
      by_cases hname : name = upload.name
      · subst hname
        rw [if_pos rfl, List.countP_append, hlisted]
        -- another version, because this one was not listed
        have hversion : (upload.entry names).version ≠ version := by
          rintro rfl
          have hnew := hmoved.new
          unfold timesListed at hnew
          rw [show (upload.entry names).version = upload.version from rfl, hnew] at hlisted
          cases hlisted
        simp [hversion]
      · rw [if_neg hname, List.append_nil, hlisted]
    · rw [timesListed, entriesAt_congr (hmoved.others key heq (.inl hmeta))]
      exact hlisted

theorem Moved.storageOk (hkey : metadataPathOf upload.name upload.version = some path)
    (hok : StorageOk lib names st) {dist : StoragePath}
    (harchive : ArchiveOk names st dist (upload.distUrl names).target upload.content) :
    StorageOk lib names st' := by
  have hext := hmoved.extends (metadataPathOf_isMetadataKey hkey)
  refine ⟨fun key => ?_, fun key hmeta name e he => ?_⟩
  · rw [hmoved.staging]
    exact hok.unstaged key
  · by_cases heq : key = path.components
    · subst heq
      rw [hmoved.own, List.mem_append] at he
      rcases he with he | he
      · exact (hok.entries _ hmeta name e he).of_extends hext
      · split_ifs at he with hname
        · obtain rfl := List.mem_singleton.mp he
          subst hname
          exact ⟨⟨path, hkey, rfl⟩, dist, upload.content, harchive.of_extends hext, rfl⟩
        · cases he
    · rw [entriesAt_congr (hmoved.others key heq (.inl hmeta))] at he
      exact (hok.entries key hmeta name e he).of_extends hext

end Move

/-! ### Steps -/

/-- The step does no harm: an archive that is saved can be fetched from its address and replaces no
other one, and a document that is moved into place is that of the upload, over the file that it has
read, which does not list the version. -/
def isClean (names : PhpNames) (s : PhpHosted) (p : Process lib) : Bool :=
  match p.status with
  | .save => addressedPath names (p.upload.distUrl names).target == some p.upload.distPath &&
      (s.storage.objects.get p.upload.distPath.components).all (· == p.upload.content)
  | .moveMetadata read =>
    p.upload.metadataPath.all fun path =>
      (s.storage.objects.get (tmpPath path).components).all fun bytes =>
        bytes == lib.toVec (p.upload.updated names read) &&
          ((loadMetadata lib s.storage path).map (Option.map AList.entries) ==
              some (read.map AList.entries) &&
            (((read.getD ∅).get p.upload.name).getD []).all fun e => e.version != p.upload.version)
  | _ => true

def Status.isArchived : Status → Bool
  | .save | .finished | .failed => false
  | _ => true

def Status.isListed : Status → Bool
  | .findProject | .insertProject | .findVersion _ | .insertVersion _ | .indexFile => true
  | _ => false

inductive Effect (names : PhpNames) (s : PhpHosted) (p : Process lib) :
    PhpHosted → Process lib → Prop
  | quiet {t : PhpHosted} {q : Process lib} (storage : t.storage = s.storage) (log : t.log = s.log)
      (upload : q.upload = p.upload)
      (archived : q.status.isArchived = true → p.status.isArchived = true)
      (listed : q.status.isListed = true → p.status.isListed = true) : Effect names s p t q
  | saves {st : DynStorage} (status : p.status = .save)
      (saved : s.storage.saveFile p.upload.content p.upload.distPath = .ok st) :
      Effect names s p { s with storage := st } (p.goto .loadMetadata)
  | savesMetadata {st : DynStorage} {read : Option ComposerMetadataDocument} {path : StoragePath}
      (status : p.status = .saveMetadata read) (file : p.upload.metadataPath = some path)
      (saved : s.storage.saveFile (lib.toVec (p.upload.updated names read)) (tmpPath path) = .ok st) :
      Effect names s p { s with storage := st } (p.goto (.moveMetadata read))
  | moves {st : DynStorage} {read : Option ComposerMetadataDocument} {path : StoragePath}
      (status : p.status = .moveMetadata read) (file : p.upload.metadataPath = some path)
      (moved : s.storage.moveFile (tmpPath path) path = .ok (st, true)) :
      Effect names s p { s with storage := st } (p.goto .findProject)
  | ends {catalogue : Catalogue PhpVersion} (listed : p.status.isListed = true) :
      Effect names s p
        { s with catalogue, log := s.log ++ [(p.upload.name, p.upload.version)] }
        (p.goto .finished)

variable {s t : PhpHosted} {p q : Process lib}

theorem effect_of_failure : Effect names s p s (p.goto .failed) :=
  .quiet rfl rfl rfl (fun h => by cases h) (fun h => by cases h)

theorem effect_of_onStorage {α : Type} {fails : Bool} {result : Except StorageError (DynStorage × α)}
    {goOn : α → Status}
    (hok : ∀ st a, result = .ok (st, a) → Effect names s p { s with storage := st } (p.goto (goOn a)))
    (h : p.onStorage s fails result goOn = (t, q)) : Effect names s p t q := by
  unfold Process.onStorage at h
  by_cases hfails : fails = true
  · rw [if_pos hfails] at h
    cases h
    exact effect_of_failure
  · rw [if_neg hfails] at h
    cases result with
    | error e =>
      cases h
      exact effect_of_failure
    | ok r =>
      cases h
      exact hok r.1 r.2 rfl

theorem ok_of_saved {result : Except StorageError DynStorage} {st : DynStorage} {a : Unit}
    (h : result.map (·, ()) = .ok (st, a)) : result = .ok st := by
  cases result with
  | error e => cases h
  | ok st' =>
    cases h
    rfl

/-- A statement on the catalogue fails, or has its own effect. -/
theorem effect_of_statement {fails : Bool} {next : Option (PhpHosted × Process lib)}
    (h : (if fails then some (s, p.goto .failed) else next) = some (t, q))
    (hnext : next = some (t, q) → Effect names s p t q) : Effect names s p t q := by
  split_ifs at h
  · cases h
    exact effect_of_failure
  · exact hnext h

theorem effect_of_next {fails : Bool} (h : p.next names fails s = some (t, q)) :
    Effect names s p t q := by
  unfold Process.next at h
  cases hstatus : p.status with
  | save =>
    rw [hstatus] at h
    exact effect_of_onStorage (fun st a hsaved => .saves hstatus (ok_of_saved hsaved))
      (Option.some.inj h)
  | loadMetadata =>
    rw [hstatus] at h
    simp only at h
    cases hpath : p.upload.metadataPath with
    | none =>
      rw [hpath] at h
      cases h
      exact effect_of_failure
    | some path =>
      rw [hpath] at h
      simp only at h
      cases hread : loadMetadata lib s.storage path with
      | none =>
        rw [hread] at h
        cases h
        exact effect_of_failure
      | some read =>
        rw [hread] at h
        cases h
        refine .quiet rfl rfl rfl (fun _ => ?_) (fun hlisted => ?_)
        · rw [hstatus]
          rfl
        · cases fails <;> cases hlisted
  | saveMetadata read =>
    rw [hstatus] at h
    simp only at h
    cases hpath : p.upload.metadataPath with
    | none =>
      rw [hpath] at h
      cases h
      exact effect_of_failure
    | some path =>
      rw [hpath] at h
      exact effect_of_onStorage
        (fun st a hsaved => .savesMetadata hstatus hpath (ok_of_saved hsaved)) (Option.some.inj h)
  | moveMetadata read =>
    rw [hstatus] at h
    simp only at h
    cases hpath : p.upload.metadataPath with
    | none =>
      rw [hpath] at h
      cases h
      exact effect_of_failure
    | some path =>
      rw [hpath] at h
      refine effect_of_onStorage (fun st moved hmoved => ?_) (Option.some.inj h)
      cases moved with
      | true => exact .moves hstatus hpath hmoved
      | false =>
        -- nothing was there to be moved
        rw [DynStorage.eq_of_moveFile_false hmoved]
        exact effect_of_failure
  | findProject =>
    rw [hstatus] at h
    refine effect_of_statement h fun h => ?_
    split at h
    · cases h
      exact .quiet rfl rfl rfl (fun _ => by rw [hstatus]; rfl) (fun _ => by rw [hstatus]; rfl)
    · cases h
      exact .quiet rfl rfl rfl (fun _ => by rw [hstatus]; rfl) (fun _ => by rw [hstatus]; rfl)
  | insertProject =>
    rw [hstatus] at h
    refine effect_of_statement h fun h => ?_
    split at h
    · cases h
      exact effect_of_failure
    · cases h
      exact .quiet rfl rfl rfl (fun _ => by rw [hstatus]; rfl) (fun _ => by rw [hstatus]; rfl)
  | findVersion projectId =>
    rw [hstatus] at h
    refine effect_of_statement h fun h => ?_
    split at h
    · cases h
      exact .ends (by rw [hstatus]; rfl)
    · cases h
      exact .quiet rfl rfl rfl (fun _ => by rw [hstatus]; rfl) (fun _ => by rw [hstatus]; rfl)
  | insertVersion projectId =>
    rw [hstatus] at h
    refine effect_of_statement h fun h => ?_
    simp only at h
    split at h
    · cases h
      exact effect_of_failure
    · cases h
      exact .quiet rfl rfl rfl (fun _ => by rw [hstatus]; rfl) (fun _ => by rw [hstatus]; rfl)
  | indexFile =>
    rw [hstatus] at h
    refine effect_of_statement h fun h => ?_
    cases h
    exact .ends (by rw [hstatus]; rfl)
  | finished | failed =>
    rw [hstatus] at h
    cases h

/-! ### Invariants -/

/-- Every upload that has succeeded is listed once in its file. -/
def LogOk (lib : PhpLibraries) (s : PhpHosted) : Prop :=
  ∀ package ∈ s.log, ∃ path, metadataPathOf package.1 package.2 = some path ∧
    timesListed lib s.storage path.components package.1 package.2 = 1

structure ProcessOk (names : PhpNames) (s : PhpHosted) (p : Process lib) : Prop where
  archived : p.status.isArchived = true →
    ArchiveOk names s.storage p.upload.distPath (p.upload.distUrl names).target p.upload.content
  listed : p.status.isListed = true → ∃ path,
    metadataPathOf p.upload.name p.upload.version = some path ∧
      timesListed lib s.storage path.components p.upload.name p.upload.version = 1

def metadataInvariant (lib : PhpLibraries) (names : PhpNames) :
    Pool.Invariant PhpHosted (Process lib) where
  shared s := StorageOk lib names s.storage ∧ LogOk lib s
  each := ProcessOk names
  pair _ _ := True

theorem LogOk.of_extends (h : LogOk lib s) (hext : Extends lib s.storage t.storage)
    (hlog : t.log = s.log) : LogOk lib t := by
  intro package hpackage
  rw [hlog] at hpackage
  obtain ⟨path, hpath, hlisted⟩ := h package hpackage
  exact ⟨path, hpath, hext.listed _ _ _ (metadataPathOf_isMetadataKey hpath) hlisted⟩

theorem ProcessOk.of_extends (h : ProcessOk names s p) (hext : Extends lib s.storage t.storage) :
    ProcessOk names t p := by
  refine ⟨fun harchived => (h.archived harchived).of_extends hext, fun hlisted => ?_⟩
  obtain ⟨path, hpath, hlisted⟩ := h.listed hlisted
  exact ⟨path, hpath, hext.listed _ _ _ (metadataPathOf_isMetadataKey hpath) hlisted⟩

theorem extends_refl (st : DynStorage) : Extends lib st st :=
  ⟨rfl, fun _ _ _ h => h, fun _ _ _ _ h => h⟩

theorem metadataPathOf_name (h : upload.metadataPath = some path) :
    metadataPathOf upload.name upload.version = some path := by
  rw [PhpUpload.name, metadataPathOf_toAsciiLowercase]
  exact h

/-- A clean move puts the document of the upload over the one that it was made of. -/
theorem moved_of_isClean (hok : StorageOk lib names s.storage)
    (hstatus : p.status = .moveMetadata read) (hfile : p.upload.metadataPath = some path)
    (hclean : isClean names s p = true) (hmove : s.storage.moveFile (tmpPath path) path =
      .ok (st', true)) : Moved names p.upload path s.storage st' := by
  have hkey : IsMetadataKey path.components := metadataPathOf_isMetadataKey hfile
  obtain ⟨htmphead, htmpkey⟩ := tmpPath_of_isMetadataKey hkey
  obtain ⟨content, hcontent, rfl⟩ := eq_of_moveFile hok.unstaged hmove
  rw [isClean, hstatus] at hclean
  simp only [hfile, Option.all_some, hcontent, Bool.and_eq_true, beq_iff_eq,
    List.all_eq_true] at hclean
  obtain ⟨hdocument, hread, hnew⟩ := hclean
  -- the file is as it was read
  obtain ⟨read', hload, hentries⟩ := Option.map_eq_some_iff.mp hread
  have hsame : read' = read := Option.map_injective (fun _ _ => AList.ext) hentries
  subst hsame
  have hdirectory : path.isDirectory = false := by
    obtain ⟨parts, -, rfl⟩ := Option.map_eq_some_iff.mp hfile
    exact isDirectory_metadataPath _ _ _
  have hold := entriesAt_of_loadMetadata hok.unstaged hdirectory hload
  refine ⟨rfl, rfl, fun name => ?_, ?_, fun key hne hkind => ?_⟩
  · grind [entriesAt_updated, Store.get, Store.put, Store.get_put_self]
  · simp_all [timesListed, List.countP_eq_zero, bne_iff_ne, beq_iff_eq]
  · show Store.get (Store.put _ _ _) _ = _
    have htmp : key ≠ (tmpPath path).components := by grind
    rw [Store.get_put_of_ne _ _ hne, Store.get_remove, if_neg htmp]

theorem kept_of_effect (hok : StorageOk lib names s.storage) (hlog : LogOk lib s)
    (hp : ProcessOk names s p) (hclean : isClean names s p = true) (h : Effect names s p t q) :
    Extends lib s.storage t.storage ∧ StorageOk lib names t.storage ∧ LogOk lib t ∧
      ProcessOk names t q := by
  cases h with
  | quiet storage log upload archived listed =>
    have hext : Extends lib s.storage t.storage := by
      rw [storage]
      exact extends_refl _
    refine ⟨hext, ?_, hlog.of_extends hext log, fun h => ?_, fun h => ?_⟩
    · rw [storage]
      exact hok
    · rw [upload]
      exact (hp.of_extends hext).archived (archived h)
    · rw [upload]
      exact (hp.of_extends hext).listed (listed h)
  | @saves st status saved =>
    rw [isClean, status] at hclean
    simp only [Bool.and_eq_true, beq_iff_eq] at hclean
    obtain ⟨haddressed, hsame⟩ := hclean
    have hkey := not_isMetadataKey_distStoragePath p.upload.dist
    have hext : Extends lib s.storage st := by
      refine extends_of_saveFile hkey (fun old hold _ => ?_) saved
      change s.storage.objects.get p.upload.distPath.components = some old at hold
      rw [hold, Option.all_some, beq_iff_eq] at hsame
      exact hsame
    refine ⟨hext, hok.of_saveFile hkey hext saved, hlog.of_extends hext rfl, fun _ => ?_,
      fun h => by cases h⟩
    refine ⟨haddressed, head_distStoragePath _, ?_, isDirectory_distPath _, ?_⟩
    · show st.rejects p.upload.distPath = false
      rw [DynStorage.rejects_congr hext.backend rfl]
      exact DynStorage.rejects_of_saveFile saved
    · show st.objects.get p.upload.distPath.components = some p.upload.content
      rw [DynStorage.eq_of_saveFile saved]
      exact Store.get_put_self _ _ _
  | @savesMetadata st read path status file saved =>
    obtain ⟨htmphead, htmpkey⟩ := tmpPath_of_isMetadataKey (metadataPathOf_isMetadataKey file)
    have hext : Extends lib s.storage st := by grind [extends_of_saveFile, absurd]
    refine ⟨hext, hok.of_saveFile htmpkey hext saved, hlog.of_extends hext rfl, fun _ => ?_,
      fun h => by cases h⟩
    refine (hp.archived ?_).of_extends hext
    rw [status]
    rfl
  | @moves st read path status file moved =>
    have hmoved := moved_of_isClean hok status file hclean moved
    have hname := metadataPathOf_name file
    have hext := hmoved.extends (metadataPathOf_isMetadataKey file)
    have harchive := hp.archived (by rw [status]; rfl)
    exact ⟨hext, hmoved.storageOk hname hok harchive, hlog.of_extends hext rfl,
      fun _ => harchive.of_extends hext, fun _ => ⟨path, hname, hmoved.listed⟩⟩
  | ends listed =>
    refine ⟨extends_refl _, hok, fun package hpackage => ?_, ⟨fun h => ?_, fun h => ?_⟩⟩
    rcases List.mem_append.mp hpackage with hpackage | hpackage
    · exact hlog package hpackage
    · obtain rfl := List.mem_singleton.mp hpackage
      exact hp.listed listed
    · cases h
    · cases h

theorem timesListed_eq_zero (hok : StorageOk lib names st) {name version : String}
    (hpath : metadataPathOf name version = some path) (hkey : IsMetadataKey key)
    (hne : key ≠ path.components) : timesListed lib st key name version = 0 := by
  rw [timesListed, List.countP_eq_zero]
  intro e he hversion
  obtain ⟨path', hpath', rfl⟩ := (hok.entries key hkey name e he).file
  rw [beq_iff_eq.mp hversion, hpath] at hpath'
  obtain rfl := Option.some.inj hpath'
  exact hne rfl

theorem metadataOk_of_storageOk (hok : StorageOk lib names s.storage) (hlog : LogOk lib s) :
    MetadataOk lib names s := by
  constructor
  · intro package hpackage
    obtain ⟨path, hpath, hlisted⟩ := hlog package hpackage
    exact ⟨path, hpath, hlisted, fun key hkey hne => timesListed_eq_zero hok hpath hkey hne⟩
  · intro key hkey name e he
    obtain ⟨path, content, harchive, hsum⟩ := (hok.entries key hkey name e he).archive
    refine ⟨path, content, harchive.addressed, ?_, hsum⟩
    rw [openContent, DynStorage.openFile_of_get content harchive.accepted harchive.file
      hok.unstaged harchive.stored]

/-! ### Runs -/

/-- A repository without files. -/
def PhpHosted.empty (backend : Backend) : PhpHosted where
  storage := ⟨backend, ∅, ∅⟩
  catalogue := .empty
  log := []

theorem storageOk_empty (backend : Backend) :
    StorageOk lib names (PhpHosted.empty backend).storage where
  unstaged key := Store.get_empty key
  entries key _ name e he := by
    grind [PhpHosted.empty, Store.get_empty, entriesAt]

/-- **The metadata files are exact** in every state of a run whose steps are all clean. -/
theorem metadata_exact {backend : Backend} {as : List (Pool.Action (PhpUpload lib) Bool)}
    {s : Pool PhpHosted (Process lib)}
    (hclean : StepsOk (phpHosted lib names).step
      (Program.Guarded fun _ s p => isClean names s p = true) ⟨.empty backend, []⟩ as)
    (hrun : run (phpHosted lib names).step ⟨.empty backend, []⟩ as = some s) :
    MetadataOk lib names s.shared := by
  have hempty : Pool.Holds (metadataInvariant lib names) ⟨.empty backend, []⟩ :=
    Pool.holds_nil ⟨storageOk_empty backend, fun package hpackage => by cases hpackage⟩
  have hholds : Pool.Holds (metadataInvariant lib names) s := by
    refine run_invariant_of_stepsOk (I := Pool.Holds (metadataInvariant lib names)) ?_ hempty
      hclean hrun
    intro s a s' hholds hguard hstep
    refine hholds.of_step hstep (fun upload _ => ?_) (fun i fails p t q ha hp hnext => ?_)
    · refine ⟨⟨fun h => ?_, fun h => ?_⟩, fun _ => ⟨trivial, trivial⟩⟩
      · cases h
      · cases h
    · subst ha
      obtain ⟨hstorage, hlog⟩ := hholds.shared
      obtain ⟨hext, hstorage, hlog, hq⟩ := kept_of_effect hstorage hlog (hholds.each i p hp)
        (hguard p hp) (effect_of_next hnext)
      exact ⟨⟨hstorage, hlog⟩, hq, fun j r _ hr =>
        ⟨(hholds.each j r hr).of_extends hext, trivial, trivial⟩⟩
  exact metadataOk_of_storageOk hholds.shared.1 hholds.shared.2

/-! ### A repository -/

/-- A zip archive with a `composer.json` of `a/b`, and its checksum. -/
def demoArchive (crc : Bytes) (version : UInt8) : Bytes :=
  [80, 75, 3, 4, 20, 0, 0, 0, 0, 0, 0, 0, 33, 0] ++ crc ++
  [28, 0, 0, 0, 28, 0, 0, 0, 13, 0, 0, 0, 99, 111, 109, 112, 111, 115, 101, 114, 46, 106, 115, 111,
    110, 123, 34, 110, 97, 109, 101, 34, 58, 34, 97, 47, 98, 34, 44, 34, 118, 101, 114, 115, 105,
    111, 110, 34, 58, 34, version, 34, 125, 80, 75, 1, 2, 20, 3, 20, 0, 0, 0, 0, 0, 0, 0, 33, 0] ++
  crc ++
  [28, 0, 0, 0, 28, 0, 0, 0, 13, 0, 0, 0, 0, 0, 0, 0, 0, 0, 0, 0, 128, 1, 0, 0, 0, 0, 99, 111, 109,
    112, 111, 115, 101, 114, 46, 106, 115, 111, 110, 80, 75, 5, 6, 0, 0, 0, 0, 1, 0, 1, 0, 59, 0, 0,
    0, 71, 0, 0, 0, 0, 0]

def archive1 : Bytes := demoArchive [98, 188, 196, 193] 49

def archive2 : Bytes := demoArchive [59, 2, 130, 195] 50

def demoSha1 (content : Bytes) : String :=
  if content = archive1 then "65b35d4460abdcb769bca483c839ebeade55b261"
  else if content = archive2 then "0693fd6f39da21df4c7bb9de2fbeb0be42ac5332"
  else ""

def demoEntry (version file sum : String) : ComposerEntry :=
  ⟨[], "a/b", version, ⟨"http://localhost:6742", "/repositories/main/php/dist/a/b/" ++ file⟩, some sum⟩

def entry1 : ComposerEntry := demoEntry "1" "1.zip" "65b35d4460abdcb769bca483c839ebeade55b261"

def entry2 : ComposerEntry := demoEntry "2" "b-2.zip" "0693fd6f39da21df4c7bb9de2fbeb0be42ac5332"

def entryJson (e : ComposerEntry) : List String :=
  ["\x7b\"dist\":\x7b\"shasum\":\"", e.dist.shasum.getD "", "\",\"type\":\"zip\",\"url\":\"",
    e.dist.url.base, e.dist.url.target, "\"\x7d,\"name\":\"", e.name, "\",\"version\":\"",
    e.version, "\"\x7d"]

def knownDocuments : List (List ComposerEntry × Bytes) :=
  [[entry1], [entry1, entry2], [entry1, entry1]].map fun entries =>
    (entries, (["\x7b\"packages\":\x7b\"a/b\":["] ++
      List.intercalate [","] (entries.map entryJson) ++ ["]\x7d\x7d"]).flatMap intoBytes)

def documentOf (entries : List ComposerEntry) : ComposerMetadataDocument :=
  Store.put ∅ "a/b" entries

def entryCode : PrefixCode ComposerEntry :=
  (PrefixCode.pair (.list (.pair .string .string)) (.pair .string (.pair .string
    (.pair (.pair .string .string) (.option .string))))).map
    (fun e => (e.fields, e.name, e.version, (e.dist.url.base, e.dist.url.target), e.dist.shasum))
    (fun t => some ⟨t.1, t.2.1, t.2.2.1, ⟨⟨t.2.2.2.1.1, t.2.2.2.1.2⟩, t.2.2.2.2⟩⟩)
    (fun _ => rfl)

def documentCode : PrefixCode ComposerMetadataDocument :=
  (PrefixCode.list (.pair .string (.list entryCode))).map
    (fun doc => doc.entries.map fun e => (e.1, e.2))
    (fun pairs =>
      let entries := pairs.map fun p => (⟨p.1, p.2⟩ : Sigma fun _ : String => List ComposerEntry)
      if h : entries.keys.Nodup then some ⟨entries, h⟩ else none)
    (by
      intro doc
      have hentries : ((doc.entries.map fun e => (e.1, e.2)).map fun p =>
          (⟨p.1, p.2⟩ : Sigma fun _ : String => List ComposerEntry)) = doc.entries := by
        rw [List.map_map]
        exact List.map_id _
      have hkeys : doc.entries.keys.Nodup := doc.nodupKeys
      simp only [hentries, dif_pos hkeys])

/-- The known documents are written as JSON, and all others as bytes behind a zero. -/
def PhpLibraries.demo : PhpLibraries where
  extractComposerFromZip content :=
    if content = archive1 then some ⟨"a/b", "1", [("name", "\"a/b\""), ("version", "\"1\"")]⟩
    else if content = archive2 then
      some ⟨"a/b", "2", [("name", "\"a/b\""), ("version", "\"2\"")]⟩
    else none
  sha1 := demoSha1
  toVec doc :=
    match knownDocuments.find? fun known => (documentOf known.1).entries == doc.entries with
    | some known => known.2
    | none => 0 :: documentCode.encode doc
  fromSlice bytes :=
    match bytes with
    | 0 :: rest => documentCode.read rest
    | _ => (knownDocuments.find? fun known => known.2 == bytes).map fun known => documentOf known.1
  fromSlice_toVec doc := by
    cases hfind : knownDocuments.find? fun known =>
        (documentOf known.1).entries == doc.entries with
    | none => exact PrefixCode.read_encode documentCode doc
    | some known =>
      have hmem := List.mem_of_find?_eq_some hfind
      have hdoc := List.find?_some hfind
      have hknown : ∀ known ∈ knownDocuments, known.2.head? = some 123 ∧
          (knownDocuments.find? fun known' => known'.2 == known.2).map (·.1) = some known.1 := by
        decide +kernel
      obtain ⟨hhead, hread⟩ := hknown known hmem
      obtain ⟨rest, hrest⟩ := List.head?_eq_some_iff.mp hhead
      simp only [hrest]
      rw [hrest] at hread
      obtain ⟨known', hfind', heq⟩ := Option.map_eq_some_iff.mp hread
      rw [hfind', Option.map_some, heq]
      exact congrArg some (AList.ext (beq_iff_eq.mp hdoc))
  collation := .exact

def demoNames : PhpNames := ⟨"main", "php"⟩

def upload1 : PhpUpload .demo where
  path := .ofString "dist/a/b/1.zip"
  dist := ⟨"a", "b", "1", "1.zip"⟩
  content := archive1
  composer := ⟨"a/b", "1", [("name", "\"a/b\""), ("version", "\"1\"")]⟩
  publisher := some 1
  base := "http://localhost:6742"
  wellFormed := StoragePath.wellFormed_ofString _
  parsed := by decide
  extracted := by decide
  validated := by decide

def upload2 : PhpUpload .demo where
  path := .ofString "dist/a/b/2/b-2.zip"
  dist := ⟨"a", "b", "2", "b-2.zip"⟩
  content := archive2
  composer := ⟨"a/b", "2", [("name", "\"a/b\""), ("version", "\"2\"")]⟩
  publisher := some 1
  base := "http://localhost:6742"
  wellFormed := StoragePath.wellFormed_ofString _
  parsed := by decide
  extracted := by decide
  validated := by decide

/-- Two uploads under way at the same time, whose metadata are written one after the other. -/
def demoUploads : List (Pool.Action (PhpUpload .demo) Bool) :=
  [.start upload1, .start upload2, .advance 0 false, .advance 1 false] ++
    List.replicate 3 (.advance 0 false) ++ List.replicate 3 (.advance 1 false) ++
    List.replicate 5 (.advance 0 false) ++ List.replicate 4 (.advance 1 false)

theorem metadata_exact_demo : ∃ s,
    run (phpHosted .demo demoNames).step ⟨.empty .local, []⟩ demoUploads = some s ∧
      s.shared.log = [("a/b", "1"), ("a/b", "2")] ∧ MetadataOk .demo demoNames s.shared := by
  have hrun : (run (phpHosted .demo demoNames).step ⟨.empty .local, []⟩ demoUploads).any
      (fun s => s.shared.log == [("a/b", "1"), ("a/b", "2")]) = true := by decide +kernel
  obtain ⟨s, hs, hlog⟩ := (Option.any_eq_true _ _).mp hrun
  exact ⟨s, hs, beq_iff_eq.mp hlog, metadata_exact (by decide +kernel) hs⟩

def repeatedUpload : List (Pool.Action (PhpUpload .demo) Bool) :=
  .start upload1 :: List.replicate 9 (.advance 0 false) ++
    .start upload1 :: List.replicate 6 (.advance 1 false)

def Status.hasEnded : Status → Bool
  | .finished | .failed => true
  | _ => false

/-- A version that is uploaded again is listed twice. -/
theorem not_exactMetadata_again : ¬ ∀ as s,
    run (phpHosted .demo demoNames).step ⟨.empty .local, []⟩ as = some s →
      (∀ p ∈ s.processes, p.status.hasEnded = true) → MetadataOk .demo demoNames s.shared := by
  intro h
  have hrun : (run (phpHosted .demo demoNames).step ⟨.empty .local, []⟩ repeatedUpload).any
      (fun s => s.processes.all (fun p => p.status.hasEnded) &&
        (s.shared.log.contains ("a/b", "1") &&
          timesListed .demo s.shared.storage ["p2", "a", "b.json"] "a/b" "1" == 2)) = true := by
    decide +kernel
  obtain ⟨s, hs, hend⟩ := (Option.any_eq_true _ _).mp hrun
  simp only [Bool.and_eq_true, List.all_eq_true, beq_iff_eq, List.contains_iff_mem] at hend
  obtain ⟨hended, hlog, htwice⟩ := hend
  obtain ⟨path, hpath, honce, -⟩ := (h repeatedUpload s hs hended).listed _ hlog
  have hcomponents : (metadataPathOf "a/b" "1").map StoragePath.components =
      some ["p2", "a", "b.json"] := by decide
  rw [hpath, Option.map_some, Option.some.injEq] at hcomponents
  rw [hcomponents, htwice] at honce
  cases honce

end Pkgly.Php
