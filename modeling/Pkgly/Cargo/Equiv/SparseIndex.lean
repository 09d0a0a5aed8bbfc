import Pkgly.Cargo.Hosted
import Pkgly.Storage.Equiv.DynStorage

/-!
# The files and rows of a Cargo repository

An index file is the text of a list of entries (`indexText`), to which `update_sparse_index` adds
one (`appendEntry_spec`).  The steps that write keep the invariant `SiteOk`: every line is of a
stored archive, every archive has a row or is waiting for one, and every row has a line.  They do so
as long as nothing goes wrong (`cargoGuard`).
-/

namespace Pkgly.Cargo

/-! ### Lines -/

theorem lines_intercalate {texts : List String}
    (hplain : ∀ t ∈ texts, '\n' ∉ t.toList ∧ '\r' ∉ t.toList) (hne : ∀ t ∈ texts, t.toList ≠ []) :
    (lines (String.intercalate "\n" texts)).map String.ofList = texts := by
  cases htexts : texts with
  | nil => decide
  | cons text rest =>
    rw [← htexts]
    have hparts : (String.intercalate "\n" texts).toList.splitOn '\n' =
        texts.map String.toList := by
      rw [String.toList_intercalate, show "\n".toList = ['\n'] by decide]
      refine List.splitOn_intercalate '\n' (fun l hl => ?_) (by simp [htexts])
      obtain ⟨t, ht, rfl⟩ := List.mem_map.mp hl
      exact (hplain t ht).1
    have hstrip : ∀ t ∈ texts, (stripSuffix ['\r'] t.toList).getD t.toList = t.toList := by
      intro t ht
      have hnone : stripSuffix ['\r'] t.toList = none := by
        refine Option.eq_none_iff_forall_ne_some.mpr fun base hbase => (hplain t ht).2 ?_
        rw [stripSuffix_eq_some_iff.mp hbase]
        simp
      rw [hnone, Option.getD_none]
    obtain ⟨init, last, hsplit⟩ : ∃ init last, texts = init ++ [last] :=
      ⟨_, _, (List.dropLast_append_getLast (by simp [htexts])).symm⟩
    have hlast : last.toList ≠ [] := hne last (by simp [hsplit])
    have hfilter : (some last.toList).filter (fun l => !l.isEmpty) = some last.toList := by
      rw [Option.filter_some, if_pos (by simp [hlast])]
    have hinit : (init.map String.toList).map
        (fun line => (stripSuffix ['\r'] line).getD line) = init.map String.toList := by
      rw [List.map_map]
      exact List.map_congr_left fun t ht => hstrip t (by simp [hsplit, ht])
    unfold lines
    rw [hparts]
    dsimp only
    rw [show texts.map String.toList = init.map String.toList ++ [last.toList] by simp [hsplit],
      List.dropLast_concat, List.getLast?_concat, hfilter, List.map_append, hinit, hsplit]
    simp [Function.comp_def]

/-! ### What the libraries do -/

/-- `serde_json` reads what it has written, in one line, and the database tells crates apart. -/
structure LawfulLibraries extends CargoLibraries where
  vers_ofEntry : ∀ e, vers (ofEntry e) = some e.vers
  fromStr_toString : ∀ e, fromStr (toString (ofEntry e)) = some (ofEntry e)
  plain : ∀ e, '\n' ∉ (toString (ofEntry e)).toList ∧ '\r' ∉ (toString (ofEntry e)).toList
  nonblank : ∀ e, trim (toString (ofEntry e)) ≠ []
  eq_of_same : ∀ a b, isCrateName a = true → isCrateName b = true → collation.same a b = true →
    a = b

variable {lib : LawfulLibraries}

def indexText (lib : LawfulLibraries) (entries : List IndexEntry) : String :=
  String.intercalate "\n" (entries.map fun e => lib.toString (lib.ofEntry e))

theorem lines_indexText (entries : List IndexEntry) :
    (lines (indexText lib entries)).map String.ofList =
      entries.map fun e => lib.toString (lib.ofEntry e) := by
  refine lines_intercalate (fun t ht => ?_) (fun t ht hnil => ?_)
  · obtain ⟨e, -, rfl⟩ := List.mem_map.mp ht
    exact lib.plain e
  · obtain ⟨e, -, rfl⟩ := List.mem_map.mp ht
    refine lib.nonblank e ?_
    rw [trim, hnil]
    rfl

variable {entries : List IndexEntry}

theorem readEntries_spec {metadata : PublishMetadata} {values : List lib.Value}
    (h : readEntries lib.toCargoLibraries metadata
      (entries.map fun e => lib.toString (lib.ofEntry e)) = .ok values) :
    values = entries.map lib.ofEntry ∧ metadata.vers.text ∉ entries.map (·.vers) := by
  induction entries generalizing values with
  | nil =>
    cases h
    exact ⟨rfl, List.not_mem_nil⟩
  | cons e entries ih =>
    rw [List.map_cons, readEntries, if_neg (lib.nonblank e), lib.fromStr_toString] at h
    simp only [lib.vers_ofEntry] at h
    split_ifs at h with hvers
    cases hrest : readEntries lib.toCargoLibraries metadata
        (entries.map fun e => lib.toString (lib.ofEntry e)) with
    | error error =>
      rw [hrest] at h
      cases h
    | ok rest =>
      rw [hrest] at h
      cases h
      grind

def indexContent (lib : LawfulLibraries) (entries : List IndexEntry) : Option Bytes :=
  if entries = [] then none else some (intoBytes (indexText lib entries))

theorem indexText_ne_empty (h : entries ≠ []) : intoBytes (indexText lib entries) ≠ [] := by
  intro hnil
  have hempty : indexText lib entries = "" := by
    have hread : fromUtf8 (intoBytes (indexText lib entries)) = fromUtf8 (intoBytes "") := by
      rw [hnil]
      rfl
    rw [fromUtf8_intoBytes, fromUtf8_intoBytes] at hread
    exact Option.some.inj hread
  have hlines : (lines (indexText lib entries)).map String.ofList = _ := lines_indexText entries
  rw [hempty, show (lines "").map String.ofList = [] by decide] at hlines
  exact h (List.map_eq_nil_iff.mp hlines.symm)

/-- The new line comes after those that are there, none of which is of the version. -/
theorem appendEntry_spec {metadata : PublishMetadata} {checksum text : String}
    (h : appendEntry lib.toCargoLibraries metadata checksum (indexContent lib entries) =
      .ok text) :
    text = indexText lib (entries ++ [buildIndexEntry metadata checksum]) ∧
      metadata.vers.text ∉ entries.map (·.vers) := by
  have hexisting : existingEntries lib.toCargoLibraries metadata (indexContent lib entries) =
      readEntries lib.toCargoLibraries metadata
        (entries.map fun e => lib.toString (lib.ofEntry e)) := by
    unfold indexContent
    split_ifs with hnil
    · subst hnil
      rfl
    · have hne : intoBytes (indexText lib entries) ≠ [] := indexText_ne_empty hnil
      unfold existingEntries
      split
      · rename_i heq
        cases heq
      · rename_i heq
        exact absurd (Option.some.inj heq) hne
      · rename_i bytes _ heq
        obtain rfl := Option.some.inj heq
        rw [fromUtf8_intoBytes]
        simp only [lines_indexText]
  unfold appendEntry at h
  rw [hexisting] at h
  cases hread : readEntries lib.toCargoLibraries metadata
      (entries.map fun e => lib.toString (lib.ofEntry e)) with
  | error error =>
    rw [hread] at h
    cases h
  | ok values =>
    rw [hread] at h
    obtain ⟨rfl, hnotMem⟩ := readEntries_spec hread
    refine ⟨?_, hnotMem⟩
    cases h
    unfold indexText
    simp [Function.comp_def]

theorem vers_of_indexContent {entries' : List IndexEntry}
    (h : indexContent lib entries = indexContent lib entries') :
    entries.map (·.vers) = entries'.map (·.vers) := by
  have htexts : entries.map (fun e => lib.toString (lib.ofEntry e)) =
      entries'.map fun e => lib.toString (lib.ofEntry e) := by
    unfold indexContent at h
    split_ifs at h with hnil hnil' hnil'
    · rw [hnil, hnil']
    · have hread := congrArg fromUtf8 (Option.some.inj h)
      grind [fromUtf8_intoBytes, lines_indexText, Option.some.inj]
  have hvers : ∀ es : List IndexEntry, (es.map fun e => lib.toString (lib.ofEntry e)).map
      (fun text => (lib.fromStr text).bind lib.vers) = (es.map (·.vers)).map some := by
    intro es
    rw [List.map_map, List.map_map]
    refine List.map_congr_left fun e _ => ?_
    change (lib.fromStr (lib.toString (lib.ofEntry e))).bind lib.vers = some e.vers
    rw [lib.fromStr_toString, Option.bind_some, lib.vers_ofEntry]
  have hsome : (entries.map (·.vers)).map some = (entries'.map (·.vers)).map some := by
    rw [← hvers, htexts, hvers]
  exact List.map_injective_iff.mpr (Option.some_injective _) hsome


/-! ### Keys -/

section Keys

variable {crate version : String}

def indexKey (crate : String) : List String :=
  "index" :: segments '/' (String.ofList (indexDirectory crate.toList)) ++ [crate]

theorem toList_of_isCrateName (h : isCrateName crate = true) :
    crate.toList ≠ [] ∧ '/' ∉ crate.toList := by
  obtain ⟨hne, hall⟩ := (Bool.and_eq_true _ _).mp h
  refine ⟨fun hnil => ?_, fun hslash => ?_⟩
  · rw [String.toList_eq_nil_iff.mp hnil] at hne
    exact absurd hne (by decide)
  · exact absurd (List.all_eq_true.mp hall '/' hslash) (by decide)

theorem segments_crate (h : isCrateName crate = true) : segments '/' crate = [crate] :=
  segments_eq_singleton (toList_of_isCrateName h).2 (toList_of_isCrateName h).1

theorem slash_notMem_version (v : Version) : '/' ∉ v.text.toList :=
  fun hslash => absurd (List.all_eq_true.mp v.plain '/' hslash) (by decide)

theorem components_crateArchiveStoragePath {name : String} (v : Version)
    (h : isCrateName (normalizeCrateName name) = true) :
    (crateArchiveStoragePath name v).components =
      archiveKey (normalizeCrateName name) v.text := by
  obtain ⟨hne, hslash⟩ := toList_of_isCrateName h
  have hfile : segments '/' (normalizeCrateName name ++ ("-" ++ (v.text ++ ".crate"))) =
      [normalizeCrateName name ++ ("-" ++ (v.text ++ ".crate"))] := by
    refine segments_eq_singleton ?_ ?_
    · simp only [String.toList_append, List.mem_append, not_or]
      exact ⟨hslash, by decide, slash_notMem_version v, by decide⟩
    · rw [String.toList_append]
      exact List.append_ne_nil_of_left_ne_nil hne _
  rw [crateArchiveStoragePath, StoragePath.components_ofString, StoragePath.segments_slash,
    StoragePath.segments_slash, StoragePath.segments_slash, hfile, segments_crate h,
    segments_eq_singleton (slash_notMem_version v) v.nonempty,
    show segments '/' "crates" = ["crates"] by decide]
  rfl

theorem of_sparseIndexStoragePath {name : String} {path : StoragePath}
    (h : sparseIndexStoragePath name = .ok path) :
    isCrateName (normalizeCrateName name) = true ∧
      path.components = indexKey (normalizeCrateName name) ∧ path.isDirectory = false := by
  unfold sparseIndexStoragePath crateIndexRelativePath at h
  dsimp only at h
  split_ifs at h with hname
  · simp only [Except.map, Except.ok.injEq] at h
    obtain ⟨hne, hslash⟩ := toList_of_isCrateName hname
    rw [← h]
    refine ⟨hname, ?_, ?_⟩
    · rw [StoragePath.components_ofString, StoragePath.segments_slash, StoragePath.segments_slash,
        segments_crate hname, show segments '/' "index" = ["index"] by decide,
        List.singleton_append, indexKey, List.cons_append]
    · rw [← String.append_assoc, ← String.append_assoc, ← String.append_assoc]
      exact StoragePath.isDirectory_append _ hne fun hlast => hslash (List.mem_of_getLast? hlast)
  · cases h

theorem eq_of_indexKey {crate' : String} (h : indexKey crate = indexKey crate') :
    crate = crate' := by
  have hlast := congrArg List.getLast? h
  grind [indexKey, List.getLast?_concat, Option.some.inj]

theorem archiveKey_ne_indexKey (crate' : String) :
    archiveKey crate version ≠ indexKey crate' := by
  intro h
  have hhead := congrArg List.head? h
  exact absurd (Option.some.inj hhead) (by decide)

theorem eq_of_archiveKey {crate' version' : String}
    (h : archiveKey crate version = archiveKey crate' version') :
    crate = crate' ∧ version = version' := by
  obtain ⟨-, hrest⟩ := List.cons.inj h
  obtain ⟨hcrate, hrest⟩ := List.cons.inj hrest
  exact ⟨hcrate, (List.cons.inj hrest).1⟩

end Keys


/-! ### What is promised -/

def HasArchive (hosted : CargoHosted) (crate version : String) (content : Bytes) : Prop :=
  hosted.storage.objects.get (archiveKey crate version) = some content

def IndexIs (lib : LawfulLibraries) (hosted : CargoHosted) (crate : String)
    (entries : List IndexEntry) : Prop :=
  hosted.storage.objects.get (indexKey crate) = indexContent lib entries

def HasLine (lib : LawfulLibraries) (hosted : CargoHosted) (crate version : String) : Prop :=
  ∃ entries, IndexIs lib hosted crate entries ∧ version ∈ entries.map (·.vers)

def HasRow (lib : LawfulLibraries) (hosted : CargoHosted) (crate version : String) : Prop :=
  ∃ p ∈ hosted.catalogue.projects, lib.collation.same p.key crate = true ∧
    ∃ v ∈ hosted.catalogue.versions, v.projectId = p.id ∧ v.version = version

/-- No two lines are of the same version, and every line has the checksum of a stored archive. -/
structure Verified (lib : LawfulLibraries) (hosted : CargoHosted) (crate : String)
    (entries : List IndexEntry) : Prop where
  nodup : (entries.map (·.vers)).Nodup
  archive : ∀ e ∈ entries, ∃ content, HasArchive hosted crate e.vers content ∧
    e.cksum = lib.sha.hex content

def IndexExact (lib : LawfulLibraries) (hosted : CargoHosted) (crate : String) : Prop :=
  ∃ entries, IndexIs lib hosted crate entries ∧ Verified lib hosted crate entries ∧
    ∀ version,
      (version ∈ entries.map (·.vers) ↔ ∃ content, HasArchive hosted crate version content) ∧
      (version ∈ entries.map (·.vers) ↔ HasRow lib hosted crate version)

def Published (lib : LawfulLibraries) (hosted : CargoHosted) (request : PublishRequest) : Prop :=
  ∃ payload, parsePublishPayload lib.fromSlice request.body = .ok payload ∧
    HasArchive hosted (normalizeCrateName payload.metadata.name) payload.metadata.vers.text
      payload.crateArchive ∧
    HasLine lib hosted (normalizeCrateName payload.metadata.name) payload.metadata.vers.text ∧
    HasRow lib hosted (normalizeCrateName payload.metadata.name) payload.metadata.vers.text

def cargoGuard (lib : LawfulLibraries) (label : CargoStep) (fails : Bool) (s : CargoSite)
    (p : CargoTask) : Prop :=
  match label with
  | .saveArchive crate version => fails = true ∨
      isCrateName crate = true ∧ s.hosted.storage.objects.get (archiveKey crate version) = none
  | .writeIndex path =>
    fails = true ∨ s.hosted.storage.objects.get path.components = p.index
  | .deleteFile path => fails = true ∨ ∀ key ∈ s.hosted.storage.objects.keys,
      DynStorage.deletes s.hosted.storage.backend path key = false
  | .deleteRows paths includeDescendants => fails = true ∨ ∀ v ∈ s.hosted.catalogue.versions,
      Packages.matchesPaths lib.collation includeDescendants paths v.path = false
  | .answer true => p.stored = false
  | _ => True

instance (label : CargoStep) (fails : Bool) (s : CargoSite) (p : CargoTask) :
    Decidable (cargoGuard lib label fails s p) := by
  unfold cargoGuard
  split <;> infer_instance

/-! ### The invariant -/

structure CatalogueOk (db : Catalogue CargoPackageMetadata) : Prop where
  unique : ∀ p ∈ db.projects, ∀ q ∈ db.projects, p.id = q.id → p = q
  projects : ∀ p ∈ db.projects, p.id < db.nextId
  owners : ∀ v ∈ db.versions, v.projectId < db.nextId

structure SiteOk (lib : LawfulLibraries) (s : CargoSite) : Prop where
  staging : ∀ key, s.hosted.storage.staging.get key = none
  indexed : ∀ crate, isCrateName crate = true →
    ∃ entries, IndexIs lib s.hosted crate entries ∧ Verified lib s.hosted crate entries
  recorded : ∀ crate version content, isCrateName crate = true →
    HasArchive s.hosted crate version content →
      HasRow lib s.hosted crate version ∨ (crate, version) ∈ s.pending
  listed : ∀ crate version, isCrateName crate = true → HasRow lib s.hosted crate version →
    HasLine lib s.hosted crate version
  catalogue : CatalogueOk s.hosted.catalogue

structure Later (lib : LawfulLibraries) (s t : CargoHosted) : Prop where
  archive : ∀ crate version content, HasArchive s crate version content →
    HasArchive t crate version content
  line : ∀ crate version, HasLine lib s crate version → HasLine lib t crate version
  project : ∀ p ∈ s.catalogue.projects, p ∈ t.catalogue.projects
  version : ∀ v ∈ s.catalogue.versions, v ∈ t.catalogue.versions

section Invariant

variable {s t u : CargoHosted} {site : CargoSite} {crate version : String}

theorem later_refl (s : CargoHosted) : Later lib s s :=
  ⟨fun _ _ _ h => h, fun _ _ h => h, fun _ h => h, fun _ h => h⟩

theorem Later.trans (h : Later lib s t) (h' : Later lib t u) : Later lib s u where
  archive _ _ _ hs := h'.archive _ _ _ (h.archive _ _ _ hs)
  line _ _ hs := h'.line _ _ (h.line _ _ hs)
  project p hp := h'.project p (h.project p hp)
  version v hv := h'.version v (h.version v hv)

theorem HasRow.of_later (h : HasRow lib s crate version) (hlater : Later lib s t) :
    HasRow lib t crate version := by
  obtain ⟨p, hp, hkey, v, hv, howner, hversion⟩ := h
  exact ⟨p, hlater.project p hp, hkey, v, hlater.version v hv, howner, hversion⟩

theorem Verified.of_later {entries : List IndexEntry} (h : Verified lib s crate entries)
    (hlater : Later lib s t) : Verified lib t crate entries where
  nodup := h.nodup
  archive e he := by
    obtain ⟨content, hcontent, hcksum⟩ := h.archive e he
    exact ⟨content, hlater.archive _ _ _ hcontent, hcksum⟩

theorem Published.of_later {request : PublishRequest} (h : Published lib s request)
    (hlater : Later lib s t) : Published lib t request := by
  obtain ⟨payload, hparse, harchive, hline, hrow⟩ := h
  exact ⟨payload, hparse, hlater.archive _ _ _ harchive, hlater.line _ _ hline,
    hrow.of_later hlater⟩

theorem HasLine.mem {entries : List IndexEntry} (h : HasLine lib s crate version)
    (hfile : IndexIs lib s crate entries) : version ∈ entries.map (·.vers) := by
  obtain ⟨entries', hfile', hmem⟩ := h
  rwa [vers_of_indexContent (hfile'.symm.trans hfile)] at hmem

theorem SiteOk.indexExact (hok : SiteOk lib site) (hpending : site.pending = [])
    (hcrate : isCrateName crate = true) : IndexExact lib site.hosted crate := by
  obtain ⟨entries, hfile, hverified⟩ := hok.indexed crate hcrate
  have harchive : ∀ version, version ∈ entries.map (·.vers) →
      ∃ content, HasArchive site.hosted crate version content := by
    intro version hmem
    obtain ⟨e, he, rfl⟩ := List.mem_map.mp hmem
    obtain ⟨content, hcontent, -⟩ := hverified.archive e he
    exact ⟨content, hcontent⟩
  have hrow : ∀ version content, HasArchive site.hosted crate version content →
      HasRow lib site.hosted crate version := by
    intro version content hcontent
    refine (hok.recorded crate version content hcrate hcontent).resolve_right ?_
    rw [hpending]
    exact List.not_mem_nil
  have hline : ∀ version, HasRow lib site.hosted crate version →
      version ∈ entries.map (·.vers) :=
    fun version hrow => (hok.listed crate version hcrate hrow).mem hfile
  grind [IndexExact]

theorem siteOk_new (backend : Backend) : SiteOk lib (.new backend) where
  staging _ := Store.get_empty _
  indexed crate _ := ⟨[], Store.get_empty _, List.nodup_nil, fun _ h => (by cases h)⟩
  recorded crate version _ _ h := by
    have hnone : (∅ : Objects).get (archiveKey crate version) = none := Store.get_empty _
    cases hnone.symm.trans h
  listed _ _ _ h := by
    obtain ⟨p, hp, -⟩ := h
    cases hp
  catalogue := ⟨fun _ h => (by cases h), fun _ h => (by cases h), fun _ h => (by cases h)⟩

/-! ### What the steps keep -/

variable {storage : DynStorage} {db : Catalogue CargoPackageMetadata}

theorem siteOk_sameObjects (hok : SiteOk lib site)
    (hstaging : ∀ key, storage.staging.get key = none)
    (hobjects : ∀ key, storage.objects.get key = site.hosted.storage.objects.get key) :
    SiteOk lib { site with hosted := { site.hosted with storage } } ∧
      Later lib site.hosted { site.hosted with storage } := by
  have hlater : Later lib site.hosted { site.hosted with storage } := by
    refine ⟨fun _ _ _ h => (hobjects _).trans h, fun _ _ h => ?_, fun _ h => h, fun _ h => h⟩
    obtain ⟨entries, hfile, hmem⟩ := h
    exact ⟨entries, (hobjects _).trans hfile, hmem⟩
  refine ⟨⟨hstaging, fun crate hcrate => ?_, fun crate version content hcrate h => ?_, ?_, ?_⟩,
    hlater⟩
  · obtain ⟨entries, hfile, hverified⟩ := hok.indexed crate hcrate
    exact ⟨entries, (hobjects _).trans hfile, hverified.of_later hlater⟩
  · exact hok.recorded crate version content hcrate ((hobjects _).symm.trans h)
  · exact fun crate version hcrate h => hlater.line _ _ (hok.listed crate version hcrate h)
  · exact hok.catalogue

theorem siteOk_saveArchive (hok : SiteOk lib site) (content : Bytes)
    (hnew : site.hosted.storage.objects.get (archiveKey crate version) = none) :
    let hosted : CargoHosted := { site.hosted with
      storage := { site.hosted.storage with
        objects := site.hosted.storage.objects.put (archiveKey crate version) content } }
    SiteOk lib ⟨hosted, (crate, version) :: site.pending⟩ ∧ Later lib site.hosted hosted := by
  intro hosted
  have hindex : ∀ other, hosted.storage.objects.get (indexKey other) =
      site.hosted.storage.objects.get (indexKey other) :=
    fun other => Store.get_put_of_ne _ _ (archiveKey_ne_indexKey other).symm
  have hlater : Later lib site.hosted hosted := by
    refine ⟨fun _ _ _ h => ?_, fun _ _ h => ?_, fun _ h => h, fun _ h => h⟩
    · refine Store.get_put_eq_some.mpr (.inr ⟨fun heq => ?_, h⟩)
      rw [HasArchive, heq, hnew] at h
      cases h
    · obtain ⟨entries, hfile, hmem⟩ := h
      exact ⟨entries, (hindex _).trans hfile, hmem⟩
  refine ⟨⟨hok.staging, fun other hother => ?_, fun other version' content' hother h => ?_, ?_,
    hok.catalogue⟩, hlater⟩
  · obtain ⟨entries, hfile, hverified⟩ := hok.indexed other hother
    exact ⟨entries, (hindex _).trans hfile, hverified.of_later hlater⟩
  · rcases Store.get_put_eq_some.mp h with ⟨heq, -⟩ | ⟨-, h⟩
    · obtain ⟨rfl, rfl⟩ := eq_of_archiveKey heq
      exact .inr List.mem_cons_self
    · rcases hok.recorded other version' content' hother h with hrow | hpending
      · exact .inl hrow
      · exact .inr (List.mem_cons_of_mem _ hpending)
  · exact fun other version' hother h => hlater.line _ _ (hok.listed other version' hother h)

theorem siteOk_writeIndex (hok : SiteOk lib site) {metadata : PublishMetadata}
    {content : Bytes} {text : String} (hcrate : isCrateName crate = true)
    (harchive : HasArchive site.hosted crate metadata.vers.text content)
    (happend : appendEntry lib.toCargoLibraries metadata (lib.sha.hex content)
      (site.hosted.storage.objects.get (indexKey crate)) = .ok text) :
    let hosted : CargoHosted := { site.hosted with
      storage := { site.hosted.storage with
        objects := site.hosted.storage.objects.put (indexKey crate) (intoBytes text) } }
    SiteOk lib { site with hosted } ∧ Later lib site.hosted hosted ∧
      HasLine lib hosted crate metadata.vers.text := by
  intro hosted
  obtain ⟨entries, hfile, hverified⟩ := hok.indexed crate hcrate
  rw [hfile] at happend
  obtain ⟨rfl, hfresh⟩ := appendEntry_spec happend
  have harchives : ∀ other version, hosted.storage.objects.get (archiveKey other version) =
      site.hosted.storage.objects.get (archiveKey other version) :=
    fun other version => Store.get_put_of_ne _ _ (archiveKey_ne_indexKey crate)
  have hothers : ∀ other, other ≠ crate → hosted.storage.objects.get (indexKey other) =
      site.hosted.storage.objects.get (indexKey other) :=
    fun other hne => Store.get_put_of_ne _ _ fun heq => hne (eq_of_indexKey heq)
  have hnew : IndexIs lib hosted crate
      (entries ++ [buildIndexEntry metadata (lib.sha.hex content)]) := by
    rw [IndexIs, indexContent, if_neg (by simp)]
    exact Store.get_put_self _ _ _
  have hline : HasLine lib hosted crate metadata.vers.text :=
    ⟨_, hnew, by rw [List.map_append]; exact List.mem_append_right _ List.mem_cons_self⟩
  have hlater : Later lib site.hosted hosted := by
    refine ⟨fun _ _ _ h => (harchives _ _).trans h, fun other version h => ?_, fun _ h => h,
      fun _ h => h⟩
    by_cases hother : other = crate
    · subst hother
      refine ⟨_, hnew, ?_⟩
      rw [List.map_append]
      exact List.mem_append_left _ (h.mem hfile)
    · obtain ⟨entries', hfile', hmem⟩ := h
      exact ⟨entries', (hothers other hother).trans hfile', hmem⟩
  refine ⟨⟨hok.staging, fun other hother => ?_, fun other version content' hother h => ?_, ?_,
    hok.catalogue⟩, hlater, hline⟩
  · by_cases heq : other = crate
    · subst heq
      refine ⟨_, hnew, ?_, ?_⟩
      · rw [List.map_append]
        exact hverified.nodup.append (List.nodup_singleton _)
          (List.disjoint_singleton.mpr hfresh)
      · intro e he
        rcases List.mem_append.mp he with he | he
        · exact (hverified.of_later hlater).archive e he
        · obtain rfl := List.mem_singleton.mp he
          exact ⟨content, hlater.archive _ _ _ harchive, rfl⟩
    · obtain ⟨entries', hfile', hverified'⟩ := hok.indexed other hother
      exact ⟨entries', (hothers other heq).trans hfile', hverified'.of_later hlater⟩
  · exact hok.recorded other version content' hother ((harchives _ _).symm.trans h)
  · exact fun other version hother h => hlater.line _ _ (hok.listed other version hother h)

theorem siteOk_insertProject (hok : SiteOk lib site) {key path : String} {project : DBProject}
    (h : site.hosted.catalogue.insertProject lib.collation key path = some (db, project)) :
    SiteOk lib { site with hosted := { site.hosted with catalogue := db } } ∧
      Later lib site.hosted { site.hosted with catalogue := db } ∧
      project ∈ db.projects ∧ project.key = key := by
  obtain ⟨hproject, rfl, -⟩ := Catalogue.of_insertProject h
  obtain ⟨hunique, hprojects, howners⟩ := hok.catalogue
  have hid : project.id = site.hosted.catalogue.nextId := by rw [hproject]
  have hlater : Later lib site.hosted { site.hosted with catalogue := {
      site.hosted.catalogue with
        projects := site.hosted.catalogue.projects ++ [project]
        nextId := site.hosted.catalogue.nextId + 1 } } :=
    ⟨fun _ _ _ h => h, fun _ _ h => h, fun p hp => List.mem_append_left _ hp, fun _ h => h⟩
  refine ⟨⟨hok.staging, fun crate hcrate => ?_, fun crate version content hcrate h => ?_,
    fun crate version hcrate h => ?_, ⟨?_, ?_, ?_⟩⟩, hlater,
    List.mem_append_right _ List.mem_cons_self, by rw [hproject]⟩
  · obtain ⟨entries, hfile, hverified⟩ := hok.indexed crate hcrate
    exact ⟨entries, hfile, hverified.of_later hlater⟩
  · exact (hok.recorded crate version content hcrate h).imp_left fun hrow => hrow.of_later hlater
  · refine hok.listed crate version hcrate ?_
    obtain ⟨p, hp, hkey, v, hv, howner, hversion⟩ := h
    rcases List.mem_append.mp hp with hp | hp
    · exact ⟨p, hp, hkey, v, hv, howner, hversion⟩
    · obtain rfl := List.mem_singleton.mp hp
      have hlt := howners v hv
      omega
  · grind
  · grind
  · exact fun v hv => Nat.lt_succ_of_lt (howners v hv)

theorem siteOk_insertVersion (hok : SiteOk lib site) {project : DBProject} {path : String}
    {extra : CargoPackageMetadata} (hproject : project ∈ site.hosted.catalogue.projects)
    (hkey : lib.collation.same project.key crate = true) (hcrate : isCrateName crate = true)
    (hline : HasLine lib site.hosted crate version)
    (h : site.hosted.catalogue.insertVersion lib.collation project.id version path extra =
      some db) :
    let hosted : CargoHosted := { site.hosted with catalogue := db }
    SiteOk lib ⟨hosted, site.pending.filter (· ≠ (crate, version))⟩ ∧
      Later lib site.hosted hosted ∧ HasRow lib hosted crate version ∧
      site.hosted.catalogue.versions.length < db.versions.length := by
  intro hosted
  obtain ⟨rfl, -⟩ := Catalogue.of_insertVersion h
  obtain ⟨hunique, hprojects, howners⟩ := hok.catalogue
  have hlater : Later lib site.hosted hosted :=
    ⟨fun _ _ _ h => h, fun _ _ h => h, fun _ h => h, fun v hv => List.mem_append_left _ hv⟩
  have hrow : HasRow lib hosted crate version :=
    ⟨project, hproject, hkey, _, List.mem_append_right _ List.mem_cons_self, rfl, rfl⟩
  refine ⟨⟨hok.staging, fun other hother => ?_, fun other version' content hother h => ?_,
    fun other version' hother h => ?_, ⟨hunique, ?_, ?_⟩⟩, hlater, hrow, ?_⟩
  · obtain ⟨entries, hfile, hverified⟩ := hok.indexed other hother
    exact ⟨entries, hfile, hverified.of_later hlater⟩
  · by_cases heq : (other, version') = (crate, version)
    · obtain ⟨rfl, rfl⟩ := Prod.mk.inj heq
      exact .inl hrow
    · rcases hok.recorded other version' content hother h with hrow' | hpending
      · exact .inl (hrow'.of_later hlater)
      · exact .inr (List.mem_filter.mpr ⟨hpending, decide_eq_true heq⟩)
  · obtain ⟨p, hp, hkey', v, hv, howner, hversion⟩ := h
    rcases List.mem_append.mp hv with hv | hv
    · exact hok.listed other version' hother ⟨p, hp, hkey', v, hv, howner, hversion⟩
    · obtain rfl := List.mem_singleton.mp hv
      -- the project of the new row is that of the crate
      obtain rfl := hunique project hproject p hp howner
      have hsame := lib.collation.same_trans other project.key crate
        (lib.collation.same_symm project.key other hkey') hkey
      obtain rfl := lib.eq_of_same other crate hother hcrate hsame
      obtain rfl : version = version' := hversion
      exact hline
  · exact fun p hp => Nat.lt_succ_of_lt (hprojects p hp)
  · grind
  · rw [List.length_append, List.length_singleton]
    exact Nat.lt_succ_self _

end Invariant

end Pkgly.Cargo
