import Mathlib.Data.List.TakeWhile
import Pkgly.Algorithm.PrefixCode
import Pkgly.Cargo.Equiv.SparseIndex

/-!
# Is the sparse index exact?

After all requests have ended the index of a crate is exact (`IndexExact`) if its file has one line
for each version whose archive is stored, with the checksum of the archive, and the rows are of the
same versions.  It is so after every run (`index_exact`) in which

* an archive is stored only for a crate with a place in the index, and where none is stored yet,
* an index file is written only as long as it is what has been read,
* a publish that has stored its archive is not answered with an error,
* a deletion takes away no file and no row (`cargoGuard`).

A crate that is published and deleted is still in the index (`not_indexExact_deleted`).
-/

namespace Pkgly.Cargo

open Resumption

variable {lib : LawfulLibraries}

/-! ### Requests -/

def cargoProtocol (lib : LawfulLibraries) : Protocol CargoStep Bool CargoSite CargoTask where
  guard := cargoGuard lib
  inv := SiteOk lib
  keeps s t := Later lib s.hosted t.hosted
  keeps_refl s := later_refl s.hosted
  keeps_trans _ _ _ := Later.trans

structure TaskOk (request : CargoRequest) (q : CargoTask) : Prop where
  request : q.request = request
  pending : q.stored = false → q.pending = []

section Rules

variable {α β : Type} {s : CargoSite} {p : CargoTask} {request : CargoRequest}

/-- What is known after a value; after an error the request is known. -/
def Post (request : CargoRequest) (K : α → CargoSite → CargoTask → Prop) :
    Except CargoRepositoryError α → CargoSite → CargoTask → Prop
  | .ok a, s, q => K a s q
  | .error _, _, q => TaskOk request q

variable {K : α → CargoSite → CargoTask → Prop} {K' : β → CargoSite → CargoTask → Prop}

theorem safe_then {m : CargoM α} {k : α → CargoM β}
    (hm : Safe (cargoProtocol lib) (Post request K) (onSite m) s p)
    (hk : ∀ a t q, K a t q → Safe (cargoProtocol lib) (Post request K') (onSite (k a)) t q) :
    Safe (cargoProtocol lib) (Post request K') (onSite (m >>= k)) s p := by
  rw [onSite, zoom_bind]
  exact safe_bind hm hk fun e t q h => h

theorem safe_ofExcept {result : Except CargoRepositoryError α} (htask : TaskOk request p)
    (h : ∀ a, result = .ok a → K a s p) :
    Safe (cargoProtocol lib) (Post request K) (onSite (ofExcept result)) s p := by
  cases result with
  | ok a => exact h a rfl
  | error e => exact htask

theorem record_self (label : CargoStep) (s : CargoSite) (p : CargoTask) :
    ∃ index, record label (s, p) s.hosted = (s, { p with index }) := by
  unfold record
  split
  · rw [if_neg]
    · exact ⟨p.index, rfl⟩
    · cases s.hosted.storage.objects.get _ <;> simp
  · exact ⟨_, rfl⟩
  · rw [if_neg (Nat.lt_irrefl _)]
    exact ⟨p.index, rfl⟩
  · exact ⟨p.index, rfl⟩

theorem TaskOk.of_record_self (h : TaskOk request p) (label : CargoStep) :
    TaskOk request (record label (s, p) s.hosted).2 := by
  obtain ⟨index, hrecord⟩ := record_self label s p
  rw [hrecord]
  exact ⟨h.request, h.pending⟩

theorem safe_step {label : CargoStep}
    {f : Bool → CargoHosted → Except CargoRepositoryError α × CargoHosted}
    (htask : TaskOk request p)
    (h : ∀ t, Later lib s.hosted t.hosted → SiteOk lib t → ∀ c, cargoGuard lib label c t p →
      (∃ e, f c t.hosted = (.error e, t.hosted)) ∨
        ∃ a hosted, f c t.hosted = (.ok a, hosted) ∧ SiteOk lib (record label (t, p) hosted).1 ∧
          Later lib t.hosted (record label (t, p) hosted).1.hosted ∧
          K a (record label (t, p) hosted).1 (record label (t, p) hosted).2) :
    Safe (cargoProtocol lib) (Post request K) (onSite (.act label f)) s p := by
  intro t hlater hok c hguard
  change SiteOk lib (record label (t, p) (f c t.hosted).2).1 ∧
    Later lib t.hosted (record label (t, p) (f c t.hosted).2).1.hosted ∧
    Post request K (f c t.hosted).1 (record label (t, p) (f c t.hosted).2).1
      (record label (t, p) (f c t.hosted).2).2
  rcases h t hlater hok c hguard with ⟨e, he⟩ | ⟨a, hosted, ha, hok', hlater', hK⟩
  · obtain ⟨index, hrecord⟩ := record_self label t p
    rw [he]
    refine ⟨?_, ?_, htask.of_record_self label⟩
    · rw [hrecord]
      exact hok
    · rw [hrecord]
      exact later_refl _
  · rw [ha]
    exact ⟨hok', hlater', hK⟩

theorem safe_storageStep {label : CargoStep}
    {f : DynStorage → Except StorageError (α × DynStorage)} (htask : TaskOk request p)
    (h : ∀ t, Later lib s.hosted t.hosted → SiteOk lib t → cargoGuard lib label false t p →
      ∀ a storage, f t.hosted.storage = .ok (a, storage) →
        let u := record label (t, p) { t.hosted with storage }
        SiteOk lib u.1 ∧ Later lib t.hosted u.1.hosted ∧ K a u.1 u.2) :
    Safe (cargoProtocol lib) (Post request K) (onSite (storageStep label f)) s p := by
  refine safe_step htask fun t hlater hok c hguard => ?_
  cases c with
  | true => exact .inl ⟨_, rfl⟩
  | false =>
    rw [if_neg Bool.false_ne_true]
    cases hf : f t.hosted.storage with
    | error e => exact .inl ⟨_, rfl⟩
    | ok r => exact .inr ⟨r.1, _, rfl, h t hlater hok hguard r.1 r.2 hf⟩

theorem safe_statement {label : CargoStep}
    {f : Catalogue CargoPackageMetadata → Option (α × Catalogue CargoPackageMetadata)}
    (htask : TaskOk request p)
    (h : ∀ t, Later lib s.hosted t.hosted → SiteOk lib t → cargoGuard lib label false t p →
      ∀ a db, f t.hosted.catalogue = some (a, db) →
        let u := record label (t, p) { t.hosted with catalogue := db }
        SiteOk lib u.1 ∧ Later lib t.hosted u.1.hosted ∧ K a u.1 u.2) :
    Safe (cargoProtocol lib) (Post request K) (onSite (statement label f)) s p := by
  refine safe_step htask fun t hlater hok c hguard => ?_
  cases c with
  | true => exact .inl ⟨_, rfl⟩
  | false =>
    rw [if_neg Bool.false_ne_true]
    cases hf : f t.hosted.catalogue with
    | none => exact .inl ⟨_, rfl⟩
    | some r => exact .inr ⟨r.1, _, rfl, h t hlater hok hguard r.1 r.2 hf⟩

theorem safe_query {f : Catalogue CargoPackageMetadata → α} (htask : TaskOk request p) :
    Safe (cargoProtocol lib)
      (Post request fun a t q => q = p ∧ Later lib s.hosted t.hosted ∧ f t.hosted.catalogue = a)
      (onSite (query f)) s p := by
  refine safe_statement htask fun t hlater hok _ a db hf => ?_
  obtain ⟨rfl, rfl⟩ := Prod.mk.inj (Option.some.inj hf)
  exact ⟨hok, later_refl _, rfl, hlater, rfl⟩

end Rules

/-! ### Publishes -/

section Publishes

variable {s : CargoSite} {p : CargoTask} {request : CargoRequest} {payload : PublishPayload}
  {project : DBProject}

structure Owned (lib : LawfulLibraries) (hosted : CargoHosted) (crate : String)
    (project : DBProject) : Prop where
  mem : project ∈ hosted.catalogue.projects
  key : lib.collation.same project.key crate = true

theorem Owned.of_later {s t : CargoHosted} {crate : String} (h : Owned lib s crate project)
    (hlater : Later lib s t) : Owned lib t crate project :=
  ⟨hlater.project project h.mem, h.key⟩

theorem safe_findOrInsertProject (htask : TaskOk request p) (normalized : String) :
    Safe (cargoProtocol lib)
      (Post request fun project t q => q = p ∧ Owned lib t.hosted normalized project)
      (onSite (findOrInsertProject lib.toCargoLibraries normalized)) s p := by
  refine safe_then (safe_query htask) fun project? t q h => ?_
  obtain ⟨rfl, -, hfound⟩ := h
  cases project? with
  | some project =>
    obtain ⟨hmem, hkey⟩ := Catalogue.of_findByProjectKey hfound
    exact ⟨rfl, hmem, hkey⟩
  | none =>
    refine safe_statement htask fun u _ hok _ project db hinsert => ?_
    obtain ⟨r, hr, hpair⟩ := Option.map_eq_some_iff.mp hinsert
    obtain ⟨rfl, rfl⟩ := Prod.mk.inj hpair
    obtain ⟨hok', hlater, hmem, hkey⟩ := siteOk_insertProject hok hr
    refine ⟨hok', hlater, rfl, hmem, ?_⟩
    rw [hkey]
    exact lib.collation.same_refl _

structure Stored (payload : PublishPayload) (hosted : CargoHosted) (q : CargoTask) : Prop where
  stored : q.stored = true
  pending : q.pending =
    [(normalizeCrateName payload.metadata.name, payload.metadata.vers.text)]
  crate : isCrateName (normalizeCrateName payload.metadata.name) = true
  archive : HasArchive hosted (normalizeCrateName payload.metadata.name)
    payload.metadata.vers.text payload.crateArchive

theorem Stored.of_later {s t : CargoHosted} (h : Stored payload s p) (hlater : Later lib s t) :
    Stored payload t p :=
  ⟨h.stored, h.pending, h.crate, hlater.archive _ _ _ h.archive⟩

theorem safe_saveCrateArchive (htask : TaskOk request p) (hnew : p.stored = false) :
    Safe (cargoProtocol lib)
      (Post request fun checksum t q => TaskOk request q ∧ Later lib s.hosted t.hosted ∧
        checksum = lib.sha.hex payload.crateArchive ∧ Stored payload t.hosted q)
      (onSite (saveCrateArchive lib.toCargoLibraries payload.metadata.name payload.metadata.vers
        payload)) s p := by
  refine safe_then (K := fun _ t q => TaskOk request q ∧ Later lib s.hosted t.hosted ∧
    Stored payload t.hosted q) ?_ fun _ t q h => ⟨h.1, h.2.1, rfl, h.2.2⟩
  refine safe_storageStep htask fun t hlater hok hguard _ storage hsave => ?_
  obtain ⟨hcrate, hfree⟩ := hguard.resolve_left Bool.false_ne_true
  cases hsaved : t.hosted.storage.saveFile payload.crateArchive
      (crateArchiveStoragePath payload.metadata.name payload.metadata.vers) with
  | error e =>
    rw [hsaved] at hsave
    cases hsave
  | ok st =>
    rw [hsaved] at hsave
    obtain ⟨-, rfl⟩ := Prod.mk.inj (Except.ok.inj hsave)
    obtain rfl := DynStorage.eq_of_saveFile hsaved
    rw [components_crateArchiveStoragePath payload.metadata.vers hcrate]
    have hstored : (t.hosted.storage.objects.put
        (archiveKey (normalizeCrateName payload.metadata.name) payload.metadata.vers.text)
        payload.crateArchive).get (archiveKey (normalizeCrateName payload.metadata.name)
          payload.metadata.vers.text) = some payload.crateArchive := Store.get_put_self _ _ _
    obtain ⟨hok', hlater'⟩ := siteOk_saveArchive hok payload.crateArchive hfree
    unfold record
    simp only [hfree, hstored, Option.isNone_none, Option.isSome_some, Bool.and_self, if_pos]
    refine ⟨hok', hlater', ⟨htask.request, fun h => ?_⟩, hlater.trans hlater', rfl, ?_, hcrate,
      hstored⟩
    · cases h
    · rw [htask.pending hnew]

theorem of_readIndex {st st' : DynStorage} {path : StoragePath} {existing : Option Bytes}
    (hstaging : ∀ key, st.staging.get key = none) (hfile : path.isDirectory = false)
    (h : (match st.openFile path with
      | .error e => .error e
      | .ok (some (.file content)) => .ok (some content, st)
      | .ok _ => .ok (none, st) : Except StorageError (Option Bytes × DynStorage)) =
        .ok (existing, st')) :
    st' = st ∧ st.objects.get path.components = existing := by
  have hlookup : st.lookupKey? path = some path.components := by
    unfold DynStorage.lookupKey?
    rw [hfile]
    cases st.backend <;> rfl
  unfold DynStorage.openFile at h
  grind

theorem safe_readIndex {path : StoragePath} (htask : TaskOk request p)
    (hfile : path.isDirectory = false) (hstored : Stored payload s.hosted p) :
    Safe (cargoProtocol lib)
      (Post request fun existing t q => TaskOk request q ∧ Later lib s.hosted t.hosted ∧
        Stored payload t.hosted q ∧ q.index = existing)
      (onSite (readIndex path)) s p := by
  refine safe_storageStep htask fun t hlater hok _ existing storage hread => ?_
  obtain ⟨rfl, hget⟩ := of_readIndex hok.staging hfile hread
  have hstored' := hstored.of_later hlater
  exact ⟨hok, later_refl _, ⟨htask.request, htask.pending⟩, hlater,
    ⟨hstored'.stored, hstored'.pending, hstored'.crate, hstored'.archive⟩, hget⟩

theorem safe_updateSparseIndex (htask : TaskOk request p) (hstored : Stored payload s.hosted p) :
    Safe (cargoProtocol lib)
      (Post request fun _ t q => TaskOk request q ∧ Later lib s.hosted t.hosted ∧
        Stored payload t.hosted q ∧ HasLine lib t.hosted
          (normalizeCrateName payload.metadata.name) payload.metadata.vers.text)
      (onSite (updateSparseIndex lib.toCargoLibraries payload.metadata
        (lib.sha.hex payload.crateArchive))) s p := by
  refine safe_then (K := fun path t q => t = s ∧ q = p ∧
    sparseIndexStoragePath payload.metadata.name = .ok path) ?_ fun path t q h => ?_
  · refine safe_ofExcept htask fun path hpath => ⟨rfl, rfl, ?_⟩
    cases hsparse : sparseIndexStoragePath payload.metadata.name with
    | error e =>
      rw [hsparse] at hpath
      cases hpath
    | ok path' =>
      rw [hsparse] at hpath
      exact congrArg _ (Except.ok.inj hpath)
  obtain ⟨rfl, rfl, hpath⟩ := h
  obtain ⟨-, hcomponents, hfile⟩ := of_sparseIndexStoragePath hpath
  refine safe_then (safe_readIndex htask hfile hstored) fun existing u q h => ?_
  obtain ⟨htask, hlater, hstored, hindex⟩ := h
  refine safe_then (K := fun content v r => v = u ∧ r = q ∧
    appendEntry lib.toCargoLibraries payload.metadata (lib.sha.hex payload.crateArchive) existing =
      .ok content) ?_ fun content v r h => ?_
  · exact safe_ofExcept htask fun content hcontent => ⟨rfl, rfl, hcontent⟩
  obtain ⟨rfl, rfl, happend⟩ := h
  refine safe_storageStep htask fun w hlater' hok hguard _ storage hsave => ?_
  -- the file is what has been read
  have hcurrent := hguard.resolve_left Bool.false_ne_true
  rw [hindex, hcomponents] at hcurrent
  rw [← hcurrent] at happend
  cases hsaved : w.hosted.storage.saveFile (intoBytes content) path with
  | error e =>
    rw [hsaved] at hsave
    cases hsave
  | ok st =>
    rw [hsaved] at hsave
    obtain ⟨-, rfl⟩ := Prod.mk.inj (Except.ok.inj hsave)
    obtain rfl := DynStorage.eq_of_saveFile hsaved
    have hstored' := hstored.of_later hlater'
    obtain ⟨hok', hwritten, hline⟩ :=
      siteOk_writeIndex hok hstored'.crate hstored'.archive happend
    rw [← hcomponents] at hok' hwritten hline
    exact ⟨hok', hwritten, htask, (hlater.trans hlater').trans hwritten,
      hstored'.of_later hwritten, hline⟩

theorem safe_persistVersionMetadata {checksum : String} (htask : TaskOk request p)
    (hstored : Stored payload s.hosted p)
    (howned : Owned lib s.hosted (normalizeCrateName payload.metadata.name) project)
    (hline : HasLine lib s.hosted (normalizeCrateName payload.metadata.name)
      payload.metadata.vers.text) :
    Safe (cargoProtocol lib)
      (Post request fun _ t q => TaskOk request q ∧ q.pending = [] ∧
        Later lib s.hosted t.hosted ∧ HasRow lib t.hosted
          (normalizeCrateName payload.metadata.name) payload.metadata.vers.text)
      (onSite (persistVersionMetadata lib.toCargoLibraries project.id payload checksum)) s p := by
  refine safe_then (K := fun _ t q => TaskOk request q ∧ q.pending = [] ∧
    Later lib s.hosted t.hosted ∧ HasRow lib t.hosted
      (normalizeCrateName payload.metadata.name) payload.metadata.vers.text) ?_
    fun _ t q h => ?_
  · refine safe_statement htask fun t hlater hok _ _ db hinsert => ?_
    obtain ⟨db', hdb, hpair⟩ := Option.map_eq_some_iff.mp hinsert
    obtain ⟨-, rfl⟩ := Prod.mk.inj hpair
    obtain ⟨hmem, hkey⟩ := howned.of_later hlater
    obtain ⟨hok', hlater', hrow, hlength⟩ := siteOk_insertVersion hok hmem hkey hstored.crate
      (hlater.line _ _ hline) hdb
    unfold record
    simp only [if_pos hlength]
    refine ⟨hok', hlater', ⟨htask.request, fun h => ?_⟩, ?_, hlater.trans hlater', hrow⟩
    · rw [hstored.stored] at h
      cases h
    · rw [hstored.pending]
      simp
  · obtain ⟨htask, hpending, hlater, hrow⟩ := h
    refine safe_statement htask fun u hlater' hok _ _ db hrows => ?_
    obtain ⟨-, rfl⟩ := Prod.mk.inj (Option.some.inj hrows)
    exact ⟨hok, later_refl _, htask, hpending, hlater.trans hlater', hrow.of_later hlater'⟩

-- below these are used by their rules only
attribute [local irreducible] saveCrateArchive updateSparseIndex persistVersionMetadata

theorem safe_storePublish (htask : TaskOk request p) (hnew : p.stored = false)
    (howned : Owned lib s.hosted (normalizeCrateName payload.metadata.name) project) :
    Safe (cargoProtocol lib)
      (Post request fun _ t q => TaskOk request q ∧ q.pending = [] ∧
        HasArchive t.hosted (normalizeCrateName payload.metadata.name) payload.metadata.vers.text
          payload.crateArchive ∧
        HasLine lib t.hosted (normalizeCrateName payload.metadata.name)
          payload.metadata.vers.text ∧
        HasRow lib t.hosted (normalizeCrateName payload.metadata.name) payload.metadata.vers.text)
      (onSite (storePublish lib.toCargoLibraries payload project)) s p := by
  refine safe_then (safe_saveCrateArchive htask hnew) fun checksum t q h => ?_
  obtain ⟨htask, hlater, rfl, hstored⟩ := h
  refine safe_then (safe_updateSparseIndex htask hstored) fun _ u r h => ?_
  obtain ⟨htask, hlater', hstored, hline⟩ := h
  refine (safe_persistVersionMetadata htask hstored (howned.of_later (hlater.trans hlater'))
    hline).mono fun result v r h => ?_
  cases result with
  | ok _ =>
    obtain ⟨htask, hpending, hlater'', hrow⟩ := h
    exact ⟨htask, hpending, hlater''.archive _ _ _ hstored.archive, hlater''.line _ _ hline, hrow⟩
  | error e => exact h

theorem safe_handlePublish {body : PublishRequest} (htask : TaskOk request p)
    (hnew : p.stored = false) :
    Safe (cargoProtocol lib)
      (Post request fun _ t q => TaskOk request q ∧ q.pending = [] ∧ Published lib t.hosted body)
      (onSite (handlePublish lib.toCargoLibraries body)) s p := by
  unfold handlePublish
  by_cases hactive : (!body.active) = true
  · rw [if_pos hactive]
    exact htask
  rw [if_neg hactive]
  refine safe_then (safe_query htask) fun _ t q h => ?_
  obtain ⟨rfl, -, -⟩ := h
  by_cases hauthorized : (!body.authorized) = true
  · rw [if_pos hauthorized]
    exact htask
  rw [if_neg hauthorized]
  refine safe_then (K := fun payload u r => r = q ∧
    parsePublishPayload lib.fromSlice body.body = .ok payload) ?_ fun payload u r h => ?_
  · refine safe_ofExcept htask fun payload hpayload => ⟨rfl, ?_⟩
    cases hparse : parsePublishPayload lib.fromSlice body.body with
    | error e =>
      rw [hparse] at hpayload
      cases hpayload
    | ok payload' =>
      rw [hparse] at hpayload
      exact congrArg _ (Except.ok.inj hpayload)
  obtain ⟨rfl, hparse⟩ := h
  refine safe_then (safe_findOrInsertProject htask _) fun project v q h => ?_
  obtain ⟨rfl, howned⟩ := h
  refine safe_then (safe_query htask) fun existing w q h => ?_
  obtain ⟨rfl, hlater, -⟩ := h
  split_ifs
  · exact htask
  refine (safe_storePublish htask hnew (howned.of_later hlater)).mono fun result x q h => ?_
  grind [Post, Published]

end Publishes


/-! ### Deletions -/

section Deletions

variable {α : Type} {s : CargoSite} {p : CargoTask} {request : CargoRequest}

/-- A step that keeps the invariant, and changes nothing of what is kept track of. -/
def Harmless (lib : LawfulLibraries) (label : CargoStep)
    (effect : Bool → CargoHosted → CargoHosted) : Prop :=
  ∀ c s p, SiteOk lib s → cargoGuard lib label c s p →
    let u := record label (s, p) (effect c s.hosted)
    SiteOk lib u.1 ∧ Later lib s.hosted u.1.hosted ∧ u.2.request = p.request ∧
      u.2.pending = p.pending

theorem safe_harmless {m : CargoM α} (hm : m.Steps (Harmless lib)) (hrequest : p.request = request)
    (hpending : p.pending = []) :
    Safe (cargoProtocol lib) (fun _ _ q => q.request = request ∧ q.pending = []) (onSite m)
      s p := by
  induction m generalizing s p with
  | done r => exact ⟨hrequest, hpending⟩
  | step label effect rest ih =>
    intro t _ hok c hguard
    obtain ⟨hok', hlater', hrequest', hpending'⟩ := hm.1 c t p hok hguard
    exact ⟨hok', hlater', ih c t.hosted (hm.2 c t.hosted) (hrequest'.trans hrequest)
      (hpending'.trans hpending)⟩

theorem harmless_self (label : CargoStep) (hok : SiteOk lib s) :
    let u := record label (s, p) s.hosted
    SiteOk lib u.1 ∧ Later lib s.hosted u.1.hosted ∧ u.2.request = p.request ∧
      u.2.pending = p.pending := by
  obtain ⟨index, hrecord⟩ := record_self label s p
  rw [hrecord]
  exact ⟨hok, later_refl _, rfl, rfl⟩

theorem harmless_isDirectoryAt (path : StoragePath) :
    (isDirectoryAt path).Steps (Harmless lib) := by
  refine steps_act fun c s p hok _ => ?_
  beta_reduce
  split_ifs
  · exact harmless_self _ hok
  · cases s.hosted.storage.getFileInformation path with
    | error e | ok info => exact harmless_self _ hok

theorem harmless_deleteFile (path : StoragePath) : (deleteFile path).Steps (Harmless lib) := by
  refine steps_act fun c s p hok hguard => ?_
  beta_reduce
  split_ifs with hfails
  · exact harmless_self _ hok
  cases hdelete : s.hosted.storage.deleteFile path with
  | error e => exact harmless_self _ hok
  | ok r =>
    obtain ⟨storage, found⟩ := r
    obtain rfl := DynStorage.eq_of_deleteFile hdelete
    have hkeys := Or.resolve_left hguard hfails
    have hstaging : ∀ key, (s.hosted.storage.erase path).staging.get key = none := by
      intro key
      rw [DynStorage.getStaging_erase, hok.staging, ite_self]
    have hobjects : ∀ key, (s.hosted.storage.erase path).objects.get key =
        s.hosted.storage.objects.get key := by
      intro key
      rw [DynStorage.get_erase]
      split_ifs with hdeletes
      · cases hget : s.hosted.storage.objects.get key with
        | none => rfl
        | some content =>
          rw [hkeys key (Store.mem_keys_iff.mpr ⟨content, hget⟩)] at hdeletes
          cases hdeletes
      · rfl
    obtain ⟨hok', hlater⟩ := siteOk_sameObjects hok hstaging hobjects
    exact ⟨hok', hlater, rfl, rfl⟩

theorem harmless_deleteVersionRecords (paths : List String) (includeDescendants : Bool) :
    (deleteVersionRecords lib.toCargoLibraries paths includeDescendants).Steps
      (Harmless lib) := by
  refine steps_act fun c s p hok hguard => ?_
  beta_reduce
  split_ifs with hfails
  · exact harmless_self _ hok
  have hrows : Packages.deleteVersionRecordsByPath lib.collation s.hosted.catalogue paths
      includeDescendants = s.hosted.catalogue := by
    rw [Packages.deleteVersionRecordsByPath, List.filter_eq_self.mpr]
    intro v hv
    rw [Or.resolve_left hguard hfails v hv]
    rfl
  simp only [hrows]
  exact harmless_self _ hok

theorem harmless_deletePath (d : Removal) (path : String) :
    (deletePath d path).Steps (Harmless lib) := by
  grind [deletePath, steps_pure, steps_bind, harmless_isDirectoryAt, harmless_deleteFile]

theorem harmless_deletePaths (d : Removal) (paths : List String) :
    (deletePaths d paths).Steps (Harmless lib) := by
  induction paths generalizing d with
  | nil => exact steps_pure _
  | cons path paths ih => exact steps_bind (harmless_deletePath d path) ih

theorem harmless_deletePackagePaths (paths : List String) :
    (deletePackagePaths lib.toCargoLibraries paths).Steps (Harmless lib) := by
  grind [steps_bind, harmless_deletePaths, harmless_deleteVersionRecords, steps_pure,
    Resumption.Steps, Harmless, deletePackagePaths]

end Deletions

/-! ### All requests -/

section Site

variable {s : CargoSite} {p : CargoTask} {request : CargoRequest}

def Ended (lib : LawfulLibraries) :
    Except CargoRepositoryError Unit → CargoSite → CargoTask → Prop :=
  fun r s q => q.pending = [] ∧ (r = .ok () → ∀ body, q.request = .publish body →
    Published lib s.hosted body)

theorem safe_answered {body : PublishRequest} (htask : TaskOk (.publish body) p)
    (hnew : p.stored = false) :
    Safe (cargoProtocol lib) (Ended lib) (answered (handlePublish lib.toCargoLibraries body))
      s p := by
  unfold answered
  refine safe_tryCatch (Q := fun r t q => match r with
    | .ok _ => Ended lib (.ok ()) t q
    | .error _ => TaskOk (.publish body) q) ?_ (fun _ t q h => h) fun e t q htask => ?_
  · refine safe_bind (safe_handlePublish htask hnew) (fun _ t q h => ?_) fun e t q h => h
    intro u hlater hok c _
    obtain ⟨htask, hpending, hpublished⟩ := h
    refine ⟨hok, later_refl _, hpending, fun _ body' hbody => ?_⟩
    obtain rfl := CargoRequest.publish.inj (htask.request.symm.trans hbody)
    exact hpublished.of_later hlater
  · intro u _ hok c hguard
    exact ⟨hok, later_refl _, htask.pending hguard, fun hr => by cases hr⟩

theorem safe_siteRequest (request : CargoRequest) :
    Safe (cargoProtocol lib) (Ended lib) (siteRequest lib.toCargoLibraries request) s
      ⟨request, false, [], none⟩ := by
  cases request with
  | publish body => exact safe_answered ⟨rfl, fun _ => rfl⟩ rfl
  | delete paths =>
    refine safe_bind (safe_harmless (harmless_deletePackagePaths paths) rfl rfl)
      (fun _ t q h => ⟨h.2, fun _ body hbody => ?_⟩) fun e t q h => ⟨h.2, fun hr => by cases hr⟩
    cases h.1.symm.trans hbody

/-- What is pending at the repository is pending for a request, and a request that records a version
is the one that has stored it. -/
theorem tracked_record (label : CargoStep) (hosted : CargoHosted) {k : String × String}
    (hk : k ∈ (record label (s, p) hosted).1.pending) :
    k ∈ (record label (s, p) hosted).2.pending ∨ k ∈ s.pending ∧ k ∉ p.pending := by
  unfold record at hk ⊢
  grind

def Tracked (_ : CargoStep) (effect : Bool → CargoSite × CargoTask → CargoSite × CargoTask) :
    Prop :=
  ∀ c s p k, k ∈ (effect c (s, p)).1.pending →
    k ∈ (effect c (s, p)).2.pending ∨ k ∈ s.pending ∧ k ∉ p.pending

theorem tracked_onSite {α : Type} (m : CargoM α) : (onSite m).Steps Tracked :=
  steps_zoom (steps_of_forall fun label _ _ _ _ _ hk => tracked_record label _ hk)

theorem tracked_siteRequest (request : CargoRequest) :
    (siteRequest lib.toCargoLibraries request).Steps Tracked := by
  cases request with
  | publish body =>
    have hanswer : ∀ failed, (Resumption.act (.answer failed) fun _ t => (.ok (), t) :
        SiteM Unit).Steps Tracked := by
      refine fun failed => steps_act fun c s p k hk => ?_
      exact (Decidable.em (k ∈ p.pending)).imp_right fun hnot => ⟨hk, hnot⟩
    refine steps_tryCatch (steps_bind (tracked_onSite _) fun _ => hanswer false) fun e => ?_
    exact steps_bind (hanswer true) fun _ => steps_throw e
  | delete paths => exact steps_bind (tracked_onSite _) fun _ => steps_pure _

/-- **Once all requests have ended** the index of every crate is exact, and every publish without an
error is in it. -/
theorem index_exact {backend : Backend} {as : List (Pool.Action CargoRequest Bool)}
    {s : Pool CargoSite (Thread CargoStep Bool CargoSite CargoTask CargoRepositoryError Unit)}
    (hguard : StepsOk (siteProgram lib.toCargoLibraries).step
      (Program.Guarded (Meets (cargoGuard lib))) ⟨.new backend, []⟩ as)
    (hrun : run (siteProgram lib.toCargoLibraries).step ⟨.new backend, []⟩ as = some s)
    (hended : ∀ p ∈ s.processes, p.task.hasEnded = true) :
    (∀ crate, isCrateName crate = true → IndexExact lib s.shared.hosted crate) ∧
      ∀ p ∈ s.processes, ∀ body, p.own.request = .publish body →
        p.task = Resumption.done (.ok ()) → Published lib s.shared.hosted body := by
  obtain ⟨hok, -, hsafe⟩ := safe_of_run (P := cargoProtocol lib) (Q := Ended lib)
    (fun r s t p hlater h => ⟨h.1, fun hr body hbody => (h.2 hr body hbody).of_later hlater⟩)
    (fun request s _ => safe_siteRequest request) (siteOk_new backend) hguard hrun
  have hend : ∀ (i : ℕ) (p : Thread CargoStep Bool CargoSite CargoTask CargoRepositoryError Unit),
      s.processes[i]? = some p → ∃ r, p.task = .done r ∧ Ended lib r s.shared p.own := by
    intro i p hp
    have hp' := hended p (List.mem_of_getElem? hp)
    have hsafe' := hsafe i p hp
    cases htask : p.task with
    | done r =>
      rw [htask] at hsafe'
      exact ⟨r, rfl, hsafe'⟩
    | step label effect rest =>
      rw [htask] at hp'
      cases hp'
  have hpending : s.shared.pending = [] := by
    refine List.eq_nil_iff_forall_not_mem.mpr fun k hk => ?_
    obtain ⟨i, p, hp, hholds⟩ := held_of_run (fun s k => k ∈ s.pending)
      (fun p k => k ∈ p.pending) (fun request => tracked_siteRequest request)
      (fun k hk => by cases hk) hrun hk
    obtain ⟨r, -, hnone, -⟩ := hend i p hp
    rw [hnone] at hholds
    cases hholds
  refine ⟨fun crate hcrate => hok.indexExact hpending hcrate, fun p hp body hbody htask => ?_⟩
  obtain ⟨i, hi⟩ := List.getElem?_of_mem hp
  obtain ⟨r, hr, -, hpublished⟩ := hend i p hi
  obtain rfl := Resumption.done.inj (hr.symm.trans htask)
  exact hpublished rfl body hbody

end Site


/-! ### A crate that is deleted -/

section Demo

def dependencyCode : PrefixCode IndexDependency :=
  (PrefixCode.pair (.pair (.pair .string .string) (.list .string))
    (.pair (.pair (.pair .bool .bool) .bool)
      (.pair (.pair (.option .string) (.option .string))
        (.pair (.option .string) (.option .string))))).map
    (fun d => (((d.name, d.req), d.features), (((d.isOptional, d.defaultFeatures),
      d.explicitNameInToml), ((d.target, d.kind), (d.registry, d.package)))))
    (fun t => some ⟨t.1.1.1, t.1.1.2, t.1.2, t.2.1.1.1, t.2.1.1.2, t.2.2.1.1, t.2.2.1.2,
      t.2.2.2.1, t.2.2.2.2, t.2.1.2⟩)
    (fun _ => rfl)

def entryCode : PrefixCode IndexEntry :=
  (PrefixCode.pair (.pair (.pair .string .string) (.list dependencyCode))
    (.pair (.pair .string (.list (.pair .string (.list .string))))
      (.pair (.pair .bool (.option .string)) .nat))).map
    (fun e => (((e.name, e.vers), e.deps), ((e.cksum, e.features), ((e.yanked, e.links), e.v))))
    (fun t => some ⟨t.1.1.1, t.1.1.2, t.1.2, t.2.1.1, t.2.1.2, t.2.2.1.1, t.2.2.1.2, t.2.2.2⟩)
    (fun _ => rfl)

def letter (b : UInt8) : Char := Char.ofNat (b.toNat + 256)

theorem toNat_letter (b : UInt8) : (letter b).toNat = b.toNat + 256 := by
  have hlt : b.toNat < 256 := b.toNat_lt
  have hvalid : (b.toNat + 256).isValidChar := .inl (by omega)
  rw [letter, Char.ofNat, dif_pos hvalid]
  rfl

theorem ofNat_letter (b : UInt8) : UInt8.ofNat ((letter b).toNat - 256) = b := by
  rw [toNat_letter, Nat.add_sub_cancel, UInt8.ofNat_toNat]

def fooMetadata : PublishMetadata := ⟨"foo", ⟨"1.0.0", by decide, by decide⟩, [], [], none, none⟩

def fooArchive : Bytes := [65]

def fooEntry : IndexEntry := buildIndexEntry fooMetadata (Sha256.hexText.hex fooArchive)

def fooJson : String :=
  "\x7b\"cksum\":\"41\",\"deps\":[],\"features\":\x7b\x7d,\"links\":null,\"name\":\"foo\"," ++
    "\"v\":2,\"vers\":\"1.0.0\",\"yanked\":false\x7d"

def entryText (e : IndexEntry) : String :=
  if e = fooEntry then fooJson else String.ofList ('#' :: (entryCode.encode e).map letter)

def textEntry (text : String) : Option IndexEntry :=
  match text.toList with
  | '#' :: letters => entryCode.read (letters.map fun ch => UInt8.ofNat (ch.toNat - 256))
  | _ => if text = fooJson then some fooEntry else none

/-- The entry that is known is written as JSON, and all others as letters. -/
def CargoLibraries.demo : CargoLibraries where
  sha := .hexText
  collation := .exact
  fromSlice bytes :=
    if bytes = intoBytes "\x7b\"name\":\"foo\",\"vers\":\"1.0.0\"\x7d" then .ok fooMetadata
    else .error "expected value"
  Value := IndexEntry
  vers e := some e.vers
  ofEntry e := e
  toString := entryText
  fromStr := textEntry

theorem trim_ne_nil {text : String} {ch : Char} {rest : List Char} (h : text.toList = ch :: rest)
    (hch : isWhitespace ch = false) : trim text ≠ [] := by
  simp_all [trim, List.dropWhile_cons_of_neg, List.reverse_eq_nil_iff, List.dropWhile_eq_nil_iff]

theorem toList_entryText {e : IndexEntry} (h : e ≠ fooEntry) :
    (entryText e).toList = '#' :: (entryCode.encode e).map letter := by
  rw [entryText, if_neg h, String.toList_ofList]

def LawfulLibraries.demo : LawfulLibraries where
  toCargoLibraries := .demo
  vers_ofEntry _ := rfl
  fromStr_toString e := by
    change textEntry (entryText e) = some e
    by_cases h : e = fooEntry
    · subst h
      decide
    grind [letter, UInt8.ofNat, List.map_map, List.map_id'', ofNat_letter, textEntry,
      toList_entryText, PrefixCode.read_encode]
  plain e := by
    change '\n' ∉ (entryText e).toList ∧ '\r' ∉ (entryText e).toList
    by_cases h : e = fooEntry
    · subst h
      decide
    · have hletters : ∀ ch ∈ (entryText e).toList, ch = '#' ∨ 256 ≤ ch.toNat := by
        intro ch hch
        rw [toList_entryText h] at hch
        rcases List.mem_cons.mp hch with rfl | hch
        · exact .inl rfl
        · obtain ⟨b, -, rfl⟩ := List.mem_map.mp hch
          rw [toNat_letter]
          exact .inr (Nat.le_add_left _ _)
      grind
  nonblank e := by
    change trim (entryText e) ≠ []
    by_cases h : e = fooEntry
    · subst h
      decide
    · exact trim_ne_nil (toList_entryText h) (by decide)
  eq_of_same a b _ _ h := beq_iff_eq.mp h

def publishFoo : PublishRequest where
  active := true
  authorized := true
  body :=
    let metadata := intoBytes "\x7b\"name\":\"foo\",\"vers\":\"1.0.0\"\x7d"
    [UInt8.ofNat metadata.length, 0, 0, 0] ++ metadata ++
      ([UInt8.ofNat fooArchive.length, 0, 0, 0] ++ fooArchive)

def publishAlone : List (Pool.Action CargoRequest Bool) :=
  [.start (.publish publishFoo), .start (.delete ["crates/bar"])] ++
    List.replicate 10 (.advance 0 false) ++ List.replicate 4 (.advance 1 false)

theorem index_exact_alone : ∃ s p,
    run (siteProgram .demo).step ⟨.new .local, []⟩ publishAlone = some s ∧
      s.processes[0]? = some p ∧ IndexExact .demo s.shared.hosted "foo" ∧
        Published .demo s.shared.hosted publishFoo := by
  have hrun : ((run (siteProgram .demo).step ⟨.new .local, []⟩ publishAlone).bind fun s =>
      if s.processes.all (·.task.hasEnded) then s.processes[0]?.map fun p =>
        (p.result, p.own.request) else none) =
      some (some (.ok ()), .publish publishFoo) := by decide
  obtain ⟨s, hs, hp⟩ := Option.bind_eq_some_iff.mp hrun
  split_ifs at hp with hended
  obtain ⟨p, hp, heq⟩ := Option.map_eq_some_iff.mp hp
  obtain ⟨hresult, hrequest⟩ := Prod.mk.inj heq
  obtain ⟨hexact, hpublished⟩ := @index_exact LawfulLibraries.demo _ _ _ (by decide) hs
    (List.all_eq_true.mp hended)
  exact ⟨s, p, hs, hp, hexact "foo" (by decide),
    hpublished p (List.mem_of_getElem? hp) publishFoo hrequest (Thread.of_result hresult)⟩

def publishAndDelete : List (Pool.Action CargoRequest Bool) :=
  [.start (.publish publishFoo)] ++ List.replicate 10 (.advance 0 false) ++
    [.start (.delete ["crates/foo/1.0.0/foo-1.0.0.crate"])] ++ List.replicate 4 (.advance 1 false)

/-- Its line stays in the index. -/
theorem not_indexExact_deleted : ¬ ∀ as s,
    run (siteProgram CargoLibraries.demo).step ⟨.new .local, []⟩ as = some s →
      (∀ p ∈ s.processes, p.task.hasEnded = true) →
        ∀ crate, isCrateName crate = true → IndexExact .demo s.shared.hosted crate := by
  intro h
  have hrun : (run (siteProgram CargoLibraries.demo).step ⟨.new .local, []⟩ publishAndDelete).any
      (fun s => s.processes.all (·.task.hasEnded) &&
        (s.shared.hosted.storage.objects.get (indexKey "foo") ==
            indexContent .demo [fooEntry] &&
          s.shared.hosted.storage.objects.get (archiveKey "foo" "1.0.0") == none)) = true := by
    decide
  obtain ⟨s, hs, hend⟩ := (Option.any_eq_true _ _).mp hrun
  simp only [Bool.and_eq_true, List.all_eq_true, beq_iff_eq] at hend
  obtain ⟨hended, hindex, harchive⟩ := hend
  obtain ⟨entries, hfile, -, hversions⟩ := h publishAndDelete s hs hended "foo" (by decide)
  have hmem : "1.0.0" ∈ entries.map (·.vers) := by
    rw [← vers_of_indexContent (hindex.symm.trans hfile)]
    exact List.mem_cons_self
  obtain ⟨content, hcontent⟩ := (hversions "1.0.0").1.mp hmem
  rw [HasArchive, harchive] at hcontent
  cases hcontent

end Demo

end Pkgly.Cargo
