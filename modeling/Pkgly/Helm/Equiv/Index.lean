import Pkgly.Helm.Equiv.Publish
import Pkgly.Helm.Index

/-!
# Is the index fresh, and the caller's own?

An index that is answered is `ServedFresh` if it is that of rows no older than what had been left by
the publishes and deletions that had been answered when the request started, with the address of
that very request.  The code does so in every run (`index_fresh`) in which

* a request finds no index in the cache that has been rendered for another address,
* a request does not cache its index after the cache has been dropped since it read the rows,
* a publish or a deletion that is answered with an error has not changed rows since it last dropped
  the cache (`indexGuard`).

With two addresses it does not (`not_servedFresh_twoAddresses`).
-/

namespace Pkgly.Helm

open Resumption

variable {lib : IndexLibraries} {α β : Type}

/-! ### What is promised -/

/-- The content is an index of the rows, with the address of the request, and no older than what
had been left when the request started. -/
def ServedFresh (lib : IndexLibraries) (site : HelmSite) (task : HelmTask) (content : String) :
    Prop :=
  ∃ n rows generated, task.floor ≤ n ∧ site.history[n]? = some rows ∧
    renderIndex lib task.baseUrl rows generated = .ok content

def indexGuard (label : HelmStep) (_ : Bool) (s : HelmSite) (p : HelmTask) : Prop :=
  match label with
  | .lookIndex => s.hosted.indexCache.all (fun cached =>
      cached.isExpired s.now p.ttl || cached.baseUrl == p.baseUrl) = true
  | .storeIndex => s.fresh ≤ p.fetched
  | .answer true => p.written.all (· ≤ s.fresh) = true
  | _ => True

instance (label : HelmStep) (c : Bool) (s : HelmSite) (p : HelmTask) :
    Decidable (indexGuard label c s p) := by
  unfold indexGuard
  split <;> infer_instance

/-! ### The invariant -/

/-- The cached index is no older than the last dropping of the cache, which is no older than what
has been left. -/
structure SiteOk (lib : IndexLibraries) (s : HelmSite) : Prop where
  current : s.history.getLast? = some (indexRows s.hosted.catalogue)
  fresh : s.fresh < s.history.length
  floor : s.floor ≤ s.fresh
  cached : ∀ cached, s.hosted.indexCache = some cached → s.fresh ≤ cached.state ∧
    ∃ rows generated, s.history[cached.state]? = some rows ∧
      renderIndex lib cached.baseUrl rows generated = .ok cached.content

/-- What no step takes away. -/
structure Later (s t : HelmSite) : Prop where
  history : s.history <+: t.history
  fresh : s.fresh ≤ t.fresh
  floor : s.floor ≤ t.floor

theorem later_refl (s : HelmSite) : Later s s := ⟨List.prefix_refl _, le_refl _, le_refl _⟩

variable {s t : HelmSite}

theorem Later.trans {u : HelmSite} (h : Later s t) (h' : Later t u) : Later s u :=
  ⟨h.history.trans h'.history, h.fresh.trans h'.fresh, h.floor.trans h'.floor⟩

theorem Later.getElem? (h : Later s t) {n : ℕ} {rows : IndexRows}
    (hn : s.history[n]? = some rows) : t.history[n]? = some rows := by
  obtain ⟨new, hnew⟩ := h.history
  grind

theorem ServedFresh.of_later {p : HelmTask} {content : String}
    (h : ServedFresh lib s p content) (hlater : Later s t) : ServedFresh lib t p content := by
  obtain ⟨n, rows, generated, hfloor, hrows, hrender⟩ := h
  exact ⟨n, rows, generated, hfloor, hlater.getElem? hrows, hrender⟩

def indexProtocol (lib : IndexLibraries) : Protocol HelmStep Bool HelmSite HelmTask where
  guard := indexGuard
  inv := SiteOk lib
  keeps := Later
  keeps_refl := later_refl
  keeps_trans _ _ _ := Later.trans

theorem siteOk_load (hosted : HelmHosted) (storageName : String) (now : ℕ) :
    SiteOk lib (.load hosted storageName now) where
  current := rfl
  fresh := Nat.zero_lt_one
  floor := le_refl _
  cached _ h := by cases h

def TaskOk (s : HelmSite) (p : HelmTask) : Prop := ∀ n, p.written = some n → n < s.history.length

/-- The cache has been dropped since the request wrote. -/
def Clean (s : HelmSite) (p : HelmTask) : Prop := ∀ n, p.written = some n → n ≤ s.fresh

theorem TaskOk.of_later {p : HelmTask} (h : TaskOk s p) (hlater : Later s t) :
    TaskOk t p := fun n hn => (h n hn).trans_le hlater.history.length_le

theorem Clean.of_later {p : HelmTask} (h : Clean s p) (hlater : Later s t) :
    Clean t p := fun n hn => (h n hn).trans hlater.fresh

/-! ### Steps on the repository -/

def Quiet (label : HelmStep) (effect : Bool → HelmHosted → HelmHosted) : Prop :=
  label ≠ .invalidate ∧ ∀ c h, (effect c h).indexCache = h.indexCache ∧
    indexRows (effect c h).catalogue = indexRows h.catalogue

def Regular (label : HelmStep) (effect : Bool → HelmHosted → HelmHosted) : Prop :=
  ∀ c h, if label = .invalidate then
    (effect c h).indexCache = none ∧ indexRows (effect c h).catalogue = indexRows h.catalogue
    else (effect c h).indexCache = h.indexCache

theorem Quiet.regular {label : HelmStep} {effect : Bool → HelmHosted → HelmHosted}
    (h : Quiet label effect) : Regular label effect := by
  intro c hosted
  rw [if_neg h.1]
  exact (h.2 c hosted).1

section Record

variable {s : HelmSite} {p : HelmTask} {label : HelmStep} {effect : Bool → HelmHosted → HelmHosted}

theorem record_quiet (h : Quiet label effect) (c : Bool) :
    record label (s, p) (effect c s.hosted) = ({ s with hosted := effect c s.hosted }, p) := by
  unfold record
  rw [if_pos (h.2 c s.hosted).2, if_neg h.1]

theorem siteOk_quiet (hok : SiteOk lib s) (h : Quiet label effect) (c : Bool) :
    SiteOk lib { s with hosted := effect c s.hosted } where
  current := by
    rw [(h.2 c s.hosted).2]
    exact hok.current
  fresh := hok.fresh
  floor := hok.floor
  cached cached hcached := by
    rw [(h.2 c s.hosted).1] at hcached
    exact hok.cached cached hcached

theorem siteOk_record (hok : SiteOk lib s) (h : Regular label effect) (c : Bool) :
    SiteOk lib (record label (s, p) (effect c s.hosted)).1 ∧
      Later s (record label (s, p) (effect c s.hosted)).1 := by
  have hlast : s.history.length - 1 < s.history.length := by
    have := hok.fresh
    omega
  have heffect := h c s.hosted
  unfold record
  by_cases hrows : indexRows (effect c s.hosted).catalogue = indexRows s.hosted.catalogue
  · rw [if_pos hrows]
    by_cases hlabel : label = .invalidate
    · rw [if_pos hlabel] at heffect ⊢
      refine ⟨⟨?_, hlast, ?_, ?_⟩, ⟨List.prefix_refl _, ?_, le_refl _⟩⟩
      · rw [hrows]
        exact hok.current
      · exact hok.floor.trans (Nat.le_sub_one_of_lt hok.fresh)
      · intro cached hcached
        rw [heffect.1] at hcached
        cases hcached
      · exact Nat.le_sub_one_of_lt hok.fresh
    · rw [if_neg hlabel] at heffect ⊢
      refine ⟨⟨?_, hok.fresh, hok.floor, ?_⟩, ⟨List.prefix_refl _, le_refl _, le_refl _⟩⟩
      · rw [hrows]
        exact hok.current
      · intro cached hcached
        rw [heffect] at hcached
        exact hok.cached cached hcached
  · -- the rows change, and the cache stays
    have hlabel : label ≠ .invalidate := by
      intro hlabel
      rw [if_pos hlabel] at heffect
      exact hrows heffect.2
    rw [if_neg hlabel] at heffect
    rw [if_neg hrows]
    have hlater : Later s { s with
        hosted := effect c s.hosted,
        history := s.history ++ [indexRows (effect c s.hosted).catalogue] } :=
      ⟨List.prefix_append _ _, le_refl _, le_refl _⟩
    refine ⟨⟨List.getLast?_concat, ?_, hok.floor, ?_⟩, hlater⟩
    · rw [List.length_append]
      exact Nat.lt_add_right _ hok.fresh
    · intro cached hcached
      rw [heffect] at hcached
      obtain ⟨hfresh, rows, generated, hstate, hrender⟩ := hok.cached cached hcached
      exact ⟨hfresh, rows, generated, hlater.getElem? hstate, hrender⟩

theorem taskOk_record (hok : TaskOk s p) (hosted : HelmHosted) :
    TaskOk (record label (s, p) hosted).1 (record label (s, p) hosted).2 := by
  unfold record
  split_ifs with hrows hlabel
  · exact hok
  · exact hok
  · intro n hn
    cases hn
    rw [List.length_append]
    exact Nat.lt_succ_self _

theorem clean_invalidate (hok : TaskOk s p) :
    Clean (record .invalidate (s, p) { s.hosted with indexCache := none }).1
      (record .invalidate (s, p) { s.hosted with indexCache := none }).2 := by
  unfold record
  rw [if_pos rfl, if_pos rfl]
  exact fun n hn => Nat.le_sub_one_of_lt (hok n hn)

end Record

/-! ### Requests to the repository -/

section Rules

theorem safe_quiet {R : HelmSite → HelmTask → Prop} {m : HelmM α}
    (hR : ∀ s t p, Later s t → R s p → R t p) (hm : m.Steps Quiet) {s : HelmSite} {p : HelmTask}
    (h : R s p) : Safe (indexProtocol lib) (fun _ t q => R t q) (onSite m) s p := by
  induction m generalizing s p with
  | done r => exact h
  | step label effect rest ih =>
    intro t hlater hok c _
    have hstep := record_quiet (s := t) (p := p) hm.1 c
    change SiteOk lib (record label (t, p) (effect c t.hosted)).1 ∧
      Later t (record label (t, p) (effect c t.hosted)).1 ∧ _
    refine ⟨?_, ?_, ?_⟩
    · rw [hstep]
      exact siteOk_quiet hok hm.1 c
    · rw [hstep]
      exact ⟨List.prefix_refl _, le_refl _, le_refl _⟩
    · have hRt := hR s t p hlater h
      have hRstep : R { t with hosted := effect c t.hosted } p :=
        hR t _ p ⟨List.prefix_refl _, le_refl _, le_refl _⟩ hRt
      have hrest := ih c t.hosted (hm.2 c t.hosted) hRstep
      grind [Safe, indexProtocol, onSite, record]

theorem safe_regular {m : HelmM α} (hm : m.Steps Regular) {s : HelmSite} {p : HelmTask}
    (h : TaskOk s p) : Safe (indexProtocol lib) (fun _ t q => TaskOk t q) (onSite m) s p := by
  induction m generalizing s p with
  | done r => exact h
  | step label effect rest ih =>
    intro t hlater hok c _
    obtain ⟨hok', hlater'⟩ := siteOk_record (p := p) hok hm.1 c
    exact ⟨hok', hlater', ih c t.hosted (hm.2 c t.hosted)
      (taskOk_record (h.of_later hlater) _)⟩

def EndsClean : Except HelmRepositoryError α → HelmSite → HelmTask → Prop :=
  fun r t q => TaskOk t q ∧ ∀ a, r = .ok a → Clean t q

/-- Whatever has been written before, a computation that ends well drops the cache. -/
def Invalidates (lib : IndexLibraries) (m : HelmM α) : Prop :=
  ∀ s p, TaskOk s p → Safe (indexProtocol lib) EndsClean (onSite m) s p

/-- A computation that ends well drops the cache after it has written. -/
def EndsWell (lib : IndexLibraries) (m : HelmM α) : Prop :=
  ∀ s p, TaskOk s p → Clean s p → Safe (indexProtocol lib) EndsClean (onSite m) s p

variable {m : HelmM α} {k : α → HelmM β}

theorem Invalidates.endsWell (hm : Invalidates lib m) : EndsWell lib m :=
  fun s p hok _ => hm s p hok

theorem endsWell_pure (a : α) : EndsWell lib (pure a) :=
  fun _ _ hok hclean => ⟨hok, fun _ _ => hclean⟩

theorem invalidates_throw (e : HelmRepositoryError) :
    Invalidates lib (throw e : HelmM α) :=
  fun _ _ hok => ⟨hok, fun _ h => by cases h⟩

theorem endsWell_bind (hm : m.Steps Quiet) (hk : ∀ a, EndsWell lib (k a)) :
    EndsWell lib (m >>= k) := by
  intro s p hok hclean
  rw [onSite, zoom_bind]
  have hquiet : Safe (indexProtocol lib) (fun _ t q => TaskOk t q ∧ Clean t q) (onSite m) s p :=
    safe_quiet (fun _ _ _ hlater h => ⟨h.1.of_later hlater, h.2.of_later hlater⟩) hm ⟨hok, hclean⟩
  exact safe_bind hquiet (fun a t q h => hk a t q h.1 h.2)
    (fun e t q h => ⟨h.1, fun _ hr => by cases hr⟩)

theorem invalidates_bind (hm : m.Steps Regular) (hk : ∀ a, Invalidates lib (k a)) :
    Invalidates lib (m >>= k) := by
  intro s p hok
  rw [onSite, zoom_bind]
  exact safe_bind (safe_regular hm hok) (fun a t q h => hk a t q h)
    (fun e t q h => ⟨h, fun _ hr => by cases hr⟩)

theorem invalidates_tryCatch {h : HelmRepositoryError → HelmM α} (hm : Invalidates lib m)
    (hh : ∀ e, Invalidates lib (h e)) : Invalidates lib (tryCatch m h) := by
  intro s p hok
  rw [onSite, zoom_handle]
  exact safe_tryCatch (hm s p hok) (fun a t q hends => hends)
    (fun e t q hends => hh e t q hends.1)

theorem invalidates_invalidateIndexCache : Invalidates lib invalidateIndexCache := by
  intro s p hok t hlater hokt c _
  have hregular : Regular .invalidate
      fun (_ : Bool) (h : HelmHosted) => { h with indexCache := none } :=
    fun c h => ⟨rfl, rfl⟩
  obtain ⟨hok', hlater'⟩ := siteOk_record (p := p) hokt hregular c
  have htask := hok.of_later hlater
  exact ⟨hok', hlater', taskOk_record htask _, fun _ _ => clean_invalidate htask⟩

theorem invalidates_bind_endsWell (hm : Invalidates lib m) (hk : ∀ a, EndsWell lib (k a)) :
    Invalidates lib (m >>= k) := by
  intro s p hok
  rw [onSite, zoom_bind]
  exact safe_bind (hm s p hok) (fun a t q h => hk a t q h.1 (h.2 a rfl))
    (fun e t q h => ⟨h.1, fun _ hr => by cases hr⟩)

end Rules

/-! ### Primitive steps -/

section Primitives

variable {path : StoragePath} {content : Bytes}

theorem steps_regular {m : HelmM α} (hm : m.Steps Quiet) : m.Steps Regular :=
  hm.mono fun _ _ => Quiet.regular

theorem quiet_readConfig : readConfig.Steps Quiet :=
  steps_act ⟨by decide, fun _ _ => ⟨rfl, rfl⟩⟩

theorem quiet_readName : readName.Steps Quiet :=
  steps_act ⟨by decide, fun _ _ => ⟨rfl, rfl⟩⟩

theorem quiet_storage {f : Bool → HelmHosted → Except HelmRepositoryError α × HelmHosted}
    (h : ∀ c s, ∃ storage, (f c s).2 = { s with storage }) :
    (Resumption.act .storage f : HelmM α).Steps Quiet := by
  refine steps_act ⟨by decide, fun c s => ?_⟩
  obtain ⟨storage, hs⟩ := h c s
  beta_reduce
  rw [hs]
  exact ⟨rfl, rfl⟩

theorem quiet_saveFile : (saveFile content path).Steps Quiet := by
  refine quiet_storage fun c s => ?_
  aesop

theorem quiet_deleteFile : (deleteFile path).Steps Quiet := by
  refine quiet_storage fun c s => ?_
  aesop

theorem quiet_openFile : (openFile path).Steps Quiet := by
  refine quiet_storage fun c s => ?_
  aesop

theorem regular_statement {f : Catalogue HelmVersion → Option (α × Catalogue HelmVersion)} :
    (statement f).Steps Regular := by
  refine steps_act fun c s => ?_
  grind

theorem quiet_query {f : Catalogue HelmVersion → α} : (query f).Steps Quiet := by
  refine steps_act ⟨by decide, fun c s => ?_⟩
  beta_reduce
  split_ifs
  · exact ⟨rfl, rfl⟩
  · exact ⟨rfl, rfl⟩

theorem quiet_ofExcept {result : Except HelmRepositoryError α} :
    (ofExcept result).Steps Quiet := by
  cases result with
  | ok a => exact steps_pure a
  | error e => exact steps_throw e

theorem quiet_found {message : String} {a? : Option α} : (found message a?).Steps Quiet := by
  cases a? with
  | none => exact steps_throw _
  | some a => exact steps_pure a

end Primitives

/-! ### Publishes -/

section Publishes

variable {hlib : HelmLibraries} {parsed : ParsedChartArchive} {artifact : ChartArtifactPath}
  {path : StoragePath} {userId : ℤ}

theorem regular_update {id : ℕ} {row : HelmVersion} : (update id row).Steps Regular :=
  steps_bind regular_statement fun _ => regular_statement

theorem regular_insert {c : Collation} {projectId : ℕ} {version path : String}
    {row : HelmVersion} : (insert c projectId version path row).Steps Regular :=
  steps_bind regular_statement fun _ => regular_statement

theorem regular_findOrCreateProject {name : String} :
    (findOrCreateProject hlib name).Steps Regular := by
  refine steps_bind (steps_regular quiet_query) fun project? => ?_
  grind [steps_pure, regular_statement]

theorem regular_writeVersion {project : DBProject}
    {existing : Option (DBProjectVersion HelmVersion)} :
    (writeVersion hlib parsed artifact path userId project existing).Steps Regular := by
  cases existing with
  | some v =>
    grind [steps_bind, steps_regular, quiet_ofExcept, quiet_readConfig, regular_update, steps_pure,
      steps_throw, Resumption.Steps, Regular, writeVersion]
  | none => exact steps_bind regular_insert fun _ => steps_pure true

theorem regular_persistChartArchive :
    (persistChartArchive hlib parsed artifact path userId).Steps Regular :=
  steps_bind regular_findOrCreateProject fun _ =>
    steps_bind (steps_regular quiet_query) fun _ => regular_writeVersion

theorem regular_persistProvenance :
    (persistProvenance hlib artifact path userId).Steps Regular := by
  grind [steps_bind, steps_regular, quiet_query, quiet_found, quiet_ofExcept, regular_update,
    Resumption.Steps, Regular, persistProvenance]

theorem invalidates_answer (response : α) :
    Invalidates lib (invalidateIndexCache >>= fun _ => pure response) :=
  invalidates_bind_endsWell invalidates_invalidateIndexCache fun _ => endsWell_pure response

theorem endsWell_handlePutChart {userId? : Option ℤ} {body : Bytes} :
    EndsWell lib (handlePutChart hlib userId? artifact body) := by
  refine endsWell_bind quiet_readConfig fun config => ?_
  by_cases hmode : config.mode = .http
  · rw [if_neg (not_not.mpr hmode)]
    cases userId? with
    | none => exact endsWell_pure _
    | some userId =>
      by_cases hprovenance : artifact.isProvenance = true
      · simp only [if_pos hprovenance]
        refine endsWell_bind quiet_saveFile fun _ => Invalidates.endsWell ?_
        exact invalidates_bind regular_persistProvenance fun _ => invalidates_answer _
      · simp only [if_neg hprovenance]
        refine endsWell_bind quiet_ofExcept fun parsed => ?_
        refine endsWell_bind quiet_saveFile fun _ => Invalidates.endsWell ?_
        refine invalidates_bind (steps_tryCatch regular_persistChartArchive fun e => ?_)
          fun created => invalidates_answer _
        refine steps_bind ?_ fun _ => steps_throw e
        exact steps_tryCatch (steps_regular quiet_deleteFile) fun _ => steps_pure _
  · rw [if_pos hmode]
    exact endsWell_pure _

theorem regular_storeProvenance {prov : Option FormFile} :
    (storeProvenance hlib userId prov).Steps Regular := by
  cases prov with
  | none => exact steps_pure _
  | some file =>
    exact steps_bind (steps_regular quiet_saveFile) fun _ => regular_persistProvenance

theorem invalidates_storeForm {chart : FormFile} {prov : Option FormFile} :
    Invalidates lib (storeForm hlib userId chart parsed prov) := by
  refine invalidates_bind (steps_regular quiet_saveFile) fun _ => ?_
  simp [invalidates_bind, regular_persistChartArchive, regular_storeProvenance, invalidates_answer]

theorem endsWell_handleChartmuseumUpload {userId? : Option ℤ} {contentType : String}
    {fields? : Option (List (Option FormField))} :
    EndsWell lib (handleChartmuseumUpload hlib userId? contentType fields?) := by
  refine endsWell_bind quiet_readConfig fun config => ?_
  by_cases hmode : config.mode = .http
  · rw [if_neg (not_not.mpr hmode)]
    cases userId? with
    | none => exact endsWell_pure _
    | some userId =>
      by_cases htype : startsWith "multipart/form-data" contentType = true
      · simp only [if_pos htype]
        cases fields? with
        | none => exact (invalidates_throw _).endsWell
        | some fields =>
          exact endsWell_bind quiet_ofExcept fun form => invalidates_storeForm.endsWell
      · simp only [if_neg htype]
        exact endsWell_pure _
  · rw [if_pos hmode]
    exact endsWell_pure _

variable {push : ManifestPush} {repositoryName : String}

theorem quiet_storePush : (storePush hlib push).Steps Quiet := by
  refine steps_bind quiet_saveFile fun _ => ?_
  split_ifs
  · exact steps_pure _
  · exact quiet_saveFile

theorem quiet_admitPush {overwrite : Bool} : (admitPush hlib overwrite push).Steps Quiet := by
  refine quiet_storage fun c s => ⟨s.storage, ?_⟩
  split_ifs
  · rfl
  · rfl

theorem quiet_putManifest : (putManifest hlib push).Steps Quiet := by
  grind [steps_bind, quiet_query, quiet_readConfig, steps_pure, quiet_admitPush, steps_throw,
    quiet_storePush, Resumption.Steps, Quiet, putManifest]

theorem quiet_readFile {missing directory : String} :
    (readFile path missing directory).Steps Quiet := by
  grind [steps_bind, quiet_openFile, steps_throw, steps_pure, Resumption.Steps, Quiet, readFile]

theorem quiet_readLayers {manifest : Manifest} :
    (readLayers hlib repositoryName manifest).Steps Quiet := by
  grind [steps_bind, quiet_ofExcept, quiet_readFile, quiet_readConfig, steps_pure, Resumption.Steps,
    Quiet, readLayers]

theorem quiet_readChart : (readChart hlib path repositoryName).Steps Quiet := by
  refine steps_bind quiet_readFile fun bytes => ?_
  grind [steps_pure, steps_throw, steps_bind, quiet_readLayers]

theorem quiet_deleteChart {http : Bool} : (deleteChart http path).Steps Quiet := by
  grind [deleteChart, steps_tryCatch, quiet_deleteFile, steps_pure]

theorem invalidates_undoPush {http : Bool} {reference digest : String} {e : HelmRepositoryError} :
    Invalidates lib (undoPush http path repositoryName reference digest e) := by
  unfold undoPush
  split
  · exact invalidates_bind (steps_regular quiet_deleteChart)
      fun _ => invalidates_invalidateIndexCache
  · refine invalidates_bind (steps_regular quiet_deleteChart) fun _ => ?_
    refine invalidates_bind ?_ fun _ => invalidates_throw _
    exact steps_regular (steps_bind quiet_deleteFile fun _ => quiet_deleteFile)

theorem invalidates_recordPush {reference : String} {bytes chart : Bytes} : Invalidates lib
      (recordPush hlib path repositoryName reference userId bytes chart parsed) := by
  refine invalidates_bind (steps_regular quiet_readConfig) fun config => ?_
  refine invalidates_bind ?_ fun _ => invalidates_tryCatch ?_ fun e => invalidates_undoPush
  · unfold saveChart
    split_ifs
    · exact steps_regular quiet_saveFile
    · exact steps_pure _
  · exact invalidates_bind regular_persistChartArchive fun _ => invalidates_invalidateIndexCache

theorem endsWell_processHelmManifestPush :
    EndsWell lib (processHelmManifestPush hlib path userId) := by
  unfold processHelmManifestPush
  split
  · exact endsWell_pure _
  · split_ifs
    · exact endsWell_pure _
    refine endsWell_bind quiet_readChart fun read => ?_
    cases read with
    | none => exact endsWell_pure _
    | some read =>
      exact (invalidates_bind_endsWell invalidates_recordPush
        fun _ => endsWell_pure _).endsWell

end Publishes

section Answers

variable {hlib : HelmLibraries} {s : HelmSite} {p : HelmTask}

theorem endsWell_handlePutOci {push : ManifestPush} : EndsWell lib (handlePutOci hlib push) := by
  refine endsWell_bind quiet_readConfig fun config => ?_
  by_cases hmode : config.mode = .oci
  · rw [if_neg (not_not.mpr hmode)]
    refine endsWell_bind quiet_putManifest fun stored => ?_
    match stored with
    | none => exact endsWell_pure _
    | some false => exact endsWell_pure _
    | some true =>
      cases push.userId with
      | none => exact endsWell_pure _
      | some userId =>
        intro s p hok hclean
        rw [onSite, zoom_bind]
        refine safe_bind (endsWell_processHelmManifestPush s p hok hclean) (fun done? t q h => ?_)
          (fun e t q h => ⟨h.1, fun _ hr => by cases hr⟩)
        cases done? with
        | none => exact ⟨h.1, fun _ _ => h.2 _ rfl⟩
        | some _ => exact ⟨h.1, fun _ _ => h.2 _ rfl⟩
  · rw [if_pos hmode]
    exact endsWell_pure _

theorem endsWell_publish (request : PublishRequest) : EndsWell lib (publish hlib request) := by
  cases request with
  | putChart userId artifact body => exact endsWell_handlePutChart
  | chartmuseumUpload userId contentType fields => exact endsWell_handleChartmuseumUpload
  | putOci push => exact endsWell_handlePutOci

theorem quiet_deletePaths (paths : List StoragePath) : (deletePaths paths).Steps Quiet := by
  induction paths with
  | nil => exact steps_pure _
  | cons path paths ih => exact steps_bind quiet_deleteFile fun _ => ih

theorem regular_deleteEntry {name version : String} :
    (deleteEntry hlib name version).Steps Regular := by
  refine steps_bind (steps_regular quiet_query) fun _ => ?_
  refine steps_bind (steps_regular quiet_found) fun project => ?_
  grind [steps_bind, steps_regular, quiet_query, quiet_found, quiet_ofExcept, quiet_deletePaths,
    regular_statement, deleteEmptyProject, steps_pure]

theorem regular_deleteEntries (entries : List (String × String)) :
    (deleteEntries hlib entries).Steps Regular := by
  induction entries with
  | nil => exact steps_pure _
  | cons entry entries ih => exact steps_bind regular_deleteEntry fun _ => ih

theorem endsWell_deleteChartVersions {entries : List (String × String)} :
    EndsWell lib (deleteChartVersions hlib entries) := by
  unfold deleteChartVersions
  split_ifs
  · exact endsWell_pure _
  · exact (invalidates_bind (regular_deleteEntries entries)
      fun _ => invalidates_invalidateIndexCache).endsWell

theorem regular_reload {stored : Option (String × HelmRepositoryConfig)} :
    (reload stored).Steps Regular := by
  refine steps_bind (steps_regular quiet_query) fun _ => ?_
  match stored with
  | none => exact steps_pure _
  | some (name, config) =>
    refine steps_bind (steps_regular quiet_query) fun _ => ?_
    refine steps_bind (steps_act fun _ _ => rfl) fun _ => ?_
    refine steps_bind (steps_act fun _ _ => rfl) fun _ => ?_
    exact steps_act fun _ _ => ⟨rfl, rfl⟩

theorem siteOk_answer (hok : SiteOk lib s) (hclean : Clean s p) :
    SiteOk lib { s with floor := max s.floor (p.written.getD 0) } where
  current := hok.current
  fresh := hok.fresh
  floor := by
    refine max_le hok.floor ?_
    cases hwritten : p.written with
    | none => exact Nat.zero_le _
    | some n => exact hclean n hwritten
  cached := hok.cached

/-- What a request answers: an index that is fresh, or none. -/
def Served (lib : IndexLibraries) :
    Except HelmRepositoryError (Option String) → HelmSite → HelmTask → Prop :=
  fun r t q => ∀ content, r = .ok (some content) → ServedFresh lib t q content

theorem safe_answered {m : HelmM α} (hm : EndsWell lib m) (hok : TaskOk s p) (hclean : Clean s p) :
    Safe (indexProtocol lib) (Served lib) (answered m) s p := by
  unfold answered
  refine safe_tryCatch (Q := fun r t q => Served lib r t q) ?_ (fun a t q h => h) ?_
  · refine safe_bind (hm s p hok hclean) (fun a t q h => ?_) (fun e t q h => ?_)
    · intro u hlater hoku c _
      have hcleanu : Clean u q := (h.2 a rfl).of_later hlater
      exact ⟨siteOk_answer hoku hcleanu, ⟨List.prefix_refl _, le_refl _, le_max_left _ _⟩,
        fun content hr => by cases hr⟩
    · exact fun content hr => by cases hr
  · intro e t q _ u hlater hoku c hguard
    have hcleanu : Clean u q := by
      intro n hn
      have hle : q.written.all (· ≤ u.fresh) = true := hguard
      rw [hn] at hle
      simpa using hle
    exact ⟨siteOk_answer hoku hcleanu, ⟨List.prefix_refl _, le_refl _, le_max_left _ _⟩,
      fun content hr => by cases hr⟩

end Answers

/-! ### Requests for the index -/

section Index

variable {s : HelmSite} {p : HelmTask}

def StartedBefore (t : HelmSite) (q : HelmTask) : Prop := q.floor ≤ t.floor

theorem StartedBefore.of_later {s t : HelmSite} {p : HelmTask} (h : StartedBefore s p)
    (hlater : Later s t) : StartedBefore t p :=
  le_trans (show p.floor ≤ s.floor from h) hlater.floor

structure Addressed (baseUrl : String) (ttl : Option ℕ) (t : HelmSite) (q : HelmTask) : Prop where
  started : StartedBefore t q
  baseUrl : q.baseUrl = baseUrl
  ttl : q.ttl = ttl

variable {baseUrl : String} {ttl : Option ℕ} {request : IndexRequest}

theorem Addressed.of_later {s t : HelmSite} {p : HelmTask}
    (h : Addressed baseUrl ttl s p) (hlater : Later s t) : Addressed baseUrl ttl t p :=
  ⟨h.started.of_later hlater, h.baseUrl, h.ttl⟩

theorem safe_read {R : HelmSite → HelmTask → Prop} {label : HelmStep}
    {f : HelmSite × HelmTask → α} (hR : ∀ s t p, Later s t → R s p → R t p) (h : R s p) :
    Safe (indexProtocol lib) (fun _ t q => R t q)
      (.act label (fun _ t => (.ok (f t), t)) : SiteM α) s p := by
  intro t hlater hok c _
  exact ⟨hok, later_refl t, hR s t p hlater h⟩

theorem safe_computeRepositoryBase (h : StartedBefore s p) :
    Safe (indexProtocol lib) (fun _ t q => StartedBefore t q) (computeRepositoryBase request)
      s p := by
  have hstable : ∀ s t p, Later s t → StartedBefore s p → StartedBefore t p :=
    fun _ _ _ hlater h => h.of_later hlater
  refine safe_bind (safe_quiet hstable quiet_readConfig h) (fun config t q h => ?_)
    (fun e t q h => h)
  cases config.publicBaseUrl with
  | some url => exact h
  | none =>
    refine safe_bind (safe_quiet hstable quiet_readName h) (fun name t q h => ?_)
      (fun e t q h => h)
    exact safe_read hstable h

theorem safe_lookIndex (h : Addressed baseUrl ttl s p) :
    Safe (indexProtocol lib) (fun r t q => Addressed baseUrl ttl t q ∧ Served lib r t q)
      (lookIndex ttl) s p := by
  intro t hlater hok c hguard
  have haddressed := h.of_later hlater
  refine ⟨hok, later_refl t, haddressed, fun content hr => ?_⟩
  obtain ⟨cached, hfound, rfl⟩ := Option.map_eq_some_iff.mp (Except.ok.inj hr)
  obtain ⟨hcached, hfresh⟩ := Option.filter_eq_some_iff.mp hfound
  have hexpired : cached.isExpired t.now p.ttl = false := by
    rw [haddressed.ttl]
    exact Bool.not_eq_true' _ ▸ hfresh
  have hbase : cached.baseUrl = p.baseUrl := by
    have hhit : t.hosted.indexCache.all (fun cached =>
      cached.isExpired t.now p.ttl || cached.baseUrl == p.baseUrl) = true := hguard
    rw [hcached, Option.all_some, hexpired, Bool.false_or, beq_iff_eq] at hhit
    exact hhit
  obtain ⟨hstate, rows, generated, hrows, hrender⟩ := hok.cached cached hcached
  rw [hbase] at hrender
  exact ⟨cached.state, rows, generated,
    (haddressed.started.trans hok.floor).trans hstate, hrows, hrender⟩

structure Rendered (lib : IndexLibraries) (content : String) (t : HelmSite) (q : HelmTask) :
    Prop where
  floor : q.floor ≤ q.fetched
  render : ∃ rows generated, t.history[q.fetched]? = some rows ∧
    renderIndex lib q.baseUrl rows generated = .ok content

theorem Rendered.of_later {content : String} {s t : HelmSite} {p : HelmTask}
    (h : Rendered lib content s p) (hlater : Later s t) : Rendered lib content t p := by
  obtain ⟨rows, generated, hrows, hrender⟩ := h.render
  exact ⟨h.floor, rows, generated, hlater.getElem? hrows, hrender⟩

theorem Rendered.servedFresh {content : String} (h : Rendered lib content s p) :
    ServedFresh lib s p content := by
  obtain ⟨rows, generated, hrows, hrender⟩ := h.render
  exact ⟨p.fetched, rows, generated, h.floor, hrows, hrender⟩

theorem safe_buildIndex (h : Addressed baseUrl ttl s p) :
    Safe (indexProtocol lib) (fun r t q => q.baseUrl = baseUrl ∧
      ∀ content, r = .ok content → Rendered lib content t q) (buildIndex lib baseUrl) s p := by
  -- what is known of the rows until they have been rendered
  let Read (rows : IndexRows) (t : HelmSite) (q : HelmTask) : Prop :=
    q.baseUrl = baseUrl ∧ q.floor ≤ q.fetched ∧ t.history[q.fetched]? = some rows
  have hstable : ∀ rows s t p, Later s t → Read rows s p → Read rows t p :=
    fun rows s t p hlater h => ⟨h.1, h.2.1, hlater.getElem? h.2.2⟩
  refine safe_bind (Q := fun r t q => q.baseUrl = baseUrl ∧ ∀ rows, r = .ok rows → Read rows t q)
    ?_ (fun rows t q h => ?_) (fun e t q h => ⟨h.1, fun _ hr => by cases hr⟩)
  · intro t hlater hok c _
    cases c with
    | true => exact ⟨hok, later_refl t, h.baseUrl, fun rows hr => by cases hr⟩
    | false =>
      refine ⟨hok, later_refl t, h.baseUrl, fun rows hr => ?_⟩
      obtain rfl := Except.ok.inj hr
      refine ⟨h.baseUrl, ?_, ?_⟩
      · exact ((h.of_later hlater).started.trans hok.floor).trans (Nat.le_sub_one_of_lt hok.fresh)
      · exact List.getLast?_eq_getElem? ▸ hok.current
  · refine safe_bind (safe_read (hstable rows) (h.2 rows rfl)) (fun now t q h => ?_)
      (fun e t q h => ⟨h.1, fun _ hr => by cases hr⟩)
    cases hrender : renderIndex lib baseUrl rows now with
    | error e => exact ⟨h.1, fun _ hr => by cases hr⟩
    | ok yaml =>
      refine ⟨h.1, fun content hr => ?_⟩
      obtain rfl := Except.ok.inj hr
      obtain ⟨hbase, hfloor, hrows⟩ := h
      exact ⟨hfloor, rows, now, hrows, by rw [hbase, hrender]⟩

theorem safe_refreshIndex (h : Addressed baseUrl ttl s p) :
    Safe (indexProtocol lib) (Served lib) (refreshIndex lib baseUrl) s p := by
  refine safe_bind (safe_buildIndex h) (fun content t q hbuilt => ?_)
    (fun e t q _ _ hr => by cases hr)
  obtain ⟨hbase, hrendered⟩ := hbuilt
  have hstored : Safe (indexProtocol lib) (fun _ u q => Rendered lib content u q)
      (storeIndex content baseUrl) t q := by
    intro u hlater hok c hguard
    have hrenderedu := (hrendered content rfl).of_later hlater
    have hsame : Later u { u with hosted := { u.hosted with
        indexCache := some ⟨content, u.now, baseUrl, q.fetched⟩ } } :=
      ⟨List.prefix_refl _, le_refl _, le_refl _⟩
    refine ⟨⟨hok.current, hok.fresh, hok.floor, ?_⟩, hsame, hrenderedu.of_later hsame⟩
    intro cached hcached
    obtain rfl := Option.some.inj hcached
    -- the cache has not been dropped since the rows were read
    refine ⟨hguard, ?_⟩
    rw [← hbase]
    exact hrenderedu.render
  refine safe_bind hstored (fun _ u r h => ?_) (fun e u r _ _ hr => by cases hr)
  intro content' hr
  cases hr
  exact h.servedFresh

theorem safe_serveIndex (h : StartedBefore s p) :
    Safe (indexProtocol lib) (Served lib) (serveIndex lib request) s p := by
  have hstable : ∀ s t p, Later s t → StartedBefore s p → StartedBefore t p :=
    fun _ _ _ hlater h => h.of_later hlater
  refine safe_bind (safe_computeRepositoryBase h) (fun baseUrl t q h => ?_)
    (fun e t q _ _ hr => by cases hr)
  refine safe_bind (safe_quiet hstable quiet_readConfig h) (fun config t q h => ?_)
    (fun e t q _ _ hr => by cases hr)
  refine safe_bind (Q := fun _ t q => Addressed baseUrl config.indexCacheTtl t q) ?_
    (fun _ t q h => ?_) (fun e t q _ _ hr => by cases hr)
  · intro u hlater hok c _
    exact ⟨hok, later_refl u, h.of_later hlater, rfl, rfl⟩
  refine safe_bind (Q := fun r t q => Addressed baseUrl config.indexCacheTtl t q ∧
    Served lib r t q) ?_ (fun found t q h => ?_) (fun e t q _ _ hr => by cases hr)
  · unfold cachedIndex
    split_ifs
    · exact ⟨h, fun content hr => by cases hr⟩
    · exact safe_lookIndex h
  · cases found with
    | none => exact safe_refreshIndex h.1
    | some content => exact h.2

theorem safe_handleGetIndex :
    Safe (indexProtocol lib) (Served lib) (handleGetIndex lib request) s p := by
  have hstable : ∀ s t p, Later s t → StartedBefore s p → StartedBefore t p :=
    fun _ _ _ hlater h => h.of_later hlater
  refine safe_bind (Q := fun _ t q => StartedBefore t q) ?_ (fun _ t q h => ?_)
    (fun e t q _ _ hr => by cases hr)
  · intro u hlater hok c _
    exact ⟨hok, later_refl u, le_refl u.floor⟩
  refine safe_bind (safe_quiet hstable quiet_readConfig h) (fun config t q h => ?_)
    (fun e t q _ _ hr => by cases hr)
  by_cases hmode : config.mode = .http
  · rw [if_neg (not_not.mpr hmode)]
    refine safe_bind (safe_quiet hstable quiet_query h) (fun _ t q h => ?_)
      (fun e t q _ _ hr => by cases hr)
    split_ifs
    · exact safe_serveIndex h
    · exact fun content hr => by cases hr
  · rw [if_pos hmode]
    exact fun content hr => by cases hr

end Index

/-! ### All requests -/

theorem safe_siteRequest {request : SiteRequest} :
    Safe (indexProtocol lib) (Served lib) (siteRequest lib request) s
      ⟨request, "", none, 0, 0, none⟩ := by
  have hnone : ∀ n, (none : Option ℕ) = some n → n < s.history.length := fun _ h => by cases h
  have hclean : ∀ n, (none : Option ℕ) = some n → n ≤ s.fresh := fun _ h => by cases h
  cases request with
  | index request => exact safe_handleGetIndex
  | publish request => exact safe_answered (endsWell_publish request) hnone hclean
  | delete entries => exact safe_answered endsWell_deleteChartVersions hnone hclean
  | reload stored =>
    refine safe_bind (safe_regular regular_reload hnone) (fun _ t q _ _ hr => by cases hr)
      (fun e t q _ _ hr => by cases hr)
  | elapse time =>
    intro t _ hok c _
    exact ⟨⟨hok.current, hok.fresh, hok.floor, hok.cached⟩,
      ⟨List.prefix_refl _, le_refl _, le_refl _⟩, fun content hr => by cases hr⟩

/-- **Every index is fresh and has the address of its request**, in every run whose steps do not
go wrong. -/
theorem index_fresh {hosted : HelmHosted} {storageName : String} {now : ℕ}
    {as : List (Pool.Action SiteRequest Bool)}
    {s : Pool HelmSite (Thread HelmStep Bool HelmSite HelmTask HelmRepositoryError (Option String))}
    (hguard : StepsOk (siteProgram lib).step (Program.Guarded (Meets indexGuard))
      ⟨.load hosted storageName now, []⟩ as)
    (hrun : run (siteProgram lib).step ⟨.load hosted storageName now, []⟩ as = some s) {i : ℕ}
    {p : Thread HelmStep Bool HelmSite HelmTask HelmRepositoryError (Option String)}
    (hp : s.processes[i]? = some p) {content : String}
    (hended : p.task = Resumption.done (.ok (some content))) :
    ServedFresh lib s.shared p.own content := by
  obtain ⟨-, -, hsafe⟩ := safe_of_run (P := indexProtocol lib) (Q := Served lib)
    (fun r s t q hlater h content hr => (h content hr).of_later hlater)
    (fun request s _ => safe_siteRequest) (siteOk_load hosted storageName now) hguard hrun
  have hserved := hsafe i p hp
  rw [hended] at hserved
  exact hserved content rfl

/-! ### Two addresses -/

section Demo

def demoIndexLibraries : IndexLibraries where
  toHelmLibraries := demoLibraries
  serdeYaml _ grouped :=
    .ok (String.join (grouped.flatMap fun group => group.2.flatMap (·.urls)))

def HelmHosted.caching (hosted : HelmHosted) : HelmHosted :=
  { hosted with config := { hosted.config with indexCacheTtl := some 60 } }

def indexFrom (host : String) : SiteRequest := .index ⟨true, none, some host, none, none⟩

/-- Somebody asks under one address for the index, and then somebody else under another one. -/
def twoAddresses : List (Pool.Action SiteRequest Bool) :=
  [.start (indexFrom "a")] ++ List.replicate 12 (.advance 0 false) ++
    [.start (indexFrom "b")] ++ List.replicate 9 (.advance 1 false)

/-- The second one gets the index of the first one. -/
theorem not_servedFresh_twoAddresses : ∃ s p content,
    run (siteProgram demoIndexLibraries).step ⟨.load publishedCharts.caching "main" 0, []⟩
      twoAddresses = some s ∧ s.processes[1]? = some p ∧ p.task = .done (.ok (some content)) ∧
        ¬ ServedFresh demoIndexLibraries s.shared p.own content := by
  have hrun : ((run (siteProgram demoIndexLibraries).step
      ⟨.load publishedCharts.caching "main" 0, []⟩ twoAddresses).bind fun s =>
        s.processes[1]?.map fun p => (p.result, p.own.baseUrl)) =
      some (some (.ok (some "http://a/repositories/main/charts/charts/app/app-1.0.0.tgz")),
        "http://b/repositories/main/charts") := by decide
  have hrows : (run (siteProgram demoIndexLibraries).step
      ⟨.load publishedCharts.caching "main" 0, []⟩ twoAddresses).map (·.shared.history) =
        some [indexRows publishedCharts.catalogue] := by decide
  obtain ⟨s, hs, hp⟩ := Option.bind_eq_some_iff.mp hrun
  obtain ⟨p, hp, heq⟩ := Option.map_eq_some_iff.mp hp
  obtain ⟨hresult, hbase⟩ := Prod.mk.inj heq
  have hhistory : s.shared.history = [indexRows publishedCharts.catalogue] := by
    rw [hs] at hrows
    exact Option.some.inj hrows
  refine ⟨s, p, _, hs, hp, Thread.of_result hresult, ?_⟩
  rintro ⟨n, rows, generated, -, hn, hrender⟩
  rw [hhistory, List.getElem?_singleton] at hn
  split_ifs at hn
  obtain rfl := Option.some.inj hn
  rw [hbase] at hrender
  -- the time is not part of this index
  change renderIndex demoIndexLibraries "http://b/repositories/main/charts"
    (indexRows publishedCharts.catalogue) 0 = _ at hrender
  revert hrender
  decide

/-- A chart is published, and the index is asked for twice under the same address. -/
def sameAddress : List (Pool.Action SiteRequest Bool) :=
  [.start (.publish putApp), .start (indexFrom "a")] ++ List.replicate 9 (.advance 0 false) ++
    List.replicate 12 (.advance 1 false) ++ [.start (indexFrom "a")] ++
      List.replicate 9 (.advance 2 false)

theorem index_fresh_sameAddress : ∃ s p content,
    run (siteProgram demoIndexLibraries).step ⟨.load emptyCharts.caching "main" 0, []⟩
      sameAddress = some s ∧ s.processes[2]? = some p ∧ p.task = .done (.ok (some content)) ∧
        ServedFresh demoIndexLibraries s.shared p.own content := by
  have hrun : ((run (siteProgram demoIndexLibraries).step
      ⟨.load emptyCharts.caching "main" 0, []⟩ sameAddress).bind fun s =>
        s.processes[2]?.map fun p => p.result) =
      some (some (.ok (some "http://a/repositories/main/charts/charts/app/app-1.0.0.tgz"))) := by
    decide
  obtain ⟨s, hs, hp⟩ := Option.bind_eq_some_iff.mp hrun
  obtain ⟨p, hp, hresult⟩ := Option.map_eq_some_iff.mp hp
  have hended := Thread.of_result hresult
  exact ⟨s, p, _, hs, hp, hended, index_fresh (by decide) hs hp hended⟩

end Demo

end Pkgly.Helm
