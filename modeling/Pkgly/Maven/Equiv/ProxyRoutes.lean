import Mathlib.Data.List.Sort
import Pkgly.Maven.Equiv.Reads
import Pkgly.Storage.Equiv.DynStorage

/-!
# The order of the routes of a Maven proxy

A `GET` and a `HEAD` that find nothing in the cache walk through the routes until one of them
answers.  `MavenProxyConfig::sort` puts the routes with the smallest priorities first and those
without one last, but nothing calls it: the walk is in the order of the configuration, and a reload
takes over the configuration as it is stored.  So the routes are asked by priority exactly if the
configuration lists them so.
-/

namespace Pkgly.Maven

/-! ### The configuration -/

/-- The comparator of `MavenProxyConfig::sort`, as "not greater". -/
def priorityLe (a b : MavenProxyRepositoryRoute) : Bool :=
  match a.priority, b.priority with
  | some a, some b => a ≤ b
  | some _, none => true
  | none, some _ => false
  | none, none => true

/-- `MavenProxyConfig::sort`, which is stable. -/
def sortRoutes (routes : List MavenProxyRepositoryRoute) : List MavenProxyRepositoryRoute :=
  routes.insertionSort fun a b => priorityLe a b

inductive RepositoryFactoryError
  | database
  | missingConfig (key : String)
  | invalidConfig (key message : String)

/-- `reload`; the query for the configuration may fail, and find nothing. -/
def MavenProxy.reload (self : MavenProxy) :
    Option (Option MavenRepositoryConfig) → MavenProxy × Except RepositoryFactoryError Unit
  | none => (self, .error .database)
  | some none => (self, .error (.missingConfig "maven"))
  | some (some (.proxy routes)) => ({ self with routes }, .ok ())
  | some (some .hosted) => (self, .error (.invalidConfig "maven" "Expected Proxy Config"))

def MavenProxy.reloads (self : MavenProxy)
    (configs : List (Option (Option MavenRepositoryConfig))) : MavenProxy :=
  configs.foldl (fun proxy config => (proxy.reload config).1) self

/-! ### The first element with an answer -/

section FirstAnswer

variable {α β : Type} [DecidableEq α] {us vs : List α} {f : α → Option β} {a b : α} {r : β}

/-- Of two elements with an answer the one that comes first decides. -/
theorem findSome?_of_idxOf_lt (hlt : us.idxOf a < us.idxOf b) (ha : f a = some r)
    (hother : ∀ x, x ≠ a → x ≠ b → f x = none) : us.findSome? f = some r := by
  induction us with
  | nil => exact absurd hlt (by simp)
  | cons x us ih =>
    by_cases hxa : x = a
    · rw [List.findSome?_cons, hxa, ha]
    · have hxb : x ≠ b := by
        rintro rfl
        simp at hlt
      rw [List.findSome?_cons, hother x hxa hxb]
      rw [List.idxOf_cons_ne _ hxa, List.idxOf_cons_ne _ hxb] at hlt
      exact ih (Nat.lt_of_succ_lt_succ hlt)

theorem idxOf_le_of_findSome? (h : us.findSome? f = some r) :
    ∃ a ∈ us, f a = some r ∧ ∀ b, (f b).isSome = true → us.idxOf a ≤ us.idxOf b := by
  obtain ⟨before, a, after, rfl, ha, hbefore⟩ := List.findSome?_eq_some_iff.mp h
  have hnot : ∀ b, (f b).isSome = true → b ∉ before := fun b hb hmem => by
    rw [hbefore b hmem] at hb
    cases hb
  refine ⟨a, by simp, ha, fun b hb => ?_⟩
  rw [List.idxOf_append_of_notMem (hnot a (by rw [ha]; rfl)),
    List.idxOf_append_of_notMem (hnot b hb), List.idxOf_cons_self]
  exact Nat.le_add_right _ _

/-- The same element decides in every list of the same elements in the same order. -/
theorem findSome?_eq_of_idxOf (hmem : ∀ x, x ∈ us ↔ x ∈ vs)
    (horder : ∀ a ∈ us, ∀ b ∈ us, us.idxOf a < us.idxOf b → vs.idxOf a < vs.idxOf b) :
    us.findSome? f = vs.findSome? f := by
  rcases hus : us.findSome? f with _ | r
  · rw [List.findSome?_eq_none_iff] at hus
    exact (List.findSome?_eq_none_iff.mpr fun x hx => hus x ((hmem x).mpr hx)).symm
  obtain ⟨a, ha, hfa, hfirst⟩ := idxOf_le_of_findSome? hus
  rcases hvs : vs.findSome? f with _ | r'
  · rw [List.findSome?_eq_none_iff.mp hvs a ((hmem a).mp ha)] at hfa
    cases hfa
  obtain ⟨b, hb, hfb, hfirst'⟩ := idxOf_le_of_findSome? hvs
  have hle := hfirst b (by rw [hfb]; rfl)
  rcases hle.lt_or_eq with hlt | heq
  · have hlt' := horder a ha b ((hmem b).mpr hb) hlt
    exact absurd (hfirst' a (by rw [hfa]; rfl)) (by omega)
  · rw [(List.idxOf_inj ha).mp heq] at hfa
    rw [← hfa, ← hfb]

end FirstAnswer

/-! ### The walk -/

/-- The answer of the upstream `url` for `path`, if it is successful. -/
def successOf (parsesUrl : String → Bool) (ask : String → Option UpstreamResponse)
    (path : StoragePath) (url : String) : Option UpstreamResponse :=
  let requested := routeUrl ⟨url, none, none⟩ path
  if parsesUrl requested then (ask requested).filter (·.isSuccess) else none

theorem successOf_url (parsesUrl : String → Bool) (ask : String → Option UpstreamResponse)
    (path : StoragePath) (route : MavenProxyRepositoryRoute) :
    successOf parsesUrl ask path route.url =
      if parsesUrl (routeUrl route path) then (ask (routeUrl route path)).filter (·.isSuccess)
      else none :=
  rfl

/-- What `GET` does with a successful answer. -/
def fetched (site : MavenSite) (storage : DynStorage) (path : StoragePath)
    (response : UpstreamResponse) : DynStorage × Except MavenError (Option StorageFile) :=
  match response.body with
  | none => (storage, .error .reqwest)
  | some bytes =>
    match storage.saveFile bytes path with
    | .error e => (storage, .error (.storage e))
    | .ok storage =>
      if !site.recordsCacheHit then (storage, .error .proxyIndexing)
      else (storage, fromStorage (storage.openFile path))

def headResponse (response : UpstreamResponse) : RepoResponse :=
  .upstreamHead (response.headers.filter fun header =>
    ["content-length", "content-type", "last-modified", "etag"].contains header.1)

theorem getFromProxy_eq (site : MavenSite) (storage : DynStorage) (path : StoragePath)
    (routes : List MavenProxyRepositoryRoute) :
    MavenProxy.getFromProxy site storage path routes =
      match (routes.map (·.url)).findSome?
        (successOf site.upstream.parsesUrl site.upstream.get path) with
      | none => (storage, .ok none)
      | some response => fetched site storage path response := by
  induction routes with
  | nil => rfl
  | cons route routes ih =>
    rw [MavenProxy.getFromProxy, List.map_cons, List.findSome?_cons, ih, successOf_url]
    cases site.upstream.parsesUrl (routeUrl route path) with
    | false => rfl
    | true =>
      rcases site.upstream.get (routeUrl route path) with _ | response
      · rfl
      · cases hs : response.isSuccess
        · simp [hs, Option.filter]
        · simp only [hs, Option.filter, Bool.not_true, Bool.false_eq_true, if_false, if_true]
          rfl

theorem headFromProxy_eq (site : MavenSite) (path : StoragePath)
    (routes : List MavenProxyRepositoryRoute) :
    MavenProxy.headFromProxy site path routes =
      ((routes.map (·.url)).findSome?
        (successOf site.upstream.parsesUrl site.upstream.head path)).map headResponse := by
  induction routes with
  | nil => rfl
  | cons route routes ih =>
    rw [MavenProxy.headFromProxy, List.map_cons, List.findSome?_cons, ih, successOf_url]
    cases site.upstream.parsesUrl (routeUrl route path) with
    | false => rfl
    | true =>
      rcases site.upstream.head (routeUrl route path) with _ | response
      · rfl
      · cases hs : response.isSuccess <;> simp [hs, headResponse, Option.filter]

/-! ### The order of the answers -/

/-- The site with a table of answers; a `HEAD` is answered like a `GET`, without the body. -/
def MavenSite.answering (site : MavenSite) (answers : String → Option UpstreamResponse) :
    MavenSite :=
  { site with upstream := { site.upstream with get := answers, head := answers } }

def bestAnswer (site : MavenSite) (answers : String → Option UpstreamResponse)
    (path : StoragePath) (routes : List MavenProxyRepositoryRoute) : Option UpstreamResponse :=
  ((sortRoutes routes).map (·.url)).findSome? (successOf site.upstream.parsesUrl answers path)

theorem mem_map_sortRoutes (routes : List MavenProxyRepositoryRoute) (url : String) :
    url ∈ routes.map (·.url) ↔ url ∈ (sortRoutes routes).map (·.url) :=
  ((List.perm_insertionSort _ routes).map _).mem_iff.symm

/-- Whatever the upstreams answer, on a cache miss the first successful route in the order of the
priorities is served. -/
structure AnswersInOrder (proxy : MavenProxy) : Prop where
  get : ∀ (site : MavenSite) answers storage auth path,
    (MavenRepository.proxy proxy).checkRead site auth = .ok none →
    storage.openFile path = .ok none →
    proxy.handleGet (site.answering answers) storage auth path =
      match bestAnswer site answers path proxy.routes with
      | none => (storage, .ok .notFound)
      | some response =>
        let (storage', file) := fetched site storage path response
        (storage', .ok (MavenProxy.proxiedResponse site file))
  head : ∀ (site : MavenSite) answers storage auth path,
    (MavenRepository.proxy proxy).checkRead site auth = .ok none →
    storage.openFile path = .ok none →
    proxy.handleHead (site.answering answers) storage auth path =
      match bestAnswer site answers path proxy.routes with
      | none => (storage, .ok .notFound)
      | some response => (storage, .ok (headResponse response))

/-- Of two upstreams the one that is listed first comes first in the order of the priorities. -/
def ListedInOrder (routes : List MavenProxyRepositoryRoute) : Prop :=
  ∀ a ∈ routes.map (·.url), ∀ b ∈ routes.map (·.url),
    (routes.map (·.url)).idxOf a < (routes.map (·.url)).idxOf b →
      ((sortRoutes routes).map (·.url)).idxOf a < ((sortRoutes routes).map (·.url)).idxOf b

section Miss

variable {self : MavenProxy} {site : MavenSite} {answers : String → Option UpstreamResponse}
  {storage : DynStorage} {auth : RepositoryAuthentication} {path : StoragePath}

/-- On a cache miss a `GET` goes through the routes as they are listed. -/
theorem handleGet_miss (hcheck : (MavenRepository.proxy self).checkRead site auth = .ok none)
    (hmiss : storage.openFile path = .ok none) :
    self.handleGet (site.answering answers) storage auth path =
      match (self.routes.map (·.url)).findSome?
        (successOf site.upstream.parsesUrl answers path) with
      | none => (storage, .ok .notFound)
      | some response =>
        let (storage', file) := fetched site storage path response
        (storage', .ok (MavenProxy.proxiedResponse site file)) := by
  have hcheck' : (MavenRepository.proxy self).checkRead (site.answering answers) auth = .ok none :=
    hcheck
  have hget : MavenProxy.getFromProxy (site.answering answers) storage path self.routes =
      match (self.routes.map (·.url)).findSome?
        (successOf site.upstream.parsesUrl answers path) with
      | none => (storage, .ok none)
      | some response => fetched site storage path response :=
    getFromProxy_eq (site.answering answers) storage path self.routes
  rw [MavenProxy.handleGet, MavenRepository.afterCheckRead, hcheck', hmiss]
  simp only [fromStorage, Except.mapError, hget]
  generalize (self.routes.map (·.url)).findSome?
    (successOf site.upstream.parsesUrl answers path) = best
  cases best with
  | none => rfl
  | some response => rfl

/-- So does a `HEAD`. -/
theorem handleHead_miss (hcheck : (MavenRepository.proxy self).checkRead site auth = .ok none)
    (hmiss : storage.openFile path = .ok none) :
    self.handleHead (site.answering answers) storage auth path =
      match (self.routes.map (·.url)).findSome?
        (successOf site.upstream.parsesUrl answers path) with
      | none => (storage, .ok .notFound)
      | some response => (storage, .ok (headResponse response)) := by
  have hcheck' : (MavenRepository.proxy self).checkRead (site.answering answers) auth = .ok none :=
    hcheck
  have hhead : MavenProxy.headFromProxy (site.answering answers) path self.routes =
      ((self.routes.map (·.url)).findSome?
        (successOf site.upstream.parsesUrl answers path)).map headResponse :=
    headFromProxy_eq (site.answering answers) path self.routes
  rw [MavenProxy.handleHead, MavenRepository.afterCheckRead, hcheck',
    DynStorage.getFileInformation, hmiss]
  simp only [fromStorage, Except.mapError, hhead]
  generalize (self.routes.map (·.url)).findSome?
    (successOf site.upstream.parsesUrl answers path) = best
  cases best with
  | none => rfl
  | some response => rfl

end Miss

theorem answersInOrder_of_listedInOrder {self : MavenProxy} (h : ListedInOrder self.routes) :
    AnswersInOrder self where
  get site answers storage auth path hcheck hmiss := by
    rw [handleGet_miss hcheck hmiss, bestAnswer,
      findSome?_eq_of_idxOf (mem_map_sortRoutes self.routes) h]
  head site answers storage auth path hcheck hmiss := by
    rw [handleHead_miss hcheck hmiss, bestAnswer,
      findSome?_eq_of_idxOf (mem_map_sortRoutes self.routes) h]

/-! ### Two routes that answer -/

theorem routeUrl_inj {path : StoragePath} {a b : String}
    (h : routeUrl ⟨a, none, none⟩ path = routeUrl ⟨b, none, none⟩ path) : a = b := by
  simpa [routeUrl] using h

/-- Only two upstreams have the file, with different entity tags. -/
def twoAnswers (path : StoragePath) (a b : String) (requested : String) :
    Option UpstreamResponse :=
  if requested = routeUrl ⟨a, none, none⟩ path then some ⟨true, [("etag", "a")], some [1]⟩
  else if requested = routeUrl ⟨b, none, none⟩ path then some ⟨true, [("etag", "b")], some [2]⟩
  else none

theorem listedInOrder_of_answersInOrder {self : MavenProxy} (h : AnswersInOrder self) :
    ListedInOrder self.routes := by
  intro a ha b hb hlt
  by_contra hnot
  have hne : a ≠ b := fun heq => absurd hlt (by rw [heq]; exact lt_irrefl _)
  have hlt' : ((sortRoutes self.routes).map (·.url)).idxOf b <
      ((sortRoutes self.routes).map (·.url)).idxOf a := by
    refine lt_of_le_of_ne (Nat.le_of_not_lt hnot) fun heq => hne ?_
    exact ((List.idxOf_inj ((mem_map_sortRoutes self.routes b).mp hb)).mp heq).symm
  let path := StoragePath.ofString "app.jar"
  let site := openSite (some ⟨false⟩)
  let answers := twoAnswers path a b
  have hfa : successOf site.upstream.parsesUrl answers path a =
      some ⟨true, [("etag", "a")], some [1]⟩ := by
    simp [answers, successOf, twoAnswers, site, openSite]
  have hfb : successOf site.upstream.parsesUrl answers path b =
      some ⟨true, [("etag", "b")], some [2]⟩ := by
    have hba : routeUrl ⟨b, none, none⟩ path ≠ routeUrl ⟨a, none, none⟩ path :=
      fun heq => hne (routeUrl_inj heq).symm
    simp [answers, successOf, twoAnswers, site, openSite, hba]
  have hother : ∀ x, x ≠ a → x ≠ b →
      successOf site.upstream.parsesUrl answers path x = none := by
    intro x hxa hxb
    have ha' : routeUrl ⟨x, none, none⟩ path ≠ routeUrl ⟨a, none, none⟩ path :=
      fun heq => hxa (routeUrl_inj heq)
    have hb' : routeUrl ⟨x, none, none⟩ path ≠ routeUrl ⟨b, none, none⟩ path :=
      fun heq => hxb (routeUrl_inj heq)
    simp [answers, successOf, twoAnswers, site, openSite, ha', hb']
  -- the walk meets the first upstream, and the order of the priorities the second
  have hwalk := @handleHead_miss self site answers ⟨.local, ∅, ∅⟩ .noIdentification path rfl
    (by decide)
  have hbest := h.head site answers ⟨.local, ∅, ∅⟩ .noIdentification path rfl (by decide)
  rw [hbest, bestAnswer, findSome?_of_idxOf_lt hlt hfa hother,
    findSome?_of_idxOf_lt hlt' hfb fun x hxb hxa => hother x hxa hxb] at hwalk
  simp [headResponse] at hwalk

/-- However often the configuration is reloaded, the routes are asked in the order of their
priorities exactly if they are listed so. -/
theorem answersInOrder_iff (self : MavenProxy)
    (configs : List (Option (Option MavenRepositoryConfig))) :
    AnswersInOrder (self.reloads configs) ↔ ListedInOrder (self.reloads configs).routes :=
  ⟨listedInOrder_of_answersInOrder, answersInOrder_of_listedInOrder⟩

/-- A mirror without a priority is listed before the one with priority 1. -/
theorem not_answersInOrder_unsorted :
    ¬∀ (self : MavenProxy) configs, AnswersInOrder (self.reloads configs) := by
  intro h
  have hlisted := listedInOrder_of_answersInOrder
    (h ⟨0, .public, [⟨"a", none, none⟩, ⟨"b", none, some 1⟩]⟩ [])
  revert hlisted
  rw [ListedInOrder]
  decide

end Pkgly.Maven
