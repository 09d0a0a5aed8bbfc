import Mathlib.Data.Bool.AllAny
import Pkgly.Algorithm.Reference
import Pkgly.Nuget.Equiv.Proxy

/-!
# Where do the links of a NuGet proxy lead?

A registration is rewritten text by text, and a link in it is followed back to the proxy.  A text is
rewritten at a base whenever it starts with it; the proxy serves pages `/id/file.json` of the
registrations, and `/id/index.json`, `/id/version/file.nupkg` and `/id/version/file.nuspec` of the
packages (`Served`).  The links of a document lead to the URLs that they stand for, and the other
texts stay, if and only if this holds of each text by itself (`linksClosed_iff`): a text that is
rewritten is a URL below one of the two bases, its path is served, and what is asked for is that URL
(`LinkOk`).
-/

namespace Pkgly.Nuget

open Resumption

variable {U : Type} (env : ProxyEnvironment U)

/-! ### What the upstream is asked for -/

def ProxyStep.url : ProxyStep U → Option U
  | .fetch url => some url
  | _ => none

def asked {α : Type} (m : ProxyM U α) (t : ProxyState × ProxyRequest) : List U :=
  (m.perform false t).1.filterMap ProxyStep.url

section Asked

variable {env} {α β : Type} {m : ProxyM U α} {k : α → ProxyM U β} {t t' : ProxyState × ProxyRequest}

theorem asked_bind_of_ok {a : α} (h : (m.perform false t).2 = (.ok a, t')) :
    asked (m >>= k) t = asked m t ++ asked (k a) t' := by
  have hm : m.perform false t = ((m.perform false t).1, .ok a, t') := Prod.ext rfl h
  rw [asked, perform_bind_of_ok hm, List.filterMap_append]
  rfl

theorem asked_bind_of_error {e : ReadError} (h : (m.perform false t).2 = (.error e, t')) :
    asked (m >>= k) t = asked m t := by
  have hm : m.perform false t = ((m.perform false t).1, .error e, t') := Prod.ext rfl h
  rw [asked, perform_bind_of_error hm]
  rfl

theorem asked_bind_of_forall (h : ∀ a t, asked (k a) t = []) : asked (m >>= k) t = asked m t := by
  cases hresult : (m.perform false t).2 with
  | mk r t' =>
    cases r with
    | ok a => rw [asked_bind_of_ok hresult, h, List.append_nil]
    | error e => rw [asked_bind_of_error hresult]

theorem asked_pure (a : α) : asked (pure a : ProxyM U α) t = [] := rfl

theorem asked_storageStep {f : DynStorage → Except StorageError (α × DynStorage)} :
    asked (storageStep f : ProxyM U α) t = [] := rfl

theorem asked_send (url : U) : asked (send env url) t = [url] := rfl

theorem asked_send_bind {url : U} {k : UpstreamResponse → ProxyM U β}
    (h : asked (k (env.get url)) t = []) : asked (send env url >>= k) t = [url] := by
  have hsend : ((send env url).perform false t).2 = (.ok (env.get url), t) := rfl
  rw [asked_bind_of_ok hsend, asked_send, h]
  rfl

variable {backend : Backend} {resources : ProxyResources} {q : ProxyRequest}

def ProxyState.discovered (backend : Backend) (resources : ProxyResources) : ProxyState :=
  { ProxyState.fresh backend with resources := some resources }

theorem perform_storageStep {f : DynStorage → Except StorageError (α × DynStorage)}
    {s : ProxyState} {a : α} {st : DynStorage} (h : f s.storage = .ok (a, st)) :
    ((storageStep f : ProxyM U α).perform false (s, q)).2 =
      (.ok a, { s with storage := st }, q) := by
  unfold storageStep
  rw [perform_act]
  dsimp only
  rw [if_neg Bool.false_ne_true, h]

theorem perform_readBytes_discovered :
    ((readBytes q.path : ProxyM U (Option Bytes)).perform false
      (.discovered backend resources, q)).2 = (.ok none, .discovered backend resources, q) := by
  refine perform_storageStep ?_
  have hopen : (ProxyState.discovered backend resources).storage.openFile q.path = .ok none :=
    openFile_fresh backend q
  rw [hopen]
  rfl

theorem asked_discoverResources_known (env : ProxyEnvironment U) (q : ProxyRequest)
    {s : ProxyState} (h : s.resources = some resources) :
    ((discoverResources env).perform false (s, q)).2 = (.ok resources, s, q) ∧
      asked (discoverResources env) (s, q) = [] := by
  have hcached : ((Resumption.act .resources fun _ t => (.ok t.1.resources, t) :
      ProxyM U (Option ProxyResources)).perform false (s, q)) =
        ([.resources], .ok (some resources), s, q) := by
    rw [perform_act, h]
  unfold discoverResources asked
  rw [perform_bind_of_ok hcached]
  exact ⟨rfl, rfl⟩

theorem asked_fetchJson (url : U) (method : Method) (localBase : String) (rewrite : Bool) :
    asked (fetchJson env url q.path method localBase rewrite) (.discovered backend resources, q) =
      [url] := by
  unfold fetchJson
  rw [asked_bind_of_ok perform_readBytes_discovered]
  change [] ++ asked (send env url >>= _) _ = _
  rw [List.nil_append]
  refine asked_send_bind ?_
  cases refusal (env.get url) with
  | some answer => rfl
  | none =>
    dsimp only
    unfold readJson
    cases (env.get url).body.bind env.serde.value with
    | none => rfl
    | some value =>
      have hsave : ∀ (value : Json) (t : ProxyState × ProxyRequest),
          asked (saveBytes (env.print value) q.path >>= fun _ =>
            (pure (.other (jsonResponse method value)) : ProxyM U ReadResponse)) t = [] :=
        fun value t => asked_bind_of_forall fun _ _ => asked_pure _
      cases rewrite with
      | false => exact hsave value _
      | true =>
        aesop

theorem fileExists_fresh :
    (ProxyState.discovered backend resources).storage.fileExists q.path = .ok false := by
  unfold DynStorage.fileExists
  rw [rejects_eq_false, if_neg Bool.false_ne_true]
  aesop

theorem asked_fetchBinary (url : U) :
    asked (fetchBinary env url q.path) (.discovered backend resources, q) = [url] := by
  have hexists : ((storageStep fun st => (st.fileExists q.path).map fun found => (found, st) :
      ProxyM U Bool).perform false (.discovered backend resources, q)).2 =
        (.ok false, .discovered backend resources, q) := by
    refine perform_storageStep ?_
    rw [fileExists_fresh]
    rfl
  unfold fetchBinary
  rw [asked_bind_of_ok hexists, asked_storageStep, List.nil_append]
  simp only [Bool.false_eq_true, if_false]
  refine asked_send_bind ?_
  cases refusal (env.get url) with
  | some answer => rfl
  | none =>
    dsimp only
    cases (env.get url).body with
    | none => rfl
    | some bytes => exact asked_bind_of_forall fun _ _ => asked_storageStep

theorem asked_fetchNuspec (url : U) (method : Method) :
    asked (fetchNuspec env url q.path method) (.discovered backend resources, q) = [url] := by
  unfold fetchNuspec
  rw [asked_bind_of_ok perform_readBytes_discovered]
  change [] ++ asked (send env url >>= _) _ = _
  rw [List.nil_append]
  refine asked_send_bind ?_
  cases refusal (env.get url) with
  | some answer => rfl
  | none =>
    dsimp only
    cases (env.get url).text with
    | none => rfl
    | some text => exact asked_bind_of_forall fun _ _ => asked_pure _

/-- **A request asks the upstream** for the URL of its route, and for nothing else. -/
theorem asked_handleRead (hread : q.canRead = true)
    (hindex : isServiceIndexPath q.path.toString' = false) :
    asked (handleRead env q) (.discovered backend resources, q) =
      ((route resources q.path.toString').url.bind env.parseUrl).toList := by
  obtain ⟨hknown, hasked⟩ := asked_discoverResources_known env q
    (s := .discovered backend resources) rfl
  have hcanRead : ((Resumption.act .database fun fails t =>
      if fails then (.error .database, t) else (.ok q.canRead, t) :
      ProxyM U Bool).perform false (.discovered backend resources, q)).2 =
        (.ok q.canRead, .discovered backend resources, q) := rfl
  unfold handleRead
  rw [asked_bind_of_ok hcanRead]
  simp only [hread, hindex, Bool.not_true, Bool.false_eq_true, if_false]
  rw [asked_bind_of_ok hknown, hasked]
  change [] ++ ([] ++ asked _ _) = _
  rw [List.nil_append, List.nil_append]
  unfold parseUrl
  cases route resources q.path.toString' with
  | json url rewrite =>
    dsimp only [Route.url]
    rw [Option.bind_some]
    cases env.parseUrl url with
    | none => rfl
    | some url => exact asked_fetchJson url _ _ _
  | binary url =>
    dsimp only [Route.url]
    rw [Option.bind_some]
    cases env.parseUrl url with
    | none => rfl
    | some url => exact asked_fetchBinary url
  | nuspec url =>
    dsimp only [Route.url]
    rw [Option.bind_some]
    cases env.parseUrl url with
    | none => rfl
    | some url => exact asked_fetchNuspec url _
  | unsupported => rfl

end Asked

/-! ### Following a link -/

/-- The path of a request for what follows the URL of the repository.  The client sends it as it
stands, without resolving dots. -/
def requestPath (rest : String) : Option StoragePath :=
  (percentDecodeStr (referencePath rest)).bind fun path =>
    StoragePath.fromUntrusted ((stripPrefix "/" path).getD path)

/-- A caller who may read and follows a link makes the proxy ask the upstream for a URL. -/
def LeadsTo (resources : ProxyResources) (backend : Backend) (host : Option String)
    (link : String) (url : U) : Prop :=
  ∃ request : ProxyRequest, request.method = .get ∧ request.host = host ∧
    request.canRead = true ∧
    (stripPrefix (externalRepositoryBase env host) link).bind requestPath = some request.path ∧
    asked (handleRead env request) (.discovered backend resources, request) = [url]

def isLink (resources : ProxyResources) (text : String) : Bool :=
  (env.parseUrl text).isSome && (startsWith (resources.registrationBase ++ "/") text ||
    startsWith (resources.flatcontainerBase ++ "/") text)

/-- What a text has to become: a link leads to the URL that it was, another text stays. -/
def LinkKept (resources : ProxyResources) (backend : Backend) (host : Option String)
    (text text' : String) : Prop :=
  if isLink env resources text then
    ∃ url, env.parseUrl text = some url ∧ LeadsTo env resources backend host text' url
  else text' = text

def LinksClosed (resources : ProxyResources) (backend : Backend) (host : Option String)
    (document : Json) : Prop :=
  List.Forall₂ (LinkKept env resources backend host) (texts document)
    (texts (rewriteUpstreamUrls resources (externalRepositoryBase env host) document))

/-- The paths that are served below a directory, with the text of the URL that is asked for. -/
inductive Served (resources : ProxyResources) : String → String → String → Prop
  | page {path id file : String} (hpieces : pieces '/' path = ["", id, file])
      (hend : endsWith ".json" file = true) :
      Served resources "v3/registration" path (resources.registrationBase ++ path)
  /-- What follows the index is ignored. -/
  | index {path id : String} {more : List String}
      (hpieces : pieces '/' path = "" :: id :: "index.json" :: more) :
      Served resources "v3/flatcontainer" path
        (resources.flatcontainerBase ++ "/" ++ id ++ "/index.json")
  | package {path id version file : String} (hpieces : pieces '/' path = ["", id, version, file])
      (hversion : version ≠ "index.json")
      (hend : endsWith ".nupkg" file = true ∨ endsWith ".nuspec" file = true) :
      Served resources "v3/flatcontainer" path (resources.flatcontainerBase ++ path)

/-- A text that is rewritten at a base is a link whose decoded path is accepted and served, with
the URL that the link was; or it is no link, and the base is the local one. -/
def LinkOk (resources : ProxyResources) (localBase text : String) : Prop :=
  ∀ base name, rewrittenBase resources text = some (base, name) →
    if isLink env resources text then
      ∃ rest path url, text = base ++ rest ∧ percentDecodeStr (referencePath rest) = some path ∧
        (StoragePath.fromUntrusted (name ++ path)).isSome = true ∧
        Served resources name path url ∧ env.parseUrl url = env.parseUrl text
    else base = localBase ++ ("/" ++ name)

/-! ### Pieces of a path -/

variable {rest : List String}

theorem of_pieces_cons {s a b : String} (h : pieces '/' s = a :: b :: rest) :
    ∃ tail, s = a ++ ("/" ++ tail) ∧ pieces '/' tail = b :: rest := by
  unfold pieces at h
  obtain ⟨first, others, hsplit, rfl, hothers⟩ := List.map_eq_cons_iff.mp h
  obtain ⟨second, more, rfl, rfl, rfl⟩ := List.map_eq_cons_iff.mp hothers
  have hjoin : ['/'].intercalate (s.toList.splitOn '/') = s.toList := List.intercalate_splitOn '/'
  rw [hsplit] at hjoin
  refine ⟨String.ofList (['/'].intercalate (second :: more)), ?_, ?_⟩
  · rw [← String.toList_inj, ← hjoin]
    simp [List.intercalate, List.intersperse_cons_cons]
  · have hpieces : ∀ piece ∈ second :: more, '/' ∉ piece := fun piece hpiece =>
      notMem_of_mem_splitOn (hsplit ▸ List.mem_cons_of_mem first hpiece)
    unfold pieces
    rw [String.toList_ofList, List.splitOn_intercalate _ hpieces (List.cons_ne_nil _ _)]
    rfl

theorem of_pieces_singleton {s a : String} (h : pieces '/' s = [a]) : s = a := by
  unfold pieces at h
  obtain ⟨first, hsplit, rfl⟩ := List.map_eq_singleton_iff.mp h
  have hjoin : ['/'].intercalate (s.toList.splitOn '/') = s.toList := List.intercalate_splitOn '/'
  simp_all

theorem name_eq {name name' a b : String}
    (hname : name = "v3/registration" ∨ name = "v3/flatcontainer")
    (hname' : name' = "v3/registration" ∨ name' = "v3/flatcontainer") (h : name ++ a = name' ++ b) :
    name = name' ∧ a = b := by
  have hcancel : ∀ front : String, front ++ a = front ++ b → a = b := by simp
  have hthird : name.toList[3]? = name'.toList[3]? := by
    have hlist := congrArg (fun s => s.toList[3]?) h
    simp only [String.toList_append] at hlist
    rwa [List.getElem?_append_left, List.getElem?_append_left] at hlist
    · rcases hname' with rfl | rfl <;> decide
    · rcases hname with rfl | rfl <;> decide
  rcases hname with rfl | rfl <;> rcases hname' with rfl | rfl
  · exact ⟨rfl, hcancel _ h⟩
  · exact absurd hthird (by decide)
  · exact absurd hthird (by decide)
  · exact ⟨rfl, hcancel _ h⟩

theorem of_pieces_cons_cons {s a b c : String} (h : pieces '/' s = a :: b :: c :: rest) :
    ∃ tail, s = a ++ ("/" ++ b) ++ ("/" ++ tail) ∧ pieces '/' tail = c :: rest := by
  obtain ⟨tail, rfl, htail⟩ := of_pieces_cons h
  obtain ⟨tail, rfl, hrest⟩ := of_pieces_cons htail
  exact ⟨tail, by simp only [String.append_assoc], hrest⟩

theorem pieces_slash (tail : String) : pieces '/' ("/" ++ tail) = "" :: pieces '/' tail := by
  have happend := pieces_append '/' "" tail
  rw [String.empty_append] at happend
  exact happend

theorem pieces_below (name a b : String) (hname : name = a ++ ("/" ++ b)) (ha : '/' ∉ a.toList)
    (hb : '/' ∉ b.toList) {path c : String} (h : pieces '/' path = "" :: c :: rest) :
    pieces '/' (name ++ path) = a :: b :: c :: rest := by
  obtain ⟨tail, hpath, htail⟩ := of_pieces_cons h
  have hslash : ("/" : String) = String.ofList ['/'] := by decide
  rw [hpath, String.empty_append, hname, hslash, pieces_append, pieces_append,
    pieces_eq_singleton ha, pieces_eq_singleton hb, htail]
  rfl

section Served

variable {resources : ProxyResources} {name path url : String}

theorem url_of_served (h : Served resources name path url) :
    (route resources (name ++ path)).url = some url := by
  cases h with
  | @page path id file hpieces hend =>
    have hbelow := pieces_below "v3/registration" "v3" "registration"
      (by decide) (by decide) (by decide) hpieces
    obtain ⟨tail, hpath, htail⟩ := of_pieces_cons_cons hpieces
    rw [route_registration resources hbelow hend, Route.url, hpath, ← of_pieces_singleton htail,
      String.empty_append]
    simp only [String.append_assoc]
  | @index path id more hpieces =>
    have hbelow := pieces_below "v3/flatcontainer" "v3" "flatcontainer"
      (by decide) (by decide) (by decide) hpieces
    rw [route_index resources hbelow, Route.url]
  | @package path id version file hpieces hversion hend =>
    have hbelow := pieces_below "v3/flatcontainer" "v3" "flatcontainer"
      (by decide) (by decide) (by decide) hpieces
    obtain ⟨tail, hpath, htail⟩ := of_pieces_cons_cons hpieces
    obtain ⟨last, htail', hlast⟩ := of_pieces_cons htail
    rw [route_package resources hbelow hversion hend, hpath, htail', ← of_pieces_singleton hlast,
      String.empty_append]
    simp only [String.append_assoc]

theorem served_of_url (hname : name = "v3/registration" ∨ name = "v3/flatcontainer")
    (h : (route resources (name ++ path)).url = some url) : Served resources name path url := by
  have hbelow : ∀ {name' b c : String} {rest : List String},
      name' = "v3/registration" ∨ name' = "v3/flatcontainer" → "v3" ++ ("/" ++ b) = name' →
        pieces '/' (name ++ path) = "v3" :: b :: c :: rest →
          name = name' ∧ pieces '/' path = "" :: c :: rest := by
    intro name' b c rest hname' hb hpieces
    obtain ⟨tail, hwhole, htail⟩ := of_pieces_cons_cons hpieces
    rw [hb] at hwhole
    obtain ⟨heq, rfl⟩ := name_eq hname hname' hwhole
    exact ⟨heq, by rw [pieces_slash, htail]⟩
  rcases route_cases resources (name ++ path) with
    ⟨id, more, hpieces, hroute⟩ | ⟨id, version, file, hpieces, hversion, hend, hroute⟩ |
    ⟨id, version, file, hpieces, hversion, hend, hroute⟩ | ⟨id, file, hpieces, hend, hroute⟩ |
    hroute
  · obtain ⟨rfl, hpath⟩ := hbelow (.inr rfl) (by decide) hpieces
    rw [hroute] at h
    cases h
    exact .index hpath
  · obtain ⟨rfl, hpath⟩ := hbelow (.inr rfl) (by decide) hpieces
    have hserved : Served resources "v3/flatcontainer" path _ := .package hpath hversion (.inl hend)
    rw [url_of_served hserved] at h
    exact Option.some.inj h ▸ hserved
  · obtain ⟨rfl, hpath⟩ := hbelow (.inr rfl) (by decide) hpieces
    have hserved : Served resources "v3/flatcontainer" path _ := .package hpath hversion (.inr hend)
    rw [url_of_served hserved] at h
    exact Option.some.inj h ▸ hserved
  · obtain ⟨rfl, hpath⟩ := hbelow (.inl rfl) (by decide) hpieces
    have hserved : Served resources "v3/registration" path _ := .page hpath hend
    rw [url_of_served hserved] at h
    exact Option.some.inj h ▸ hserved
  · rw [hroute] at h
    cases h

end Served

/-! ### Links -/

section Links

variable {env} {resources : ProxyResources} {backend : Backend} {host : Option String}
  {name rest text : String} {url : U}

theorem requestPath_below (hname : name = "v3/registration" ∨ name = "v3/flatcontainer")
    (rest : String) : requestPath ("/" ++ name ++ rest) =
      (percentDecodeStr (referencePath rest)).bind fun path =>
        StoragePath.fromUntrusted (name ++ path) := by
  have hfront : ∀ ch ∈ ("/" ++ name).toList, (ch != '#' && ch != '?') = true ∧ ch ≠ '%' := by
    refine List.all_iff_forall_prop.mp ?_
    rcases hname with rfl | rfl <;> decide
  have hreference : referencePath ("/" ++ name ++ rest) = "/" ++ name ++ referencePath rest := by
    unfold referencePath
    aesop
  have hpercent : '%' ∉ ("/" ++ name).toList := fun h => (hfront _ h).2 rfl
  grind [requestPath, percentDecodeStr_append, percentDecodeStr, referencePath, String.append_assoc,
    stripPrefix_append]

theorem not_isServiceIndexPath (hname : name = "v3/registration" ∨ name = "v3/flatcontainer")
    (path : String) : isServiceIndexPath (name ++ path) = false := by
  aesop

theorem leadsTo_iff (hname : name = "v3/registration" ∨ name = "v3/flatcontainer") :
    LeadsTo env resources backend host
        (externalRepositoryBase env host ++ ("/" ++ name) ++ rest) url ↔
      ∃ path text, percentDecodeStr (referencePath rest) = some path ∧
        (StoragePath.fromUntrusted (name ++ path)).isSome = true ∧
        Served resources name path text ∧ env.parseUrl text = some url := by
  have hlink : (stripPrefix (externalRepositoryBase env host)
      (externalRepositoryBase env host ++ ("/" ++ name) ++ rest)).bind requestPath =
        (percentDecodeStr (referencePath rest)).bind fun path =>
          StoragePath.fromUntrusted (name ++ path) := by
    rw [String.append_assoc, stripPrefix_append, Option.bind_some, requestPath_below hname]
  have hasked : ∀ (request : ProxyRequest) (path : String), request.canRead = true →
      StoragePath.fromUntrusted (name ++ path) = some request.path →
        (asked (handleRead env request) (.discovered backend resources, request) = [url] ↔
          ∃ text, Served resources name path text ∧ env.parseUrl text = some url) := by
    intro request path hread haccepted
    have htext := StoragePath.toString'_of_fromUntrusted haccepted
    rw [asked_handleRead hread (htext ▸ not_isServiceIndexPath hname path), htext]
    have hlist : ∀ o : Option U, o.toList = [url] ↔ o = some url := by
      intro o
      cases o <;> simp
    rw [hlist, Option.bind_eq_some_iff]
    exact exists_congr fun text => and_congr_left fun _ => ⟨served_of_url hname, url_of_served⟩
  unfold LeadsTo
  rw [hlink]
  constructor
  · rintro ⟨request, -, -, hread, hpath, hurl⟩
    obtain ⟨path, hdecode, haccepted⟩ := Option.bind_eq_some_iff.mp hpath
    grind
  · rintro ⟨path, text, hdecode, haccepted, hserved, hparse⟩
    obtain ⟨location, hlocation⟩ := Option.isSome_iff_exists.mp haccepted
    let request : ProxyRequest := ⟨location, .get, host, true, _, hlocation⟩
    refine ⟨request, rfl, rfl, rfl, ?_, ?_⟩
    · rw [hdecode]
      exact hlocation
    · exact (hasked request path rfl hlocation).mpr ⟨text, hserved, hparse⟩

theorem startsWith_of_isLink (h : isLink env resources text = true) :
    startsWith resources.registrationBase text = true ∨
      startsWith resources.flatcontainerBase text = true := by
  have hfront : ∀ base, startsWith (base ++ "/") text = true → startsWith base text = true := by
    intro base hbase
    obtain ⟨rest, hrest⟩ := startsWith_append_iff.mp hbase
    exact startsWith_append_iff.mpr ⟨"/" ++ rest, by rw [hrest, String.append_assoc]⟩
  rw [isLink, Bool.and_eq_true, Bool.or_eq_true] at h
  exact h.2.imp (hfront _) (hfront _)

theorem name_of_isLink {base : String} (h : isLink env resources text = true)
    (hbase : rewrittenBase resources text = some (base, name)) :
    name = "v3/registration" ∨ name = "v3/flatcontainer" := by
  unfold rewrittenBase at hbase
  split_ifs at hbase with hregistration hflatcontainer
  · exact .inl (Prod.mk.inj (Option.some.inj hbase)).2.symm
  · exact .inr (Prod.mk.inj (Option.some.inj hbase)).2.symm
  · exact ((startsWith_of_isLink h).elim hregistration hflatcontainer).elim

theorem not_isLink_of_none (h : rewrittenBase resources text = none) :
    isLink env resources text = false := by
  rw [← Bool.not_eq_true]
  grind [rewrittenBase, startsWith_of_isLink]

theorem linkKept_iff {text : String} :
    LinkKept env resources backend host text
        (rewriteText resources (externalRepositoryBase env host) text) ↔
      LinkOk env resources (externalRepositoryBase env host) text := by
  unfold LinkKept LinkOk
  cases hbase : rewrittenBase resources text with
  | none =>
    rw [not_isLink_of_none hbase, if_neg Bool.false_ne_true, rewriteText_of_none hbase]
    exact ⟨fun _ _ _ h => (by cases h), fun _ => rfl⟩
  | some found =>
    obtain ⟨base, name⟩ := found
    obtain ⟨rest, htext, hrewrite⟩ :=
      rewriteText_of_base hbase (externalRepositoryBase env host)
    have hsplit : ∀ rest', text = base ++ rest' → rest' = rest := by
      intro rest' h
      rw [htext, ← String.toList_inj, String.toList_append, String.toList_append] at h
      exact (String.toList_inj.mp (List.append_cancel_left h)).symm
    rw [hrewrite]
    cases hlink : isLink env resources text with
    | true =>
      rw [if_pos rfl]
      have hname := name_of_isLink hlink hbase
      constructor
      · rintro ⟨url, hparse, hleads⟩ base' name' h
        cases h
        obtain ⟨path, served, hdecode, haccepted, hserved, hurl⟩ := (leadsTo_iff hname).mp hleads
        grind
      · intro h
        have hok := h base name rfl
        rw [if_pos rfl] at hok
        obtain ⟨rest', path, served, htext', hdecode, haccepted, hserved, hurl⟩ := hok
        obtain rfl := hsplit rest' htext'
        have hparse : (env.parseUrl text).isSome = true := by
          rw [isLink, Bool.and_eq_true] at hlink
          exact hlink.1
        obtain ⟨url, hurl'⟩ := Option.isSome_iff_exists.mp hparse
        grind [leadsTo_iff]
    | false =>
      aesop

/-- **Where do the links of a NuGet proxy lead?**  To the URLs that they were, and the other texts
stay, if and only if this holds of each text. -/
theorem linksClosed_iff (env : ProxyEnvironment U) (resources : ProxyResources) (backend : Backend)
    (host : Option String) (document : Json) :
    LinksClosed env resources backend host document ↔
      ∀ text ∈ texts document, LinkOk env resources (externalRepositoryBase env host) text := by
  rw [LinksClosed, rewriteUpstreamUrls, texts_mapTexts, List.forall₂_map_right_iff,
    List.forall₂_same]
  exact forall₂_congr fun text _ => linkKept_iff

def pagedRegistration : Json :=
  .obj [("items", .arr [.obj [("@id", .str "https://up.test/reg/a/page/1.0.0/2.0.0.json")]])]

/-- The page is not served. -/
theorem not_linksClosed_page : ¬ LinksClosed demoEnvironment
    ⟨"https://up.test/flat", "https://up.test/reg", none⟩ .s3 (some "a.test")
    pagedRegistration := by
  intro h
  rw [LinksClosed, rewriteUpstreamUrls, texts_mapTexts, List.forall₂_map_right_iff,
    List.forall₂_same] at h
  have hok := linkKept_iff.mp (h "https://up.test/reg/a/page/1.0.0/2.0.0.json" (by decide))
    "https://up.test/reg" "v3/registration" (by decide)
  rw [if_pos (by decide)] at hok
  obtain ⟨rest, path, url, htext, hdecode, -, hserved, -⟩ := hok
  obtain rfl : rest = "/a/page/1.0.0/2.0.0.json" := by
    have hsplit : "https://up.test/reg" ++ "/a/page/1.0.0/2.0.0.json" =
        "https://up.test/reg" ++ rest := htext
    rw [← String.toList_inj, String.toList_append, String.toList_append] at hsplit
    exact (String.toList_inj.mp (List.append_cancel_left hsplit)).symm
  have hplain : percentDecodeStr (referencePath "/a/page/1.0.0/2.0.0.json") =
      some "/a/page/1.0.0/2.0.0.json" := by
    rw [show referencePath "/a/page/1.0.0/2.0.0.json" = "/a/page/1.0.0/2.0.0.json" by decide]
    exact percentDecodeStr_of_notMem (by decide)
  obtain rfl := Option.some.inj (hplain.symm.trans hdecode)
  have hroute := url_of_served hserved
  have hnone : (route ⟨"https://up.test/flat", "https://up.test/reg", none⟩
      ("v3/registration" ++ "/a/page/1.0.0/2.0.0.json")).url = none := by decide
  rw [hnone] at hroute
  cases hroute

end Links

end Pkgly.Nuget
