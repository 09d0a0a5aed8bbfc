import Pkgly.Nuget.Equiv.ProxyCache

/-!
# Whose answer does a NuGet proxy give?

A page of a registration that is stored is answered to everyone as it was rewritten for the first
request.  In every interleaving of requests each one is answered with the document of the upstream
rewritten for its own host (`AnswersOwn`) if and only if any two requests for one page, of which the
second one reads the body, have the same base, or no text of the page is rewritten
(`answersOwn_iff`).
-/

namespace Pkgly.Nuget

open Resumption

variable {U : Type} {env : ProxyEnvironment U} {R : ProxyRequest → Prop} {q : ProxyRequest}
  {s : ProxyState}

/-! ### Statements -/

def AnswersOwn (env : ProxyEnvironment U)
    (p : Thread (ProxyStep U) Bool ProxyState ProxyRequest ReadError ReadResponse) : Prop :=
  ∀ response, p.result = some (.ok (.other response)) → response.status = 200 →
    isRegistration p.own.path.toString' = true →
      ∃ document, ownDocument env p.own = some document ∧
        response = jsonResponse p.own.method document

def mentions (r : ProxyResources × Json) : Bool :=
  (texts r.2).any fun text => (rewrittenBase r.1 text).isSome

/-- Two requests for one page, of which the second one reads the body, have the same base, if the
page has a text that is rewritten. -/
def SameBases (env : ProxyEnvironment U) (R : ProxyRequest → Prop) : Prop :=
  ∀ q q', R q → R q' → q.canRead = true → q'.canRead = true → q'.method ≠ .head →
    q.path.toString' = q'.path.toString' →
      ∀ r, registrationDocument env q.path.toString' = some r → mentions r = true →
        externalRepositoryBase env q.host = externalRepositoryBase env q'.host

variable {r : ProxyResources × Json}

/-- Two bases rewrite a document alike only if they are equal, or nothing is rewritten. -/
theorem rewriteUpstreamUrls_eq_iff {b b' : String} :
    rewriteUpstreamUrls r.1 b r.2 = rewriteUpstreamUrls r.1 b' r.2 ↔
      (mentions r = true → b = b') := by
  rw [rewriteUpstreamUrls, rewriteUpstreamUrls, mapTexts_eq_iff, mentions, List.any_eq_true]
  constructor
  · rintro h ⟨text, htext, hbase⟩
    obtain ⟨⟨base, localPath⟩, hbase⟩ := Option.isSome_iff_exists.mp hbase
    obtain ⟨rest, rfl, hrewrite⟩ := rewriteText_of_base hbase b
    obtain ⟨rest', hrest, hrewrite'⟩ := rewriteText_of_base hbase b'
    simp_all
  · intro h text htext
    cases hbase : rewrittenBase r.1 text with
    | none => rw [rewriteText_of_none hbase, rewriteText_of_none hbase]
    | some base => rw [h ⟨text, htext, by rw [hbase]; rfl⟩]

/-! ### Every run -/

def ProxyState.fresh (backend : Backend) : ProxyState := ⟨⟨backend, ∅, ∅⟩, none⟩

theorem cacheOk_fresh (backend : Backend) : CacheOk env R (.fresh backend) where
  staging _ := Store.get_empty _
  resources _ h := by cases h
  documents _ _ content h := by
    have hnone : (∅ : Objects).get _ = some content := h
    rw [Store.get_empty] at hnone
    cases hnone

theorem jsonResponse_of_sameBases (hbases : SameBases env R) {q' : ProxyRequest} (hR : R q)
    (hR' : R q') (hread : q.canRead = true) (hread' : q'.canRead = true)
    (htext : q'.path.toString' = q.path.toString') {document : Json}
    (hown : ownDocument env q' = some document) :
    ∃ document', ownDocument env q = some document' ∧
      jsonResponse q.method document = jsonResponse q.method document' := by
  obtain ⟨r, hdocument, rfl⟩ := Option.map_eq_some_iff.mp hown
  refine ⟨rewriteUpstreamUrls r.1 (externalRepositoryBase env q.host) r.2, ?_, ?_⟩
  · rw [ownDocument, ← htext, hdocument, Option.map_some]
  · by_cases hhead : q.method = .head
    · rw [jsonResponse, jsonResponse, if_pos hhead, if_pos hhead]
    · have heq := rewriteUpstreamUrls_eq_iff.mpr fun hmentions =>
        hbases q' q hR' hR hread' hread hhead htext r hdocument hmentions
      rw [heq]

theorem answersOwn_of_sameBases (hround : RoundTrips env) (hbases : SameBases env R)
    {backend : Backend} {as : List (Pool.Action {request // R request} Bool)}
    {s : Pool ProxyState
      (Thread (ProxyStep U) Bool ProxyState ProxyRequest ReadError ReadResponse)}
    (hrun : run (proxyProgram env R).step ⟨.fresh backend, []⟩ as = some s)
    {p : Thread (ProxyStep U) Bool ProxyState ProxyRequest ReadError ReadResponse}
    (hp : p ∈ s.processes) : AnswersOwn env p := by
  have hguard : StepsOk (proxyProgram env R).step
      (Program.Guarded (Meets (proxyProtocol env R).guard)) ⟨.fresh backend, []⟩ as := by
    refine stepsOk_of_forall (fun t a => ?_) _ _
    cases a with
    | start input => trivial
    | advance i c =>
      intro p _
      unfold Meets
      split <;> trivial
  obtain ⟨-, -, hsafe⟩ := safe_of_run (P := proxyProtocol env R)
    (Q := fun r _ p => R p ∧ AnsweredFor env R p r) (fun _ _ _ _ _ h => h)
    (fun input s _ => (safe_handleRead hround input.2).mono fun r s p h => by
      obtain ⟨rfl, h⟩ := h
      exact ⟨input.2, h⟩) (cacheOk_fresh backend) hguard hrun
  obtain ⟨i, hi⟩ := List.mem_iff_getElem?.mp hp
  intro response hresult hstatus hregistration
  have htask := hsafe i p hi
  rw [Thread.of_result hresult] at htask
  obtain ⟨hR, hanswered⟩ := htask
  obtain ⟨hread, q', hR', hread', htext, document, hown, rfl⟩ :=
    hanswered response rfl hstatus hregistration
  exact jsonResponse_of_sameBases hbases hR hR' hread hread' htext hown

/-! ### Two requests in turn -/

theorem of_registrationDocument {path : String}
    (h : registrationDocument env path = some r) : upstreamResources env = some r.1 ∧
      ∃ text url, route r.1 path = .json text true ∧ env.parseUrl text = some url ∧
        upstreamJson env url = some r.2 := by
  obtain ⟨resources, hresources, hroute⟩ := Option.bind_eq_some_iff.mp h
  split at hroute
  · rename_i text hjson
    obtain ⟨value, hvalue, rfl⟩ := Option.map_eq_some_iff.mp hroute
    obtain ⟨url, hurl, hvalue⟩ := Option.bind_eq_some_iff.mp hvalue
    exact ⟨hresources, text, url, hjson, hurl, hvalue⟩
  · cases hroute

theorem of_upstreamJson {url : U} {value : Json} (h : upstreamJson env url = some value) :
    isSuccess (env.get url).status = true ∧
      (env.get url).body.bind env.serde.value = some value := by
  unfold upstreamJson at h
  split_ifs at h with hstatus
  exact ⟨hstatus, h⟩

theorem refusal_of_isSuccess {response : UpstreamResponse}
    (h : isSuccess response.status = true) : refusal response = none := by
  have hstatus : response.status ≠ 404 := by
    intro heq
    rw [heq] at h
    exact absurd h (by decide)
  rw [refusal, if_neg hstatus, if_neg (by rw [h]; decide)]

theorem ends_send (url : U) (t : ProxyState × ProxyRequest) :
    Ends (send env url) t (.ok (env.get url)) t := ends_act_iff.mpr ⟨false, rfl⟩

theorem ends_storageStep {α : Type} {f : DynStorage → Except StorageError (α × DynStorage)}
    (st : DynStorage) {a : α} (h : f s.storage = .ok (a, st)) :
    Ends (storageStep f : ProxyM U α) (s, q) (.ok a) ({ s with storage := st }, q) := by
  refine ends_act_iff.mpr ⟨false, ?_⟩
  dsimp only
  rw [if_neg Bool.false_ne_true, h]

theorem ends_discoverResources_known {resources : ProxyResources}
    (h : s.resources = some resources) :
    Ends (discoverResources env) (s, q) (.ok resources) (s, q) := by
  refine Ends.bind (a := some resources) (t := (s, q)) (ends_act_iff.mpr ⟨false, ?_⟩)
    (.returns _ _)
  rw [h]

theorem ends_discoverResources_unknown {resources : ProxyResources}
    (hnone : s.resources = none) (h : upstreamResources env = some resources) :
    Ends (discoverResources env) (s, q) (.ok resources)
      ({ s with resources := some resources }, q) := by
  obtain ⟨url, hurl, hjson⟩ := Option.bind_eq_some_iff.mp h
  obtain ⟨index, hindex, hread⟩ := Option.bind_eq_some_iff.mp hjson
  obtain ⟨hstatus, hbody⟩ := of_upstreamJson hindex
  have hok : readResources index = .ok resources := by
    cases hcases : readResources index with
    | error e =>
      rw [hcases] at hread
      cases hread
    | ok resources' =>
      rw [hcases] at hread
      rw [Option.some.inj hread]
  refine Ends.bind (a := none) (t := (s, q)) (ends_act_iff.mpr ⟨false, by rw [hnone]⟩) ?_
  dsimp only
  rcases upstreamServiceIndexUrl_cases env with ⟨url', hurl', hpure⟩ | ⟨hnone', -⟩
  · obtain rfl := Option.some.inj (hurl.symm.trans hurl')
    rw [hpure]
    refine Ends.bind (.returns _ _) (Ends.bind (ends_send url _) ?_)
    rw [hstatus, if_neg (by decide)]
    unfold readJson
    rw [hbody]
    refine Ends.bind (.returns _ _) ?_
    rw [hok]
    exact ends_act_iff.mpr ⟨false, rfl⟩
  · rw [hurl] at hnone'
    cases hnone'

theorem rejects_eq_false (st : DynStorage) (request : ProxyRequest) :
    st.rejects request.path = false := by
  unfold DynStorage.rejects
  split
  · rw [request.validate]
    rfl
  · rfl

def ProxyState.served (env : ProxyEnvironment U) (backend : Backend) (q : ProxyRequest)
    (resources : ProxyResources) (document : Json) : ProxyState :=
  ⟨⟨backend, Store.put ∅ q.path.components (env.print document), ∅⟩, some resources⟩

theorem ends_handleRead {t u : ProxyState}
    {result : Except ReadError ReadResponse} {text : String} {url : U}
    (hread : q.canRead = true) (hroute : route r.1 q.path.toString' = .json text true)
    (hurl : env.parseUrl text = some url)
    (hdiscover : Ends (discoverResources env) (s, q) (.ok r.1) (t, q))
    (hfetch : Ends (fetchJson env url q.path q.method (externalRepositoryBase env q.host) true)
      (t, q) result (u, q)) : Ends (handleRead env q) (s, q) result (u, q) := by
  have hregistration : isRegistration q.path.toString' = true := isRegistration_iff.mpr ⟨_, hroute⟩
  have hindex : isServiceIndexPath q.path.toString' = false := by
    rw [← Bool.not_eq_true]
    intro h
    rw [not_isRegistration_of_isServiceIndexPath h] at hregistration
    cases hregistration
  refine Ends.bind (ends_act_iff.mpr ⟨false, rfl⟩) ?_
  simp only [hread, hindex, Bool.not_true, Bool.false_eq_true, if_false]
  refine Ends.bind hdiscover ?_
  rw [hroute]
  refine Ends.bind (a := url) (t := (t, q)) ?_ hfetch
  rw [parseUrl, hurl]
  exact .returns _ _

theorem openFile_fresh (backend : Backend) (request : ProxyRequest) :
    (ProxyState.fresh backend).storage.openFile request.path = .ok none := by
  have hempty : ∀ key : Option (List String), key.bind (Store.get (∅ : Objects)) = none := by
    intro key
    cases key with
    | none => rfl
    | some key => exact Store.get_empty key
  unfold DynStorage.openFile
  rw [rejects_eq_false, if_neg Bool.false_ne_true]
  rw [show (ProxyState.fresh backend).storage.staging = ∅ from rfl,
    show (ProxyState.fresh backend).storage.objects = ∅ from rfl, hempty]
  rfl

theorem ProxyRequest.components_ne_nil {request : ProxyRequest}
    (h : isRegistration request.path.toString' = true) : request.path.components ≠ [] := by
  grind [ProxyRequest.getElem?_components_of_isRegistration]

theorem saveFile_fresh (backend : Backend) {request : ProxyRequest} (content : Bytes)
    (h : isRegistration request.path.toString' = true) :
    (ProxyState.fresh backend).storage.saveFile content request.path =
      .ok ⟨backend, Store.put ∅ request.path.components content, ∅⟩ := by
  refine DynStorage.saveFile_of_free request.path content (rejects_eq_false _ _) rfl ?_
  rw [Bool.or_eq_false_iff, List.isEmpty_eq_false_iff]
  exact ⟨ProxyRequest.components_ne_nil h, rfl⟩

theorem ends_first (backend : Backend) (hread : q.canRead = true)
    (h : registrationDocument env q.path.toString' = some r) :
    let document := rewriteUpstreamUrls r.1 (externalRepositoryBase env q.host) r.2
    Ends (handleRead env q) (.fresh backend, q) (.ok (.other (jsonResponse q.method document)))
      (.served env backend q r.1 document, q) := by
  intro document
  obtain ⟨hresources, text, url, hroute, hurl, hjson⟩ := of_registrationDocument h
  obtain ⟨hstatus, hbody⟩ := of_upstreamJson hjson
  refine ends_handleRead (t := { ProxyState.fresh backend with resources := some r.1 }) hread hroute
    hurl (ends_discoverResources_unknown rfl hresources) ?_
  have hsave : (ProxyState.fresh backend).storage.saveFile (env.print document) q.path =
      .ok (ProxyState.served env backend q r.1 document).storage :=
    saveFile_fresh backend _ (isRegistration_iff.mpr ⟨_, hroute⟩)
  unfold fetchJson readBytes
  refine Ends.bind (a := none) (ends_storageStep (ProxyState.fresh backend).storage ?_) ?_
  · dsimp only
    rw [openFile_fresh]
    rfl
  · dsimp only
    refine Ends.bind (ends_send url _) ?_
    rw [refusal_of_isSuccess hstatus]
    dsimp only
    unfold readJson
    rw [hbody]
    refine Ends.bind (.returns _ _) ?_
    simp only [if_true]
    refine Ends.bind (ends_discoverResources_known rfl) ?_
    refine Ends.bind (.returns _ _) ?_
    refine Ends.bind (a := ()) (ends_storageStep
      (ProxyState.served env backend q r.1 document).storage ?_) (.returns _ _)
    dsimp only
    rw [hsave]
    rfl

theorem ends_second (hround : RoundTrips env) (backend : Backend) {q' : ProxyRequest}
    (hread : q'.canRead = true) (h : registrationDocument env q'.path.toString' = some r)
    (htext : q.path.toString' = q'.path.toString') (f : String → String) :
    let s := ProxyState.served env backend q r.1 (mapTexts f r.2)
    Ends (handleRead env q') (s, q') (.ok (.other (jsonResponse q'.method (mapTexts f r.2))))
      (s, q') := by
  intro s
  obtain ⟨-, text, url, hroute, hurl, -⟩ := of_registrationDocument h
  have hregistration : isRegistration q'.path.toString' = true :=
    isRegistration_iff.mpr ⟨_, hroute⟩
  refine ends_handleRead hread hroute hurl (ends_discoverResources_known rfl) ?_
  have hget : s.storage.objects.get q'.path.components = some (env.print (mapTexts f r.2)) := by
    rw [q'.components_eq, ← htext, ← q.components_eq]
    exact Store.get_put_self _ _ _
  have hopen : s.storage.openFile q'.path = .ok (some (.file (env.print (mapTexts f r.2)))) :=
    DynStorage.openFile_of_get _ (rejects_eq_false _ _)
      (ProxyRequest.not_isDirectory_of_isRegistration hregistration) (fun _ => Store.get_empty _)
      hget
  unfold fetchJson readBytes
  refine Ends.bind (a := some (env.print (mapTexts f r.2)))
    (ends_storageStep s.storage ?_) ?_
  · rw [hopen]
    rfl
  · dsimp only
    rw [hround _ r h]
    exact .returns _ _

theorem exists_run_served (hround : RoundTrips env) (backend : Backend) {q' : ProxyRequest}
    (hR : R q) (hR' : R q') (hread : q.canRead = true) (hread' : q'.canRead = true)
    (htext : q.path.toString' = q'.path.toString')
    (h : registrationDocument env q.path.toString' = some r) :
    ∃ as s, run (proxyProgram env R).step ⟨.fresh backend, []⟩ as = some s ∧
      ⟨q', .done (.ok (.other (jsonResponse q'.method
        (rewriteUpstreamUrls r.1 (externalRepositoryBase env q.host) r.2))))⟩ ∈ s.processes := by
  let start (request : {request // R request}) :
      Thread (ProxyStep U) Bool ProxyState ProxyRequest ReadError ReadResponse :=
    ⟨request.1, handleRead env request.1⟩
  let document := rewriteUpstreamUrls r.1 (externalRepositoryBase env q.host) r.2
  let first : Thread (ProxyStep U) Bool ProxyState ProxyRequest ReadError ReadResponse :=
    ⟨q, .done (.ok (.other (jsonResponse q.method document)))⟩
  obtain ⟨as, has⟩ := run_of_ends start [] (ends_first backend hread h)
  obtain ⟨as', has'⟩ := run_of_ends start [first]
    (ends_second (q := q) hround backend hread' (htext ▸ h) htext
      (rewriteText r.1 (externalRepositoryBase env q.host)))
  have hsecond : (program start).step ⟨.served env backend q r.1 document, [first]⟩
      (.start ⟨q', hR'⟩) =
        some ⟨.served env backend q r.1 document, [first] ++ [start ⟨q', hR'⟩]⟩ := rfl
  have hfirst : (program start).step ⟨.fresh backend, []⟩ (.start ⟨q, hR⟩) =
      some ⟨.fresh backend, [] ++ [start ⟨q, hR⟩]⟩ := rfl
  have hrun := run_cons_eq_some.mpr ⟨_, hfirst, run_append_eq_some.mpr
    ⟨_, has, run_cons_eq_some.mpr ⟨_, hsecond, has'⟩⟩⟩
  exact ⟨_, _, hrun, List.mem_append_right _ (List.mem_singleton_self _)⟩

theorem base_eq_of_answersOwn (hround : RoundTrips env) {backend : Backend}
    (h : ∀ as s, run (proxyProgram env R).step ⟨.fresh backend, []⟩ as = some s →
      ∀ p ∈ s.processes, AnswersOwn env p) (q q' : ProxyRequest) (hR : R q) (hR' : R q')
    (hread : q.canRead = true) (hread' : q'.canRead = true) (hhead : q'.method ≠ .head)
    (htext : q.path.toString' = q'.path.toString')
    (hdocument : registrationDocument env q.path.toString' = some r)
    (hmentions : mentions r = true) :
    externalRepositoryBase env q.host = externalRepositoryBase env q'.host := by
  obtain ⟨as, s, hrun, hmem⟩ :=
    exists_run_served hround backend hR hR' hread hread' htext hdocument
  have hregistration : isRegistration q'.path.toString' = true := by
    obtain ⟨-, text, url, hroute, -⟩ := of_registrationDocument hdocument
    rw [← htext]
    exact isRegistration_iff.mpr ⟨_, hroute⟩
  have hstatus : ∀ document, (jsonResponse q'.method document).status = 200 := by
    intro document
    unfold jsonResponse
    split_ifs <;> rfl
  obtain ⟨document, hown, heq⟩ := h as s hrun _ hmem _ rfl (hstatus _) hregistration
  rw [ownDocument, ← htext, hdocument, Option.map_some] at hown
  rw [← Option.some.inj hown, jsonResponse, jsonResponse, if_neg hhead, if_neg hhead] at heq
  exact rewriteUpstreamUrls_eq_iff.mp (Body.json.inj (Response.mk.inj heq).2) hmentions

/-- **Whose answer does a NuGet proxy give?**  Every request of every run is answered with the
document rewritten for its own host, if and only if requests for one page have one base. -/
theorem answersOwn_iff (hround : RoundTrips env) (R : ProxyRequest → Prop) (backend : Backend) :
    (∀ as s, run (proxyProgram env R).step ⟨.fresh backend, []⟩ as = some s →
      ∀ p ∈ s.processes, AnswersOwn env p) ↔ SameBases env R := by
  constructor
  · intro h q q' hR hR' hread hread' hhead htext r hdocument hmentions
    exact base_eq_of_answersOwn hround h q q' hR hR' hread hread' hhead htext hdocument hmentions
  · intro hbases as s hrun p hp
    exact answersOwn_of_sameBases hround hbases hrun hp

/-! ### Two hosts -/

def selfDocument (url : String) : Json := .obj [("@id", .str url)]

/-- The text of such a document, for URLs that need no escapes. -/
def selfText (url : String) : String := "\x7b\"@id\":\"" ++ (url ++ "\"\x7d")

def demoIndex : Json :=
  .obj [("resources", .arr [
    .obj [("@id", .str "https://up.test/flat/"), ("@type", .str "PackageBaseAddress/3.0.0")],
    .obj [("@id", .str "https://up.test/reg/"), ("@type", .str "RegistrationsBaseUrl")]])]

def demoIndexText : String :=
  "\x7b\"resources\":[" ++
    ("\x7b\"@id\":\"https://up.test/flat/\",\"@type\":\"PackageBaseAddress/3.0.0\"\x7d," ++
      "\x7b\"@id\":\"https://up.test/reg/\",\"@type\":\"RegistrationsBaseUrl\"\x7d]\x7d")

def demoParse (text : String) : Option Json :=
  if text = demoIndexText then some demoIndex
  else (stripPrefix "\x7b\"@id\":\"" text).bind fun rest =>
    (stripSuffix "\"\x7d".toList rest.toList).map fun url => selfDocument (String.ofList url)

def demoSerde : SerdeJson where
  parse bytes := (fromUtf8 bytes).bind demoParse
  acceptsValue _ := true

def demoGet (url : String) : UpstreamResponse :=
  if url = "https://up.test/index.json" then ⟨200, some (intoBytes demoIndexText), none⟩
  else ⟨200, some (intoBytes (selfText "https://up.test/reg/a/index.json")), none⟩

def demoEnvironment : ProxyEnvironment String where
  serde := demoSerde
  print
    | .obj [("@id", .str url)] => intoBytes (selfText url)
    | _ => []
  parseUrl := some
  pushSegments url segments := some (url ++ "/" ++ String.intercalate "/" segments)
  displayStatus := toString
  get := demoGet
  upstreamUrl := "https://up.test/index.json"
  storageName := "main"
  name := "nuget"
  isHttps := true
  appUrl := ""

def demoRequest (host : String) : ProxyRequest where
  path := .ofString "v3/registration/a/index.json"
  method := .get
  host := some host
  canRead := true
  accepted := ⟨"v3/registration/a/index.json", by decide⟩

theorem value_demo (text : String) : demoSerde.value (intoBytes text) = demoParse text := by
  rw [SerdeJson.value]
  change ((fromUtf8 _).bind demoParse).filter _ = _
  aesop

theorem value_selfText (url : String) :
    demoSerde.value (intoBytes (selfText url)) = some (selfDocument url) := by
  have hindex : selfText url ≠ demoIndexText := by
    intro h
    have hstart : startsWith "\x7b\"@id\":\"" demoIndexText = true := by
      rw [← h]
      exact startsWith_append _ _
    rw [startsWith, demoIndexText, String.toList_append] at hstart
    generalize (_ ++ _ : String).toList = rest at hstart
    cases hstart
  simp_all [stripSuffix, String.toList_append, value_demo, demoParse, selfText, stripPrefix_append,
    Option.bind_some, String.ofList_toList]

theorem upstreamJson_demo (text : String) {url : String} {value : Json}
    (hget : demoGet url = ⟨200, some (intoBytes text), none⟩)
    (hparse : demoParse text = some value) :
    upstreamJson demoEnvironment url = some value := by
  simp_all [demoGet, Option.bind_some, value_demo, isSuccess, upstreamJson, demoEnvironment]

theorem upstreamResources_demo : upstreamResources demoEnvironment =
    some ⟨"https://up.test/flat", "https://up.test/reg", none⟩ := by
  have hjson : upstreamJson demoEnvironment "https://up.test/index.json" = some demoIndex :=
    upstreamJson_demo demoIndexText (by rw [demoGet, if_pos rfl]) (by
      rw [demoParse, if_pos rfl])
  have hurl : indexUrl demoEnvironment = some "https://up.test/index.json" := by
    have hend : endsWith "/index.json" demoEnvironment.upstreamUrl = true := by decide
    rw [indexUrl, hend]
    rfl
  have hread : readResources demoIndex =
      .ok ⟨"https://up.test/flat", "https://up.test/reg", none⟩ := by decide
  rw [upstreamResources, hurl, Option.bind_some, hjson, Option.bind_some, hread]
  rfl

theorem of_registrationDocument_demo {path : String}
    (h : registrationDocument demoEnvironment path = some r) :
    r = (⟨"https://up.test/flat", "https://up.test/reg", none⟩,
      selfDocument "https://up.test/reg/a/index.json") := by
  obtain ⟨hresources, text, url, hroute, hurl, hjson⟩ := of_registrationDocument h
  have hfirst := Option.some.inj (upstreamResources_demo.symm.trans hresources)
  obtain rfl := Option.some.inj hurl
  have hother : text ≠ "https://up.test/index.json" := by
    rintro rfl
    rcases route_cases r.1 path with ⟨_, _, -, heq⟩ | ⟨_, _, _, -, -, -, heq⟩ |
      ⟨_, _, _, -, -, -, heq⟩ | ⟨id, file, -, -, heq⟩ | heq
    case inr.inr.inr.inl =>
      have htext := (Route.json.inj (hroute.symm.trans heq)).1
      rw [← hfirst] at htext
      have hstart : startsWith "https://up.test/reg" "https://up.test/index.json" = true :=
        startsWith_append_iff.mpr ⟨"/" ++ id ++ "/" ++ file, by
          rw [htext]
          simp only [String.append_assoc]⟩
      exact absurd hstart (by decide)
    case inl => exact absurd (Route.json.inj (hroute.symm.trans heq)).2 (by decide)
    all_goals
      rw [hroute] at heq
      cases heq
  have hpage := upstreamJson_demo _ (by rw [demoGet, if_neg hother]) ((value_demo _).symm.trans
    (value_selfText "https://up.test/reg/a/index.json"))
  rw [← Prod.mk.eta (p := r), ← hfirst, ← Option.some.inj (hpage.symm.trans hjson)]

theorem roundTrips_demo : RoundTrips demoEnvironment := by
  intro path r h f
  rw [of_registrationDocument_demo h]
  exact value_selfText _

theorem registrationDocument_demo (host : String) :
    registrationDocument demoEnvironment (demoRequest host).path.toString' =
      some (⟨"https://up.test/flat", "https://up.test/reg", none⟩,
        selfDocument "https://up.test/reg/a/index.json") := by
  have hpath : (demoRequest host).path.toString' = "v3/registration/a/index.json" := by
    change (StoragePath.ofString "v3/registration/a/index.json").toString' = _
    decide
  have hjson : upstreamJson demoEnvironment "https://up.test/reg/a/index.json" =
      some (selfDocument "https://up.test/reg/a/index.json") :=
    upstreamJson_demo _ (by rw [demoGet, if_neg (by decide)])
      ((value_demo _).symm.trans (value_selfText _))
  have hpieces : pieces '/' "v3/registration/a/index.json" =
      ["v3", "registration", "a", "index.json"] := by decide
  rw [registrationDocument, upstreamResources_demo, Option.bind_some, hpath,
    route_registration _ hpieces (by decide)]
  change (Option.bind (some ("https://up.test/reg" ++ "/" ++ "a" ++ "/" ++ "index.json"))
    _).map _ = _
  rw [show ("https://up.test/reg" ++ "/" ++ "a" ++ "/" ++ "index.json" : String) =
    "https://up.test/reg/a/index.json" by decide, Option.bind_some, hjson, Option.map_some]

/-- Requests to one host are answered with their own documents. -/
theorem answersOwn_demo : SameBases demoEnvironment (fun q => q.host = some "a.test") ∧
    ∀ as s, run (proxyProgram demoEnvironment fun q => q.host = some "a.test").step
      ⟨.fresh .s3, []⟩ as = some s → ∀ p ∈ s.processes, AnswersOwn demoEnvironment p := by
  have hbases : SameBases demoEnvironment (fun q => q.host = some "a.test") := by
    intro q q' hq hq' _ _ _ _ _ _ _
    rw [hq, hq']
  exact ⟨hbases, (answersOwn_iff roundTrips_demo _ _).mpr hbases⟩

/-- A request to another host gets the links of the first one. -/
theorem not_answersOwn_hosts :
    ¬ ∀ as s, run (proxyProgram demoEnvironment fun _ => True).step ⟨.fresh .s3, []⟩ as = some s →
      ∀ p ∈ s.processes, AnswersOwn demoEnvironment p := by
  intro h
  have hbase := base_eq_of_answersOwn roundTrips_demo h (demoRequest "evil.test")
    (demoRequest "a.test") trivial trivial rfl rfl (by decide) rfl (registrationDocument_demo _)
    (by decide)
  exact absurd hbase (by decide)

end Pkgly.Nuget
