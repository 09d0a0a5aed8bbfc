import Pkgly.Nuget.Equiv.Routes

/-!
# What a NuGet proxy stores

A page of a registration is rewritten for the host that the request came to, and then stored.
`CacheOk` says that a stored page is the document rewritten for one of the requests to the page; no
step of a request takes it away, and an answer is a document that was rewritten for one of the
requests (`safe_handleRead`).
-/

namespace Pkgly.Nuget

open Resumption

variable {U : Type} (env : ProxyEnvironment U)

/-! ### The upstream -/

def indexUrl : Option U :=
  (env.parseUrl env.upstreamUrl).bind fun url =>
    if endsWith "/index.json" env.upstreamUrl then some url
    else env.pushSegments url ["v3", "index.json"]

def upstreamJson (url : U) : Option Json :=
  if isSuccess (env.get url).status then (env.get url).body.bind env.serde.value else none

def upstreamResources : Option ProxyResources :=
  (indexUrl env).bind fun url =>
    (upstreamJson env url).bind fun index => (readResources index).toOption

def registrationDocument (path : String) : Option (ProxyResources × Json) :=
  (upstreamResources env).bind fun resources =>
    match route resources path with
    | .json url true => ((env.parseUrl url).bind (upstreamJson env)).map (resources, ·)
    | _ => none

def ownDocument (request : ProxyRequest) : Option Json :=
  (registrationDocument env request.path.toString').map fun r =>
    rewriteUpstreamUrls r.1 (externalRepositoryBase env request.host) r.2

def RoundTrips : Prop :=
  ∀ path r, registrationDocument env path = some r → ∀ f : String → String,
    env.serde.value (env.print (mapTexts f r.2)) = some (mapTexts f r.2)

variable {env}

/-! ### What is kept -/

structure CacheOk (env : ProxyEnvironment U) (R : ProxyRequest → Prop) (s : ProxyState) : Prop where
  staging : ∀ key, s.storage.staging.get key = none
  resources : ∀ resources, s.resources = some resources → upstreamResources env = some resources
  documents : ∀ q : ProxyRequest, isRegistration q.path.toString' = true → ∀ content,
    s.storage.objects.get q.path.components = some content →
      ∃ q', R q' ∧ q'.canRead = true ∧ q'.path.toString' = q.path.toString' ∧
        ∃ document, ownDocument env q' = some document ∧ content = env.print document

def proxyProtocol (env : ProxyEnvironment U) (R : ProxyRequest → Prop) :
    Protocol (ProxyStep U) Bool ProxyState ProxyRequest where
  guard _ _ _ _ := True
  inv := CacheOk env R
  keeps _ _ := True
  keeps_refl _ := trivial
  keeps_trans _ _ _ _ _ := trivial

variable {R : ProxyRequest → Prop} {q : ProxyRequest} {s : ProxyState}

/-- Storing keeps the pages if what is stored is no page, or one that is rewritten for a request. -/
theorem CacheOk.save (h : CacheOk env R s) {content : Bytes} {st : DynStorage} {q : ProxyRequest}
    (hsave : s.storage.saveFile content q.path = .ok st)
    (hpage : isRegistration q.path.toString' = true →
      R q ∧ q.canRead = true ∧
        ∃ document, ownDocument env q = some document ∧ content = env.print document)
    (hother : isRegistration q.path.toString' = false →
      q.path.components[1]? = some "flatcontainer") :
    CacheOk env R { s with storage := st } := by
  obtain rfl := DynStorage.eq_of_saveFile hsave
  refine ⟨h.staging, h.resources, fun q' hq' content' hget => ?_⟩
  rcases Store.get_put_eq_some.mp hget with ⟨hkey, hcontent⟩ | ⟨-, hget⟩
  · grind [isRegistration, ProxyRequest.eq_of_components,
      ProxyRequest.getElem?_components_of_isRegistration, absurd, Option.some.inj]
  · exact h.documents q' hq' content' hget

theorem safe_storageStep {α : Type} {f : DynStorage → Except StorageError (α × DynStorage)}
    {Q : Except ReadError α → ProxyState → ProxyRequest → Prop}
    (hok : ∀ t a st, CacheOk env R t → f t.storage = .ok (a, st) →
      CacheOk env R { t with storage := st } ∧ Q (.ok a) { t with storage := st } q)
    (herror : ∀ e t, Q (.error e) t q) :
    Safe (proxyProtocol env R) Q (storageStep f) s q := by
  refine safe_act fun t _ hinv fails _ => ?_
  cases fails with
  | true => exact ⟨hinv, trivial, herror _ _⟩
  | false =>
    rw [if_neg Bool.false_ne_true]
    cases hf : f t.storage with
    | error e => exact ⟨hinv, trivial, herror _ _⟩
    | ok r =>
      obtain ⟨hinv', hQ⟩ := hok t r.1 r.2 hinv hf
      exact ⟨hinv', trivial, hQ⟩

/-! ### The requests keep it -/

theorem upstreamServiceIndexUrl_cases (env : ProxyEnvironment U) :
    (∃ url, indexUrl env = some url ∧ upstreamServiceIndexUrl env = pure url) ∨
      indexUrl env = none ∧ ∃ e, upstreamServiceIndexUrl env = throw e := by
  unfold indexUrl upstreamServiceIndexUrl parseUrl
  cases env.parseUrl env.upstreamUrl with
  | none => exact .inr ⟨rfl, .url, rfl⟩
  | some url =>
    rw [Option.bind_some, pure_bind]
    split_ifs with hend
    · exact .inl ⟨url, rfl, rfl⟩
    aesop

theorem safe_send (url : U) :
    Safe (proxyProtocol env R) (fun r _ p => p = q ∧ ∀ response, r = .ok response →
      response = env.get url) (send env url) s q := by
  refine safe_act fun t _ hinv fails _ => ?_
  aesop

theorem safe_discoverResources :
    Safe (proxyProtocol env R) (fun r _ p => p = q ∧ ∀ resources, r = .ok resources →
      upstreamResources env = some resources) (discoverResources env) s q := by
  unfold discoverResources
  refine safe_bind (Q := fun r _ p => p = q ∧ ∀ cached, r = .ok cached →
    ∀ resources, cached = some resources → upstreamResources env = some resources)
    (safe_act fun t _ hinv _ _ => ⟨hinv, trivial, rfl, ?_⟩) ?_ ?_
  · intro cached h resources hcached
    obtain rfl := Except.ok.inj h
    exact hinv.resources resources hcached
  · rintro cached s p ⟨rfl, hcached⟩
    cases cached with
    | some resources =>
      exact safe_pure ⟨rfl, fun resources' h => (Except.ok.inj h) ▸ hcached _ rfl resources rfl⟩
    | none =>
      rcases upstreamServiceIndexUrl_cases env with ⟨url, hurl, hindex⟩ | ⟨-, e, hindex⟩
      · rw [hindex]
        simp only [Resumption.pure_bind]
        refine safe_bind (safe_send url) ?_ fun e s p h => ⟨h.1, fun _ h => by cases h⟩
        rintro response s p ⟨rfl, hresponse⟩
        obtain rfl := hresponse response rfl
        cases hstatus : isSuccess (env.get url).status with
        | false =>
          rw [if_pos (by rfl)]
          exact safe_throw ⟨rfl, fun _ h => by cases h⟩
        | true =>
          rw [if_neg (by decide)]
          unfold readJson
          cases hbody : (env.get url).body.bind env.serde.value with
          | none => exact safe_throw ⟨rfl, fun _ h => by cases h⟩
          | some index =>
            simp only [Resumption.pure_bind]
            cases hread : readResources index with
            | error e => exact safe_throw ⟨rfl, fun _ h => by cases h⟩
            | ok resources =>
              have hresources : upstreamResources env = some resources := by
                rw [upstreamResources, hurl, Option.bind_some, upstreamJson, if_pos hstatus, hbody,
                  Option.bind_some, hread]
                rfl
              refine safe_act fun t _ hinv _ _ => ⟨⟨hinv.staging, ?_, hinv.documents⟩, trivial,
                rfl, fun _ h => (Except.ok.inj h) ▸ hresources⟩
              intro resources' h
              obtain rfl := Option.some.inj h
              exact hresources
      · rw [hindex]
        exact safe_throw ⟨rfl, fun _ h => by cases h⟩
  · rintro e s p ⟨rfl, -⟩
    exact ⟨rfl, fun _ h => by cases h⟩

theorem safe_readBytes (path : StoragePath) :
    Safe (proxyProtocol env R) (fun r _ p => p = q ∧ ∀ content, r = .ok (some content) →
      ∃ t, CacheOk env R t ∧ t.storage.openFile path = .ok (some (.file content)))
      (readBytes path) s q := by
  refine safe_storageStep (fun t a st hinv h => ?_) fun _ _ => ⟨rfl, fun _ h => by cases h⟩
  cases hopen : t.storage.openFile path with
  | error e =>
    rw [hopen] at h
    cases h
  | ok file =>
    rw [hopen] at h
    rcases file with _ | ⟨content⟩ | files
    · cases h
      exact ⟨hinv, rfl, fun _ h => by cases h⟩
    · cases h
      aesop
    · cases h
      exact ⟨hinv, rfl, fun _ h => by cases h⟩

theorem safe_openResponse (path : StoragePath) :
    Safe (proxyProtocol env R) (fun _ _ p => p = q) (openResponse path) s q := by
  refine safe_storageStep (fun t a st hinv h => ?_) fun _ _ => rfl
  cases hopen : t.storage.openFile path with
  | error e =>
    rw [hopen] at h
    cases h
  | ok file =>
    rw [hopen] at h
    cases file with
    | none | some file =>
      cases h
      exact ⟨hinv, rfl⟩

theorem safe_saveBytes {content : Bytes}
    (hpage : isRegistration q.path.toString' = true →
      R q ∧ q.canRead = true ∧
        ∃ document, ownDocument env q = some document ∧ content = env.print document)
    (hother : isRegistration q.path.toString' = false →
      q.path.components[1]? = some "flatcontainer") :
    Safe (proxyProtocol env R) (fun _ _ p => p = q) (saveBytes content q.path) s q := by
  refine safe_storageStep (fun t a st hinv h => ?_) fun _ _ => rfl
  cases hsave : t.storage.saveFile content q.path with
  | error e =>
    rw [hsave] at h
    cases h
  | ok st' =>
    rw [hsave] at h
    cases h
    exact ⟨hinv.save hsave hpage hother, rfl⟩

def AnsweredFor (env : ProxyEnvironment U) (R : ProxyRequest → Prop) (q : ProxyRequest)
    (r : Except ReadError ReadResponse) : Prop :=
  ∀ response, r = .ok (.other response) → response.status = 200 →
    isRegistration q.path.toString' = true → q.canRead = true ∧
      ∃ q', R q' ∧ q'.canRead = true ∧ q'.path.toString' = q.path.toString' ∧
        ∃ document, ownDocument env q' = some document ∧ response = jsonResponse q.method document

theorem answeredFor_error (e : ReadError) : AnsweredFor env R q (.error e) :=
  fun _ h => by cases h

theorem answeredFor_of_status {response : Response} (h : response.status ≠ 200) :
    AnsweredFor env R q (.ok (.other response)) := by
  intro response' heq hstatus
  cases heq
  exact absurd hstatus h

theorem answeredFor_of_not {r : Except ReadError ReadResponse}
    (h : isRegistration q.path.toString' = false) : AnsweredFor env R q r := by
  intro response _ _ hregistration
  rw [h] at hregistration
  cases hregistration

theorem get_of_openFile {st : DynStorage} {path : StoragePath} {content : Bytes}
    (hunstaged : ∀ key, st.staging.get key = none)
    (h : st.openFile path = .ok (some (.file content))) :
    st.objects.get path.components = some content := by
  have hkey : ∀ store : Objects, (st.lookupKey? path).bind store.get = some content →
      store.get path.components = some content := by grind [DynStorage.lookupKey?, Option.some.inj]
  rcases (DynStorage.openFile_eq_file_iff.mp h).2 with hstaged | ⟨-, hget⟩
  · have hsome := hkey _ hstaged
    rw [hunstaged] at hsome
    cases hsome
  · exact hkey _ hget

theorem status_of_refusal {response : UpstreamResponse} {answer : Response}
    (h : refusal response = some answer) : answer.status ≠ 200 := by
  unfold refusal at h
  split_ifs at h
  · cases h
    decide
  · cases h
    decide

theorem isSuccess_of_refusal {response : UpstreamResponse} (h : refusal response = none) :
    isSuccess response.status = true := by
  unfold refusal at h
  split_ifs at h with h404 hstatus
  simpa using hstatus

theorem safe_fetchJson (hround : RoundTrips env) (hR : R q) (hread : q.canRead = true) {url : U}
    (hother : isRegistration q.path.toString' = false →
      q.path.components[1]? = some "flatcontainer")
    (hurl : isRegistration q.path.toString' = true → ∀ resources value,
      upstreamResources env = some resources → upstreamJson env url = some value →
        registrationDocument env q.path.toString' = some (resources, value)) :
    Safe (proxyProtocol env R) (fun r _ p => p = q ∧ AnsweredFor env R q r)
      (fetchJson env url q.path q.method (externalRepositoryBase env q.host)
        (isRegistration q.path.toString')) s q := by
  have herror : ∀ (e : ReadError) (s : ProxyState) (p : ProxyRequest), p = q →
      p = q ∧ AnsweredFor env R q (.error e) := fun e _ _ h => ⟨h, answeredFor_error e⟩
  unfold fetchJson
  refine safe_bind (safe_readBytes q.path) ?_ fun e s p h => herror e s p h.1
  rintro cached s p ⟨rfl, hcached⟩
  cases cached with
  | some content =>
    obtain ⟨t, hinv, hopen⟩ := hcached content rfl
    dsimp only
    cases hvalue : env.serde.value content with
    | none => exact safe_throw (herror _ s p rfl)
    | some value =>
      refine safe_pure ⟨rfl, fun response h _ hregistration => ⟨hread, ?_⟩⟩
      cases h
      -- what is stored was rewritten for some request
      obtain ⟨q', hR', hread', htext, document, hown, hcontent⟩ :=
        hinv.documents p hregistration content
          (get_of_openFile hinv.staging hopen)
      refine ⟨q', hR', hread', htext, document, hown, ?_⟩
      obtain ⟨r, hdocument, rfl⟩ := Option.map_eq_some_iff.mp hown
      rw [hcontent, rewriteUpstreamUrls, hround _ r hdocument] at hvalue
      rw [← Option.some.inj hvalue, rewriteUpstreamUrls]
  | none =>
    refine safe_bind (safe_send url) ?_ fun e s p h => herror e s p h.1
    rintro response s p ⟨rfl, hresponse⟩
    obtain rfl := hresponse response rfl
    dsimp only
    cases hrefusal : refusal (env.get url) with
    | some answer => exact safe_pure ⟨rfl, answeredFor_of_status (status_of_refusal hrefusal)⟩
    | none =>
      have hstatus := isSuccess_of_refusal hrefusal
      unfold readJson
      cases hbody : (env.get url).body.bind env.serde.value with
      | none => exact safe_throw (herror _ s p rfl)
      | some value =>
        have hjson : upstreamJson env url = some value := by
          rw [upstreamJson, if_pos hstatus, hbody]
        cases hregistration : isRegistration p.path.toString' with
        | false =>
          simp only [Resumption.pure_bind, Bool.false_eq_true, if_false]
          refine safe_bind (safe_saveBytes (fun h => ?_) fun _ => hother hregistration) ?_
            fun e s p h => herror e s p h
          · rw [hregistration] at h
            cases h
          · rintro - s p rfl
            exact safe_pure ⟨rfl, answeredFor_of_not hregistration⟩
        | true =>
          simp only [Resumption.pure_bind, if_true]
          refine safe_bind safe_discoverResources ?_ fun e s p h => herror e s p h.1
          rintro resources s p ⟨rfl, hresources⟩
          set document :=
            rewriteUpstreamUrls resources (externalRepositoryBase env p.host) value with hdocument
          have hown : ownDocument env p = some document := by
            rw [ownDocument, hurl hregistration resources value (hresources _ rfl) hjson,
              Option.map_some]
          refine safe_bind (safe_saveBytes (fun _ => ⟨hR, hread, document, hown, rfl⟩) fun h => ?_)
            ?_ fun e s p h => herror e s p h
          · rw [hregistration] at h
            cases h
          · rintro - s p rfl
            refine safe_pure ⟨rfl, fun response h _ _ => ⟨hread, ?_⟩⟩
            cases h
            exact ⟨p, hR, hread, rfl, document, hown, rfl⟩

theorem safe_fetchBinary (url : U) (hregistration : isRegistration q.path.toString' = false)
    (hkey : q.path.components[1]? = some "flatcontainer") :
    Safe (proxyProtocol env R) (fun _ _ p => p = q) (fetchBinary env url q.path) s q := by
  have hsave : ∀ (content : Bytes) (s : ProxyState),
      Safe (proxyProtocol env R) (fun _ _ p => p = q) (saveBytes content q.path) s q := by grind [safe_saveBytes]
  unfold fetchBinary
  refine safe_bind (Q := fun _ _ p => p = q)
    (safe_storageStep (fun t a st hinv h => ?_) fun _ _ => rfl) ?_ fun e s p h => h
  · cases hexists : t.storage.fileExists q.path with
    | error e =>
      rw [hexists] at h
      cases h
    | ok found =>
      rw [hexists] at h
      cases h
      exact ⟨hinv, rfl⟩
  · rintro found s p rfl
    cases found with
    | true =>
      simp only [if_true]
      refine safe_bind (safe_readBytes p.path) ?_ fun e s p h => h.1
      rintro content s p ⟨rfl, -⟩
      exact safe_openResponse p.path
    | false =>
      simp only [Bool.false_eq_true, if_false]
      refine safe_bind (safe_send url) ?_ fun e s p h => h.1
      rintro response s p ⟨rfl, -⟩
      cases refusal response with
      | some answer => exact safe_pure rfl
      | none =>
        dsimp only
        cases response.body with
        | none => exact safe_throw rfl
        | some bytes =>
          refine safe_bind (hsave bytes s) ?_ fun e s p h => h
          rintro - s p rfl
          exact safe_openResponse p.path

theorem safe_fetchNuspec (url : U) (hregistration : isRegistration q.path.toString' = false)
    (hkey : q.path.components[1]? = some "flatcontainer") :
    Safe (proxyProtocol env R) (fun _ _ p => p = q) (fetchNuspec env url q.path q.method) s q := by
  unfold fetchNuspec
  refine safe_bind (safe_readBytes q.path) ?_ fun e s p h => h.1
  rintro cached s p ⟨rfl, -⟩
  cases cached with
  | some content =>
    aesop
  | none =>
    dsimp only
    refine safe_bind (safe_send url) ?_ fun e s p h => h.1
    rintro response s p ⟨rfl, -⟩
    cases refusal response with
    | some answer => exact safe_pure rfl
    | none =>
      dsimp only
      cases response.text with
      | none => exact safe_throw rfl
      | some text =>
        refine safe_bind (safe_saveBytes (fun h => ?_) fun _ => hkey) ?_ fun e s p h => h
        · rw [hregistration] at h
          cases h
        · rintro - s p rfl
          exact safe_pure rfl

theorem not_isRegistration_of_isServiceIndexPath {path : String}
    (h : isServiceIndexPath path = true) : isRegistration path = false := by
  simp only [isServiceIndexPath, Bool.or_eq_true, beq_iff_eq] at h
  rcases h with (((rfl | rfl) | rfl) | rfl) | rfl
  all_goals decide

/-- **What a request is answered with** was rewritten for a request to the same page. -/
theorem safe_handleRead (hround : RoundTrips env) (hR : R q) :
    Safe (proxyProtocol env R) (fun r _ p => p = q ∧ AnsweredFor env R q r) (handleRead env q)
      s q := by
  unfold handleRead
  refine safe_bind (Q := fun r _ p => p = q ∧ ∀ canRead, r = .ok canRead → canRead = q.canRead)
    (safe_act fun t _ hinv fails _ => ?_) ?_ fun e s p h => ⟨h.1, answeredFor_error e⟩
  · aesop
  rintro canRead s p ⟨rfl, hcanRead⟩
  obtain rfl := hcanRead canRead rfl
  cases hread : p.canRead with
  | false =>
    simp only [Bool.not_false, if_true]
    exact safe_pure ⟨rfl, fun _ h => by cases h⟩
  | true =>
    simp only [Bool.not_true, Bool.false_eq_true, if_false]
    split_ifs with hindex
    · exact safe_pure ⟨rfl, answeredFor_of_not (not_isRegistration_of_isServiceIndexPath hindex)⟩
    · refine safe_bind safe_discoverResources ?_ fun e s p h => ⟨h.1, answeredFor_error e⟩
      rintro resources s p ⟨rfl, hresources⟩
      have hknown := hresources resources rfl
      have hkind : ∀ {r : Route}, route resources p.path.toString' = r →
          (∀ url, r ≠ .json url true) → isRegistration p.path.toString' = false := by
        intro r hroute hne
        rw [← Bool.not_eq_true]
        intro hregistration
        obtain ⟨url, h⟩ : ∃ url, route resources p.path.toString' = .json url true :=
          isRegistration_iff.mp hregistration
        exact hne url (hroute.symm.trans h)
      unfold parseUrl
      rcases route_cases resources p.path.toString' with ⟨id, more, hpieces, hroute⟩ |
        ⟨id, version, file, hpieces, -, -, hroute⟩ | ⟨id, version, file, hpieces, -, -, hroute⟩ |
        ⟨id, file, hpieces, hend, hroute⟩ | hroute
      · have hfalse := hkind hroute fun _ h => by cases h
        have hkey := ProxyRequest.getElem?_components_of_flatcontainer hpieces
        rw [hroute, ← hfalse]
        dsimp only
        cases env.parseUrl _ with
        | none => exact safe_throw ⟨rfl, answeredFor_error _⟩
        | some url =>
          refine safe_fetchJson hround hR hread (fun _ => hkey) fun h => ?_
          rw [hfalse] at h
          cases h
      · have hfalse := hkind hroute fun _ h => by cases h
        have hkey := ProxyRequest.getElem?_components_of_flatcontainer hpieces
        rw [hroute]
        dsimp only
        cases env.parseUrl _ with
        | none => exact safe_throw ⟨rfl, answeredFor_error _⟩
        | some url =>
          exact (safe_fetchBinary url hfalse hkey).mono fun r s p h =>
            ⟨h, answeredFor_of_not hfalse⟩
      · have hfalse := hkind hroute fun _ h => by cases h
        have hkey := ProxyRequest.getElem?_components_of_flatcontainer hpieces
        rw [hroute]
        dsimp only
        cases env.parseUrl _ with
        | none => exact safe_throw ⟨rfl, answeredFor_error _⟩
        | some url =>
          exact (safe_fetchNuspec url hfalse hkey).mono fun r s p h =>
            ⟨h, answeredFor_of_not hfalse⟩
      · have htrue : isRegistration p.path.toString' = true := isRegistration_iff.mpr ⟨_, hroute⟩
        rw [hroute, ← htrue]
        dsimp only
        cases hparse : env.parseUrl _ with
        | none => exact safe_throw ⟨rfl, answeredFor_error _⟩
        | some url =>
          refine safe_fetchJson hround hR hread (fun h => ?_) fun _ resources' value h hjson => ?_
          · rw [htrue] at h
            cases h
          · obtain rfl := Option.some.inj (hknown.symm.trans h)
            grind [registrationDocument]
      · rw [hroute]
        exact safe_pure ⟨rfl, answeredFor_of_not (hkind hroute fun _ h => by cases h)⟩

end Pkgly.Nuget
