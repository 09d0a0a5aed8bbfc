import Pkgly.Maven.Deploy

/-!
# Are the push rules of a Maven repository enforced?

Of the push rules a deployment reads `require_pkgly_deploy`, with which nothing is stored, and
`must_use_auth_token_for_push`.  A request that is refused changes nothing
(`handlePut_refused`), but the policy, the rule about overwriting and the rule about members are
never looked at: they hold in every run only if they allow everything, or if nothing is stored
(`pushRulesEnforced_iff`).
-/

namespace Pkgly.Maven

open Effect

/-! ### What the rules say -/

def Policy.admits : Policy → ReleaseType → Bool
  | .mixed, _ => true
  | .snapshot, releaseType => releaseType == .snapshot
  | .release, releaseType => releaseType != .snapshot

def Stored (before after : MavenState) (key : List String) : Prop :=
  after.storage.objects.get key ≠ none ∧
    after.storage.objects.get key ≠ before.storage.objects.get key

/-- The version of a file, which is the name of its directory; the directories of the artifact and
of its group are above. -/
def versionOf (key : List String) : Option String :=
  match key.reverse with
  | _ :: version :: _ :: _ :: _ => some version
  | _ => none

def InProject (project : DBProject) (key : List String) : Prop :=
  (StoragePath.ofString project.path).components <+: key

def statusOf : EStateM.Result DeployError MavenState RepoResponse → ℕ
  | .ok response _ => response.status
  | .error e _ => e.status

def Refused (result : EStateM.Result DeployError MavenState RepoResponse) : Prop :=
  400 ≤ statusOf result ∧ statusOf result < 500

structure RulesKept (rules : MavenPushRules) (request : DeployRequest) (before : MavenState)
    (result : EStateM.Result DeployError MavenState RepoResponse) : Prop where
  overwrite : ∀ key content, before.storage.objects.get key = some content →
    (endState result).storage.objects.get key ≠ some content → rules.allowOverwrite = true
  policyFile : ∀ key version, Stored before (endState result) key → versionOf key = some version →
    rules.pushPolicy.admits (.fromVersion version) = true
  policyRow : ∀ row ∈ (endState result).catalogue.versions, row ∉ before.catalogue.versions →
    rules.pushPolicy.admits row.extra.releaseType = true
  member : rules.mustBeProjectMember = true → ∀ key, Stored before (endState result) key →
    ∀ project ∈ before.catalogue.projects, InProject project key →
      ∃ user member, request.authentication.getUser = some user ∧ member ∈ before.members ∧
        member.projectId = project.id ∧ member.userId = user.id
  refused : Refused result → endState result = before

section Deploy

variable {lib : MavenLibraries} {tables : AccessTables} {self : MavenHosted} {names : HostedNames}
  {rules : MavenPushRules} {request : DeployRequest} {st : MavenState}

def RunKept (lib : MavenLibraries) (tables : AccessTables) (self : MavenHosted)
    (names : HostedNames) (rules : MavenPushRules) : MavenState → List DeployRequest → Prop
  | _, [] => True
  | st, request :: requests =>
    RulesKept rules request st (handlePut lib tables self names rules request st) ∧
      RunKept lib tables self names rules
        (endState (handlePut lib tables self names rules request st)) requests

/-! ### Refused requests -/

def Internal {α : Type} (m : DeployIO α) : Prop :=
  ∀ st e st', m st = .error e st' → e.status = 500

variable {α : Type}

theorem Internal.bind {β : Type} {m : DeployIO α} {f : α → DeployIO β} (hm : Internal m)
    (hf : ∀ a, Internal (f a)) : Internal (m >>= f) := by
  intro st e st' h
  cases hs : m st with
  | ok a s =>
    rw [bind_of_ok hs] at h
    exact hf a s e st' h
  | error e' s =>
    rw [bind_of_error hs] at h
    cases h
    exact hm _ _ _ hs

theorem internal_pure (a : α) : Internal (pure a : DeployIO α) := by
  intro st e st' h
  cases h

theorem internal_throw {e : DeployError} (he : e.status = 500) :
    Internal (throw e : DeployIO α) := by
  intro st e' st' h
  cases h
  exact he

theorem internal_onStorage (operation : DynStorage → Except StorageError (DynStorage × α)) :
    Internal (onStorage operation) := by
  intro st e st' h
  grind [onStorage, DeployError.status]

theorem internal_deleteTemp (path : StoragePath) : Internal (deleteTemp path) := by
  grind [deleteTemp, Internal]

theorem internal_streamUpload (request : DeployRequest) :
    Internal (streamUploadToLocalStorage request) := by
  unfold streamUploadToLocalStorage
  apply Internal.bind (internal_onStorage _)
  intro found
  apply Internal.bind (internal_onStorage _)
  intro _
  have hmoved : Internal (do
      let moved ← onStorage fun storage => storage.moveFile (tempPath request) request.path
      if !moved then
        deleteTemp (tempPath request)
        throw (.io "Temp file disappeared before rename")
      return !found : DeployIO Bool) := by
    apply Internal.bind (internal_onStorage _)
    intro moved
    by_cases hgone : (!moved) = true
    · rw [if_pos hgone]
      apply Internal.bind (internal_deleteTemp _)
      intro _
      exact Internal.bind (internal_throw rfl) fun _ => internal_pure _
    · rw [if_neg hgone]
      exact internal_pure _
  by_cases hbreaks : request.breaksOff = true
  · simp only [if_pos hbreaks]
    apply Internal.bind (internal_deleteTemp _)
    intro _
    exact Internal.bind (internal_throw rfl) fun _ => hmoved
  · simp only [if_neg hbreaks]
    exact hmoved

theorem bind_ofExcept {β : Type} (found : Except DeployError α) (f : α → DeployIO β) :
    (MonadExcept.ofExcept found >>= f) st = match found with
      | .ok a => f a st
      | .error e => .error e st := by
  cases found with
  | ok a => rfl
  | error e => rfl

theorem bind_get {β : Type} (f : MavenState → DeployIO β) :
    ((get : DeployIO MavenState) >>= f) st = f st st := rfl

/-- A file that is refused is not stored: a POM is parsed before it is saved, and the status of
every later error is 500. -/
theorem storeFile_refused {e : DeployError} {st' : MavenState}
    (h : storeFile lib request st = .error e st') (hstatus : e.status ≠ 500) : st' = st := by
  have hlate : ∀ {α : Type} {m : DeployIO α}, Internal m → m st = .error e st' → st' = st :=
    fun hm hfail => absurd (hm st e st' hfail) hstatus
  have hsave : ∀ (body : Bytes) (pom : Option Pom), Internal (do
      return (← saveFile body request.path, pom) : DeployIO (Bool × Option Pom)) := by
    intro body pom
    apply Internal.bind (internal_onStorage _)
    intro created
    exact internal_pure _
  unfold storeFile at h
  by_cases hpom : hasExtension request.path "pom" = true
  · rw [if_pos hpom, bind_ofExcept] at h
    cases hread : bodyAsBytes request with
    | error e' =>
      rw [hread] at h
      cases h
      rfl
    | ok body =>
      rw [hread] at h
      simp only at h
      rw [bind_ofExcept] at h
      aesop
  · rw [if_neg hpom, bind_get] at h
    by_cases hlocal : (st.storage.backend == .local) = true
    · rw [if_pos hlocal] at h
      grind [Internal.bind, internal_streamUpload, internal_pure]
    · rw [if_neg hlocal, bind_ofExcept] at h
      aesop

theorem query_cases (request : DeployRequest) (st : MavenState) (q : DeployQuery) :
    query request q st = .ok () st ∨ query request q st = .error .sqlx st := by
  unfold query
  split_ifs
  · exact .inl rfl
  · exact .inr rfl

theorem traceProject_cases (request : DeployRequest) (st : MavenState) :
    traceProject request st = .ok () st ∨ traceProject request st = .error .sqlx st := by
  unfold traceProject
  rcases query_cases request st .getMeta with hmeta | hmeta
  · rw [bind_of_ok hmeta, bind_get]
    cases st.metas.get request.path.parent.components with
    | none => exact .inl rfl
    | some found =>
      simp only
      split_ifs
      · exact query_cases _ _ _
      · exact .inl rfl
  · rw [bind_of_error hmeta]
    exact .inr rfl

/-- A `PUT` that has stored its file is answered as a success or as an internal error. -/
theorem not_refused_putResponse {display : String → String} {created : Bool} {location : String}
    {st' : MavenState} : ¬ Refused (.ok (.putResponse display created location) st') := by
  grind [Refused, statusOf, RepoResponse.putResponse, RepoResponse.status]

theorem postPomUpload_ok (lib : MavenLibraries) (request : DeployRequest) (st : MavenState)
    (publisher : Option Int) (pom : Pom) :
    ∃ st', postPomUpload lib request publisher pom st = .ok () st' := by
  unfold postPomUpload
  aesop

theorem standardMavenDeploy_refused
    (h : Refused (standardMavenDeploy lib names rules request st)) :
    endState (standardMavenDeploy lib names rules request st) = st := by
  unfold standardMavenDeploy at h ⊢
  cases huser : request.authentication.getUser with
  | none => rfl
  | some user =>
    rw [huser] at h
    simp only at h ⊢
    by_cases hrequire : rules.requirePkglyDeploy = true
    · rw [if_pos hrequire]
      rfl
    · rw [if_neg hrequire] at h ⊢
      rcases traceProject_cases request st with htrace | htrace
      · rw [bind_of_ok htrace] at h ⊢
        cases hstored : storeFile lib request st with
        | error e st' =>
          rw [bind_of_error hstored] at h ⊢
          exact storeFile_refused hstored (by rintro he; rw [Refused, statusOf, he] at h; omega)
        | ok stored st' =>
          rw [bind_of_ok hstored] at h
          obtain ⟨created, pom⟩ := stored
          cases pom with
          | none => exact absurd h not_refused_putResponse
          | some pom =>
            obtain ⟨st'', hposted⟩ := postPomUpload_ok lib request st' (some user.id) pom
            simp only at h
            rw [bind_of_ok hposted] at h
            exact absurd h not_refused_putResponse
      · rw [bind_of_error htrace]
        rfl

theorem handlePut_cases (lib : MavenLibraries) (tables : AccessTables) (self : MavenHosted)
    (names : HostedNames) (rules : MavenPushRules) (request : DeployRequest) (st : MavenState) :
    endState (handlePut lib tables self names rules request st) = st ∨
      rules.requirePkglyDeploy = false ∧ handlePut lib tables self names rules request st =
        standardMavenDeploy lib names rules request st := by
  unfold handlePut
  split_ifs with htoken
  · exact .inl rfl
  · cases huser : request.authentication.getUserIfHasAction tables .write self.id with
    | none => exact .inl rfl
    | some user =>
      simp only
      split_ifs with hwrite
      · exact .inl rfl
      · cases hheader : request.deployHeader with
        | error _ => exact .inl rfl
        | ok header =>
          cases header with
          | some _ => exact .inl rfl
          | none =>
            by_cases hrequire : rules.requirePkglyDeploy = true
            · refine .inl ?_
              show endState (standardMavenDeploy lib names rules request st) = st
              unfold standardMavenDeploy
              cases request.authentication.getUser with
              | none => rfl
              | some user =>
                simp only [hrequire, if_true]
                rfl
            · exact .inr ⟨Bool.eq_false_iff.mpr hrequire, rfl⟩

theorem handlePut_refused (h : Refused (handlePut lib tables self names rules request st)) :
    endState (handlePut lib tables self names rules request st) = st := by
  grind [handlePut_cases, standardMavenDeploy_refused]

/-! ### Rules that allow everything, and rules that do not -/

theorem rulesKept_of_unchanged {result : EStateM.Result DeployError MavenState RepoResponse}
    (h : endState result = st) : RulesKept rules request st result where
  overwrite key content hcontent hchanged := by
    rw [h] at hchanged
    exact absurd hcontent hchanged
  policyFile key version hstored _ := by
    rw [h] at hstored
    exact absurd rfl hstored.2
  policyRow row hrow hnew := by
    rw [h] at hrow
    exact absurd hrow hnew
  member _ key hstored := by
    rw [h] at hstored
    exact absurd rfl hstored.2
  refused _ := h

theorem rulesKept_of_allowing (hoverwrite : rules.allowOverwrite = true)
    (hpolicy : rules.pushPolicy = .mixed) (hmember : rules.mustBeProjectMember = false) :
    RulesKept rules request st (handlePut lib tables self names rules request st) where
  overwrite _ _ _ _ := hoverwrite
  policyFile key version _ _ := by
    rw [hpolicy]
    rfl
  policyRow row _ _ := by
    rw [hpolicy]
    rfl
  member hrequired := by
    rw [hmember] at hrequired
    cases hrequired
  refused := handlePut_refused

theorem runKept_of_forall
    (h : ∀ st request, RulesKept rules request st (handlePut lib tables self names rules request st))
    (requests : List DeployRequest) : RunKept lib tables self names rules st requests := by
  induction requests generalizing st with
  | nil => trivial
  | cons request requests ih => exact ⟨h st request, ih⟩

end Deploy

def deployer : RepositoryAuthentication := .authToken ⟨1⟩ ⟨1, true, false, false, []⟩

def writingTables : AccessTables :=
  ⟨fun _ _ => none, fun _ => [.writeRepository], fun _ _ => none⟩

def putFile (path : StoragePath) : DeployRequest where
  path := path
  authentication := deployer
  deployHeader := .ok none
  chunks := [[1]]
  breaksOff := false
  newUuid := "u"
  answers _ := true

def plainState (objects : Objects) (projects : List DBProject) : MavenState where
  storage := ⟨.s3, objects, ∅⟩
  metas := ∅
  catalogue := ⟨projects, [], 0⟩
  members := []

theorem storeFile_putFile (lib : MavenLibraries) {path : StoragePath}
    (hpath : hasExtension path "pom" = false) {objects : Objects} (projects : List DBProject)
    (hfree : Objects.hasFileAncestor objects path.components = false) :
    storeFile lib (putFile path) (plainState objects projects) =
      .ok ((objects.get path.components).isNone, none)
        (plainState (objects.put path.components [1]) projects) := by
  have hsaved : (plainState objects projects).storage.saveFile [1] path =
      .ok (plainState (objects.put path.components [1]) projects).storage := by
    unfold DynStorage.saveFile DynStorage.pathForCreation
    simp only [plainState, DynStorage.rejects, hfree]
    rfl
  have hstored : saveFile [1] path (plainState objects projects) =
      .ok (objects.get path.components).isNone
        (plainState (objects.put path.components [1]) projects) := by
    unfold saveFile onStorage
    simp only [hsaved]
    rfl
  have hbody : bodyAsBytes (putFile path) = .ok [1] := rfl
  unfold storeFile
  rw [show (putFile path).path = path from rfl, hpath, if_neg Bool.false_ne_true, bind_get,
    show ((plainState objects projects).storage.backend == .local) = false from rfl,
    if_neg Bool.false_ne_true, bind_ofExcept, hbody]
  simp only
  rw [bind_of_ok hstored]
  rfl

theorem handlePut_putFile (lib : MavenLibraries) (self : MavenHosted) (names : HostedNames)
    {rules : MavenPushRules} (hrules : rules.requirePkglyDeploy = false) {path : StoragePath}
    (hpath : hasExtension path "pom" = false) {objects : Objects} (projects : List DBProject)
    (hfree : Objects.hasFileAncestor objects path.components = false) :
    endState (handlePut lib writingTables self names rules (putFile path)
      (plainState objects projects)) =
        plainState (objects.put path.components [1]) projects := by
  have hdeploy : handlePut lib writingTables self names rules (putFile path)
      (plainState objects projects) =
        standardMavenDeploy lib names rules (putFile path) (plainState objects projects) := by
    unfold handlePut
    rw [show hasAuthToken (putFile path).authentication = true from rfl, Bool.not_true,
      Bool.and_false, if_neg Bool.false_ne_true]
    rfl
  rw [hdeploy]
  unfold standardMavenDeploy
  simp only [show (putFile path).authentication.getUser = some ⟨1, true, false, false, []⟩ from rfl,
    hrules, if_false, Bool.false_eq_true]
  rw [bind_of_ok (show traceProject (putFile path) (plainState objects projects) =
      .ok () (plainState objects projects) from rfl),
    bind_of_ok (storeFile_putFile lib hpath projects hfree)]
  rfl

/-- The rules are enforced: every run from every state keeps them. -/
def PushRulesEnforced (lib : MavenLibraries) (self : MavenHosted) (names : HostedNames)
    (rules : MavenPushRules) : Prop :=
  ∀ (tables : AccessTables) (st : MavenState) (requests : List DeployRequest),
    RunKept lib tables self names rules st requests

section Rules

variable {lib : MavenLibraries} {self : MavenHosted} {names : HostedNames} {rules : MavenPushRules}

theorem PushRulesEnforced.putFile (h : PushRulesEnforced lib self names rules)
    (hrules : rules.requirePkglyDeploy = false) (path : StoragePath)
    (hpath : hasExtension path "pom" = false) (objects : Objects) (projects : List DBProject)
    (hfree : Objects.hasFileAncestor objects path.components = false) :
    ∃ result, RulesKept rules (putFile path) (plainState objects projects) result ∧
      endState result = plainState (objects.put path.components [1]) projects :=
  ⟨_, (h writingTables (plainState objects projects) [Maven.putFile path]).1,
    handlePut_putFile lib self names hrules hpath projects hfree⟩

theorem PushRulesEnforced.allowOverwrite (h : PushRulesEnforced lib self names rules)
    (hrules : rules.requirePkglyDeploy = false) : rules.allowOverwrite = true := by
  obtain ⟨result, hkept, hend⟩ := h.putFile hrules (.ofString "g/a/1/a.jar")
    (by decide) (Store.put ∅ ["g", "a", "1", "a.jar"] []) [] (by decide)
  refine hkept.overwrite ["g", "a", "1", "a.jar"] [] (by decide) ?_
  rw [hend]
  decide

theorem PushRulesEnforced.pushPolicy (h : PushRulesEnforced lib self names rules)
    (hrules : rules.requirePkglyDeploy = false) : rules.pushPolicy = .mixed := by
  obtain ⟨release, hrelease, hreleased⟩ := h.putFile hrules (.ofString "g/a/1/a.jar")
    (by decide) ∅ [] (by decide)
  obtain ⟨snapshot, hsnapshot, hsnapped⟩ := h.putFile hrules
    (.ofString "g/a/1-SNAPSHOT/a.jar") (by decide) ∅ [] (by decide)
  have hadmitsRelease := hrelease.policyFile ["g", "a", "1", "a.jar"] "1"
    (by rw [hreleased, Stored]; decide) rfl
  have hadmitsSnapshot := hsnapshot.policyFile ["g", "a", "1-SNAPSHOT", "a.jar"] "1-SNAPSHOT"
    (by rw [hsnapped, Stored]; decide) rfl
  cases hpolicy : rules.pushPolicy with
  | mixed => rfl
  | release =>
    rw [hpolicy] at hadmitsSnapshot
    exact absurd hadmitsSnapshot (by decide)
  | snapshot =>
    rw [hpolicy] at hadmitsRelease
    exact absurd hadmitsRelease (by decide)

theorem PushRulesEnforced.mustBeProjectMember (h : PushRulesEnforced lib self names rules)
    (hrules : rules.requirePkglyDeploy = false) : rules.mustBeProjectMember = false := by
  obtain ⟨result, hkept, hend⟩ := h.putFile hrules (.ofString "g/a/1/a.jar")
    (by decide) ∅ [⟨0, "g:a", "g/a"⟩] (by decide)
  by_contra hmember
  rw [Bool.not_eq_false] at hmember
  obtain ⟨user, member, -, hmem, -⟩ := hkept.member hmember ["g", "a", "1", "a.jar"]
    (by rw [hend, Stored]; decide) ⟨0, "g:a", "g/a"⟩ List.mem_cons_self
    (by unfold InProject; decide)
  cases hmem

end Rules

/-- The push rules are enforced if and only if nothing can be stored, or everything may be. -/
theorem pushRulesEnforced_iff (lib : MavenLibraries) (self : MavenHosted) (names : HostedNames)
    (rules : MavenPushRules) :
    PushRulesEnforced lib self names rules ↔
      rules.requirePkglyDeploy = true ∨
        (rules.allowOverwrite = true ∧ rules.pushPolicy = .mixed ∧
          rules.mustBeProjectMember = false) := by
  constructor
  · intro h
    by_cases hrequire : rules.requirePkglyDeploy = true
    · exact .inl hrequire
    · rw [Bool.not_eq_true] at hrequire
      exact .inr ⟨h.allowOverwrite hrequire, h.pushPolicy hrequire, h.mustBeProjectMember hrequire⟩
  · intro h tables st requests
    apply runKept_of_forall
    intro st request
    rcases h with hrequire | ⟨hoverwrite, hpolicy, hmember⟩
    · apply rulesKept_of_unchanged
      rcases handlePut_cases lib tables self names rules request st with hunchanged | ⟨hfree, -⟩
      · exact hunchanged
      · rw [hrequire] at hfree
        cases hfree
    · exact rulesKept_of_allowing hoverwrite hpolicy hmember

def noOverwrite : MavenPushRules := ⟨.mixed, true, false, false, false, false⟩

/-- A file is replaced where this is not allowed. -/
theorem not_pushRulesEnforced_noOverwrite :
    ¬ PushRulesEnforced ⟨fun _ => none, .exact, id⟩ ⟨1, .public⟩ ⟨"s", "r"⟩ noOverwrite :=
  fun h => absurd (h.allowOverwrite rfl) Bool.false_ne_true

end Pkgly.Maven
