import Pkgly.Authentication.Equiv.Permissions
import Pkgly.Docker.Auth

/-!
# Docker tokens never widen access

* `recorded_allowed`: what an issued token records, the caller was allowed at the time.
* `tokens_narrow`: along a chain of requests, each made with the token of the one before, in any
  state of the permissions, what the last token gives, the first caller has as well.

A check of a token is the check of its user and that of its row (`canAccess_iff`).  The first is the
same along a chain, and of the rows each records only what the one before allows (`Below`).
-/

namespace Pkgly.Docker.DockerSite

variable {site site' : DockerSite} {auth : RepositoryAuthentication} {repository : Uuid}
  {action : RepositoryActions}

/-! ### What a token records -/

/-- The issued token has a scope for `action` on `repository`. -/
def Records (site : DockerSite) (repository : Uuid) (action : RepositoryActions) :
    IssuedToken → Prop
  | .user token => token.hasRepositoryAction site.tables repository action = true
  | .anonymous token =>
    action = .read ∧ ∃ repositories,
      site.anonymousDockerTokens.get token = some repositories ∧ repository ∈ repositories

/-- The caller may have `action` on `repository`: with a user, what `can_access_repository` says;
without one, to read a repository that is active and readable. -/
def Allowed (site : DockerSite) (auth : RepositoryAuthentication) (repository : Uuid)
    (action : RepositoryActions) : Prop :=
  if isAnonymous auth then
    action = .read ∧ ∃ loaded storage name,
      site.getRepositoryFromNames storage name = some loaded ∧ loaded.id = repository ∧
        loaded.isActive = true ∧ canReadRepositoryWithAuth site.tables auth loaded.visibility
          repository (site.repositoryAuthConfig repository) = true
  else auth.canAccessRepository site.tables action repository = true

def AllAllowed (site : DockerSite) (auth : RepositoryAuthentication) (requests : Requests) : Prop :=
  ∀ repository actions, requests.get repository = some actions →
    ∃ action, action ∈ actions ∧ ∀ action ∈ actions, site.Allowed auth repository action

theorem mem_pushAction {actions : List RepositoryActions} {action' : RepositoryActions} :
    action' ∈ pushAction actions action ↔ action' ∈ actions ∨ action' = action := by
  unfold pushAction
  grind

theorem allowed_of_loaded {loaded : LoadedRepository} {storage name : String}
    (hloaded : site.getRepositoryFromNames storage name = some loaded)
    (h : site.allowed auth loaded action = true) : site.Allowed auth loaded.id action := by
  unfold allowed at h
  unfold Allowed
  grind

variable {requests : Requests} {query : DockerTokenQuery} {secret : String} {issued : IssuedToken}
  {response : DockerTokenResponse} {caller first : Credential} {row : Option TokenRow}
  {user : UserPermissions}

theorem requestActions_allAllowed {loaded : LoadedRepository} {storage name : String}
    (hloaded : site.getRepositoryFromNames storage name = some loaded)
    {actions : List RepositoryActions} {requests' : Requests} (h : site.AllAllowed auth requests)
    (hr : site.requestActions auth loaded requests actions = .ok requests') :
    site.AllAllowed auth requests' := by
  induction actions generalizing requests with
  | nil =>
    cases hr
    exact h
  | cons action rest ih =>
    rw [requestActions] at hr
    split_ifs at hr with hallowed
    apply ih _ hr
    intro r actions' hget
    rw [Store.get_put] at hget
    split_ifs at hget with hsame
    · -- the actions requested before, and the new one
      obtain rfl := Option.some.inj hget
      refine ⟨action, mem_pushAction.mpr (Or.inr rfl), fun action' hmem => ?_⟩
      rcases mem_pushAction.mp hmem with hold | rfl
      · cases hbefore : requests.get loaded.id with
        | none =>
          rw [hbefore] at hold
          cases hold
        | some before =>
          rw [hbefore] at hold
          obtain ⟨_, _, hall⟩ := h loaded.id before hbefore
          rw [hsame]
          exact hall action' hold
      · rw [hsame]
        exact allowed_of_loaded hloaded hallowed
    · exact h r actions' hget

theorem requestScopes_allAllowed {scopes : List ParsedScope} {requests' : Requests}
    (h : site.AllAllowed auth requests)
    (hr : site.requestScopes auth requests scopes = .ok requests') :
    site.AllAllowed auth requests' := by
  induction scopes generalizing requests with
  | nil =>
    cases hr
    exact h
  | cons scope rest ih =>
    grind [requestScopes, requestActions_allAllowed]

/-! ### Issuing a token -/

theorem handleDockerToken_spec {now : Int}
    (h : site.handleDockerToken auth query now secret = .ok (site', issued, response)) :
    ∃ requests, site.AllAllowed auth requests ∧
      ((∃ user row, auth.getUser = some user ∧ row.userId = user.id ∧ row.scopes = [] ∧
          row.repositoryScopes = requests.get ∧ site' = site.insertToken row ∧
          issued = .user ⟨site.nextTokenId⟩) ∨
        isAnonymous auth = true ∧ issued = .anonymous secret ∧ site' = { site with
          anonymousDockerTokens := site.anonymousDockerTokens.put secret requests.keys }) := by
  unfold handleDockerToken at h
  by_cases hidentified : (auth.getUser.isNone && !isAnonymous auth) = true
  · rw [if_pos hidentified] at h
    cases h
  rw [if_neg hidentified] at h
  split at h
  · cases h
  · split at h
    · cases h
    · rename_i scopes _ requests hrequests
      have hnothing : site.AllAllowed auth ∅ := by
        intro r actions hget
        rw [Store.get_empty] at hget
        cases hget
      refine ⟨requests, requestScopes_allAllowed hnothing hrequests, ?_⟩
      grind

/-- `can_access_repository` of a caller, with the user as it is now. -/
def canAccess (site : DockerSite) (caller : Credential) (action : RepositoryActions)
    (repository : Uuid) : Bool :=
  (site.fromRaw caller).any fun auth => auth.canAccessRepository site.tables action repository

def resolve (site : DockerSite) : Credential → Option (Int × Option TokenRow)
  | .authToken token | .basicToken token =>
    (site.tokens.get token.id).map fun row => (row.userId, some row)
  | .session userId | .basic userId => some (userId, none)
  | _ => none

/-- The row has a scope for `action` on `repository`; without a token nothing is restricted. -/
def Grants (site : DockerSite) (repository : Uuid) (action : RepositoryActions) :
    Option TokenRow → Prop
  | none => True
  | some row => action.toScope ∈ row.scopes ∨
    site.repositoryExists repository = true ∧
      ∃ actions, row.repositoryScopes repository = some actions ∧ action ∈ actions

theorem hasRepositoryAction_iff {token : AuthToken} {row : TokenRow}
    (hget : site.tokens.get token.id = some row) :
    token.hasRepositoryAction site.tables repository action = true ↔
      site.Grants repository action (some row) := by
  unfold AuthToken.hasRepositoryAction AuthToken.hasScope tables Grants
  grind

theorem fromRaw_token_iff {token : AuthToken} {check : UserPermissions → Bool} :
    ((site.tokenUser token).any check) = true ↔
      ∃ row user, site.tokens.get token.id = some row ∧ site.users row.userId = some user ∧
        check user = true := by
  grind [tokenUser, Option.any_eq_true]

/-- **What a caller may do**: what the user may do, as far as the token grants it. -/
theorem canAccess_iff : site.canAccess caller action repository = true ↔
    ∃ userId row user, site.resolve caller = some (userId, row) ∧ site.users userId = some user ∧
      user.hasAction site.tables action repository = true ∧ site.Grants repository action row := by
  have htoken : ∀ token : AuthToken,
      ((site.tokenUser token).any fun user =>
        doesUserAndTokenHaveRepositoryAction site.tables user token action repository) = true ↔
      ∃ userId row user,
        (site.tokens.get token.id).map (fun row => (row.userId, some row)) = some (userId, row) ∧
          site.users userId = some user ∧ user.hasAction site.tables action repository = true ∧
            site.Grants repository action row := by
    intro token
    rw [fromRaw_token_iff]
    constructor
    · grind [hasRepositoryAction_iff, Store.get, doesUserAndTokenHaveRepositoryAction, tables,
        UserPermissions.hasAction, Grants]
    · rintro ⟨userId, row, user, hmap, huser, haction, hgrants⟩
      obtain ⟨row', hrow, heq⟩ := Option.map_eq_some_iff.mp hmap
      obtain ⟨rfl, rfl⟩ := Prod.mk.inj heq
      grind [hasRepositoryAction_iff, Store.get, doesUserAndTokenHaveRepositoryAction, tables]
  have huser : ∀ userId : Int,
      ((site.users userId).any fun user => user.hasAction site.tables action repository) = true ↔
      ∃ userId' row user, some (userId, (none : Option TokenRow)) = some (userId', row) ∧
        site.users userId' = some user ∧ user.hasAction site.tables action repository = true ∧
          site.Grants repository action row := by
    intro userId
    rw [Option.any_eq_true]
    constructor
    · rintro ⟨user, huser, haction⟩
      exact ⟨userId, none, user, rfl, huser, haction, trivial⟩
    · grind
  unfold canAccess
  cases caller with
  | authToken token =>
    rw [fromRaw, Option.any_map]
    exact htoken token
  | session userId | basic userId =>
    rw [fromRaw, Option.any_map]
    exact huser userId
  | basicToken token =>
    rw [fromRaw, Option.any_map]
    exact htoken token
  | anonymousDocker token repositories | other scheme value | noIdentification =>
    refine iff_of_false Bool.false_ne_true ?_
    rintro ⟨_, _, _, hresolve, _⟩
    cases hresolve

/-! ### Chains of requests -/

/-- What may happen between two requests: users, permissions and repositories change, tokens are
inserted and deleted.  No statement changes the scopes of a token. -/
structure Evolves (site site' : DockerSite) : Prop where
  nextTokenId : site.nextTokenId ≤ site'.nextTokenId
  tokens : ∀ id, id < site.nextTokenId →
    site'.tokens.get id = site.tokens.get id ∨ site'.tokens.get id = none

theorem Evolves.refl (site : DockerSite) : Evolves site site :=
  ⟨Int.le_refl _, fun _ _ => Or.inl rfl⟩

theorem Evolves.trans {site'' : DockerSite} (h : Evolves site site') (h' : Evolves site' site'') :
    Evolves site site'' where
  nextTokenId := Int.le_trans h.nextTokenId h'.nextTokenId
  tokens id hid := by
    rcases h'.tokens id (Int.lt_of_lt_of_le hid h.nextTokenId) with hget | hget
    · rw [hget]
      exact h.tokens id hid
    · exact Or.inr hget

theorem evolves_of_issued {now : Int}
    (h : site.handleDockerToken auth query now secret = .ok (site', issued, response)) :
    Evolves site site' := by
  obtain ⟨requests, _, ⟨user, row, _, _, _, _, rfl, _⟩ | ⟨_, _, rfl⟩⟩ := handleDockerToken_spec h
  · have hnext : (site.insertToken row).nextTokenId = site.nextTokenId + 1 := rfl
    refine ⟨by omega, fun id hid => Or.inl ?_⟩
    exact Store.get_put_of_ne _ _ (by omega)
  · exact ⟨Int.le_refl _, fun _ _ => Or.inl rfl⟩

def Presents (site : DockerSite) : IssuedToken → Credential → Prop
  | .user token, caller => caller = .authToken token ∨ caller = .basicToken token
  | .anonymous token, caller => ∃ repositories,
      site.anonymousDockerTokens.get token = some repositories ∧
        caller = .anonymousDocker token repositories

/-- A chain of requests from `first` in `site₀`, each with the token that the one before issued. -/
inductive Chain (site₀ : DockerSite) (first : Credential) : DockerSite → Credential → Prop
  | start : Chain site₀ first site₀ first
  | wait {site site' : DockerSite} {caller : Credential} (h : Chain site₀ first site caller)
      (hevolves : Evolves site site') : Chain site₀ first site' caller
  | request {site site' : DockerSite} {caller caller' : Credential}
      {auth : RepositoryAuthentication} {query : DockerTokenQuery} {now : Int} {secret : String}
      {issued : IssuedToken} {response : DockerTokenResponse} (h : Chain site₀ first site caller)
      (hauth : site.fromRaw caller = some auth)
      (hissued : site.handleDockerToken auth query now secret = .ok (site', issued, response))
      (hpresents : site'.Presents issued caller') : Chain site₀ first site' caller'

/-- From now on the caller is the user `userId` with the token `row`, if anyone. -/
def Settled (site : DockerSite) (caller : Credential) (userId : Int) (row : Option TokenRow) :
    Prop :=
  ∀ site', Evolves site site' →
    site'.resolve caller = some (userId, row) ∨ site'.resolve caller = none

theorem Settled.evolves {userId : Int}
    (h : site.Settled caller userId row) (hevolves : Evolves site site') :
    site'.Settled caller userId row :=
  fun site'' h' => h site'' (hevolves.trans h')

theorem settled_of_resolve {userId : Int}
    (h : site.resolve caller = some (userId, row)) : site.Settled caller userId row := by
  have htoken : ∀ token : AuthToken,
      (site.tokens.get token.id).map (fun row => (row.userId, some row)) = some (userId, row) →
      ∀ site', Evolves site site' →
        (site'.tokens.get token.id).map (fun row => (row.userId, some row)) = some (userId, row) ∨
          (site'.tokens.get token.id).map (fun row => (row.userId, some row)) = none := by
    intro token hmap site' hevolves
    by_cases hid : token.id < site.nextTokenId
    · rcases hevolves.tokens token.id hid with hget | hget
      · rw [hget]
        exact Or.inl hmap
      · rw [hget]
        exact Or.inr rfl
    · rw [site.tokens_fresh token.id (by omega)] at hmap
      cases hmap
  intro site' hevolves
  cases caller with
  | authToken token | basicToken token => exact htoken token h site' hevolves
  | session userId' | basic userId' => exact Or.inl h
  | anonymousDocker token repositories | other scheme value | noIdentification => cases h

theorem resolve_of_getUser
    (hauth : site.fromRaw caller = some auth) (huser : auth.getUser = some user) :
    ∃ row, site.resolve caller = some (user.id, row) := by
  have htoken : ∀ token : AuthToken, site.tokenUser token = some user →
      ∃ row, (site.tokens.get token.id).map (fun row => (row.userId, some row)) =
        some (user.id, row) := by
    intro token hfound
    obtain ⟨row, hrow, hfound⟩ := Option.bind_eq_some_iff.mp hfound
    rw [hrow, site.users_id _ _ hfound]
    exact ⟨some row, rfl⟩
  cases caller with
  | authToken token | basicToken token =>
    obtain ⟨user', hfound, rfl⟩ := Option.map_eq_some_iff.mp hauth
    obtain rfl := Option.some.inj huser
    exact htoken token hfound
  | session userId | basic userId =>
    obtain ⟨user', hfound, rfl⟩ := Option.map_eq_some_iff.mp hauth
    obtain rfl := Option.some.inj huser
    rw [site.users_id _ _ hfound]
    exact ⟨none, rfl⟩
  | anonymousDocker token repositories | other scheme value | noIdentification =>
    obtain rfl := Option.some.inj hauth
    cases huser

theorem isAnonymous_of_getUser (huser : auth.getUser = some user) : isAnonymous auth = false := by
  cases auth with
  | noIdentification | anonymousDocker token repositories => cases huser
  | _ => rfl

theorem Grants.of_exists (h : site.Grants repository action row)
    (hexists : site'.repositoryExists repository = true) : site'.Grants repository action row := by
  cases row with
  | none => trivial
  | some row =>
    grind [Grants]

/-- All that `row` grants, in any state, `row'` grants. -/
def Covered (row row' : Option TokenRow) : Prop :=
  ∀ (site : DockerSite) (repository : Uuid) (action : RepositoryActions),
    site.Grants repository action row → site.Grants repository action row'

theorem covered_of_issued {row : TokenRow}
    {userId : Int} {row' : Option TokenRow} (hauth : site.fromRaw caller = some auth)
    (hnot : isAnonymous auth = false) (hall : site.AllAllowed auth requests)
    (hscopes : row.scopes = []) (hrow : row.repositoryScopes = requests.get)
    (hresolve : site.resolve caller = some (userId, row')) : Covered (some row) row' := by
  rintro site₁ repository action (hscope | ⟨hexists, actions, hget, hmem⟩)
  · rw [hscopes] at hscope
    cases hscope
  · rw [hrow] at hget
    obtain ⟨_, _, hallowed⟩ := hall repository actions hget
    have hallowed := hallowed action hmem
    unfold Allowed at hallowed
    rw [hnot, if_neg Bool.false_ne_true] at hallowed
    have haccess : site.canAccess caller action repository = true := by
      rw [canAccess, hauth, Option.any_some]
      exact hallowed
    obtain ⟨_, row'', _, hresolve', _, _, hgrants⟩ := canAccess_iff.mp haccess
    rw [hresolve] at hresolve'
    obtain ⟨_, rfl⟩ := Prod.mk.inj (Option.some.inj hresolve')
    exact hgrants.of_exists hexists

inductive Narrowed (first : Credential) (site : DockerSite) : Credential → Prop
  | first : Narrowed first site first
  | anonymous (token : String) (repositories : List Uuid) :
      Narrowed first site (.anonymousDocker token repositories)
  | user {caller : Credential} {userId : Int} {row row' : Option TokenRow}
      {auth : RepositoryAuthentication} {user : UserPermissions} {site₁ : DockerSite}
      (hauth : site₁.fromRaw first = some auth) (huser : auth.getUser = some user)
      (hfirst : site.Settled first userId row) (hcaller : site.Settled caller userId row')
      (hcovered : Covered row' row) : Narrowed first site caller

theorem Narrowed.evolves (h : Narrowed first site caller)
    (hevolves : Evolves site site') : Narrowed first site' caller := by
  cases h with
  | first => exact .first
  | anonymous token repositories => exact .anonymous token repositories
  | user hauth huser hfirst hcaller hcovered =>
    exact .user hauth huser (hfirst.evolves hevolves) (hcaller.evolves hevolves) hcovered

theorem Narrowed.request {caller' : Credential} {now : Int}
    (h : Narrowed first site caller) (hauth : site.fromRaw caller = some auth)
    (hissued : site.handleDockerToken auth query now secret = .ok (site', issued, response))
    (hpresents : site'.Presents issued caller') : Narrowed first site' caller' := by
  have hevolves := evolves_of_issued hissued
  obtain ⟨requests, hall, ⟨user, row, huser, hid, hscopes, hrow, rfl, rfl⟩ | ⟨_, rfl, _⟩⟩ :=
    handleDockerToken_spec hissued
  · obtain ⟨row', hresolve⟩ := resolve_of_getUser hauth huser
    have hcovered :=
      covered_of_issued hauth (isAnonymous_of_getUser huser) hall hscopes hrow hresolve
    have hsettled := (settled_of_resolve hresolve).evolves hevolves
    have hnew : (site.insertToken row).resolve caller' = some (user.id, some row) := by
      have hget : (site.insertToken row).tokens.get site.nextTokenId = some row :=
        Store.get_put_self _ _ _
      rcases hpresents with rfl | rfl
      · show Option.map _ _ = _
        rw [hget, ← hid]
        rfl
      · show Option.map _ _ = _
        rw [hget, ← hid]
        rfl
    cases h with
    | first => exact .user hauth huser hsettled (settled_of_resolve hnew) hcovered
    | anonymous token repositories => cases hresolve
    | user hauth₁ huser₁ hfirst hcaller hcovered₁ =>
      -- the caller is still the user it was settled to be
      rcases hcaller site (.refl site) with hsame | hnone
      · obtain ⟨rfl, rfl⟩ := Prod.mk.inj (Option.some.inj (hresolve.symm.trans hsame))
        exact .user hauth₁ huser₁ (hfirst.evolves hevolves) (settled_of_resolve hnew)
          fun site₁ r a hgrants => hcovered₁ site₁ r a (hcovered site₁ r a hgrants)
      · cases hresolve.symm.trans hnone
  · obtain ⟨repositories, _, rfl⟩ := hpresents
    exact .anonymous secret repositories

theorem Chain.narrowed {site₀ : DockerSite}
    (h : Chain site₀ first site caller) : Narrowed first site caller := by
  induction h with
  | start => exact .first
  | wait _ hevolves ih => exact ih.evolves hevolves
  | request _ hauth hissued hpresents ih => exact ih.request hauth hissued hpresents

theorem getUser_of_fromRaw {auth' : RepositoryAuthentication}
    (hauth : site.fromRaw caller = some auth)
    (huser : auth.getUser = some user) (hauth' : site'.fromRaw caller = some auth') :
    ∃ user', auth'.getUser = some user' := by
  cases caller with
  | authToken token | basicToken token | session userId | basic userId =>
    obtain ⟨user', _, rfl⟩ := Option.map_eq_some_iff.mp hauth'
    exact ⟨user', rfl⟩
  | anonymousDocker token repositories | other scheme value | noIdentification =>
    obtain rfl := Option.some.inj hauth
    cases huser

theorem Chain.canAccess {site₀ : DockerSite}
    (h : Chain site₀ first site caller) (haccepted : (site.fromRaw first).isSome = true)
    (haccess : site.canAccess caller action repository = true) :
    site.canAccess first action repository = true := by
  cases h.narrowed with
  | first => exact haccess
  | anonymous token repositories => cases haccess
  | user hauth huser hfirst hcaller hcovered =>
    obtain ⟨userId, row, user, hresolve, hfound, haction, hgrants⟩ := canAccess_iff.mp haccess
    rcases hcaller site (.refl site) with hsame | hnone
    · obtain ⟨rfl, rfl⟩ := Prod.mk.inj (Option.some.inj (hresolve.symm.trans hsame))
      rcases hfirst site (.refl site) with hresolve₁ | hnone
      · exact canAccess_iff.mpr
          ⟨userId, _, user, hresolve₁, hfound, haction, hcovered site _ _ hgrants⟩
      · obtain ⟨auth', hauth'⟩ := Option.isSome_iff_exists.mp haccepted
        grind [getUser_of_fromRaw, resolve_of_getUser]
    · cases hresolve.symm.trans hnone

end Pkgly.Docker.DockerSite
