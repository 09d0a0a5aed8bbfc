import Pkgly.Authentication.Permissions

/-!
# What a request with an auth token may do

`Scoped` says what the checks answer for an authentication that carries an auth token: an action
needs the permission of the user and the scope of the token, on the same repository; reading is also
open where the repository is public and has no authentication; and the checks of a role look at the
user alone.  `scoped_authentication` and `scoped_repositoryAuthentication` prove it for both types
of authentication, the latter under any number of wrappers of virtual repositories, which move the
check of a read to the virtual repository.
-/

namespace Pkgly

variable {db : AccessTables} {token : AuthToken} {user : UserPermissions}

def AuthToken.ReadOnly (db : AccessTables) (token : AuthToken) : Prop :=
  (∀ scope ∈ db.tokenScopes token.id, scope = .readRepository) ∧
    ∀ repository actions, db.tokenRepositoryScopes token.id repository = some actions →
      ∀ action ∈ actions, action = .read

/-- The checks on an authentication with the token `token` of `user`; `effective` is the repository
that a check of an action looks at. -/
structure Scoped {α : Type} [HasPermissions α] (db : AccessTables) (token : AuthToken)
    (user : UserPermissions) (auth : α) (effective : RepositoryActions → Uuid → Uuid) : Prop where
  hasAction : ∀ action repository, HasPermissions.hasAction db auth action repository = true ↔
    user.hasAction db action (effective action repository) = true ∧
      token.hasRepositoryAction db (effective action repository) action = true
  canRead : ∀ visibility repository config,
    HasPermissions.canReadRepositoryWithAuth db auth visibility repository config = true ↔
      (visibility = .«public» ∧ config.enabled = false) ∨
        (user.hasAction db .read (effective .read repository) = true ∧
          token.hasRepositoryAction db (effective .read repository) .read = true)
  userManager : HasPermissions.isAdminOrUserManager auth = user.isAdminOrUserManager
  systemManager : HasPermissions.isAdminOrSystemManager auth = user.isAdminOrSystemManager
  readOnly : token.ReadOnly db → ∀ action repository, action ≠ .read →
    HasPermissions.hasAction db auth action repository = false

/-! ### The checks -/

theorem doesUserAndTokenHaveRepositoryAction_iff {action : RepositoryActions} {repository : Uuid} :
    doesUserAndTokenHaveRepositoryAction db user token action repository = true ↔
      user.hasAction db action repository = true ∧
        token.hasRepositoryAction db repository action = true := by
  unfold doesUserAndTokenHaveRepositoryAction
  cases user.hasAction db action repository <;> simp

theorem hasRepositoryAction_of_readOnly (h : token.ReadOnly db) {action : RepositoryActions}
    (hne : action ≠ .read) (repository : Uuid) :
    token.hasRepositoryAction db repository action = false := by
  have hscope : token.hasScope db action.toScope = false := by
    refine Bool.eq_false_iff.mpr fun hcontains => hne ?_
    have hread := h.1 _ (List.contains_iff_mem.mp hcontains)
    cases action with
    | read => rfl
    | write | edit => cases hread
  unfold AuthToken.hasRepositoryAction
  rw [hscope, if_neg Bool.false_ne_true]
  split
  · rfl
  · rename_i actions hactions
    refine Bool.eq_false_iff.mpr fun hcontains => hne ?_
    exact h.2 repository actions hactions action (List.contains_iff_mem.mp hcontains)

theorem canReadRepositoryWithAuth_iff {α : Type} [HasPermissions α] {auth : α}
    {visibility : Visibility} {repository : Uuid} {config : RepositoryAuthConfig} :
    HasPermissions.canReadRepositoryWithAuth db auth visibility repository config = true ↔
      (visibility = .«public» ∧ config.enabled = false) ∨
        HasPermissions.hasAction db auth .read repository = true := by
  unfold HasPermissions.canReadRepositoryWithAuth HasPermissions.canReadRepository
  cases config.enabled <;> cases visibility <;> simp

/-- Everything follows from the check of actions and the user that the authentication shows. -/
theorem scoped_of_hasAction {α : Type} [HasPermissions α] {auth : α}
    {effective : RepositoryActions → Uuid → Uuid}
    (hpermissions : HasPermissions.getPermissions auth = some user)
    (haction : ∀ action repository, HasPermissions.hasAction db auth action repository =
      doesUserAndTokenHaveRepositoryAction db user token action (effective action repository)) :
    Scoped db token user auth effective where
  hasAction action repository := by
    rw [haction, doesUserAndTokenHaveRepositoryAction_iff]
  canRead visibility repository config := by
    rw [canReadRepositoryWithAuth_iff, haction, doesUserAndTokenHaveRepositoryAction_iff]
  userManager := by
    rw [HasPermissions.isAdminOrUserManager, hpermissions]
    rfl
  systemManager := by
    rw [HasPermissions.isAdminOrSystemManager, hpermissions]
    rfl
  readOnly hread action repository hne := by
    refine Bool.eq_false_iff.mpr fun htrue => ?_
    rw [haction, doesUserAndTokenHaveRepositoryAction_iff,
      hasRepositoryAction_of_readOnly hread hne] at htrue
    exact Bool.false_ne_true htrue.2

/-! ### The two types of authentication -/

theorem scoped_authentication :
    Scoped db token user (Authentication.authToken token user) fun _ repository => repository :=
  scoped_of_hasAction rfl fun _ _ => rfl

namespace RepositoryAuthentication

/-- The request was authenticated by the token, directly or as the password of Basic credentials,
under any number of wrappers. -/
inductive Carries (token : AuthToken) (user : UserSafeData) : RepositoryAuthentication → Prop
  | authToken : Carries token user (.authToken token user)
  | basic : Carries token user (.basic (some token) user)
  | virtualRepository {virtualRepositoryId inner} (h : Carries token user inner) :
      Carries token user (.virtualRepository virtualRepositoryId inner)

/-- The repository that a check of `action` on `repository` looks at. -/
def effectiveRepository (auth : RepositoryAuthentication) (action : RepositoryActions)
    (repository : Uuid) : Uuid :=
  (unwrapVirtualForAction action auth repository).2

variable {auth : RepositoryAuthentication}

theorem effectiveRepository_of_ne {action : RepositoryActions}
    (hne : action ≠ .read) (repository : Uuid) :
    auth.effectiveRepository action repository = repository := by
  induction auth with
  | virtualRepository virtualRepositoryId inner ih =>
    rw [effectiveRepository, unwrapVirtualForAction, if_neg hne]
    exact ih
  | _ => rfl

theorem unwrap_of_carries (h : Carries token user auth)
    (action : RepositoryActions) (repository : Uuid) :
    unwrapVirtualForAction action auth repository =
        (.authToken token user, auth.effectiveRepository action repository) ∨
      unwrapVirtualForAction action auth repository =
        (.basic (some token) user, auth.effectiveRepository action repository) := by
  induction h generalizing repository with
  | authToken => exact Or.inl rfl
  | basic => exact Or.inr rfl
  | virtualRepository _ ih => exact ih _

theorem getPermissions_of_carries (h : Carries token user auth) :
    auth.getPermissions = some user := by
  induction h with
  | authToken | basic => rfl
  | virtualRepository _ ih => exact ih

theorem hasAction_of_carries (h : Carries token user auth)
    (action : RepositoryActions) (repository : Uuid) : auth.hasAction db action repository =
      doesUserAndTokenHaveRepositoryAction db user token action
        (auth.effectiveRepository action repository) := by
  unfold hasAction
  rcases unwrap_of_carries h action repository with heq | heq
  · rw [heq]
  · rw [heq]

theorem canAccessRepository_of_carries
    (h : Carries token user auth) (action : RepositoryActions) (repository : Uuid) :
    auth.canAccessRepository db action repository = auth.hasAction db action repository := by
  rw [hasAction_of_carries h]
  unfold canAccessRepository
  rcases unwrap_of_carries h action repository with heq | heq
  · rw [heq]
  · rw [heq]

theorem isSome_getUserIfHasAction_of_carries
    (h : Carries token user auth) (action : RepositoryActions) (repository : Uuid) :
    (auth.getUserIfHasAction db action repository).isSome =
      auth.hasAction db action repository := by
  rw [hasAction_of_carries h]
  unfold getUserIfHasAction
  rcases unwrap_of_carries h action repository with heq | heq
  · rw [heq]
    dsimp only
    split <;> simp_all
  · rw [heq]
    dsimp only
    split <;> simp_all

theorem scoped_repositoryAuthentication
    (h : Carries token user auth) : Scoped db token user auth auth.effectiveRepository :=
  scoped_of_hasAction (getPermissions_of_carries h) (hasAction_of_carries h)

end RepositoryAuthentication

/-- **Main theorem.**  The checks on a request with an auth token, of either type of
authentication. -/
theorem tokens_scoped (db : AccessTables) (token : AuthToken) (user : UserPermissions) :
    (Scoped db token user (Authentication.authToken token user) fun _ repository => repository) ∧
    ∀ auth : RepositoryAuthentication, auth.Carries token user →
      Scoped db token user auth auth.effectiveRepository ∧
        (∀ action repository, action ≠ .read →
          auth.effectiveRepository action repository = repository) ∧
        ∀ action repository,
          auth.canAccessRepository db action repository = auth.hasAction db action repository ∧
          (auth.getUserIfHasAction db action repository).isSome =
            auth.hasAction db action repository :=
  ⟨scoped_authentication, fun _ h =>
    ⟨RepositoryAuthentication.scoped_repositoryAuthentication h,
      fun _ repository hne => RepositoryAuthentication.effectiveRepository_of_ne hne repository,
      fun action repository =>
        ⟨RepositoryAuthentication.canAccessRepository_of_carries h action repository,
          RepositoryAuthentication.isSome_getUserIfHasAction_of_carries h action repository⟩⟩⟩

namespace RepositoryAuthentication

/-! ### Access through virtual repositories -/

/-- The wrappers of the virtual repositories that a request goes through, in their order. -/
def wrappedBy (auth : RepositoryAuthentication) (ids : List Uuid) : RepositoryAuthentication :=
  ids.foldl wrapForVirtualReads auth

/-- The repository that decides: for a read the virtual repository addressed first. -/
def decidingRepository (ids : List Uuid) (action : RepositoryActions) (member : Uuid) : Uuid :=
  if action = .read then ids.headD member else member

theorem unwrap_wrappedBy (auth : RepositoryAuthentication) (ids : List Uuid)
    (action : RepositoryActions) (member : Uuid) :
    unwrapVirtualForAction action (auth.wrappedBy ids) member =
      unwrapVirtualForAction action auth (decidingRepository ids action member) := by
  induction ids generalizing auth with
  | nil => rw [decidingRepository, List.headD_nil, ite_self]; rfl
  | cons v ids ih =>
    change unwrapVirtualForAction action ((auth.wrapForVirtualReads v).wrappedBy ids) member = _
    rw [ih, wrapForVirtualReads, unwrapVirtualForAction]
    congr 1
    unfold decidingRepository
    split <;> rfl

theorem getUser_wrappedBy (auth : RepositoryAuthentication) (ids : List Uuid) :
    (auth.wrappedBy ids).getUser = auth.getUser := by
  induction ids generalizing auth with
  | nil => rfl
  | cons v ids ih => exact ih (auth.wrapForVirtualReads v)

/-- The three checks are one: who has no user has no access. -/
theorem checks_agree (auth : RepositoryAuthentication) (action : RepositoryActions)
    (repository : Uuid) :
    auth.canAccessRepository db action repository = auth.hasAction db action repository ∧
      auth.getUserIfHasAction db action repository =
        if auth.hasAction db action repository = true then auth.getUser else none := by
  induction auth generalizing repository with
  | virtualRepository v inner ih => exact ih _
  | authToken | session => exact ⟨rfl, rfl⟩
  | basic token _ => cases token <;> exact ⟨rfl, rfl⟩
  | anonymousDocker | other | noIdentification => exact ⟨rfl, rfl⟩

/-- Behind any virtual repositories the three checks give the answer of the authentication itself,
for a read on the virtual repository addressed first, and a token needs its scope there too. -/
theorem virtual_access (db : AccessTables) (auth : RepositoryAuthentication) (ids : List Uuid)
    (action : RepositoryActions) (member : Uuid) :
    (auth.wrappedBy ids).hasAction db action member =
        auth.hasAction db action (decidingRepository ids action member) ∧
      (auth.wrappedBy ids).canAccessRepository db action member =
        auth.hasAction db action (decidingRepository ids action member) ∧
      (auth.wrappedBy ids).getUserIfHasAction db action member =
        (if auth.hasAction db action (decidingRepository ids action member) = true then
          auth.getUser else none) ∧
      ∀ token user, auth = .authToken token user ∨ auth = .basic (some token) user →
        (auth.hasAction db action (decidingRepository ids action member) = true ↔
          user.hasAction db action (decidingRepository ids action member) = true ∧
            token.hasRepositoryAction db (decidingRepository ids action member) action = true) := by
  have hself : (auth.wrappedBy ids).hasAction db action member =
      auth.hasAction db action (decidingRepository ids action member) := by
    unfold hasAction
    rw [unwrap_wrappedBy]
  obtain ⟨haccess, huser⟩ := @checks_agree db (auth.wrappedBy ids) action member
  refine ⟨hself, haccess.trans hself, ?_, ?_⟩
  · rw [huser, hself, getUser_wrappedBy]
  · rintro token user (rfl | rfl)
    · exact doesUserAndTokenHaveRepositoryAction_iff
    · exact doesUserAndTokenHaveRepositoryAction_iff

end RepositoryAuthentication

/-! ### Requests of an administrator -/

def readToken : AccessTables where
  repositoryActions _ _ := none
  tokenScopes _ := [.readRepository]
  tokenRepositoryScopes _ _ := none

/-- With such a token, behind a virtual repository, an administrator cannot write. -/
theorem tokens_scoped_readToken :
    RepositoryAuthentication.hasAction readToken
      (.virtualRepository 5 (.basic (some ⟨1⟩) ⟨1, true, false, false, []⟩)) .write 7 = false := by
  have h := ((tokens_scoped readToken ⟨1⟩ ⟨1, true, false, false, []⟩).2
    (.virtualRepository 5 (.basic (some ⟨1⟩) ⟨1, true, false, false, []⟩))
    (.virtualRepository .basic)).1
  refine h.readOnly ⟨fun scope hscope => ?_, fun _ _ hnone => ?_⟩ .write 7
    RepositoryActions.noConfusion
  · exact List.mem_singleton.mp hscope
  · cases hnone

def virtualToken : AccessTables where
  repositoryActions _ _ := none
  tokenScopes _ := []
  tokenRepositoryScopes _ repository := if repository = 5 then some [.read] else none

/-- With the token of an administrator that can only read, the checks of a role succeed; a public
repository can be read with a token that has no scope for it; and so can a member of a virtual
repository that the token may read. -/
theorem not_tokens_scoped_roles :
    (¬ ∀ (db : AccessTables) (token : AuthToken) (user : UserPermissions), token.ReadOnly db →
      HasPermissions.isAdminOrUserManager (Authentication.authToken token user) = false ∧
      HasPermissions.isAdminOrSystemManager (Authentication.authToken token user) = false) ∧
    (¬ ∀ (db : AccessTables) (token : AuthToken) (user : UserPermissions) (visibility : Visibility)
      (repository : Uuid) (config : RepositoryAuthConfig),
      HasPermissions.canReadRepositoryWithAuth db (Authentication.authToken token user) visibility
        repository config = true → token.hasRepositoryAction db repository .read = true) ∧
    ¬ ∀ (db : AccessTables) (token : AuthToken) (user : UserPermissions)
      (auth : RepositoryAuthentication) (repository : Uuid), auth.Carries token user →
      HasPermissions.hasAction db auth .read repository = true →
        token.hasRepositoryAction db repository .read = true := by
  refine ⟨fun hall => ?_, fun hall => ?_, fun hall => ?_⟩
  · have hread : AuthToken.ReadOnly readToken ⟨1⟩ :=
      ⟨fun _ hscope => List.mem_singleton.mp hscope, fun _ _ hnone => by cases hnone⟩
    have hfalse := (hall readToken ⟨1⟩ ⟨1, true, false, false, []⟩ hread).1
    cases hfalse
  · have htrue := hall virtualToken ⟨1⟩ ⟨1, false, false, false, []⟩ .«public» 7 ⟨false⟩ rfl
    cases htrue
  · have htrue := hall virtualToken ⟨1⟩ ⟨1, true, false, false, []⟩
      (.virtualRepository 5 (.authToken ⟨1⟩ ⟨1, true, false, false, []⟩)) 7
      (.virtualRepository .authToken) (by decide)
    cases htrue

end Pkgly
