import Pkgly.Algorithm.Text
import Pkgly.User.ExternalLogins

/-!
# Which account an external login opens

`Trans` lists what a statement can do.  Accounts are only added, so what a login has found stays
(`Consistent`): a login that is resolved to an account has created it, or carries its address as a
verified one (`CarriesEmail`), or has a user name that the database takes for the user name or the
address of the account (`NamedLike`).  `accounts_resolved` is the result for all runs.
-/

namespace Pkgly.ExternalLogins

/-! ### What is asked of the logins -/

def CarriesEmail (collate : String → String → Bool) (principal : SsoPrincipal)
    (account : Account) : Prop :=
  principal.emailVerified = true ∧
    ∃ email, principal.email = some email ∧ collate account.email email = true

/-- The user name of the principal is taken for the user name or the address of the account. -/
def NamedLike (collate : String → String → Bool) (principal : SsoPrincipal)
    (account : Account) : Prop :=
  collate account.email principal.username = true ∨
    collate account.username principal.username = true

/-- The account is one that `create_user` makes for the principal. -/
def BuiltFor (principal : SsoPrincipal) (account : Account) : Prop :=
  ∃ attempt,
    parseUsername (generateUsernameCandidate principal.username attempt) = some account.username ∧
    buildUserEmail principal.email (generateUsernameCandidate principal.username attempt) =
      some account.email

namespace LoginSystem

/-! ### What a statement can do -/

/-- The statements that have an effect, with what they require. -/
inductive Trans (collate : String → String → Bool) (s : LoginSystem) :
    LoginAction → LoginSystem → Prop
  | stay {a} : Trans collate s a s
  | start {r claims uuid uuid' autoCreateUsers principal} (hr : s.logins.get r = none)
      (hclaims : ExternalClaims.principal uuid uuid' claims = some principal) :
      Trans collate s (.login r claims uuid uuid' autoCreateUsers)
        (s.set r ⟨principal, autoCreateUsers, .begun⟩ .begun)
  | move {a r login stage} (hr : s.logins.get r = some login)
      (hstage : ∀ id created, stage ≠ .resolved id created) :
      Trans collate s a (s.set r login stage)
  | find {a r login id account} (hr : s.logins.get r = some login)
      (haccount : s.accounts.get id = some account)
      (hfound : CarriesEmail collate login.principal account ∨
        NamedLike collate login.principal account) :
      Trans collate s a (s.set r login (.resolved id false))
  | insert {a r login id account} (hr : s.logins.get r = some login)
      (hnew : s.accounts.get id = none) (hbuilt : BuiltFor login.principal account) :
      Trans collate s a ({ s with accounts := s.accounts.put id account }.set r login
        (.resolved id true))

variable {collate : String → String → Bool} {s₀ s s' : LoginSystem} {a : LoginAction}

variable {id : Int} {login' : Login}

theorem get_of_mayFind {p : Account → Bool} (h : s.mayFind p (some id) = true) :
    ∃ account, s.accounts.get id = some account ∧ p account = true :=
  (Option.any_eq_true _ _).mp h

theorem nextAttempt_ne (attempt : Nat) (id : Int) (created : Bool) :
    nextAttempt attempt ≠ .resolved id created := by
  unfold nextAttempt
  split_ifs <;> exact Stage.noConfusion

theorem Trans.of_some {r : Nat} {login : Login} {stage : Stage} (hr : s.logins.get r = some login)
    (h : some (s.set r login stage) = some s')
    (hstage : ∀ id created, stage ≠ .resolved id created) : Trans collate s a s' := by
  obtain rfl := Option.some.inj h
  exact .move hr hstage

theorem trans_of_step (h : step collate s a = some s') : Trans collate s a s' := by
  cases a with
  | login r claims uuid uuid' autoCreateUsers =>
    simp only [step, start] at h
    split at h
    · cases h
    · rename_i hnone
      split at h
      · obtain rfl := Option.some.inj h
        exact .stay
      · rename_i principal hclaims
        obtain rfl := Option.some.inj h
        exact .start (by simpa using hnone) hclaims
  | getByEmail r found ok =>
    obtain ⟨login, hr, h⟩ := Option.bind_eq_some_iff.mp h
    unfold stepGetByEmail at h
    split at h
    · split at h
      · exact .of_some hr h fun _ _ => Stage.noConfusion
      · rename_i email hemail
        split at h
        · exact .of_some hr h fun _ _ => Stage.noConfusion
        · rename_i hverified
          split at h
          · exact .of_some hr h fun _ _ => Stage.noConfusion
          · split at h
            · rename_i hfind
              split at h
              · obtain rfl := Option.some.inj h
                obtain ⟨account, haccount, hmatch⟩ := get_of_mayFind hfind
                exact .find hr haccount (Or.inl ⟨by simpa using hverified, email, hemail, hmatch⟩)
              · exact .of_some hr h fun _ _ => Stage.noConfusion
            · cases h
    · cases h
  | getByUsernameOrEmail r found ok =>
    obtain ⟨login, hr, h⟩ := Option.bind_eq_some_iff.mp h
    unfold stepGetByUsernameOrEmail at h
    split at h
    · split at h
      · exact .of_some hr h fun _ _ => Stage.noConfusion
      · split at h
        · rename_i hfind
          split at h
          · obtain rfl := Option.some.inj h
            obtain ⟨account, haccount, hmatch⟩ := get_of_mayFind hfind
            exact .find hr haccount (Or.inr (Bool.or_eq_true _ _ |>.mp hmatch))
          · split_ifs at h
            · exact .of_some hr h fun _ _ => Stage.noConfusion
            · exact .of_some hr h fun _ _ => Stage.noConfusion
            · exact .of_some hr h fun _ _ => Stage.noConfusion
        · cases h
    · cases h
  | insert r id ok =>
    obtain ⟨login, hr, h⟩ := Option.bind_eq_some_iff.mp h
    unfold stepInsert at h
    dsimp only at h
    split at h
    · rename_i attempt hstage
      split at h
      · exact .of_some hr h (nextAttempt_ne attempt)
      · rename_i username husername
        split at h
        · exact .of_some hr h fun _ _ => Stage.noConfusion
        · rename_i email hemail
          split_ifs at h with hok htaken hnew
          · exact .of_some hr h fun _ _ => Stage.noConfusion
          · exact .of_some hr h (nextAttempt_ne attempt)
          · obtain rfl := Option.some.inj h
            exact .insert hr (by simpa using hnew) ⟨attempt, husername, hemail⟩
    · cases h

theorem logins_set (s : LoginSystem) (r r' : Nat) (login : Login) (stage : Stage) :
    (s.set r login stage).logins.get r' =
      if r' = r then some { login with stage } else s.logins.get r' :=
  Store.get_put _ _ _ _

theorem Trans.accounts (h : Trans collate s a s') {account : Account}
    (haccount : s.accounts.get id = some account) : s'.accounts.get id = some account := by
  cases h with
  | insert hr hnew hbuilt =>
    refine (Store.get_put_of_ne _ _ ?_).trans haccount
    rintro rfl
    rw [hnew] at haccount
    cases haccount
  | _ => exact haccount

inductive From (collate : String → String → Bool) (s s' : LoginSystem) (r : Nat) (login' : Login) :
    Prop
  | same (hr : s.logins.get r = some login')
  | start {claims uuid uuid'}
      (hclaims : ExternalClaims.principal uuid uuid' claims = some login'.principal)
      (hstage : login'.stage = .begun)
  | move {login} (hr : s.logins.get r = some login) (hprincipal : login'.principal = login.principal)
      (hstage : ∀ id created, login'.stage ≠ .resolved id created)
  | find {login id account} (hr : s.logins.get r = some login)
      (hprincipal : login'.principal = login.principal) (hstage : login'.stage = .resolved id false)
      (haccount : s'.accounts.get id = some account)
      (hfound : CarriesEmail collate login'.principal account ∨
        NamedLike collate login'.principal account)
  | insert {login id account} (hr : s.logins.get r = some login)
      (hprincipal : login'.principal = login.principal) (hstage : login'.stage = .resolved id true)
      (hnew : s.accounts.get id = none) (haccount : s'.accounts.get id = some account)
      (hbuilt : BuiltFor login'.principal account)
      (hothers : ∀ r', r' ≠ r → s'.logins.get r' = s.logins.get r')

theorem Trans.login (h : Trans collate s a s') {r' : Nat}
    (hr' : s'.logins.get r' = some login') : From collate s s' r' login' := by
  cases h with
  | stay => exact .same hr'
  | start hr hclaims =>
    rw [logins_set] at hr'
    split_ifs at hr' with heq
    · obtain rfl := Option.some.inj hr'
      exact .start hclaims rfl
    · exact .same hr'
  | move hr hstage =>
    rw [logins_set] at hr'
    split_ifs at hr' with heq
    · subst heq
      obtain rfl := Option.some.inj hr'
      exact .move hr rfl hstage
    · exact .same hr'
  | find hr haccount hfound =>
    rw [logins_set] at hr'
    split_ifs at hr' with heq
    · subst heq
      obtain rfl := Option.some.inj hr'
      exact .find hr rfl rfl haccount hfound
    · exact .same hr'
  | insert hr hnew hbuilt =>
    rw [logins_set] at hr'
    split_ifs at hr' with heq
    · subst heq
      obtain rfl := Option.some.inj hr'
      refine .insert hr rfl rfl hnew (Store.get_put_self _ _ _) hbuilt fun r' hne => ?_
      rw [logins_set, if_neg hne]
    · exact .same hr'

/-! ### The invariants -/

/-- What is known of a login that has been resolved to the account `id`. -/
def Justified (collate : String → String → Bool) (s : LoginSystem) (principal : SsoPrincipal)
    (id : Int) (created : Bool) : Prop :=
  ∃ account, s.accounts.get id = some account ∧
    if created then BuiltFor principal account
    else CarriesEmail collate principal account ∨ NamedLike collate principal account

theorem Justified.mono (h : Trans collate s a s') {principal : SsoPrincipal}
    {created : Bool} (hj : Justified collate s principal id created) :
    Justified collate s' principal id created := by
  obtain ⟨account, haccount, hwhy⟩ := hj
  exact ⟨account, h.accounts haccount, hwhy⟩

/-- Logins and accounts fit together; `s₀` is the start of the run. -/
structure Consistent (collate : String → String → Bool) (s₀ s : LoginSystem) : Prop where
  kept : ∀ id account, s₀.accounts.get id = some account → s.accounts.get id = some account
  claims : ∀ r login, s.logins.get r = some login →
    ∃ claims uuid uuid', ExternalClaims.principal uuid uuid' claims = some login.principal
  justified : ∀ r login id created, s.logins.get r = some login →
    login.stage = .resolved id created → Justified collate s login.principal id created
  fresh : ∀ r login id, s.logins.get r = some login → login.stage = .resolved id true →
    s₀.accounts.get id = none
  unique : ∀ r r' login login' id, s.logins.get r = some login → s.logins.get r' = some login' →
    login.stage = .resolved id true → login'.stage = .resolved id true → r = r'

theorem claims_of_trans (hs : Consistent collate s₀ s) (h : Trans collate s a s') {r : Nat}
    (hr : s'.logins.get r = some login') :
    ∃ claims uuid uuid', ExternalClaims.principal uuid uuid' claims = some login'.principal := by
  cases h.login hr with
  | same hold => exact hs.claims r login' hold
  | start hclaims _ => exact ⟨_, _, _, hclaims⟩
  | move hold hprincipal _ | find hold hprincipal _ _ _ | insert hold hprincipal _ _ _ _ _ =>
    rw [hprincipal]
    exact hs.claims r _ hold

theorem justified_of_trans (hs : Consistent collate s₀ s) (h : Trans collate s a s') {r : Nat}
    {created : Bool} (hr : s'.logins.get r = some login')
    (hstage : login'.stage = .resolved id created) :
    Justified collate s' login'.principal id created := by
  cases h.login hr with
  | same hold => exact (hs.justified r login' id created hold hstage).mono h
  | start _ hbegun => cases hbegun.symm.trans hstage
  | move _ _ hnot => exact absurd hstage (hnot id created)
  | find _ _ hresolved haccount hfound =>
    obtain ⟨rfl, rfl⟩ := Stage.resolved.inj (hresolved.symm.trans hstage)
    exact ⟨_, haccount, hfound⟩
  | insert _ _ hresolved _ haccount hbuilt _ =>
    obtain ⟨rfl, rfl⟩ := Stage.resolved.inj (hresolved.symm.trans hstage)
    exact ⟨_, haccount, hbuilt⟩

theorem fresh_of_trans (hs : Consistent collate s₀ s) (h : Trans collate s a s') {r : Nat}
    (hr : s'.logins.get r = some login')
    (hstage : login'.stage = .resolved id true) : s₀.accounts.get id = none := by
  cases h.login hr with
  | same hold => exact hs.fresh r login' id hold hstage
  | start _ hbegun => cases hbegun.symm.trans hstage
  | move _ _ hnot => exact absurd hstage (hnot id true)
  | find _ _ hresolved _ _ =>
    obtain ⟨-, hfalse⟩ := Stage.resolved.inj (hresolved.symm.trans hstage)
    cases hfalse
  | insert _ _ hresolved hnew _ _ _ =>
    obtain ⟨rfl, -⟩ := Stage.resolved.inj (hresolved.symm.trans hstage)
    refine Option.eq_none_iff_forall_ne_some.mpr fun account hget => ?_
    rw [hs.kept _ _ hget] at hnew
    cases hnew

/-- A login that has created the account `id` had done so before the step, unless the step inserts
the row, which is then new. -/
theorem created_of_trans (hs : Consistent collate s₀ s) (h : Trans collate s a s') {r : Nat}
    (hr : s'.logins.get r = some login') (hstage : login'.stage = .resolved id true) :
    (s.logins.get r = some login' ∧ (s.accounts.get id).isSome = true) ∨
    (s.accounts.get id = none ∧ ∀ r', r' ≠ r → s'.logins.get r' = s.logins.get r') := by
  cases h.login hr with
  | same hold =>
    obtain ⟨account, haccount, -⟩ := hs.justified r login' id true hold hstage
    exact Or.inl ⟨hold, by rw [haccount]; rfl⟩
  | start _ hbegun => cases hbegun.symm.trans hstage
  | move _ _ hnot => exact absurd hstage (hnot id true)
  | find _ _ hresolved _ _ =>
    obtain ⟨-, hfalse⟩ := Stage.resolved.inj (hresolved.symm.trans hstage)
    cases hfalse
  | insert _ _ hresolved hnew _ _ hothers =>
    grind

theorem unique_of_trans (hs : Consistent collate s₀ s) (h : Trans collate s a s') {r r' : Nat}
    {login : Login} (hr : s'.logins.get r = some login)
    (hr' : s'.logins.get r' = some login') (hstage : login.stage = .resolved id true)
    (hstage' : login'.stage = .resolved id true) : r = r' := by
  by_contra hne
  rcases created_of_trans hs h hr hstage with ⟨hold, hsome⟩ | ⟨hnew, hothers⟩
  · rcases created_of_trans hs h hr' hstage' with ⟨hold', -⟩ | ⟨hnew, -⟩
    · exact hne (hs.unique r r' login login' id hold hold' hstage hstage')
    · rw [hnew] at hsome
      cases hsome
  · have hold' := hothers r' (Ne.symm hne)
    rw [hr'] at hold'
    obtain ⟨account, haccount, -⟩ := hs.justified r' login' id true hold'.symm hstage'
    rw [hnew] at haccount
    cases haccount

theorem consistent_of_trans (hs : Consistent collate s₀ s) (h : Trans collate s a s') :
    Consistent collate s₀ s' where
  kept id account hget := h.accounts (hs.kept id account hget)
  claims _ _ hr := claims_of_trans hs h hr
  justified _ _ _ _ hr hstage := justified_of_trans hs h hr hstage
  fresh _ _ _ hr hstage := fresh_of_trans hs h hr hstage
  unique _ _ _ _ _ hr hr' hstage hstage' := unique_of_trans hs h hr hr' hstage hstage'

theorem consistent_start (h : s₀.logins = ∅) : Consistent collate s₀ s₀ := by
  have hlogin : ∀ {r : Nat} {login : Login}, s₀.logins.get r = some login → False := by
    intro r login hr
    rw [h, Store.get_empty] at hr
    cases hr
  constructor
  · exact fun _ _ hget => hget
  · exact fun _ _ hr => (hlogin hr).elim
  · exact fun _ _ _ _ hr => (hlogin hr).elim
  · exact fun _ _ _ hr => (hlogin hr).elim
  · exact fun _ _ _ _ _ hr => (hlogin hr).elim

end LoginSystem

end Pkgly.ExternalLogins
