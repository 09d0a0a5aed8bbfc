import Pkgly.Authentication.Credentials

/-!
# Requests after a withdrawal

`withdrawnStayOut`: in every run in which each look-up that does not check the column `active`, and
each hit in the cache of tokens, finds a user who is there and active and a token that is there
(`Backed`), no request is authenticated as a user, or with a token, whose access had been withdrawn
when the request started.  `not_withdrawnStayOut_repositoryToken` is a run in which the token of a
user who has been deactivated opens a repository.

The proof describes a step by its effect on the tables (`World`) and by the stage its operation
enters (`Trans`).  A stage that has read a token or a user keeps what was true when it was read
(`StageOk`): a later withdrawal gets a number above the number at the start of the request.
-/

namespace Pkgly.Credentials

namespace CredentialSystem

variable {env : Environment} {s s' : CredentialSystem}

/-! ### What is asked of the runs -/

/-- When the operation started, no withdrawal had completed that is in force for the user. -/
def UserValid (s : CredentialSystem) (call : Call) (userId : Int) : Prop :=
  ∀ n ∈ s.disabledUsers.get userId, call.startedAt < n

/-- When the operation started, the token had been neither deleted nor expired. -/
def TokenValid (s : CredentialSystem) (call : Call) (id : Int) (row : TokenRow) : Prop :=
  (∀ n ∈ s.disabledTokens.get id, call.startedAt < n) ∧ row.isExpired call.startTime = false

def WithdrawnStayOut (s : CredentialSystem) : Prop :=
  ∀ r call userId token, s.calls.get r = some call → call.stage = .authenticated userId token →
    s.UserValid call userId ∧ ∀ e ∈ token, s.TokenValid call e.1 e.2

/-- The user that an operation reads without a look at the column `active`. -/
def uncheckedUser (call : Call) : Option Int :=
  match call.op, call.stage with
  | .request _ _, .identified (.session session) => some session.userId
  | .request .repository _, .tokenRead _ _ row => some row.userId
  | _, _ => none

def lookedUp : Stage → Option String
  | .lookingUp token => some token
  | _ => none

/-- The condition on a step: a user who is read without a look at `active` is active, and an entry
of the cache that is used has its token and an active user in the tables. -/
def Backed (s : CredentialSystem) : CredentialAction → Prop
  | .getById r true => ∀ call ∈ s.calls.get r, ∀ userId ∈ uncheckedUser call,
      (s.users.get userId).all UserRow.active = true
  | .lookupCache r => ∀ call ∈ s.calls.get r, ∀ token ∈ lookedUp call.stage, ∀ e ∈ s.cached token,
      (s.tokens.get e.1).isSome = true ∧ (s.users.get e.2.userId).any UserRow.active = true
  | _ => True

instance : ∀ a, Decidable (s.Backed a)
  | .getById r true => inferInstanceAs (Decidable (∀ call ∈ s.calls.get r,
      ∀ userId ∈ uncheckedUser call, (s.users.get userId).all UserRow.active = true))
  | .lookupCache r => inferInstanceAs (Decidable (∀ call ∈ s.calls.get r,
      ∀ token ∈ lookedUp call.stage, ∀ e ∈ s.cached token,
        (s.tokens.get e.1).isSome = true ∧ (s.users.get e.2.userId).any UserRow.active = true))
  | .getById _ false | .tick _ | .start _ _ | .processHeaders _ _ | .verifyLogin _ _ _
  | .resolveUser _ _ _ | .createSession _ _ _ | .lookupAnonymous _ | .invalidate _
  | .getByToken _ _ | .insertCache _ | .count _ _ | .getToken _ _ | .change _ _
  | .listSessions _ _ | .removeSessions _ _ | .issueToken _ _ _ | .issueAnonymous _ _
  | .insertUser _ | .updateUser _ _ | .dropSession _ | .deleteExpired | .evict _ => isTrue trivial

/-! ### The tables -/

/-- Identifiers are not used twice, and what has been withdrawn is not in the tables, or
inactive. -/
structure Tables (s : CredentialSystem) : Prop where
  users_lt : ∀ id row, s.users.get id = some row → id < s.nextUserId
  tokens_lt : ∀ id row, s.tokens.get id = some row → id < s.nextTokenId
  disabledUsers_lt : ∀ id n, s.disabledUsers.get id = some n → id < s.nextUserId
  disabledTokens_lt : ∀ id n, s.disabledTokens.get id = some n → id < s.nextTokenId
  inactive : ∀ id n row, s.disabledUsers.get id = some n → s.users.get id = some row →
    row.active = false
  removed : ∀ id n, s.disabledTokens.get id = some n → s.tokens.get id = none

/-- What a step may do to the tables: a withdrawal that is new gets the next number. -/
structure World (s t : CredentialSystem) : Prop where
  calls : t.calls = s.calls
  now : s.now ≤ t.now
  completed : s.completed ≤ t.completed
  disabledUsers : ∀ id n, t.disabledUsers.get id = some n →
    s.disabledUsers.get id = some n ∨ n = s.completed + 1
  disabledTokens : ∀ id n, t.disabledTokens.get id = some n →
    s.disabledTokens.get id = some n ∨ n = s.completed + 1
  tables : s.Tables → t.Tables

theorem World.refl (s : CredentialSystem) : World s s :=
  ⟨rfl, Int.le_refl _, Nat.le_refl _, fun _ _ h => .inl h, fun _ _ h => .inl h, id⟩

theorem World.withCaches {t : CredentialSystem} (h : World s t) (sessions : Store String Session)
    (cache : Store String (Int × TokenRow × Int)) (docker : Store String Int) :
    World s { t with
      sessions := sessions, authTokenCache := cache, anonymousDockerTokens := docker } where
  calls := h.calls
  now := h.now
  completed := h.completed
  disabledUsers := h.disabledUsers
  disabledTokens := h.disabledTokens
  tables := fun hs =>
    have ht := h.tables hs
    ⟨ht.users_lt, ht.tokens_lt, ht.disabledUsers_lt, ht.disabledTokens_lt, ht.inactive, ht.removed⟩

theorem World.of_caches (s : CredentialSystem) (sessions : Store String Session)
    (cache : Store String (Int × TokenRow × Int)) (docker : Store String Int) :
    World s { s with
      sessions := sessions, authTokenCache := cache, anonymousDockerTokens := docker } :=
  (World.refl s).withCaches sessions cache docker

theorem world_tick (s : CredentialSystem) (microseconds : Nat) :
    World s { s with now := s.now + microseconds } where
  calls := rfl
  now := by show s.now ≤ s.now + _; omega
  completed := Nat.le_refl _
  disabledUsers := fun _ _ h => .inl h
  disabledTokens := fun _ _ h => .inl h
  tables := fun h =>
    ⟨h.users_lt, h.tokens_lt, h.disabledUsers_lt, h.disabledTokens_lt, h.inactive, h.removed⟩

theorem World.of_tables {users : Store Int UserRow} {nextUserId nextTokenId : Int}
    {tokens : Store Int TokenRow}
    (h : s.Tables → ({ s with
      users := users, nextUserId := nextUserId, tokens := tokens, nextTokenId := nextTokenId } :
        CredentialSystem).Tables) :
    World s { s with
      users := users, nextUserId := nextUserId, tokens := tokens, nextTokenId := nextTokenId } :=
  ⟨rfl, Int.le_refl _, Nat.le_refl _, fun _ _ h => .inl h, fun _ _ h => .inl h, h⟩

theorem world_addUser (s : CredentialSystem) (row : UserRow) : World s (s.addUser row) :=
  .of_tables fun h => by
    refine ⟨fun id row' hget => ?_, h.tokens_lt, fun id n hn => ?_, h.disabledTokens_lt,
      fun id n row' hn hget => ?_, h.removed⟩
    · show id < s.nextUserId + 1
      have hget : (s.users.put s.nextUserId row).get id = some row' := hget
      rw [Store.get_put] at hget
      split_ifs at hget with hid
      · omega
      · have := h.users_lt id row' hget
        omega
    · show id < s.nextUserId + 1
      have := h.disabledUsers_lt id n hn
      omega
    · -- A withdrawn identifier is not given out again.
      have hlt : id < s.nextUserId := h.disabledUsers_lt id n hn
      have hget : (s.users.put s.nextUserId row).get id = some row' := hget
      rw [Store.get_put_of_ne _ _ (by omega)] at hget
      exact h.inactive id n row' hn hget

theorem world_addToken (s : CredentialSystem) (row : TokenRow) : World s (s.addToken row) :=
  .of_tables fun h => by
    refine ⟨h.users_lt, fun id row' hget => ?_, h.disabledUsers_lt, fun id n hn => ?_, h.inactive,
      fun id n hn => ?_⟩
    · show id < s.nextTokenId + 1
      have hget : (s.tokens.put s.nextTokenId row).get id = some row' := hget
      rw [Store.get_put] at hget
      split_ifs at hget with hid
      · omega
      · have := h.tokens_lt id row' hget
        omega
    · show id < s.nextTokenId + 1
      have := h.disabledTokens_lt id n hn
      omega
    · have hlt : id < s.nextTokenId := h.disabledTokens_lt id n hn
      exact (Store.get_put_of_ne _ _ (by omega)).trans (h.removed id n hn)

theorem Tables.of_tokens {tokens : Store Int TokenRow} (h : s.Tables)
    (hsub : ∀ id row, tokens.get id = some row → s.tokens.get id = some row) :
    ({ s with tokens := tokens } : CredentialSystem).Tables := by
  refine ⟨h.users_lt, fun id row hget => h.tokens_lt id row (hsub id row hget),
    h.disabledUsers_lt, h.disabledTokens_lt, h.inactive, fun id n hn => ?_⟩
  refine Option.eq_none_iff_forall_ne_some.mpr fun row hget => ?_
  have hold := hsub id row hget
  rw [h.removed id n hn] at hold
  cases hold

theorem Tables.of_users {users : Store Int UserRow} (h : s.Tables)
    (hsub : ∀ id row, users.get id = some row →
      ∃ old, s.users.get id = some old ∧ (old.active = false → row.active = false)) :
    ({ s with users := users } : CredentialSystem).Tables := by
  refine ⟨fun id row hget => ?_, h.tokens_lt, h.disabledUsers_lt, h.disabledTokens_lt,
    fun id n row hn hget => ?_, h.removed⟩
  · obtain ⟨old, hold, -⟩ := hsub id row hget
    exact h.users_lt id old hold
  · obtain ⟨old, hold, hactive⟩ := hsub id row hget
    exact hactive (h.inactive id n old hn hold)

theorem world_removeExpired (s : CredentialSystem) : World s s.removeExpired :=
  .of_tables fun h => by
    refine h.of_tokens fun id row hget => ?_
    rw [Store.get_removeIf] at hget
    split_ifs at hget
    exact hget

theorem world_setUser (s : CredentialSystem) (id : Int) (row : UserRow) :
    World s (s.setUser id row) := by
  unfold setUser
  split
  · exact World.refl s
  · rename_i user huser
    refine .of_tables fun h => h.of_users fun id' row' hget => ?_
    rw [Store.get_put] at hget
    grind

theorem world_setActive (s : CredentialSystem) (id : Int) (active : Bool) :
    World s (s.setActive id active) := by
  unfold setActive
  split
  · exact World.refl s
  · rename_i user huser
    cases active with
    | false =>
      refine .of_tables fun h => h.of_users fun id' row' hget => ?_
      rw [Store.get_put] at hget
      grind
    | true =>
      -- The user becomes active, and the withdrawal is undone.
      have hsub : ∀ id' n, (s.disabledUsers.remove id).get id' = some n →
          id' ≠ id ∧ s.disabledUsers.get id' = some n := by simp [Store.get_remove]
      refine ⟨rfl, Int.le_refl _, Nat.le_refl _, fun id' n h => .inl (hsub id' n h).2, fun _ _ h => .inl h,
        fun h => ?_⟩
      refine ⟨fun id' row' hget => ?_, h.tokens_lt,
        fun id' n hn => h.disabledUsers_lt id' n (hsub id' n hn).2, h.disabledTokens_lt,
        fun id' n row' hn hget => ?_, h.removed⟩
      · have hget : (s.users.put id _).get id' = some row' := hget
        rw [Store.get_put] at hget
        split_ifs at hget with hid
        · exact hid ▸ h.users_lt id user huser
        · exact h.users_lt id' row' hget
      · obtain ⟨hne, hold⟩ := hsub id' n hn
        have hget : (s.users.put id _).get id' = some row' := hget
        rw [Store.get_put_of_ne _ _ hne] at hget
        exact h.inactive id' n row' hold hget

theorem get_recordUser {id id' : Int} {n : Nat}
    (h : (s.recordUser id).disabledUsers.get id' = some n) :
    s.disabledUsers.get id' = some n ∨ id' = id ∧ n = s.completed + 1 := by
  unfold recordUser at h
  dsimp only at h
  split_ifs at h
  · exact .inl h
  · rw [Store.get_put] at h
    split_ifs at h with hid
    · exact .inr ⟨hid, (Option.some.inj h).symm⟩
    · exact .inl h

theorem Tables.recordUser {id : Int} (h : s.Tables) (hlt : id < s.nextUserId)
    (hoff : ∀ row, s.users.get id = some row → row.active = false) : (s.recordUser id).Tables := by
  refine ⟨h.users_lt, h.tokens_lt, fun id' n hn => ?_, h.disabledTokens_lt,
    fun id' n row hn hget => ?_, h.removed⟩
  · rcases get_recordUser hn with hold | ⟨rfl, -⟩
    · exact h.disabledUsers_lt id' n hold
    · exact hlt
  · rcases get_recordUser hn with hold | ⟨rfl, -⟩
    · exact h.inactive id' n row hold hget
    · exact hoff row hget

theorem world_deactivated (s : CredentialSystem) (id : Int) : World s (s.deactivated id) := by
  unfold deactivated
  split_ifs with hoff
  · obtain ⟨user, huser, hactive⟩ := (Option.any_eq_true _ _).mp hoff
    refine ⟨rfl, Int.le_refl _, Nat.le_succ _, fun id' n hn => ?_, fun _ _ h => .inl h, fun h => ?_⟩
    · rcases get_recordUser hn with hold | ⟨-, hn⟩
      · exact .inl hold
      · exact .inr hn
    · refine h.recordUser (h.users_lt id user huser) fun row hrow => ?_
      obtain rfl := Option.some.inj (huser.symm.trans hrow)
      simpa using hactive
  · exact World.refl s

theorem world_deleteUserRow (s : CredentialSystem) (id : Int) : World s (s.deleteUserRow id) := by
  unfold deleteUserRow
  split_ifs with hsome
  · obtain ⟨user, huser⟩ := Option.isSome_iff_exists.mp hsome
    refine ⟨rfl, Int.le_refl _, Nat.le_succ _, fun id' n hn => ?_, fun _ _ h => .inl h, fun h => ?_⟩
    · rcases get_recordUser hn with hold | ⟨-, hn⟩
      · exact .inl hold
      · exact .inr hn
    · refine Tables.recordUser (Tables.of_tokens (@Tables.of_users _ (s.users.remove id) h
        fun id' row hget => ?_) fun id' row hget => ?_) (h.users_lt id user huser) fun row hrow => ?_
      · grind [Store.get_remove]
      · rw [Store.get_removeIf] at hget
        split_ifs at hget
        exact hget
      grind [id, get, Store.get_remove_self]
  · exact World.refl s

theorem world_deleteTokenRow (s : CredentialSystem) (id : Int) :
    World s (s.deleteTokenRow id) := by
  unfold deleteTokenRow
  split_ifs with hsome
  · obtain ⟨row, hrow⟩ := Option.isSome_iff_exists.mp hsome
    refine ⟨rfl, Int.le_refl _, Nat.le_succ _, fun _ _ h => .inl h, fun id' n hn => ?_, fun h => ?_⟩
    · have hn : (s.disabledTokens.put id _).get id' = some n := hn
      rw [Store.get_put] at hn
      split_ifs at hn
      · exact .inr (Option.some.inj hn).symm
      · exact .inl hn
    · refine ⟨h.users_lt, fun id' row' hget => ?_, h.disabledUsers_lt, fun id' n hn => ?_,
        h.inactive, fun id' n hn => ?_⟩
      · have hget : (s.tokens.remove id).get id' = some row' := hget
        rw [Store.get_remove] at hget
        split_ifs at hget
        exact h.tokens_lt id' row' hget
      · have hn : (s.disabledTokens.put id _).get id' = some n := hn
        rw [Store.get_put] at hn
        split_ifs at hn with hid
        · exact hid ▸ h.tokens_lt id row hrow
        · exact h.disabledTokens_lt id' n hn
      · have hn : (s.disabledTokens.put id _).get id' = some n := hn
        show (s.tokens.remove id).get id' = none
        rw [Store.get_put] at hn
        rw [Store.get_remove]
        split_ifs with hid
        · rfl
        · rw [if_neg hid] at hn
          exact h.removed id' n hn
  · exact World.refl s

/-! ### Steps -/

def StageOk (s : CredentialSystem) (call : Call) : Stage → Prop
  | .tokenRead _ id row => s.TokenValid call id row
  | .caching _ id row => s.UserValid call row.userId ∧ s.TokenValid call id row
  | .authenticated userId token =>
    s.UserValid call userId ∧ ∀ e ∈ token, s.TokenValid call e.1 e.2
  | _ => True

/-- A step changes the tables, starts an operation, or takes one on to its next stage. -/
inductive Trans (s : CredentialSystem) : CredentialSystem → Prop
  | world {t : CredentialSystem} (h : World s t) : Trans s t
  | start {r : Nat} {op : Operation} (hr : s.calls.get r = none) :
    Trans s { s with calls := s.calls.put r ⟨op, s.completed, s.now, .begun⟩ }
  | move {r : Nat} {call : Call} {stage : Stage} {t : CredentialSystem}
    (hr : s.calls.get r = some call) (h : World s t) (hstage : s.StageOk call stage) : Trans s (t.set r call stage)

structure Consistent (s : CredentialSystem) : Prop where
  tables : s.Tables
  startedAt_le : ∀ r call, s.calls.get r = some call → call.startedAt ≤ s.completed
  startTime_le : ∀ r call, s.calls.get r = some call → call.startTime ≤ s.now
  stage : ∀ r call, s.calls.get r = some call → s.StageOk call call.stage

theorem Trans.to {r : Nat} {call : Call} {stage : Stage} (hr : s.calls.get r = some call)
    (hstage : s.StageOk call stage) : Trans s (s.set r call stage) :=
  .move hr (World.refl s) hstage

theorem Trans.to_of_some {r : Nat} {call : Call} {stage : Stage} (hr : s.calls.get r = some call)
    (h : some (s.set r call stage) = some s') (hstage : s.StageOk call stage) : Trans s s' := by
  obtain rfl := Option.some.inj h
  exact .to hr hstage

theorem Trans.of_call {r : Nat} {f : Call → Option CredentialSystem}
    (h : (s.calls.get r).bind f = some s')
    (hf : ∀ call, s.calls.get r = some call → f call = some s' → Trans s s') : Trans s s' := by
  obtain ⟨call, hr, h⟩ := Option.bind_eq_some_iff.mp h
  exact hf call hr h

theorem Tables.userValid {call : Call} {userId : Int} {row : UserRow} (h : s.Tables)
    (hrow : s.users.get userId = some row) (hactive : row.active = true) :
    s.UserValid call userId := by
  intro n hn
  have hoff := h.inactive userId n row hn hrow
  rw [hactive] at hoff
  cases hoff

theorem Consistent.tokenValid {r : Nat} {call : Call} {id : Int} {row old : TokenRow}
    (hs : s.Consistent) (hr : s.calls.get r = some call) (hrow : s.tokens.get id = some old)
    (hexpired : row.isExpired s.now = false) : s.TokenValid call id row := by
  constructor
  · intro n hn
    have hnone := hs.tables.removed id n hn
    rw [hrow] at hnone
    cases hnone
  · have hle : call.startTime ≤ s.now := hs.startTime_le r call hr
    unfold TokenRow.isExpired at hexpired ⊢
    cases hexpires : row.expiresAt with
    | none => rfl
    | some expires =>
      grind

theorem get_of_findToken {token : String} {id : Int} {row : TokenRow}
    (h : s.findToken env token = some (id, row)) : s.tokens.get id = some row := by
  obtain ⟨e, he, heq⟩ := Option.map_eq_some_iff.mp h
  obtain ⟨rfl, rfl⟩ := Prod.mk.inj heq
  exact Store.get_eq_some_iff.mpr (List.mem_of_find?_eq_some he)

theorem get_of_checkLogin {password : String} {found : Option Int} {id : Int}
    (h : s.checkLogin env password found = .ok id) :
    ∃ row, s.users.get id = some row ∧ row.active = true := by
  unfold checkLogin at h
  grind

theorem stageOk_identify (call : Call) (route : Route) (raw : AuthenticationRaw) :
    s.StageOk call (identify route raw) := by
  unfold identify
  split <;> trivial

theorem stageOk_afterChecks (call : Call) (op : Operation) : s.StageOk call (afterChecks op) := by
  cases op <;> trivial

section Operations

variable {r : Nat} {call : Call} {ok : Bool}

theorem trans_processHeaders (hr : s.calls.get r = some call)
    (h : s.stepProcessHeaders r ok call = some s') : Trans s s' := by
  unfold stepProcessHeaders at h
  split at h
  · exact .to_of_some hr h (stageOk_identify _ _ _)
  · cases h

theorem trans_verifyLogin {found : Option Int} (hs : s.Consistent) (hr : s.calls.get r = some call)
    (h : s.stepVerifyLogin env r found ok call = some s') : Trans s s' := by
  unfold stepVerifyLogin at h
  split at h
  · split_ifs at h
    · exact .to_of_some hr h trivial
    · split at h
      · exact .to_of_some hr h trivial
      · exact .to_of_some hr h trivial
  · split_ifs at h
    · exact .to_of_some hr h trivial
    · split at h
      · rename_i id hlogin
        obtain rfl := Option.some.inj h
        obtain ⟨row, hrow, hactive⟩ := get_of_checkLogin hlogin
        exact .to hr ⟨hs.tables.userValid hrow hactive, fun e he => by cases he⟩
      · exact .to_of_some hr h trivial
      · exact .to_of_some hr h trivial
  · cases h

theorem trans_resolveUser {userId : Int} (hr : s.calls.get r = some call)
    (h : s.stepResolveUser r userId ok call = some s') : Trans s s' := by
  unfold stepResolveUser at h
  split at h
  · split at h
    · exact .to_of_some hr h trivial
    · split at h
      · cases h
      · split_ifs at h
        · exact .to_of_some hr h trivial
        · exact .to_of_some hr h trivial
  · cases h

theorem trans_createSession {id : String} (hr : s.calls.get r = some call)
    (h : s.stepCreateSession r id ok call = some s') : Trans s s' := by
  unfold stepCreateSession at h
  split at h
  · split_ifs at h
    · exact .to_of_some hr h trivial
    · obtain rfl := Option.some.inj h
      exact .move hr (World.of_caches s _ _ _) trivial
  · cases h

theorem trans_lookupAnonymous (hr : s.calls.get r = some call)
    (h : s.stepLookupAnonymous r call = some s') : Trans s s' := by
  unfold stepLookupAnonymous at h
  split at h
  · split_ifs at h
    · exact .to_of_some hr h trivial
    · exact .to_of_some hr h trivial
  · cases h

theorem trans_lookupCache (hs : s.Consistent) (hb : s.Backed (.lookupCache r))
    (hr : s.calls.get r = some call) (h : s.stepLookupCache r call = some s') : Trans s s' := by
  unfold stepLookupCache at h
  split at h
  · rename_i token hstage
    split at h
    · rename_i id row hcached
      split_ifs at h with hexpired
      · exact .to_of_some hr h trivial
      · obtain rfl := Option.some.inj h
        obtain ⟨htoken, huser⟩ := hb call hr token (by rw [hstage]; rfl) (id, row) hcached
        obtain ⟨old, hold⟩ := Option.isSome_iff_exists.mp htoken
        obtain ⟨user, hget, hactive⟩ := (Option.any_eq_true _ _).mp huser
        refine .to hr ⟨hs.tables.userValid hget hactive, fun e he => ?_⟩
        obtain rfl := Option.some.inj he
        exact hs.tokenValid hr hold (Bool.eq_false_iff.mpr hexpired)
    · exact .to_of_some hr h trivial
  · cases h

theorem trans_invalidate (hr : s.calls.get r = some call)
    (h : s.stepInvalidate r call = some s') : Trans s s' := by
  unfold stepInvalidate at h
  split at h
  · obtain rfl := Option.some.inj h
    exact .move hr (World.of_caches s _ _ _) trivial
  · cases h

theorem trans_getByToken (hs : s.Consistent) (hr : s.calls.get r = some call)
    (h : s.stepGetByToken env r ok call = some s') : Trans s s' := by
  unfold stepGetByToken at h
  split at h
  · cases h
  · split at h
    · exact .to_of_some hr h trivial
    · split at h
      · exact .to_of_some hr h trivial
      · rename_i id row hfind
        split_ifs at h with hexpired
        · exact .to_of_some hr h trivial
        · obtain rfl := Option.some.inj h
          exact .to hr (hs.tokenValid hr (get_of_findToken hfind)
            (Bool.eq_false_iff.mpr hexpired))

theorem trans_findUser {auth : UserPermissions} {userId : Int} (hr : s.calls.get r = some call) :
    Trans s (s.stepFindUser r ok call auth userId) := by
  unfold stepFindUser
  split_ifs
  · exact .to hr trivial
  · exact .to hr trivial
  · split
    · exact .to hr trivial
    · split_ifs
      · exact .to hr trivial
      · exact .to hr (stageOk_afterChecks _ _)

/-- The user that is read here without a look at `active` is active by the condition. -/
theorem trans_getById (hs : s.Consistent) (hb : s.Backed (.getById r ok))
    (hr : s.calls.get r = some call) (h : s.stepGetById r ok call = some s') : Trans s s' := by
  unfold stepGetById at h
  have hunchecked : ∀ userId user, ok = true → uncheckedUser call = some userId →
      s.users.get userId = some user → user.active = true := by
    rintro userId user rfl hread huser
    have hall := hb call hr userId hread
    rw [huser] at hall
    exact hall
  split at h
  · rename_i route headers session hop hstage
    split at h
    · exact .to_of_some hr h trivial
    · rename_i hok
      split at h
      · exact .to_of_some hr h trivial
      · rename_i user huser
        obtain rfl := Option.some.inj h
        have hread : uncheckedUser call = some session.userId := by
          rw [uncheckedUser, hop, hstage]
        have hactive := hunchecked _ user (by simpa using hok) hread huser
        exact .to hr ⟨hs.tables.userValid huser hactive, fun e he => by cases he⟩
  · rename_i route headers token id row hop hstage
    have htoken : s.TokenValid call id row := by
      have hok := hs.stage r call hr
      rw [hstage] at hok
      exact hok
    split at h
    · exact .to_of_some hr h trivial
    · rename_i hok
      split at h
      · exact .to_of_some hr h trivial
      · rename_i user huser
        split_ifs at h with hroute hactive
        · obtain rfl := Option.some.inj h
          have hread : uncheckedUser call = some row.userId := by
            rw [uncheckedUser, hop, hstage, hroute]
          have hactive := hunchecked _ user (by simpa using hok) hread huser
          exact .to hr ⟨hs.tables.userValid huser hactive, htoken⟩
        · obtain rfl := Option.some.inj h
          refine .to hr ⟨hs.tables.userValid huser hactive, fun e he => ?_⟩
          obtain rfl := Option.some.inj he
          exact htoken
        · exact .to_of_some hr h trivial
  · obtain rfl := Option.some.inj h
    exact trans_findUser hr
  · obtain rfl := Option.some.inj h
    exact trans_findUser hr
  · cases h

theorem trans_insertCache (hs : s.Consistent) (hr : s.calls.get r = some call)
    (h : s.stepInsertCache r call = some s') : Trans s s' := by
  unfold stepInsertCache at h
  split at h
  · rename_i token id row hstage
    obtain rfl := Option.some.inj h
    have hok := hs.stage r call hr
    rw [hstage] at hok
    refine .move hr (World.of_caches s _ _ _) ⟨hok.1, fun e he => ?_⟩
    obtain rfl := Option.some.inj he
    exact hok.2
  · cases h

theorem trans_count (hr : s.calls.get r = some call)
    (h : s.stepCount r ok call = some s') : Trans s s' := by
  unfold stepCount at h
  split at h
  · split_ifs at h
    · exact .to_of_some hr h trivial
    · exact .to_of_some hr h trivial
    · exact .to_of_some hr h (stageOk_afterChecks _ _)
  · cases h

theorem trans_getToken (hr : s.calls.get r = some call)
    (h : s.stepGetToken r ok call = some s') : Trans s s' := by
  unfold stepGetToken at h
  split at h
  · split_ifs at h
    · exact .to_of_some hr h trivial
    · exact .to_of_some hr h trivial
    · exact .to_of_some hr h trivial
  · cases h

theorem trans_change (hr : s.calls.get r = some call)
    (h : s.stepChange r ok call = some s') : Trans s s' := by
  unfold stepChange at h
  split at h
  · split_ifs at h
    · exact .to_of_some hr h trivial
    · obtain rfl := Option.some.inj h
      exact .move hr (world_setActive s _ _) trivial
    · obtain rfl := Option.some.inj h
      exact .move hr (world_setActive s _ _) trivial
  · split_ifs at h
    · exact .to_of_some hr h trivial
    · obtain rfl := Option.some.inj h
      exact .move hr (world_deleteUserRow s _) trivial
  · split_ifs at h
    · exact .to_of_some hr h trivial
    · obtain rfl := Option.some.inj h
      exact .move hr (world_deleteTokenRow s _) trivial
  · cases h

theorem trans_sessionsRemoved {t : CredentialSystem} {userId : Int}
    (hr : s.calls.get r = some call) (ht : World s t) (hd : World s (t.deactivated userId)) :
    Trans s (t.sessionsRemoved r call userId) := by
  unfold sessionsRemoved
  split
  · exact .move hr ht trivial
  · exact .move hr hd trivial

theorem trans_listSessions (hr : s.calls.get r = some call)
    (h : s.stepListSessions r ok call = some s') : Trans s s' := by
  unfold stepListSessions at h
  split at h
  · split at h
    · exact .to_of_some hr h trivial
    · dsimp only at h
      split at h
      · obtain rfl := Option.some.inj h
        exact trans_sessionsRemoved hr (World.refl s) (world_deactivated s _)
      · exact .to_of_some hr h trivial
  · cases h

theorem world_deactivated_sessions (s : CredentialSystem) (sessions : Store String Session)
    (id : Int) : World s (({ s with sessions := sessions } : CredentialSystem).deactivated id) := by
  have heq : ({ s with sessions := sessions } : CredentialSystem).deactivated id =
      { s.deactivated id with sessions := sessions } := by
    unfold deactivated
    split_ifs <;> rfl
  rw [heq]
  exact (world_deactivated s id).withCaches _ _ _

theorem trans_removeSessions (hr : s.calls.get r = some call)
    (h : s.stepRemoveSessions r ok call = some s') : Trans s s' := by
  unfold stepRemoveSessions at h
  split at h
  · split_ifs at h
    · exact .to_of_some hr h trivial
    · obtain rfl := Option.some.inj h
      exact trans_sessionsRemoved hr (World.of_caches s _ _ _) (world_deactivated_sessions s _ _)
  · cases h

theorem trans_issueToken {request : TokenRequest} {token : String}
    (h : s.stepIssueToken env request token call = some s') : Trans s s' := by
  have hissue : ∀ userId row,
      (if s.tokens.entries.any fun e => e.2.token == env.hashToken token then none
        else if (s.users.get userId).isSome then some (s.addToken row) else some s) = some s' →
      Trans s s' := by
    intro userId row h
    split_ifs at h
    · obtain rfl := Option.some.inj h
      exact .world (world_addToken s _)
    · obtain rfl := Option.some.inj h
      exact .world (World.refl s)
  unfold stepIssueToken at h
  split at h
  · exact hissue _ _ h
  · exact hissue _ _ h
  · cases h

theorem trans_issueAnonymous {token : String} (h : s.stepIssueAnonymous token call = some s') :
    Trans s s' := by
  unfold stepIssueAnonymous at h
  split at h
  · obtain rfl := Option.some.inj h
    exact .world (World.of_caches s _ _ _)
  · cases h

end Operations

theorem trans_of_step {a : CredentialAction} (hs : s.Consistent) (hb : s.Backed a)
    (h : step env s a = some s') : Trans s s' := by
  cases a with
  | tick microseconds =>
    obtain rfl := Option.some.inj h
    exact .world (world_tick s microseconds)
  | start r op =>
    simp only [step] at h
    split_ifs at h with hr
    obtain rfl := Option.some.inj h
    exact .start (Option.not_isSome_iff_eq_none.mp hr)
  | processHeaders r ok =>
    exact .of_call h fun _ => trans_processHeaders
  | verifyLogin r found ok =>
    exact .of_call h fun _ => trans_verifyLogin hs
  | resolveUser r userId ok =>
    exact .of_call h fun _ => trans_resolveUser
  | createSession r id ok =>
    exact .of_call h fun _ => trans_createSession
  | lookupAnonymous r =>
    exact .of_call h fun _ => trans_lookupAnonymous
  | lookupCache r =>
    exact .of_call h fun _ => trans_lookupCache hs hb
  | invalidate r =>
    exact .of_call h fun _ => trans_invalidate
  | getByToken r ok =>
    exact .of_call h fun _ => trans_getByToken hs
  | getById r ok =>
    exact .of_call h fun _ => trans_getById hs hb
  | insertCache r =>
    exact .of_call h fun _ => trans_insertCache hs
  | count r ok =>
    exact .of_call h fun _ => trans_count
  | getToken r ok =>
    exact .of_call h fun _ => trans_getToken
  | change r ok =>
    exact .of_call h fun _ => trans_change
  | listSessions r ok =>
    exact .of_call h fun _ => trans_listSessions
  | removeSessions r ok =>
    exact .of_call h fun _ => trans_removeSessions
  | issueToken r request token =>
    exact .of_call h fun _ _ => trans_issueToken
  | issueAnonymous r token =>
    exact .of_call h fun _ _ => trans_issueAnonymous
  | insertUser row =>
    obtain rfl := Option.some.inj h
    exact .world (world_addUser s row)
  | updateUser id row =>
    obtain rfl := Option.some.inj h
    exact .world (world_setUser s id row)
  | dropSession id =>
    obtain rfl := Option.some.inj h
    exact .world (World.of_caches s _ _ _)
  | deleteExpired =>
    obtain rfl := Option.some.inj h
    exact .world (world_removeExpired s)
  | evict token =>
    obtain rfl := Option.some.inj h
    exact .world (World.of_caches s _ _ _)

/-! ### Runs -/

theorem World.stageOk {t : CredentialSystem} {call : Call} {stage : Stage} (h : World s t)
    (hstart : call.startedAt ≤ s.completed) (hstage : s.StageOk call stage) :
    t.StageOk call stage := by
  have huser : ∀ userId, s.UserValid call userId → t.UserValid call userId := by
    intro userId hvalid n hn
    rcases h.disabledUsers userId n hn with hold | rfl
    · exact hvalid n hold
    · omega
  have htoken : ∀ id row, s.TokenValid call id row → t.TokenValid call id row := by
    rintro id row ⟨hvalid, hexpired⟩
    refine ⟨fun n hn => ?_, hexpired⟩
    rcases h.disabledTokens id n hn with hold | rfl
    · exact hvalid n hold
    · omega
  cases stage with
  | tokenRead token id row => exact htoken id row hstage
  | caching token id row => exact ⟨huser _ hstage.1, htoken id row hstage.2⟩
  | authenticated userId token =>
    exact ⟨huser userId hstage.1, fun e he => htoken e.1 e.2 (hstage.2 e he)⟩
  | _ => trivial

theorem World.consistent {t : CredentialSystem} (h : World s t) (hs : s.Consistent) :
    t.Consistent where
  tables := h.tables hs.tables
  startedAt_le := by
    intro r call hr
    rw [h.calls] at hr
    exact Nat.le_trans (hs.startedAt_le r call hr) h.completed
  startTime_le := by
    intro r call hr
    rw [h.calls] at hr
    exact Int.le_trans (hs.startTime_le r call hr) h.now
  stage := by
    intro r call hr
    rw [h.calls] at hr
    exact h.stageOk (hs.startedAt_le r call hr) (hs.stage r call hr)

theorem Consistent.put {r : Nat} {call : Call} (hs : s.Consistent)
    (hstart : call.startedAt ≤ s.completed) (htime : call.startTime ≤ s.now)
    (hstage : s.StageOk call call.stage) :
    ({ s with calls := s.calls.put r call } : CredentialSystem).Consistent := by
  have hcases : ∀ r' call', (s.calls.put r call).get r' = some call' →
      call' = call ∨ s.calls.get r' = some call' := by
    intro r' call' hr
    rw [Store.get_put] at hr
    split_ifs at hr
    · exact .inl (Option.some.inj hr).symm
    · exact .inr hr
  have htables : ({ s with calls := s.calls.put r call } : CredentialSystem).Tables :=
    ⟨hs.tables.users_lt, hs.tables.tokens_lt, hs.tables.disabledUsers_lt,
      hs.tables.disabledTokens_lt, hs.tables.inactive, hs.tables.removed⟩
  refine ⟨htables, fun r' call' hr => ?_, fun r' call' hr => ?_, fun r' call' hr => ?_⟩
  · rcases hcases r' call' hr with rfl | hold
    · exact hstart
    · exact hs.startedAt_le r' call' hold
  · rcases hcases r' call' hr with rfl | hold
    · exact htime
    · exact hs.startTime_le r' call' hold
  · -- The stages do not depend on the calls.
    have hsame : ∀ c stage, s.StageOk c stage →
        ({ s with calls := s.calls.put r call } : CredentialSystem).StageOk c stage := by
      intro c stage h
      cases stage <;> exact h
    rcases hcases r' call' hr with rfl | hold
    · exact hsame _ _ hstage
    · exact hsame _ _ (hs.stage r' call' hold)

theorem Trans.consistent (h : Trans s s') (hs : s.Consistent) : s'.Consistent := by
  cases h with
  | world hw => exact hw.consistent hs
  | start hr => exact hs.put (Nat.le_refl _) (Int.le_refl _) trivial
  | @move r call stage t hr hw hstage =>
    have hstart := hs.startedAt_le r call hr
    have htime := hs.startTime_le r call hr
    refine (hw.consistent hs).put (Nat.le_trans hstart hw.completed) (Int.le_trans htime hw.now) ?_
    have hok := hw.stageOk hstart hstage
    cases stage <;> exact hok

theorem Consistent.stayOut (hs : s.Consistent) : s.WithdrawnStayOut := by
  intro r call userId token hr hstage
  have hok := hs.stage r call hr
  rw [hstage] at hok
  exact hok

/-- A server with no operation in flight, on which nothing has been withdrawn yet. -/
structure IsInitial (s : CredentialSystem) : Prop where
  users_lt : ∀ id row, s.users.get id = some row → id < s.nextUserId
  tokens_lt : ∀ id row, s.tokens.get id = some row → id < s.nextTokenId
  calls : s.calls = ∅
  disabledUsers : s.disabledUsers = ∅
  disabledTokens : s.disabledTokens = ∅

theorem IsInitial.consistent (h : s.IsInitial) : s.Consistent := by
  have hcalls : ∀ r call, s.calls.get r ≠ some call := by
    intro r call hr
    rw [h.calls, Store.get_empty] at hr
    cases hr
  have husers : ∀ id n, s.disabledUsers.get id ≠ some n := by
    intro id n hn
    rw [h.disabledUsers, Store.get_empty] at hn
    cases hn
  have htokens : ∀ id n, s.disabledTokens.get id ≠ some n := by
    intro id n hn
    rw [h.disabledTokens, Store.get_empty] at hn
    cases hn
  refine ⟨⟨h.users_lt, h.tokens_lt, fun id n hn => ?_, fun id n hn => ?_, fun id n _ hn => ?_,
    fun id n hn => ?_⟩, fun r call hr => ?_, fun r call hr => ?_, fun r call hr => ?_⟩
  · exact absurd hn (husers id n)
  · exact absurd hn (htokens id n)
  · exact absurd hn (husers id n)
  · exact absurd hn (htokens id n)
  · exact absurd hr (hcalls r call)
  · exact absurd hr (hcalls r call)
  · exact absurd hr (hcalls r call)

/-- **Main theorem.**  In every run whose steps are backed, no request is authenticated as a user or
with a token whose access had been withdrawn when it started. -/
theorem withdrawnStayOut {s₀ : CredentialSystem} {as : List CredentialAction} (h₀ : s₀.IsInitial)
    (hsteps : StepsOk (step env) Backed s₀ as) (hr : run (step env) s₀ as = some s) :
    s.WithdrawnStayOut :=
  (run_invariant_of_stepsOk (fun _ _ _ hs hb h => (trans_of_step hs hb h).consistent hs)
    h₀.consistent hsteps hr).stayOut

/-! ### Two runs -/

/-- Names are compared as they are, and a hash is the text itself. -/
def plainEnvironment : Environment where
  collate := (· == ·)
  hashToken := id
  verifyHash password hash := if password == hash then .ok else .unauthorized

def oneToken : CredentialSystem where
  now := 0
  users := ((∅ : Store Int UserRow).put 1 ⟨"admin", none, none, true, true⟩).put 2
    ⟨"dev", none, none, true, false⟩
  nextUserId := 3
  tokens := (∅ : Store Int TokenRow).put 1 ⟨2, "t0ken", true, none⟩
  nextTokenId := 2
  sessions := ∅
  authTokenCache := ∅
  anonymousDockerTokens := ∅
  calls := ∅
  completed := 0
  disabledUsers := ∅
  disabledTokens := ∅

theorem isInitial_oneToken : oneToken.IsInitial where
  users_lt := by
    intro id row hrow
    have hmem := Store.mem_keys_iff.mpr ⟨row, hrow⟩
    have hall : (oneToken.users.keys.all fun id => decide (id < oneToken.nextUserId)) = true := by
      decide
    exact of_decide_eq_true (List.all_eq_true.mp hall id hmem)
  tokens_lt := by
    intro id row hrow
    have hmem := Store.mem_keys_iff.mpr ⟨row, hrow⟩
    have hall : (oneToken.tokens.keys.all fun id => decide (id < oneToken.nextTokenId)) = true := by
      decide
    exact of_decide_eq_true (List.all_eq_true.mp hall id hmem)
  calls := rfl
  disabledUsers := rfl
  disabledTokens := rfl

def deactivation : List CredentialAction :=
  [.start 0 (.updateUserStatus ⟨1, true, false, false, []⟩ 2 false), .getById 0 true,
    .change 0 true, .listSessions 0 true]

def tokenRequest (r : Nat) (route : Route) : List CredentialAction :=
  [.start r (.request route ⟨some (.bearer "t0ken"), none, none⟩), .processHeaders r true] ++
    (if route = .repository then [.lookupAnonymous r, .lookupCache r] else []) ++
    [.getByToken r true, .getById r true]

/-- The API turns the token away after the deactivation. -/
theorem withdrawnStayOut_apiToken :
    ∃ s, run (step plainEnvironment) oneToken (deactivation ++ tokenRequest 1 .api) = some s ∧
      s.WithdrawnStayOut := by
  have hsome : (run (step plainEnvironment) oneToken
      (deactivation ++ tokenRequest 1 .api)).isSome = true := by decide
  obtain ⟨s, hs⟩ := Option.isSome_iff_exists.mp hsome
  exact ⟨s, hs, withdrawnStayOut isInitial_oneToken (by decide) hs⟩

/-- A repository takes it. -/
theorem not_withdrawnStayOut_repositoryToken :
    ¬ ∀ (env : Environment) (s₀ s : CredentialSystem) (as : List CredentialAction),
      s₀.IsInitial → run (step env) s₀ as = some s → s.WithdrawnStayOut := by
  intro hall
  have hlate : (run (step plainEnvironment) oneToken
      (deactivation ++ tokenRequest 1 .repository ++ [.insertCache 1])).map (fun s =>
        (s.disabledUsers.get 2, s.calls.get 1 |>.map fun call => (call.startedAt, call.stage))) =
      some (some 1, some (1, .authenticated 2 (some (1, ⟨2, "t0ken", true, none⟩)))) := by
    decide
  obtain ⟨s, hs, heq⟩ := Option.map_eq_some_iff.mp hlate
  obtain ⟨hdisabled, hcall⟩ := Prod.mk.inj heq
  obtain ⟨call, hr, heq⟩ := Option.map_eq_some_iff.mp hcall
  obtain ⟨hstart, hstage⟩ := Prod.mk.inj heq
  obtain ⟨hvalid, -⟩ := hall plainEnvironment oneToken s _ isInitial_oneToken hs 1 call 2 _ hr hstage
  have hlt := hvalid 1 hdisabled
  omega

end CredentialSystem

end Pkgly.Credentials
