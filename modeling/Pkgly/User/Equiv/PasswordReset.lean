import Pkgly.User.PasswordReset

/-!
# Password resets: which runs use every token once

`Trans` lists what a statement can do.  From it follow the invariants of all runs (`Consistent`):
every password written is in the table of tokens as well, as a used token or as a call that has yet
to mark its token, or has failed to.  A write is `Unspent` if neither the table nor the calls in
flight show a write for this token or a later one of the same user.

`worksOnce_iff`: in a run from an empty table every token works once, in time, for its own user and
not after a later token has worked, iff every write of the run was unspent.
-/

namespace Pkgly.PasswordReset

/-! ### What is asked of the runs -/

/-- The token of a call that has read it. -/
def Stage.request : Stage → Option UserPasswordReset
  | .valid row | .loaded row _ | .changed row | .unmarked row => some row
  | _ => none

/-- The token of a call that has written a password and not marked the token. -/
def Stage.spent : Stage → Option UserPasswordReset
  | .changed row | .unmarked row => some row
  | _ => none

/-- The token of a call that is about to write a password. -/
def Stage.loaded? : Stage → Option UserPasswordReset
  | .loaded row _ => some row
  | _ => none

theorem Stage.loaded?_eq_some {stage : Stage} {row : UserPasswordReset} :
    stage.loaded? = some row ↔ ∃ encrypted, stage = .loaded row encrypted := by
  cases stage <;> simp [loaded?]

theorem Stage.request_of_spent {stage : Stage} {row : UserPasswordReset}
    (h : stage.spent = some row) : stage.request = some row := by
  cases stage <;> first | exact h | cases h

/-- The password of a user after the writes `changes`. -/
def passwordAfter (initial : Option String) (changes : List PasswordChange) (userId : Int) :
    Option String :=
  changes.foldl (fun password c => if c.userId = userId then some c.password else password) initial

namespace ResetSystem

variable {s : ResetSystem}

def password (s : ResetSystem) (userId : Int) : Option String :=
  (s.users.get userId).bind User.password

/-- Every token changes the password at most once, by a call that started in time, and of its own
user; a token never works after a later one of the same user. -/
structure WorksOnce (s₀ s : ResetSystem) : Prop where
  once : (s.changes.map PasswordChange.resetId).Nodup
  inTime : ∀ c ∈ s.changes, ∃ row, s.tokens.get c.resetId = some row ∧ c.startedAt < row.expiresAt
  issuedFor : ∀ c ∈ s.changes, ∃ row, s.tokens.get c.resetId = some row ∧ row.userId = c.userId
  passwords : ∀ userId, s.password userId =
    passwordAfter (s₀.password userId) s.changes userId
  latest : s.changes.Pairwise fun c c' => c.userId = c'.userId → c.resetId ≤ c'.resetId

/-- Neither the table nor the calls in flight show a password written with the token `row` or a
later one of the same user. -/
structure Clear (s : ResetSystem) (row : UserPasswordReset) : Prop where
  unused : ∀ id row', s.tokens.get id = some row' → row'.userId = row.userId → row.id ≤ id →
    row'.state ≠ .used
  unspent : ∀ r call row', s.calls.get r = some call → call.stage.spent = some row' →
    row'.userId = row.userId → row'.id < row.id

/-- The condition on a step: a password is written only with a token that is `Clear`. -/
def Unspent (s : ResetSystem) : ResetAction → Prop
  | .update r true => ∀ call row encrypted, s.calls.get r = some call →
      call.stage = .loaded row encrypted → s.Clear row
  | _ => True

instance (row : UserPasswordReset) : Decidable (s.Clear row) :=
  decidable_of_iff
    ((∀ e ∈ s.tokens.entries, e.2.userId = row.userId → row.id ≤ e.1 → e.2.state ≠ .used) ∧
      ∀ e ∈ s.calls.entries, ∀ row' ∈ e.2.stage.spent, row'.userId = row.userId →
        row'.id < row.id)
    ⟨fun h => ⟨fun _ _ hget => h.1 _ (Store.get_eq_some_iff.mp hget),
        fun _ _ row' hget hspent => h.2 _ (Store.get_eq_some_iff.mp hget) row' hspent⟩,
      fun h => ⟨fun e he => h.unused e.1 e.2 (Store.get_eq_some_iff.mpr he),
        fun e he row' hspent =>
          h.unspent e.1 e.2 row' (Store.get_eq_some_iff.mpr he) hspent⟩⟩

instance : ∀ a, Decidable (s.Unspent a)
  | .update r true => decidable_of_iff
      (∀ call ∈ s.calls.get r, ∀ row ∈ call.stage.loaded?, s.Clear row)
      ⟨fun h call row encrypted hr hstage => h call hr row (by rw [hstage]; rfl),
        fun h call hr row hrow => by
          obtain ⟨encrypted, hstage⟩ := Stage.loaded?_eq_some.mp hrow
          exact h call row encrypted hr hstage⟩
  | .update r false | .tick _ | .request _ _ | .getByEmail _ _ | .drawToken _ _ _ | .insert _ _
  | .change _ _ | .validate _ _ | .load _ _ _ | .setUsed _ _ => isTrue trivial

structure Initial (s : ResetSystem) : Prop where
  tokens : s.tokens = ∅
  calls : s.calls = ∅
  changes : s.changes = []

/-! ### What a statement can do -/

/-- The statements that have an effect, with what they require. -/
inductive Trans (s : ResetSystem) : ResetAction → ResetSystem → Prop
  | tick {seconds : Nat} : Trans s (.tick seconds) { s with now := s.now + seconds }
  | start {a r op} (hr : s.calls.get r = none) : Trans s a (s.set r ⟨op, s.now, .begun⟩ .begun)
  | stay {a} : Trans s a s
  | move {a r call stage} (hr : s.calls.get r = some call) (hspent : call.stage.spent = none)
      (hstage : stage.request = none) : Trans s a (s.set r call stage)
  | insert {a r call userId token} (hr : s.calls.get r = some call)
      (hstage : call.stage = .drawn userId token) :
      Trans s a ((s.insertToken userId token).finish r call .ok)
  | validate {a r call token row} (hr : s.calls.get r = some call) (hstage : call.stage = .begun)
      (hvalid : s.getIfValid token = some row) : Trans s a (s.set r call (.valid row))
  | load {a r call row encrypted user} (hr : s.calls.get r = some call)
      (hstage : call.stage = .valid row) (huser : s.users.get row.userId = some user) :
      Trans s a (s.set r call (.loaded row encrypted))
  | update {r call row encrypted} (hr : s.calls.get r = some call)
      (hstage : call.stage = .loaded row encrypted) :
      Trans s (.update r true) (((s.updatePassword row.userId encrypted).record
        ⟨row.id, call.startedAt, row.userId, encrypted⟩).set r call (.changed row))
  | unmark {a r call row} (hr : s.calls.get r = some call) (hstage : call.stage = .changed row) :
      Trans s a (s.set r call (.unmarked row))
  | setUsed {a r call row} (hr : s.calls.get r = some call) (hstage : call.stage = .changed row) :
      Trans s a ((s.markUsed row.id).finish r call .noContent)

variable {s₀ s' : ResetSystem} {a : ResetAction}

theorem Trans.of_some {r : Nat} {call : ResetCall} {stage : Stage} (hr : s.calls.get r = some call)
    (h : some (s.set r call stage) = some s') (hspent : call.stage.spent = none)
    (hstage : stage.request = none) : Trans s a s' := by
  obtain rfl := Option.some.inj h
  exact .move hr hspent hstage

theorem trans_of_step (h : step s a = some s') : Trans s a s' := by
  cases a with
  | tick seconds =>
    obtain rfl := Option.some.inj h
    exact .tick
  | request r email | change r token =>
    simp only [step, start] at h
    split_ifs at h with hr
    obtain rfl := Option.some.inj h
    exact .start (by simpa using hr)
  | getByEmail r ok =>
    obtain ⟨call, hr, h⟩ := Option.bind_eq_some_iff.mp h
    unfold stepGetByEmail at h
    split at h
    · rename_i hstage
      have hspent : call.stage.spent = none := by rw [hstage]; rfl
      split_ifs at h with hok
      · exact .of_some hr h hspent rfl
      · split at h
        · exact .of_some hr h hspent rfl
        · exact .of_some hr h hspent rfl
    · cases h
  | drawToken r token ok =>
    obtain ⟨call, hr, h⟩ := Option.bind_eq_some_iff.mp h
    unfold stepDrawToken at h
    split at h
    · rename_i hstage
      have hspent : call.stage.spent = none := by rw [hstage]; rfl
      split_ifs at h
      · exact .of_some hr h hspent rfl
      · obtain rfl := Option.some.inj h
        exact .stay
      · exact .of_some hr h hspent rfl
    · cases h
  | insert r ok =>
    obtain ⟨call, hr, h⟩ := Option.bind_eq_some_iff.mp h
    unfold stepInsert at h
    split at h
    · rename_i hstage
      split_ifs at h
      · exact .of_some hr h (by rw [hstage]; rfl) rfl
      · obtain rfl := Option.some.inj h
        exact .insert hr hstage
    · cases h
  | validate r ok =>
    obtain ⟨call, hr, h⟩ := Option.bind_eq_some_iff.mp h
    unfold stepValidate at h
    split at h
    · rename_i hstage
      have hspent : call.stage.spent = none := by rw [hstage]; rfl
      split_ifs at h
      · exact .of_some hr h hspent rfl
      · split at h
        · exact .of_some hr h hspent rfl
        · rename_i hvalid
          obtain rfl := Option.some.inj h
          exact .validate hr hstage hvalid
    · cases h
  | load r encrypted ok =>
    obtain ⟨call, hr, h⟩ := Option.bind_eq_some_iff.mp h
    unfold stepLoad at h
    split at h
    · rename_i hstage
      have hspent : call.stage.spent = none := by rw [hstage]; rfl
      split at h
      · exact .of_some hr h hspent rfl
      · split_ifs at h
        · exact .of_some hr h hspent rfl
        · split at h
          · exact .of_some hr h hspent rfl
          · rename_i huser
            obtain rfl := Option.some.inj h
            exact .load hr hstage huser
    · cases h
  | update r ok =>
    obtain ⟨call, hr, h⟩ := Option.bind_eq_some_iff.mp h
    unfold stepUpdate at h
    split at h
    · rename_i hstage
      split_ifs at h with hok
      · exact .of_some hr h (by rw [hstage]; rfl) rfl
      · obtain rfl := Option.some.inj h
        obtain rfl : ok = true := by simpa using hok
        exact .update hr hstage
    · cases h
  | setUsed r ok =>
    obtain ⟨call, hr, h⟩ := Option.bind_eq_some_iff.mp h
    unfold stepSetUsed at h
    split at h
    · rename_i hstage
      split_ifs at h
      · obtain rfl := Option.some.inj h
        exact .unmark hr hstage
      · obtain rfl := Option.some.inj h
        exact .setUsed hr hstage
    · cases h

/-! ### The tables after a statement -/

theorem calls_set (s : ResetSystem) (r r' : Nat) (call : ResetCall) (stage : Stage) :
    (s.set r call stage).calls.get r' =
      if r' = r then some { call with stage } else s.calls.get r' :=
  Store.get_put _ _ _ _

@[simp] theorem tokens_updatePassword (userId : Int) (encrypted : String) :
    (s.updatePassword userId encrypted).tokens = s.tokens := by
  unfold updatePassword
  split <;> rfl

@[simp] theorem calls_updatePassword (userId : Int) (encrypted : String) :
    (s.updatePassword userId encrypted).calls = s.calls := by
  unfold updatePassword
  split <;> rfl

@[simp] theorem changes_updatePassword (userId : Int) (encrypted : String) :
    (s.updatePassword userId encrypted).changes = s.changes := by
  unfold updatePassword
  split <;> rfl

@[simp] theorem nextId_updatePassword (userId : Int) (encrypted : String) :
    (s.updatePassword userId encrypted).nextId = s.nextId := by
  unfold updatePassword
  split <;> rfl

@[simp] theorem now_updatePassword (userId : Int) (encrypted : String) :
    (s.updatePassword userId encrypted).now = s.now := by
  unfold updatePassword
  split <;> rfl

@[simp] theorem users_markUsed (id : Nat) : (s.markUsed id).users = s.users := by
  unfold markUsed
  split <;> rfl

@[simp] theorem calls_markUsed (id : Nat) : (s.markUsed id).calls = s.calls := by
  unfold markUsed
  split <;> rfl

@[simp] theorem changes_markUsed (id : Nat) : (s.markUsed id).changes = s.changes := by
  unfold markUsed
  split <;> rfl

@[simp] theorem nextId_markUsed (id : Nat) : (s.markUsed id).nextId = s.nextId := by
  unfold markUsed
  split <;> rfl

@[simp] theorem now_markUsed (id : Nat) : (s.markUsed id).now = s.now := by
  unfold markUsed
  split <;> rfl

theorem tokens_markUsed (id id' : Nat) : (s.markUsed id).tokens.get id' =
    if id' = id then (s.tokens.get id).map fun row =>
      { row with state := .used, stateChangedAt := some s.now }
    else s.tokens.get id' := by
  grind [markUsed, Store.get_put]

theorem password_updatePassword {userId : Int} {user : User}
    (huser : s.users.get userId = some user) (encrypted : String) (userId' : Int) :
    (s.updatePassword userId encrypted).password userId' =
      if userId' = userId then some encrypted else s.password userId' := by
  unfold password updatePassword
  rw [huser]
  simp only [Store.get_put]
  split_ifs with h <;> rfl

theorem users_updatePassword {userId userId' : Int} {encrypted : String}
    (h : (s.users.get userId').isSome = true) :
    ((s.updatePassword userId encrypted).users.get userId').isSome = true := by
  grind [updatePassword, Store.get_put]

/-- The table has a row for the token `row`. -/
def Issued (s : ResetSystem) (row : UserPasswordReset) : Prop :=
  ∃ row', s.tokens.get row.id = some row' ∧ row'.userId = row.userId ∧
    row'.expiresAt = row.expiresAt

/-- The write `c` shows in the table or in a call. -/
def Shown (s : ResetSystem) (c : PasswordChange) : Prop :=
  (∃ row, s.tokens.get c.resetId = some row ∧ row.state = .used) ∨
  ∃ r call row, s.calls.get r = some call ∧ call.stage.spent = some row ∧ row.id = c.resetId

/-- The write `c` was for its own user, by a call that started in time. -/
def Rightful (s : ResetSystem) (c : PasswordChange) : Prop :=
  ∃ row, s.tokens.get c.resetId = some row ∧ row.userId = c.userId ∧ c.startedAt < row.expiresAt

/-- Tables, calls and the list of writes fit together. -/
structure Consistent (s₀ s : ResetSystem) : Prop where
  ids : ∀ id row, s.tokens.get id = some row → row.id = id ∧ id < s.nextId
  started : ∀ r call, s.calls.get r = some call → call.startedAt ≤ s.now
  held : ∀ r call row, s.calls.get r = some call → call.stage.request = some row →
    s.Issued row ∧ call.startedAt < row.expiresAt
  loaded : ∀ r call row encrypted, s.calls.get r = some call →
    call.stage = .loaded row encrypted → (s.users.get row.userId).isSome = true
  rightful : ∀ c ∈ s.changes, s.Rightful c
  shown : ∀ c ∈ s.changes, s.Shown c
  used : ∀ id row, s.tokens.get id = some row → row.state = .used →
    ∃ c ∈ s.changes, c.resetId = id ∧ c.userId = row.userId
  spent : ∀ r call row, s.calls.get r = some call → call.stage.spent = some row →
    ∃ c ∈ s.changes, c.resetId = row.id ∧ c.userId = row.userId
  passwords : ∀ userId, s.password userId = passwordAfter (s₀.password userId) s.changes userId

theorem Trans.tokens (hs : Consistent s₀ s) (h : Trans s a s') {id : Nat}
    {row : UserPasswordReset} (hrow : s.tokens.get id = some row) :
    ∃ row', s'.tokens.get id = some row' ∧ row'.userId = row.userId ∧
      row'.expiresAt = row.expiresAt ∧ (row.state = .used → row'.state = .used) := by
  cases h with
  | insert hr hstage =>
    refine ⟨row, ?_, rfl, rfl, fun h => h⟩
    show (s.tokens.put s.nextId _).get id = some row
    rw [Store.get_put_of_ne _ _ (hs.ids id row hrow).2.ne]
    exact hrow
  | update hr hstage =>
    refine ⟨row, ?_, rfl, rfl, fun h => h⟩
    show (s.updatePassword _ _).tokens.get id = some row
    rw [tokens_updatePassword]
    exact hrow
  | setUsed hr hstage =>
    rename_i r call row₀
    have hget := tokens_markUsed (s := s) row₀.id id
    split_ifs at hget with hid
    · subst hid
      rw [hrow] at hget
      exact ⟨_, hget, rfl, rfl, fun _ => rfl⟩
    · exact ⟨row, hget.trans hrow, rfl, rfl, fun h => h⟩
  | _ => exact ⟨row, hrow, rfl, rfl, fun h => h⟩

theorem Trans.row (h : Trans s a s') {id : Nat} {row' : UserPasswordReset}
    (hrow : s'.tokens.get id = some row') :
    (∃ row, s.tokens.get id = some row ∧ row.id = row'.id ∧ row.userId = row'.userId ∧
      (row'.state = .used → row.state = .used ∨ ∃ r call row₀, s.calls.get r = some call ∧
        call.stage = .changed row₀ ∧ row₀.id = id)) ∨
    (id = s.nextId ∧ s'.nextId = s.nextId + 1 ∧ row'.id = id ∧ row'.state = .requested) := by
  cases h with
  | insert hr hstage =>
    rename_i r call userId token
    have hrow : (s.tokens.put s.nextId (s.newToken userId token)).get id = some row' := hrow
    rw [Store.get_put] at hrow
    split_ifs at hrow with hid
    · obtain rfl := Option.some.inj hrow
      exact Or.inr ⟨hid, rfl, hid.symm, rfl⟩
    · exact Or.inl ⟨row', hrow, rfl, rfl, Or.inl⟩
  | update hr hstage =>
    have hrow : (s.updatePassword _ _).tokens.get id = some row' := hrow
    rw [tokens_updatePassword] at hrow
    exact Or.inl ⟨row', hrow, rfl, rfl, Or.inl⟩
  | setUsed hr hstage =>
    rename_i r call row₀
    have hrow : (s.markUsed row₀.id).tokens.get id = some row' := hrow
    rw [tokens_markUsed] at hrow
    split_ifs at hrow with hid
    · obtain ⟨row, hget, rfl⟩ := Option.map_eq_some_iff.mp hrow
      grind
    · exact Or.inl ⟨row', hrow, rfl, rfl, Or.inl⟩
  | _ => exact Or.inl ⟨row', hrow, rfl, rfl, Or.inl⟩

theorem Trans.nextId_le (h : Trans s a s') : s.nextId ≤ s'.nextId := by
  cases h with
  | insert hr hstage => exact Nat.le_succ _
  | update hr hstage => exact (nextId_updatePassword _ _).ge
  | setUsed hr hstage => exact (nextId_markUsed _).ge
  | _ => exact le_rfl

theorem Trans.now_le (h : Trans s a s') : s.now ≤ s'.now := by
  cases h with
  | tick => exact Int.le_add_of_nonneg_right (Int.natCast_nonneg _)
  | update hr hstage => exact (now_updatePassword _ _).ge
  | setUsed hr hstage => exact (now_markUsed _).ge
  | _ => exact le_rfl

theorem Trans.call (h : Trans s a s') {r' : Nat} {call' : ResetCall}
    (hr' : s'.calls.get r' = some call') :
    s.calls.get r' = some call' ∨
    (call'.startedAt = s.now ∧ call'.stage = .begun) ∨
    ∃ call, s.calls.get r' = some call ∧ call.startedAt = call'.startedAt ∧
      ((call.stage.spent = none ∧ call'.stage.request = none) ∨
      (∃ token row, s.getIfValid token = some row ∧ call'.stage = .valid row) ∨
      (∃ row encrypted user, call.stage = .valid row ∧ s.users.get row.userId = some user ∧
        call'.stage = .loaded row encrypted) ∨
      (∃ row encrypted, call.stage = .loaded row encrypted ∧ call'.stage = .changed row ∧
        s'.changes = s.changes ++ [⟨row.id, call.startedAt, row.userId, encrypted⟩]) ∨
      (∃ row, call.stage = .changed row ∧ call'.stage = .unmarked row) ∨
      ∃ row, call.stage = .changed row ∧ call'.stage = .finished .noContent ∧
        s'.tokens = (s.markUsed row.id).tokens) := by
  cases h with
  | tick | stay => exact Or.inl hr'
  | start hr | move hr hspent hstage =>
    rw [calls_set] at hr'
    grind
  | insert hr hstage =>
    rw [finish, calls_set] at hr'
    split_ifs at hr' with heq
    · subst heq
      obtain rfl := Option.some.inj hr'
      exact Or.inr (Or.inr ⟨_, hr, rfl, Or.inl ⟨by rw [hstage]; rfl, rfl⟩⟩)
    · exact Or.inl hr'
  | validate hr hstage hvalid | load hr hstage huser =>
    rw [calls_set] at hr'
    grind
  | update hr hstage =>
    rw [calls_set] at hr'
    split_ifs at hr' with heq
    · subst heq
      obtain rfl := Option.some.inj hr'
      refine Or.inr (Or.inr ⟨_, hr, rfl,
        Or.inr (Or.inr (Or.inr (Or.inl ⟨_, _, hstage, rfl, ?_⟩)))⟩)
      exact congrArg (· ++ _) (changes_updatePassword _ _)
    · exact Or.inl ((congrArg (Store.get · r') (calls_updatePassword _ _)).symm.trans hr')
  | unmark hr hstage =>
    rw [calls_set] at hr'
    grind
  | setUsed hr hstage =>
    rw [finish, calls_set] at hr'
    split_ifs at hr' with heq
    · subst heq
      obtain rfl := Option.some.inj hr'
      aesop
    · rw [calls_markUsed] at hr'
      exact Or.inl hr'

theorem Trans.changes (h : Trans s a s') :
    (s'.changes = s.changes ∧ s'.users = s.users) ∨
    ∃ r call row encrypted, a = .update r true ∧ s.calls.get r = some call ∧
      call.stage = .loaded row encrypted ∧
      s' = ((s.updatePassword row.userId encrypted).record
        ⟨row.id, call.startedAt, row.userId, encrypted⟩).set r call (.changed row) := by
  cases h with
  | update hr hstage => exact Or.inr ⟨_, _, _, _, rfl, hr, hstage, rfl⟩
  | setUsed hr hstage => exact Or.inl ⟨changes_markUsed _, users_markUsed _⟩
  | _ => exact Or.inl ⟨rfl, rfl⟩

theorem getIfValid_eq_some {token : String} {row : UserPasswordReset}
    (h : s.getIfValid token = some row) :
    ∃ id, s.tokens.get id = some row ∧ row.state = .requested ∧ s.now < row.expiresAt := by
  obtain ⟨e, he, rfl⟩ := Option.map_eq_some_iff.mp h
  have hmem := List.mem_of_find?_eq_some he
  have hprop := List.find?_some he
  simp only [decide_eq_true_eq] at hprop
  exact ⟨e.1, Store.get_eq_some_iff.mpr hmem, hprop.2.1, hprop.2.2⟩

theorem Trans.spent (hs : Consistent s₀ s) (h : Trans s a s') {r' : Nat} {call : ResetCall}
    {row : UserPasswordReset} (hr' : s.calls.get r' = some call)
    (hrow : call.stage.spent = some row) :
    (∃ call', s'.calls.get r' = some call' ∧ call'.stage.spent = some row) ∨
    ∃ row', s'.tokens.get row.id = some row' ∧ row'.state = .used := by
  have hother : ∀ (t : ResetSystem) (r : Nat) (call₀ : ResetCall) (stage : Stage),
      t.calls = s.calls → s.calls.get r = some call₀ → call₀.stage.spent = none →
        ∃ call', (t.set r call₀ stage).calls.get r' = some call' ∧
          call'.stage.spent = some row := by
    intro t r call₀ stage ht hr hspent
    have hne : r' ≠ r := by grind
    exact ⟨call, by rw [calls_set, if_neg hne, ht]; exact hr', hrow⟩
  cases h with
  | tick | stay => exact Or.inl ⟨call, hr', hrow⟩
  | start hr =>
    rename_i r op
    have hne : r' ≠ r := by
      rintro rfl
      rw [hr] at hr'
      cases hr'
    exact Or.inl ⟨call, by rw [calls_set, if_neg hne]; exact hr', hrow⟩
  | move hr hspent hstage => exact Or.inl (hother _ _ _ _ rfl hr hspent)
  | insert hr hstage | validate hr hstage _ | load hr hstage _ =>
    exact Or.inl (hother _ _ _ _ rfl hr (by rw [hstage]; rfl))
  | update hr hstage =>
    exact Or.inl (hother _ _ _ _ (calls_updatePassword _ _) hr (by rw [hstage]; rfl))
  | unmark hr hstage =>
    rename_i r call₀ row₀
    by_cases heq : r' = r
    · subst heq
      obtain rfl := Option.some.inj (hr'.symm.trans hr)
      rw [hstage] at hrow
      exact Or.inl ⟨_, Store.get_put_self _ _ _, hrow⟩
    · exact Or.inl ⟨call, by rw [calls_set, if_neg heq]; exact hr', hrow⟩
  | setUsed hr hstage =>
    rename_i r call₀ row₀
    by_cases heq : r' = r
    · subst heq
      obtain rfl := Option.some.inj (hr'.symm.trans hr)
      obtain ⟨⟨row', hget, -⟩, -⟩ := hs.held r' _ row hr' (Stage.request_of_spent hrow)
      rw [hstage] at hrow
      obtain rfl := Option.some.inj hrow
      refine Or.inr ⟨{ row' with state := .used, stateChangedAt := some s.now }, ?_, rfl⟩
      show (s.markUsed row₀.id).tokens.get row₀.id = _
      rw [tokens_markUsed, if_pos rfl, hget]
      rfl
    · refine Or.inl ⟨call, ?_, hrow⟩
      rw [finish, calls_set, if_neg heq, calls_markUsed]
      exact hr'

theorem Trans.mem_changes (h : Trans s a s') {c : PasswordChange} (hc : c ∈ s.changes) :
    c ∈ s'.changes := by
  rcases h.changes with ⟨heq, -⟩ | ⟨r, call, row, encrypted, -, -, -, rfl⟩
  · rwa [heq]
  · refine List.mem_append_left _ ?_
    rwa [changes_updatePassword]

theorem Trans.users (h : Trans s a s') {userId : Int}
    (hu : (s.users.get userId).isSome = true) : (s'.users.get userId).isSome = true := by
  rcases h.changes with ⟨-, heq⟩ | ⟨r, call, row, encrypted, -, -, -, rfl⟩
  · rwa [heq]
  · exact users_updatePassword hu

theorem Issued.mono (hs : Consistent s₀ s) (h : Trans s a s') {row : UserPasswordReset}
    (hrow : s.Issued row) : s'.Issued row := by
  obtain ⟨row', hget, huser, hexpires⟩ := hrow
  obtain ⟨row'', hget', huser', hexpires', -⟩ := h.tokens hs hget
  exact ⟨row'', hget', huser'.trans huser, hexpires'.trans hexpires⟩

theorem Rightful.mono (hs : Consistent s₀ s) (h : Trans s a s') {c : PasswordChange}
    (hc : s.Rightful c) : s'.Rightful c := by
  obtain ⟨row, hget, huser, htime⟩ := hc
  obtain ⟨row', hget', huser', hexpires', -⟩ := h.tokens hs hget
  exact ⟨row', hget', huser'.trans huser, hexpires' ▸ htime⟩

theorem Shown.mono (hs : Consistent s₀ s) (h : Trans s a s') {c : PasswordChange}
    (hc : s.Shown c) : s'.Shown c := by
  rcases hc with ⟨row, hget, hused⟩ | ⟨r, call, row, hr, hspent, hid⟩
  · obtain ⟨row', hget', -, -, hused'⟩ := h.tokens hs hget
    exact Or.inl ⟨row', hget', hused' hused⟩
  · rcases h.spent hs hr hspent with ⟨call', hr', hspent'⟩ | ⟨row', hget', hused'⟩
    · exact Or.inr ⟨r, call', row, hr', hspent', hid⟩
    · exact Or.inl ⟨row', hid ▸ hget', hused'⟩

theorem passwordAfter_append (initial : Option String) (changes : List PasswordChange)
    (c : PasswordChange) (userId : Int) : passwordAfter initial (changes ++ [c]) userId =
      if c.userId = userId then some c.password else passwordAfter initial changes userId := by
  rw [passwordAfter, List.foldl_append]
  rfl

theorem held_of_trans (hs : Consistent s₀ s) (h : Trans s a s') {r : Nat} {call' : ResetCall}
    {row : UserPasswordReset} (hr : s'.calls.get r = some call')
    (hrow : call'.stage.request = some row) :
    s'.Issued row ∧ call'.startedAt < row.expiresAt := by
  have hkeep : ∀ call, s.calls.get r = some call → call.startedAt = call'.startedAt →
      call.stage.request = some row → s'.Issued row ∧ call'.startedAt < row.expiresAt := by
    intro call hcall hstarted hreq
    obtain ⟨hissued, htime⟩ := hs.held r call row hcall hreq
    exact ⟨hissued.mono hs h, hstarted ▸ htime⟩
  rcases h.call hr with hsame | ⟨-, hbegun⟩ | ⟨call, hcall, hstarted, hstage⟩
  · exact hkeep call' hsame rfl hrow
  · rw [hbegun] at hrow
    cases hrow
  · rcases hstage with ⟨-, hnone⟩ | ⟨token, row', hvalid, hstage⟩ |
      ⟨row', encrypted, user, hstage, -, hstage'⟩ | ⟨row', encrypted, hstage, hstage', -⟩ |
      ⟨row', hstage, hstage'⟩ | ⟨row', -, hstage', -⟩
    · rw [hnone] at hrow
      cases hrow
    · rw [hstage] at hrow
      obtain rfl := Option.some.inj hrow
      obtain ⟨id, hget, -, hexpires⟩ := getIfValid_eq_some hvalid
      have hid := (hs.ids id _ hget).1
      have hle := hs.started r call hcall
      exact ⟨Issued.mono hs h ⟨_, hid ▸ hget, rfl, rfl⟩, by omega⟩
    all_goals
      rw [hstage'] at hrow
    · exact hkeep call hcall hstarted (by rw [hstage]; exact hrow)
    · exact hkeep call hcall hstarted (by rw [hstage]; exact hrow)
    · exact hkeep call hcall hstarted (by rw [hstage]; exact hrow)
    · cases hrow

theorem consistent_of_trans (hs : Consistent s₀ s) (h : Trans s a s') : Consistent s₀ s' where
  ids id row' hrow := by
    rcases h.row hrow with ⟨row, hget, hid, -, -⟩ | ⟨rfl, hnext, hid, -⟩
    · exact ⟨hid ▸ (hs.ids id row hget).1, (hs.ids id row hget).2.trans_le h.nextId_le⟩
    · exact ⟨hid, hnext ▸ Nat.lt_succ_self _⟩
  started r call' hr := by
    rcases h.call hr with hsame | ⟨hnow, -⟩ | ⟨call, hcall, hstarted, -⟩
    · exact (hs.started r call' hsame).trans h.now_le
    · exact hnow ▸ h.now_le
    · exact hstarted ▸ (hs.started r call hcall).trans h.now_le
  held r call' row hr hrow := held_of_trans hs h hr hrow
  loaded r call' row encrypted hr hstage := by
    rcases h.call hr with hsame | ⟨-, hbegun⟩ | ⟨call, hcall, -, hstage'⟩
    · exact h.users (hs.loaded r call' row encrypted hsame hstage)
    · rw [hbegun] at hstage
      cases hstage
    · rcases hstage' with ⟨-, hnone⟩ | ⟨_, _, _, hnew⟩ | ⟨_, _, user, _, huser, hnew⟩ |
        ⟨_, _, _, hnew, _⟩ | ⟨_, _, hnew⟩ | ⟨_, _, hnew, _⟩
      · rw [hstage] at hnone
        cases hnone
      all_goals
        rw [hstage] at hnew
        cases hnew
      exact h.users (by rw [huser]; rfl)
  rightful c hc := by
    rcases h.changes with ⟨heq, -⟩ | ⟨r, call, row, encrypted, ha, hr, hstage, hs'⟩
    · exact (hs.rightful c (heq ▸ hc)).mono hs h
    · have hmem : c ∈ s.changes ++ [⟨row.id, call.startedAt, row.userId, encrypted⟩] := by
        rw [hs'] at hc
        rw [← changes_updatePassword (s := s) row.userId encrypted]
        exact hc
      rcases List.mem_append.mp hmem with hold | hnew
      · exact (hs.rightful c hold).mono hs h
      · obtain rfl := List.mem_singleton.mp hnew
        obtain ⟨⟨row', hget, huser, hexpires⟩, htime⟩ :=
          hs.held r call row hr (by rw [hstage]; rfl)
        exact Rightful.mono hs h ⟨row', hget, huser, hexpires ▸ htime⟩
  shown c hc := by
    rcases h.changes with ⟨heq, -⟩ | ⟨r, call, row, encrypted, ha, hr, hstage, hs'⟩
    · exact (hs.shown c (heq ▸ hc)).mono hs h
    · have hmem : c ∈ s.changes ++ [⟨row.id, call.startedAt, row.userId, encrypted⟩] := by
        rw [hs'] at hc
        rw [← changes_updatePassword (s := s) row.userId encrypted]
        exact hc
      rcases List.mem_append.mp hmem with hold | hnew
      · exact (hs.shown c hold).mono hs h
      · obtain rfl := List.mem_singleton.mp hnew
        rw [hs']
        exact Or.inr ⟨r, _, row, Store.get_put_self _ _ _, rfl, rfl⟩
  used id row' hrow hused := by
    rcases h.row hrow with ⟨row, hget, -, huser, hbefore⟩ | ⟨-, -, -, hstate⟩
    · rcases hbefore hused with hold | ⟨r, call, row₀, hr, hstage, rfl⟩
      · obtain ⟨c, hc, hid, huser'⟩ := hs.used id row hget hold
        exact ⟨c, h.mem_changes hc, hid, huser'.trans huser⟩
      · obtain ⟨c, hc, hid, huser'⟩ := hs.spent r call row₀ hr (by rw [hstage]; rfl)
        obtain ⟨⟨row'', hget', huser'', -⟩, -⟩ := hs.held r call row₀ hr (by rw [hstage]; rfl)
        obtain rfl := Option.some.inj (hget.symm.trans hget')
        exact ⟨c, h.mem_changes hc, hid, huser'.trans (huser''.symm.trans huser)⟩
    · rw [hstate] at hused
      cases hused
  spent r call' row hr hrow := by
    rcases h.call hr with hsame | ⟨-, hbegun⟩ | ⟨call, hcall, -, hstage⟩
    · obtain ⟨c, hc, hid⟩ := hs.spent r call' row hsame hrow
      exact ⟨c, h.mem_changes hc, hid⟩
    · rw [hbegun] at hrow
      cases hrow
    · rcases hstage with ⟨-, hnone⟩ | ⟨_, _, _, hnew⟩ | ⟨_, _, _, _, _, hnew⟩ |
        ⟨row', encrypted, hold, hnew, hchanges⟩ | ⟨row', hold, hnew⟩ | ⟨_, _, hnew, _⟩
      · rw [Stage.request_of_spent hrow] at hnone
        cases hnone
      all_goals
        rw [hnew] at hrow
      · cases hrow
      · cases hrow
      · obtain rfl := Option.some.inj hrow
        simp_all
      · obtain rfl := Option.some.inj hrow
        obtain ⟨c, hc, hid⟩ := hs.spent r call row' hcall (by rw [hold]; rfl)
        exact ⟨c, h.mem_changes hc, hid⟩
      · cases hrow
  passwords userId := by
    rcases h.changes with ⟨heq, husers⟩ | ⟨r, call, row, encrypted, -, hr, hstage, rfl⟩
    · rw [password, husers, heq]
      exact hs.passwords userId
    · obtain ⟨user, huser⟩ := Option.isSome_iff_exists.mp (hs.loaded r call row encrypted hr hstage)
      have hpassword := password_updatePassword huser encrypted userId
      show (s.updatePassword row.userId encrypted).password userId = passwordAfter _
        ((s.updatePassword row.userId encrypted).changes ++ [_]) userId
      rw [hpassword, changes_updatePassword, passwordAfter_append, hs.passwords userId]
      simp only [eq_comm]

theorem consistent_of_run {as : List ResetAction} (hs : Consistent s₀ s)
    (hr : run step s as = some s') : Consistent s₀ s' :=
  run_invariant (fun _ _ _ h ht => consistent_of_trans h (trans_of_step ht)) hs hr

theorem Initial.consistent (h : Initial s₀) : Consistent s₀ s₀ where
  ids id row hrow := by simp [h.tokens] at hrow
  started r call hr := by simp [h.calls] at hr
  held r call row hr := by simp [h.calls] at hr
  loaded r call row encrypted hr := by simp [h.calls] at hr
  rightful c hc := by simp [h.changes] at hc
  shown c hc := by simp [h.changes] at hc
  used id row hrow := by simp [h.tokens] at hrow
  spent r call row hr := by simp [h.calls] at hr
  passwords userId := by rw [h.changes]; rfl

/-! ### Unspent tokens -/

/-- A token is `Clear` if neither it nor a later one of its user has written a password. -/
theorem clear_iff (hs : Consistent s₀ s) {row : UserPasswordReset} :
    s.Clear row ↔ ∀ c ∈ s.changes, c.userId = row.userId → c.resetId < row.id := by
  constructor
  · intro hclear c hc huser
    obtain ⟨row', hget, huser', -⟩ := hs.rightful c hc
    rcases hs.shown c hc with ⟨row'', hget', hused⟩ | ⟨r', call', row'', hr', hspent, hid⟩
    · obtain rfl := Option.some.inj (hget.symm.trans hget')
      exact Nat.lt_of_not_le fun hle =>
        hclear.unused _ _ hget (huser'.trans huser) hle hused
    · obtain ⟨⟨row₀, hget', huser'', -⟩, -⟩ :=
        hs.held r' call' row'' hr' (Stage.request_of_spent hspent)
      rw [hid] at hget'
      obtain rfl := Option.some.inj (hget.symm.trans hget')
      rw [← hid]
      exact hclear.unspent r' call' row'' hr' hspent
        (huser''.symm.trans (huser'.trans huser))
  · intro hall
    constructor
    · intro id row' hget huser hle hused
      obtain ⟨c, hc, rfl, huser'⟩ := hs.used id row' hget hused
      exact absurd (hall c hc (huser'.trans huser)) (Nat.not_lt.mpr hle)
    · intro r' call' row' hr' hspent huser
      obtain ⟨c, hc, hid, huser'⟩ := hs.spent r' call' row' hr' hspent
      exact hid ▸ hall c hc (huser'.trans huser)

def InOrder (s : ResetSystem) : Prop :=
  s.changes.Pairwise fun c c' => c.userId = c'.userId → c.resetId < c'.resetId

theorem pairwise_append_singleton {α : Type*} {R : α → α → Prop} {l : List α} {a : α} :
    (l ++ [a]).Pairwise R ↔ l.Pairwise R ∧ ∀ b ∈ l, R b a := by
  rw [List.pairwise_append]
  simp

theorem inOrder_iff (hs : Consistent s₀ s) (h : step s a = some s') :
    s'.InOrder ↔ s.InOrder ∧ s.Unspent a := by
  rcases (trans_of_step h).changes with ⟨heq, -⟩ | ⟨r, call, row, encrypted, rfl, hr, hstage, hs'⟩
  · have hunspent : s.Unspent a := by
      cases a with
      | update r ok =>
        cases ok with
        | false => trivial
        | true =>
          intro call row encrypted hr hstage
          simp only [step, onCall, hr, Option.bind_some, stepUpdate, hstage, Bool.not_true,
            Bool.false_eq_true, if_false, Option.some.injEq] at h
          rw [← h] at heq
          have hlen := congrArg List.length heq
          simp [record, set] at hlen
      | _ => trivial
    rw [InOrder, heq]
    exact (and_iff_left hunspent).symm
  · have hunspent : s.Unspent (.update r true) ↔ s.Clear row := by
      constructor
      · exact fun hu => hu call row encrypted hr hstage
      · intro hclear call' row' encrypted' hr' hstage'
        grind
    have hchanges : s'.changes =
        s.changes ++ [⟨row.id, call.startedAt, row.userId, encrypted⟩] := by
      rw [hs']
      exact congrArg (· ++ _) (changes_updatePassword _ _)
    rw [hunspent, clear_iff hs, InOrder, hchanges, pairwise_append_singleton]
    exact Iff.rfl

theorem worksOnce_iff_inOrder (hs : Consistent s₀ s) : WorksOnce s₀ s ↔ s.InOrder := by
  constructor
  · rintro ⟨honce, -, -, -, hlatest⟩
    refine hlatest.imp₂ (fun c c' hle hne huser => ?_) (List.pairwise_map.mp honce)
    exact Nat.lt_of_le_of_ne (hle huser) hne
  · intro horder
    constructor
    · refine List.pairwise_map.mpr (List.Pairwise.imp_of_mem ?_ horder)
      intro c c' hc hc' hlt heq
      obtain ⟨row, hget, huser, -⟩ := hs.rightful c hc
      obtain ⟨row', hget', huser', -⟩ := hs.rightful c' hc'
      grind
    · intro c hc
      obtain ⟨row, hget, -, htime⟩ := hs.rightful c hc
      exact ⟨row, hget, htime⟩
    · intro c hc
      obtain ⟨row, hget, huser, -⟩ := hs.rightful c hc
      exact ⟨row, hget, huser⟩
    · exact hs.passwords
    · exact horder.imp fun hlt huser => (hlt huser).le

/-- **Main theorem.**  In every run from an empty table of tokens, every token works at most once,
in time, for its own user and not after a later one, iff every password of the run is written with
a token that is `Clear`. -/
theorem worksOnce_iff {as : List ResetAction} (h₀ : Initial s₀) (hr : run step s₀ as = some s) :
    WorksOnce s₀ s ↔ StepsOk step Unspent s₀ as := by
  have hstart : s₀.InOrder := by rw [InOrder, h₀.changes]; exact List.Pairwise.nil
  rw [worksOnce_iff_inOrder (consistent_of_run h₀.consistent hr),
    stepsOk_iff_of_run (fun _ _ _ h ht => consistent_of_trans h (trans_of_step ht))
      (fun _ _ _ h ht => inOrder_iff h ht) h₀.consistent hr]
  exact and_iff_right hstart

/-! ### Two runs -/

def oneUser : ResetSystem where
  now := 0
  users := (∅ : Store Int User).put 7 ⟨7, some "u@x.org", none, none, true⟩
  tokens := ∅
  nextId := 0
  calls := ∅
  changes := []

theorem initial_oneUser : Initial oneUser := ⟨rfl, rfl, rfl⟩

/-- A token `t` is issued, and two calls read it. -/
def issueAndRead : List ResetAction :=
  [.request 0 "u@x.org", .getByEmail 0 true, .drawToken 0 "t" true, .insert 0 true,
    .change 1 "t", .change 2 "t", .validate 1 true]

def serialUse : List ResetAction := issueAndRead ++
  [.load 1 (some "a") true, .update 1 true, .setUsed 1 true, .validate 2 true]

/-- The second call reads the token before the first has marked it. -/
def parallelUse : List ResetAction := issueAndRead ++
  [.validate 2 true, .load 1 (some "a") true, .update 1 true, .setUsed 1 true,
    .load 2 (some "b") true, .update 2 true]

/-- When the second call comes after the first, it finds no valid token. -/
theorem worksOnce_serialUse : ∃ s, run step oneUser serialUse = some s ∧ WorksOnce oneUser s := by
  have hsome : (run step oneUser serialUse).isSome = true := by decide
  obtain ⟨s, hs⟩ := Option.isSome_iff_exists.mp hsome
  exact ⟨s, hs, (worksOnce_iff initial_oneUser hs).mpr (by decide)⟩

/-- Passwords are written with tokens of their users, by calls that started in time; a token is
marked only when it has been used so. -/
structure Rightly (s₀ s : ResetSystem) : Prop where
  issued : ∀ c ∈ s.changes, s.Rightful c
  used : ∀ id row, s.tokens.get id = some row → row.state = .used →
    ∃ c ∈ s.changes, c.resetId = id ∧ c.userId = row.userId
  passwords : ∀ userId, s.password userId = passwordAfter (s₀.password userId) s.changes userId

/-- **Every run**, also one that uses a token twice, changes passwords rightly. -/
theorem rightly_of_run {as : List ResetAction} (h₀ : Initial s₀) (hr : run step s₀ as = some s) :
    Rightly s₀ s := by
  have h := consistent_of_run h₀.consistent hr
  exact ⟨h.rightful, h.used, h.passwords⟩

theorem rightly_parallelUse : ∃ s, run step oneUser parallelUse = some s ∧ Rightly oneUser s := by
  obtain ⟨s, hs⟩ := Option.isSome_iff_exists.mp
    (by decide : (run step oneUser parallelUse).isSome = true)
  exact ⟨s, hs, rightly_of_run initial_oneUser hs⟩

/-- Two calls that read a token together both change the password. -/
theorem not_worksOnce_parallelUse : ¬ ∀ (s₀ s : ResetSystem) (as : List ResetAction),
    Initial s₀ → run step s₀ as = some s → WorksOnce s₀ s := by
  intro hall
  have hids : (run step oneUser parallelUse).map (fun s =>
      s.changes.map PasswordChange.resetId) = some [0, 0] := by
    decide
  obtain ⟨s, hs, htwice⟩ := Option.map_eq_some_iff.mp hids
  have honce := (hall oneUser s _ initial_oneUser hs).once
  rw [htwice] at honce
  exact absurd honce (by decide)

end ResetSystem

end Pkgly.PasswordReset
