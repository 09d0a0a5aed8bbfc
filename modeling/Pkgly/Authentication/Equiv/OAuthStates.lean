import Pkgly.Authentication.OAuthStates

/-!
# The states of OAuth2 logins: which runs use every state once

`Trans` lists what a step can do.  From it follow the invariants of the runs whose steps are all
`Unused` (`Consistent`): once a code has been exchanged for a state, the table has no row for it, or
a callback that has exchanged it is still there (`Exchanged`); and the memory has lost it, or an
`authorize` has stored the row (`Persisted`).

`singleUse_of_unused`: in such a run from an empty table every state is exchanged at most once, with
its own provider and verifier and in time.
-/

namespace Pkgly.OAuth

/-! ### What is asked of the runs -/

/-- The stages of `authorize`. -/
def Stage.authorizing : Stage → Bool
  | .remembered | .exported _ | .pruned _ | .persisted => true
  | _ => false

/-- The stages between the start of an exchange and the deletion of the row. -/
def Stage.exchanged : Stage → Bool
  | .exchanging _ | .deleting true _ | .left _ => true
  | _ => false

def Stage.row : Stage → Option PersistedOAuthState
  | .loaded row => some row
  | _ => none

/-- The copy of the state that `authorize` is about to store. -/
def Stage.snapshot : Stage → Option OAuthStateExport
  | .exported snapshot | .pruned snapshot => some snapshot
  | _ => none

theorem Stage.authorizing_of_snapshot {stage : Stage} {snapshot : OAuthStateExport}
    (h : stage.snapshot = some snapshot) : stage.authorizing = true := by
  cases stage <;> first | rfl | cases h

namespace OAuthSystem

variable {s : OAuthSystem}

/-- A callback for `state` has exchanged a code, and the row is not yet deleted by it. -/
def Exchanged (s : OAuthSystem) (state : String) : Prop :=
  ∃ r call, s.calls.get r = some call ∧ call.op.state = state ∧ call.stage.exchanged = true

/-- An `authorize` has stored the row of `state`. -/
def Persisted (s : OAuthSystem) (state : String) : Prop :=
  ∃ r call, s.calls.get r = some call ∧ call.op.state = state ∧ call.stage = .persisted

instance (state : String) : Decidable (s.Exchanged state) :=
  decidable_of_iff
    (∃ e ∈ s.calls.entries, e.2.op.state = state ∧ e.2.stage.exchanged = true)
    ⟨fun ⟨e, he, h⟩ => ⟨e.1, e.2, Store.get_eq_some_iff.mpr he, h⟩,
      fun ⟨r, call, hr, h⟩ => ⟨⟨r, call⟩, Store.get_eq_some_iff.mp hr, h⟩⟩

instance (state : String) : Decidable (s.Persisted state) :=
  decidable_of_iff
    (∃ e ∈ s.calls.entries, e.2.op.state = state ∧ e.2.stage = .persisted)
    ⟨fun ⟨e, he, h⟩ => ⟨e.1, e.2, Store.get_eq_some_iff.mpr he, h⟩,
      fun ⟨r, call, hr, h⟩ => ⟨⟨r, call⟩, Store.get_eq_some_iff.mp hr, h⟩⟩

/-- The exchange `e` uses what was stored with its state, and starts in time. -/
def Rightful (s : OAuthSystem) (e : Exchange) : Prop :=
  ∃ value, s.created.get e.state = some value ∧ e.provider = value.provider ∧
    e.pkceVerifier = value.pkceVerifier ∧ e.startedAt < value.createdAt + stateTtl

/-- Every state is exchanged at most once, with its own provider and verifier, less than 300 seconds
after it was created. -/
structure SingleUse (s : OAuthSystem) : Prop where
  once : (s.exchanges.map Exchange.state).Nodup
  rightful : ∀ e ∈ s.exchanges, s.Rightful e

def StoresUnused (s : OAuthSystem) (call : OAuthCall) : Prop :=
  (s.memory.get (call.replica, call.op.state)).isSome = true

/-- The state is taken from memory only while its row, if it was ever stored, is there, and no
callback that has exchanged it has left that row behind. -/
def TakesUnused (s : OAuthSystem) (call : OAuthCall) : Prop :=
  ∀ value ∈ s.memory.get (call.replica, call.op.state), s.now < value.createdAt + stateTtl →
    ¬ s.Exchanged call.op.state ∧
      ((s.rows.get call.op.state).isSome = true ∨ ¬ s.Persisted call.op.state)

/-- The row is used only while it is still there, no callback that has exchanged the state has left
it behind, and the state is younger than 300 seconds. -/
def RestoresUnused (s : OAuthSystem) (call : OAuthCall) : Prop :=
  ∀ row ∈ call.stage.row, row.isExpired s.now = false →
    ¬ s.Exchanged call.op.state ∧ (s.rows.get call.op.state).isSome = true ∧
      ∀ value ∈ s.created.get call.op.state, s.now < value.createdAt + stateTtl

instance (call : OAuthCall) : Decidable (s.StoresUnused call) :=
  inferInstanceAs (Decidable (_ = _))

instance (call : OAuthCall) : Decidable (s.TakesUnused call) :=
  inferInstanceAs (Decidable (∀ value ∈ s.memory.get (call.replica, call.op.state), _ → _))

instance (call : OAuthCall) : Decidable (s.RestoresUnused call) :=
  inferInstanceAs (Decidable (∀ row ∈ call.stage.row, _ → _))

def Unused (s : OAuthSystem) : OAuthAction → Prop
  | .persist r true => ∀ call ∈ s.calls.get r, s.StoresUnused call
  | .take r true => ∀ call ∈ s.calls.get r, s.TakesUnused call
  | .restore r true => ∀ call ∈ s.calls.get r, s.RestoresUnused call
  | _ => True

instance : ∀ a, Decidable (s.Unused a)
  | .persist r true => inferInstanceAs (Decidable (∀ call ∈ s.calls.get r, s.StoresUnused call))
  | .take r true => inferInstanceAs (Decidable (∀ call ∈ s.calls.get r, s.TakesUnused call))
  | .restore r true => inferInstanceAs (Decidable (∀ call ∈ s.calls.get r, s.RestoresUnused call))
  | .persist _ false | .take _ false | .restore _ false | .tick _ | .restart _
  | .authorize _ _ _ _ _ _ | .exportState _ | .prune _ _ | .callback _ _ _ | .load _ _
  | .exchanged _ _ | .delete _ _ => isTrue trivial

structure Initial (s : OAuthSystem) : Prop where
  memory : s.memory = ∅
  rows : s.rows = ∅
  calls : s.calls = ∅
  exchanges : s.exchanges = []

/-! ### What a step can do -/

def Kept (memory memory' : Store (Nat × String) OAuthStateValue) : Prop :=
  ∀ k value, memory'.get k = some value → memory.get k = some value

theorem Kept.refl (memory : Store (Nat × String) OAuthStateValue) : Kept memory memory :=
  fun _ _ h => h

theorem Kept.removeIf (memory : Store (Nat × String) OAuthStateValue) (p : Nat × String → Bool) :
    Kept memory (memory.removeIf p) := by
  intro k value h
  rw [Store.get_removeIf] at h
  split_ifs at h
  exact h

inductive Trans (s : OAuthSystem) : OAuthAction → OAuthSystem → Prop
  | tick {microseconds : Nat} : Trans s (.tick microseconds) { s with now := s.now + microseconds }
  | lose {a memory} (hmem : Kept s.memory memory) : Trans s a { s with memory }
  | authorize {a r replica state value memory} (hr : s.calls.get r = none)
      (hnew : s.created.get state = none) (hmem : Kept s.memory memory) :
      Trans s a ({ s with
        memory := memory.put (replica, state) value
        created := s.created.put state value }.set r
          ⟨.authorize state, replica, .remembered⟩ .remembered)
  | callback {a r replica state} (hr : s.calls.get r = none) :
      Trans s a (s.set r ⟨.callback state, replica, .begun⟩ .begun)
  | move {a r call stage memory} (hmem : Kept s.memory memory) (hr : s.calls.get r = some call)
      (hold : call.stage.exchanged = true → stage.exchanged = true)
      (hstored : call.stage ≠ .persisted) (hrow : stage.row = none)
      (hstage : stage.authorizing = false) :
      Trans s a ({ s with memory }.set r call stage)
  | exported {a r call value memory} (hmem : Kept s.memory memory) (hr : s.calls.get r = some call)
      (hstage : call.stage = .remembered)
      (hvalue : s.memory.get (call.replica, call.op.state) = some value) :
      Trans s a ({ s with memory }.set r call (.exported value.toExport))
  | prune {a r call snapshot} (hr : s.calls.get r = some call)
      (hstage : call.stage = .exported snapshot) :
      Trans s a (s.pruneRows.set r call (.pruned snapshot))
  | persist {r call snapshot} (hr : s.calls.get r = some call)
      (hstage : call.stage = .pruned snapshot) :
      Trans s (.persist r true) ((s.persistRow call.op.state snapshot).set r call .persisted)
  | take {r call value memory} (hmem : Kept s.memory memory) (hr : s.calls.get r = some call)
      (hstage : call.stage = .begun)
      (hvalue : s.memory.get (call.replica, call.op.state) = some value)
      (htime : s.now < value.createdAt + stateTtl)
      (hgone : memory.get (call.replica, call.op.state) = none) :
      Trans s (.take r true) ({ s with memory }.startExchange r call value.toExport false)
  | load {a r call row} (hr : s.calls.get r = some call) (hstage : call.stage = .missed)
      (hrow : s.rows.get call.op.state = some row) : Trans s a (s.set r call (.loaded row))
  | restore {r call row value} (hr : s.calls.get r = some call) (hstage : call.stage = .loaded row)
      (htime : row.isExpired s.now = false) (hvalue : row.intoExport = some value) :
      Trans s (.restore r true) (s.startExchange r call value true)
  | delete {a r call exchanged result} (hr : s.calls.get r = some call)
      (hstage : call.stage = .deleting exchanged result) :
      Trans s a ((s.deleteRow call.op.state).set r call (.finished result))

variable {s' : OAuthSystem} {a : OAuthAction}

theorem purgeExpired_get {replica : Nat} {state : String} {value : OAuthStateValue}
    (h : (s.purgeExpired replica).memory.get (replica, state) = some value) :
    s.memory.get (replica, state) = some value ∧ s.now < value.createdAt + stateTtl := by
  grind [purgeExpired, Store.get_removeIf]

theorem trans_of_step (h : step s a = some s') : Trans s a s' := by
  cases a with
  | tick microseconds =>
    obtain rfl := Option.some.inj h
    exact .tick
  | restart replica =>
    obtain rfl := Option.some.inj h
    exact .lose (.removeIf _ _)
  | authorize r replica state provider pkceVerifier redirect =>
    simp only [step, stepAuthorize] at h
    split_ifs at h with hnone
    obtain rfl := Option.some.inj h
    simp only [not_or, Option.not_isSome_iff_eq_none] at hnone
    exact .authorize hnone.1 hnone.2 (.removeIf _ _)
  | callback r replica state =>
    simp only [step, stepCallback] at h
    split_ifs at h with hnone
    obtain rfl := Option.some.inj h
    exact .callback (by simpa using hnone)
  | exportState r =>
    obtain ⟨call, hr, h⟩ := Option.bind_eq_some_iff.mp h
    unfold stepExport at h
    dsimp only at h
    split at h
    · rename_i hstage
      split at h
      · obtain rfl := Option.some.inj h
        exact .move (.removeIf _ _) hr (by rw [hstage]; exact Bool.noConfusion)
          (by rw [hstage]; exact Stage.noConfusion) rfl rfl
      · rename_i value hvalue
        obtain rfl := Option.some.inj h
        exact .exported (.removeIf _ _) hr hstage (purgeExpired_get hvalue).1
    · cases h
  | prune r ok =>
    obtain ⟨call, hr, h⟩ := Option.bind_eq_some_iff.mp h
    unfold stepPrune at h
    split at h
    · rename_i hstage
      split_ifs at h
      · obtain rfl := Option.some.inj h
        exact .prune hr hstage
      · obtain rfl := Option.some.inj h
        exact .move (.refl _) hr (by rw [hstage]; exact Bool.noConfusion)
          (by rw [hstage]; exact Stage.noConfusion) rfl rfl
    · cases h
  | persist r ok =>
    obtain ⟨call, hr, h⟩ := Option.bind_eq_some_iff.mp h
    unfold stepPersist at h
    split at h
    · rename_i hstage
      split_ifs at h with hok
      · obtain rfl := Option.some.inj h
        obtain rfl := hok
        exact .persist hr hstage
      · obtain rfl := Option.some.inj h
        exact .move (.refl _) hr (by rw [hstage]; exact Bool.noConfusion)
          (by rw [hstage]; exact Stage.noConfusion) rfl rfl
    · cases h
  | take r configured =>
    obtain ⟨call, hr, h⟩ := Option.bind_eq_some_iff.mp h
    unfold stepTake at h
    dsimp only at h
    split at h
    · rename_i hstage
      have hold : call.stage.exchanged = true → False := by rw [hstage]; exact Bool.noConfusion
      have hstored : call.stage ≠ .persisted := by rw [hstage]; exact Stage.noConfusion
      split at h
      · obtain rfl := Option.some.inj h
        exact .move (.removeIf _ _) hr (fun h => (hold h).elim) hstored rfl rfl
      · rename_i value hvalue
        obtain ⟨hget, htime⟩ := purgeExpired_get hvalue
        have hmem : Kept s.memory
            ((s.purgeExpired call.replica).forget call.replica call.op.state).memory := by
          intro k value' hk
          have hk : ((s.purgeExpired call.replica).memory.remove _).get k = some value' := hk
          rw [Store.get_remove] at hk
          split_ifs at hk
          exact Kept.removeIf _ _ k value' hk
        split_ifs at h with hconfigured
        · obtain rfl := Option.some.inj h
          obtain rfl := hconfigured
          exact .take hmem hr hstage hget htime (Store.get_remove_self _ _)
        · obtain rfl := Option.some.inj h
          exact .move hmem hr (fun h => (hold h).elim) hstored rfl rfl
    · cases h
  | load r ok =>
    obtain ⟨call, hr, h⟩ := Option.bind_eq_some_iff.mp h
    unfold stepLoad at h
    split at h
    · rename_i hstage
      have hold : call.stage.exchanged = true → False := by rw [hstage]; exact Bool.noConfusion
      have hstored : call.stage ≠ .persisted := by rw [hstage]; exact Stage.noConfusion
      split_ifs at h
      · obtain rfl := Option.some.inj h
        exact .move (.refl _) hr (fun h => (hold h).elim) hstored rfl rfl
      · split at h
        · obtain rfl := Option.some.inj h
          exact .move (.refl _) hr (fun h => (hold h).elim) hstored rfl rfl
        · rename_i row hrow
          obtain rfl := Option.some.inj h
          exact .load hr hstage hrow
    · cases h
  | restore r configured =>
    obtain ⟨call, hr, h⟩ := Option.bind_eq_some_iff.mp h
    unfold stepRestore at h
    split at h
    · rename_i row hstage
      have hold : call.stage.exchanged = true → False := by rw [hstage]; exact Bool.noConfusion
      have hstored : call.stage ≠ .persisted := by rw [hstage]; exact Stage.noConfusion
      split at h
      · obtain rfl := Option.some.inj h
        exact .move (.refl _) hr (fun h => (hold h).elim) hstored rfl rfl
      · rename_i hexpired
        split at h
        · obtain rfl := Option.some.inj h
          exact .move (.refl _) hr (fun h => (hold h).elim) hstored rfl rfl
        · rename_i value hvalue
          split_ifs at h with hconfigured
          · obtain rfl := Option.some.inj h
            obtain rfl := hconfigured
            exact .restore hr hstage (by simpa using hexpired) hvalue
          · obtain rfl := Option.some.inj h
            exact .move (.refl _) hr (fun h => (hold h).elim) hstored rfl rfl
    · cases h
  | exchanged r ok =>
    obtain ⟨call, hr, h⟩ := Option.bind_eq_some_iff.mp h
    unfold stepExchanged at h
    split at h
    · rename_i hstage
      have hstored : call.stage ≠ .persisted := by rw [hstage]; exact Stage.noConfusion
      split_ifs at h
      · obtain rfl := Option.some.inj h
        exact .move (.refl _) hr (fun _ => rfl) hstored rfl rfl
      · obtain rfl := Option.some.inj h
        exact .move (.refl _) hr (fun _ => rfl) hstored rfl rfl
      · obtain rfl := Option.some.inj h
        exact .move (.refl _) hr (fun _ => rfl) hstored rfl rfl
    · cases h
  | delete r ok =>
    obtain ⟨call, hr, h⟩ := Option.bind_eq_some_iff.mp h
    unfold stepDelete at h
    split at h
    · rename_i exchanged result hstage
      have hstored : call.stage ≠ .persisted := by rw [hstage]; exact Stage.noConfusion
      split_ifs at h with hok hexchanged
      · obtain rfl := Option.some.inj h
        exact .delete hr hstage
      · obtain rfl := Option.some.inj h
        exact .move (.refl _) hr (fun _ => rfl) hstored rfl rfl
      · obtain rfl := Option.some.inj h
        refine .move (.refl _) hr (fun h => ?_) hstored rfl rfl
        rw [hstage, Bool.eq_false_iff.mpr hexchanged] at h
        cases h
    · cases h

/-! ### Calls, memory and table after a step -/

theorem calls_set (s : OAuthSystem) (r r' : Nat) (call : OAuthCall) (stage : Stage) :
    (s.set r call stage).calls.get r' =
      if r' = r then some { call with stage } else s.calls.get r' :=
  Store.get_put _ _ _ _

/-- What a call is doing after a step: its stage is an `Ordinary` one, or it has copied something
from the memory or the table. -/
inductive Moved (s : OAuthSystem) (call : OAuthCall) : Stage → Prop
  | ordinary {stage} (hrow : stage.row = none) (hstage : stage.authorizing = false) :
      Moved s call stage
  | exported {value} (hstage : call.stage = .remembered)
      (hvalue : s.memory.get (call.replica, call.op.state) = some value) :
      Moved s call (.exported value.toExport)
  | pruned {snapshot} (hstage : call.stage = .exported snapshot) : Moved s call (.pruned snapshot)
  | persisted {snapshot} (hstage : call.stage = .pruned snapshot) : Moved s call .persisted
  | loaded {row} (hrow : s.rows.get call.op.state = some row) : Moved s call (.loaded row)

theorem Moved.authorizing {call : OAuthCall} {stage : Stage} (h : s.Moved call stage)
    (hstage : stage.authorizing = true) : call.stage.authorizing = true := by
  cases h with
  | ordinary hrow hfalse =>
    rw [hfalse] at hstage
    cases hstage
  | exported hold _ | pruned hold | persisted hold => rw [hold]; rfl
  | loaded _ => cases hstage

inductive From (s s' : OAuthSystem) (r : Nat) (call' : OAuthCall) : Prop
  | same (hr : s.calls.get r = some call')
  | authorize {state} (hr : s.calls.get r = none) (hnew : s.created.get state = none)
      (hcreated : (s'.created.get state).isSome = true) (hop : call'.op = .authorize state)
      (hstage : call'.stage = .remembered)
  | callback {state} (hr : s.calls.get r = none) (hop : call'.op = .callback state)
      (hstage : call'.stage = .begun)
  | moved {call} (hr : s.calls.get r = some call) (hop : call'.op = call.op)
      (hmoved : s.Moved call call'.stage)

theorem from_of_moved {t : OAuthSystem} {r r' : Nat} {call call' : OAuthCall} {stage : Stage}
    (ht : t.calls = s.calls) (hr : s.calls.get r = some call) (hmoved : s.Moved call stage)
    (hr' : (t.set r call stage).calls.get r' = some call') : From s s' r' call' := by
  rw [calls_set, ht] at hr'
  split_ifs at hr' with heq
  · subst heq
    obtain rfl := Option.some.inj hr'
    exact .moved hr rfl hmoved
  · exact .same hr'

theorem Trans.call (h : Trans s a s') {r' : Nat} {call' : OAuthCall}
    (hr' : s'.calls.get r' = some call') : From s s' r' call' := by
  cases h with
  | tick | lose _ => exact .same hr'
  | authorize hr hnew hmem =>
    rw [calls_set] at hr'
    split_ifs at hr' with heq
    · subst heq
      obtain rfl := Option.some.inj hr'
      refine .authorize hr hnew ?_ rfl rfl
      show (Store.get (s.created.put _ _) _).isSome = true
      rw [Store.get_put_self]
      rfl
    · exact .same hr'
  | callback hr =>
    rw [calls_set] at hr'
    split_ifs at hr' with heq
    · subst heq
      obtain rfl := Option.some.inj hr'
      exact .callback hr rfl rfl
    · exact .same hr'
  | move hmem hr hold hstored hrow hstage => exact from_of_moved rfl hr (.ordinary hrow hstage) hr'
  | exported hmem hr hstage hvalue => exact from_of_moved rfl hr (.exported hstage hvalue) hr'
  | prune hr hstage => exact from_of_moved rfl hr (.pruned hstage) hr'
  | persist hr hstage => exact from_of_moved rfl hr (.persisted hstage) hr'
  | take hmem hr hstage hvalue htime hgone => exact from_of_moved rfl hr (.ordinary rfl rfl) hr'
  | load hr hstage hrow => exact from_of_moved rfl hr (.loaded hrow) hr'
  | restore hr hstage htime hvalue => exact from_of_moved rfl hr (.ordinary rfl rfl) hr'
  | delete hr hstage => exact from_of_moved rfl hr (.ordinary rfl rfl) hr'

theorem Trans.created (h : Trans s a s') {state : String} {value : OAuthStateValue}
    (hvalue : s.created.get state = some value) : s'.created.get state = some value := by
  cases h with
  | authorize hr hnew hmem =>
    refine (Store.get_put_of_ne _ _ ?_).trans hvalue
    rintro rfl
    rw [hnew] at hvalue
    cases hvalue
  | _ => exact hvalue

theorem Trans.memory (h : Trans s a s') {k : Nat} {state : String} {value : OAuthStateValue}
    (hvalue : s'.memory.get (k, state) = some value) :
    s.memory.get (k, state) = some value ∨
    (s.created.get state = none ∧ s'.created.get state = some value ∧
      ∀ k' value', s'.memory.get (k', state) = some value' →
        k' = k ∨ s.memory.get (k', state) = some value') := by
  cases h with
  | authorize hr hnew hmem =>
    rename_i r replica state' value₀ memory
    have hput : ∀ k' value', (memory.put (replica, state') value₀).get (k', state) = some value' →
        (k' = replica ∧ state = state' ∧ value₀ = value') ∨
          s.memory.get (k', state) = some value' := by
      intro k' value' hget
      rw [Store.get_put] at hget
      split_ifs at hget with heq
      · obtain ⟨rfl, rfl⟩ := Prod.mk.inj heq
        exact Or.inl ⟨rfl, rfl, Option.some.inj hget⟩
      · exact Or.inr (hmem _ _ hget)
    rcases hput k value hvalue with ⟨rfl, rfl, rfl⟩ | hold
    · refine Or.inr ⟨hnew, Store.get_put_self _ _ _, fun k' value' hget => ?_⟩
      exact (hput k' value' hget).imp_left And.left
    · exact Or.inl hold
  | lose hmem | move hmem hr hold hstored hrow hstage => exact Or.inl (hmem _ _ hvalue)
  | exported hmem hr hstage hget => exact Or.inl (hmem _ _ hvalue)
  | take hmem hr hstage hget htime hgone => exact Or.inl (hmem _ _ hvalue)
  | _ => exact Or.inl hvalue

theorem Trans.row (h : Trans s a s') {state : String} {row : PersistedOAuthState}
    (hrow : s'.rows.get state = some row) :
    s.rows.get state = some row ∨
    ∃ r call snapshot, a = .persist r true ∧ s.calls.get r = some call ∧
      call.stage = .pruned snapshot ∧ call.op.state = state ∧ s'.Persisted state ∧
      row = ⟨snapshot.provider.toText, snapshot.pkceVerifier, snapshot.redirect, s.now⟩ := by
  cases h with
  | prune hr hstage =>
    have hrow : (s.rows.removeIf _).get state = some row := hrow
    rw [Store.get_removeIf] at hrow
    split_ifs at hrow
    exact Or.inl hrow
  | persist hr hstage =>
    rename_i r call snapshot
    have hput : (s.rows.put call.op.state _).get state = some row := hrow
    rw [Store.get_put] at hput
    split_ifs at hput with heq
    · exact Or.inr ⟨r, call, snapshot, rfl, hr, hstage, heq.symm,
        ⟨r, _, Store.get_put_self _ _ _, heq.symm, rfl⟩, (Option.some.inj hput).symm⟩
    · exact Or.inl hput
  | delete hr hstage =>
    have hrow : (s.rows.remove _).get state = some row := hrow
    rw [Store.get_remove] at hrow
    split_ifs at hrow
    exact Or.inl hrow
  | _ => exact Or.inl hrow

/-- How an exchange starts: with the state from memory, or with a row that was read. -/
inductive Started (s : OAuthSystem) (call : OAuthCall) (r : Nat) (s' : OAuthSystem) :
    OAuthAction → OAuthStateExport → Prop
  | take {value} (hstage : call.stage = .begun)
      (hvalue : s.memory.get (call.replica, call.op.state) = some value)
      (htime : s.now < value.createdAt + stateTtl)
      (hgone : s'.memory.get (call.replica, call.op.state) = none) :
      Started s call r s' (.take r true) value.toExport
  | restore {row value} (hstage : call.stage = .loaded row) (htime : row.isExpired s.now = false)
      (hvalue : row.intoExport = some value) : Started s call r s' (.restore r true) value

theorem Trans.exchanges (h : Trans s a s') :
    s'.exchanges = s.exchanges ∨
    ∃ r call value, s.calls.get r = some call ∧ Started s call r s' a value ∧
      s'.Exchanged call.op.state ∧ s'.exchanges = s.exchanges ++
        [⟨call.op.state, value.provider, value.pkceVerifier, s.now⟩] := by
  cases h with
  | take hmem hr hstage hvalue htime hgone =>
    rename_i r call value memory
    exact Or.inr ⟨r, call, _, hr, .take hstage hvalue htime hgone,
      ⟨r, _, Store.get_put_self _ _ _, rfl, rfl⟩, rfl⟩
  | restore hr hstage htime hvalue =>
    rename_i r call row value
    exact Or.inr ⟨r, call, _, hr, .restore hstage htime hvalue,
      ⟨r, _, Store.get_put_self _ _ _, rfl, rfl⟩, rfl⟩
  | _ => exact Or.inl rfl

theorem Persisted.mono (h : Trans s a s') {state : String} (hp : s.Persisted state) :
    s'.Persisted state := by
  obtain ⟨r', call', hr', hop, hstored⟩ := hp
  have hkeep : ∀ (t : OAuthSystem) (r : Nat) (call : OAuthCall) (stage : Stage),
      t.calls = s.calls → s.calls.get r = some call → call.stage ≠ .persisted →
        (t.set r call stage).Persisted state := by
    intro t r call stage ht hr hne
    refine ⟨r', call', ?_, hop, hstored⟩
    rw [calls_set, if_neg, ht]
    · exact hr'
    · rintro rfl
      obtain rfl := Option.some.inj (hr'.symm.trans hr)
      exact hne hstored
  have hstart : ∀ (t : OAuthSystem) (r : Nat) (call : OAuthCall) (stage : Stage),
      t.calls = s.calls → s.calls.get r = none → (t.set r call stage).Persisted state := by
    intro t r call stage ht hr
    refine ⟨r', call', ?_, hop, hstored⟩
    rw [calls_set, if_neg, ht]
    · exact hr'
    · rintro rfl
      rw [hr] at hr'
      cases hr'
  cases h with
  | tick | lose _ => exact ⟨r', call', hr', hop, hstored⟩
  | authorize hr hnew hmem | callback hr => exact hstart _ _ _ _ rfl hr
  | move hmem hr hold hne hrow hstage => exact hkeep _ _ _ _ rfl hr hne
  | exported hmem hr hstage hvalue | take hmem hr hstage hvalue htime hgone =>
    exact hkeep _ _ _ _ rfl hr (by rw [hstage]; exact Stage.noConfusion)
  | prune hr hstage | persist hr hstage | load hr hstage hrow | restore hr hstage htime hvalue
  | delete hr hstage =>
    exact hkeep _ _ _ _ rfl hr (by rw [hstage]; exact Stage.noConfusion)

theorem Exchanged.mono (h : Trans s a s') {state : String} (he : s.Exchanged state) :
    s'.Exchanged state ∨ s'.rows.get state = none := by
  obtain ⟨r', call', hr', hop, hexchanged⟩ := he
  have hkeep : ∀ (t : OAuthSystem) (r : Nat) (call : OAuthCall) (stage : Stage),
      t.calls = s.calls → s.calls.get r = some call →
        (call.stage.exchanged = true → stage.exchanged = true) →
          (t.set r call stage).Exchanged state := by
    intro t r call stage ht hr hold
    by_cases heq : r' = r
    · subst heq
      obtain rfl := Option.some.inj (hr'.symm.trans hr)
      exact ⟨r', _, Store.get_put_self _ _ _, hop, hold hexchanged⟩
    · exact ⟨r', call', by rw [calls_set, if_neg heq, ht]; exact hr', hop, hexchanged⟩
  have hstart : ∀ (t : OAuthSystem) (r : Nat) (call : OAuthCall) (stage : Stage),
      t.calls = s.calls → s.calls.get r = none → (t.set r call stage).Exchanged state := by
    intro t r call stage ht hr
    refine ⟨r', call', ?_, hop, hexchanged⟩
    rw [calls_set, if_neg, ht]
    · exact hr'
    · rintro rfl
      rw [hr] at hr'
      cases hr'
  cases h with
  | tick | lose _ => exact Or.inl ⟨r', call', hr', hop, hexchanged⟩
  | authorize hr hnew hmem | callback hr => exact Or.inl (hstart _ _ _ _ rfl hr)
  | move hmem hr hold hne hrow hstage => exact Or.inl (hkeep _ _ _ _ rfl hr hold)
  | exported hmem hr hstage hvalue | take hmem hr hstage hvalue htime hgone =>
    exact Or.inl (hkeep _ _ _ _ rfl hr (by rw [hstage]; exact Bool.noConfusion))
  | prune hr hstage | persist hr hstage | load hr hstage hrow | restore hr hstage htime hvalue =>
    exact Or.inl (hkeep _ _ _ _ rfl hr (by rw [hstage]; exact Bool.noConfusion))
  | delete hr hstage =>
    rename_i r call exchanged result
    by_cases heq : r' = r
    · subst heq
      obtain rfl := Option.some.inj (hr'.symm.trans hr)
      subst hop
      exact Or.inr (Store.get_remove_self _ _)
    · refine Or.inl ⟨r', call', ?_, hop, hexchanged⟩
      rw [calls_set, if_neg heq]
      exact hr'

theorem Trans.fresh_unique (h : Trans s a s') {r r' : Nat} {call call' : OAuthCall}
    (hr : s'.calls.get r = some call) (hr' : s'.calls.get r' = some call')
    (hnone : s.calls.get r = none) (hnone' : s.calls.get r' = none) : r = r' := by
  have hcalls : s'.calls = s.calls ∨ ∃ r₀ call₀, s'.calls = s.calls.put r₀ call₀ := by
    cases h with
    | tick | lose _ => exact Or.inl rfl
    | _ => exact Or.inr ⟨_, _, rfl⟩
  rcases hcalls with heq | ⟨r₀, call₀, heq⟩
  · rw [heq, hnone] at hr
    cases hr
  · have hput : ∀ r₁ call₁, s'.calls.get r₁ = some call₁ → s.calls.get r₁ = none → r₁ = r₀ := by grind [Store.get_put]
    exact (hput r call hr hnone).trans (hput r' call' hr' hnone').symm

/-! ### The invariants -/

/-- `value` is a copy of what was stored with `state`. -/
def Matches (s : OAuthSystem) (state : String) (value : OAuthStateExport) : Prop :=
  ∃ v, s.created.get state = some v ∧ value.provider = v.provider ∧
    value.pkceVerifier = v.pkceVerifier

/-- `row` can be read as such a copy. -/
def RowMatches (s : OAuthSystem) (state : String) (row : PersistedOAuthState) : Prop :=
  ∃ value, row.intoExport = some value ∧ s.Matches state value

theorem Matches.mono (h : Trans s a s') {state : String} {value : OAuthStateExport}
    (hm : s.Matches state value) : s'.Matches state value := by
  obtain ⟨v, hv, heq⟩ := hm
  exact ⟨v, h.created hv, heq⟩

theorem RowMatches.mono (h : Trans s a s') {state : String} {row : PersistedOAuthState}
    (hm : s.RowMatches state row) : s'.RowMatches state row := by
  obtain ⟨value, hvalue, heq⟩ := hm
  exact ⟨value, hvalue, heq.mono h⟩

theorem Rightful.mono (h : Trans s a s') {e : Exchange} (he : s.Rightful e) : s'.Rightful e := by
  obtain ⟨v, hv, heq⟩ := he
  exact ⟨v, h.created hv, heq⟩

theorem rowMatches_of_matches {state : String} {snapshot : OAuthStateExport} (now : Int)
    (h : s.Matches state snapshot) : s.RowMatches state
      ⟨snapshot.provider.toText, snapshot.pkceVerifier, snapshot.redirect, now⟩ := by
  refine ⟨snapshot, ?_, h⟩
  rw [PersistedOAuthState.intoExport, OAuth2ProviderKind.fromStr_toText]
  rfl

/-- Memory, table, calls and the lists of states and exchanges fit together. -/
structure Consistent (s : OAuthSystem) : Prop where
  authorizing : ∀ r call, s.calls.get r = some call → call.stage.authorizing = true →
    call.op = .authorize call.op.state
  opened : ∀ r call state, s.calls.get r = some call → call.op = .authorize state →
    (s.created.get state).isSome = true
  unique : ∀ r r' call call' state, s.calls.get r = some call → s.calls.get r' = some call' →
    call.op = .authorize state → call'.op = .authorize state → r = r'
  snapshots : ∀ r call snapshot, s.calls.get r = some call →
    call.stage.snapshot = some snapshot → s.Matches call.op.state snapshot
  loaded : ∀ r call row, s.calls.get r = some call → call.stage.row = some row →
    s.RowMatches call.op.state row
  memory : ∀ k state value, s.memory.get (k, state) = some value →
    s.created.get state = some value
  home : ∀ k k' state value value', s.memory.get (k, state) = some value →
    s.memory.get (k', state) = some value' → k = k'
  rows : ∀ state row, s.rows.get state = some row → s.RowMatches state row ∧ s.Persisted state
  singleUse : s.SingleUse
  unshared : ∀ e ∈ s.exchanges, s.Exchanged e.state ∨ s.rows.get e.state = none
  gone : ∀ e ∈ s.exchanges, s.Persisted e.state ∨ ∀ k, s.memory.get (k, e.state) = none

theorem authorizing_of_trans (hs : Consistent s) (h : Trans s a s') {r : Nat} {call' : OAuthCall}
    (hr : s'.calls.get r = some call') (hstage : call'.stage.authorizing = true) :
    call'.op = .authorize call'.op.state := by
  cases h.call hr with
  | same hold => exact hs.authorizing r call' hold hstage
  | authorize hnone hnew hcreated hop _ => rw [hop]; rfl
  | callback hnone hop hbegun =>
    rw [hbegun] at hstage
    cases hstage
  | moved hold hop hmoved =>
    rename_i call
    rw [hop]
    exact hs.authorizing r call hold (hmoved.authorizing hstage)

theorem opened_of_trans (hs : Consistent s) (h : Trans s a s') {r : Nat} {call' : OAuthCall}
    {state : String} (hr : s'.calls.get r = some call') (hop : call'.op = .authorize state) :
    (s'.created.get state).isSome = true := by
  have hkeep : (s.created.get state).isSome = true → (s'.created.get state).isSome = true := by
    intro hsome
    obtain ⟨value, hvalue⟩ := Option.isSome_iff_exists.mp hsome
    rw [h.created hvalue]
    rfl
  cases h.call hr with
  | same hold => exact hkeep (hs.opened r call' state hold hop)
  | authorize hnone hnew hcreated hop' _ =>
    obtain rfl := OAuthOp.authorize.inj (hop'.symm.trans hop)
    exact hcreated
  | callback hnone hop' _ => cases hop'.symm.trans hop
  | moved hold hop' _ => exact hkeep (hs.opened r _ state hold (hop'.symm.trans hop))

theorem unique_of_trans (hs : Consistent s) (h : Trans s a s') {r r' : Nat}
    {call call' : OAuthCall} {state : String} (hr : s'.calls.get r = some call)
    (hr' : s'.calls.get r' = some call') (hop : call.op = .authorize state)
    (hop' : call'.op = .authorize state) : r = r' := by
  -- a call for this state was there before, or the state is new
  have hcase : ∀ r₁ call₁, s'.calls.get r₁ = some call₁ → call₁.op = .authorize state →
      (∃ call₀, s.calls.get r₁ = some call₀ ∧ call₀.op = .authorize state) ∨
        s.created.get state = none ∧ s.calls.get r₁ = none := by
    intro r₁ call₁ hr₁ hop₁
    cases h.call hr₁ with
    | same hold => exact Or.inl ⟨_, hold, hop₁⟩
    | authorize hnone hnew hcreated hop₀ _ =>
      obtain rfl := OAuthOp.authorize.inj (hop₀.symm.trans hop₁)
      exact Or.inr ⟨hnew, hnone⟩
    | callback hnone hop₀ _ => cases hop₀.symm.trans hop₁
    | moved hold hop₀ _ => exact Or.inl ⟨_, hold, hop₀.symm.trans hop₁⟩
  have hsome : ∀ r₁ call₀, s.calls.get r₁ = some call₀ → call₀.op = .authorize state →
      s.created.get state = none → r = r' := by
    intro r₁ call₀ hr₀ hop₀ hnone
    have := hs.opened r₁ call₀ state hr₀ hop₀
    rw [hnone] at this
    cases this
  rcases hcase r call hr hop with ⟨call₀, hr₀, hop₀⟩ | ⟨hnew, hnone⟩
  · rcases hcase r' call' hr' hop' with ⟨call₁, hr₁, hop₁⟩ | ⟨hnew, -⟩
    · exact hs.unique r r' call₀ call₁ state hr₀ hr₁ hop₀ hop₁
    · exact hsome r call₀ hr₀ hop₀ hnew
  · rcases hcase r' call' hr' hop' with ⟨call₁, hr₁, hop₁⟩ | ⟨-, hnone'⟩
    · exact hsome r' call₁ hr₁ hop₁ hnew
    · exact h.fresh_unique hr hr' hnone hnone'

theorem snapshots_of_trans (hs : Consistent s) (h : Trans s a s') {r : Nat} {call' : OAuthCall}
    {snapshot : OAuthStateExport} (hr : s'.calls.get r = some call')
    (hsnapshot : call'.stage.snapshot = some snapshot) : s'.Matches call'.op.state snapshot := by
  cases h.call hr with
  | same hold => exact (hs.snapshots r call' snapshot hold hsnapshot).mono h
  | authorize _ _ _ _ hstage | callback _ _ hstage =>
    rw [hstage] at hsnapshot
    cases hsnapshot
  | moved hold hop hmoved =>
    rename_i call
    rw [hop]
    generalize call'.stage = stage at hmoved hsnapshot
    cases hmoved with
    | ordinary hrow hfalse =>
      rw [Stage.authorizing_of_snapshot hsnapshot] at hfalse
      cases hfalse
    | exported hstage hvalue =>
      obtain rfl := Option.some.inj hsnapshot
      exact Matches.mono h ⟨_, hs.memory _ _ _ hvalue, rfl, rfl⟩
    | pruned hstage =>
      obtain rfl := Option.some.inj hsnapshot
      exact (hs.snapshots r call _ hold (by rw [hstage]; rfl)).mono h
    | persisted _ => cases hsnapshot
    | loaded _ => cases hsnapshot

theorem loaded_of_trans (hs : Consistent s) (h : Trans s a s') {r : Nat} {call' : OAuthCall}
    {row : PersistedOAuthState} (hr : s'.calls.get r = some call')
    (hrow : call'.stage.row = some row) : s'.RowMatches call'.op.state row := by
  cases h.call hr with
  | same hold => exact (hs.loaded r call' row hold hrow).mono h
  | authorize _ _ _ _ hstage | callback _ _ hstage =>
    rw [hstage] at hrow
    cases hrow
  | moved hold hop hmoved =>
    rw [hop]
    generalize call'.stage = stage at hmoved hrow
    cases hmoved with
    | ordinary hnone hfalse =>
      rw [hnone] at hrow
      cases hrow
    | exported _ _ | pruned _ | persisted _ => cases hrow
    | loaded hget =>
      obtain rfl := Option.some.inj hrow
      exact (hs.rows _ _ hget).1.mono h

theorem memory_of_trans (hs : Consistent s) (h : Trans s a s') {k : Nat} {state : String}
    {value : OAuthStateValue} (hvalue : s'.memory.get (k, state) = some value) :
    s'.created.get state = some value := by
  rcases h.memory hvalue with hold | ⟨-, hnew, -⟩
  · exact h.created (hs.memory k state value hold)
  · exact hnew

theorem home_of_trans (hs : Consistent s) (h : Trans s a s') {k k' : Nat} {state : String}
    {value value' : OAuthStateValue} (hvalue : s'.memory.get (k, state) = some value)
    (hvalue' : s'.memory.get (k', state) = some value') : k = k' := by
  rcases h.memory hvalue with hold | ⟨hnone, -, hother⟩
  · rcases h.memory hvalue' with hold' | ⟨hnone, -, -⟩
    · exact hs.home k k' state value value' hold hold'
    · rw [hs.memory k state value hold] at hnone
      cases hnone
  · rcases hother k' value' hvalue' with heq | hold'
    · exact heq.symm
    · rw [hs.memory k' state value' hold'] at hnone
      cases hnone

theorem rows_of_trans (hs : Consistent s) (h : Trans s a s') {state : String}
    {row : PersistedOAuthState} (hrow : s'.rows.get state = some row) :
    s'.RowMatches state row ∧ s'.Persisted state := by
  rcases h.row hrow with hold | ⟨r, call, snapshot, -, hr, hstage, rfl, hstored, rfl⟩
  · obtain ⟨hmatches, hstored⟩ := hs.rows state row hold
    exact ⟨hmatches.mono h, hstored.mono h⟩
  · have hmatches := hs.snapshots r call snapshot hr (by rw [hstage]; rfl)
    exact ⟨rowMatches_of_matches _ (hmatches.mono h), hstored⟩

theorem fresh_of_started (hs : Consistent s) (ha : s.Unused a) {r : Nat} {call : OAuthCall}
    {value : OAuthStateExport} (hr : s.calls.get r = some call)
    (hstarted : Started s call r s' a value) {e : Exchange} (he : e ∈ s.exchanges) :
    e.state ≠ call.op.state := by
  intro heq
  have hunshared := hs.unshared e he
  have hgone := hs.gone e he
  rw [heq] at hunshared hgone
  cases hstarted with
  | take hstage hvalue htime _ =>
    obtain ⟨hnot, hrow⟩ := ha call hr _ hvalue htime
    grind
  | restore hstage htime hvalue =>
    obtain ⟨hnot, hrow, -⟩ := ha call hr _ (by rw [hstage]; rfl) htime
    rw [hunshared.resolve_left hnot] at hrow
    cases hrow

theorem rightful_of_started (hs : Consistent s) (ha : s.Unused a) {r : Nat} {call : OAuthCall}
    {value : OAuthStateExport} (hr : s.calls.get r = some call)
    (hstarted : Started s call r s' a value) :
    s.Rightful ⟨call.op.state, value.provider, value.pkceVerifier, s.now⟩ := by
  cases hstarted with
  | take hstage hvalue htime _ => exact ⟨_, hs.memory _ _ _ hvalue, rfl, rfl, htime⟩
  | restore hstage htime hvalue =>
    obtain ⟨value', hvalue', v, hv, hprovider, hverifier⟩ :=
      hs.loaded r call _ hr (by rw [hstage]; rfl)
    obtain rfl := Option.some.inj (hvalue.symm.trans hvalue')
    obtain ⟨-, -, hyoung⟩ := ha call hr _ (by rw [hstage]; rfl) htime
    exact ⟨v, hv, hprovider, hverifier, hyoung v hv⟩

theorem singleUse_of_trans (hs : Consistent s) (ha : s.Unused a) (h : Trans s a s') :
    s'.SingleUse := by
  rcases h.exchanges with heq | ⟨r, call, value, hr, hstarted, -, heq⟩
  · refine ⟨heq ▸ hs.singleUse.once, fun e he => ?_⟩
    exact (hs.singleUse.rightful e (heq ▸ he)).mono h
  · constructor
    · rw [heq, List.map_append]
      refine List.Nodup.append hs.singleUse.once (List.nodup_singleton _) ?_
      grind [List.map_singleton, List.disjoint_singleton, fresh_of_started]
    · intro e he
      rw [heq, List.mem_append, List.mem_singleton] at he
      rcases he with hold | rfl
      · exact (hs.singleUse.rightful e hold).mono h
      · exact (rightful_of_started hs ha hr hstarted).mono h

theorem rows_of_exchanged (hs : Consistent s) (ha : s.Unused a) (h : Trans s a s') {e : Exchange}
    (he : e ∈ s.exchanges) (hnone : s.rows.get e.state = none) : s'.rows.get e.state = none := by
  cases hget : s'.rows.get e.state with
  | none => rfl
  | some row =>
    exfalso
    rcases h.row hget with hold | ⟨r, call, snapshot, rfl, hr, hstage, hstate, -, -⟩
    · rw [hnone] at hold
      cases hold
    · have hmemory := ha call hr
      have hop := hs.authorizing r call hr (by rw [hstage]; rfl)
      rcases hs.gone e he with ⟨r', call', hr', hstate', hstored⟩ | hgone
      · have hop' := hs.authorizing r' call' hr' (by rw [hstored]; rfl)
        rw [hstate] at hop
        rw [hstate'] at hop'
        obtain rfl := hs.unique r r' call call' e.state hr hr' hop hop'
        grind
      · rw [StoresUnused, hstate, hgone] at hmemory
        cases hmemory

theorem unshared_of_trans (hs : Consistent s) (ha : s.Unused a) (h : Trans s a s') {e : Exchange}
    (he : e ∈ s'.exchanges) : s'.Exchanged e.state ∨ s'.rows.get e.state = none := by
  have hkeep : e ∈ s.exchanges → s'.Exchanged e.state ∨ s'.rows.get e.state = none := by
    intro he
    rcases hs.unshared e he with hexchanged | hnone
    · exact hexchanged.mono h
    · exact Or.inr (rows_of_exchanged hs ha h he hnone)
  rcases h.exchanges with heq | ⟨r, call, value, hr, hstarted, hexchanged, heq⟩
  · exact hkeep (heq ▸ he)
  grind

theorem gone_of_trans (hs : Consistent s) (ha : s.Unused a) (h : Trans s a s') {e : Exchange}
    (he : e ∈ s'.exchanges) :
    s'.Persisted e.state ∨ ∀ k, s'.memory.get (k, e.state) = none := by
  -- what the memory has lost it does not get back
  have hlost : ∀ k state value, s.created.get state = some value →
      s.memory.get (k, state) = none → s'.memory.get (k, state) = none := by
    intro k state value hcreated hnone
    refine Option.eq_none_iff_forall_ne_some.mpr fun value' hget => ?_
    rcases h.memory hget with hold | ⟨hnew, -, -⟩
    · rw [hnone] at hold
      cases hold
    · rw [hcreated] at hnew
      cases hnew
  have hkeep : e ∈ s.exchanges →
      s'.Persisted e.state ∨ ∀ k, s'.memory.get (k, e.state) = none := by
    intro he
    obtain ⟨v, hv, -⟩ := hs.singleUse.rightful e he
    rcases hs.gone e he with hstored | hgone
    · exact Or.inl (hstored.mono h)
    · exact Or.inr fun k => hlost k e.state v hv (hgone k)
  rcases h.exchanges with heq | ⟨r, call, value, hr, hstarted, -, heq⟩
  · exact hkeep (heq ▸ he)
  · rw [heq, List.mem_append, List.mem_singleton] at he
    rcases he with hold | rfl
    · exact hkeep hold
    · cases hstarted with
      | take hstage hvalue htime hgone =>
        refine Or.inr fun k => ?_
        cases hget : s'.memory.get (k, call.op.state) with
        | none => rfl
        | some value' =>
          exfalso
          rcases h.memory hget with hold | ⟨hnew, -, -⟩
          · rw [hs.home _ _ _ _ _ hold hvalue, hgone] at hget
            cases hget
          · rw [hs.memory _ _ _ hvalue] at hnew
            cases hnew
      | restore hstage htime hvalue =>
        obtain ⟨-, hrow, -⟩ := ha call hr _ (by rw [hstage]; rfl) htime
        obtain ⟨row, hget⟩ := Option.isSome_iff_exists.mp hrow
        exact Or.inl ((hs.rows _ row hget).2.mono h)

theorem consistent_of_trans (hs : Consistent s) (ha : s.Unused a) (h : Trans s a s') :
    Consistent s' where
  authorizing _ _ hr hstage := authorizing_of_trans hs h hr hstage
  opened _ _ _ hr hop := opened_of_trans hs h hr hop
  unique _ _ _ _ _ hr hr' hop hop' := unique_of_trans hs h hr hr' hop hop'
  snapshots _ _ _ hr hsnapshot := snapshots_of_trans hs h hr hsnapshot
  loaded _ _ _ hr hrow := loaded_of_trans hs h hr hrow
  memory _ _ _ hvalue := memory_of_trans hs h hvalue
  home _ _ _ _ _ hvalue hvalue' := home_of_trans hs h hvalue hvalue'
  rows _ _ hrow := rows_of_trans hs h hrow
  singleUse := singleUse_of_trans hs ha h
  unshared _ he := unshared_of_trans hs ha h he
  gone _ he := gone_of_trans hs ha h he

theorem Initial.consistent (h : Initial s) : Consistent s := by
  have hcall : ∀ {r : Nat} {call : OAuthCall}, s.calls.get r = some call → False := by
    intro r call hr
    rw [h.calls, Store.get_empty] at hr
    cases hr
  have hexchange : ∀ {e : Exchange}, e ∈ s.exchanges → False := by
    intro e he
    rw [h.exchanges] at he
    cases he
  have hmemory : ∀ {k : Nat × String} {value : OAuthStateValue},
      s.memory.get k = some value → False := by
    intro k value hk
    rw [h.memory, Store.get_empty] at hk
    cases hk
  constructor
  · exact fun _ _ hr => (hcall hr).elim
  · exact fun _ _ _ hr => (hcall hr).elim
  · exact fun _ _ _ _ _ hr => (hcall hr).elim
  · exact fun _ _ _ hr => (hcall hr).elim
  · exact fun _ _ _ hr => (hcall hr).elim
  · exact fun _ _ _ hk => (hmemory hk).elim
  · exact fun _ _ _ _ _ hk => (hmemory hk).elim
  · intro state row hrow
    rw [h.rows, Store.get_empty] at hrow
    cases hrow
  · exact ⟨by rw [h.exchanges]; exact List.nodup_nil, fun _ he => (hexchange he).elim⟩
  · exact fun _ he => (hexchange he).elim
  · exact fun _ he => (hexchange he).elim

/-- **Main theorem.**  In every run from an empty table and an empty memory whose steps are all
`Unused`, every state is exchanged at most once, with its own provider and verifier and less than
300 seconds after it was created. -/
theorem singleUse_of_unused {s₀ : OAuthSystem} {as : List OAuthAction} (h₀ : Initial s₀)
    (hsteps : StepsOk step Unused s₀ as) (hr : run step s₀ as = some s) : s.SingleUse :=
  (run_invariant_of_stepsOk (fun _ _ _ hs ha h => consistent_of_trans hs ha (trans_of_step h))
    h₀.consistent hsteps hr).singleUse

/-! ### Two runs -/

def noLogins : OAuthSystem where
  now := 0
  memory := ∅
  rows := ∅
  calls := ∅
  created := ∅
  exchanges := []

theorem initial_noLogins : Initial noLogins := ⟨rfl, rfl, rfl, rfl⟩

/-- The replica 0 draws the state `x` and stores it. -/
def authorizeOnce : List OAuthAction :=
  [.authorize 0 0 "x" .google "v" none, .exportState 0, .prune 0 true, .persist 0 true]

def serialCallbacks : List OAuthAction := authorizeOnce ++
  [.callback 1 0 "x", .take 1 true, .exchanged 1 true, .delete 1 true,
    .callback 2 1 "x", .take 2 true, .load 2 true]

/-- The second callback reads the row before the first has deleted it. -/
def parallelCallbacks : List OAuthAction := authorizeOnce ++
  [.callback 1 0 "x", .take 1 true, .callback 2 1 "x", .take 2 true, .load 2 true,
    .restore 2 true]

/-- When the second callback comes after the first, it finds the state neither in memory nor in the
table. -/
theorem singleUse_serialCallbacks :
    ∃ s, run step noLogins serialCallbacks = some s ∧ s.SingleUse := by
  have hsome : (run step noLogins serialCallbacks).isSome = true := by decide
  obtain ⟨s, hs⟩ := Option.isSome_iff_exists.mp hsome
  exact ⟨s, hs, singleUse_of_unused initial_noLogins (by decide) hs⟩

/-- Two callbacks on two replicas exchange the same state. -/
theorem not_singleUse_parallelCallbacks : ¬ ∀ (s₀ s : OAuthSystem) (as : List OAuthAction),
    Initial s₀ → run step s₀ as = some s → s.SingleUse := by
  intro hall
  have hstates : (run step noLogins parallelCallbacks).map (fun s =>
      s.exchanges.map Exchange.state) = some ["x", "x"] := by
    decide
  obtain ⟨s, hs, htwice⟩ := Option.map_eq_some_iff.mp hstates
  have honce := (hall noLogins s _ initial_noLogins hs).once
  rw [htwice] at honce
  exact absurd honce (by decide)

end OAuthSystem

end Pkgly.OAuth
