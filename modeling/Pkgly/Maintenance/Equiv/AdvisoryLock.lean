import Pkgly.Maintenance.AdvisoryLock

/-!
# Maintenance runs and their locks

A lock belongs to one session and a session to one run, so that two runs with one lock are never
active together (`active_unique`).  When no run is dropped while it has its lock, every lock that is
held is that of an active run (`LocksOwned`), so that the next attempt takes it (`locks_safe`).  A
dropped run leaves its lock with a connection of the pool (`not_locksSafe_dropped`).
-/

namespace Pkgly.Maintenance

variable {key key' : BitVec 64} {db db' : Sessions} {event : Event} {stage stage' : Stage}
  {session session' : ℕ}

/-! ### Sessions -/

@[simp] theorem held_giveBack : (db.giveBack session).held session' = db.held session' := rfl

theorem held_close : (db.close session).held session' =
    if session' = session then [] else db.held session' := by
  unfold Sessions.held Sessions.close
  rw [Store.get_remove]
  split_ifs <;> rfl

theorem held_advisoryUnlock : (db.advisoryUnlock session key).held session' =
    if session' = session then (db.held session).erase key else db.held session' := by
  conv_lhs => unfold Sessions.held Sessions.advisoryUnlock
  rw [Store.get_put]
  split_ifs <;> rfl

theorem mem_held_iff : key ∈ db.held session ↔
    ∃ keys, db.locks.get session = some keys ∧ key ∈ keys := by
  unfold Sessions.held
  cases db.locks.get session with
  | none => simp
  | some keys => simp

theorem tryAdvisoryLock_of_forall (h : ∀ session' ≠ session, key ∉ db.held session') :
    db.tryAdvisoryLock session key =
      ({ db with locks := db.locks.put session (key :: db.held session) }, true) := by
  unfold Sessions.tryAdvisoryLock
  refine if_neg ?_
  rw [List.any_eq_true]
  rintro ⟨⟨session', keys⟩, hentry, hother⟩
  rw [Bool.and_eq_true, bne_iff_ne, List.contains_iff_mem] at hother
  exact h session' hother.1
    (mem_held_iff.mpr ⟨keys, Store.get_eq_some_iff.mpr hentry, hother.2⟩)

theorem notMem_held_of_tryAdvisoryLock (h : db.tryAdvisoryLock session key = (db', true)) :
    ∀ session' ≠ session, key ∉ db.held session' := by
  intro session' hne hmem
  obtain ⟨keys, hget, hkey⟩ := mem_held_iff.mp hmem
  unfold Sessions.tryAdvisoryLock at h
  split_ifs at h with hother
  · cases h
  · refine hother (List.any_eq_true.mpr ⟨⟨session', keys⟩, Store.get_eq_some_iff.mp hget, ?_⟩)
    rw [Bool.and_eq_true, bne_iff_ne, List.contains_iff_mem]
    exact ⟨hne, hkey⟩

theorem tryAdvisoryLock_cases (db : Sessions) (session : ℕ) (key : BitVec 64) :
    db.tryAdvisoryLock session key = (db, false) ∨
      db.tryAdvisoryLock session key =
        ({ db with locks := db.locks.put session (key :: db.held session) }, true) := by
  unfold Sessions.tryAdvisoryLock
  split_ifs
  · exact .inl rfl
  · exact .inr rfl

theorem held_put : ({ db with locks := db.locks.put session (key :: db.held session) } :
    Sessions).held session' = if session' = session then key :: db.held session
      else db.held session' := by
  conv_lhs => unfold Sessions.held
  rw [Store.get_put]
  split_ifs <;> rfl

/-! ### Moves -/

def Stage.lock? : Stage → Option ℕ
  | .acquire | .tryLock _ | .done _ => none
  | .ensureRow session | .markStarted session | .working session | .markEnded session _
  | .release session _ => some session

theorem Stage.session?_of_lock? (h : stage.lock? = some session) :
    stage.session? = some session := by
  cases stage with
  | acquire | tryLock | done => cases h
  | _ => exact h

inductive Moves (key : BitVec 64) (db : Sessions) : Event → Sessions → Stage → Stage → Prop
  | acquires {choice : Option ℕ} {db' : Sessions} {session : ℕ}
      (h : db.acquire choice = some (db', session)) :
      Moves key db (.succeeds choice) db' .acquire (.tryLock session)
  | locks {choice : Option ℕ} {session : ℕ}
      (h : ∀ session' ≠ session, key ∉ db.held session') :
      Moves key db (.succeeds choice)
        { db with locks := db.locks.put session (key :: db.held session) }
        (.tryLock session) (.ensureRow session)
  | goesOn {event : Event} {stage stage' : Stage} {session : ℕ} (h : stage.lock? = some session)
      (h' : stage'.lock? = some session) : Moves key db event db stage stage'
  | ends {event : Event} {stage : Stage} {db' : Sessions} {ending : Ending}
      (h : stage.lock? = none) (hdb : db' = stage.drop db) :
      Moves key db event db' stage (.done ending)
  /-- The run is dropped, or does not see that it has the lock. -/
  | leaks {event : Event} {stage : Stage} {session : ℕ} {db' : Sessions} {ending : Ending}
      (h : stage.session? = some session)
      (hdb : db' = db ∧ event = .dropped ∧ stage.lock? = some session ∨
        db' = (db.tryAdvisoryLock session key).1 ∧ event = .answerLost ∧
          stage = .tryLock session) :
      Moves key db event (db'.giveBack session) stage (.done ending)
  | releases {event : Event} {stage : Stage} {session : ℕ} {ending : Ending}
      (h : stage.lock? = some session) :
      Moves key db event ((db.advisoryUnlock session key).giveBack session) stage (.done ending)
  | closes {event : Event} {stage : Stage} {session : ℕ} {db' : Sessions} {ending : Ending}
      (h : stage.lock? = some session)
      (hdb : db' = db ∨ db' = db.advisoryUnlock session key) :
      Moves key db event (db'.close session) stage (.done ending)

theorem moves_of_performStage (h : performStage key event db stage = some (db', stage')) :
    Moves key db event db' stage stage' := by
  cases event with
  | dropped =>
    cases stage with
    | done ending => cases h
    | acquire | tryLock session =>
      cases h
      exact .ends rfl rfl
    | ensureRow session | markStarted session | working session | markEnded session succeeded
    | release session succeeded =>
      cases h
      exact .leaks rfl (.inl ⟨rfl, rfl, rfl⟩)
  | continues =>
    cases stage with
    | working session =>
      cases h
      exact .goesOn rfl rfl
    | _ => cases h
  | succeeds choice =>
    cases stage with
    | acquire =>
      obtain ⟨⟨db'', session⟩, hacquire, heq⟩ := Option.map_eq_some_iff.mp h
      cases heq
      exact .acquires hacquire
    | tryLock session =>
      rcases tryAdvisoryLock_cases db session key with htry | htry
      · simp only [performStage, htry] at h
        cases h
        exact .ends rfl rfl
      · have hfree := notMem_held_of_tryAdvisoryLock htry
        simp only [performStage, htry] at h
        cases h
        exact .locks hfree
    | ensureRow session | markStarted session | working session | markEnded session succeeded =>
      cases h
      exact .goesOn rfl rfl
    | release session succeeded =>
      cases h
      exact .releases rfl
    | done ending => cases h
  | fails =>
    cases stage with
    | acquire | tryLock session =>
      cases h
      exact .ends rfl rfl
    | ensureRow session | markStarted session | release session succeeded =>
      cases h
      exact .closes rfl (.inl rfl)
    | working session | markEnded session succeeded =>
      cases h
      exact .goesOn rfl rfl
    | done ending => cases h
  | answerLost =>
    cases stage with
    | tryLock session =>
      cases h
      exact .leaks rfl (.inr ⟨rfl, rfl, rfl⟩)
    | release session succeeded =>
      cases h
      exact .closes rfl (.inr rfl)
    | _ => cases h

theorem Moves.mem_held (h : Moves key db event db' stage stage') (hmem : key' ∈ db'.held session') :
    key' ∈ db.held session' ∨ key' = key ∧ stage.session? = some session' ∧
      ∀ session ≠ session', key ∉ db.held session := by
  cases h with
  | acquires hacquire =>
    refine .inl ?_
    unfold Sessions.acquire at hacquire
    grind [Sessions.held]
  | @locks choice session hfree =>
    rw [held_put] at hmem
    aesop
  | goesOn => exact .inl hmem
  | ends hnone hdb =>
    refine .inl ?_
    rw [hdb] at hmem
    unfold Stage.drop at hmem
    split at hmem <;> exact hmem
  | @leaks event stage session db'' ending hsession hdb =>
    rcases hdb with ⟨rfl, -, -⟩ | ⟨rfl, -, rfl⟩
    · exact .inl hmem
    · rw [held_giveBack] at hmem
      rcases tryAdvisoryLock_cases db session key with htry | htry
      · rw [htry] at hmem
        exact .inl hmem
      · have hfree := notMem_held_of_tryAdvisoryLock htry
        rw [htry, held_put] at hmem
        grind
  | @releases event stage session =>
    grind [held_giveBack, held_advisoryUnlock, List.mem_of_mem_erase]
  | @closes event stage session db'' ending hlock hdb =>
    rw [held_close] at hmem
    split_ifs at hmem with heq
    · cases hmem
    · rcases hdb with rfl | rfl
      · exact .inl hmem
      · rw [held_advisoryUnlock, if_neg heq] at hmem
        exact .inl hmem

/-! ### The connections of the runs -/

/-- The sessions of the pool are known, and no lock is held by two of them. -/
structure SessionsOk (db : Sessions) : Prop where
  nodup : db.idle.Nodup
  idle_lt : ∀ session ∈ db.idle, session < db.next
  single : ∀ session session' key, key ∈ db.held session → key ∈ db.held session' →
    session = session'

structure RunOk (db : Sessions) (r : Run) : Prop where
  session : ∀ session ∈ r.stage.session?, session < db.next ∧ session ∉ db.idle
  lock : ∀ session ∈ r.stage.lock?, r.job.key ∈ db.held session

def lockInvariant : Pool.Invariant Sessions Run where
  shared := SessionsOk
  each := RunOk
  pair r r' := ∀ session ∈ r.stage.session?, ∀ session' ∈ r'.stage.session?, session ≠ session'

theorem acquire_spec {choice : Option ℕ} (h : db.acquire choice = some (db', session)) :
    db'.locks = db.locks ∧ db.next ≤ db'.next ∧ (∀ s ∈ db'.idle, s ∈ db.idle) ∧
      (db.idle.Nodup → db'.idle.Nodup) ∧
      (session ∈ db.idle ∧ (db.idle.Nodup → session ∉ db'.idle) ∨
        session = db.next ∧ db'.next = db.next + 1) := by
  unfold Sessions.acquire at h
  split at h
  · cases h
    exact ⟨rfl, Nat.le_succ _, fun _ hs => hs, id, .inr ⟨rfl, rfl⟩⟩
  grind

/-- What a step leaves of the pool of connections: some connections have been taken out of it by
the run, or one has been given back by it. -/
theorem Moves.sessions (h : Moves key db event db' stage stage') :
    db.next ≤ db'.next ∧ (∀ s ∈ db'.idle, s ∈ db.idle ∨ stage.session? = some s) ∧
      (db.idle.Nodup → (∀ s ∈ stage.session?, s ∉ db.idle) → db'.idle.Nodup) ∧
      ∀ s ∈ stage'.session?, (stage.session? = some s ∧ db'.idle = db.idle) ∨
        (s ∈ db.idle ∧ (db.idle.Nodup → s ∉ db'.idle) ∨ s = db.next ∧ db'.next = db.next + 1 ∧
          ∀ t ∈ db'.idle, t ∈ db.idle) := by
  have hback : ∀ {db'' : Sessions} {session : ℕ}, db''.idle = db.idle → db''.next = db.next →
      stage.session? = some session → db.next ≤ (db''.giveBack session).next ∧
        (∀ s ∈ (db''.giveBack session).idle, s ∈ db.idle ∨ stage.session? = some s) ∧
        (db.idle.Nodup → (∀ s ∈ stage.session?, s ∉ db.idle) →
          (db''.giveBack session).idle.Nodup) := by
    intro db'' session hidle hnext hsession
    have hidle' : (db''.giveBack session).idle = session :: db.idle := by
      rw [← hidle]
      rfl
    rw [hidle']
    refine ⟨le_of_eq hnext.symm, fun s hs => ?_,
      fun hnodup hout => List.nodup_cons.mpr ⟨hout _ hsession, hnodup⟩⟩
    rcases List.mem_cons.mp hs with rfl | hs
    · exact .inr hsession
    · exact .inl hs
  cases h with
  | @acquires choice db' session hacquire =>
    obtain ⟨-, hnext, hidle, hnodup, hsession⟩ := acquire_spec hacquire
    refine ⟨hnext, fun s hs => .inl (hidle s hs), fun h _ => hnodup h, fun s hs => .inr ?_⟩
    obtain rfl := Option.some.inj hs
    exact hsession.imp id fun h => ⟨h.1, h.2, hidle⟩
  | locks | goesOn =>
    refine ⟨le_rfl, fun s hs => .inl hs, fun h _ => h, fun s hs => .inl ⟨?_, rfl⟩⟩
    grind [Stage.session?_of_lock?, Stage.session?]
  | ends hnone hdb =>
    subst hdb
    unfold Stage.drop
    split
    next session hsession =>
      obtain ⟨h, h', h''⟩ := hback rfl rfl hsession
      exact ⟨h, h', h'', fun s hs => by cases hs⟩
    · exact ⟨le_rfl, fun s hs => .inl hs, fun h _ => h, fun s hs => by cases hs⟩
  | @leaks event stage session db'' ending hsession hdb =>
    have hsame : db''.idle = db.idle ∧ db''.next = db.next := by
      rcases hdb with ⟨rfl, -, -⟩ | ⟨rfl, -, -⟩
      · exact ⟨rfl, rfl⟩
      · rcases tryAdvisoryLock_cases db session key with htry | htry <;>
          (rw [htry]; exact ⟨rfl, rfl⟩)
    obtain ⟨h, h', h''⟩ := hback hsame.1 hsame.2 hsession
    exact ⟨h, h', h'', fun s hs => by cases hs⟩
  | releases hlock =>
    obtain ⟨h, h', h''⟩ := hback rfl rfl (Stage.session?_of_lock? hlock)
    exact ⟨h, h', h'', fun s hs => by cases hs⟩
  | closes hlock hdb =>
    rcases hdb with rfl | rfl <;>
      exact ⟨le_rfl, fun s hs => .inl hs, fun h _ => h, fun s hs => by cases hs⟩

theorem Moves.held_of_ne (h : Moves key db event db' stage stage')
    (hne : stage.session? ≠ some session') : db'.held session' = db.held session' := by
  cases h with
  | acquires hacquire =>
    unfold Sessions.held
    rw [(acquire_spec hacquire).1]
  | @locks choice session hfree =>
    rw [held_put, if_neg]
    rintro rfl
    exact hne rfl
  | goesOn => rfl
  | ends hnone hdb =>
    subst hdb
    unfold Stage.drop
    split <;> rfl
  | @leaks event stage session db'' ending hsession hdb =>
    rw [held_giveBack]
    rcases hdb with ⟨rfl, -, -⟩ | ⟨rfl, -, -⟩
    · rfl
    · rcases tryAdvisoryLock_cases db session key with htry | htry
      · rw [htry]
      · rw [htry, held_put, if_neg]
        rintro rfl
        exact hne hsession
  | @releases event stage session ending hlock =>
    rw [held_giveBack, held_advisoryUnlock, if_neg]
    rintro rfl
    exact hne (Stage.session?_of_lock? hlock)
  | @closes event stage session db'' ending hlock hdb =>
    have hne' : session' ≠ session := by
      rintro rfl
      exact hne (Stage.session?_of_lock? hlock)
    rw [held_close, if_neg hne']
    rcases hdb with rfl | rfl
    · rfl
    · rw [held_advisoryUnlock, if_neg hne']

theorem Moves.sessionsOk {job : Job} (h : Moves job.key db event db' stage stage')
    (hs : SessionsOk db) (hr : RunOk db ⟨job, stage⟩) : SessionsOk db' := by
  obtain ⟨hnext, hidle, hnodup, -⟩ := h.sessions
  refine ⟨hnodup hs.nodup fun s hsession => (hr.session s hsession).2, fun s hmem => ?_,
    fun s s' k hmem hmem' => ?_⟩
  · rcases hidle s hmem with hmem | hsession
    · exact lt_of_lt_of_le (hs.idle_lt s hmem) hnext
    · exact lt_of_lt_of_le (hr.session s hsession).1 hnext
  · rcases h.mem_held hmem with hold | ⟨rfl, hsession, hfree⟩
    · rcases h.mem_held hmem' with hold' | ⟨rfl, -, hfree⟩
      · exact hs.single s s' k hold hold'
      · by_contra hne
        exact hfree s hne hold
    · rcases h.mem_held hmem' with hold' | ⟨-, hsession', -⟩
      · by_contra hne
        exact hfree s' (Ne.symm hne) hold'
      · exact Option.some.inj (hsession.symm.trans hsession')

theorem Moves.runOk {job : Job} (h : Moves job.key db event db' stage stage')
    (hs : SessionsOk db) (hr : RunOk db ⟨job, stage⟩) : RunOk db' ⟨job, stage'⟩ := by
  obtain ⟨hnext, -, -, hsession⟩ := h.sessions
  refine ⟨fun s hmem => ?_, fun s hmem => ?_⟩
  · rcases hsession s hmem with ⟨hold, hidle⟩ | ⟨hold, hout⟩ | ⟨rfl, hnext', hsub⟩
    · rw [hidle]
      exact ⟨lt_of_lt_of_le (hr.session s hold).1 hnext, (hr.session s hold).2⟩
    · exact ⟨lt_of_lt_of_le (hs.idle_lt s hold) hnext, hout hs.nodup⟩
    · exact ⟨by omega, fun hmem => Nat.lt_irrefl _ (hs.idle_lt _ (hsub _ hmem))⟩
  · cases h with
    | locks =>
      obtain rfl := Option.some.inj hmem
      rw [held_put, if_pos rfl]
      exact List.mem_cons_self
    | goesOn hlock hlock' =>
      obtain rfl := Option.some.inj (hlock'.symm.trans hmem)
      exact hr.lock _ hlock
    | _ => cases hmem

theorem Moves.runOk_other {r : Run} (h : Moves key db event db' stage stage') (hr : RunOk db r)
    (hne : ∀ s ∈ stage.session?, ∀ s' ∈ r.stage.session?, s ≠ s') : RunOk db' r := by
  obtain ⟨hnext, hidle, -, -⟩ := h.sessions
  refine ⟨fun s hsession => ⟨lt_of_lt_of_le (hr.session s hsession).1 hnext, fun hmem => ?_⟩,
    fun s hlock => ?_⟩
  · rcases hidle s hmem with hmem | hsession'
    · exact (hr.session s hsession).2 hmem
    · exact hne s hsession' s hsession rfl
  · rw [h.held_of_ne fun hsession => hne s hsession s (Stage.session?_of_lock? hlock) rfl]
    exact hr.lock s hlock

variable {s s' : Pool Sessions Run} {a : Pool.Action Job Event}

theorem moves_of_next {r r' : Run} (h : maintenance.next event db r = some (db', r')) :
    r'.job = r.job ∧ Moves r.job.key db event db' r.stage r'.stage := by
  obtain ⟨⟨db'', stage⟩, hperform, heq⟩ := Option.map_eq_some_iff.mp h
  cases heq
  exact ⟨rfl, moves_of_performStage hperform⟩

theorem connections_of_step (h : Pool.Holds lockInvariant s)
    (hstep : maintenance.step s a = some s') : Pool.Holds lockInvariant s' := by
  refine h.of_step hstep (fun job _ => ?_) fun i event r db' r' _ hi hnext => ?_
  · exact ⟨⟨fun _ hs => (by cases hs), fun _ hs => (by cases hs)⟩,
      fun r => ⟨fun _ _ _ hs => (by cases hs), fun _ hs => (by cases hs)⟩⟩
  · obtain ⟨hjob, hmoves⟩ := moves_of_next hnext
    have hr : RunOk s.shared ⟨r.job, r.stage⟩ := h.each i r hi
    have hr' := hmoves.runOk h.shared hr
    refine ⟨hmoves.sessionsOk h.shared hr, ?_, fun j r'' hij hj => ?_⟩
    · rw [← hjob] at hr'
      exact hr'
    · have hother := h.each j r'' hj
      have hpair : ∀ t ∈ r'.stage.session?, ∀ t' ∈ r''.stage.session?, t ≠ t' := by
        rintro t ht t' ht' rfl
        rcases hmoves.sessions.2.2.2 t ht with ⟨hold, -⟩ | ⟨hidle, -⟩ | ⟨rfl, -, -⟩
        · exact h.pair i j r r'' hij hi hj t hold t ht' rfl
        · exact (hother.session t ht').2 hidle
        · exact Nat.lt_irrefl _ (hother.session _ ht').1
      exact ⟨hmoves.runOk_other hother (h.pair i j r r'' hij hi hj), hpair,
        fun t ht t' ht' => Ne.symm (hpair t' ht' t ht)⟩

def noSessions : Pool Sessions Run := ⟨⟨∅, [], 0⟩, []⟩

theorem holds_noSessions : Pool.Holds lockInvariant noSessions :=
  Pool.holds_nil ⟨List.nodup_nil, fun _ hs => (by cases hs), fun _ _ _ hmem => (by cases hmem)⟩

/-- **Two active runs have different locks.** -/
theorem active_unique (h : Pool.Holds lockInvariant s) {i j : ℕ} {r r' : Run}
    (hi : s.processes[i]? = some r) (hj : s.processes[j]? = some r')
    (hactive : r.stage.lock?.isSome) (hactive' : r'.stage.lock?.isSome)
    (hkey : r.job.key = r'.job.key) : i = j := by
  obtain ⟨t, ht⟩ := Option.isSome_iff_exists.mp hactive
  obtain ⟨t', ht'⟩ := Option.isSome_iff_exists.mp hactive'
  have hmem := (h.each i r hi).lock t ht
  have hmem' := (h.each j r' hj).lock t' ht'
  rw [← hkey] at hmem'
  by_contra hij
  exact h.pair i j r r' hij hi hj t (Stage.session?_of_lock? ht) t' (Stage.session?_of_lock? ht')
    (h.shared.single t t' _ hmem hmem')

/-! ### Locks and their owners -/

/-- The step leaves a lock that no run knows of: the run is dropped while it has its lock, or does
not see that it has taken it. -/
def leaksLock (key : BitVec 64) (event : Event) (db : Sessions) (stage : Stage) : Bool :=
  match event, stage with
  | .dropped, stage => stage.lock?.isSome
  | .answerLost, .tryLock session => (db.tryAdvisoryLock session key).2
  | _, _ => false

/-- What is held after a step that leaks nothing: what was held, but for the lock of a run that has
ended, and the lock that the run has taken. -/
theorem Moves.kept (h : Moves key db event db' stage stage')
    (hleaks : leaksLock key event db stage = false) (hnodup : ∀ t, (db.held t).Nodup)
    (hfree : ∀ t, stage = .tryLock t → key ∉ db.held t) :
    (∀ t, (db'.held t).Nodup) ∧ ∀ t, ∀ k ∈ db'.held t,
      k ∈ db.held t ∧ (k = key → stage.lock? = some t → stage'.lock? = some t) ∨
        k = key ∧ stage'.lock? = some t := by
  cases h with
  | acquires hacquire =>
    have hheld : ∀ t, db'.held t = db.held t := fun t => by
      unfold Sessions.held
      rw [(acquire_spec hacquire).1]
    grind [Sessions.held, Stage.lock?]
  | @locks choice session hother =>
    refine ⟨fun t => ?_, fun t k hk => ?_⟩
    · rw [held_put]
      grind
    · rw [held_put] at hk
      split_ifs at hk with heq
      · aesop
      · exact .inl ⟨hk, fun _ hlock => by cases hlock⟩
  | goesOn hlock hlock' =>
    exact ⟨hnodup, fun t k hk => .inl ⟨hk, fun _ hold => hlock'.trans (hlock.symm.trans hold)⟩⟩
  | ends hnone hdb =>
    have hheld : ∀ t, db'.held t = db.held t := fun t => by
      subst hdb
      unfold Stage.drop
      split <;> rfl
    grind
  | @leaks event stage session db'' ending hsession hdb =>
    rcases hdb with ⟨-, rfl, hlock⟩ | ⟨rfl, rfl, rfl⟩
    · simp only [leaksLock, hlock, Option.isSome_some] at hleaks
      cases hleaks
    · rcases tryAdvisoryLock_cases db session key with htry | htry
      · rw [htry]
        exact ⟨hnodup, fun t k hk => .inl ⟨hk, fun _ hold => by cases hold⟩⟩
      · simp only [leaksLock, htry] at hleaks
        cases hleaks
  | @releases event stage session ending hlock =>
    refine ⟨fun t => ?_, fun t k hk => ?_⟩
    · grind [held_giveBack, held_advisoryUnlock]
    · rw [held_giveBack, held_advisoryUnlock] at hk
      grind
  | @closes event stage session db'' ending hlock hdb =>
    have hheld : ∀ t, t ≠ session → db''.held t = db.held t := fun t hne => by
      rcases hdb with rfl | rfl
      · rfl
      · rw [held_advisoryUnlock, if_neg hne]
    grind [held_close, List.nodup_nil, absurd, Option.some.inj]

structure LocksOwned (s : Pool Sessions Run) : Prop where
  nodup : ∀ t, (s.shared.held t).Nodup
  owned : ∀ t, ∀ k ∈ s.shared.held t, ∃ (i : ℕ) (r : Run), s.processes[i]? = some r ∧
    r.stage.lock? = some t ∧ r.job.key = k
  job_eq : ∀ (i j : ℕ) (r r' : Run), s.processes[i]? = some r → s.processes[j]? = some r' →
    r.job.key = r'.job.key → r.job = r'.job

/-- The condition on the steps of a run: no step leaks a lock, and no two of the jobs have one key
without being one job. -/
def lockGuarded (s : Pool Sessions Run) : Pool.Action Job Event → Bool
  | .start job => s.processes.all fun r => decide (r.job.key = job.key → r.job = job)
  | .advance i event =>
    s.processes[i]?.all fun r => !leaksLock r.job.key event s.shared r.stage

theorem owned_of_step (h : Pool.Holds lockInvariant s) (ho : LocksOwned s)
    (hg : lockGuarded s a = true) (hstep : maintenance.step s a = some s') : LocksOwned s' := by
  cases a with
  | start job =>
    obtain rfl := Option.some.inj hstep
    have hjob : ∀ (i : ℕ) (r : Run), s.processes[i]? = some r → r.job.key = job.key →
        r.job = job := fun i r hi =>
      of_decide_eq_true (List.all_eq_true.mp hg r (List.mem_of_getElem? hi))
    refine ⟨ho.nodup, fun t k hk => ?_, fun i j r r' hi hj hkey => ?_⟩
    · obtain ⟨i, r, hi, hlock, hkey⟩ := ho.owned t k hk
      exact ⟨i, r, Pool.getElem?_concat_eq_some.mpr (.inl hi), hlock, hkey⟩
    · rcases Pool.getElem?_concat_eq_some.mp hi with hi | ⟨-, rfl⟩ <;>
        rcases Pool.getElem?_concat_eq_some.mp hj with hj | ⟨-, rfl⟩
      · exact ho.job_eq i j r r' hi hj hkey
      · exact hjob i r hi hkey
      · exact (hjob j r' hj hkey.symm).symm
      · rfl
  | advance i event =>
    obtain ⟨p, db', q, hi, hnext, rfl⟩ := Program.step_advance hstep
    rw [lockGuarded, hi, Option.all_some, Bool.not_eq_true'] at hg
    obtain ⟨hjob, hmoves⟩ := moves_of_next hnext
    -- a run that has no lock yet is on a session that holds none
    have hfree : ∀ t, p.stage = .tryLock t → p.job.key ∉ s.shared.held t := by
      intro t hstage hmem
      obtain ⟨j, r, hj, hlock, -⟩ := ho.owned t _ hmem
      have hij : i ≠ j := by
        rintro rfl
        obtain rfl := Option.some.inj (hi.symm.trans hj)
        rw [hstage] at hlock
        cases hlock
      refine h.pair i j p r hij hi hj t ?_ t (Stage.session?_of_lock? hlock) rfl
      rw [hstage]
      rfl
    obtain ⟨hnodup, hkept⟩ := hmoves.kept hg ho.nodup hfree
    refine ⟨hnodup, fun t k hk => ?_, fun j j' r r' hj hj' hkey => ?_⟩
    · rcases hkept t k hk with ⟨hold, hsame⟩ | ⟨rfl, hlock⟩
      · obtain ⟨j, r, hj, hlock, hkey⟩ := ho.owned t k hold
        by_cases hij : i = j
        · subst hij
          obtain rfl := Option.some.inj (hi.symm.trans hj)
          exact ⟨i, q, (Pool.getElem?_set_eq_some hi).mpr (.inl ⟨rfl, rfl⟩),
            hsame hkey.symm hlock, by rw [hjob, hkey]⟩
        · exact ⟨j, r, (Pool.getElem?_set_eq_some hi).mpr (.inr ⟨hij, hj⟩), hlock, hkey⟩
      · exact ⟨i, q, (Pool.getElem?_set_eq_some hi).mpr (.inl ⟨rfl, rfl⟩), hlock, by rw [hjob]⟩
    · have hback : ∀ (l : ℕ) (u : Run), (s.processes.set i q)[l]? = some u →
          ∃ u', s.processes[l]? = some u' ∧ u'.job = u.job := by grind
      obtain ⟨u, hu, hju⟩ := hback j r hj
      obtain ⟨u', hu', hju'⟩ := hback j' r' hj'
      rw [← hju, ← hju'] at hkey ⊢
      exact ho.job_eq j j' u u' hu hu' hkey

def Inactive (s : Pool Sessions Run) (job : Job) : Prop :=
  ∀ r ∈ s.processes, r.job = job → r.stage.lock? = none

/-- What the locks guarantee in the run over `as`: at most one run of each kind and repository is
active; when none is, no session holds its lock, and the next attempt takes it. -/
structure LocksSafe (as : List (Pool.Action Job Event)) : Prop where
  exclusive : ∀ pre post s (i j : ℕ) (r r' : Run), as = pre ++ post →
    run maintenance.step noSessions pre = some s → s.processes[i]? = some r →
    s.processes[j]? = some r' → r.job = r'.job → r.stage.lock?.isSome → r'.stage.lock?.isSome → i = j
  released : ∀ pre post s, as = pre ++ post → run maintenance.step noSessions pre = some s →
    ∀ r ∈ s.processes, Inactive s r.job → ∀ t, r.job.key ∉ s.shared.held t
  acquires : ∀ pre post s, as = pre ++ post → run maintenance.step noSessions pre = some s →
    ∀ r ∈ s.processes, Inactive s r.job → ∀ t, r.stage = .tryLock t → ∀ choice, ∃ db',
      performStage r.job.key (.succeeds choice) s.shared r.stage = some (db', .ensureRow t)

theorem exclusive_of_run {as : List (Pool.Action Job Event)}
    (hrun : run maintenance.step noSessions as = some s) {i j : ℕ} {r r' : Run}
    (hi : s.processes[i]? = some r) (hj : s.processes[j]? = some r') (hjob : r.job = r'.job)
    (hactive : r.stage.lock?.isSome) (hactive' : r'.stage.lock?.isSome) : i = j :=
  active_unique (run_invariant (fun _ _ _ => connections_of_step) holds_noSessions hrun) hi hj
    hactive hactive' (congrArg Job.key hjob)

theorem LocksOwned.notMem_held (h : LocksOwned s) {r : Run} (hr : r ∈ s.processes)
    (hinactive : Inactive s r.job) (t : ℕ) : r.job.key ∉ s.shared.held t := by
  intro hmem
  obtain ⟨j, hj⟩ := List.getElem?_of_mem hr
  obtain ⟨i, r', hi, hlock, hkey⟩ := h.owned t _ hmem
  rw [hinactive r' (List.mem_of_getElem? hi) (h.job_eq i j r' r hi hj hkey)] at hlock
  cases hlock

theorem performStage_tryLock {t : ℕ} (choice : Option ℕ) (hfree : ∀ t', key ∉ db.held t') :
    ∃ db', performStage key (.succeeds choice) db (.tryLock t) = some (db', .ensureRow t) := by
  simp_all [performStage, tryAdvisoryLock_of_forall]

/-- **Maintenance runs exclude each other and release their locks**, in a run in which no step leaks
a lock, and no two of the jobs share one. -/
theorem locks_safe {as : List (Pool.Action Job Event)}
    (h : StepsOk maintenance.step (fun s a => lockGuarded s a = true) noSessions as) :
    LocksSafe as := by
  have howned : ∀ pre post s, as = pre ++ post →
      run maintenance.step noSessions pre = some s → LocksOwned s := by
    rintro pre post s rfl hrun
    have hempty : LocksOwned noSessions :=
      ⟨fun _ => List.nodup_nil, fun _ _ hmem => (by cases hmem), fun _ _ _ _ hi => (by cases hi)⟩
    exact (run_invariant_of_stepsOk (I := fun t => Pool.Holds lockInvariant t ∧ LocksOwned t)
      (fun t a t' ht hg hstep => ⟨connections_of_step ht.1 hstep, owned_of_step ht.1 ht.2 hg hstep⟩)
      ⟨holds_noSessions, hempty⟩ ( StepsOk.prefix h) hrun).2
  exact
    { exclusive := fun _ _ _ _ _ _ _ _ hrun hi hj hjob hactive hactive' =>
        exclusive_of_run hrun hi hj hjob hactive hactive'
      released := fun pre post s has hrun _ hr hinactive =>
        (howned pre post s has hrun).notMem_held hr hinactive
      acquires := fun pre post s has hrun r hr hinactive t hstage choice => by
        rw [hstage]
        exact performStage_tryLock choice ((howned pre post s has hrun).notMem_held hr hinactive) }

/-! ### A run, and one that is dropped -/

def demoJob : Job := ⟨.packageRetention, 5⟩

/-- A retention runs beside a refresh, and keeps another one from running. -/
def demoRun : List (Pool.Action Job Event) :=
  [.start demoJob, .start ⟨.debProxyRefresh, 5⟩, .start demoJob,
    .advance 0 (.succeeds none), .advance 1 (.succeeds none), .advance 2 (.succeeds none),
    .advance 0 (.succeeds none), .advance 1 (.succeeds none), .advance 2 (.succeeds none),
    .advance 0 (.succeeds none), .advance 1 .fails,
    .advance 0 (.succeeds none), .advance 0 .continues, .advance 0 .fails,
    .advance 0 (.succeeds none), .advance 0 (.succeeds none),
    .start demoJob, .advance 3 (.succeeds (some 0)), .advance 3 (.succeeds none)]

theorem locks_safe_demo : LocksSafe demoRun := locks_safe (by decide)

structure ConnectionsApart (s : Pool Sessions Run) : Prop where
  nodup : s.shared.idle.Nodup
  busy : ∀ (i : ℕ) (r : Run), s.processes[i]? = some r → ∀ t ∈ r.stage.session?, t ∉ s.shared.idle
  apart : ∀ (i j : ℕ) (r r' : Run), s.processes[i]? = some r → s.processes[j]? = some r' →
    ∀ t ∈ r.stage.session?, t ∈ r'.stage.session? → i = j
  locked : ∀ r ∈ s.processes, ∀ t ∈ r.stage.lock?, r.job.key ∈ s.shared.held t

/-- **No connection is used twice**, whatever fails: it is idle or with one run, and a run that has
taken its lock has it on its own connection. -/
theorem connections_apart {as : List (Pool.Action Job Event)}
    (hrun : run maintenance.step noSessions as = some s) : ConnectionsApart s := by
  have h := run_invariant (fun _ _ _ => connections_of_step) holds_noSessions hrun
  refine ⟨h.shared.nodup, fun i r hi t ht => ((h.each i r hi).session t ht).2, ?_, fun r hr => ?_⟩
  · intro i j r r' hi hj t ht ht'
    by_contra hij
    exact h.pair i j r r' hij hi hj t ht t ht' rfl
  · obtain ⟨i, hi⟩ := List.getElem?_of_mem hr
    exact (h.each i r hi).lock

theorem connections_apart_demo :
    ∃ s, run maintenance.step noSessions demoRun = some s ∧ ConnectionsApart s := by
  obtain ⟨s, hs⟩ := Option.isSome_iff_exists.mp
    (by decide : (run maintenance.step noSessions demoRun).isSome = true)
  exact ⟨s, hs, connections_apart hs⟩

def droppedRun : List (Pool.Action Job Event) :=
  [.start demoJob] ++ List.replicate 4 (.advance 0 (.succeeds none)) ++ [.advance 0 .dropped]

/-- Its lock stays with a connection of the pool, where no attempt on another connection gets it. -/
theorem not_locksSafe_dropped : ¬ LocksSafe droppedRun := by
  intro h
  have hrun : (run maintenance.step noSessions droppedRun).any (fun s =>
      decide (s.processes = [⟨demoJob, .done .dropped⟩] ∧ demoJob.key ∈ s.shared.held 0)) = true := by
    decide
  obtain ⟨s, hs, hheld⟩ := (Option.any_eq_true _ _).mp hrun
  obtain ⟨hprocesses, hheld⟩ := of_decide_eq_true hheld
  refine h.released droppedRun [] s (List.append_nil _).symm hs ⟨demoJob, .done .dropped⟩ ?_ ?_ 0 hheld
  · rw [hprocesses]
    exact List.mem_singleton_self _
  · intro r hr _
    rw [hprocesses, List.mem_singleton] at hr
    rw [hr]
    rfl

end Pkgly.Maintenance
