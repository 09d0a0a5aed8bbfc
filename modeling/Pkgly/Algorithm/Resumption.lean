import Pkgly.Algorithm.Pool

/-!
# Computations by atomic steps

A `Resumption` is a computation that takes one labelled step after another on a state, and ends with
a value or an error.  How a step goes is up to the environment, which makes a choice.  Resumptions
are put together in `do` blocks from single steps (`act`), with `throw` and `tryCatch`.

* `Steps` says something of every step of a computation.
* `Ends` is a computation that runs alone; `ends_bind` takes it apart.
* `perform` runs a computation alone, with the labels of its steps.
* `program` lets many computations run at once over a shared state, each with a state of its own
  (`Algorithm/Pool`).  `Safe` is the proof rule for one of them, given what the steps of the others
  keep (`Protocol`): it is shown along the structure of the computation (`safe_bind`, `safe_act`,
  `safe_tryCatch`), and holds of all computations in every run (`safe_of_run`).
-/

namespace Pkgly

inductive Resumption (ℓ χ σ ε α : Type)
  | done (result : Except ε α)
  | step (label : ℓ) (effect : χ → σ → σ) (rest : χ → σ → Resumption ℓ χ σ ε α)

namespace Resumption

variable {ℓ χ σ ε α β : Type}

/-! ### Computations -/

def bind : Resumption ℓ χ σ ε α → (α → Resumption ℓ χ σ ε β) → Resumption ℓ χ σ ε β
  | done (.ok a), k => k a
  | done (.error e), _ => done (.error e)
  | step label effect rest, k => step label effect fun c s => (rest c s).bind k

def handle : Resumption ℓ χ σ ε α → (ε → Resumption ℓ χ σ ε α) → Resumption ℓ χ σ ε α
  | done (.ok a), _ => done (.ok a)
  | done (.error e), k => k e
  | step label effect rest, k => step label effect fun c s => (rest c s).handle k

instance : Monad (Resumption ℓ χ σ ε) where
  pure a := done (.ok a)
  bind := bind

instance : MonadExceptOf ε (Resumption ℓ χ σ ε) where
  throw e := done (.error e)
  tryCatch := handle

def act (label : ℓ) (f : χ → σ → Except ε α × σ) : Resumption ℓ χ σ ε α :=
  step label (fun c s => (f c s).2) fun c s => done (f c s).1

def zoom {τ : Type} (get : τ → σ) (set : ℓ → τ → σ → τ) :
    Resumption ℓ χ σ ε α → Resumption ℓ χ τ ε α
  | done r => done r
  | step label effect rest =>
    step label (fun c t => set label t (effect c (get t))) fun c t => (rest c (get t)).zoom get set

def hasEnded : Resumption ℓ χ σ ε α → Bool
  | done _ => true
  | step _ _ _ => false

variable {m : Resumption ℓ χ σ ε α} {k : α → Resumption ℓ χ σ ε β} {s s' : σ}

theorem pure_bind (a : α) : (pure a >>= k : Resumption ℓ χ σ ε β) = k a := rfl

section Zoom

variable {τ : Type} {get : τ → σ} {set : ℓ → τ → σ → τ}

theorem zoom_bind (m : Resumption ℓ χ σ ε α) (k : α → Resumption ℓ χ σ ε β) :
    (m >>= k).zoom get set = m.zoom get set >>= fun a => (k a).zoom get set := by
  change (m.bind k).zoom get set = (m.zoom get set).bind fun a => (k a).zoom get set
  induction m with
  | done r =>
    cases r with
    | ok a => rfl
    | error e => rfl
  | step label effect rest ih =>
    rw [bind, zoom, zoom, bind]
    congr 1
    funext c t
    exact ih c (get t)

theorem zoom_handle (m : Resumption ℓ χ σ ε α) (k : ε → Resumption ℓ χ σ ε α) :
    (tryCatch m k).zoom get set = tryCatch (m.zoom get set) fun e => (k e).zoom get set := by
  change (m.handle k).zoom get set = (m.zoom get set).handle fun e => (k e).zoom get set
  induction m with
  | done r =>
    cases r with
    | ok a => rfl
    | error e => rfl
  | step label effect rest ih =>
    rw [handle, zoom, zoom, handle]
    congr 1
    funext c t
    exact ih c (get t)

end Zoom

/-- Every step of the computation is as `Φ` says. -/
def Steps (Φ : ℓ → (χ → σ → σ) → Prop) : Resumption ℓ χ σ ε α → Prop
  | done _ => True
  | step label effect rest => Φ label effect ∧ ∀ c s, (rest c s).Steps Φ

section Steps

variable {Φ Ψ : ℓ → (χ → σ → σ) → Prop}

theorem steps_pure (a : α) : (pure a : Resumption ℓ χ σ ε α).Steps Φ := trivial

theorem steps_throw (e : ε) : (throw e : Resumption ℓ χ σ ε α).Steps Φ := trivial

theorem steps_act {label : ℓ} {f : χ → σ → Except ε α × σ} (h : Φ label fun c s => (f c s).2) :
    (act label f).Steps Φ := ⟨h, fun _ _ => trivial⟩

theorem steps_bind (hm : m.Steps Φ) (hk : ∀ a, (k a).Steps Φ) : (m >>= k).Steps Φ := by
  change (m.bind k).Steps Φ
  induction m with
  | done r =>
    cases r with
    | ok a => exact hk a
    | error e => trivial
  | step label effect rest ih => exact ⟨hm.1, fun c s => ih c s (hm.2 c s)⟩

theorem steps_tryCatch {h : ε → Resumption ℓ χ σ ε α} (hm : m.Steps Φ)
    (hh : ∀ e, (h e).Steps Φ) : (tryCatch m h).Steps Φ := by
  change (m.handle h).Steps Φ
  induction m with
  | done r =>
    cases r with
    | ok a => trivial
    | error e => exact hh e
  | step label effect rest ih => exact ⟨hm.1, fun c s => ih c s (hm.2 c s)⟩

theorem Steps.mono (hm : m.Steps Φ) (h : ∀ label effect, Φ label effect → Ψ label effect) :
    m.Steps Ψ := by
  induction m with
  | done r => trivial
  | step label effect rest ih => exact ⟨h _ _ hm.1, fun c s => ih c s (hm.2 c s)⟩

theorem steps_zoom {τ : Type} {get : τ → σ} {set : ℓ → τ → σ → τ} {Θ : ℓ → (χ → τ → τ) → Prop}
    (hm : m.Steps fun label effect => Θ label fun c t => set label t (effect c (get t))) :
    (m.zoom get set).Steps Θ := by
  induction m with
  | done r => trivial
  | step label effect rest ih => exact ⟨hm.1, fun c t => ih c (get t) (hm.2 c (get t))⟩

/-- What is true of every step is true of those of a computation. -/
theorem steps_of_forall (h : ∀ label effect, Φ label effect) : m.Steps Φ := by
  induction m with
  | done r => trivial
  | step label effect rest ih => exact ⟨h _ _, fun c s => ih c s⟩

end Steps

/-! ### Alone -/

/-- Without other computations, `m` can go from one state to the other, and end with `r`. -/
inductive Ends : Resumption ℓ χ σ ε α → σ → Except ε α → σ → Prop
  | done (r : Except ε α) (s : σ) : Ends (done r) s r s
  | step {label : ℓ} {effect : χ → σ → σ} {rest : χ → σ → Resumption ℓ χ σ ε α} {s s' : σ}
      {r : Except ε α} (c : χ) (h : Ends (rest c s) (effect c s) r s') :
      Ends (step label effect rest) s r s'

variable {r : Except ε α}

theorem ends_done_iff {r' : Except ε α} :
    Ends (done r : Resumption ℓ χ σ ε α) s r' s' ↔ r' = r ∧ s' = s := by
  constructor
  · intro h
    cases h
    exact ⟨rfl, rfl⟩
  · rintro ⟨rfl, rfl⟩
    exact .done _ _

theorem ends_act_iff {label : ℓ} {f : χ → σ → Except ε α × σ} :
    Ends (act label f) s r s' ↔ ∃ c, f c s = (r, s') := by
  constructor
  · intro h
    cases h with
    | step c h =>
      obtain ⟨rfl, rfl⟩ := ends_done_iff.mp h
      exact ⟨c, rfl⟩
  · rintro ⟨c, h⟩
    refine .step c (ends_done_iff.mpr ?_)
    rw [h]
    exact ⟨rfl, rfl⟩

/-- A sequence ends with its first part, or goes on with the second one. -/
theorem ends_bind {r : Except ε β} :
    Ends (m >>= k) s r s' ↔
      (∃ a t, Ends m s (.ok a) t ∧ Ends (k a) t r s') ∨
        ∃ e, Ends m s (.error e) s' ∧ r = .error e := by
  change Ends (m.bind k) s r s' ↔ _
  constructor
  · intro h
    induction m generalizing s with
    | done r' =>
      cases r' with
      | ok a => exact .inl ⟨a, s, .done _ _, h⟩
      | error e =>
        obtain ⟨rfl, rfl⟩ := ends_done_iff.mp h
        exact .inr ⟨e, .done _ _, rfl⟩
    | step label effect rest ih =>
      cases h with
      | step c h =>
        rcases ih c s h with ⟨a, t, hm, hk⟩ | ⟨e, hm, rfl⟩
        · exact .inl ⟨a, t, .step c hm, hk⟩
        · exact .inr ⟨e, .step c hm, rfl⟩
  · rintro (⟨a, t, hm, hk⟩ | ⟨e, hm, rfl⟩)
    · generalize hr : Except.ok a = r' at hm
      induction hm with
      | done r' s =>
        subst hr
        exact hk
      | step c _ ih => exact .step c (ih hk hr)
    · generalize hr : Except.error e = r' at hm
      induction hm with
      | done r' s =>
        subst hr
        exact .done _ _
      | step c _ ih => exact .step c (ih hr)

theorem Ends.bind {r : Except ε β} {a : α} {t : σ} (h : Ends m s (.ok a) t)
    (hrest : Ends (k a) t r s') : Ends (m >>= k) s r s' := ends_bind.mpr (.inl ⟨a, t, h, hrest⟩)

theorem Ends.returns (a : α) (s : σ) : Ends (pure a : Resumption ℓ χ σ ε α) s (.ok a) s := .done _ _

/-- A first part that changes nothing when it fails, and else ends as `Q` says. -/
theorem Ends.split {Q : α → σ → Prop} {r : Except ε β} (h : Ends (m >>= k) s r s')
    (hm : ∀ r t, Ends m s r t → (∃ e, r = .error e) ∧ t = s ∨ ∃ a, r = .ok a ∧ Q a t) :
    (∃ e, r = .error e) ∧ s' = s ∨ ∃ a t, Q a t ∧ Ends (k a) t r s' := by
  rcases ends_bind.mp h with ⟨a, t, hfirst, hrest⟩ | ⟨e, hfirst, rfl⟩
  · rcases hm _ _ hfirst with ⟨⟨e, he⟩, -⟩ | ⟨b, hb, hq⟩
    · cases he
    · cases hb
      exact .inr ⟨a, t, hq, hrest⟩
  · rcases hm _ _ hfirst with ⟨-, rfl⟩ | ⟨b, hb, -⟩
    · exact .inl ⟨⟨e, rfl⟩, rfl⟩
    · cases hb

/-- Without other computations, and with the same choice at every step: the labels of the steps,
and how it ends. -/
def perform (c : χ) : Resumption ℓ χ σ ε α → σ → List ℓ × Except ε α × σ
  | done r, s => ([], r, s)
  | step label effect rest, s =>
    let r := (rest c s).perform c (effect c s)
    (label :: r.1, r.2)

@[simp] theorem perform_act (c : χ) (label : ℓ) (f : χ → σ → Except ε α × σ) (s : σ) :
    (act label f).perform c s = ([label], f c s) := rfl

theorem perform_bind_of_ok {c : χ} {labels : List ℓ} {a : α}
    (hm : m.perform c s = (labels, .ok a, s')) : (m >>= k).perform c s =
      (labels ++ ((k a).perform c s').1, ((k a).perform c s').2) := by
  change (m.bind k).perform c s = _
  induction m generalizing s labels with
  | done r =>
    cases hm
    rfl
  | step label effect rest ih =>
    obtain ⟨rfl, htail⟩ := Prod.mk.inj hm
    have hrest := ih c s (Prod.ext rfl htail)
    rw [bind, perform, hrest]
    rfl

theorem perform_bind_of_error {c : χ} {labels : List ℓ} {e : ε}
    (hm : m.perform c s = (labels, .error e, s')) :
    (m >>= k).perform c s = (labels, .error e, s') := by
  change (m.bind k).perform c s = _
  induction m generalizing s labels with
  | done r =>
    cases hm
    rfl
  | step label effect rest ih =>
    obtain ⟨rfl, htail⟩ := Prod.mk.inj hm
    have hrest := ih c s (Prod.ext rfl htail)
    rw [bind, perform, hrest]

end Resumption

/-! ### Together -/

/-- What the computations over a shared state `σ` rely on: the invariant, and what no step takes
away.  The `guard` is asked of a step, given its label, the choice, and the states before it. -/
structure Protocol (ℓ χ σ π : Type) where
  guard : ℓ → χ → σ → π → Prop
  inv : σ → Prop
  keeps : σ → σ → Prop
  keeps_refl : ∀ s, keeps s s
  keeps_trans : ∀ s t u, keeps s t → keeps t u → keeps s u

namespace Resumption

variable {ℓ χ σ π ε α β ι : Type}

/-- A computation over a shared state, with a state of its own. -/
structure Thread (ℓ χ σ π ε α : Type) where
  own : π
  task : Resumption ℓ χ (σ × π) ε α

def Thread.result (p : Thread ℓ χ σ π ε α) : Option (Except ε α) :=
  match p.task with
  | done r => some r
  | step _ _ _ => none

theorem Thread.of_result {p : Thread ℓ χ σ π ε α} {r : Except ε α} (h : p.result = some r) :
    p.task = done r := by
  obtain ⟨own, task⟩ := p
  cases task with
  | done r' =>
    cases h
    rfl
  | step label effect rest => cases h

def program (start : ι → Thread ℓ χ σ π ε α) : Program σ (Thread ℓ χ σ π ε α) ι χ where
  init := start
  next c s p :=
    match p.task with
    | done _ => none
    | step _ effect rest =>
      let t := effect c (s, p.own)
      some (t.1, ⟨t.2, rest c (s, p.own)⟩)

def Meets (guard : ℓ → χ → σ → π → Prop) (c : χ) (s : σ) (p : Thread ℓ χ σ π ε α) : Prop :=
  match p.task with
  | done _ => True
  | step label _ _ => guard label c s p.own

instance {guard : ℓ → χ → σ → π → Prop} [∀ l c s p, Decidable (guard l c s p)] (c : χ) (s : σ)
    (p : Thread ℓ χ σ π ε α) : Decidable (Meets guard c s p) := by
  unfold Meets
  split
  · exact isTrue trivial
  · infer_instance

variable {P : Protocol ℓ χ σ π} {Q Q' : Except ε α → σ → π → Prop} {s t : σ} {p : π}
  {m : Resumption ℓ χ (σ × π) ε α}

/-- Whatever other computations do between its steps, each step of `m` keeps the protocol, and `m`
ends as `Q` says. -/
def Safe (P : Protocol ℓ χ σ π) (Q : Except ε α → σ → π → Prop) :
    Resumption ℓ χ (σ × π) ε α → σ → π → Prop
  | done r, s, p => Q r s p
  | step label effect rest, s, p =>
    ∀ t, P.keeps s t → P.inv t → ∀ c, P.guard label c t p →
      P.inv (effect c (t, p)).1 ∧ P.keeps t (effect c (t, p)).1 ∧
        Safe P Q (rest c (t, p)) (effect c (t, p)).1 (effect c (t, p)).2

theorem safe_pure {a : α} (h : Q (.ok a) s p) :
    Safe P Q (pure a : Resumption ℓ χ (σ × π) ε α) s p := h

theorem safe_throw {e : ε} (h : Q (.error e) s p) :
    Safe P Q (throw e : Resumption ℓ χ (σ × π) ε α) s p := h

theorem safe_act {label : ℓ} {f : χ → σ × π → Except ε α × (σ × π)}
    (h : ∀ t, P.keeps s t → P.inv t → ∀ c, P.guard label c t p →
      P.inv (f c (t, p)).2.1 ∧ P.keeps t (f c (t, p)).2.1 ∧
        Q (f c (t, p)).1 (f c (t, p)).2.1 (f c (t, p)).2.2) :
    Safe P Q (act label f) s p := h

theorem safe_bind {Q' : Except ε β → σ → π → Prop} {k : α → Resumption ℓ χ (σ × π) ε β}
    (hm : Safe P Q m s p) (hok : ∀ a s p, Q (.ok a) s p → Safe P Q' (k a) s p)
    (herror : ∀ e s p, Q (.error e) s p → Q' (.error e) s p) :
    Safe P Q' (m >>= k) s p := by
  change Safe P Q' (m.bind k) s p
  induction m generalizing s p with
  | done r =>
    cases r with
    | ok a => exact hok a s p hm
    | error e => exact herror e s p hm
  | step label effect rest ih =>
    grind [Resumption.Safe, Resumption.bind]

theorem safe_tryCatch {h : ε → Resumption ℓ χ (σ × π) ε α} (hm : Safe P Q m s p)
    (hok : ∀ a s p, Q (.ok a) s p → Q' (.ok a) s p)
    (herror : ∀ e s p, Q (.error e) s p → Safe P Q' (h e) s p) :
    Safe P Q' (tryCatch m h) s p := by
  change Safe P Q' (m.handle h) s p
  induction m generalizing s p with
  | done r =>
    cases r with
    | ok a => exact hok a s p hm
    | error e => exact herror e s p hm
  | step label effect rest ih =>
    grind [Resumption.Safe, Resumption.handle]

theorem Safe.mono (hm : Safe P Q m s p) (h : ∀ r s p, Q r s p → Q' r s p) :
    Safe P Q' m s p := by
  induction m generalizing s p with
  | done r => exact h r s p hm
  | step label effect rest ih =>
    grind [Resumption.Safe]

theorem Safe.of_keeps (hpost : ∀ r s t p, P.keeps s t → Q r s p → Q r t p)
    (hm : Safe P Q m s p) (h : P.keeps s t) : Safe P Q m t p := by
  cases m with
  | done r => exact hpost r s t p h hm
  | step label effect rest =>
    intro u hkeeps hinv c hguard
    exact hm u (P.keeps_trans s t u h hkeeps) hinv c hguard

/-- What is held in the shared state is held by a computation, if every step that lets a
computation go of something takes it out of the shared state. -/
theorem held_of_run {κ : Type} {start : ι → Thread ℓ χ σ π ε α} (held : σ → κ → Prop)
    (holds : π → κ → Prop)
    (hstart : ∀ input, (start input).task.Steps fun _ effect => ∀ c s p k,
      held (effect c (s, p)).1 k → holds (effect c (s, p)).2 k ∨
        held s k ∧ ¬ holds p k)
    {as : List (Pool.Action ι χ)} {s₀ : σ} {s : Pool σ (Thread ℓ χ σ π ε α)}
    (hfree : ∀ k, ¬ held s₀ k) (hrun : run (program start).step ⟨s₀, []⟩ as = some s) {k : κ}
    (hk : held s.shared k) :
    ∃ (i : ℕ) (p : Thread ℓ χ σ π ε α), s.processes[i]? = some p ∧ holds p.own k := by
  let Tracked (label : ℓ) (effect : χ → σ × π → σ × π) : Prop := ∀ c s p k,
    held (effect c (s, p)).1 k → holds (effect c (s, p)).2 k ∨ held s k ∧ ¬ holds p k
  let I (s : Pool σ (Thread ℓ χ σ π ε α)) : Prop :=
    (∀ (i : ℕ) (p : Thread ℓ χ σ π ε α), s.processes[i]? = some p → p.task.Steps Tracked) ∧
      ∀ k, held s.shared k →
        ∃ (i : ℕ) (p : Thread ℓ χ σ π ε α), s.processes[i]? = some p ∧ holds p.own k
  have hI : I s := by
    have hempty : I ⟨s₀, []⟩ := ⟨fun i p hp => (by cases hp), fun k hk => absurd hk (hfree k)⟩
    refine run_invariant (I := I) ?_ hempty hrun
    rintro s a s' ⟨hsteps, hheld⟩ hstep
    cases a with
    | start input =>
      obtain rfl := Option.some.inj hstep
      refine ⟨fun i p hp => ?_, fun k hk => ?_⟩
      · rcases Pool.getElem?_concat_eq_some.mp hp with hp | ⟨-, rfl⟩
        · exact hsteps i p hp
        · exact hstart input
      · obtain ⟨i, p, hp, hholds⟩ := hheld k hk
        exact ⟨i, p, Pool.getElem?_concat_eq_some.mpr (.inl hp), hholds⟩
    | advance i c =>
      obtain ⟨⟨own, task⟩, t, q, hp, hnext, rfl⟩ := Program.step_advance hstep
      cases task with
      | done r => cases hnext
      | step label effect rest =>
        cases hnext
        obtain ⟨htracked, hrest⟩ := hsteps i _ hp
        refine ⟨fun j p hj => ?_, fun k hk => ?_⟩
        · grind
        · rcases htracked c s.shared own k hk with hholds | ⟨hk, hnot⟩
          · exact ⟨i, _, (Pool.getElem?_set_eq_some hp).mpr (.inl ⟨rfl, rfl⟩), hholds⟩
          · -- it is held by another computation
            obtain ⟨j, p, hj, hholds⟩ := hheld k hk
            have hij : i ≠ j := by grind
            exact ⟨j, p, (Pool.getElem?_set_eq_some hp).mpr (.inr ⟨hij, hj⟩), hholds⟩
  exact hI.2 k hk

/-- **In every run** whose steps meet the guard, the invariant holds and all computations are
safe. -/
theorem safe_of_run {start : ι → Thread ℓ χ σ π ε α}
    (hpost : ∀ r s t p, P.keeps s t → Q r s p → Q r t p)
    (hstart : ∀ input s, P.inv s → Safe P Q (start input).task s (start input).own)
    {as : List (Pool.Action ι χ)} {s₀ : σ} {s : Pool σ (Thread ℓ χ σ π ε α)} (hinv : P.inv s₀)
    (hguard : StepsOk (program start).step (Program.Guarded (Meets P.guard)) ⟨s₀, []⟩ as)
    (hrun : run (program start).step ⟨s₀, []⟩ as = some s) :
    P.inv s.shared ∧ P.keeps s₀ s.shared ∧
      ∀ (i : ℕ) (p : Thread ℓ χ σ π ε α), s.processes[i]? = some p →
        Safe P Q p.task s.shared p.own := by
  let I : Pool.Invariant σ (Thread ℓ χ σ π ε α) :=
    ⟨fun t => P.inv t ∧ P.keeps s₀ t, fun t p => Safe P Q p.task t p.own, fun _ _ => True⟩
  have hholds : Pool.Holds I s := by
    refine run_invariant_of_stepsOk (I := Pool.Holds I) ?_
      (Pool.holds_nil ⟨hinv, P.keeps_refl s₀⟩) hguard hrun
    intro s a s' hholds hmeets hstep
    refine hholds.of_step hstep (fun input _ => ?_) (fun i c p t q ha hp hnext => ?_)
    · exact ⟨hstart input _ hholds.shared.1, fun _ => ⟨trivial, trivial⟩⟩
    · subst ha
      obtain ⟨own, task⟩ := p
      cases task with
      | done r => cases hnext
      | step label effect rest =>
        cases hnext
        obtain ⟨hinv', hkeeps, hrest⟩ := hholds.each i _ hp s.shared (P.keeps_refl _)
          hholds.shared.1 c (hmeets _ hp)
        exact ⟨⟨hinv', P.keeps_trans _ _ _ hholds.shared.2 hkeeps⟩, hrest, fun j r _ hr =>
          ⟨(hholds.each j r hr).of_keeps hpost hkeeps, trivial, trivial⟩⟩
  exact ⟨hholds.shared.1, hholds.shared.2, hholds.each⟩

theorem run_of_ends (start : ι → Thread ℓ χ σ π ε α) (processes : List (Thread ℓ χ σ π ε α))
    {r : Except ε α} {t : σ × π} {u : σ × π} {m : Resumption ℓ χ (σ × π) ε α}
    (h : Ends m t r u) :
    ∃ as : List (Pool.Action ι χ),
      run (program start).step ⟨t.1, processes ++ [⟨t.2, m⟩]⟩ as =
        some ⟨u.1, processes ++ [⟨u.2, done r⟩]⟩ := by
  induction h with
  | done r t => exact ⟨[], rfl⟩
  | @step label effect rest t u r c h ih =>
    obtain ⟨as, has⟩ := ih
    have hstep : (program start).step ⟨t.1, processes ++ [⟨t.2, step label effect rest⟩]⟩
        (.advance processes.length c) =
          some ⟨(effect c t).1, processes ++ [⟨(effect c t).2, rest c t⟩]⟩ := by
      simp [Program.step, program]
    refine ⟨.advance processes.length c :: as, ?_⟩
    rw [run_cons, hstep, Option.bind_some, has]

end Resumption

end Pkgly
