import Pkgly.Algorithm.Run

/-!
# Interleaved processes over a shared state

A `Program` says how a process starts on an input and what one of its atomic steps does to the
shared state and to the process itself; a `Pool` is the shared state with the processes that have
been started.  An action starts a process or lets one of them take its next step, so that a run
(`Algorithm/Run`) is an interleaving of processes that may start at any time.

An `Invariant` of a pool speaks of the shared state, of each process, and of every two of them.
`Holds.of_step` is the rule that keeps it: the process that moves keeps its own part, and does
not interfere with the others.  `Guarded` is the condition on an action that the next step of its
process meets a condition on the step.
-/

namespace Pkgly

structure Pool (σ π : Type*) where
  shared : σ
  processes : List π

namespace Pool

/-- Start a process, or let one of them take its next step. -/
inductive Action (ι χ : Type*)
  | start (input : ι)
  | advance (i : ℕ) (choice : χ)
deriving DecidableEq

end Pool

/-- How a process starts, and one step of it; a process without a next step has ended. -/
structure Program (σ π ι χ : Type*) where
  init : ι → π
  next : χ → σ → π → Option (σ × π)

variable {σ π ι χ : Type*}

namespace Program

def step (prog : Program σ π ι χ) (s : Pool σ π) : Pool.Action ι χ → Option (Pool σ π)
  | .start input => some { s with processes := s.processes ++ [prog.init input] }
  | .advance i choice =>
    s.processes[i]?.bind fun p =>
      (prog.next choice s.shared p).map fun r => ⟨r.1, s.processes.set i r.2⟩

/-- The process that moves meets `guard`. -/
def Guarded (guard : χ → σ → π → Prop) (s : Pool σ π) : Pool.Action ι χ → Prop
  | .start _ => True
  | .advance i choice => ∀ p ∈ s.processes[i]?, guard choice s.shared p

instance {guard : χ → σ → π → Prop} [∀ c t p, Decidable (guard c t p)] (s : Pool σ π)
    (a : Pool.Action ι χ) : Decidable (Guarded guard s a) :=
  match a with
  | .start _ => isTrue trivial
  | .advance i choice =>
    match h : s.processes[i]? with
    | none => isTrue fun p hp => by rw [h] at hp; cases hp
    | some p => decidable_of_iff (guard choice s.shared p) (by simp [Guarded, h])

theorem step_advance {prog : Program σ π ι χ} {s s' : Pool σ π} {i : ℕ} {choice : χ}
    (h : prog.step s (.advance i choice) = some s') :
    ∃ p t q, s.processes[i]? = some p ∧ prog.next choice s.shared p = some (t, q) ∧
      s' = ⟨t, s.processes.set i q⟩ := by
  obtain ⟨p, hp, hr⟩ := Option.bind_eq_some_iff.mp h
  aesop

end Program

namespace Pool

/-- The process at `j` after the one at `i` has become `q`. -/
theorem getElem?_set_eq_some {processes : List π} {i j : ℕ} {p q r : π}
    (hi : processes[i]? = some p) :
    (processes.set i q)[j]? = some r ↔ i = j ∧ q = r ∨ i ≠ j ∧ processes[j]? = some r := by
  grind

theorem getElem?_concat_eq_some {processes : List π} {j : ℕ} {q r : π} :
    (processes ++ [q])[j]? = some r ↔
      processes[j]? = some r ∨ j = processes.length ∧ q = r := by
  rw [List.getElem?_append]
  grind

/-- What holds of the shared state, of each process, and of every two processes. -/
structure Invariant (σ π : Type*) where
  shared : σ → Prop
  each : σ → π → Prop
  pair : π → π → Prop

structure Holds (I : Invariant σ π) (s : Pool σ π) : Prop where
  shared : I.shared s.shared
  each : ∀ (i : ℕ) (p : π), s.processes[i]? = some p → I.each s.shared p
  pair : ∀ (i j : ℕ) (p q : π), i ≠ j → s.processes[i]? = some p → s.processes[j]? = some q → I.pair p q

/-- Without processes only the shared state counts. -/
theorem holds_nil {I : Invariant σ π} {t : σ} (h : I.shared t) : Holds I ⟨t, []⟩ where
  shared := h
  each i p hp := by cases hp
  pair i j p q _ hp := by cases hp

/-- **Interference freedom**: a step keeps the invariant if a process that starts has its part of
it, and one that moves keeps its own part and that of the others. -/
theorem Holds.of_step {prog : Program σ π ι χ} {I : Invariant σ π} {s s' : Pool σ π}
    {a : Action ι χ} (h : Holds I s) (hstep : prog.step s a = some s')
    (hstart : ∀ input, a = .start input → I.each s.shared (prog.init input) ∧
      ∀ p, I.pair p (prog.init input) ∧ I.pair (prog.init input) p)
    (hadvance : ∀ (i : ℕ) (choice : χ) (p : π) (t : σ) (q : π), a = .advance i choice → s.processes[i]? = some p →
      prog.next choice s.shared p = some (t, q) → I.shared t ∧ I.each t q ∧
        ∀ (j : ℕ) (r : π), i ≠ j → s.processes[j]? = some r → I.each t r ∧ I.pair q r ∧ I.pair r q) :
    Holds I s' := by
  cases a with
  | start input =>
    obtain rfl := Option.some.inj hstep
    obtain ⟨heach, hpair⟩ := hstart input rfl
    refine ⟨h.shared, fun j r hr => ?_, fun j k r u hjk hr hu => ?_⟩
    · rcases getElem?_concat_eq_some.mp hr with hr | ⟨-, rfl⟩
      · exact h.each j r hr
      · exact heach
    · rcases getElem?_concat_eq_some.mp hr with hr | ⟨rfl, rfl⟩
      · rcases getElem?_concat_eq_some.mp hu with hu | ⟨-, rfl⟩
        · exact h.pair j k r u hjk hr hu
        · exact (hpair r).1
      · exact (hpair u).2
  | advance i choice =>
    obtain ⟨p, t, q, hp, hnext, rfl⟩ := Program.step_advance hstep
    obtain ⟨hshared, heach, hother⟩ := hadvance i choice p t q rfl hp hnext
    refine ⟨hshared, fun j r hr => ?_, fun j k r u hjk hr hu => ?_⟩
    · rcases (getElem?_set_eq_some hp).mp hr with ⟨-, rfl⟩ | ⟨hij, hr⟩
      · exact heach
      · exact (hother j r hij hr).1
    · rcases (getElem?_set_eq_some hp).mp hr with ⟨rfl, rfl⟩ | ⟨hij, hr⟩
      · rcases (getElem?_set_eq_some hp).mp hu with ⟨rfl, -⟩ | ⟨hik, hu⟩
        · exact absurd rfl hjk
        · exact (hother k u hik hu).2.1
      · rcases (getElem?_set_eq_some hp).mp hu with ⟨rfl, rfl⟩ | ⟨-, hu⟩
        · exact (hother j r hij hr).2.2
        · exact h.pair j k r u hjk hr hu

theorem keeps_of_run {prog : Program σ π ι χ} {P : π → Prop}
    (h : ∀ choice t p t' q, prog.next choice t p = some (t', q) → P p → P q) {s s' : Pool σ π}
    {as : List (Action ι χ)} (hrun : run prog.step s as = some s') {i : ℕ} {p : π}
    (hi : s.processes[i]? = some p) (hp : P p) : ∃ q, s'.processes[i]? = some q ∧ P q := by
  refine run_invariant (I := fun t => ∃ q, t.processes[i]? = some q ∧ P q) ?_ ⟨p, hi, hp⟩ hrun
  rintro t a t' ⟨q, hq, hP⟩ hstep
  cases a with
  | start input =>
    obtain rfl := Option.some.inj hstep
    exact ⟨q, getElem?_concat_eq_some.mpr (.inl hq), hP⟩
  | advance j choice =>
    obtain ⟨r, u, r', hr, hnext, rfl⟩ := Program.step_advance hstep
    grind

end Pool

end Pkgly
