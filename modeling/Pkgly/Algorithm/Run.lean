import Mathlib.Data.Option.Basic
import Mathlib.Data.List.Basic

/-!
# Runs of a partial step function

A system is a partial step function `step : σ → α → Option σ`: `step s a = some s'` says that the
action `a` is enabled in `s` and leads to `s'`.  `run step s as` executes a whole list of actions.
Two rules carry every safety proof over such a system:

* `run_invariant`: a property kept by every step is kept by every run;
* `run_invariant_of_stepsOk`: the same when only the steps meeting a condition `P` on the action
  and the state before it keep the property, for the runs all of whose steps meet it
  (`StepsOk`); `StepsOk.of_invariant` says the same of conditions on the steps;
  `stepsOk_of_prefixes`, `stepsOk_iff_of_run`, `stepsOk_iff_of_prefixes` and
  `stepsOk_iff_of_prefixes_of_invariant` are converses.

`run_append` cuts a run in two, which is how a statement about "before" and "after" is phrased.
-/

namespace Pkgly

variable {σ α : Type*} {step : σ → α → Option σ}

/-- Execute the actions `as` one after another; `none` as soon as one of them is not enabled. -/
def run (step : σ → α → Option σ) : σ → List α → Option σ
  | s, [] => some s
  | s, a :: as => (step s a).bind fun s' => run step s' as

theorem run_cons (s : σ) (a : α) (as : List α) :
    run step s (a :: as) = (step s a).bind fun s' => run step s' as := rfl

variable {as : List α} {s s' : σ} {P Q : σ → α → Prop} {I : σ → Prop}

theorem run_cons_eq_some {a : α} :
    run step s (a :: as) = some s' ↔ ∃ t, step s a = some t ∧ run step t as = some s' := by
  rw [run_cons, Option.bind_eq_some_iff]

theorem run_append (s : σ) (as bs : List α) :
    run step s (as ++ bs) = (run step s as).bind fun s' => run step s' bs := by
  induction as generalizing s with
  | nil => rfl
  | cons a as ih =>
    rw [List.cons_append, run_cons, run_cons, Option.bind_assoc]
    exact congrArg _ (funext ih)

/-- A run over `as ++ bs` passes through the state reached after `as`. -/
theorem run_append_eq_some {bs : List α} :
    run step s (as ++ bs) = some s' ↔ ∃ t, run step s as = some t ∧ run step t bs = some s' := by
  rw [run_append, Option.bind_eq_some_iff]

/-- Every step of the run over `as` from `s` meets `P` in the state before it. -/
def StepsOk (step : σ → α → Option σ) (P : σ → α → Prop) : σ → List α → Prop
  | _, [] => True
  | s, a :: as => P s a ∧ ∀ s', step s a = some s' → StepsOk step P s' as

theorem stepsOk_cons_iff {a : α} (h : step s a = some s') :
    P s a ∧ StepsOk step P s' as ↔ StepsOk step P s (a :: as) := by
  refine and_congr_right fun _ => ⟨fun hs t ht => ?_, fun hs => hs s' h⟩
  rwa [← Option.some.inj (h.symm.trans ht)]

theorem stepsOk_cons_iff_of_none {a : α}
    (h : step s a = none) : P s a ↔ StepsOk step P s (a :: as) := by
  refine (and_iff_left fun t ht => ?_).symm
  rw [h] at ht
  cases ht

instance decidableStepsOk {P : σ → α → Prop} [∀ s a, Decidable (P s a)] :
    ∀ s as, Decidable (StepsOk step P s as)
  | _, [] => isTrue trivial
  | s, a :: as =>
    match h : step s a with
    | none => decidable_of_iff (P s a) (stepsOk_cons_iff_of_none h)
    | some s' =>
      haveI : Decidable (StepsOk step P s' as) := decidableStepsOk s' as
      decidable_of_iff (P s a ∧ StepsOk step P s' as) (stepsOk_cons_iff h)

theorem stepsOk_of_forall (h : ∀ s a, P s a) (s : σ) (as : List α) : StepsOk step P s as := by
  induction as generalizing s with
  | nil => trivial
  | cons a as ih => exact ⟨h s a, fun s' _ => ih s'⟩

/-- A condition on the actions alone is one on the list of actions. -/
theorem stepsOk_of_mem {P : α → Prop} (h : ∀ a ∈ as, P a) (s : σ) :
    StepsOk step (fun _ a => P a) s as := by
  induction as generalizing s with
  | nil => trivial
  | cons a as ih =>
    exact ⟨h a List.mem_cons_self, fun s' _ => ih (fun b hb => h b (List.mem_cons_of_mem a hb)) s'⟩

theorem StepsOk.and (h : StepsOk step P s as)
    (h' : StepsOk step Q s as) : StepsOk step (fun s a => P s a ∧ Q s a) s as := by
  induction as generalizing s with
  | nil => trivial
  | cons a as ih => exact ⟨⟨h.1, h'.1⟩, fun s' hs => ih (h.2 s' hs) (h'.2 s' hs)⟩

theorem StepsOk.prefix {bs : List α} (h : StepsOk step P s (as ++ bs)) : StepsOk step P s as := by
  induction as generalizing s with
  | nil => trivial
  | cons a as ih => exact ⟨h.1, fun s' hs => ih (h.2 s' hs)⟩

theorem StepsOk.suffix {t : σ} {bs : List α}
    (h : StepsOk step P s (as ++ bs)) (hr : run step s as = some t) : StepsOk step P t bs := by
  induction as generalizing s with
  | nil =>
    obtain rfl := Option.some.inj hr
    exact h
  | cons a as ih =>
    obtain ⟨u, hu, hrun⟩ := run_cons_eq_some.mp hr
    exact ih (h.2 u hu) hrun

/-- **The invariant rule**, for runs whose steps meet `P`. -/
theorem run_invariant_of_stepsOk (hstep : ∀ s a s', I s → P s a → step s a = some s' → I s')
    (hs : I s) (hP : StepsOk step P s as) (hr : run step s as = some s') : I s' := by
  induction as generalizing s with
  | nil => exact Option.some.inj hr ▸ hs
  | cons a as ih =>
    obtain ⟨t, ht, hrun⟩ := run_cons_eq_some.mp hr
    exact ih (hstep s a t hs hP.1 ht) (hP.2 t ht) hrun

/-- What follows from the invariant and `P` holds at every step of a run whose steps meet `P`. -/
theorem StepsOk.of_invariant (hstep : ∀ s a s', I s → P s a → step s a = some s' → I s')
    (hQ : ∀ s a, I s → P s a → Q s a) (hs : I s)
    (hP : StepsOk step P s as) : StepsOk step Q s as := by
  induction as generalizing s with
  | nil => trivial
  | cons a as ih => exact ⟨hQ s a hs hP.1, fun t ht => ih (hstep s a t hs hP.1 ht) (hP.2 t ht)⟩

/-- Two conditions that are the same wherever the invariant holds, which a step under one of them
keeps, are met by the same runs. -/
theorem stepsOk_iff_of_invariant (hstep : ∀ s a s', I s → P s a → step s a = some s' → I s')
    (hiff : ∀ s a, I s → (P s a ↔ Q s a)) (hs : I s) :
    StepsOk step P s as ↔ StepsOk step Q s as := by
  constructor
  · exact StepsOk.of_invariant hstep (fun s a hI => (hiff s a hI).mp) hs
  · refine StepsOk.of_invariant (fun s a s' hI hQ => ?_) (fun s a hI => (hiff s a hI).mpr) hs
    exact hstep s a s' hI ((hiff s a hI).mpr hQ)

/-- **The invariant rule**: what every step keeps, every run keeps. -/
theorem run_invariant (hstep : ∀ s a s', I s → step s a = some s' → I s')
    (hs : I s) (hr : run step s as = some s') : I s' :=
  run_invariant_of_stepsOk (P := fun _ _ => True) (fun s a s' h _ => hstep s a s' h) hs
    (stepsOk_of_forall (fun _ _ => trivial) s as) hr

/-- The converse of the invariant rule, for a total step: if the invariant holds wherever a run
gets, and a step can reach it only under `P`, then all steps of the run meet `P`. -/
theorem stepsOk_of_prefixes (htotal : ∀ s a, ∃ s', step s a = some s')
    (hP : ∀ s a s', step s a = some s' → I s' → P s a)
    (hI : ∀ pre t, pre <+: as → run step s pre = some t → I t) : StepsOk step P s as := by
  induction as generalizing s with
  | nil => trivial
  | cons a as ih =>
    obtain ⟨s', hs'⟩ := htotal s a
    have hone : run step s [a] = some s' := by rw [run_cons, hs']; rfl
    refine ⟨hP s a s' hs' (hI [a] s' (List.prefix_append [a] as) hone), fun t ht => ?_⟩
    refine ih fun pre u hpre hu => hI (a :: pre) u (List.cons_prefix_cons.mpr ⟨rfl, hpre⟩) ?_
    rw [run_cons, ht]
    exact hu

/-- If each step keeps `Q` exactly under `P`, a run ends in `Q` exactly if it starts in `Q` and all
of its steps meet `P`. -/
theorem stepsOk_iff_of_run {Q : σ → Prop} (hI : ∀ s a s', I s → step s a = some s' → I s')
    (hQ : ∀ s a s', I s → step s a = some s' → (Q s' ↔ Q s ∧ P s a))
    (hs : I s) (hr : run step s as = some s') : Q s' ↔ Q s ∧ StepsOk step P s as := by
  induction as generalizing s with
  | nil =>
    obtain rfl := Option.some.inj hr
    exact (and_iff_left trivial).symm
  | cons a as ih =>
    obtain ⟨t, ht, hrun⟩ := run_cons_eq_some.mp hr
    rw [ih (hI s a t hs ht) hrun, hQ s a t hs ht, and_assoc, stepsOk_cons_iff ht]

/-- If a step from `I` and `Q` keeps `I`, and leads to `Q` exactly under `P`, a run stays in `Q`
exactly if all of its steps meet `P`. -/
theorem stepsOk_iff_of_prefixes_of_invariant {Q : σ → Prop}
    (hstep : ∀ s a s', I s → Q s → step s a = some s' → I s' ∧ (Q s' ↔ P s a))
    (hI : I s) (hs : Q s) (hr : run step s as = some s') :
    (∀ pre t, pre <+: as → run step s pre = some t → Q t) ↔ StepsOk step P s as := by
  induction as generalizing s with
  | nil =>
    refine iff_of_true (fun pre t hpre ht => ?_) trivial
    obtain rfl := List.prefix_nil.mp hpre
    exact Option.some.inj ht ▸ hs
  | cons a as ih =>
    obtain ⟨t, ht, hrun⟩ := run_cons_eq_some.mp hr
    obtain ⟨htI, hQ⟩ := hstep s a t hI hs ht
    rw [← stepsOk_cons_iff ht, ← hQ]
    constructor
    · intro hall
      have hone : run step s [a] = some t := by rw [run_cons, ht]; rfl
      have htQ := hall [a] t (List.prefix_append [a] as) hone
      refine ⟨htQ, (ih htI htQ hrun).mp fun pre u hpre hu => ?_⟩
      refine hall (a :: pre) u (List.cons_prefix_cons.mpr ⟨rfl, hpre⟩) ?_
      rw [run_cons, ht]
      exact hu
    · rintro ⟨htQ, hsteps⟩ pre u hpre hu
      cases pre with
      | nil => exact Option.some.inj hu ▸ hs
      | cons b pre =>
        obtain ⟨rfl, htail⟩ := List.cons_prefix_cons.mp hpre
        rw [run_cons, ht] at hu
        exact (ih htI htQ hrun).mpr hsteps pre u htail hu

/-- If a step from `Q` leads to `Q` exactly under `P`, a run stays in `Q` exactly if all of its
steps meet `P`. -/
theorem stepsOk_iff_of_prefixes {Q : σ → Prop}
    (hQ : ∀ s a s', Q s → step s a = some s' → (Q s' ↔ P s a))
    (hs : Q s) (hr : run step s as = some s') :
    (∀ pre t, pre <+: as → run step s pre = some t → Q t) ↔ StepsOk step P s as :=
  stepsOk_iff_of_prefixes_of_invariant (I := fun _ => True)
    (fun s a s' _ h hs => ⟨trivial, hQ s a s' h hs⟩) trivial hs hr

end Pkgly
