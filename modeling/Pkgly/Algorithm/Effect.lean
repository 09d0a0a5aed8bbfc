import Mathlib.Init

/-!
# Effects that may fail half way

An `EStateM ε σ α` computation that fails keeps the state it has reached, as a sequence of system
calls does.  Two rules carry the proofs about such computations through `>>=`:

* `KeepsAt.bind`: a transitive relation between the states before and after, for every end of the
  computation (`KeepsAt`);
* `AgreeAt.bind`: started in two related states, two computations give the same answer and end in
  related states (`AgreeAt`).
-/

namespace Pkgly.Effect

universe u

variable {ε σ α β : Type u}

def endState : EStateM.Result ε σ α → σ
  | .ok _ s => s
  | .error _ s => s

def answer : EStateM.Result ε σ α → Except ε α
  | .ok a _ => .ok a
  | .error e _ => .error e

/-- Started in `s`, the computation ends in a state that `R` relates to `s`. -/
def KeepsAt (R : σ → σ → Prop) (m : EStateM ε σ α) (s : σ) : Prop := R s (endState (m s))

/-- Started in the two states, the two computations give one answer and end in states that `R`
relates. -/
def AgreeAt (R : σ → σ → Prop) (m n : EStateM ε σ α) (s t : σ) : Prop :=
  answer (m s) = answer (n t) ∧ R (endState (m s)) (endState (n t))

variable {R : σ → σ → Prop} {m n : EStateM ε σ α} {f g : α → EStateM ε σ β} {s t : σ}

theorem bind_of_ok {a : α} {s' : σ} (h : m s = .ok a s') : (m >>= f) s = f a s' := by
  change EStateM.bind m f s = _
  rw [EStateM.bind, h]

theorem bind_of_error {e : ε} {s' : σ} (h : m s = .error e s') :
    (m >>= f) s = .error e s' := by
  change EStateM.bind m f s = _
  rw [EStateM.bind, h]

theorem KeepsAt.bind (htrans : ∀ {s t u}, R s t → R t u → R s u) (hm : KeepsAt R m s)
    (hf : ∀ a s', m s = .ok a s' → R s s' → KeepsAt R (f a) s') : KeepsAt R (m >>= f) s := by
  unfold KeepsAt at hm ⊢
  cases h : m s with
  | ok a s' =>
    rw [h] at hm
    rw [bind_of_ok h]
    exact htrans hm (hf a s' h hm)
  | error e s' =>
    rw [h] at hm
    rw [bind_of_error h]
    exact hm

theorem KeepsAt.mono {R' : σ → σ → Prop} (hm : KeepsAt R m s) (h : ∀ s', R s s' → R' s s') :
    KeepsAt R' m s := h _ hm

theorem KeepsAt.discard {R : σ → σ → Prop} {m : EStateM ε σ α} {s : σ} (hm : KeepsAt R m s) :
    KeepsAt R (Functor.discard m) s := by
  unfold KeepsAt at hm ⊢
  change R s (endState (EStateM.map _ m s))
  grind [EStateM.map, endState]

/-- A computation that only looks at the state, followed by another. -/
theorem KeepsAt.bind_of_look {a : α} (hm : m s = .ok a s) (hf : KeepsAt R (f a) s) :
    KeepsAt R (m >>= f) s := by
  unfold KeepsAt
  rw [bind_of_ok hm]
  exact hf

theorem AgreeAt.bind (hm : AgreeAt R m n s t)
    (hf : ∀ a s' t', m s = .ok a s' → n t = .ok a t' → R s' t' → AgreeAt R (f a) (g a) s' t') :
    AgreeAt R (m >>= f) (n >>= g) s t := by
  unfold AgreeAt at hm ⊢
  cases hs : m s with
  | ok a s' =>
    cases ht : n t with
    | ok b t' =>
      rw [hs, ht] at hm
      obtain rfl : a = b := Except.ok.inj hm.1
      rw [bind_of_ok hs, bind_of_ok ht]
      exact hf a s' t' hs ht hm.2
    | error e t' =>
      rw [hs, ht] at hm
      cases hm.1
  | error e s' =>
    cases ht : n t with
    | ok b t' =>
      rw [hs, ht] at hm
      cases hm.1
    | error e' t' =>
      rw [hs, ht] at hm
      obtain rfl : e = e' := Except.error.inj hm.1
      rw [bind_of_error hs, bind_of_error ht]
      exact ⟨rfl, hm.2⟩

/-- Computations that only look at the state, each followed by another. -/
theorem AgreeAt.bind_of_look {a b : α} (hm : m s = .ok a s) (hn : n t = .ok b t)
    (hf : AgreeAt R (f a) (g b) s t) : AgreeAt R (m >>= f) (n >>= g) s t := by
  unfold AgreeAt
  rw [bind_of_ok hm, bind_of_ok hn]
  exact hf

end Pkgly.Effect
