import Mathlib.Data.List.DropRight

/-!
# Cutting off both ends of a list

`trimWhile p` drops the elements with `p` at both ends of a list.  It leaves a list alone that has
no such element at an end (`trimWhile_eq_self`), it takes off what is put around a list
(`trimWhile_append_append`), and what it returns has no such element at an end
(`head?_trimWhile`, `getLast?_trimWhile`).
-/

namespace Pkgly

variable {α : Type*} {p : α → Bool}

/-- Drop the elements with `p` at both ends. -/
def trimWhile (p : α → Bool) (l : List α) : List α := (l.dropWhile p).rdropWhile p

variable {l : List α}

theorem dropWhile_eq_self_of_head? (h : ∀ a, l.head? = some a → p a = false) :
    l.dropWhile p = l := by
  cases l with
  | nil => rfl
  | cons a l =>
    refine List.dropWhile_cons_of_neg ?_
    rw [h a rfl]
    exact Bool.false_ne_true

theorem rdropWhile_eq_self_of_getLast?
    (h : ∀ a, l.getLast? = some a → p a = false) : l.rdropWhile p = l := by
  rw [List.rdropWhile_eq_self_iff]
  intro hl
  rw [h _ (List.getLast?_eq_some_getLast hl)]
  exact Bool.false_ne_true

/-- A list is left alone when neither end is to be dropped. -/
theorem trimWhile_eq_self (hhead : ∀ a, l.head? = some a → p a = false)
    (hlast : ∀ a, l.getLast? = some a → p a = false) : trimWhile p l = l := by
  rw [trimWhile, dropWhile_eq_self_of_head? hhead, rdropWhile_eq_self_of_getLast? hlast]

theorem rdropWhile_append_of_all {b : List α} (hb : ∀ a ∈ b, p a = true) :
    (l ++ b).rdropWhile p = l.rdropWhile p := by
  grind [List.rdropWhile, List.reverse_append, List.dropWhile_append_of_pos]

theorem trimWhile_append_append {a b : List α} (ha : ∀ x ∈ a, p x = true)
    (hb : ∀ x ∈ b, p x = true) : trimWhile p (a ++ (l ++ b)) = trimWhile p l := by
  rw [trimWhile, List.dropWhile_append_of_pos ha, List.dropWhile_append, trimWhile]
  grind [List.rdropWhile_nil, List.rdropWhile_eq_nil_iff, List.dropWhile_sublist,
    rdropWhile_append_of_all]

/-- The result stands in the list, between elements that are dropped. -/
theorem exists_append_trimWhile (p : α → Bool) (l : List α) : ∃ a b,
    l = a ++ (trimWhile p l ++ b) ∧ (∀ x ∈ a, p x = true) ∧ ∀ x ∈ b, p x = true := by
  refine ⟨l.takeWhile p, (l.dropWhile p).rtakeWhile p, ?_, ?_, ?_⟩
  · rw [trimWhile, List.rdropWhile_append_rtakeWhile, List.takeWhile_append_dropWhile]
  · intro x hx
    exact List.mem_takeWhile_imp hx
  · intro x hx
    exact List.mem_rtakeWhile_imp hx

theorem subset_trimWhile (p : α → Bool) (l : List α) : trimWhile p l ⊆ l := by
  intro x hx
  exact (List.dropWhile_sublist p).subset ((List.rdropWhile_prefix p _).subset hx)

theorem getLast?_trimWhile {a : α} (h : (trimWhile p l).getLast? = some a) : p a = false := by
  have hne : trimWhile p l ≠ [] := by
    intro hnil
    rw [hnil] at h
    cases h
  have hlast := List.rdropWhile_last_not p (l.dropWhile p) hne
  rw [List.getLast?_eq_some_getLast hne] at h
  rw [← Option.some.inj h]
  exact Bool.not_eq_true _ ▸ hlast

theorem head?_trimWhile {a : α} (h : (trimWhile p l).head? = some a) : p a = false := by
  have hne : trimWhile p l ≠ [] := by
    intro hnil
    rw [hnil] at h
    cases h
  obtain ⟨tail, htail⟩ := List.rdropWhile_prefix p (l.dropWhile p)
  have hhead : (l.dropWhile p).head? = some a := by
    rw [← htail]
    exact (List.head?_append_of_ne_nil _ hne).trans h
  have hnot := List.head?_dropWhile_not p l
  rw [hhead] at hnot
  exact hnot

end Pkgly
