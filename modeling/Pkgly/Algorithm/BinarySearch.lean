import Mathlib.Data.List.Basic
import Mathlib.Order.Basic
import Mathlib.Order.Lattice

/-!
# Binary search

`binarySearch` in a list of increasing elements finds the place of an element, or the place where it
would stand.  Either way it tells how many elements are at most as large
(`upperBound_binarySearch`), and after as many elements the larger ones are left
(`drop_countP_le`).
-/

namespace Pkgly

variable {α : Type*} [LinearOrder α]

/-- The loop of the search, with `size` places left from `base` on. -/
def searchLoop (all : List α) (x : α) : (fuel size base : ℕ) → ℕ
  | 0, _, base => base
  | fuel + 1, size, base =>
    if size ≤ 1 then base
    else
      match all[base + size / 2]? with
      | none => base
      | some y => searchLoop all x fuel (size - size / 2) (if x < y then base else base + size / 2)

/-- The place of `x`, or else the place where it would stand. -/
def binarySearch (all : List α) (x : α) : Except ℕ ℕ :=
  let base := searchLoop all x all.length all.length 0
  match all[base]? with
  | none => .error base
  | some y => if y = x then .ok base else .error (if y < x then base + 1 else base)

/-- The place after `x`, whether it is there or not. -/
def upperBound : Except ℕ ℕ → ℕ
  | .ok i => i + 1
  | .error i => i

variable {all : List α} {x : α}

/-- The elements up to a place are at most `x`, and the others larger. -/
def IsUpperBound (all : List α) (x : α) (k : ℕ) : Prop :=
  (∀ y ∈ all.take k, y ≤ x) ∧ ∀ y ∈ all.drop k, x < y

theorem IsUpperBound.countP_eq {k : ℕ} (h : IsUpperBound all x k) (hk : k ≤ all.length) :
    all.countP (fun y => decide (y ≤ x)) = k := by
  obtain ⟨htake, hdrop⟩ := h
  have hsplit : (all.take k ++ all.drop k).countP (fun y => decide (y ≤ x)) = _ :=
    List.countP_append
  rw [List.take_append_drop] at hsplit
  have hsmall : (all.take k).countP (fun y => decide (y ≤ x)) = (all.take k).length :=
    List.countP_eq_length.mpr fun y hy => decide_eq_true (htake y hy)
  simp_all

/-- What the search knows with `size` places left from `base` on: what comes after them is larger
than `x`, and what comes before them is not. -/
structure Searching (all : List α) (x : α) (size base : ℕ) : Prop where
  pos : 0 < size
  le : base + size ≤ all.length
  small : base = 0 ∨ ∃ y, all[base]? = some y ∧ y ≤ x
  large : ∀ y ∈ all.drop (base + size), x < y

theorem mem_drop_of_lt (hsorted : all.Pairwise (· < ·)) {i : ℕ} {y z : α} (hy : all[i]? = some y)
    (hz : z ∈ all.drop i) : y ≤ z := by
  obtain ⟨hi, rfl⟩ := List.getElem?_eq_some_iff.mp hy
  rw [List.drop_eq_getElem_cons hi] at hz
  rcases List.mem_cons.mp hz with rfl | hz
  · exact le_rfl
  · have hcons : (all.drop i).Pairwise (· < ·) := hsorted.drop
    rw [List.drop_eq_getElem_cons hi, List.pairwise_cons] at hcons
    exact (hcons.1 z hz).le

theorem le_of_mem_take (hsorted : all.Pairwise (· < ·)) {i : ℕ} {y z : α} (hy : all[i]? = some y)
    (hz : z ∈ all.take i) : z < y := by
  obtain ⟨hi, rfl⟩ := List.getElem?_eq_some_iff.mp hy
  grind [List.take_append_drop, List.drop_eq_getElem_cons, List.mem_cons_self]

theorem searching_searchLoop (hsorted : all.Pairwise (· < ·)) (fuel : ℕ) {size base : ℕ}
    (h : Searching all x size base) (hfuel : size ≤ fuel) :
    Searching all x 1 (searchLoop all x fuel size base) := by
  induction fuel generalizing size base with
  | zero =>
    have hpos := h.pos
    omega
  | succ fuel ih =>
    unfold searchLoop
    by_cases hone : size ≤ 1
    · obtain rfl : size = 1 := by
        have hpos := h.pos
        omega
      rw [if_pos hone]
      exact h
    · have hle := h.le
      have hmid : base + size / 2 < all.length := by omega
      rw [if_neg hone, List.getElem?_eq_getElem hmid]
      dsimp only
      by_cases hlt : x < all[base + size / 2]
      · rw [if_pos hlt]
        refine ih ⟨by omega, by omega, h.small, fun y hy => ?_⟩ (by omega)
        -- the middle is among what is given up
        refine lt_of_lt_of_le hlt
          (mem_drop_of_lt hsorted (List.getElem?_eq_getElem hmid) ?_)
        refine List.drop_subset_drop_left _ ?_ hy
        omega
      · rw [if_neg hlt]
        refine ih ⟨by omega, by omega, .inr ⟨_, List.getElem?_eq_getElem hmid, not_lt.mp hlt⟩,
          fun y hy => h.large y ?_⟩ (by omega)
        grind

/-- **Binary search** counts the elements that are at most `x`. -/
theorem upperBound_binarySearch (hsorted : all.Pairwise (· < ·)) (x : α) :
    upperBound (binarySearch all x) = all.countP (fun y => decide (y ≤ x)) := by
  by_cases hnil : all = []
  · rw [hnil]
    rfl
  have hstart : Searching all x all.length 0 := by
    refine ⟨List.length_pos_iff.mpr hnil, by omega, .inl rfl, fun y hy => ?_⟩
    rw [Nat.zero_add, List.drop_length] at hy
    cases hy
  have hend := searching_searchLoop hsorted all.length hstart (Nat.le_refl _)
  unfold binarySearch
  dsimp only
  generalize searchLoop all x all.length all.length 0 = base at hend ⊢
  have hbase : base < all.length := by
    have hle := hend.le
    omega
  have hget := List.getElem?_eq_getElem hbase
  have htake : ∀ y ∈ all.take (base + 1), y ≤ all[base] := by
    intro y hy
    rw [List.take_succ_eq_append_getElem hbase, List.mem_append, List.mem_singleton] at hy
    rcases hy with hy | rfl
    · exact (le_of_mem_take hsorted hget hy).le
    · exact le_rfl
  rw [hget]
  dsimp only
  by_cases heq : all[base] = x
  · rw [if_pos heq]
    have hbound : IsUpperBound all x (base + 1) := ⟨fun y hy => heq ▸ htake y hy, hend.large⟩
    exact (hbound.countP_eq hend.le).symm
  · rw [if_neg heq]
    by_cases hlt : all[base] < x
    · rw [if_pos hlt]
      have hbound : IsUpperBound all x (base + 1) :=
        ⟨fun y hy => (htake y hy).trans hlt.le, hend.large⟩
      exact (hbound.countP_eq hend.le).symm
    · rw [if_neg hlt]
      have hgt : x < all[base] := lt_of_le_of_ne (not_lt.mp hlt) (Ne.symm heq)
      -- only the first place is left without an element that is at most `x`
      obtain rfl : base = 0 := by
        refine hend.small.resolve_right ?_
        grind
      have hbound : IsUpperBound all x 0 := by grind [List.take_zero, lt_of_lt_of_le,
                                              mem_drop_of_lt, IsUpperBound]
      exact (hbound.countP_eq (Nat.zero_le _)).symm

/-- After the elements that are at most `x` the larger ones are left. -/
theorem drop_countP_le (hsorted : all.Pairwise (· < ·)) (x : α) :
    all.drop (all.countP fun y => decide (y ≤ x)) = all.filter fun y => decide (x < y) := by
  induction all with
  | nil => rfl
  | cons y all ih =>
    obtain ⟨hy, hsorted⟩ := List.pairwise_cons.mp hsorted
    by_cases hle : y ≤ x
    · grind [List.countP_cons_of_pos, List.drop_succ_cons, List.filter_cons_of_neg]
    · have hnone : all.countP (fun z => decide (z ≤ x)) = 0 := by grind
      grind [decide, decide_eq_true, List.countP_cons_of_neg, List.drop_zero,
        List.filter_cons_of_pos]

end Pkgly
