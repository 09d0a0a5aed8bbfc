import Mathlib.Algebra.Order.Floor.Div
import Mathlib.Tactic.Positivity

/-!
# Arithmetic of `u64`

An operation that overflows has no result (`checkedAdd`, `checkedSub`, `checkedMul`), or the
nearest value there is (`saturatingAdd`, `saturatingSub`).  `divCeil` rounds a quotient up.  Each is
given by the natural numbers that its arguments and its result stand for.
-/

namespace Pkgly.U64

variable {a b c : UInt64}

def checkedAdd (a b : UInt64) : Option UInt64 :=
  if a.toNat + b.toNat < 2 ^ 64 then some (a + b) else none

def checkedSub (a b : UInt64) : Option UInt64 := if b ≤ a then some (a - b) else none

def checkedMul (a b : UInt64) : Option UInt64 :=
  if a.toNat * b.toNat < 2 ^ 64 then some (a * b) else none

def saturatingAdd (a b : UInt64) : UInt64 :=
  if a.toNat + b.toNat < 2 ^ 64 then a + b else .ofNat (2 ^ 64 - 1)

def saturatingSub (a b : UInt64) : UInt64 := if b ≤ a then a - b else 0

def divCeil (a b : UInt64) : UInt64 := if 0 < a % b then a / b + 1 else a / b

theorem toNat_max (a b : UInt64) : (max a b).toNat = max a.toNat b.toNat := by
  have hmax : max a b = if a ≤ b then b else a := rfl
  have hle : a ≤ b ↔ a.toNat ≤ b.toNat := UInt64.le_iff_toNat_le
  grind

theorem toNat_min (a b : UInt64) : (min a b).toNat = min a.toNat b.toNat := by
  have hmin : min a b = if a ≤ b then a else b := rfl
  have hle : a ≤ b ↔ a.toNat ≤ b.toNat := UInt64.le_iff_toNat_le
  grind

theorem checkedSub_eq_some_iff : checkedSub a b = some c ↔ b.toNat + c.toNat = a.toNat := by
  unfold checkedSub
  have hle : b ≤ a ↔ b.toNat ≤ a.toNat := UInt64.le_iff_toNat_le
  by_cases h : b ≤ a
  · rw [if_pos h, Option.some.injEq, ← UInt64.toNat_inj, UInt64.toNat_sub_of_le _ _ h]
    have h' := hle.mp h
    omega
  grind

theorem exists_checkedAdd (h : a.toNat + b.toNat < 2 ^ 64) :
    ∃ c, checkedAdd a b = some c ∧ c.toNat = a.toNat + b.toNat := by
  simp_all [checkedAdd, symm]

theorem exists_checkedSub (h : b.toNat ≤ a.toNat) :
    ∃ c, checkedSub a b = some c ∧ c.toNat = a.toNat - b.toNat := by
  have hc : checkedSub a b = some (a - b) := if_pos (UInt64.le_iff_toNat_le.mpr h)
  have hsum := checkedSub_eq_some_iff.mp hc
  exact ⟨a - b, hc, by omega⟩

theorem exists_checkedMul (h : a.toNat * b.toNat < 2 ^ 64) :
    ∃ c, checkedMul a b = some c ∧ c.toNat = a.toNat * b.toNat := by
  simp_all [checkedMul, if_pos, symm]

theorem toNat_saturatingAdd (a b : UInt64) :
    (saturatingAdd a b).toNat = min (a.toNat + b.toNat) (2 ^ 64 - 1) := by
  unfold saturatingAdd
  by_cases h : a.toNat + b.toNat < 2 ^ 64
  · rw [if_pos h, UInt64.toNat_add, Nat.mod_eq_of_lt h]
    omega
  · rw [if_neg h, UInt64.toNat_ofNat']
    omega

theorem toNat_saturatingSub (a b : UInt64) :
    (saturatingSub a b).toNat = a.toNat - b.toNat := by
  unfold saturatingSub
  by_cases h : b ≤ a
  · rw [if_pos h, UInt64.toNat_sub_of_le _ _ h]
  · rw [if_neg h]
    rw [UInt64.le_iff_toNat_le] at h
    have hzero : (0 : UInt64).toNat = 0 := rfl
    omega

theorem toNat_divCeil (a : UInt64) (hb : 0 < b.toNat) :
    (divCeil a b).toNat = a.toNat ⌈/⌉ b.toNat := by
  rw [Nat.ceilDiv_eq_add_pred_div]
  have hdiv := Nat.div_add_mod a.toNat b.toNat
  have hmod := Nat.mod_lt a.toNat hb
  have hpos : 0 < a % b ↔ 0 < a.toNat % b.toNat := by
    rw [UInt64.lt_iff_toNat_lt, UInt64.toNat_mod]
    rfl
  unfold divCeil
  by_cases h : 0 < a.toNat % b.toNat
  · have hquot : (a.toNat + b.toNat - 1) / b.toNat = a.toNat / b.toNat + 1 := by
      have hsplit : a.toNat + b.toNat - 1 =
          a.toNat % b.toNat - 1 + b.toNat * (a.toNat / b.toNat + 1) := by
        rw [Nat.mul_add]
        omega
      rw [hsplit, Nat.add_mul_div_left _ _ hb, Nat.div_eq_of_lt (by omega), Nat.zero_add]
    have hlt : a.toNat / b.toNat + 1 < 2 ^ 64 := by
      have ha := a.toNat_lt
      have hle : 2 * (a.toNat / b.toNat) ≤ b.toNat * (a.toNat / b.toNat) :=
        Nat.mul_le_mul_right _ (by omega)
      omega
    rw [if_pos (hpos.mpr h), hquot, UInt64.toNat_add, UInt64.toNat_div]
    exact Nat.mod_eq_of_lt hlt
  · have hquot : (a.toNat + b.toNat - 1) / b.toNat = a.toNat / b.toNat := by
      have hsplit : a.toNat + b.toNat - 1 = b.toNat - 1 + b.toNat * (a.toNat / b.toNat) := by
        omega
      rw [hsplit, Nat.add_mul_div_left _ _ hb, Nat.div_eq_of_lt (by omega), Nat.zero_add]
    rw [if_neg (hpos.not.mpr h), hquot, UInt64.toNat_div]

end Pkgly.U64
