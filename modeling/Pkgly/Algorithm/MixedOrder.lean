import Mathlib.Order.Compare
import Mathlib.Order.Lattice

/-!
# Comparing pair by pair with one of two orders

`mixedCompare` compares two elements by the values that they are parsed to, if both are, and by
their keys otherwise.  Each pair is compared by an order, so that the comparison is reflexive
(`mixedCompare_self`).  It is transitive on three elements unless they are `Torn`: two of them are
compared as values, and the third stands between their keys on the wrong side
(`mixedCompare_trans_iff`).
-/

namespace Pkgly

variable {α β γ : Type*} [LinearOrder γ] (parse : α → Option β) (cmp : β → β → Ordering)
  (key : α → γ)

/-- Compare by the parsed values if there are two, and by the keys otherwise. -/
def mixedCompare (a b : α) : Ordering :=
  match parse a, parse b with
  | some x, some y => cmp x y
  | _, _ => compare (key a) (key b)

/-- The keys take one of the elements to the wrong side of the other two, which are compared by
their values. -/
def Torn (a b c : α) : Prop :=
  match parse a, parse b, parse c with
  | some x, some y, none => cmp x y = .lt ∧ key b < key c ∧ key c ≤ key a
  | none, some y, some z => cmp y z = .lt ∧ key c ≤ key a ∧ key a < key b
  | some x, none, some z => cmp x z ≠ .lt ∧ key a < key b ∧ key b < key c
  | _, _, _ => False

instance (a b c : α) : Decidable (Torn parse cmp key a b c) := by
  unfold Torn
  split <;> infer_instance

variable {parse cmp key}

theorem mixedCompare_of_some {a b : α} {x y : β} (ha : parse a = some x) (hb : parse b = some y) :
    mixedCompare parse cmp key a b = cmp x y := by
  rw [mixedCompare, ha, hb]

theorem mixedCompare_of_none_left {a b : α} (ha : parse a = none) :
    mixedCompare parse cmp key a b = compare (key a) (key b) := by
  rw [mixedCompare, ha]

theorem mixedCompare_of_none_right {a b : α} (hb : parse b = none) :
    mixedCompare parse cmp key a b = compare (key a) (key b) := by
  rw [mixedCompare, hb]
  cases parse a <;> rfl

theorem mixedCompare_self [Std.ReflCmp cmp] (a : α) : mixedCompare parse cmp key a a = .eq := by
  cases ha : parse a with
  | none => rw [mixedCompare_of_none_left ha, compare_eq_iff_eq]
  | some x =>
    rw [mixedCompare_of_some ha ha]
    exact Std.ReflCmp.compare_self

/-- Three elements are in order unless they are torn. -/
theorem mixedCompare_trans_iff [Std.TransCmp cmp] (a b c : α) :
    (mixedCompare parse cmp key a b = .lt → mixedCompare parse cmp key b c = .lt →
      mixedCompare parse cmp key a c = .lt) ↔ ¬ Torn parse cmp key a b c := by
  unfold Torn
  cases ha : parse a with
  | none =>
    cases hb : parse b with
    | none =>
      grind [mixedCompare_of_none_left, compare_lt_iff_lt, lt_trans]
    | some y =>
      cases hc : parse c with
      | none =>
        grind [mixedCompare_of_none_left, mixedCompare_of_none_right, compare_lt_iff_lt, lt_trans]
      | some z =>
        grind [mixedCompare_of_none_left, mixedCompare_of_some, compare_lt_iff_lt, absurd]
  | some x =>
    cases hb : parse b with
    | none =>
      cases hc : parse c with
      | none =>
        grind [mixedCompare_of_none_right, mixedCompare_of_none_left, compare_lt_iff_lt, lt_trans]
      | some z =>
        grind [mixedCompare_of_none_right, mixedCompare_of_none_left, mixedCompare_of_some,
          compare_lt_iff_lt]
    | some y =>
      cases hc : parse c with
      | none =>
        grind [mixedCompare_of_some, mixedCompare_of_none_right, compare_lt_iff_lt, absurd]
      | some z =>
        rw [mixedCompare_of_some ha hb, mixedCompare_of_some hb hc, mixedCompare_of_some ha hc]
        exact ⟨fun _ h => h, fun _ => Std.TransCmp.lt_trans⟩

end Pkgly
