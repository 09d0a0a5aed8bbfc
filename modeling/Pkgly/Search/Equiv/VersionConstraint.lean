import Pkgly.Algorithm.MixedOrder
import Pkgly.Algorithm.Semver
import Pkgly.Search.QueryParser

/-!
# Correctness of the version filters

`compareRange` compares two versions as versions of the crate `semver` if both can be read as such,
and as texts in lower case otherwise (`compareRange_eq`).  For every pair exactly one of `<`, `=`
and `>` holds.  Three versions are in order unless one that cannot be read stands on the wrong side
of the two others, and an exact filter agrees with the two bounds unless the texts differ in the
case of a letter that is not ASCII (`rangeOrdered_iff`).
-/

namespace Pkgly.Search

variable {Version VersionReq : Type} (env : SearchEnvironment Version VersionReq)

def rangeCompare (candidate target : String) : Ordering :=
  mixedCompare (parseSemverVersion env) env.compareVersion env.toLowercase candidate target

variable {env}

theorem rangeCompare_of_some {a b : String} {x y : Version} (ha : parseSemverVersion env a = some x)
    (hb : parseSemverVersion env b = some y) : rangeCompare env a b = env.compareVersion x y :=
  mixedCompare_of_some ha hb

theorem rangeCompare_of_none {a b : String}
    (h : parseSemverVersion env a = none ∨ parseSemverVersion env b = none) :
    rangeCompare env a b = compare (env.toLowercase a) (env.toLowercase b) := by
  rcases h with h | h
  · exact mixedCompare_of_none_left h
  · exact mixedCompare_of_none_right h

def Operator.holds : Operator → Ordering → Bool
  | .greaterThan, o => o == .gt
  | .greaterOrEqual, o => o != .lt
  | .lessThan, o => o == .lt
  | .lessOrEqual, o => o != .gt
  | .equals, o => o == .eq
  | .contains, _ => false

theorem compareRange_of_none {op : Operator} {a b : String}
    (h : parseSemverVersion env a = none ∨ parseSemverVersion env b = none) :
    compareRange env op a b =
      match op with
      | .greaterThan => decide (env.toLowercase b < env.toLowercase a)
      | .greaterOrEqual => !decide (env.toLowercase a < env.toLowercase b)
      | .lessThan => decide (env.toLowercase a < env.toLowercase b)
      | .lessOrEqual => !decide (env.toLowercase b < env.toLowercase a)
      | .equals => env.toLowercase a == env.toLowercase b
      | .contains => contains (env.toLowercase a) (env.toLowercase b) := by
  grind [compareRange, parseSemverVersion]

theorem compareRange_eq {op : Operator} (hop : op ≠ .contains) (a b : String) :
    compareRange env op a b = op.holds (rangeCompare env a b) := by
  have htext : parseSemverVersion env a = none ∨ parseSemverVersion env b = none →
      compareRange env op a b = op.holds (rangeCompare env a b) := by
    intro hnone
    rw [compareRange_of_none hnone, rangeCompare_of_none hnone]
    generalize env.toLowercase a = s
    generalize env.toLowercase b = t
    rcases lt_trichotomy s t with h | rfl | h
    · have hcmp : compare s t = .lt := compare_lt_iff_lt.mpr h
      rw [hcmp]
      cases op <;> simp [Operator.holds, h, not_lt_of_gt h, h.ne] at hop ⊢
    · have hcmp : compare s s = .eq := compare_eq_iff_eq.mpr rfl
      rw [hcmp]
      cases op <;> simp [Operator.holds] at hop ⊢
    · have hcmp : compare s t = .gt := compare_gt_iff_gt.mpr h
      rw [hcmp]
      cases op <;> simp [Operator.holds, h, not_lt_of_gt h, h.ne'] at hop ⊢
  cases ha : parseSemverVersion env a with
  | none => exact htext (.inl ha)
  | some x =>
    cases hb : parseSemverVersion env b with
    | none => exact htext (.inr hb)
    | some y =>
      rw [rangeCompare_of_some ha hb, compareRange, ha, hb]
      cases op with
      | contains => exact absurd rfl hop
      | _ => rfl

/-! ### The filters as an order -/

/-- What makes the range filters an order on three versions, to which the exact filter belongs. -/
structure RangeOrdered (env : SearchEnvironment Version VersionReq) (a b c : String) : Prop where
  /-- Exactly one of the three comparisons holds. -/
  trichotomy : [compareRange env .lessThan a b, compareRange env .equals a b,
    compareRange env .greaterThan a b].count true = 1
  irrefl : compareRange env .lessThan a a = false
  trans : compareRange env .lessThan a b = true → compareRange env .lessThan b c = true →
    compareRange env .lessThan a c = true
  greaterOrEqual : compareRange env .greaterOrEqual a b = !compareRange env .lessThan a b
  lessOrEqual : compareRange env .lessOrEqual a b = !compareRange env .greaterThan a b
  exactBounds : (VersionConstraint.exact b).matches env a = true ↔
    (VersionConstraint.range .greaterOrEqual b).matches env a = true ∧
      (VersionConstraint.range .lessOrEqual b).matches env a = true

/-- A version that cannot be read stands between the two others on the wrong side. -/
def TornVersions (env : SearchEnvironment Version VersionReq) (a b c : String) : Prop :=
  Torn (parseSemverVersion env) env.compareVersion env.toLowercase a b c

instance (a b c : String) : Decidable (TornVersions env a b c) :=
  inferInstanceAs (Decidable (Torn _ _ _ a b c))

/-- Two texts that are equal in lower case are so already in the lower case of ASCII. -/
def FoldsAlike (env : SearchEnvironment Version VersionReq) (a b : String) : Prop :=
  (parseSemverVersion env a).isSome = true ∧ (parseSemverVersion env b).isSome = true ∨
    (eqIgnoreAsciiCase a b = true ↔ env.toLowercase a = env.toLowercase b)

theorem matches_bounds_iff (a b : String) :
    (VersionConstraint.range .greaterOrEqual b).matches env a = true ∧
        (VersionConstraint.range .lessOrEqual b).matches env a = true ↔
      rangeCompare env a b = .eq := by
  have hge : (VersionConstraint.range .greaterOrEqual b).matches env a =
      Operator.holds .greaterOrEqual (rangeCompare env a b) :=
    compareRange_eq (show Operator.greaterOrEqual ≠ .contains by decide) a b
  have hle : (VersionConstraint.range .lessOrEqual b).matches env a =
      Operator.holds .lessOrEqual (rangeCompare env a b) :=
    compareRange_eq (show Operator.lessOrEqual ≠ .contains by decide) a b
  rw [hge, hle]
  cases rangeCompare env a b <;> decide

theorem matches_exact_iff (a b : String) :
    ((VersionConstraint.exact b).matches env a = true ↔
      (VersionConstraint.range .greaterOrEqual b).matches env a = true ∧
        (VersionConstraint.range .lessOrEqual b).matches env a = true) ↔ FoldsAlike env a b := by
  rw [matches_bounds_iff, FoldsAlike]
  have htext : parseSemverVersion env a = none ∨ parseSemverVersion env b = none →
      (VersionConstraint.exact b).matches env a = eqIgnoreAsciiCase a b := by
    intro hnone
    rw [VersionConstraint.matches]
    rcases hnone with h | h
    · rw [h]
    · rw [h]
      cases parseSemverVersion env a <;> rfl
  cases ha : parseSemverVersion env a with
  | none =>
    rw [htext (.inl ha), rangeCompare_of_none (.inl ha), compare_eq_iff_eq]
    simp
  | some x =>
    cases hb : parseSemverVersion env b with
    | none =>
      rw [htext (.inr hb), rangeCompare_of_none (.inr hb), compare_eq_iff_eq]
      simp
    | some y =>
      simp_all [VersionConstraint.matches, rangeCompare_of_some, beq_iff_eq]

/-- The filters are an order on three versions iff these are not torn and are folded alike. -/
theorem rangeOrdered_iff [Std.TransCmp env.compareVersion] (a b c : String) :
    RangeOrdered env a b c ↔ ¬ TornVersions env a b c ∧ FoldsAlike env a b := by
  have hlt : ∀ s t, compareRange env .lessThan s t = true ↔ rangeCompare env s t = .lt := by
    intro s t
    rw [compareRange_eq (by decide), Operator.holds, beq_iff_eq]
  have htrans : (rangeCompare env a b = .lt → rangeCompare env b c = .lt →
      rangeCompare env a c = .lt) ↔ ¬ TornVersions env a b c := mixedCompare_trans_iff a b c
  constructor
  · intro h
    refine ⟨htrans.mp fun hab hbc => (hlt a c).mp (h.trans ((hlt a b).mpr hab) ((hlt b c).mpr hbc)),
      (matches_exact_iff a b).mp h.exactBounds⟩
  · rintro ⟨htorn, hfolds⟩
    refine ⟨?_, ?_, ?_, ?_, ?_, (matches_exact_iff a b).mpr hfolds⟩
    · rw [compareRange_eq (by decide), compareRange_eq (by decide), compareRange_eq (by decide)]
      cases rangeCompare env a b <;> decide
    · rw [compareRange_eq (by decide), rangeCompare, mixedCompare_self]
      rfl
    · intro hab hbc
      exact (hlt a c).mpr (htrans.mpr htorn ((hlt a b).mp hab) ((hlt b c).mp hbc))
    · rw [compareRange_eq (by decide), compareRange_eq (by decide)]
      cases rangeCompare env a b <;> rfl
    · rw [compareRange_eq (by decide), compareRange_eq (by decide)]
      cases rangeCompare env a b <;> rfl

/-! ### Versions of three numbers -/

def numbersEnvironment : SearchEnvironment (List ℕ) Unit where
  toLowercase := toAsciiLowercase
  lower := toAsciiLowercase
  parseVersion text :=
    match (text.toList.splitOn '.').mapM readNumber with
    | some [major, minor, patch] => some [major, minor, patch]
    | _ => none
  compareVersion := compare
  versionToString version := String.intercalate "." (version.map toString)
  parseReq _ := none
  reqMatches _ _ := false
  extraText _ _ _ := ""

instance : Std.TransCmp numbersEnvironment.compareVersion :=
  inferInstanceAs (Std.TransCmp (compare : List ℕ → List ℕ → Ordering))

/-- Three versions of which one is a branch name. -/
theorem rangeOrdered_main : RangeOrdered numbersEnvironment "v2.0.0" "v10.0.0" "main" :=
  (rangeOrdered_iff _ _ _).mpr ⟨by decide, .inl (by decide)⟩

/-- The tag `v2` is no version, and as a text it comes after `v10.0.0` and before `v2.0.0`. -/
theorem not_rangeOrdered_tag : ¬ ∀ (env : SearchEnvironment (List ℕ) Unit) (a b c : String),
    Std.TransCmp env.compareVersion → RangeOrdered env a b c := by
  intro hall
  have hordered := hall numbersEnvironment "v2.0.0" "v10.0.0" "v2" inferInstance
  exact absurd (hordered.trans (by decide) (by decide)) (by decide)

end Pkgly.Search
