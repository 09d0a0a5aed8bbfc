import Mathlib.Algebra.Group.Nat.Defs
import Mathlib.Data.Bool.Basic
import Mathlib.Data.List.Basic

/-!
# Networks of addresses

A network is a block of addresses of `w` bits that agree on their first `length` bits.  Two networks
are nested or disjoint: the addresses of the longer one are in the shorter one exactly if its own
address is (`contains_eq_of_contains`).  So a question about all addresses of a block can be
answered from the block alone: `contains_of_covers` and `not_contains_of_misses`.
-/

namespace Pkgly

/-- The addresses whose first `length` bits are those of `address`. -/
structure Network (w : Nat) where
  address : BitVec w
  length : Nat
  length_le : length ≤ w
deriving DecidableEq

namespace Network

variable {w : Nat}

/-- The address `x` is in the network. -/
def contains (n : Network w) (x : BitVec w) : Bool :=
  x >>> (w - n.length) == n.address >>> (w - n.length)

/-- All of `m` is in `n`. -/
def covers (n m : Network w) : Bool := decide (n.length ≤ m.length) && n.contains m.address

/-- `m` is longer than `n`, and outside. -/
def misses (n m : Network w) : Bool := decide (n.length ≤ m.length) && !n.contains m.address

variable {n : Network w} {x : BitVec w}

theorem contains_iff : n.contains x = true ↔ x >>> (w - n.length) = n.address >>> (w - n.length) :=
  beq_iff_eq

theorem contains_iff_toNat : n.contains x = true ↔
    x.toNat / 2 ^ (w - n.length) = n.address.toNat / 2 ^ (w - n.length) := by
  grind [contains_iff, BitVec.toNat_inj, BitVec.toNat_ushiftRight, Nat.shiftRight_eq_div_pow]

/-- The addresses of a longer network are all inside `n` or all outside. -/
theorem contains_eq_of_contains {m : Network w} (hle : n.length ≤ m.length)
    (h : m.contains x = true) : n.contains x = n.contains m.address := by
  have hshift : w - n.length = (w - m.length) + (m.length - n.length) := by
    have := m.length_le
    omega
  grind [BitVec.shiftRight_add, contains]

theorem contains_of_covers {m : Network w} (hcovers : n.covers m = true)
    (h : m.contains x = true) : n.contains x = true := by
  rw [covers, Bool.and_eq_true, decide_eq_true_iff] at hcovers
  rw [contains_eq_of_contains hcovers.1 h]
  exact hcovers.2

theorem not_contains_of_misses {m : Network w} (hmisses : n.misses m = true)
    (h : m.contains x = true) : n.contains x = false := by
  rw [misses, Bool.and_eq_true, decide_eq_true_iff, Bool.not_eq_true'] at hmisses
  rw [contains_eq_of_contains hmisses.1 h]
  exact hmisses.2

end Network

end Pkgly
