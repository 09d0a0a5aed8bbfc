import Mathlib.Tactic.NormNum
import Pkgly.Egress.Upstream

/-!
# `isGlobal` and the special-purpose blocks

Both branches of `isGlobal` reject networks: `isGlobalV4_of_contains` and `of_isGlobalV6` list them.  The blocks of the special-purpose registries that are not globally reachable
(`SpecialPurpose`), and those of the addresses that embed an IPv4 address (`EmbedsIpv4`), are
covered by these networks or outside the global unicast space, which is a question about finitely
many networks.  So `isGlobal` is false on all of them (`isGlobal_specialPurpose`,
`isGlobal_embedsIpv4`).
-/

namespace Pkgly.Egress

/-- The IPv4 network `a.b.c.d/length`. -/
def v4Network (a b c d length : Nat) : Network 32 where
  address := BitVec.ofNat 32 (((a * 256 + b) * 256 + c) * 256 + d)
  length := min length 32
  length_le := Nat.min_le_right _ _

def v6Network (address : BitVec 128) (length : Nat) : Network 128 where
  address := address
  length := min length 128
  length_le := Nat.min_le_right _ _

/-! ### IPv4 -/

theorem octets_eq (ip : BitVec 32) : octets ip =
    (ip.toNat / 16777216, ip.toNat / 65536 % 256, ip.toNat / 256 % 256, ip.toNat % 256) := by
  have hlt := ip.isLt
  have hfirst : ip.toNat / 2 ^ 24 % 2 ^ 8 = ip.toNat / 16777216 := by omega
  simp only [octets, BitVec.extractLsb'_toNat, Nat.shiftRight_eq_div_pow, hfirst, pow_zero,
    Nat.div_one]

theorem contains_v4Network {a b c d length : Nat} {ip : BitVec 32} :
    (v4Network a b c d length).contains ip = true ↔
      ip.toNat / 2 ^ (32 - min length 32) =
        (((a * 256 + b) * 256 + c) * 256 + d) % 2 ^ 32 / 2 ^ (32 - min length 32) := by
  rw [Network.contains_iff_toNat, v4Network, BitVec.toNat_ofNat]

/-- The networks that `isGlobalV4` rejects. -/
def rejectedV4 : List (Network 32) :=
  [v4Network 0 0 0 0 8, v4Network 10 0 0 0 8, v4Network 127 0 0 0 8, v4Network 100 64 0 0 10,
    v4Network 169 254 0 0 16, v4Network 172 16 0 0 12, v4Network 192 168 0 0 16,
    v4Network 192 0 0 0 24, v4Network 192 0 2 0 24, v4Network 192 88 99 0 24,
    v4Network 198 18 0 0 15, v4Network 198 51 100 0 24, v4Network 203 0 113 0 24,
    v4Network 224 0 0 0 3]

theorem isGlobalV4_of_contains {ip : BitVec 32} {n : Network 32} (hn : n ∈ rejectedV4)
    (h : n.contains ip = true) : isGlobalV4 ip = false := by
  have hlt := ip.isLt
  simp only [rejectedV4, List.mem_cons, List.not_mem_nil, or_false] at hn
  simp only [isGlobalV4, octets_eq]
  rcases hn with rfl | rfl | rfl | rfl | rfl | rfl | rfl | rfl | rfl | rfl | rfl | rfl | rfl | rfl
  · -- 0.0.0.0/8
    have ha : ip.toNat / 16777216 = 0 := contains_v4Network.mp h
    simp [ha]
  · have ha : ip.toNat / 16777216 = 10 := contains_v4Network.mp h
    simp [ha]
  · have ha : ip.toNat / 16777216 = 127 := contains_v4Network.mp h
    simp [ha]
  · -- 100.64.0.0/10 ends within an octet
    have hab : ip.toNat / 4194304 = 401 := contains_v4Network.mp h
    have ha : ip.toNat / 16777216 = 100 := by omega
    have hb : 64 ≤ ip.toNat / 65536 % 256 ∧ ip.toNat / 65536 % 256 ≤ 127 := by omega
    simp [ha, hb]
  · have hab : ip.toNat / 65536 = 43518 := contains_v4Network.mp h
    have ha : ip.toNat / 16777216 = 169 := by omega
    simp [ha, hab]
  · have hab : ip.toNat / 1048576 = 2753 := contains_v4Network.mp h
    have ha : ip.toNat / 16777216 = 172 := by omega
    have hb : 16 ≤ ip.toNat / 65536 % 256 ∧ ip.toNat / 65536 % 256 ≤ 31 := by omega
    simp [ha, hb]
  · have hab : ip.toNat / 65536 = 49320 := contains_v4Network.mp h
    have ha : ip.toNat / 16777216 = 192 := by omega
    simp [ha, hab]
  · have hc : ip.toNat / 256 = 12582912 := contains_v4Network.mp h
    have ha : ip.toNat / 16777216 = 192 := by omega
    have hb : ip.toNat / 65536 % 256 = 0 := by omega
    simp [ha, hb, hc]
  · have hc : ip.toNat / 256 = 12582914 := contains_v4Network.mp h
    have ha : ip.toNat / 16777216 = 192 := by omega
    have hb : ip.toNat / 65536 % 256 = 0 := by omega
    simp [ha, hb, hc]
  · have hc : ip.toNat / 256 = 12605539 := contains_v4Network.mp h
    have ha : ip.toNat / 16777216 = 192 := by omega
    have hb : ip.toNat / 65536 % 256 = 88 := by omega
    simp [ha, hb, hc]
  · have hab : ip.toNat / 131072 = 25353 := contains_v4Network.mp h
    have ha : ip.toNat / 16777216 = 198 := by omega
    have hb : ip.toNat / 65536 % 256 = 18 ∨ ip.toNat / 65536 % 256 = 19 := by omega
    rcases hb with hb | hb
    · simp [ha, hb]
    · simp [ha, hb]
  · have hc : ip.toNat / 256 = 12989284 := contains_v4Network.mp h
    have ha : ip.toNat / 16777216 = 198 := by omega
    have hb : ip.toNat / 65536 % 256 = 51 := by omega
    simp [ha, hb, hc]
  · have hc : ip.toNat / 256 = 13303921 := contains_v4Network.mp h
    have ha : ip.toNat / 16777216 = 203 := by omega
    have hb : ip.toNat / 65536 % 256 = 0 := by omega
    simp [ha, hb, hc]
  · -- 224.0.0.0/3, multicast and reserved
    have hab : ip.toNat / 536870912 = 7 := contains_v4Network.mp h
    have ha : 224 ≤ ip.toNat / 16777216 := by omega
    simp [ha]

/-! ### IPv6 -/

def globalUnicast : Network 128 := v6Network 0x20000000000000000000000000000000 3

def ietfAssignments : Network 128 := v6Network 0x20010000000000000000000000000000 23

def globallyReachable : List (Network 128) :=
  [v6Network 0x20010001000000000000000000000001 128,
    v6Network 0x20010001000000000000000000000002 128,
    v6Network 0x20010001000000000000000000000003 128,
    v6Network 0x20010003000000000000000000000000 32,
    v6Network 0x20010004011200000000000000000000 48,
    v6Network 0x20010020000000000000000000000000 28,
    v6Network 0x20010030000000000000000000000000 28]

/-- The networks that `isGlobalV6` rejects without exception. -/
def rejectedV6 : List (Network 128) :=
  [v6Network 0 96, v6Network 0xffff00000000 96, v6Network 0x20010db8000000000000000000000000 32,
    v6Network 0x20020000000000000000000000000000 16,
    v6Network 0x3fff0000000000000000000000000000 20]

variable {ip : BitVec 128}

theorem isSome_toIpv4 (h : (v6Network 0 96).contains ip = true ∨
    (v6Network 0xffff00000000 96).contains ip = true) : (toIpv4 ip).isSome = true := by
  have hshift : ip >>> 32 = 0 ∨ ip >>> 32 = 0xffff :=
    h.imp Network.contains_iff.mp Network.contains_iff.mp
  rw [toIpv4, if_pos hshift]
  rfl

theorem exists_of_isIetfGlobalIpv6Exception (h : isIetfGlobalIpv6Exception ip = true) :
    ∃ n ∈ globallyReachable, n.contains ip = true := by
  simp only [isIetfGlobalIpv6Exception, Bool.or_eq_true, Bool.and_eq_true, decide_eq_true_iff,
    BitVec.le_def] at h
  have hself : ∀ value : Nat, ip.toNat = value →
      (v6Network (BitVec.ofNat 128 value) 128).contains ip = true := by
    rintro value rfl
    rw [BitVec.ofNat_toNat, BitVec.setWidth_eq]
    exact beq_self_eq_true _
  rcases h with (((⟨hlow, hhigh⟩ | h) | h) | h) | h
  · have hlow : 0x20010001000000000000000000000001 ≤ ip.toNat := hlow
    have hhigh : ip.toNat ≤ 0x20010001000000000000000000000003 := hhigh
    have hcases : ip.toNat = 0x20010001000000000000000000000001 ∨
        ip.toNat = 0x20010001000000000000000000000002 ∨
        ip.toNat = 0x20010001000000000000000000000003 := by omega
    grind [globallyReachable]
  · exact ⟨v6Network 0x20010003000000000000000000000000 32, by simp [globallyReachable], h⟩
  · exact ⟨v6Network 0x20010004011200000000000000000000 48, by simp [globallyReachable], h⟩
  · exact ⟨v6Network 0x20010020000000000000000000000000 28, by simp [globallyReachable], h⟩
  · exact ⟨v6Network 0x20010030000000000000000000000000 28, by simp [globallyReachable], h⟩

theorem of_isGlobalV6 (h : isGlobalV6 ip = true) :
    globalUnicast.contains ip = true ∧ (∀ n ∈ rejectedV6, n.contains ip = false) ∧
      (ietfAssignments.contains ip = false ∨ ∃ n ∈ globallyReachable, n.contains ip = true) := by
  unfold isGlobalV6 at h
  split_ifs at h with hv4
  simp only [Bool.and_eq_true, Bool.or_eq_true, Bool.not_eq_true'] at h
  obtain ⟨⟨⟨⟨hglobal, hietf⟩, hdoc⟩, h6to4⟩, hdoc'⟩ := h
  refine ⟨hglobal, ?_, hietf.imp id exists_of_isIetfGlobalIpv6Exception⟩
  intro n hn
  simp only [rejectedV6, List.mem_cons, List.not_mem_nil, or_false] at hn
  rcases hn with rfl | rfl | rfl | rfl | rfl
  · exact Bool.eq_false_iff.mpr fun hc => hv4 (isSome_toIpv4 (Or.inl hc))
  · exact Bool.eq_false_iff.mpr fun hc => hv4 (isSome_toIpv4 (Or.inr hc))
  · exact hdoc
  · exact h6to4
  · exact hdoc'

/-! ### The special-purpose blocks -/

/-- The IPv4 blocks that are not globally reachable. -/
def specialPurposeV4 : List (Network 32) :=
  [v4Network 0 0 0 0 8, v4Network 0 0 0 0 32, v4Network 10 0 0 0 8, v4Network 100 64 0 0 10,
    v4Network 127 0 0 0 8, v4Network 169 254 0 0 16, v4Network 172 16 0 0 12,
    v4Network 192 0 0 0 24, v4Network 192 0 0 0 29, v4Network 192 0 0 8 32,
    v4Network 192 0 0 170 32, v4Network 192 0 0 171 32, v4Network 192 0 2 0 24,
    v4Network 192 88 99 0 24, v4Network 192 168 0 0 16, v4Network 198 18 0 0 15,
    v4Network 198 51 100 0 24, v4Network 203 0 113 0 24, v4Network 240 0 0 0 4,
    v4Network 255 255 255 255 32]

/-- The IPv6 blocks that are not globally reachable, up to `globallyReachable`. -/
def specialPurposeV6 : List (Network 128) :=
  [v6Network 0x1 128, v6Network 0x0 128, v6Network 0xffff00000000 96,
    v6Network 0x0064ff9b000100000000000000000000 48,
    v6Network 0x01000000000000000000000000000000 64,
    v6Network 0x01000000000000010000000000000000 64,
    v6Network 0x20010000000000000000000000000000 23,
    v6Network 0x20010000000000000000000000000000 32,
    v6Network 0x20010002000000000000000000000000 48,
    v6Network 0x20010010000000000000000000000000 28,
    v6Network 0x20010db8000000000000000000000000 32,
    v6Network 0x20020000000000000000000000000000 16,
    v6Network 0x3fff0000000000000000000000000000 20,
    v6Network 0x5f000000000000000000000000000000 16,
    v6Network 0xfc000000000000000000000000000000 7,
    v6Network 0xfe800000000000000000000000000000 10]

/-- The blocks of the addresses that embed an IPv4 address: IPv4-compatible, IPv4-mapped, 6to4,
Teredo, and the two blocks of NAT64. -/
def embedding : List (Network 128) :=
  [v6Network 0 96, v6Network 0xffff00000000 96, v6Network 0x20020000000000000000000000000000 16,
    v6Network 0x20010000000000000000000000000000 32,
    v6Network 0x0064ff9b000000000000000000000000 96,
    v6Network 0x0064ff9b000100000000000000000000 48]

def SpecialPurpose : IpAddr → Prop
  | .v4 ip => ∃ n ∈ specialPurposeV4, n.contains ip = true
  | .v6 ip => (∃ n ∈ specialPurposeV6, n.contains ip = true) ∧
      ∀ n ∈ globallyReachable, n.contains ip = false

def EmbedsIpv4 : IpAddr → Prop
  | .v4 _ => False
  | .v6 ip => ∃ n ∈ embedding, n.contains ip = true

theorem specialPurposeV4_covered :
    ∀ m ∈ specialPurposeV4, ∃ n ∈ rejectedV4, n.covers m = true := by
  decide

theorem specialPurposeV6_covered : ∀ m ∈ specialPurposeV6, globalUnicast.misses m = true ∨
    (∃ n ∈ rejectedV6, n.covers m = true) ∨ ietfAssignments.covers m = true := by
  decide

theorem embedding_covered : ∀ m ∈ embedding, globalUnicast.misses m = true ∨
    (∃ n ∈ rejectedV6, n.covers m = true) ∨ (ietfAssignments.covers m = true ∧
      ∀ n ∈ globallyReachable, n.misses m = true ∨ m.misses n = true) := by
  decide

theorem contains_false_of_misses {n m : Network 128}
    (h : n.misses m = true ∨ m.misses n = true) (hm : m.contains ip = true) :
    n.contains ip = false := by
  grind [Network.not_contains_of_misses]

/-- `isGlobal` is false on the special-purpose blocks that are not globally reachable. -/
theorem isGlobal_specialPurpose {address : IpAddr} (h : SpecialPurpose address) :
    isGlobal address = false := by
  cases address with
  | v4 ip =>
    obtain ⟨m, hm, hcontains⟩ := h
    obtain ⟨n, hn, hcovers⟩ := specialPurposeV4_covered m hm
    exact isGlobalV4_of_contains hn (Network.contains_of_covers hcovers hcontains)
  | v6 ip =>
    obtain ⟨⟨m, hm, hcontains⟩, hnone⟩ := h
    refine Bool.eq_false_iff.mpr fun hglobal => ?_
    obtain ⟨hunicast, hrejected, hietf⟩ := of_isGlobalV6 hglobal
    rcases specialPurposeV6_covered m hm with hmisses | ⟨n, hn, hcovers⟩ | hcovers
    · rw [Network.not_contains_of_misses hmisses hcontains] at hunicast
      cases hunicast
    · grind [Network.contains_of_covers]
    grind [Network.contains_of_covers]

theorem isGlobal_embedsIpv4 {address : IpAddr} (h : EmbedsIpv4 address) :
    isGlobal address = false := by
  cases address with
  | v4 ip => cases h
  | v6 ip =>
    obtain ⟨m, hm, hcontains⟩ := h
    refine Bool.eq_false_iff.mpr fun hglobal => ?_
    obtain ⟨hunicast, hrejected, hietf⟩ := of_isGlobalV6 hglobal
    rcases embedding_covered m hm with hmisses | ⟨n, hn, hcovers⟩ | ⟨hcovers, hapart⟩
    · rw [Network.not_contains_of_misses hmisses hcontains] at hunicast
      cases hunicast
    · grind [Network.contains_of_covers]
    grind [Network.contains_of_covers, contains_false_of_misses]

end Pkgly.Egress
