import Mathlib.Data.List.Basic
import Pkgly.Storage.DynStorage

/-!
# SHA-256

Content addressing uses SHA-256 as an injective function to lower-case hexadecimal texts
(`Sha256`).  The digest of a content is `sha256:` followed by its hash.  `Sha256.hexText`, which
writes the bytes themselves in hexadecimal, is such a function.
-/

namespace Pkgly

/-- The digits of `{:x}`. -/
def isLowerHex (c : Char) : Bool := c.isDigit || ('a' ≤ c && c ≤ 'f')

/-- An idealised SHA-256, printed in lower-case hexadecimal. -/
structure Sha256 where
  hex : Bytes → String
  injective : Function.Injective hex
  isLowerHex_of_mem : ∀ b, ∀ c ∈ (hex b).toList, isLowerHex c = true

namespace Sha256

/-- `format!("sha256:{:x}", Sha256::digest(content))`. -/
def digest (sha : Sha256) (content : Bytes) : String := "sha256:" ++ sha.hex content

theorem digest_injective (sha : Sha256) : Function.Injective sha.digest := by
  intro a b h
  have h : (sha.digest a).toList = (sha.digest b).toList := congrArg String.toList h
  rw [digest, digest, String.toList_append, String.toList_append, List.append_cancel_left_eq] at h
  exact sha.injective (String.toList_inj.mp h)

theorem slash_notMem_digest (sha : Sha256) (content : Bytes) :
    '/' ∉ (sha.digest content).toList := by
  rw [digest, String.toList_append, List.mem_append, not_or]
  refine ⟨by decide, fun h => ?_⟩
  exact absurd (sha.isLowerHex_of_mem content '/' h) (by decide)

theorem digest_ne_nil (sha : Sha256) (content : Bytes) : (sha.digest content).toList ≠ [] := by
  rw [digest, String.toList_append]
  exact List.append_ne_nil_of_left_ne_nil (by decide) _

/-! ### An instance -/

def hexDigit (n : Nat) : Char := Char.ofNat (if n < 10 then 48 + n else 87 + n)

def hexPair (b : UInt8) : List Char := [hexDigit (b.toNat / 16), hexDigit (b.toNat % 16)]

def digitValue (c : Char) : Nat := if c.toNat < 58 then c.toNat - 48 else c.toNat - 87

theorem digitValue_hexDigit : ∀ n < 16, digitValue (hexDigit n) = n := by decide

theorem isLowerHex_hexDigit : ∀ n < 16, isLowerHex (hexDigit n) = true := by decide

theorem hexPair_injective : Function.Injective hexPair := by
  intro a b h
  obtain ⟨h1, h2⟩ := List.cons_eq_cons.mp h
  have ha : a.toNat < 256 := a.toNat_lt
  have hb : b.toNat < 256 := b.toNat_lt
  have hhi : a.toNat / 16 = b.toNat / 16 := by
    rw [← digitValue_hexDigit (a.toNat / 16) (by omega), h1, digitValue_hexDigit _ (by omega)]
  have hlo : a.toNat % 16 = b.toNat % 16 := by grind [digitValue_hexDigit]
  exact UInt8.toNat_inj.mp (by omega)

theorem flatMap_hexPair_injective : Function.Injective fun l : Bytes => l.flatMap hexPair := by
  intro l
  induction l with
  | nil =>
    intro l' h
    cases l' with
    | nil => rfl
    | cons b l' => simp [hexPair] at h
  | cons a l ih =>
    intro l' h
    cases l' with
    | nil => simp [hexPair] at h
    | cons b l' =>
      simp only [List.flatMap_cons] at h
      obtain ⟨hab, hl⟩ := List.append_inj h rfl
      rw [hexPair_injective hab, ih hl]

/-- Writing out the bytes themselves is an injective function to hexadecimal texts. -/
def hexText : Sha256 where
  hex b := String.ofList (b.flatMap hexPair)
  injective := by
    intro a b h
    exact flatMap_hexPair_injective (String.ofList_inj.mp h)
  isLowerHex_of_mem b c hc := by
    rw [String.toList_ofList, List.mem_flatMap] at hc
    obtain ⟨a, -, hc⟩ := hc
    have ha : a.toNat < 256 := a.toNat_lt
    rcases List.mem_cons.mp hc with rfl | hc
    · exact isLowerHex_hexDigit _ (by omega)
    · rw [List.mem_singleton.mp hc]
      exact isLowerHex_hexDigit _ (by omega)

end Sha256

end Pkgly
