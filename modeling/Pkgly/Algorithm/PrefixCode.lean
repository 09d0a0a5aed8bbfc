import Mathlib.Data.List.Sigma
import Mathlib.Data.Nat.Notation

/-!
# Prefix codes

A `PrefixCode` writes values as bytes in such a way that what follows a value can be told from it,
and reads them back.  Codes are put together from those of their parts: pairs, lists, and any type
that is embedded in another one with a code (`PrefixCode.map`).  A whole text is read back by
`PrefixCode.read`.
-/

namespace Pkgly

/-- How the values of a type are written as bytes and read back. -/
structure PrefixCode (α : Type*) where
  encode : α → List UInt8
  decode : List UInt8 → Option (α × List UInt8)
  decode_encode : ∀ a rest, decode (encode a ++ rest) = some (a, rest)

namespace PrefixCode

variable {α β : Type*}

def read (code : PrefixCode α) (bytes : List UInt8) : Option α :=
  match code.decode bytes with
  | some (a, []) => some a
  | _ => none

@[simp] theorem read_encode (code : PrefixCode α) (a : α) : code.read (code.encode a) = some a := by
  have h := code.decode_encode a []
  rw [List.append_nil] at h
  rw [read, h]

/-! ### Codes -/

def byte : PrefixCode UInt8 where
  encode b := [b]
  decode
    | [] => none
    | b :: rest => some (b, rest)
  decode_encode _ _ := rfl

/-- The values of a type that is embedded in another one. -/
def map (code : PrefixCode α) (f : β → α) (g : α → Option β) (h : ∀ b, g (f b) = some b) :
    PrefixCode β where
  encode b := code.encode (f b)
  decode bytes := (code.decode bytes).bind fun r => (g r.1).map fun b => (b, r.2)
  decode_encode b rest := by
    rw [code.decode_encode, Option.bind_some, h, Option.map_some]

def pair (code : PrefixCode α) (code' : PrefixCode β) : PrefixCode (α × β) where
  encode p := code.encode p.1 ++ code'.encode p.2
  decode bytes := (code.decode bytes).bind fun r =>
    (code'.decode r.2).map fun r' => ((r.1, r'.1), r'.2)
  decode_encode p rest := by
    rw [List.append_assoc, code.decode_encode, Option.bind_some, code'.decode_encode,
      Option.map_some]

/-- Every value of a list is announced by a one, and its end by a zero. -/
def encodeList (code : PrefixCode α) : List α → List UInt8
  | [] => [0]
  | a :: as => 1 :: (code.encode a ++ encodeList code as)

/-- Reads no more values than its first argument says. -/
def decodeList (code : PrefixCode α) : ℕ → List UInt8 → Option (List α × List UInt8)
  | 0, _ => none
  | _ + 1, [] => none
  | fuel + 1, mark :: bytes =>
    if mark = 0 then some ([], bytes)
    else (code.decode bytes).bind fun r =>
      (decodeList code fuel r.2).map fun r' => (r.1 :: r'.1, r'.2)

theorem length_lt_encodeList (code : PrefixCode α) (as : List α) :
    as.length < (encodeList code as).length := by
  induction as with
  | nil => exact Nat.zero_lt_one
  | cons a as ih =>
    simp only [encodeList, List.length_cons, List.length_append]
    omega

theorem decodeList_encodeList (code : PrefixCode α) (as : List α) (rest : List UInt8) {fuel : ℕ}
    (hfuel : as.length < fuel) :
    decodeList code fuel (encodeList code as ++ rest) = some (as, rest) := by
  induction as generalizing fuel with
  | nil =>
    cases fuel with
    | zero => exact absurd hfuel (Nat.not_lt_zero _)
    | succ fuel => rfl
  | cons a as ih =>
    cases fuel with
    | zero => exact absurd hfuel (Nat.not_lt_zero _)
    | succ fuel =>
      have hmark : ¬ (1 : UInt8) = 0 := by decide
      rw [encodeList, List.cons_append, decodeList, if_neg hmark, List.append_assoc,
        code.decode_encode, Option.bind_some, ih (Nat.lt_of_succ_lt_succ hfuel), Option.map_some]

def list (code : PrefixCode α) : PrefixCode (List α) where
  encode := encodeList code
  decode bytes := decodeList code bytes.length bytes
  decode_encode as rest := by
    apply decodeList_encodeList
    have hlength := length_lt_encodeList code as
    rw [List.length_append]
    omega

def char : PrefixCode Char :=
  (pair byte (pair byte byte)).map
    (fun c => (UInt8.ofNat (c.toNat / 65536), UInt8.ofNat (c.toNat / 256), UInt8.ofNat c.toNat))
    (fun b => some (Char.ofNat (b.1.toNat * 65536 + b.2.1.toNat * 256 + b.2.2.toNat)))
    (by
      intro c
      have hlt : c.toNat < 16777216 := by
        have hvalid := c.valid
        rcases hvalid with h | h
        · exact Nat.lt_trans h (by decide)
        · exact Nat.lt_trans h.2 (by decide)
      grind [UInt8.toNat_ofNat', Char.ofNat_toNat])

def string : PrefixCode String :=
  (list char).map String.toList (fun cs => some (String.ofList cs)) (by simp)

def option (code : PrefixCode α) : PrefixCode (Option α) :=
  (list code).map Option.toList (fun as => some as.head?) (by intro a; cases a <;> rfl)

def bool : PrefixCode Bool :=
  byte.map (fun b => if b then 1 else 0) (fun byte => some (byte == 1))
    (by intro b; cases b <;> rfl)

def nat : PrefixCode ℕ :=
  (list byte).map (fun n => List.replicate n 0) (fun bytes => some bytes.length)
    (by intro n; rw [List.length_replicate])

end PrefixCode

end Pkgly
