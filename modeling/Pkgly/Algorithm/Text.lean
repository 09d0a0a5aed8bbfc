import Mathlib.Algebra.Group.Int.Defs
import Mathlib.Algebra.GroupWithZero.Nat
import Mathlib.Data.List.Basic
import Mathlib.Data.List.Infix

/-!
# Splitting and matching texts

Prefix tests and splits of strings, as functions of their lists of characters:

* `startsWith` / `endsWith` / `stripSuffix` for prefixes and suffixes, `containsText` for infixes;
* `splitOnce pat s` cuts `s` at the first occurrence of `pat`
  (`splitOnce_eq_some_iff` says what it returns, `splitOnce_append` computes it on a text
  whose head avoids the first character of the pattern);
* `segments sep s` are the non-empty pieces of `s` between separators, a monoid morphism up to
  the separator (`segments_append`); `pieces sep s` are all of them, and `words s` the non-empty
  ones between white space;
* `intoBytes` and `fromUtf8` are the bytes of a text and back.
-/

namespace Pkgly

/-! ### Prefixes and suffixes -/

/-- `s` starts with `pat`. -/
def startsWith (pat s : String) : Bool := pat.toList.isPrefixOf s.toList

/-- `s` ends with `pat`. -/
def endsWith (pat s : String) : Bool := pat.toList.isSuffixOf s.toList

/-- `pat` occurs in `s`. -/
def containsText (pat s : String) : Bool := s.toList.tails.any pat.toList.isPrefixOf

variable {s : String} {sep : Char}

theorem containsText_iff {pat : String} : containsText pat s = true ↔ pat.toList <:+: s.toList := by
  rw [containsText, List.any_eq_true, List.infix_iff_prefix_suffix]
  refine exists_congr fun t => ?_
  rw [List.mem_tails, List.isPrefixOf_iff_prefix]
  exact and_comm

/-- A text built around `pat` contains it. -/
theorem containsText_append (a pat b : String) : containsText pat (a ++ (pat ++ b)) = true := by
  simp [containsText_iff, String.toList_append]

theorem startsWith_iff {pat : String} : startsWith pat s = true ↔ pat.toList <+: s.toList :=
  List.isPrefixOf_iff_prefix

/-- A text built by prepending `pat` starts with it. -/
@[simp] theorem startsWith_append (pat s : String) : startsWith pat (pat ++ s) = true := by
  rw [startsWith_iff, String.toList_append]
  exact List.prefix_append _ _

/-- The rest of `s` before the suffix `pat`, if `s` ends with it. -/
def stripSuffix (pat s : List Char) : Option (List Char) :=
  if pat.isSuffixOf s then some (s.take (s.length - pat.length)) else none

theorem stripSuffix_eq_some_iff {pat s base : List Char} :
    stripSuffix pat s = some base ↔ s = base ++ pat := by
  unfold stripSuffix
  constructor
  · intro h
    split_ifs at h with hs
    obtain rfl := Option.some.inj h
    obtain ⟨t, rfl⟩ := List.isSuffixOf_iff_suffix.mp hs
    simp
  · rintro rfl
    rw [if_pos (List.isSuffixOf_iff_suffix.mpr (List.suffix_append _ _))]
    simp

def toAsciiLowercase (s : String) : String := String.ofList (s.toList.map Char.toLower)

theorem isUpper_iff {ch : Char} : ch.isUpper = true ↔ 65 ≤ ch.toNat ∧ ch.toNat ≤ 90 :=
  decide_eq_true_iff.trans (and_congr UInt32.le_iff_toNat_le UInt32.le_iff_toNat_le)

theorem isLower_iff {ch : Char} : ch.isLower = true ↔ 97 ≤ ch.toNat ∧ ch.toNat ≤ 122 :=
  (Bool.and_eq_true_iff.trans (and_congr decide_eq_true_iff decide_eq_true_iff)).trans
    (and_congr UInt32.le_iff_toNat_le UInt32.le_iff_toNat_le)

theorem isAlpha_eq (ch : Char) : ch.isAlpha = (ch.isUpper || ch.isLower) := rfl

/-- An upper-case letter becomes a lower-case one, and nothing else changes. -/
theorem toLower_cases (ch : Char) :
    ch.isUpper = true ∧ ch.toLower.isLower = true ∨ ch.isUpper = false ∧ ch.toLower = ch := by
  cases h : ch.isUpper with
  | true =>
    have hupper := isUpper_iff.mp h
    have hlower : ch.toLower = _ := dif_pos (of_decide_eq_true h)
    have htoNat : ch.toLower.toNat = ch.toNat + 32 := by
      rw [hlower]
      exact Nat.mod_eq_of_lt (show ch.toNat + 32 < 4294967296 by omega)
    exact .inl ⟨rfl, isLower_iff.mpr (by omega)⟩
  | false =>
    refine .inr ⟨rfl, dif_neg fun hc => ?_⟩
    cases h.symm.trans (decide_eq_true hc)

theorem toLower_toLower (ch : Char) : ch.toLower.toLower = ch.toLower := by
  rcases toLower_cases ch with ⟨-, hlower⟩ | ⟨-, heq⟩
  · rcases toLower_cases ch.toLower with ⟨hupper, -⟩ | ⟨-, heq⟩
    · have hupper := isUpper_iff.mp hupper
      have hlower := isLower_iff.mp hlower
      omega
    · exact heq
  · rw [heq, heq]

theorem toAsciiLowercase_idem (s : String) :
    toAsciiLowercase (toAsciiLowercase s) = toAsciiLowercase s := by
  grind [List.map_map, List.map_congr_left, toLower_toLower, toAsciiLowercase, String.toList_ofList]

/-- White space (`char::is_whitespace`). -/
def isWhitespace (c : Char) : Bool :=
  let n := c.toNat
  (9 ≤ n && n ≤ 13) || n ∈ [0x20, 0x85, 0xa0, 0x1680, 0x2028, 0x2029, 0x202f, 0x205f, 0x3000] ||
    (0x2000 ≤ n && n ≤ 0x200a)

/-- `s` without the white space around it. -/
def trim (s : String) : List Char :=
  ((s.toList.dropWhile isWhitespace).reverse.dropWhile isWhitespace).reverse

def digitsValue (digits : List Char) : ℕ :=
  digits.foldl (fun n ch => 10 * n + (ch.toNat - '0'.toNat)) 0

/-- `parse::<u64>`: digits after an optional plus sign. -/
def parseU64 (text : List Char) : Option ℕ :=
  let digits := match text with
    | '+' :: digits => digits
    | digits => digits
  if !digits.isEmpty && digits.all Char.isDigit && decide (digitsValue digits < 2 ^ 64) then
    some (digitsValue digits)
  else none

/-- `str::lines`: a line break ends a line, with the carriage return before it. -/
def lines (s : String) : List (List Char) :=
  let parts := s.toList.splitOn '\n'
  parts.dropLast.map (fun line => (stripSuffix ['\r'] line).getD line) ++
    (parts.getLast?.filter fun last => !last.isEmpty).toList

def eqIgnoreAsciiCase (s t : String) : Bool := toAsciiLowercase s == toAsciiLowercase t

/-! ### The first occurrence of a pattern -/

/-- Cut `s` at the first occurrence of `pat`: what stands before it and what stands after it. -/
def splitOnce (pat : List Char) : List Char → Option (List Char × List Char)
  | [] => if pat = [] then some ([], []) else none
  | c :: s =>
    if pat.isPrefixOf (c :: s) then some ([], (c :: s).drop pat.length)
    else (splitOnce pat s).map fun r => (c :: r.1, r.2)

/-- What `splitOnce` returns are the two sides of an occurrence. -/
theorem eq_of_splitOnce {pat s a b : List Char} (h : splitOnce pat s = some (a, b)) :
    s = a ++ pat ++ b := by
  induction s generalizing a with
  | nil =>
    rw [splitOnce] at h
    grind
  | cons c s ih =>
    rw [splitOnce] at h
    split_ifs at h with hp
    · obtain ⟨rfl, rfl⟩ := Prod.mk.inj (Option.some.inj h)
      obtain ⟨t, ht⟩ := List.isPrefixOf_iff_prefix.mp hp
      rw [← ht, List.drop_left, List.nil_append]
    aesop

/-- A head without the pattern's first character is skipped whole. -/
theorem splitOnce_append {p : Char} {pat base : List Char} (hbase : p ∉ base)
    (rest : List Char) : splitOnce (p :: pat) (base ++ p :: (pat ++ rest)) = some (base, rest) := by
  induction base with
  | nil =>
    simp [List.prefix_append, List.nil_append, splitOnce]
  | cons c base ih =>
    simp_all [List.mem_cons, not_or, List.isPrefixOf_cons_cons, List.cons_append, splitOnce]

/-- Without the pattern's first character there is no occurrence. -/
theorem splitOnce_eq_none {p : Char} {pat s : List Char} (hs : p ∉ s) :
    splitOnce (p :: pat) s = none := by
  cases hr : splitOnce (p :: pat) s with
  | none => rfl
  | some r =>
    refine absurd ?_ hs
    rw [eq_of_splitOnce hr]
    simp

/-! ### Pieces between separators -/

/-- The non-empty pieces of `s` between occurrences of `sep`. -/
def segments (sep : Char) (s : String) : List String :=
  ((s.toList.splitOn sep).filter (· ≠ [])).map String.ofList

/-- All pieces of `s` between occurrences of `sep`. -/
def pieces (sep : Char) (s : String) : List String := (s.toList.splitOn sep).map String.ofList

/-- The non-empty pieces of `s` between white space. -/
def words (s : String) : List String :=
  ((s.toList.splitOnP isWhitespace).filter (· ≠ [])).map String.ofList

/-- The pieces of two texts joined by a separator are those of each in turn. -/
theorem segments_append (sep : Char) (s t : String) :
    segments sep (s ++ (String.ofList [sep] ++ t)) = segments sep s ++ segments sep t := by
  unfold segments
  rw [String.toList_append, String.toList_append, String.toList_ofList, List.singleton_append,
    List.splitOn_append_cons_self, List.filter_append, List.map_append]

theorem pieces_append (sep : Char) (s t : String) :
    pieces sep (s ++ (String.ofList [sep] ++ t)) = pieces sep s ++ pieces sep t := by
  unfold pieces
  rw [String.toList_append, String.toList_append, String.toList_ofList, List.singleton_append,
    List.splitOn_append_cons_self, List.map_append]

theorem pieces_eq_singleton (hsep : sep ∉ s.toList) : pieces sep s = [s] := by
  rw [pieces, List.splitOn_eq_singleton hsep, List.map_singleton, String.ofList_toList]

/-- A non-empty text without separators is its own only piece. -/
theorem segments_eq_singleton (hsep : sep ∉ s.toList)
    (hs : s.toList ≠ []) : segments sep s = [s] := by
  rw [segments, List.splitOn_eq_singleton hsep]
  simp [hs]

@[simp] theorem segments_empty (sep : Char) : segments sep "" = [] := by
  simp [segments]

theorem ne_empty_of_mem_segments {x : String} (hx : x ∈ segments sep s) : x.toList ≠ [] := by
  obtain ⟨l, hl, rfl⟩ := List.mem_map.mp hx
  rw [String.toList_ofList]
  simpa using (List.mem_filter.mp hl).2

theorem notMem_of_mem_splitOn {s l : List Char} (hl : l ∈ s.splitOn sep) : sep ∉ l := by
  induction s generalizing l with
  | nil =>
    rw [List.splitOn_nil, List.mem_singleton] at hl
    rw [hl]
    exact List.not_mem_nil
  | cons c s ih =>
    rw [List.splitOn_cons_eq_if_modifyHead] at hl
    split_ifs at hl with hc
    · rcases List.mem_cons.mp hl with rfl | hl
      · exact List.not_mem_nil
      · exact ih hl
    · cases hsplit : s.splitOn sep with
      | nil =>
        rw [hsplit] at hl
        cases hl
      | cons head tail =>
        aesop

theorem notMem_of_mem_segments {x : String} (hx : x ∈ segments sep s) : sep ∉ x.toList := by
  obtain ⟨l, hl, rfl⟩ := List.mem_map.mp hx
  rw [String.toList_ofList]
  exact notMem_of_mem_splitOn (List.mem_filter.mp hl).1

/-- Text without separators extends the last piece. -/
theorem splitOn_append_of_notMem {t : List Char} (ht : sep ∉ t) (s : List Char) :
    ∃ front last, s.splitOn sep = front ++ [last] ∧
      (s ++ t).splitOn sep = front ++ [last ++ t] := by
  induction s with
  | nil => exact ⟨[], [], by simp, by simp [List.splitOn_eq_singleton ht]⟩
  | cons c s ih =>
    obtain ⟨front, last, hs, hst⟩ := ih
    rw [List.cons_append, List.splitOn_cons_eq_if_modifyHead, List.splitOn_cons_eq_if_modifyHead,
      hs, hst]
    split_ifs with hc
    · exact ⟨[] :: front, last, rfl, rfl⟩
    · cases front with
      | nil => exact ⟨[], c :: last, rfl, rfl⟩
      | cons head front => exact ⟨(c :: head) :: front, last, rfl, rfl⟩

/-- The last piece of a text ends as the text does. -/
theorem getLast?_segments_append {suffix : String} (hsep : sep ∉ suffix.toList)
    (hne : suffix.toList ≠ []) (s : String) :
    ∃ stem, (segments sep (s ++ suffix)).getLast? = some (stem ++ suffix) := by
  obtain ⟨front, last, -, hst⟩ := splitOn_append_of_notMem hsep s.toList
  refine ⟨String.ofList last, ?_⟩
  simp_all [segments, String.toList_append, List.filter_append, List.map_append,
    String.ofList_append, String.ofList_toList]

/-! ### Bytes -/

def intoBytes (s : String) : List UInt8 := s.toUTF8.data.toList

def fromUtf8 (bytes : List UInt8) : Option String := String.fromUTF8? ⟨bytes.toArray⟩

@[simp] theorem fromUtf8_intoBytes (s : String) : fromUtf8 (intoBytes s) = some s := by
  unfold fromUtf8 intoBytes String.fromUTF8?
  simp [String.fromUTF8, s.isValidUTF8]

theorem intoBytes_append (s t : String) : intoBytes (s ++ t) = intoBytes s ++ intoBytes t := by
  simp [intoBytes]

theorem intoBytes_of_fromUtf8 {bytes : List UInt8} (h : fromUtf8 bytes = some s) :
    intoBytes s = bytes := by
  unfold fromUtf8 String.fromUTF8? at h
  split at h
  · obtain rfl := Option.some.inj h
    simp [intoBytes, String.fromUTF8]
  · cases h

theorem intoBytes_eq_flatMap (s : String) :
    intoBytes s = s.toList.flatMap String.utf8EncodeChar := by
  obtain ⟨l, rfl⟩ : ∃ l, s = String.ofList l := ⟨s.toList, String.ofList_toList.symm⟩
  rw [String.toList_ofList]
  unfold intoBytes
  simp [String.toUTF8, String.toByteArray_ofList, List.utf8Encode]

end Pkgly
