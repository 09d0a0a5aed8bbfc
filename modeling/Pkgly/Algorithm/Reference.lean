import Pkgly.Algorithm.Text

/-!
# References between pages

How a client follows a relative reference on a page, and how a server reads the path that it is
asked for.  A page is known by the directories it stands in, from the root of the site on:

* `referencePath` and `referenceFragment` cut a reference;
* `followReference` resolves its path against the directories of the page;
* `percentDecodeStr` decodes the percent escapes of a path.

`followReference_parents` follows a reference that goes up to the root and down again, and
`percentDecodeStr_slash` decodes a path piece by piece.
-/

namespace Pkgly

/-! ### References -/

def referencePath (reference : String) : String :=
  String.ofList (reference.toList.takeWhile fun ch => ch != '#' && ch != '?')

def referenceFragment (reference : String) : Option String :=
  (splitOnce ['#'] reference.toList).map fun r => String.ofList r.2

/-- Walk through the segments of a path from a directory; `none` above the root. -/
def walkSegments (directory : List String) : List String → Option (List String)
  | [] => some directory
  | segment :: rest =>
    if segment = ".." then
      if directory = [] then none else walkSegments directory.dropLast rest
    else if segment = "." then walkSegments directory rest
    else walkSegments (directory ++ [segment]) rest

/-- The path that a relative reference on a page in `directory` leads to. -/
def followReference (directory : List String) (reference : String) : Option String :=
  if startsWith "/" (referencePath reference) then none
  else (walkSegments directory (pieces '/' (referencePath reference))).map (String.intercalate "/")

theorem walkSegments_append {segments : List String} (h : ∀ s ∈ segments, s ≠ "." ∧ s ≠ "..")
    (directory : List String) : walkSegments directory segments = some (directory ++ segments) := by
  induction segments generalizing directory with
  | nil => rw [walkSegments, List.append_nil]
  | cons s rest ih =>
    simp_all [walkSegments, List.append_assoc]

/-- As many steps up as there are directories lead to the root. -/
theorem walkSegments_parents (directory : List String) (segments : List String) :
    walkSegments directory (List.replicate directory.length ".." ++ segments) =
      walkSegments [] segments := by
  induction directory using List.reverseRecOn with
  | nil => rfl
  | append_singleton directory last ih =>
    rw [List.length_append, List.length_singleton, List.replicate_succ, List.cons_append,
      walkSegments, if_pos rfl, if_neg (by simp), List.dropLast_concat, ih]

/-- The path of a reference without query and fragment characters, up to the fragment. -/
theorem referencePath_append {path tail : String}
    (hpath : ∀ ch ∈ path.toList, ch ≠ '#' ∧ ch ≠ '?') (htail : startsWith "#" tail ∨ tail = "") :
    referencePath (path ++ tail) = path := by
  have hcut : tail.toList.takeWhile (fun ch => ch != '#' && ch != '?') = [] := by
    rcases htail with htail | rfl
    · obtain ⟨rest, hrest⟩ := startsWith_iff.mp htail
      grind [List.singleton_append, List.takeWhile_cons_of_neg]
    · rfl
  grind [referencePath, String.toList_append, List.takeWhile_append_of_pos, String.ofList_toList]

theorem referenceFragment_append {path : String} (hpath : '#' ∉ path.toList) (fragment : String) :
    referenceFragment (path ++ ("#" ++ fragment)) = some fragment := by
  grind [splitOnce, splitOnce_append, referenceFragment, String.toList_append,
    List.singleton_append, String.ofList_toList]

theorem referenceFragment_eq_none {path : String} (hpath : '#' ∉ path.toList) :
    referenceFragment path = none := by
  rw [referenceFragment, splitOnce_eq_none hpath, Option.map_none]

/-! ### Percent escapes -/

def hexDigitValue (b : UInt8) : Option UInt8 :=
  if 48 ≤ b && b ≤ 57 then some (b - 48)
  else if 65 ≤ b && b ≤ 70 then some (b - 55)
  else if 97 ≤ b && b ≤ 102 then some (b - 87)
  else none

/-- `percent_decode`; what is no escape stays. -/
def percentDecodeBytes : List UInt8 → List UInt8
  | [] => []
  | [a] => [a]
  | [a, b] => [a, b]
  | a :: b :: c :: rest =>
    if a = 37 then
      match hexDigitValue b, hexDigitValue c with
      | some high, some low => (16 * high + low) :: percentDecodeBytes rest
      | _, _ => a :: percentDecodeBytes (b :: c :: rest)
    else a :: percentDecodeBytes (b :: c :: rest)

/-- `percent_decode_str` and `decode_utf8`. -/
def percentDecodeStr (text : String) : Option String :=
  fromUtf8 (percentDecodeBytes (intoBytes text))

/-- A byte that starts no escape stays. -/
theorem percentDecodeBytes_cons {a : UInt8} {s : List UInt8}
    (h : ∀ b c rest, a = 37 → s = b :: c :: rest →
      hexDigitValue b = none ∨ hexDigitValue c = none) :
    percentDecodeBytes (a :: s) = a :: percentDecodeBytes s := by
  rcases s with _ | ⟨b, _ | ⟨c, rest⟩⟩
  · rfl
  · rfl
  · rw [percentDecodeBytes]
    split_ifs with ha
    · grind
    · rfl

theorem percentDecodeBytes_slash (s t : List UInt8) : percentDecodeBytes (s ++ 47 :: t) =
    percentDecodeBytes s ++ 47 :: percentDecodeBytes t := by
  have hslash : percentDecodeBytes (47 :: t) = 47 :: percentDecodeBytes t :=
    percentDecodeBytes_cons fun _ _ _ h => absurd h (by decide)
  have hone : ∀ a, percentDecodeBytes (a :: 47 :: t) = a :: 47 :: percentDecodeBytes t := by
    intro a
    rw [percentDecodeBytes_cons, hslash]
    rintro b c rest - h
    obtain ⟨rfl, -⟩ := List.cons_eq_cons.mp h
    exact .inl (by decide)
  induction s using percentDecodeBytes.induct with
  | case1 => exact hslash
  | case2 a => exact hone a
  | case3 a b =>
    rw [List.cons_append, List.singleton_append, percentDecodeBytes_cons, hone]
    · rfl
    aesop
  | case4 b c rest high low hb hc ih =>
    simp only [List.cons_append, percentDecodeBytes, if_true, hb, hc, ih]
  | case5 b c rest hno ih =>
    have hkeep : ∀ tail, percentDecodeBytes (37 :: b :: c :: tail) =
        37 :: percentDecodeBytes (b :: c :: tail) := by
      refine fun tail => percentDecodeBytes_cons fun x y rest' _ h => ?_
      obtain ⟨rfl, htail⟩ := List.cons_eq_cons.mp h
      obtain ⟨rfl, -⟩ := List.cons_eq_cons.mp htail
      cases hb : hexDigitValue b with
      | none => exact .inl rfl
      | some high =>
        refine .inr (Option.eq_none_iff_forall_ne_some.mpr fun low hc => hno high low hb hc)
    grind
  | case6 a b c rest ha ih =>
    grind [percentDecodeBytes_cons, absurd, percentDecodeBytes]

theorem percentDecodeStr_eq_self_iff {text : String} :
    percentDecodeStr text = some text ↔ percentDecodeBytes (intoBytes text) = intoBytes text := by
  constructor
  · intro h
    exact (intoBytes_of_fromUtf8 h).symm
  · intro h
    rw [percentDecodeStr, h, fromUtf8_intoBytes]

/-- A path whose pieces have no escapes has none. -/
theorem percentDecodeStr_slash {a b : String} (ha : percentDecodeStr a = some a)
    (hb : percentDecodeStr b = some b) :
    percentDecodeStr (a ++ ("/" ++ b)) = some (a ++ ("/" ++ b)) := by
  rw [percentDecodeStr_eq_self_iff] at *
  rw [intoBytes_append, intoBytes_append, show intoBytes "/" = [47] by decide,
    List.singleton_append, percentDecodeBytes_slash, ha, hb]

theorem percentDecodeBytes_of_notMem {bytes : List UInt8} (h : 37 ∉ bytes) :
    percentDecodeBytes bytes = bytes := by
  induction bytes with
  | nil => rfl
  | cons a rest ih =>
    grind [List.ne_and_not_mem_of_not_mem_cons, percentDecodeBytes_cons, absurd]

theorem eq_percent_of_mem_utf8EncodeChar {ch : Char} (h : (37 : UInt8) ∈ String.utf8EncodeChar ch) :
    ch = '%' := by
  have hbyte : ∀ n, (37 : UInt8) = UInt8.ofNat n → n % 256 = 37 := by
    intro n hn
    have hnat := congrArg UInt8.toNat hn
    rw [UInt8.toNat_ofNat'] at hnat
    exact hnat.symm
  unfold String.utf8EncodeChar at h
  simp only [] at h
  split_ifs at h
  · have hv := hbyte _ (List.mem_singleton.mp h)
    refine Char.toNat_inj.mp ?_
    change ch.val.toNat = 37
    omega
  · grind
  all_goals
    exfalso
    simp only [List.mem_cons, List.not_mem_nil, or_false] at h
  · rcases h with h | h | h
    all_goals
      have hv := hbyte _ h
      omega
  · rcases h with h | h | h | h
    all_goals
      have hv := hbyte _ h
      omega

theorem notMem_intoBytes {text : String} (h : '%' ∉ text.toList) :
    (37 : UInt8) ∉ intoBytes text := by
  grind [intoBytes_eq_flatMap, eq_percent_of_mem_utf8EncodeChar]

theorem percentDecodeStr_of_notMem {text : String} (h : '%' ∉ text.toList) :
    percentDecodeStr text = some text :=
  percentDecodeStr_eq_self_iff.mpr (percentDecodeBytes_of_notMem (notMem_intoBytes h))

theorem percentDecodeBytes_append {s : List UInt8} (h : 37 ∉ s) (t : List UInt8) :
    percentDecodeBytes (s ++ t) = s ++ percentDecodeBytes t := by
  induction s with
  | nil => rfl
  | cons a s ih =>
    grind [List.ne_and_not_mem_of_not_mem_cons, percentDecodeBytes_cons, absurd]

theorem fromUtf8_append (text : String) (bytes : List UInt8) :
    fromUtf8 (intoBytes text ++ bytes) = (fromUtf8 bytes).map (text ++ ·) := by
  cases hbytes : fromUtf8 bytes with
  | some rest =>
    rw [← intoBytes_of_fromUtf8 hbytes, ← intoBytes_append, fromUtf8_intoBytes, Option.map_some]
  | none =>
    rw [Option.map_none, Option.eq_none_iff_forall_ne_some]
    intro whole hwhole
    have happend := intoBytes_of_fromUtf8 hwhole
    have hprefix : text.toList <+: whole.toList := by
      refine List.isPrefix_of_utf8Encode_append_eq_utf8Encode ⟨bytes.toArray⟩ ?_
      have hencode : ∀ s : String, s.toList.utf8Encode = s.toByteArray := fun s => by
        rw [← String.toByteArray_ofList, String.ofList_toList]
      rw [hencode, hencode]
      ext1
      rw [ByteArray.data_append, ← Array.toList_inj, Array.toList_append]
      exact happend.symm
    obtain ⟨rest, hrest⟩ := hprefix
    have hwholeEq : whole = text ++ String.ofList rest := by
      rw [← String.toList_inj, String.toList_append, String.toList_ofList, hrest]
    grind [intoBytes_append, List.append_cancel_left, fromUtf8_intoBytes]

theorem percentDecodeStr_append {front : String} (h : '%' ∉ front.toList) (text : String) :
    percentDecodeStr (front ++ text) = (percentDecodeStr text).map (front ++ ·) := by
  rw [percentDecodeStr, intoBytes_append, percentDecodeBytes_append (notMem_intoBytes h),
    fromUtf8_append, percentDecodeStr]

end Pkgly
