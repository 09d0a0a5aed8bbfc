import Pkgly.Ruby.Hosted
import Pkgly.Ruby.Utils

/-!
# Correctness of the gem file names

`parseGemFileName` reads the file name of a gem back if and only if no part of the platform behind a
dash can be taken for a version (`parseGemFileName_gemFileName_iff`): the dashes are tried from the
right, and the platform may have dashes of its own.
-/

namespace Pkgly.Ruby

/-- What stands behind one of the dashes of the text is taken for a version. -/
def hasVersion : List Char → Bool
  | [] => false
  | ch :: rest => (ch == '-' && (cutVersion rest).isSome) || hasVersion rest

theorem cutVersion_nil : cutVersion [] = none := by decide

theorem hasVersion_append {text : List Char} (h : '-' ∉ text) (rest : List Char) :
    hasVersion (text ++ rest) = hasVersion rest := by
  induction text with
  | nil => rfl
  | cons ch text ih =>
    obtain ⟨hch, htext⟩ := List.ne_and_not_mem_of_not_mem_cons h
    rw [List.cons_append, hasVersion, ih htext, beq_eq_false_iff_ne.mpr hch.symm, Bool.false_and,
      Bool.false_or]

/-! ### Trying the dashes -/

/-- Behind some text, the dashes are tried in vain if nothing looks like a version. -/
theorem parseFrom_eq_none_iff {left : List Char} (hleft : left ≠ []) (rest : List Char) :
    parseFrom left rest = none ↔ hasVersion rest = false := by
  induction rest generalizing left with
  | nil => exact iff_of_true rfl rfl
  | cons ch rest ih =>
    have hnext := ih (List.append_ne_nil_of_left_ne_nil hleft [ch])
    rw [parseFrom, hasVersion, Bool.or_eq_false_iff, ← hnext]
    cases hparse : parseFrom (left ++ [ch]) rest with
    | some parsed => exact iff_of_false (by simp) (by simp)
    | none =>
      have hempty : left.isEmpty = false := by simpa using hleft
      by_cases hch : ch = '-'
      · cases hrest : rest with
        | nil => simp [cutVersion_nil]
        | cons c cs => simp [hch, hempty]
      · simp [hch]

theorem prefix_of_parseFrom {left rest : List Char} {parsed : ParsedGemFileName}
    (h : parseFrom left rest = some parsed) : left <+: parsed.name.toList := by
  induction rest generalizing left with
  | nil => cases h
  | cons ch rest ih =>
    rw [parseFrom] at h
    split at h
    · rename_i found hfound
      obtain rfl := Option.some.inj h
      exact (List.prefix_append left [ch]).trans (ih hfound)
    aesop

theorem parseFrom_append {left text rest : List Char} {parsed : ParsedGemFileName}
    (h : parseFrom (left ++ text) rest = some parsed) :
    parseFrom left (text ++ rest) = some parsed := by
  induction text generalizing left with
  | nil => rwa [List.append_nil] at h
  | cons ch text ih =>
    grind [parseFrom, List.append_assoc, List.singleton_append]

theorem parseFrom_name_iff {name rest version : List Char} {platform : Option (List Char)}
    (hname : name ≠ []) (hcut : cutVersion rest = some (version, platform)) :
    parseFrom [] (name ++ '-' :: rest) =
        some ⟨String.ofList name, String.ofList version, platform.map String.ofList⟩ ↔
      hasVersion rest = false := by
  have hlater : name ++ ['-'] ≠ [] := List.append_ne_nil_of_left_ne_nil hname _
  rw [← parseFrom_eq_none_iff hlater]
  have hrest : rest.isEmpty = false := by grind [cutVersion_nil]
  have hempty : name.isEmpty = false := by simpa using hname
  cases hparse : parseFrom (name ++ ['-']) rest with
  | none =>
    refine iff_of_true (parseFrom_append ?_) rfl
    rw [List.nil_append, parseFrom, hparse]
    simp [hempty, hrest, hcut]
  | some parsed =>
    have hfound : parseFrom [] (name ++ '-' :: rest) = some parsed := by
      refine parseFrom_append ?_
      rw [List.nil_append, parseFrom, hparse]
    refine iff_of_false (fun h => ?_) (by simp)
    obtain rfl := Option.some.inj (hfound.symm.trans h)
    have hle := (prefix_of_parseFrom hparse).length_le
    rw [String.toList_ofList, List.length_append, List.length_singleton] at hle
    omega

/-! ### The file name of a gem -/

theorem parseGemFileName_append {base : String} (h : base.toList ≠ []) :
    parseGemFileName (base ++ ".gem") = parseFrom [] base.toList := by
  simp_all [stripSuffix, String.toList_append, parseGemFileName, Option.bind_some]

section FileName

variable {name version : String} (hname : name ≠ "")
  (hdigit : version.toList.head?.any Char.isDigit = true) (hdash : '-' ∉ version.toList)

include hname hdigit hdash

theorem parseGemFileName_of_none :
    parseGemFileName (name ++ "-" ++ version ++ ".gem") = some ⟨name, version, none⟩ := by
  have hne : name.toList ≠ [] := by simpa using hname
  have htext : (name ++ "-" ++ version).toList = name.toList ++ '-' :: version.toList := by simp
  have hcut : cutVersion version.toList = some (version.toList, none) := by
    rw [cutVersion, splitOnce_eq_none hdash]
    dsimp only
    rw [if_pos hdigit]
  have hnone : hasVersion version.toList = false := by
    rw [← List.append_nil version.toList, hasVersion_append hdash]
    rfl
  have hparse := (parseFrom_name_iff hne hcut).mpr hnone
  simp_all [parseGemFileName_append]

theorem parseGemFileName_some_iff {platform : String} (hplatform : platform ≠ "") :
    parseGemFileName (name ++ "-" ++ version ++ "-" ++ platform ++ ".gem") =
        some ⟨name, version, some platform⟩ ↔
      hasVersion ('-' :: platform.toList) = false := by
  have hne : name.toList ≠ [] := by simpa using hname
  have hempty : platform.toList.isEmpty = false := by simpa using hplatform
  have htext : (name ++ "-" ++ version ++ "-" ++ platform).toList =
      name.toList ++ '-' :: (version.toList ++ '-' :: platform.toList) := by simp
  have hcut : cutVersion (version.toList ++ '-' :: platform.toList) =
      some (version.toList, some platform.toList) := by
    have hsplit : splitOnce ['-'] (version.toList ++ '-' :: platform.toList) =
        some (version.toList, platform.toList) := splitOnce_append hdash platform.toList
    rw [cutVersion, hsplit]
    dsimp only
    rw [hempty, if_neg Bool.false_ne_true, if_pos hdigit]
  rw [parseGemFileName_append (by rw [htext]; exact List.append_ne_nil_of_left_ne_nil hne _),
    htext, ← hasVersion_append hdash, ← parseFrom_name_iff hne hcut]
  simp

/-- **A file name is read back** if and only if the platform is absent, or no part of it behind a
dash is taken for a version and it is not the one that a file name leaves out. -/
theorem parseGemFileName_gemFileName_iff {platform : Option String}
    (hplatform : platform ≠ some "") :
    parseGemFileName (gemFileName name version platform) = some ⟨name, version, platform⟩ ↔
      ∀ p ∈ platform, p ≠ "ruby" ∧ hasVersion ('-' :: p.toList) = false := by
  cases platform with
  | none =>
    exact iff_of_true (parseGemFileName_of_none hname hdigit hdash) fun p hp => by cases hp
  | some platform =>
    have hne : platform ≠ "" := fun heq => hplatform (congrArg some heq)
    rw [gemFileName]
    by_cases hruby : platform = "ruby"
    · rw [if_pos hruby, parseGemFileName_of_none hname hdigit hdash]
      refine iff_of_false (fun h => ?_) fun h => (h platform rfl).1 hruby
      cases congrArg (Option.map ParsedGemFileName.platform) h
    · rw [if_neg hruby, parseGemFileName_some_iff hname hdigit hdash hne]
      constructor
      · intro h p hp
        obtain rfl := Option.some.inj hp
        exact ⟨hruby, h⟩
      · exact fun h => (h platform rfl).2

end FileName

theorem parseGemFileName_gemFileName_linux :
    parseGemFileName (gemFileName "nokogiri" "1.16.0" (some "x86_64-linux")) =
      some ⟨"nokogiri", "1.16.0", some "x86_64-linux"⟩ :=
  (parseGemFileName_gemFileName_iff (by decide) (by decide) (by decide) (by decide)).mpr
    (fun p hp => by
      obtain rfl := Option.some.inj hp
      decide)

/-- The number of a platform is taken for the version. -/
theorem not_parseGemFileName_darwin : ¬ ∀ (name version : String) (platform : Option String),
    name ≠ "" → version.toList.head?.any Char.isDigit = true → '-' ∉ version.toList →
      platform ≠ some "" →
      parseGemFileName (gemFileName name version platform) = some ⟨name, version, platform⟩ := by
  intro h
  have hread := h "nokogiri" "1.16.0" (some "x86_64-darwin-19") (by decide) (by decide) (by decide)
    (by decide)
  have hfound : parseGemFileName (gemFileName "nokogiri" "1.16.0" (some "x86_64-darwin-19")) =
      some ⟨"nokogiri-1.16.0-x86_64-darwin", "19", none⟩ := by decide
  rw [hfound] at hread
  exact absurd hread (by decide)

end Pkgly.Ruby
