import Mathlib.Data.Bool.AllAny
import Pkgly.Algorithm.Semver
import Pkgly.Algorithm.Trim
import Pkgly.Go.Hosted
import Pkgly.Go.Requests
import Pkgly.Storage.Equiv.StoragePath

/-!
# The grammar of the requests to a Go proxy

The protocol writes an upper-case letter as an exclamation mark and the lower-case letter, and no
path with an exclamation mark is that of a module here: a request for a module is answered if and
only if its path has no upper-case letter and passes the checks that the module reference does not
have (`requestGrammar_iff`).  A request that is accepted is read back from its path in the storage
(`storageText_of_fromPath`), unless this path has two slashes in a row, which the storage merges.
-/

namespace Pkgly.Go

open GoModuleRequest

/-! ### Modules and versions -/

def escape (s : List Char) : List Char :=
  s.flatMap fun ch => if ch.isUpper then ['!', ch.toLower] else [ch]

def isElementChar (ch : Char) : Bool := ch.isAlphanum || ch ∈ ['-', '_', '.', '~']

/-- A module path: elements between slashes, which neither start nor end with a dot.  The reference
has further rules for an element, which exclude some of these paths. -/
structure ModulePath where
  text : List Char
  elements : ∀ element ∈ text.splitOn '/', element ≠ [] ∧ element.all isElementChar = true ∧
    element.head? ≠ some '.' ∧ element.getLast? ≠ some '.'

def marked (mark : Char) : List (List Char) → List Char
  | [] => []
  | identifier :: identifiers => mark :: identifier ++ identifiers.flatMap ('.' :: ·)

structure ModuleVersion where
  major : List Char
  minor : List Char
  patch : List Char
  prerelease : List (List Char)
  build : List (List Char)
  numbers : ∀ number ∈ [major, minor, patch], (readNumber number).isSome = true
  identifiers : ∀ identifier ∈ prerelease ++ build, isIdentifier identifier = true

/-- The version as it is written, behind its major number. -/
def ModuleVersion.rest (v : ModuleVersion) : List Char :=
  v.minor ++ '.' :: v.patch ++ marked '-' v.prerelease ++ marked '+' v.build

def ModuleVersion.text (v : ModuleVersion) : List Char := 'v' :: v.major ++ '.' :: v.rest

inductive Asked
  | list
  | latest
  | file (version : ModuleVersion) (fileType : GoFileType)

namespace Asked

def path (m : ModulePath) : Asked → List Char
  | list => escape m.text ++ "/@v/list".toList
  | latest => escape m.text ++ "/@latest".toList
  | file v fileType =>
    escape m.text ++ ("/@v/".toList ++ (escape v.text ++ fileType.suffix.toList))

def requestType : Asked → GoRequestType
  | list => .listVersions
  | latest => .latest
  | file _ .info => .versionInfo
  | file _ .goMod => .goMod
  | file _ .zip => .moduleZip

def version : Asked → Option ModuleVersion
  | file v _ => some v
  | _ => none

end Asked

/-! ### Answers -/

/-- The characters of the paths that are asked for upstream. -/
def isUrlChar (ch : Char) : Bool := isElementChar ch || ch ∈ ['/', '@', '!', '+']

structure Route where
  base : String
  parses : String → Bool
  joins : ∀ path : List Char, path.all isUrlChar = true →
    parses (withSlash base ++ String.ofList path) = true

/-- The request is the one that is asked for, about the version as `version` writes it, and asks
the route for the same path. -/
structure Answers (route : Route) (m : ModulePath) (asked : Asked)
    (version : ModuleVersion → List Char) (request : GoModuleRequest) : Prop where
  accepted : fromPath (String.ofList (asked.path m)) = some request
  modulePath : request.modulePath.text = String.ofList m.text
  requestType : request.requestType = asked.requestType
  version : request.version.map (fun v => v.text) =
    asked.version.map fun v => String.ofList (version v)
  url : buildProxyUrl route.parses route.base request =
    some (withSlash route.base ++ String.ofList (asked.path m))

/-- The check of the first element of a module path. -/
def domainAllowed (m : List Char) : Bool :=
  match m.splitOn '/' with
  | domain :: _ :: _ => !('.' ∈ domain) || isValidDomain domain
  | _ => true

structure Recognised (m : ModulePath) (asked : Asked) : Prop where
  noUpper : ∀ ch ∈ m.text, ch.isUpper = false
  domain : domainAllowed m.text = true
  notSumdb : ¬ "sumdb/".toList <+: m.text ++ ['/']
  major : ∀ v ∈ asked.version, digitsValue v.major < 2 ^ 64

def RoundTrips (request : GoModuleRequest) : Prop :=
  (request.storagePath.bind fun path => fromPath path.toString') = some request

/-! ### Escaping -/

theorem escape_append (a b : List Char) : escape (a ++ b) = escape a ++ escape b :=
  List.flatMap_append

theorem escape_cons {ch : Char} (h : ch.isUpper = false) (s : List Char) :
    escape (ch :: s) = ch :: escape s := by
  rw [escape, List.flatMap_cons, h]
  rfl

theorem escape_eq_self {s : List Char} (h : ∀ ch ∈ s, ch.isUpper = false) : escape s = s := by
  induction s with
  | nil => rfl
  | cons ch s ih =>
    rw [escape_cons (h ch List.mem_cons_self), ih fun c hc => h c (List.mem_cons_of_mem ch hc)]

theorem mem_escape {s : List Char} {ch : Char} (h : ch ∈ escape s) :
    ch = '!' ∨ ch.isLower = true ∨ ch ∈ s := by
  obtain ⟨c, hc, hch⟩ := List.mem_flatMap.mp h
  rcases toLower_cases c with ⟨hupper, hlower⟩ | ⟨hupper, -⟩
  · grind
  grind

theorem mark_mem_escape {s : List Char} {ch : Char} (hch : ch ∈ s) (h : ch.isUpper = true) :
    '!' ∈ escape s := by
  refine List.mem_flatMap.mpr ⟨ch, hch, ?_⟩
  rw [if_pos h]
  exact List.mem_cons_self

theorem escape_eq_self_iff {s : List Char} (h : '!' ∉ s) :
    escape s = s ↔ ∀ ch ∈ s, ch.isUpper = false := by
  refine ⟨fun heq ch hch => ?_, escape_eq_self⟩
  rw [← Bool.not_eq_true]
  intro hupper
  exact h (heq ▸ mark_mem_escape hch hupper)

theorem all_escape {p : Char → Bool} {s : List Char} (h : s.all p = true) (hmark : p '!' = true)
    (hlower : ∀ ch, ch.isLower = true → p ch = true) : (escape s).all p = true := by
  rw [List.all_eq_true] at h ⊢
  intro ch hch
  rcases mem_escape hch with rfl | hl | hs
  · exact hmark
  · exact hlower ch hl
  · exact h ch hs

/-! ### Module paths -/

namespace ModulePath

variable (m : ModulePath)

theorem split {a b : List Char} (h : m.text = a ++ '/' :: b) :
    a ≠ [] ∧ b ≠ [] ∧ b.head? ≠ some '/' := by
  have helements := fun element hmem => (m.elements element hmem).1
  rw [h, List.splitOn_append_cons_self] at helements
  refine ⟨?_, ?_, fun hhead => ?_⟩
  · rintro rfl
    exact helements [] (List.mem_append_left _ (by simp)) rfl
  · rintro rfl
    exact helements [] (List.mem_append_right _ (by simp)) rfl
  · obtain ⟨c, rfl⟩ := List.head?_eq_some_iff.mp hhead
    rw [← List.nil_append ('/' :: c), List.splitOn_append_cons_self] at helements
    exact helements [] (List.mem_append_right _ (List.mem_append_left _ (by simp))) rfl

theorem ne_nil : m.text ≠ [] := by
  intro h
  have hempty := (m.elements [] (by rw [h]; simp)).1
  exact hempty rfl

theorem isElementChar_of_mem {ch : Char} (h : ch ∈ m.text) :
    ch = '/' ∨ isElementChar ch = true := by
  by_cases hslash : ch = '/'
  · exact .inl hslash
  · obtain ⟨element, helement, hch⟩ := StoragePath.exists_mem_splitOn hslash h
    exact .inr (List.all_eq_true.mp (m.elements element helement).2.1 ch hch)

theorem head?_ne : m.text.head? ≠ some '/' := by
  intro h
  obtain ⟨rest, hrest⟩ := List.head?_eq_some_iff.mp h
  exact (m.split (a := []) hrest).1 rfl

theorem validateModulePath_text :
    validateModulePath (String.ofList m.text) = domainAllowed m.text := by
  have hchars : m.text.all isValidPathChar = true := by
    rw [List.all_eq_true]
    intro ch hch
    rcases m.isElementChar_of_mem hch with rfl | h
    · decide
    · simp only [isElementChar, Bool.or_eq_true, decide_eq_true_eq] at h
      simp only [isValidPathChar, Bool.or_eq_true, decide_eq_true_eq]
      grind
  have hempty : String.ofList m.text ≠ "" := by
    intro h
    exact m.ne_nil (by rw [← String.toList_ofList (l := m.text), h]; rfl)
  have hstart : startsWith "/" (String.ofList m.text) = false := by
    rw [← Bool.not_eq_true, show "/" = String.ofList ['/'] by decide,
      StoragePath.startsWith_singleton_iff, String.toList_ofList]
    exact m.head?_ne
  have hend : endsWith "/" (String.ofList m.text) = false := by
    rw [← Bool.not_eq_true, endsWith, String.toList_ofList (l := m.text),
      List.isSuffixOf_iff_suffix]
    rintro ⟨a, ha⟩
    exact (m.split ha.symm).2.1 rfl
  have hdouble : containsText "//" (String.ofList m.text) = false := by
    rw [← Bool.not_eq_true, containsText_iff, String.toList_ofList (l := m.text)]
    rintro ⟨a, b, hab⟩
    have htext : m.text = a ++ '/' :: '/' :: b := by rw [← hab]; simp
    exact (m.split htext).2.2 rfl
  rw [validateModulePath, String.toList_ofList, hchars, hstart, hend, hdouble,
    bne_iff_ne.mpr hempty]
  rfl

theorem new_of_noUpper (h : ∀ ch ∈ m.text, ch.isUpper = false)
    (hdomain : domainAllowed m.text = true) : GoModulePath.new (String.ofList (escape m.text)) =
      some ⟨String.ofList m.text, m.validateModulePath_text.trans hdomain⟩ := by
  rw [escape_eq_self h, GoModulePath.new, dif_pos (m.validateModulePath_text.trans hdomain)]

theorem of_new {module : GoModulePath}
    (h : GoModulePath.new (String.ofList (escape m.text)) = some module) :
    (∀ ch ∈ m.text, ch.isUpper = false) ∧ domainAllowed m.text = true := by
  unfold GoModulePath.new at h
  split_ifs at h with hvalid
  have hupper : ∀ ch ∈ m.text, ch.isUpper = false := by
    intro ch hch
    rw [← Bool.not_eq_true]
    intro hupper
    simp only [validateModulePath, Bool.and_eq_true, String.toList_ofList] at hvalid
    exact absurd (List.all_eq_true.mp hvalid.1.1.1.1.2 _ (mark_mem_escape hch hupper)) (by decide)
  rw [escape_eq_self hupper, m.validateModulePath_text] at hvalid
  exact ⟨hupper, hvalid⟩

theorem not_mem_escape {ch : Char} (hmark : ch ≠ '!') (hlower : ch.isLower = false)
    (hslash : ch ≠ '/') (helement : isElementChar ch = false) : ch ∉ escape m.text := by
  intro h
  rcases mem_escape h with rfl | hl | hmem
  · exact hmark rfl
  · rw [hlower] at hl
    cases hl
  · rcases m.isElementChar_of_mem hmem with rfl | he
    · exact hslash rfl
    · rw [helement] at he
      cases he

end ModulePath

/-! ### Versions -/

namespace ModuleVersion

variable (v : ModuleVersion)

def isVersionChar (ch : Char) : Bool := ch.isAlphanum || ch ∈ ['-', '.', '+']

theorem digits {number : List Char} (h : (readNumber number).isSome = true) :
    number ≠ [] ∧ number.all Char.isDigit = true := by
  grind [readNumber]

theorem major_digits : v.major ≠ [] ∧ v.major.all Char.isDigit = true :=
  digits (v.numbers v.major List.mem_cons_self)

theorem all_of_isIdentifier {identifier : List Char} (h : isIdentifier identifier = true) :
    identifier.all isVersionChar = true := by
  rw [isIdentifier, Bool.and_eq_true, List.all_eq_true] at h
  rw [List.all_eq_true]
  intro ch hch
  have hch := h.2 ch hch
  simp only [Bool.or_eq_true, beq_iff_eq] at hch
  rcases hch with hch | rfl
  · rw [isVersionChar, hch, Bool.true_or]
  · decide

theorem all_marked {mark : Char} {identifiers : List (List Char)}
    (hmark : isVersionChar mark = true)
    (h : ∀ identifier ∈ identifiers, isIdentifier identifier = true) :
    (marked mark identifiers).all isVersionChar = true := by
  cases identifiers with
  | nil => rfl
  | cons identifier identifiers =>
    rw [marked, List.cons_append, List.all_cons, hmark, Bool.true_and, List.all_append,
      all_of_isIdentifier (h identifier List.mem_cons_self), Bool.true_and, List.all_flatMap,
      List.all_eq_true]
    intro next hnext
    rw [List.all_cons, all_of_isIdentifier (h next (List.mem_cons_of_mem _ hnext))]
    decide

theorem all_rest : v.rest.all isVersionChar = true := by
  have hnumber : ∀ number ∈ [v.major, v.minor, v.patch], number.all isVersionChar = true := by
    intro number hnumber
    rw [List.all_eq_true]
    intro ch hch
    have hdigit := List.all_eq_true.mp (digits (v.numbers number hnumber)).2 ch hch
    rw [isVersionChar, Char.isAlphanum, hdigit, Bool.or_true, Bool.true_or]
  have hprerelease := all_marked (show isVersionChar '-' = true by decide)
    fun identifier hmem => v.identifiers identifier (List.mem_append_left _ hmem)
  have hbuild := all_marked (show isVersionChar '+' = true by decide)
    fun identifier hmem => v.identifiers identifier (List.mem_append_right _ hmem)
  simp_all [rest, List.all_append, List.all_cons, ModuleVersion.isVersionChar]

theorem escape_text : escape v.text = 'v' :: (v.major ++ '.' :: escape v.rest) := by
  have hmajor : escape v.major = v.major := by
    refine escape_eq_self fun ch hch => ?_
    have hdigit := List.all_eq_true.mp v.major_digits.2 ch hch
    rw [← Bool.not_eq_true]
    intro hupper
    simp only [Char.isDigit, Bool.and_eq_true, decide_eq_true_eq, ge_iff_le,
      UInt32.le_iff_toNat_le] at hdigit
    have hupper := isUpper_iff.mp hupper
    simp at hdigit
    omega
  grind [text, escape_cons, escape_append]

theorem validateVersion_escape : validateVersion (String.ofList (escape v.text)) =
    decide (digitsValue v.major < 2 ^ 64) := by
  obtain ⟨hne, hdigits⟩ := v.major_digits
  obtain ⟨digit, digits, hmajor⟩ := List.exists_cons_of_ne_nil hne
  have hfirst : digit.isDigit = true :=
    List.all_eq_true.mp hdigits digit (hmajor ▸ List.mem_cons_self)
  have hnot : ∀ ch : Char, ch.isDigit = false → digit ≠ ch := by
    rintro ch hch rfl
    rw [hfirst] at hch
    cases hch
  have hrest : (escape v.text).dropWhile (· == 'v') = v.major ++ '.' :: escape v.rest := by
    rw [escape_text, List.dropWhile_cons_of_pos (by decide), hmajor, List.cons_append,
      List.dropWhile_cons_of_neg (by simpa using hnot 'v' (by decide))]
  have hspace : ' ' ∉ v.major ++ '.' :: escape v.rest := by
    rw [List.mem_append, List.mem_cons, not_or, not_or]
    refine ⟨fun h => ?_, by decide, fun h => ?_⟩
    · exact absurd (List.all_eq_true.mp hdigits _ h) (by decide)
    · rcases mem_escape h with h | h | h
      · exact absurd h (by decide)
      · exact absurd h (by decide)
      · exact absurd (List.all_eq_true.mp v.all_rest _ h) (by decide)
  have hdot : '.' ∉ v.major := fun h =>
    absurd (List.all_eq_true.mp hdigits _ h) (by decide)
  have hsplit : (v.major ++ '.' :: escape v.rest).splitOn '.' =
      v.major :: (escape v.rest).splitOn '.' := by
    rw [List.splitOn_append_cons_self, List.splitOn_eq_singleton hdot]
    rfl
  obtain ⟨minor, parts, hparts⟩ := List.exists_cons_of_ne_nil
    (List.splitOn_ne_nil '.' (escape v.rest))
  have hparse : parseU64 v.major =
      if digitsValue v.major < 2 ^ 64 then some (digitsValue v.major) else none := by
    unfold parseU64
    rw [hmajor]
    split
    · rename_i heq
      exact absurd (List.cons.inj heq).1 (hnot '+' (by decide))
    · rw [hmajor] at hdigits
      simp [hdigits]
  have hempty : String.ofList (escape v.text) ≠ "" := by
    rw [escape_text]
    intro h
    have hnil := congrArg String.toList h
    rw [String.toList_ofList] at hnil
    cases hnil
  rw [validateVersion, String.toList_ofList, hrest, hsplit, hparts, bne_iff_ne.mpr hempty,
    decide_eq_false hspace]
  grind

end ModuleVersion

/-! ### Reading paths -/

theorem stripSuffix_append (suffix l : List Char) : stripSuffix suffix (l ++ suffix) = some l :=
  stripSuffix_eq_some_iff.mpr rfl

/-- A text ends with one of two suffixes only, unless one of them ends with the other. -/
theorem stripSuffix_eq_none {a b : List Char} (h : ¬ a <:+ b ∧ ¬ b <:+ a) (l : List Char) :
    stripSuffix a (l ++ b) = none := by
  rw [stripSuffix, if_neg]
  grind [List.isSuffixOf_iff_suffix, List.suffix_or_suffix_of_suffix, List.suffix_append]

theorem prefix_append_cons_iff {a : List Char} (ha : '/' ∉ a) (e tail : List Char) :
    a ++ ['/'] <+: e ++ '/' :: tail ↔ a ++ ['/'] <+: e ++ ['/'] := by
  induction a generalizing e with
  | nil =>
    cases e with
    | nil => simp
    | cons ch e => simp [List.cons_prefix_cons]
  | cons x a ih =>
    obtain ⟨hx, ha⟩ := List.ne_and_not_mem_of_not_mem_cons ha
    cases e with
    | nil => simp [List.cons_prefix_cons, Ne.symm hx]
    | cons ch e =>
      grind

theorem splitOnce_versions {m : List Char} (h : '@' ∉ m) (rest : List Char) :
    splitOnce "/@v/".toList (m ++ ("/@v/".toList ++ rest)) = some (m, rest) := by
  induction m with
  | nil => rfl
  | cons ch m ih =>
    obtain ⟨-, hm⟩ := List.ne_and_not_mem_of_not_mem_cons h
    have hnot : "/@v/".toList.isPrefixOf (ch :: (m ++ ("/@v/".toList ++ rest))) = false := by
      rw [← Bool.not_eq_true, List.isPrefixOf_iff_prefix]
      cases m with
      | nil =>
        rintro ⟨t, ht⟩
        exact absurd (List.cons.inj (List.cons.inj ht).2).1 (by decide)
      | cons next m =>
        grind
    rw [List.cons_append, splitOnce, hnot, ih hm]
    rfl

theorem isSumdb_of_parseSumdbRequest {path : List Char} {request : GoModuleRequest}
    (h : parseSumdbRequest path = some request) : request.requestType.isSumdb = true := by
  have hrequest : ∀ {requestType kind rest}, requestType.isSumdb = true →
      sumdbRequest requestType kind rest = some request → request.requestType.isSumdb = true := by
    intro requestType kind rest htype h
    rw [sumdbRequest] at h
    split_ifs at h
    obtain rfl := Option.some.inj h
    exact htype
  simp only [parseSumdbRequest] at h
  split_ifs at h <;> exact hrequest rfl h

def Asked.request (module : GoModulePath) : Asked → Option GoModuleRequest
  | .list => some ⟨module, none, .listVersions, none⟩
  | .latest => some ⟨module, none, .latest, none⟩
  | .file v fileType => (GoVersion.new (String.ofList (escape v.text))).map fun version =>
      ⟨module, some version, (Asked.file v fileType).requestType, none⟩

theorem versionFile_append (v : ModuleVersion) (fileType : GoFileType) :
    versionFile (escape v.text ++ fileType.suffix.toList) =
      some (escape v.text, (Asked.file v fileType).requestType) := by
  cases fileType with
  | info => simp only [versionFile, List.findSome?_cons, GoFileType.suffix, stripSuffix_append,
      Option.map_some, Asked.requestType]
  | goMod =>
    have hinfo := stripSuffix_eq_none (a := ".info".toList) (b := ".mod".toList) (by decide)
    simp only [versionFile, List.findSome?_cons, GoFileType.suffix, stripSuffix_append, hinfo,
      Option.map_some, Option.map_none, Asked.requestType]
  | zip =>
    have hinfo := stripSuffix_eq_none (a := ".info".toList) (b := ".zip".toList) (by decide)
    have hmod := stripSuffix_eq_none (a := ".mod".toList) (b := ".zip".toList) (by decide)
    simp only [versionFile, List.findSome?_cons, GoFileType.suffix, stripSuffix_append, hinfo,
      hmod, Option.map_some, Option.map_none, Asked.requestType]

variable {m : ModulePath} {asked : Asked}

theorem exists_path (m : ModulePath) (asked : Asked) :
    ∃ tail, asked.path m = escape m.text ++ '/' :: tail := by
  cases asked with
  | list => exact ⟨"@v/list".toList, rfl⟩
  | latest => exact ⟨"@latest".toList, rfl⟩
  | file v fileType => exact ⟨"@v/".toList ++ (escape v.text ++ fileType.suffix.toList), rfl⟩

theorem trimSlashes_path (m : ModulePath) (asked : Asked) :
    trimSlashes (asked.path m) = asked.path m := by
  obtain ⟨tail, htail⟩ := exists_path m asked
  obtain ⟨ch, rest, htext⟩ := List.exists_cons_of_ne_nil m.ne_nil
  have hch : ch ≠ '/' := fun h => m.head?_ne (by rw [htext, h]; rfl)
  grind [escape, trimSlashes, List.dropWhile_cons_of_neg]

theorem path_ne_nil (m : ModulePath) (asked : Asked) : asked.path m ≠ [] := by
  obtain ⟨tail, htail⟩ := exists_path m asked
  rw [htail]
  exact List.append_ne_nil_of_right_ne_nil _ (List.cons_ne_nil _ _)

/-- The path of a module is read by its suffixes, unless it starts as those of the checksum
database do. -/
theorem fromPath_path (h : ¬ "sumdb/".toList <+: escape m.text ++ ['/']) :
    fromPath (String.ofList (asked.path m)) =
      (GoModulePath.new (String.ofList (escape m.text))).bind asked.request := by
  have hsumdb : ¬ "sumdb/".toList.isPrefixOf (asked.path m) = true := by
    obtain ⟨tail, htail⟩ := exists_path m asked
    rw [List.isPrefixOf_iff_prefix, htail]
    exact fun hprefix =>
      h ((prefix_append_cons_iff (a := "sumdb".toList) (by decide) _ _).mp hprefix)
  unfold fromPath
  simp only [String.toList_ofList, trimSlashes_path]
  rw [if_neg (path_ne_nil m asked), if_neg hsumdb]
  cases asked with
  | list =>
    rw [Asked.path, stripSuffix_append, stripSuffix_eq_none (by decide)]
    exact Option.map_eq_bind
  | latest =>
    rw [Asked.path, stripSuffix_append]
    exact Option.map_eq_bind
  | file v fileType =>
    have hat := m.not_mem_escape (show '@' ≠ '!' by decide) (by decide) (by decide) (by decide)
    have hnone : ∀ suffix : List Char, suffix ∈ ["/@latest".toList, "/@v/list".toList] →
        stripSuffix suffix ((Asked.file v fileType).path m) = none := by
      intro suffix hsuffix
      have hnot : ¬ suffix <:+ fileType.suffix.toList ∧ ¬ fileType.suffix.toList <:+ suffix := by
        simp only [List.mem_cons, List.not_mem_nil, or_false] at hsuffix
        rcases hsuffix with rfl | rfl <;> cases fileType <;> decide
      rw [Asked.path, ← List.append_assoc, ← List.append_assoc]
      exact stripSuffix_eq_none hnot _
    rw [hnone _ List.mem_cons_self, hnone _ (List.mem_cons_of_mem _ List.mem_cons_self), Asked.path,
      splitOnce_versions hat]
    simp only [versionFile_append]
    rfl

theorem isSumdb_of_prefix (h : "sumdb/".toList <+: escape m.text ++ ['/'])
    {request : GoModuleRequest} (hread : fromPath (String.ofList (asked.path m)) = some request) :
    request.requestType.isSumdb = true := by
  have hsumdb : "sumdb/".toList.isPrefixOf (asked.path m) = true := by
    obtain ⟨tail, htail⟩ := exists_path m asked
    rw [List.isPrefixOf_iff_prefix, htail]
    exact (prefix_append_cons_iff (a := "sumdb".toList) (by decide) _ _).mpr h
  unfold fromPath at hread
  simp only [String.toList_ofList, trimSlashes_path] at hread
  rw [if_neg (path_ne_nil m asked), if_pos hsumdb] at hread
  exact isSumdb_of_parseSumdbRequest hread

/-! ### Recognised requests -/

theorem isSumdb_requestType (asked : Asked) : asked.requestType.isSumdb = false := by
  cases asked with
  | list => rfl
  | latest => rfl
  | file _ fileType => cases fileType <;> rfl

theorem recognised_of_fromPath {request : GoModuleRequest}
    (h : fromPath (String.ofList (asked.path m)) = some request)
    (htype : request.requestType = asked.requestType) : Recognised m asked := by
  have hsumdb : ¬ "sumdb/".toList <+: escape m.text ++ ['/'] := by
    intro hprefix
    have hrequest := isSumdb_of_prefix hprefix h
    rw [htype, isSumdb_requestType] at hrequest
    cases hrequest
  rw [fromPath_path hsumdb] at h
  obtain ⟨module, hmodule, hrequest⟩ := Option.bind_eq_some_iff.mp h
  obtain ⟨hupper, hdomain⟩ := m.of_new hmodule
  rw [escape_eq_self hupper] at hsumdb
  refine ⟨hupper, hdomain, hsumdb, fun v hv => ?_⟩
  cases asked with
  | list | latest => cases hv
  | file w fileType =>
    obtain rfl := Option.some.inj hv
    obtain ⟨version, hversion, -⟩ := Option.map_eq_some_iff.mp hrequest
    unfold GoVersion.new at hversion
    split_ifs at hversion with hvalid
    rw [ModuleVersion.validateVersion_escape] at hvalid
    exact of_decide_eq_true hvalid

theorem Recognised.exists_request (h : Recognised m asked) : ∃ request,
    fromPath (String.ofList (asked.path m)) = some request ∧
      request.modulePath.text = String.ofList m.text ∧ request.requestType = asked.requestType ∧
      request.version.map (fun v => v.text) =
        asked.version.map fun v => String.ofList (escape v.text) := by
  have hsumdb : ¬ "sumdb/".toList <+: escape m.text ++ ['/'] := by
    rw [escape_eq_self h.noUpper]
    exact h.notSumdb
  rw [fromPath_path hsumdb, m.new_of_noUpper h.noUpper h.domain, Option.bind_some]
  cases asked with
  | list | latest => exact ⟨_, rfl, rfl, rfl, rfl⟩
  | file v fileType =>
    have hvalid := v.validateVersion_escape.trans (decide_eq_true (h.major v rfl))
    have hversion : GoVersion.new (String.ofList (escape v.text)) = some ⟨_, hvalid⟩ :=
      dif_pos hvalid
    rw [Asked.request, hversion]
    exact ⟨_, rfl, rfl, rfl, rfl⟩

theorem isUrlChar_of_isVersionChar {ch : Char} (h : ModuleVersion.isVersionChar ch = true) :
    isUrlChar ch = true := by
  simp only [ModuleVersion.isVersionChar, isUrlChar, isElementChar, Bool.or_eq_true,
    decide_eq_true_eq, List.mem_cons, List.not_mem_nil, or_false] at h ⊢
  tauto

theorem all_isUrlChar_path (h : ∀ ch ∈ m.text, ch.isUpper = false) (asked : Asked) :
    (asked.path m).all isUrlChar = true := by
  have hmodule : (escape m.text).all isUrlChar = true := by
    rw [escape_eq_self h, List.all_eq_true]
    intro ch hch
    rcases m.isElementChar_of_mem hch with rfl | hch
    · decide
    · rw [isUrlChar, hch, Bool.true_or]
  cases asked with
  | list | latest =>
    rw [Asked.path, List.all_append, hmodule]
    decide
  | file v fileType =>
    have hversion : (escape v.text).all isUrlChar = true := by
      refine all_escape ?_ (by decide) fun ch hch => ?_
      · rw [List.all_eq_true]
        intro ch hch
        have hmajor := List.all_eq_true.mp v.major_digits.2
        have hrest := List.all_eq_true.mp v.all_rest
        simp only [ModuleVersion.text, List.cons_append, List.mem_cons, List.mem_append] at hch
        rcases hch with rfl | hch | rfl | hch
        · decide
        · simp [isUrlChar, isElementChar, Char.isAlphanum, hmajor ch hch]
        · decide
        · exact isUrlChar_of_isVersionChar (hrest ch hch)
      · simp [isUrlChar, isElementChar, Char.isAlphanum, isAlpha_eq, hch]
    have hsuffix : fileType.suffix.toList.all isUrlChar = true := by cases fileType <;> decide
    rw [Asked.path, List.all_append, List.all_append, List.all_append, hmodule, hversion, hsuffix]
    decide

theorem buildProxyUrl_eq (route : Route) (h : ∀ ch ∈ m.text, ch.isUpper = false)
    {request : GoModuleRequest} (hmodule : request.modulePath.text = String.ofList m.text)
    (htype : request.requestType = asked.requestType)
    (hversion : request.version.map (fun v => v.text) =
      asked.version.map fun v => String.ofList (escape v.text)) :
    buildProxyUrl route.parses route.base request =
      some (withSlash route.base ++ String.ofList (asked.path m)) := by
  have hparses := route.joins _ (all_isUrlChar_path h asked)
  obtain ⟨module, version, requestType, sumdbPath⟩ := request
  simp only at hmodule htype hversion
  subst htype
  unfold buildProxyUrl
  cases asked with
  | list | latest =>
    grind [Asked.path, escape_eq_self, String.ofList_append, String.ofList_toList,
      Asked.requestType, Option.filter_some_pos]
  | file v fileType =>
    obtain ⟨version, rfl, hv⟩ := Option.map_eq_some_iff.mp hversion
    cases fileType <;>
    · simp only [Asked.path, escape_eq_self h, String.ofList_append, String.ofList_toList,
        Asked.requestType, hmodule, Option.map_some, hv, GoFileType.suffix,
        ← String.append_assoc] at hparses ⊢
      exact Option.filter_some_pos hparses

theorem answers_iff (route : Route) (m : ModulePath) (asked : Asked) :
    (∃ request, Answers route m asked (fun v => escape v.text) request) ↔
      Recognised m asked := by
  constructor
  · rintro ⟨request, h⟩
    exact recognised_of_fromPath h.accepted h.requestType
  · intro h
    obtain ⟨request, haccepted, hmodule, htype, hversion⟩ := h.exists_request
    exact ⟨request, haccepted, hmodule, htype, hversion,
      buildProxyUrl_eq route h.noUpper hmodule htype hversion⟩

theorem mark_notMem_text (v : ModuleVersion) : '!' ∉ v.text := by
  simp only [ModuleVersion.text, List.cons_append, List.mem_cons, List.mem_append, not_or]
  exact ⟨by decide, fun h => absurd (List.all_eq_true.mp v.major_digits.2 _ h) (by decide),
    by decide, fun h => absurd (List.all_eq_true.mp v.all_rest _ h) (by decide)⟩

theorem answers_text_iff (route : Route) (m : ModulePath) (asked : Asked) :
    (∃ request, Answers route m asked ModuleVersion.text request) ↔
      Recognised m asked ∧ ∀ v ∈ asked.version, ∀ ch ∈ v.text, ch.isUpper = false := by
  have hversions : (asked.version.map (fun v => String.ofList (escape v.text)) =
      asked.version.map fun v => String.ofList v.text) ↔
      ∀ v ∈ asked.version, ∀ ch ∈ v.text, ch.isUpper = false := by
    cases asked.version with
    | none => simp
    | some v =>
      rw [Option.map_some, Option.map_some, Option.some.injEq, String.ofList_inj,
        escape_eq_self_iff (mark_notMem_text v)]
      simp
  constructor
  · rintro ⟨request, h⟩
    have hrecognised := recognised_of_fromPath h.accepted h.requestType
    obtain ⟨request', haccepted, -, -, hversion⟩ := hrecognised.exists_request
    obtain rfl := Option.some.inj (haccepted.symm.trans h.accepted)
    exact ⟨hrecognised, hversions.mp (hversion.symm.trans h.version)⟩
  · rintro ⟨h, hupper⟩
    obtain ⟨request, hanswers⟩ := (answers_iff route m asked).mpr h
    exact ⟨request, { hanswers with version := hanswers.version.trans (hversions.mpr hupper) }⟩

/-! ### Reading a request back -/

theorem mem_of_versionFile {file version : List Char} {requestType : GoRequestType}
    (h : versionFile file = some (version, requestType)) :
    ∃ suffix, (suffix, requestType) ∈
        [(".info", GoRequestType.versionInfo), (".mod", .goMod), (".zip", .moduleZip)] ∧
      file = version ++ suffix.toList := by
  obtain ⟨⟨suffix, type⟩, hmem, hstrip⟩ := List.exists_of_findSome?_eq_some h
  obtain ⟨base, hbase, heq⟩ := Option.map_eq_some_iff.mp hstrip
  obtain ⟨rfl, rfl⟩ := Prod.mk.inj heq
  exact ⟨suffix, hmem, stripSuffix_eq_some_iff.mp hbase⟩

theorem text_of_new {l : List Char} {module : GoModulePath}
    (h : GoModulePath.new (String.ofList l) = some module) : module.text = String.ofList l := by
  unfold GoModulePath.new at h
  split_ifs at h
  rw [← Option.some.inj h]

theorem storageText_of_fromPath {path : String} {request : GoModuleRequest}
    (h : fromPath path = some request) (hmodule : request.requestType.isSumdb = false) :
    request.storageText = some (String.ofList (trimSlashes path.toList)) := by
  have hrequest : ∀ {module : List Char} {requestType : GoRequestType},
      moduleRequest module requestType = some request →
      request.modulePath.text = String.ofList module ∧ request.requestType = requestType := by
    intro module requestType h
    obtain ⟨module', hnew, rfl⟩ := Option.map_eq_some_iff.mp h
    exact ⟨text_of_new hnew, rfl⟩
  have hdeprecated : ∀ {l : List Char}, ((stripSuffix "/go.mod".toList l).bind fun module =>
      moduleRequest module .goModWithoutVersion) = some request →
      request.storageText = some (String.ofList l) := by
    intro l h
    obtain ⟨module, hsuffix, h⟩ := Option.bind_eq_some_iff.mp h
    obtain ⟨htext, htype⟩ := hrequest h
    rw [storageText, htype, htext, stripSuffix_eq_some_iff.mp hsuffix, String.ofList_append,
      String.ofList_toList]
  unfold fromPath at h
  simp only at h
  split_ifs at h with hempty hsumdb
  · rw [isSumdb_of_parseSumdbRequest h] at hmodule
    cases hmodule
  · split at h
    · rename_i hsuffix
      obtain ⟨htext, htype⟩ := hrequest h
      rw [storageText, htype, htext, stripSuffix_eq_some_iff.mp hsuffix, String.ofList_append,
        String.ofList_toList]
    · rename_i hsuffix _
      obtain ⟨htext, htype⟩ := hrequest h
      rw [storageText, htype, htext, stripSuffix_eq_some_iff.mp hsuffix, String.ofList_append,
        String.ofList_toList]
    · rename_i hsplit _ _
      obtain ⟨module', hnew, h⟩ := Option.bind_eq_some_iff.mp h
      split at h
      · rename_i version requestType hfile
        obtain ⟨version', hversion, rfl⟩ := Option.map_eq_some_iff.mp h
        obtain ⟨suffix, hmem, rfl⟩ := mem_of_versionFile hfile
        have htext : version'.text = String.ofList version := by
          unfold GoVersion.new at hversion
          split_ifs at hversion
          rw [← Option.some.inj hversion]
        rw [eq_of_splitOnce hsplit]
        simp only [List.mem_cons, Prod.mk.injEq, List.not_mem_nil, or_false] at hmem
        rcases hmem with ⟨rfl, rfl⟩ | ⟨rfl, rfl⟩ | ⟨rfl, rfl⟩ <;>
          simp only [storageText, Option.map_some, text_of_new hnew, htext, String.ofList_append,
            String.ofList_toList, String.append_assoc]
      · exact hdeprecated h
    · exact hdeprecated h

theorem isDirectory_storagePath {request : GoModuleRequest} {text : String}
    (h : request.storageText = some text) (hmodule : request.requestType.isSumdb = false) :
    (StoragePath.ofString text).isDirectory = false := by
  have hfile : ∀ suffix : String, suffix.toList ≠ [] → suffix.toList.getLast? ≠ some '/' →
      (request.version.map fun version =>
        request.modulePath.text ++ "/@v/" ++ version.text ++ suffix) = some text →
      (StoragePath.ofString text).isDirectory = false := by
    intro suffix hne hlast h
    obtain ⟨version, -, rfl⟩ := Option.map_eq_some_iff.mp h
    exact StoragePath.isDirectory_append _ hne hlast
  unfold storageText at h
  cases htype : request.requestType <;> simp only [htype] at h <;> rw [htype] at hmodule
  case listVersions | latest | goModWithoutVersion =>
    rw [← Option.some.inj h]
    exact StoragePath.isDirectory_append _ (by decide) (by decide)
  case versionInfo | goMod | moduleZip => exact hfile _ (by decide) (by decide) h
  case sumdbSupported | sumdbLookup | sumdbTile => cases hmodule

theorem head?_trimSlashes (l : List Char) : (trimSlashes l).head? ≠ some '/' := by
  grind [List.head?_dropWhile_not, trimSlashes]

theorem suffix_trimSlashes (l : List Char) : trimSlashes l <:+ l := List.dropWhile_suffix _

theorem fromPath_trimSlashes (path : String) :
    fromPath (String.ofList (trimSlashes path.toList)) = fromPath path := by
  have hidem : trimSlashes (trimSlashes path.toList) = trimSlashes path.toList := by
    refine dropWhile_eq_self_of_head? fun ch hch => ?_
    rw [← Bool.not_eq_true, beq_iff_eq]
    rintro rfl
    exact head?_trimSlashes _ hch
  unfold fromPath
  simp only [String.toList_ofList, hidem]

theorem noDoubleSlash_toString' {text : String}
    (hfile : (StoragePath.ofString text).isDirectory = false) :
    ¬ ['/', '/'] <:+: (StoragePath.ofString text).toString'.toList := by
  rw [StoragePath.toString', hfile, if_neg Bool.false_ne_true, String.append_empty,
    ← StoragePath.hasDoubleSlash_iff, Bool.not_eq_true]
  have hwf := StoragePath.wellFormed_ofString text
  unfold StoragePath.WellFormed at hwf
  cases hcomponents : (StoragePath.ofString text).components with
  | nil => decide
  | cons a rest =>
    rw [hcomponents] at hwf
    exact (StoragePath.join_components hwf).2

theorem roundTrips_iff {path : String} {request : GoModuleRequest}
    (h : fromPath path = some request) (hmodule : request.requestType.isSumdb = false) :
    RoundTrips request ↔ ¬ ['/', '/'] <:+: trimSlashes path.toList := by
  set text := trimSlashes path.toList with htrim
  have htext := storageText_of_fromPath h hmodule
  rw [← htrim] at htext
  have hbind : RoundTrips request ↔
      fromPath (StoragePath.ofString (String.ofList text)).toString' = some request := by
    rw [RoundTrips, storagePath, htext, Option.map_some, Option.bind_some]
  rw [hbind]
  constructor
  · intro hback hdouble
    have heq := (storageText_of_fromPath hback hmodule).symm.trans htext
    rw [Option.some.injEq, String.ofList_inj] at heq
    grind [suffix_trimSlashes, StoragePath.ofString, String.ofList, noDoubleSlash_toString',
      isDirectory_storagePath]
  grind [StoragePath.toString'_ofString_of_noDoubleSlash, fromPath_trimSlashes,
    String.toList_ofList, head?_trimSlashes]

/-! ### The grammar -/

/-- A request for a module is recognised, and asked for upstream, iff its path has no upper-case
letters and passes the further checks; its version is as the path has it.  An accepted request is
read back from its path in the storage iff this has no two slashes in a row. -/
theorem requestGrammar_iff (route : Route) (m : ModulePath) (asked : Asked) {path : String}
    {request : GoModuleRequest} (h : fromPath path = some request)
    (hmodule : request.requestType.isSumdb = false) :
    ((∃ r, Answers route m asked ModuleVersion.text r) ↔
      Recognised m asked ∧ ∀ v ∈ asked.version, ∀ ch ∈ v.text, ch.isUpper = false) ∧
    ((∃ r, Answers route m asked (fun v => escape v.text) r) ↔ Recognised m asked) ∧
    (RoundTrips request ↔ ¬ ['/', '/'] <:+: trimSlashes path.toList) :=
  ⟨answers_text_iff route m asked, answers_iff route m asked, roundTrips_iff h hmodule⟩

/-! ### A module with upper-case letters -/

def demoRoute : Route where
  base := "https://proxy.golang.org"
  parses := startsWith "https://proxy.golang.org/"
  joins path _ := by
    rw [withSlash, if_neg (by decide)]
    exact startsWith_append _ _

def toml : ModulePath where
  text := "github.com/BurntSushi/toml".toList
  elements := List.all_iff_forall_prop.mp (by decide)

theorem requestGrammar_toml :
    (∃ r, Answers demoRoute toml .list ModuleVersion.text r) ↔ Recognised toml .list ∧
      ∀ v ∈ Asked.list.version, ∀ ch ∈ v.text, ch.isUpper = false :=
  (requestGrammar_iff demoRoute toml .list (show fromPath "golang.org/x/text/@latest" =
    some ⟨⟨"golang.org/x/text", by decide⟩, none, .latest, none⟩ by decide) rfl).1

theorem not_answers_toml : ¬ ∀ (route : Route) (m : ModulePath) (asked : Asked),
    ∃ request, Answers route m asked (fun v => escape v.text) request := by
  intro h
  have hrecognised := (answers_iff demoRoute toml .list).mp (h demoRoute toml .list)
  exact absurd (hrecognised.noUpper 'B' (by decide)) (by decide)

end Pkgly.Go
