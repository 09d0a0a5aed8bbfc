import Pkgly.Algorithm.Text

/-!
# The redirect of a login

The page that a login leads to comes with the request, or from the row that was stored when the
login was started.  `sanitize_redirect` looks at the first two characters of the text as it is.  A
browser drops the blanks around it and the tabs and line ends within it first, and reads a backslash
as a slash, before it decides whether the text names a host of its own.
-/

namespace Pkgly.Redirect

/-! ### The header -/

/-- `accepts` says which texts `HeaderValue::from_str` takes. -/
def sanitizeRedirect (accepts : String → Bool) (target : Option String) : String :=
  match target.filter fun value => !value.isEmpty with
  | none => "/"
  | some target =>
    if !startsWith "/" target || startsWith "//" target then "/"
    else if accepts target then target else "/"

/-- The `Location` that the SSO endpoint answers with. -/
def ssoLocation (accepts : String → Bool) (query : Option String) : String :=
  sanitizeRedirect accepts query

/-- The `Location` of the OAuth2 callback: what was stored with the state comes first. -/
def oauthLocation (accepts : String → Bool) (exchange query : Option String) : String :=
  sanitizeRedirect accepts (exchange.or query)

/-! ### Relative references in a browser -/

/-- The schemes of the sites; both are special. -/
inductive Scheme
  | http
  | https
deriving DecidableEq

structure Origin where
  scheme : Scheme
  host : String
  port : Option Nat
deriving DecidableEq

def isControlOrSpace (c : Char) : Bool := c.toNat ≤ 32

/-- Tabs and line ends are removed wherever they are. -/
def isTabOrNewline (c : Char) : Bool := c == '\t' || c == '\n' || c == '\r'

def isSlash (c : Char) : Bool := c == '/' || c == '\\'

def endsAuthority (c : Char) : Bool := isSlash c || c == '?' || c == '#'

/-- Everything up to the last character that is neither a control nor a space. -/
def trimEnd (s : List Char) : List Char := (s.reverse.dropWhile isControlOrSpace).reverse

/-- The text that the parser gets to see. -/
def normalise (s : List Char) : List Char :=
  (trimEnd (s.dropWhile isControlOrSpace)).filter fun c => !isTabOrNewline c

/--
The origin of a reference that starts with a slash, resolved against a URL of the origin `base`;
`parseAuthority` reads the host and the port of an authority.
-/
def resolveOrigin (parseAuthority : Scheme → List Char → Option (String × Option Nat))
    (base : Origin) (reference : String) : Option Origin :=
  match normalise reference.toList with
  | a :: b :: rest =>
    if isSlash a && isSlash b then
      (parseAuthority base.scheme
        ((rest.dropWhile isSlash).takeWhile fun c => !endsAuthority c)).map
        fun (host, port) => ⟨base.scheme, host, port⟩
    else some base
  | _ => some base

/-! ### Redirects that leave the site -/

def StaysOnSite (parseAuthority : Scheme → List Char → Option (String × Option Nat))
    (reference : String) : Prop :=
  ∀ base, resolveOrigin parseAuthority base reference = some base

/-- The first character behind the slash, but for tabs and line ends, is a slash of some kind. -/
def HasAuthority (text : String) : Prop :=
  (((text.toList.drop 1).filter fun c => !isTabOrNewline c).head?.any isSlash) = true

/-- A target that is sent as it is, and has an authority without starting with two slashes. -/
def LeavesSite (accepts : String → Bool) (target : String) : Prop :=
  accepts target = true ∧ startsWith "/" target = true ∧ startsWith "//" target = false ∧
    HasAuthority target

theorem toList_of_startsWith {text : String} (h : startsWith "/" text = true) :
    ∃ s, text.toList = '/' :: s := by
  rw [startsWith, List.isPrefixOf_iff_prefix] at h
  obtain ⟨s, hs⟩ := h
  exact ⟨s, hs.symm⟩

theorem not_isControlOrSpace_of_isSlash {c : Char} (h : isSlash c = true) :
    isControlOrSpace c = false := by
  rcases Bool.or_eq_true_iff.mp h with h | h <;> rw [beq_iff_eq.mp h] <;> rfl

theorem exists_trimEnd (s : List Char) :
    ∃ tail, s = trimEnd s ++ tail ∧ ∀ c ∈ tail, isControlOrSpace c = true := by
  refine ⟨(s.reverse.takeWhile isControlOrSpace).reverse, ?_, fun c hc => ?_⟩
  · rw [trimEnd, ← List.reverse_append, List.takeWhile_append_dropWhile, List.reverse_reverse]
  · exact List.all_eq_true.mp List.all_takeWhile c (List.mem_reverse.mp hc)

theorem normalise_of_startsWith {text : String} (h : startsWith "/" text = true) :
    ∃ kept, normalise text.toList = '/' :: kept ∧
      (HasAuthority text ↔ kept.head?.any isSlash = true) := by
  obtain ⟨s, hs⟩ := toList_of_startsWith h
  obtain ⟨tail, htail, hblank⟩ := exists_trimEnd ('/' :: s)
  have hdrop : ('/' :: s).dropWhile isControlOrSpace = '/' :: s :=
    List.dropWhile_cons_of_neg (by decide)
  -- the slash itself is not trimmed
  obtain ⟨kept, hkept⟩ : ∃ kept, trimEnd ('/' :: s) = '/' :: kept := by
    rcases ht : trimEnd ('/' :: s) with _ | ⟨c, kept⟩
    · rw [ht, List.nil_append] at htail
      exact absurd (hblank '/' (by simp [← htail])) (by decide)
    · rw [ht, List.cons_append, List.cons.injEq] at htail
      exact ⟨kept, by rw [htail.1]⟩
  have hs' : s = kept ++ tail := by
    rw [hkept, List.cons_append, List.cons.injEq] at htail
    exact htail.2
  refine ⟨kept.filter fun c => !isTabOrNewline c, ?_, ?_⟩
  · rw [normalise, hs, hdrop, hkept, List.filter_cons_of_pos (by decide)]
  rw [HasAuthority, hs, List.drop_one, List.tail_cons, hs', List.filter_append]
  rcases hk : kept.filter fun c => !isTabOrNewline c with _ | ⟨c, kept'⟩
  · rw [List.nil_append]
    refine iff_of_false (fun hany => ?_) (by decide)
    obtain ⟨b, hb, hslash⟩ := (Option.any_eq_true _ _).mp hany
    have hctl := hblank b (List.mem_of_mem_filter (List.mem_of_head? hb))
    rw [not_isControlOrSpace_of_isSlash hslash] at hctl
    exact absurd hctl (by decide)
  · rfl

/-- Two sites tell a reference with an authority from one without. -/
theorem staysOnSite_of_startsWith
    (parseAuthority : Scheme → List Char → Option (String × Option Nat)) {text : String}
    (h : startsWith "/" text = true) : StaysOnSite parseAuthority text ↔ ¬HasAuthority text := by
  obtain ⟨kept, hnorm, hauthority⟩ := normalise_of_startsWith h
  rw [hauthority]
  rcases kept with _ | ⟨b, rest⟩
  · exact iff_of_true (fun base => by rw [resolveOrigin, hnorm]) (by decide)
  rw [List.head?_cons, Option.any_some]
  constructor
  · intro hstays hslash
    have hparse : ∀ host, (parseAuthority .https ((rest.dropWhile isSlash).takeWhile fun c =>
        !endsAuthority c)).map (fun (host, port) => Origin.mk .https host port) =
          some ⟨.https, host, none⟩ := by
      intro host
      have hbase := hstays ⟨.https, host, none⟩
      rw [resolveOrigin, hnorm] at hbase
      simpa only [hslash, Bool.and_true, if_pos (show isSlash '/' = true from rfl)] using hbase
    have htwo := (hparse "a").symm.trans (hparse "b")
    simp at htwo
  · intro hslash base
    rw [resolveOrigin, hnorm]
    simp only [hslash, Bool.and_false, Bool.false_eq_true, if_false]

/-! ### What `sanitize_redirect` lets through -/

theorem startsWith_sanitizeRedirect (accepts : String → Bool) (target : Option String) :
    startsWith "/" (sanitizeRedirect accepts target) = true := by
  rw [sanitizeRedirect]
  split
  · rfl
  · split_ifs with h ha
    · rfl
    · simp only [Bool.or_eq_true, Bool.not_eq_true', not_or, Bool.not_eq_false] at h
      exact h.1
    · rfl

theorem hasAuthority_sanitizeRedirect (accepts : String → Bool) (target : Option String) :
    HasAuthority (sanitizeRedirect accepts target) ↔ ∃ text ∈ target, LeavesSite accepts text := by
  have hroot : ¬HasAuthority "/" := by rw [HasAuthority]; decide
  rcases target with _ | text
  · exact iff_of_false hroot (by simp)
  simp only [Option.mem_some_iff, exists_eq_left', sanitizeRedirect, LeavesSite]
  rcases text.isEmpty.eq_false_or_eq_true with he | he
  · rw [String.isEmpty_iff] at he
    subst he
    exact iff_of_false hroot fun hleaves => absurd hleaves.2.1 (by decide)
  · rw [Option.filter_some, he]
    rcases (startsWith "/" text).eq_false_or_eq_true with h1 | h1 <;>
      rcases (startsWith "//" text).eq_false_or_eq_true with h2 | h2 <;>
        rcases (accepts text).eq_false_or_eq_true with ha | ha <;> simp [h1, h2, ha, hroot]

/-- The redirects of a login stay on the site unless their target leaves it. -/
theorem login_staysOnSite_iff (accepts : String → Bool)
    (parseAuthority : Scheme → List Char → Option (String × Option Nat))
    (exchange query : Option String) :
    (StaysOnSite parseAuthority (ssoLocation accepts query) ↔
        ∀ text ∈ query, ¬LeavesSite accepts text) ∧
      (StaysOnSite parseAuthority (oauthLocation accepts exchange query) ↔
        ∀ text ∈ exchange.or query, ¬LeavesSite accepts text) := by
  have hall : ∀ target, StaysOnSite parseAuthority (sanitizeRedirect accepts target) ↔
      ∀ text ∈ target, ¬LeavesSite accepts text := by
    intro target
    rw [staysOnSite_of_startsWith _ (startsWith_sanitizeRedirect accepts target),
      hasAuthority_sanitizeRedirect]
    simp only [not_exists, not_and]
  exact ⟨hall query, hall (exchange.or query)⟩

/-- A byte of a header: printable, or a tab. -/
def isHeaderByte (b : UInt8) : Bool := (32 ≤ b && b != 127) || b == 9

/-- A backslash behind the slash names another host. -/
theorem not_staysOnSite_backslash :
    ¬∀ redirect : String, StaysOnSite
      (fun _ authority => some (String.ofList authority, none))
      (ssoLocation (fun text => text.toUTF8.data.toList.all isHeaderByte) (some redirect)) := by
  intro h
  have hevil := h "/\\evil.example" ⟨.https, "pkgly.example", none⟩
  revert hevil
  decide

end Pkgly.Redirect
