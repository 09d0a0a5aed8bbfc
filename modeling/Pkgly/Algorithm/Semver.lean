import Pkgly.Algorithm.Text
import Mathlib.Data.Prod.Lex
import Mathlib.Data.Sum.Order
import Mathlib.Data.String.Basic
import Mathlib.Order.WithBot

/-!
# The precedence of semantic versions

A semantic version is three numbers, after a hyphen the identifiers of a pre-release, and after a
plus sign build metadata, which have no part in the precedence.  Versions are ordered by their
numbers; a release comes after its pre-releases, and these are ordered by their identifiers, numbers
before other texts (`Precedence`).
-/

namespace Pkgly

/-- An identifier of a pre-release: a number, or a text. -/
abbrev Identifier := ℕ ⊕ₗ String

/-- What versions are ordered by: the three numbers, and the identifiers of the pre-release, which
are the top element in a release. -/
abbrev Precedence := ℕ ×ₗ ℕ ×ₗ ℕ ×ₗ WithTop (List Identifier)

def readNumber (digits : List Char) : Option ℕ :=
  if digits ≠ [] ∧ digits.all Char.isDigit ∧ (digits.head? = some '0' → digits = ['0']) then
    some (digitsValue digits)
  else none

/-- A text that may stand between the dots of a pre-release or of build metadata. -/
def isIdentifier (text : List Char) : Bool :=
  !text.isEmpty && text.all fun ch => ch.isAlphanum || ch == '-'

def readIdentifier (text : List Char) : Option Identifier :=
  if !isIdentifier text then none
  else if text.all Char.isDigit then (readNumber text).map fun n => toLex (Sum.inl n)
  else some (toLex (Sum.inr (String.ofList text)))

def readPrerelease : Option (List Char) → Option (WithTop (List Identifier))
  | none => some ⊤
  | some text => ((text.splitOn '.').mapM readIdentifier).map WithTop.some

def readCore (text : List Char) : Option (ℕ × ℕ × ℕ) :=
  match (text.splitOn '.').mapM readNumber with
  | some [major, minor, patch] => some (major, minor, patch)
  | _ => none

/-- The text up to the first `c`, and the text after it. -/
def cutOnce (c : Char) (text : List Char) : List Char × Option (List Char) :=
  match splitOnce [c] text with
  | some (text, rest) => (text, some rest)
  | none => (text, none)

/-- The text behind the `v` that a version may start with. -/
def withoutV (text : List Char) : List Char :=
  if text.head? = some 'v' then text.tail else text

def partsPrecedence (core : List Char) (prerelease build : Option (List Char)) :
    Option Precedence :=
  if build.all fun build => (build.splitOn '.').all isIdentifier then
    match readCore core, readPrerelease prerelease with
    | some (major, minor, patch), some prerelease =>
      some (toLex (major, toLex (minor, toLex (patch, prerelease))))
    | _, _ => none
  else none

/-- The precedence of a version, which may start with a `v`. -/
def precedence (version : String) : Option Precedence :=
  let (text, build) := cutOnce '+' (withoutV version.toList)
  let (core, prerelease) := cutOnce '-' text
  partsPrecedence core prerelease build

/-- The version `v` has no higher precedence than `w`. -/
def PrecedenceLe (v w : String) : Prop := ∀ p ∈ precedence v, ∀ q ∈ precedence w, p ≤ q

instance (v w : String) : Decidable (PrecedenceLe v w) :=
  inferInstanceAs (Decidable (∀ p ∈ precedence v, ∀ q ∈ precedence w, p ≤ q))

theorem PrecedenceLe.refl (v : String) : PrecedenceLe v v := by
  intro p hp q hq
  rw [Option.mem_unique hp hq]

/-! ### A release and its pre-releases -/

end Pkgly
