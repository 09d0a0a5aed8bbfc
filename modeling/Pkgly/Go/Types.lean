import Pkgly.Algorithm.Text

/-!
# Go modules and versions

`GoModulePath` and `GoVersion` are texts that have passed their check.  The check of a version is
weak: only its first component must be a number, so that a version may contain slashes and line
breaks.  Versions are ordered as texts.
-/

namespace Pkgly.Go

/-! ### Module paths -/

def isValidPathChar (ch : Char) : Bool :=
  ch.isAlphanum || ch ∈ ['-', '_', '.', '/', '~']

def isValidLabel (label : List Char) : Bool :=
  !label.isEmpty && decide (label.length ≤ 63) &&
    label.head?.any Char.isAlphanum && label.getLast?.any Char.isAlphanum &&
    label.all fun ch => ch.isAlphanum || ch == '-'

def isValidDomain (domain : List Char) : Bool :=
  !domain.isEmpty && decide (domain.length ≤ 253) && (domain.splitOn '.').all isValidLabel

/-- `GoModulePath::validate`. -/
def validateModulePath (path : String) : Bool :=
  path != "" && path.toList.all isValidPathChar && !startsWith "/" path && !endsWith "/" path &&
    !containsText "//" path &&
    match path.toList.splitOn '/' with
    | domain :: _ :: _ => !('.' ∈ domain) || isValidDomain domain
    | _ => true

structure GoModulePath where
  text : String
  valid : validateModulePath text = true
deriving DecidableEq

def GoModulePath.new (text : String) : Option GoModulePath :=
  if h : validateModulePath text = true then some ⟨text, h⟩ else none

theorem GoModulePath.new_text (module : GoModulePath) :
    GoModulePath.new module.text = some module := by
  rw [GoModulePath.new, dif_pos module.valid]

/-! ### Versions -/

/-- `GoVersion::validate`. -/
def validateVersion (version : String) : Bool :=
  let rest := version.toList.dropWhile (· == 'v')
  version != "" && !(' ' ∈ rest) &&
    match rest.splitOn '.' with
    | major :: _ :: _ => (parseU64 major).isSome
    | _ => false

structure GoVersion where
  text : String
  valid : validateVersion text = true
deriving DecidableEq

def GoVersion.new (text : String) : Option GoVersion :=
  if h : validateVersion text = true then some ⟨text, h⟩ else none

end Pkgly.Go
