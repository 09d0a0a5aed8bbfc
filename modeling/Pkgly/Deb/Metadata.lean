import Pkgly.Algorithm.Text
import Pkgly.Storage.DynStorage

/-!
# The metadata of Debian packages

`ControlFile` is what `ControlFile::parse` makes of the control file of a package, and
`DebPackageMetadata` what the catalogue records of it.
-/

namespace Pkgly.Deb

/-! ### Control files -/

inductive ControlParseError
  | missingSeparator (line : String)
  | invalidContinuation
deriving DecidableEq

structure ControlFile where
  fields : List (String × String)
deriving DecidableEq

def ControlFile.get (control : ControlFile) (key : String) : Option String :=
  control.fields.lookup key

/-- What the loop over the lines carries. -/
structure ControlParser where
  fields : List (String × String)
  currentKey : Option String
  currentValue : List Char

def trimEnd (s : List Char) : List Char := (s.reverse.dropWhile isWhitespace).reverse

/-- File the current field; a later field replaces an earlier one with its key. -/
def ControlParser.flush (st : ControlParser) : ControlParser :=
  match st.currentKey with
  | none => st
  | some key =>
    ⟨(key, String.ofList (trimEnd st.currentValue)) :: st.fields.filter (·.1 ≠ key), none, []⟩

def ControlParser.line (st : ControlParser) (line : List Char) :
    Except ControlParseError ControlParser :=
  if (line.dropWhile isWhitespace).isEmpty then .ok st.flush
  else
    match line with
    | ' ' :: stripped =>
      if st.currentKey.isNone then .error .invalidContinuation
      else if stripped = ['.'] then .ok { st with currentValue := st.currentValue ++ ['\n'] }
      else
        let separator := if st.currentValue.isEmpty then [] else ['\n']
        .ok { st with currentValue := st.currentValue ++ separator ++ stripped }
    | _ =>
      match splitOnce [':'] line with
      | none => .error (.missingSeparator (String.ofList line))
      | some (key, value) =>
        .ok ⟨st.flush.fields, some (String.ofList (trim (String.ofList key))),
          st.flush.currentValue ++ value.dropWhile isWhitespace⟩

def ControlParser.lines (st : ControlParser) :
    List (List Char) → Except ControlParseError ControlParser
  | [] => .ok st
  | line :: rest =>
    match st.line line with
    | .error e => .error e
    | .ok st => st.lines rest

def ControlFile.parse (contents : String) : Except ControlParseError ControlFile :=
  match ControlParser.lines ⟨[], none, []⟩ (Pkgly.lines contents) with
  | .error e => .error e
  | .ok st => .ok ⟨st.flush.fields⟩

/-! ### Packages -/

/-- What other libraries compute: the control file in an archive, and digests. -/
structure DebFormat where
  /-- The text of the control file; `none` when the archive cannot be read. -/
  controlText : Bytes → Option String
  md5Hex : Bytes → String
  sha1Hex : Bytes → String
  sha256Hex : Bytes → String

structure ParsedPackage where
  control : ControlFile
  fileSize : ℕ
  md5 : String
  sha1 : String
  sha256 : String
deriving DecidableEq

/-- The `DebPackageError`s. -/
inductive DebPackageError
  | archive
  | control (e : ControlParseError)
deriving DecidableEq

def parseDebPackage (format : DebFormat) (bytes : Bytes) : Except DebPackageError ParsedPackage :=
  match format.controlText bytes with
  | none => .error .archive
  | some text =>
    match ControlFile.parse text with
    | .error e => .error (.control e)
    | .ok control => .ok ⟨control, bytes.length, format.md5Hex bytes, format.sha1Hex bytes,
        format.sha256Hex bytes⟩

structure DebPackageMetadata where
  distribution : String
  component : String
  architecture : String
  filename : String
  size : ℕ
  md5 : String
  sha1 : String
  sha256 : String
  «section» : Option String
  priority : Option String
  maintainer : Option String
  installedSize : Option ℕ
  depends : List String
  homepage : Option String
  description : Option String
deriving DecidableEq

def parseDependencyList (raw : Option String) : List String :=
  match raw with
  | none => []
  | some value =>
    ((pieces ',' value).map fun item => String.ofList (trim item)).filter fun item => item ≠ ""

end Pkgly.Deb
