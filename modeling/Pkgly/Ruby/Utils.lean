import Pkgly.Algorithm.Text

/-!
# Gem file names

`parse_gem_file_name`: a gem file name is a name, a version and possibly a platform, joined with
dashes.  The dashes are tried from the right until what stands behind one starts with a digit.
-/

namespace Pkgly.Ruby

structure ParsedGemFileName where
  name : String
  version : String
  platform : Option String
deriving DecidableEq

def cutVersion (right : List Char) : Option (List Char × Option (List Char)) :=
  match splitOnce ['-'] right with
  | some (version, platform) =>
    if platform.isEmpty then none
    else if version.head?.any Char.isDigit then some (version, some platform) else none
  | none => if right.head?.any Char.isDigit then some (right, none) else none

/-- The dashes of `rest`, which follows `left`, from the right. -/
def parseFrom (left : List Char) : List Char → Option ParsedGemFileName
  | [] => none
  | ch :: rest =>
    match parseFrom (left ++ [ch]) rest with
    | some parsed => some parsed
    | none =>
      if ch ≠ '-' || left.isEmpty || rest.isEmpty then none
      else (cutVersion rest).map fun cut =>
        ⟨String.ofList left, String.ofList cut.1, cut.2.map String.ofList⟩

def parseGemFileName (fileName : String) : Option ParsedGemFileName :=
  (stripSuffix ".gem".toList fileName.toList).bind fun base =>
    if base.isEmpty then none else parseFrom [] base

end Pkgly.Ruby
