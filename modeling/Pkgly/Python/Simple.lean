import Pkgly.Storage.StoragePath

/-!
# Pages of the simple index

The links of a simple page and the HTML that they are written as, which a hosted and a virtual
repository write in the same way.
-/

/-!
## Names and paths of Python packages

`PythonPackagePathInfo`, what the path of a distribution file says about it, and
`normalize_package_name`, under which names are equal.
-/

namespace Pkgly.Python

def normalizePackageName (name : String) : String :=
  String.ofList ((toAsciiLowercase name).toList.map fun c =>
    if c = '-' ∨ c = '_' ∨ c = '.' then '-' else c)

structure PythonPackagePathInfo where
  package : String
  version : String
  fileName : String
deriving DecidableEq

/-- `impl TryFrom<&StoragePath> for PythonPackagePathInfo`, on the components; `none` is
`InvalidPath`. -/
def PythonPackagePathInfo.tryFrom : List String → Option PythonPackagePathInfo
  | package :: version :: file :: rest =>
    some ⟨package, version, (file :: rest).getLast (List.cons_ne_nil _ _)⟩
  | [] | [_] | [_, _] => none

def PythonPackagePathInfo.projectKey (info : PythonPackagePathInfo) : String :=
  normalizePackageName info.package

def PythonPackagePathInfo.projectStoragePath (info : PythonPackagePathInfo) : String :=
  info.projectKey ++ "/"

def PythonPackagePathInfo.versionStoragePath (info : PythonPackagePathInfo) : String :=
  info.projectKey ++ "/" ++ info.version

end Pkgly.Python

namespace Pkgly.Python

/-- The text that stands for a character. -/
def escapeChar (ch : Char) : List Char :=
  if ch = '&' then "&amp;".toList
  else if ch = '<' then "&lt;".toList
  else if ch = '>' then "&gt;".toList
  else if ch = '\"' then "&quot;".toList
  else if ch = '\x27' then "&#x27;".toList
  else [ch]

def htmlEscape (input : String) : String := String.ofList (input.toList.flatMap escapeChar)

structure SimpleIndexLink where
  href : String
  text : String
  requiresPython : Option String
deriving DecidableEq, Repr

/-- The attribute `data-requires-python` of a link. -/
def requiresPythonAttribute : Option String → String
  | some requiresPython => " data-requires-python=\"" ++ (htmlEscape requiresPython ++ "\"")
  | none => ""

def SimpleIndexLink.line (link : SimpleIndexLink) : String :=
  "    <a href=\"" ++ (htmlEscape link.href ++ ("\"" ++
    (requiresPythonAttribute link.requiresPython ++ (">" ++ (htmlEscape link.text ++
      "</a><br/>\n")))))

def packagePage (displayName : String) (links : List SimpleIndexLink) : String :=
  "<!DOCTYPE html>\n<html>\n  <head>\n    <meta charset=\"utf-8\">\n    <title>Links for " ++
    (htmlEscape displayName ++ ("</title>\n  </head>\n  <body>\n    <h1>Links for " ++
      (htmlEscape displayName ++ ("</h1>\n" ++
        ((if links.isEmpty then "    <p>No files available.</p>\n"
          else String.join (links.map SimpleIndexLink.line)) ++
        "  </body>\n</html>\n")))))

def notFoundPage (packageComponent : String) : String :=
  "<!DOCTYPE html>\n<html>\n  <head>\n    <meta charset=\"utf-8\">\n    " ++
    ("<title>Package not found</title>\n  </head>\n  <body>\n    <p>Package " ++
      (htmlEscape packageComponent ++ " not found.</p>\n  </body>\n</html>\n"))

end Pkgly.Python
