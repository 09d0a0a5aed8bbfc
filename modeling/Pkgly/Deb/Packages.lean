import Pkgly.Deb.Hosted

/-!
# The `Packages` index of a Debian repository

`build_packages_index`: one stanza for each row of the catalogue, which `format_packages_entry`
writes from the metadata that was recorded of the upload.  Only the text is modelled: the rows are
those that the query returns, in its order.
-/

namespace Pkgly.Deb

def dependencyDisplay (values : List String) : Option String :=
  if values.isEmpty then none else some (String.intercalate ", " values)

structure PackagesRecord where
  package : String
  version : String
  architecture : String
  «section» : Option String
  priority : Option String
  maintainer : Option String
  installedSize : Option ℕ
  depends : Option String
  description : String
  homepage : Option String
  filename : String
  size : ℕ
  md5 : String
  sha1 : String
  sha256 : String

def pushLabelValue (label value : String) : String := label ++ ": " ++ value ++ "\n"

def pushOptional (label : String) (value : Option String) : String :=
  match value with
  | some value => pushLabelValue label value
  | none => ""

def descriptionLine (line : List Char) : String :=
  if line.isEmpty then " .\n" else " " ++ String.ofList line ++ "\n"

def formatDescription (description : String) : String :=
  match splitOnce ['\n'] description.toList with
  | some (summary, rest) =>
    pushLabelValue "Description" (String.ofList summary) ++
      String.join ((lines (String.ofList rest)).map descriptionLine)
  | none => pushLabelValue "Description" description

def formatPackagesEntry (record : PackagesRecord) : String :=
  pushLabelValue "Package" record.package ++
  pushLabelValue "Version" record.version ++
  pushLabelValue "Architecture" record.architecture ++
  pushOptional "Section" record.section ++
  pushOptional "Priority" record.priority ++
  pushOptional "Maintainer" record.maintainer ++
  pushOptional "Depends" record.depends ++
  pushOptional "Installed-Size" (record.installedSize.map toString) ++
  pushOptional "Homepage" record.homepage ++
  pushLabelValue "Filename" record.filename ++
  pushLabelValue "Size" (toString record.size) ++
  pushLabelValue "MD5sum" record.md5 ++
  pushLabelValue "SHA1" record.sha1 ++
  pushLabelValue "SHA256" record.sha256 ++
  formatDescription record.description ++ "\n"

structure DebVersionRow where
  projectName : String
  version : String
  extra : VersionData

def DebVersionRow.record (row : DebVersionRow) : PackagesRecord where
  package := row.projectName
  version := row.version
  architecture := row.extra.extra.architecture
  «section» := row.extra.extra.section
  priority := row.extra.extra.priority
  maintainer := row.extra.extra.maintainer
  installedSize := row.extra.extra.installedSize
  depends := dependencyDisplay row.extra.extra.depends
  description := row.extra.extra.description.getD (row.extra.description.getD "")
  homepage := row.extra.extra.homepage
  filename := row.extra.extra.filename
  size := row.extra.extra.size
  md5 := row.extra.extra.md5
  sha1 := row.extra.extra.sha1
  sha256 := row.extra.extra.sha256

def buildPackagesIndex (rows : List DebVersionRow) : String :=
  String.join (rows.map fun row => formatPackagesEntry row.record)

end Pkgly.Deb
