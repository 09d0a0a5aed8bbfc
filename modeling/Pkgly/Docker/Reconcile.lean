import Pkgly.Algorithm.Worklist
import Pkgly.Docker.Manifests

/-!
# Reconciling the accounting of Docker objects

`backfillManifestObjects` walks through the graph of a stored manifest, from the manifest to the
objects it refers to, and lists what it finds in the storage.  `rowWrites` are the objects in the
order in which their rows are written.  The rows that the database keeps of the objects, and the
revisions that guard them, are left out.
-/

namespace Pkgly.Docker

/-- An object of a manifest graph: its path, its size and the objects it refers to. -/
structure ObservedObject where
  path : String
  size : ℕ
  references : List String
deriving DecidableEq

/-- What the walk does with one path: the objects it refers to, and what is found there; `none` when
`manifest_references` does not return. -/
def observeObject (serde : SerdeJson) (st : DynStorage) (name path : String) :
    Option (Except StorageError (List String × List ObservedObject)) :=
  if (splitManifestCachePath path).isSome then
    match st.openFile (StoragePath.ofString path) with
    | .error e => some (.error e)
    | .ok (some (.file content)) =>
      (manifestReferences serde name content).map fun references =>
        .ok (references, [⟨path, content.length, references⟩])
    | .ok _ => some (.ok ([], []))
  else
    match st.getFileInformation (StoragePath.ofString path) with
    | .error e => some (.error e)
    | .ok (some (some size)) => some (.ok ([], [⟨path, size, []⟩]))
    | .ok _ => some (.ok ([], []))

/-- `backfill_manifest_objects`: the walk from a root, with `fuel` rounds of its loop. -/
def backfillManifestObjects (serde : SerdeJson) (st : DynStorage) (fuel : ℕ) (root : String) :
    Option (Except StorageError (List ObservedObject)) :=
  match splitManifestCachePath root with
  | none => some (.ok [])
  | some (name, _) => worklist (observeObject serde st name) fuel [root] [] []

/-- The writes of rows after the walk.  A size that does not fit a `BIGINT` ends the loop. -/
def rowWrites (objects : List ObservedObject) : List ObservedObject :=
  objects.reverse.takeWhile fun object => object.size < 2 ^ 63

end Pkgly.Docker
