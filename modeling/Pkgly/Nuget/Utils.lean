import Mathlib.Data.List.Sort
import Pkgly.Docker.Types

/-!
# Versions and registration documents of NuGet

Package ids are lowered and versions are normalized (`normalizeVersion`) wherever they become a
part of a path.  A registration document nests its leaves anywhere; `collectRegistrationLeaves`
gathers them, one for each version.  The member names of an object are unique in a `Value`, and its
members are in the order of their names; the document lists them as the text has them.
-/

namespace Pkgly.Nuget

def lowerId (value : String) : String := toAsciiLowercase value

def normalizeVersion (value : String) : String :=
  toAsciiLowercase (String.ofList (trim (String.ofList (value.toList.takeWhile (· ≠ '+')))))

/-! ### Documents -/

/-- `get(name)` of a `Value`. -/
def getMember (name : String) : Json → Option Json
  | .obj members => members.reverse.lookup name
  | _ => none

/-- `get(name).and_then(as_str)`. -/
def getText (name : String) (value : Json) : Option String := value.getStr? name

structure RegistrationLeaf where
  lowerVersion : String
  published : Option String
  packageContent : String
  catalogEntry : Json

/-- `dedup_by` the version: the first leaf of each run stays. -/
def dedupLeaves (leaves : List RegistrationLeaf) : List RegistrationLeaf :=
  leaves.foldr
    (fun leaf rest =>
      leaf :: match rest with
        | next :: later => if next.lowerVersion = leaf.lowerVersion then later else next :: later
        | [] => [])
    []

/-- `sort_by` and `dedup_by` the version. -/
def sortLeaves (leaves : List RegistrationLeaf) : List RegistrationLeaf :=
  dedupLeaves (leaves.insertionSort fun a b => a.lowerVersion ≤ b.lowerVersion)

def ownLeaf (value : Json) : List RegistrationLeaf :=
  match getMember "catalogEntry" value with
  | none => []
  | some catalogEntry =>
    let packageContent := (getText "packageContent" value).getD ""
    let version := ((getText "version" catalogEntry).or (getText "version" value)).getD ""
    if version ≠ "" ∧ packageContent ≠ "" then
      [⟨normalizeVersion version, getText "published" catalogEntry, packageContent, catalogEntry⟩]
    else []

/-- The entries of a map from texts: the last one for each name, in the order of the names. -/
def mapEntries {α : Type} (members : List (String × α)) : List (String × α) :=
  members.foldl
    (fun entries member => (member :: entries.filter fun e => e.1 ≠ member.1).insertionSort
      fun a b => a.1 ≤ b.1)
    []

mutual

def collectRegistrationLeavesInner : Json → List RegistrationLeaf
  | .arr items => collectItems items
  | .obj members =>
    ownLeaf (.obj members) ++ (mapEntries (collectMembers members)).flatMap Prod.snd
  | _ => []

def collectItems : List Json → List RegistrationLeaf
  | [] => []
  | item :: items => collectRegistrationLeavesInner item ++ collectItems items

def collectMembers : List (String × Json) → List (String × List RegistrationLeaf)
  | [] => []
  | (name, value) :: members =>
    (name, collectRegistrationLeavesInner value) :: collectMembers members

end

def collectRegistrationLeaves (value : Json) : List RegistrationLeaf :=
  sortLeaves (collectRegistrationLeavesInner value)

def buildRegistrationIndex (baseUrl packageId : String) (leaves : List RegistrationLeaf) : Json :=
  let id := lowerId packageId
  let registration := baseUrl ++ "/v3/registration/" ++ id
  let items := leaves.map fun leaf => Json.obj
    [("@id", .str (registration ++ "/" ++ leaf.lowerVersion ++ ".json")),
      ("catalogEntry", leaf.catalogEntry), ("packageContent", .str leaf.packageContent)]
  let lower := (leaves.head?.map RegistrationLeaf.lowerVersion).getD ""
  let upper := (leaves.getLast?.map RegistrationLeaf.lowerVersion).getD ""
  .obj
    [("count", .int 1),
      ("items", .arr [.obj
        [("@id", .str (registration ++ "/page/" ++ lower ++ "/" ++ upper ++ ".json")),
          ("count", .int leaves.length), ("items", .arr items), ("lower", .str lower),
          ("upper", .str upper), ("parent", .str (registration ++ "/index.json"))]])]

/-! ### Responses -/

inductive Method
  | get
  | head
  | other (name : String)
deriving DecidableEq

inductive Body
  | empty
  | text (content : String)
  | json (value : Json)

structure Response where
  status : Nat
  body : Body

def jsonResponse (method : Method) (value : Json) : Response :=
  if method = .head then ⟨200, .empty⟩ else ⟨200, .json value⟩

def isSuccess (status : Nat) : Bool := decide (200 ≤ status ∧ status < 300)

end Pkgly.Nuget
