import Pkgly.Nuget.Utils

/-!
# The indexes of a virtual NuGet repository

`handleFlatcontainerVersions` and `handleRegistrationIndex` ask every enabled member for its index,
read what it answers as JSON, and merge the entries.  The two are one loop (`handleIndex`) over an
`Endpoint`, which says what is read from a document, how the entries are put together, and how the
index is rendered.  The answers of the members are data here.
-/

namespace Pkgly.Nuget

/-- `RepoResponse`, with the body of another response collected. -/
inductive RepoResponse
  | fileResponse
  | fileMetaResponse
  | other (status : Nat) (body : Bytes)

inductive MemberRepository
  | missing
  /-- Not a NuGet repository. -/
  | foreign
  /-- A nested virtual repository is ignored. -/
  | virtual
  /-- A hosted repository or a proxy. -/
  | nuget (get head : RepoResponse)

/-- `ResolvedVirtualMember`. -/
structure VirtualMember where
  repository : MemberRepository
  enabled : Bool

def unsupportedMethodBody : Method → Bytes
  | .other name =>
    ("Method " ++ name ++ " is not supported for repository type nuget").toUTF8.data.toList
  | _ => []

def fetchMemberResponse (method : Method) : MemberRepository → Option RepoResponse
  | .nuget get head =>
    match method with
    | .get => some get
    | .head => some head
    | other => some (.other 405 (unsupportedMethodBody other))
  | _ => none

/-- `NugetError`, as far as an index can fail. -/
inductive NugetError
  /-- A body is not a JSON document. -/
  | json
deriving DecidableEq

/-- An index that is merged: what a document lists, the version of an entry, the entries put
together, and the document that is answered. -/
structure Endpoint (α : Type) where
  read : Json → List α
  version : α → String
  arrange : List α → List α
  render : List α → Json
  /-- No version is lost or added. -/
  mem_arrange : ∀ entries v, v ∈ (arrange entries).map version ↔ v ∈ entries.map version
  /-- The versions can be read from the document. -/
  render_inj : ∀ entries entries', render entries = render entries' →
    entries.map version = entries'.map version

variable {α : Type}

/-- The loop over the enabled members, with the entries so far. -/
def collectEntries (serde : SerdeJson) (endpoint : Endpoint α) (method : Method) :
    List α → List VirtualMember → Except NugetError (List α)
  | entries, [] => .ok entries
  | entries, member :: members =>
    match fetchMemberResponse method member.repository with
    | some (.other status body) =>
      if status = 404 then collectEntries serde endpoint method entries members
      else
        match serde.value body with
        | none => .error .json
        | some value =>
          collectEntries serde endpoint method (entries ++ endpoint.read value) members
    | _ => collectEntries serde endpoint method entries members

def handleIndex (serde : SerdeJson) (endpoint : Endpoint α) (method : Method)
    (members : List VirtualMember) (packageId : String) : Except NugetError Response :=
  match collectEntries serde endpoint method [] (members.filter VirtualMember.enabled) with
  | .error e => .error e
  | .ok entries =>
    let arranged := endpoint.arrange entries
    if arranged.isEmpty then .ok ⟨404, .text ("Package " ++ packageId ++ " not found")⟩
    else .ok (jsonResponse method (endpoint.render arranged))

/-! ### The two indexes -/

/-- `BTreeSet::insert`. -/
def insertVersion (version : String) : List String → List String
  | [] => [version]
  | other :: versions =>
    if version < other then version :: other :: versions
    else if version = other then other :: versions
    else other :: insertVersion version versions

theorem map_eq_map_of_imp {β γ : Type} {f : α → β} {g : α → γ} {a b : List α}
    (hfg : ∀ x y, f x = f y → g x = g y) (h : a.map f = b.map f) : a.map g = b.map g := by
  induction a generalizing b with
  | nil =>
    rw [List.map_nil, eq_comm, List.map_eq_nil_iff] at h
    rw [h]
  | cons x a ih =>
    cases b with
    | nil => cases h
    | cons y b =>
      grind

theorem mem_dedupLeaves {leaves : List RegistrationLeaf} {v : String} :
    v ∈ (dedupLeaves leaves).map RegistrationLeaf.lowerVersion ↔
      v ∈ leaves.map RegistrationLeaf.lowerVersion := by
  unfold dedupLeaves
  induction leaves with
  | nil => rfl
  | cons leaf leaves ih =>
    rw [List.foldr_cons, List.map_cons, List.map_cons, List.mem_cons, List.mem_cons, ← ih]
    split
    · rename_i next later heq
      rw [heq]
      split_ifs with hsame
      · -- the removed leaf has the version of the one before
        rw [List.map_cons, List.mem_cons, hsame]
        tauto
      · rfl
    · rename_i heq
      rw [heq]

theorem mem_sortLeaves {leaves : List RegistrationLeaf} {v : String} :
    v ∈ (sortLeaves leaves).map RegistrationLeaf.lowerVersion ↔
      v ∈ leaves.map RegistrationLeaf.lowerVersion := by
  rw [sortLeaves, mem_dedupLeaves]
  exact ((List.perm_insertionSort _ leaves).map _).mem_iff

def registration (base packageId : String) : Endpoint RegistrationLeaf where
  read := collectRegistrationLeaves
  version := RegistrationLeaf.lowerVersion
  arrange := sortLeaves
  render := buildRegistrationIndex base packageId
  mem_arrange _ _ := mem_sortLeaves
  render_inj entries entries' h := by
    simp only [buildRegistrationIndex, Json.obj.injEq, List.cons.injEq, Prod.mk.injEq,
      Json.arr.injEq, true_and, and_true] at h
    -- a version is a part of the address of its leaf
    refine map_eq_map_of_imp (fun leaf leaf' heq => ?_) h.2.2.1
    simp_all

def handleRegistrationIndex (serde : SerdeJson) (method : Method) (members : List VirtualMember)
    (base packageId : String) : Except NugetError Response :=
  handleIndex serde (registration base packageId) method members packageId

end Pkgly.Nuget
