import Mathlib.Data.List.Sort
import Pkgly.Algorithm.Text
import Pkgly.User.Permissions

/-!
# The members of a virtual repository

A virtual repository keeps its members twice in the database, in its config and as rows of
`virtual_repository_members`, and a third time in the running repository.  `reload` and `load` are
what the running repository reads of the database; the members come from the rows, which are seeded
from the config if there are none.

The three kinds of virtual repositories do the same here, but for the member to which they publish
if the config names none.
-/

namespace Pkgly.Virtual

/-! ### Repositories -/

inductive VirtualKind
  | npm
  | python
  | nuget
deriving DecidableEq

/-- The name of the repository type, which is also the key of its config. -/
def VirtualKind.typeId : VirtualKind → String
  | npm => "npm"
  | python => "python"
  | nuget => "nuget"

def VirtualKind.label : VirtualKind → String
  | npm => "NPM"
  | python => "Python"
  | nuget => "NuGet"

def VirtualKind.reloadName : VirtualKind → String
  | npm => "npm"
  | python => "python"
  | nuget => "NuGet"

inductive VirtualResolutionOrder
  | priority
deriving DecidableEq

structure VirtualRepositoryMemberConfig where
  repositoryId : Uuid
  repositoryName : String
  priority : UInt32
  enabled : Bool
deriving DecidableEq

structure VirtualRepositoryConfig where
  memberRepositories : List VirtualRepositoryMemberConfig
  resolutionOrder : VirtualResolutionOrder
  cacheTtlSeconds : ℕ
  publishTo : Option Uuid
deriving DecidableEq

/-- The config of a repository (`PythonRepositoryConfig` and its like); of a proxy the URLs that are
checked. -/
inductive RepositoryConfig
  | hosted
  | proxy (urls : List String)
  | virtual (config : VirtualRepositoryConfig)
deriving DecidableEq

/-- `DBRepository`, with the config that is stored for its type. -/
structure DBRepository where
  id : Uuid
  storageId : Uuid
  name : String
  repositoryType : String
  config : Option RepositoryConfig
deriving DecidableEq

structure DBStorage where
  id : Uuid
  name : String
deriving DecidableEq

structure Surroundings where
  kind : VirtualKind
  /-- The row of the virtual repository. -/
  own : DBRepository
  storages : List DBStorage
  /-- The rows of all repositories; the config of the virtual one is not read here. -/
  repositories : List DBRepository
  /-- `COLLATE ignoreCase`. -/
  sameName : String → String → Bool
  /-- The URL passes the egress policy. -/
  urlAllowed : String → Bool

def Surroundings.getById (env : Surroundings) (id : Uuid) : Option DBRepository :=
  env.repositories.find? fun r => r.id == id

/-- `DBStorage::get_by_id`. -/
def Surroundings.getStorageById (env : Surroundings) (id : Uuid) : Option DBStorage :=
  env.storages.find? fun s => s.id == id

def Surroundings.getIdFromStorageAndName (env : Surroundings)
    (storageName repositoryName : String) : Option Uuid :=
  (env.repositories.find? fun r => env.sameName r.name repositoryName &&
    (env.getStorageById r.storageId).any fun s => env.sameName s.name storageName).map (·.id)

/-! ### A virtual repository -/

/-- `DBVirtualRepositoryMember`. -/
structure MemberRow where
  id : ℕ
  memberRepositoryId : Uuid
  priority : Int32
  enabled : Bool
deriving DecidableEq

structure ResolvedVirtualMember where
  repositoryId : Uuid
  repositoryName : String
  priority : UInt32
  enabled : Bool
deriving DecidableEq

/-- The running repository (`PythonVirtualInner` and its like), without its caches. -/
structure RunningVirtual where
  resolutionOrder : VirtualResolutionOrder
  cacheTtlSeconds : ℕ
  members : List ResolvedVirtualMember
  publishTo : Option Uuid
deriving DecidableEq

structure VirtualState where
  config : Option RepositoryConfig
  /-- How often the config has been written, for its `updated_at`. -/
  updatedAt : ℕ
  rows : List MemberRow
  nextRowId : ℕ
  running : RunningVirtual
deriving DecidableEq

inductive RepositoryFactoryError
  | invalidConfig (message : String)
  | database
deriving DecidableEq

def VirtualState.getConfig (s : VirtualState) : RepositoryConfig := s.config.getD .hosted

def configOf (env : Surroundings) (s : VirtualState) (id : Uuid) : RepositoryConfig :=
  if id = env.own.id then s.getConfig
  else ((env.getById id).bind (·.config)).getD .hosted

def isHosted (env : Surroundings) (s : VirtualState) (id : Uuid) : Bool :=
  configOf env s id = .hosted

/-! ### Rows -/

/-- `ORDER BY priority ASC, member_repository_id ASC`. -/
def rowLe (a b : MemberRow) : Bool :=
  decide (a.priority < b.priority) ||
    a.priority == b.priority && decide (a.memberRepositoryId ≤ b.memberRepositoryId)

def listForVirtual (rows : List MemberRow) : List MemberRow :=
  rows.insertionSort fun a b => rowLe a b = true

/-- The rows that are inserted for some members, with ids from `nextRowId` on. -/
def newRows (nextRowId : ℕ) : List VirtualRepositoryMemberConfig → List MemberRow
  | [] => []
  | member :: members =>
    ⟨nextRowId, member.repositoryId, member.priority.toInt32, member.enabled⟩ ::
      newRows (nextRowId + 1) members

/-- The rows after a `replace_all` that has deleted some of them, when it is committed; `none` when
a constraint fails. -/
def commitRows (env : Surroundings) (members : List VirtualRepositoryMemberConfig)
    (deleted : List ℕ) (s : VirtualState) : Option VirtualState :=
  let kept := s.rows.filter fun row => !deleted.contains row.id
  if (members.all fun member => (env.getById member.repositoryId).isSome) &&
      decide ((kept.map (·.memberRepositoryId) ++ members.map (·.repositoryId)).Nodup) then
    some { s with
      rows := kept ++ newRows s.nextRowId members
      nextRowId := s.nextRowId + members.length }
  else none

def loadOrSeed (env : Surroundings) (config : VirtualRepositoryConfig) (s : VirtualState) :
    Except RepositoryFactoryError (List MemberRow × VirtualState) :=
  if s.rows = [] ∧ config.memberRepositories ≠ [] then
    match commitRows env config.memberRepositories [] s with
    | none => .error .database
    | some s => .ok (listForVirtual s.rows, s)
  else .ok (listForVirtual s.rows, s)

/-! ### The running repository -/

def resolveMember (env : Surroundings) (row : MemberRow) :
    Except RepositoryFactoryError ResolvedVirtualMember :=
  match env.getById row.memberRepositoryId with
  | none =>
    .error (.invalidConfig ("Virtual member " ++ toString row.memberRepositoryId ++ " missing"))
  | some repo =>
    if !eqIgnoreAsciiCase repo.repositoryType env.kind.typeId then
      .error (.invalidConfig
        ("Virtual members must be " ++ env.kind.label ++ " repositories: " ++ repo.name))
    else if repo.id = env.own.id then
      .error (.invalidConfig "Virtual repository cannot include itself")
    else .ok ⟨repo.id, repo.name, (max row.priority 0).toUInt32, row.enabled⟩

/-- The loop of `sync_members`. -/
def resolveMembers (env : Surroundings) :
    List MemberRow → Except RepositoryFactoryError (List ResolvedVirtualMember)
  | [] => .ok []
  | row :: rows =>
    match resolveMember env row with
    | .error e => .error e
    | .ok member => (resolveMembers env rows).map (member :: ·)

/-- The order in which members are tried to publish to: that of the rows for npm, else by priority
and name. -/
def publishOrder (kind : VirtualKind) (members : List ResolvedVirtualMember) :
    List ResolvedVirtualMember :=
  match kind with
  | .npm => members
  | .python | .nuget => members.insertionSort fun a b =>
      a.priority < b.priority ∨ a.priority = b.priority ∧ a.repositoryName ≤ b.repositoryName

/-- `validate_publish_target` of a running repository. -/
def validateTarget (env : Surroundings) (s : VirtualState) (target : Uuid)
    (members : List ResolvedVirtualMember) : Except RepositoryFactoryError Unit :=
  match members.find? fun m => m.repositoryId == target with
  | none =>
    .error (.invalidConfig ("Publish target " ++ toString target ++ " not in member set"))
  | some member =>
    if !member.enabled then
      .error (.invalidConfig "Publish target must reference an enabled member")
    else if !isHosted env s target then
      .error (.invalidConfig "Publish target must reference a hosted repository")
    else .ok ()

def selectPublishTarget (env : Surroundings) (s : VirtualState) (config : VirtualRepositoryConfig)
    (members : List ResolvedVirtualMember) : Except RepositoryFactoryError (Option Uuid) :=
  match config.publishTo with
  | some target => (validateTarget env s target members).map fun _ => some target
  | none =>
    .ok (((publishOrder env.kind (members.filter (·.enabled))).find? fun member =>
      isHosted env s member.repositoryId).map (·.repositoryId))

/-- `sync_members`, with the state that it leaves. -/
def syncMembers (env : Surroundings) (config : VirtualRepositoryConfig) (s : VirtualState) :
    Except RepositoryFactoryError Unit × VirtualState :=
  match loadOrSeed env config s with
  | .error e => (.error e, s)
  | .ok (rows, s) =>
    match resolveMembers env rows with
    | .error e => (.error e, s)
    | .ok members =>
      match selectPublishTarget env s config members with
      | .error e => (.error e, s)
      | .ok publishTo => (.ok (), { s with running := { s.running with members, publishTo } })

def updateResolutionSettings (config : VirtualRepositoryConfig) (s : VirtualState) :
    VirtualState :=
  { s with running := { s.running with
      resolutionOrder := config.resolutionOrder
      cacheTtlSeconds := max config.cacheTtlSeconds 1 } }

def reload (env : Surroundings) (s : VirtualState) :
    Except RepositoryFactoryError Unit × VirtualState :=
  match s.getConfig with
  | .virtual config => syncMembers env config (updateResolutionSettings config s)
  | _ =>
    (.error (.invalidConfig
      ("Repository is not a virtual " ++ env.kind.reloadName ++ " repo")), s)

/-- `load_repo` when the program starts: a virtual repository, or none if the config is of another
repository. -/
def load (env : Surroundings) (s : VirtualState) :
    Except RepositoryFactoryError (Option RunningVirtual) :=
  match s.getConfig with
  | .virtual config =>
    let ttl := min (max config.cacheTtlSeconds 1) (86400 * 24)
    let r := syncMembers env config
      { s with running := ⟨config.resolutionOrder, ttl, [], config.publishTo⟩ }
    r.1.map fun _ => some r.2.running
  | _ => .ok none

end Pkgly.Virtual
