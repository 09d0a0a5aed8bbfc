import Pkgly.Algorithm.Resumption
import Pkgly.Virtual.Members

/-!
# Updating a virtual repository

`update_members`, `update_resolution_order` and `update_config` on one virtual repository, as
computations by atomic steps (`Algorithm/Resumption`), one statement a step.  A `replace_all` is a
transaction: it deletes the rows that it sees, and what it does shows when it is committed.

`VirtualSite` is a repository with the requests to it.  It keeps track of the writes after which the
repository has not been reloaded (`owed`), and of those after which the rows have not been replaced
yet (`unsettled`); no code reads this.
-/

namespace Pkgly.Virtual

/-! ### Steps -/

/-- What a request is answered instead of a result.  No message is that of an error of the database,
or of `serde_json`. -/
inductive VirtualError
  | missingPermission
  | badRequest (message : Option String)
  | internalServerError (message : Option String)
  | internal
deriving DecidableEq

inductive VirtualStep
  | database
  | writeMembers (config : VirtualRepositoryConfig)
  | writeOrder (config : VirtualRepositoryConfig)
  | writeConfig (config : RepositoryConfig)
  | commitRows (config : VirtualRepositoryConfig) (deleted : List ℕ)
  | reload
  /-- A request is answered with an error or without one. -/
  | answer (failed : Bool)

/-- The requests to a virtual repository; a step fails when the choice says so. -/
abbrev VirtualM := Resumption VirtualStep Bool VirtualState VirtualError

/-- A statement, with its answer and the state that it leaves; `e` is thrown when it fails. -/
def statement {α : Type} (label : VirtualStep) (e : VirtualError)
    (f : VirtualState → Option (α × VirtualState)) : VirtualM α :=
  .act label fun fails s =>
    if fails then (.error e, s)
    else match f s with
      | none => (.error e, s)
      | some (a, s) => (.ok a, s)

def query {α : Type} (e : VirtualError) (f : VirtualState → α) : VirtualM α :=
  statement .database e fun s => some (f s, s)

def badRequest {α : Type} (message : String) : VirtualM α := throw (.badRequest (some message))

/-! ### Resolving what is asked for -/

/-- `VirtualRepositoryMemberInput`. -/
structure MemberInput where
  repositoryId : Option Uuid
  repositoryName : String
  priority : UInt32
  enabled : Bool
deriving DecidableEq

inductive RepositoryReference
  | id (id : Uuid)
  | name (name : String)
deriving DecidableEq

section Resolve

variable (env : Surroundings)

def ownStorage : VirtualM DBStorage := do
  match ← query (.badRequest none) fun _ => env.getStorageById env.own.storageId with
  | none => badRequest "Invalid Storage"
  | some storage => pure storage

def repositoryById (storage : DBStorage) (id : Uuid) : VirtualM DBRepository := do
  match ← query (.badRequest none) fun _ => env.getById id with
  | none => badRequest ("Repository " ++ toString id ++ " not found")
  | some repository =>
    if repository.storageId ≠ env.own.storageId then
      badRequest ("Repository " ++ toString id ++ " is not in storage " ++ storage.name)
    else pure repository

def repositoryByName (storage : DBStorage) (name : String) : VirtualM Uuid := do
  match ← query (.badRequest none) fun _ => env.getIdFromStorageAndName storage.name name with
  | none => badRequest ("Repository " ++ name ++ " not found in storage " ++ storage.name)
  | some id => pure id

def resolveMemberRepositoryId (member : MemberInput) : VirtualM Uuid :=
  if trim member.repositoryName = [] then badRequest "repository_name must not be empty"
  else do
    let storage ← ownStorage env
    match member.repositoryId with
    | none => repositoryByName env storage member.repositoryName
    | some id =>
      let repository ← repositoryById env storage id
      if repository.name ≠ member.repositoryName then
        badRequest ("Repository " ++ toString id ++ " name mismatch: expected " ++
          member.repositoryName ++ ", got " ++ repository.name)
      else pure id

def resolveMemberInputs : List MemberInput → VirtualM (List VirtualRepositoryMemberConfig)
  | [] => pure []
  | member :: members => do
    let id ← resolveMemberRepositoryId env member
    let resolved ← resolveMemberInputs members
    pure (⟨id, member.repositoryName, member.priority, member.enabled⟩ :: resolved)

def resolvePublishTarget (publishTo : RepositoryReference) : VirtualM Uuid := do
  let storage ← ownStorage env
  match publishTo with
  | .id id =>
    let _ ← repositoryById env storage id
    pure id
  | .name name => repositoryByName env storage name

/-- What is to be published to: what is asked for, or what has been stored. -/
def requestedTarget (stored : Option Uuid) : Option RepositoryReference → VirtualM (Option Uuid)
  | none => pure stored
  | some publishTo => do
    let id ← resolvePublishTarget env publishTo
    pure (some id)

def validatePublishTarget (config : VirtualRepositoryConfig) : VirtualM Unit :=
  match config.publishTo with
  | none => pure ()
  | some target =>
    match config.memberRepositories.find? fun m => m.repositoryId == target with
    | none => badRequest "publish_to must reference a member repository"
    | some member =>
      if !member.enabled then
        badRequest "publish_to must reference an enabled member repository"
      else do
        let hosted ← query (.badRequest none) fun s => isHosted env s target
        if hosted then pure ()
        else badRequest "publish_to must reference an enabled hosted member repository"

def readVirtualConfig : VirtualM VirtualRepositoryConfig := do
  match ← query .internal VirtualState.getConfig with
  | .virtual config => pure config
  | _ => badRequest "Repository is not virtual"

/-- `has_action`, and the row of the repository. -/
def readRepository (authorized : Bool) : VirtualM Unit := do
  query .internal fun _ => ()
  if !authorized then throw .missingPermission
  else query .internal fun _ => ()

end Resolve

/-! ### Writing -/

/-- `add_or_update`, with the label of its write. -/
def addOrUpdate (label : VirtualStep) (config : RepositoryConfig) : VirtualM Unit := do
  let stored ← query .internal fun s => s.config.isSome
  statement label .internal fun s =>
    -- an update changes the row that is there, an insertion wants none
    if stored = s.config.isSome then
      some ((), { s with config := some config, updatedAt := s.updatedAt + 1 })
    else if stored then some ((), s)
    else none

/-- The insertions of `replace_all`. -/
def insertMembers (env : Surroundings) : List VirtualRepositoryMemberConfig → VirtualM Unit
  | [] => pure ()
  | member :: members => do
    statement .database .internal fun s =>
      if (env.getById member.repositoryId).isSome then some ((), s) else none
    insertMembers env members

def replaceMembers (env : Surroundings) (config : VirtualRepositoryConfig) : VirtualM Unit := do
  let deleted ← query .internal fun s => s.rows.map (·.id)
  insertMembers env config.memberRepositories
  -- the rows as they are now, which are not used
  query .internal fun _ => ()
  statement (.commitRows config deleted) .internal fun s =>
    (commitRows env config.memberRepositories deleted s).map ((), ·)

def reloadRunning (env : Surroundings) : VirtualM (Except RepositoryFactoryError Unit) :=
  .act .reload fun fails s =>
    if fails then (.ok (.error .database), s) else (.ok (reload env s).1, (reload env s).2)

/-- `reload_runtime_virtual`, which only logs an error. -/
def reloadRuntimeVirtual (env : Surroundings) : VirtualM Unit := do
  let _ ← reloadRunning env
  pure ()

/-! ### Requests -/

structure VirtualMemberView where
  repositoryId : Uuid
  repositoryName : String
  priority : UInt32
  enabled : Bool
deriving DecidableEq

structure VirtualConfigView where
  resolutionOrder : VirtualResolutionOrder
  cacheTtlSeconds : ℕ
  publishTo : Option Uuid
  publishToName : Option String
  members : List VirtualMemberView
deriving DecidableEq

/-- `UpdateMembersRequest`, by a user who may edit the repository or not. -/
structure UpdateMembersRequest where
  authorized : Bool
  members : List MemberInput
  resolutionOrder : Option VirtualResolutionOrder
  cacheTtlSeconds : Option ℕ
  publishTo : Option RepositoryReference
deriving DecidableEq

structure UpdateResolutionOrderRequest where
  authorized : Bool
  resolutionOrder : VirtualResolutionOrder
  cacheTtlSeconds : Option ℕ
  publishTo : Option RepositoryReference
deriving DecidableEq

/-- What is sent to `update_config`. -/
inductive ConfigValue
  /-- Under the key of the repository type; `none` if it is not a config of that type. -/
  | repository (config : Option RepositoryConfig)
  /-- Under the key of the authentication, which another row holds. -/
  | auth (valid : Bool)
  /-- Under a key that the repository does not support, or that is not known at all. -/
  | unsupported (key : String) (known : Bool)
deriving DecidableEq

structure UpdateConfigRequest where
  authorized : Bool
  value : ConfigValue
deriving DecidableEq

section Requests

variable (env : Surroundings)

def hydrateMembers : List MemberRow → VirtualM (List VirtualMemberView)
  | [] => pure []
  | member :: members => do
    let repository ← query .internal fun _ => env.getById member.memberRepositoryId
    let views ← hydrateMembers members
    pure ((repository.map fun r =>
      (⟨r.id, r.name, (max member.priority 0).toUInt32, member.enabled⟩ : VirtualMemberView)).toList
        ++ views)

def listMembers (authorized : Bool) : VirtualM VirtualConfigView := do
  readRepository authorized
  let config ← readVirtualConfig
  let rows ← query .internal fun s => listForVirtual s.rows
  let members ← hydrateMembers env rows
  let publishToName ← query .internal fun _ =>
    (config.publishTo.bind env.getById).map (·.name)
  pure ⟨config.resolutionOrder, config.cacheTtlSeconds, config.publishTo, publishToName, members⟩

/-- The part of `update_members` that only reads: the new config. -/
def requestedConfig (request : UpdateMembersRequest) : VirtualM VirtualRepositoryConfig := do
  readRepository request.authorized
  let config ← readVirtualConfig
  let members ← resolveMemberInputs env request.members
  if members = [] then badRequest "Member list cannot be empty"
  else if ¬ (members.map (·.repositoryId)).Nodup then
    badRequest "Duplicate member repositories provided"
  else if request.cacheTtlSeconds = some 0 then badRequest "cache_ttl_seconds must be > 0"
  else do
    let publishTo ← requestedTarget env config.publishTo request.publishTo
    let config : VirtualRepositoryConfig :=
      ⟨members, request.resolutionOrder.getD config.resolutionOrder,
        request.cacheTtlSeconds.getD config.cacheTtlSeconds, publishTo⟩
    validatePublishTarget env config
    pure config

def updateMembers (request : UpdateMembersRequest) : VirtualM VirtualConfigView := do
  let config ← requestedConfig env request
  addOrUpdate (.writeMembers config) (.virtual config)
  replaceMembers env config
  reloadRuntimeVirtual env
  listMembers env request.authorized

/-- The part of `update_resolution_order` that only reads. -/
def reorderedConfig (request : UpdateResolutionOrderRequest) :
    VirtualM VirtualRepositoryConfig := do
  readRepository request.authorized
  let config ← readVirtualConfig
  let publishTo ← requestedTarget env config.publishTo request.publishTo
  let config := { config with
    resolutionOrder := request.resolutionOrder
    cacheTtlSeconds := (request.cacheTtlSeconds.map (max · 1)).getD config.cacheTtlSeconds
    publishTo }
  validatePublishTarget env config
  pure config

def updateResolutionOrder (request : UpdateResolutionOrderRequest) :
    VirtualM VirtualConfigView := do
  let config ← reorderedConfig env request
  addOrUpdate (.writeOrder config) (.virtual config)
  reloadRuntimeVirtual env
  listMembers env request.authorized

def validateVirtualRepositoryConfig (config : VirtualRepositoryConfig) : Bool :=
  !config.memberRepositories.isEmpty &&
    decide ((config.memberRepositories.map (·.repositoryId)).Nodup) &&
    config.memberRepositories.all (fun m => decide (trim m.repositoryName ≠ [])) &&
    config.cacheTtlSeconds != 0

def validateConfig : RepositoryConfig → Except String Unit
  | .hosted => .ok ()
  | .proxy urls =>
    if urls.all env.urlAllowed then .ok ()
    else .error "Proxy route URL is blocked by egress policy"
  | .virtual config =>
    if validateVirtualRepositoryConfig config then .ok () else .error "Invalid virtual config"

/-- The write of `update_config`, once the value is known to be valid. -/
def storeConfigValue : ConfigValue → VirtualM Unit
  | .unsupported key known =>
    if known then
      badRequest ("Repository Type " ++ env.kind.typeId ++ " does not support config key " ++ key)
    else badRequest ("Invalid Repository Config Type: " ++ key)
  | .auth valid => do
    query .internal fun _ => ()
    if !valid then throw (.badRequest none)
    else do
      query .internal fun _ => ()
      statement .database .internal fun s => some ((), s)
  | .repository none => do
    query .internal fun _ => ()
    throw (.badRequest none)
  | .repository (some config) => do
    query .internal fun _ => ()
    match validateConfig env config with
    | .error message =>
      badRequest ("Invalid Config for key " ++ env.kind.typeId ++ ": Invalid Config: " ++ message)
    | .ok _ => addOrUpdate (.writeConfig config) config

def reloadMessage : RepositoryFactoryError → Option String
  | .invalidConfig message => some
    ("Failed to reload repository: Invalid Config: " ++ env.kind.typeId ++ ". Error: " ++ message)
  | .database => none

def updateConfig (request : UpdateConfigRequest) : VirtualM Unit := do
  readRepository request.authorized
  storeConfigValue env request.value
  match ← reloadRunning env with
  | .error e => throw (.internalServerError (reloadMessage env e))
  | .ok _ => pure ()

end Requests

/-! ### The site -/

structure VirtualSite where
  state : VirtualState
  /-- The writes after which the request has not reloaded yet. -/
  owed : List ℕ
  /-- Those of them after which the rows have not been replaced yet. -/
  unsettled : List ℕ
  nextWrite : ℕ

/-- A repository without requests. -/
def VirtualSite.start (state : VirtualState) : VirtualSite := ⟨state, [], [], 0⟩

inductive VirtualRequest
  | members (request : UpdateMembersRequest)
  | resolutionOrder (request : UpdateResolutionOrderRequest)
  | config (request : UpdateConfigRequest)
deriving DecidableEq

structure VirtualTask where
  writes : List ℕ

abbrev SiteM := Resumption VirtualStep Bool (VirtualSite × VirtualTask) VirtualError

def recordWrite (settled : Bool) (t : VirtualSite × VirtualTask) (state : VirtualState) :
    VirtualSite × VirtualTask :=
  if t.1.state.updatedAt < state.updatedAt then
    ({ state
       owed := t.1.nextWrite :: t.1.owed
       unsettled := if settled then t.1.unsettled else t.1.nextWrite :: t.1.unsettled
       nextWrite := t.1.nextWrite + 1 }, ⟨t.1.nextWrite :: t.2.writes⟩)
  else ({ t.1 with state }, t.2)

/-- What a step on the repository means for what is kept track of. -/
def record (label : VirtualStep) (t : VirtualSite × VirtualTask) (state : VirtualState) :
    VirtualSite × VirtualTask :=
  match label with
  | .writeMembers _ => recordWrite false t state
  | .writeOrder _ | .writeConfig _ => recordWrite true t state
  | .commitRows _ _ =>
    if t.1.state.nextRowId < state.nextRowId then
      ({ t.1 with
        state
        unsettled := t.1.unsettled.filter fun n => !t.2.writes.contains n }, t.2)
    else ({ t.1 with state }, t.2)
  | .reload =>
    ({ t.1 with
      state
      owed := t.1.owed.filter fun n => !t.2.writes.contains n
      unsettled := t.1.unsettled.filter fun n => !t.2.writes.contains n }, ⟨[]⟩)
  | _ => ({ t.1 with state }, t.2)

def onSite {α : Type} (m : VirtualM α) : SiteM α := m.zoom (fun t => t.1.state) record

def answered {α : Type} (m : VirtualM α) : SiteM Unit :=
  let done (failed : Bool) : SiteM Unit := .act (.answer failed) fun _ t => (.ok (), t)
  tryCatch (onSite m >>= fun _ => done false) fun e => done true >>= fun _ => throw e

def siteRequest (env : Surroundings) : VirtualRequest → SiteM Unit
  | .members request => answered (updateMembers env request)
  | .resolutionOrder request => answered (updateResolutionOrder env request)
  | .config request => answered (updateConfig env request)

def siteProgram (env : Surroundings) : Program VirtualSite
    (Resumption.Thread VirtualStep Bool VirtualSite VirtualTask VirtualError Unit)
    VirtualRequest Bool :=
  Resumption.program fun request => ⟨⟨[]⟩, siteRequest env request⟩

end Pkgly.Virtual
