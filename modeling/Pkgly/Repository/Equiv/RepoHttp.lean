import Pkgly.Docker.Equiv.Routes
import Pkgly.Repository.RepoHttp

/-!
# Access to a hosted Docker repository

The dispatcher asks who the caller is and the handlers ask no more than that, so that the
permissions of the caller decide nothing.  `Protected` is what they should decide: storage is
modified only for a caller that may write or edit, and content is returned only to a caller that
may read.  It holds of every request on a path, whatever its body and the state it meets, exactly
when the dispatcher refuses the caller or the caller has the permission that the route calls for
(`protected_iff`).
-/

namespace Pkgly

open Docker StoragePath

variable {sha : Sha256} {serde : SerdeJson} {order : HashOrder}

variable {hosted : DockerHosted} {auth : RepositoryAuthentication}

theorem handleRepoRequestCore_of_admits
    {repo : DockerRepository} {req : DockerRequest} {method : Method} {path : StoragePath}
    (h : admits hosted auth method = true) :
    handleRepoRequestCore sha serde order hosted auth repo req method path =
      handleDocker sha serde order repo auth.getUser.isSome req method path := by
  rw [admits, Bool.and_eq_true, Bool.not_eq_true'] at h
  rw [handleRepoRequestCore, h.1]
  simp only [Bool.not_true, Bool.false_eq_true, if_false, h.2]

theorem handleRepoRequestCore_of_not_admits (sha : Sha256) (serde : SerdeJson) (order : HashOrder)
    (repo : DockerRepository) (req : DockerRequest) {method : Method} (path : StoragePath) (h : admits hosted auth method = false) :
    (handleRepoRequestCore sha serde order hosted auth repo req method path).1 = repo ∧
      ¬ Reveals (handleRepoRequestCore sha serde order hosted auth repo req method path).2 := by
  unfold handleRepoRequestCore
  by_cases hactive : hosted.isActive = true
  · rw [admits, hactive, Bool.true_and, Bool.not_eq_false'] at h
    simp only [hactive, Bool.not_true, Bool.false_eq_true, if_false, h, if_true]
    exact ⟨rfl, not_reveals fun r hr => by rw [← Except.ok.inj hr]; rfl⟩
  · rw [Bool.not_eq_true] at hactive
    rw [hactive]
    exact ⟨rfl, not_reveals fun r hr => by rw [← Except.ok.inj hr]; rfl⟩

theorem isAuthenticated_of_modifying
    {method : Method} {route : Route} (h : admits hosted auth method = true)
    (hmod : Modifying method route) : auth.isAuthenticated = true := by
  have hread : isReadOperation method = false := by
    match method, route, hmod with
    | .put, .manifest .., _ => rfl
    | .put, .upload .., _ => rfl
    | .patch, .upload .., _ => rfl
    | .delete, .manifest .., _ => rfl
    | .delete, .upload .., _ => rfl
    | .delete, .blob .., _ => rfl
  simp_all [shouldRequireAuth, admits, Bool.or_true, Bool.true_and, Bool.not_not, Bool.and_eq_true]

/-- What the permissions of the caller should decide, for every request with the given method and
path to the repository. -/
def Protected (sha : Sha256) (serde : SerdeJson) (order : HashOrder) (db : AccessTables)
    (hosted : DockerHosted) (auth : RepositoryAuthentication) (method : Method)
    (path : StoragePath) : Prop :=
  ∀ (repo : DockerRepository) (req : DockerRequest),
    ((handleRepoRequestCore sha serde order hosted auth repo req method path).1.storage ≠
        repo.storage →
      auth.hasAction db .write hosted.id = true ∨ auth.hasAction db .edit hosted.id = true) ∧
    (Reveals (handleRepoRequestCore sha serde order hosted auth repo req method path).2 →
      canReadRepositoryWithAuth db auth hosted.visibility hosted.id hosted.authConfig = true)

def Permitted (db : AccessTables) (hosted : DockerHosted) (auth : RepositoryAuthentication)
    (method : Method) (route : Route) : Prop :=
  (Modifying method route →
    auth.hasAction db .write hosted.id = true ∨ auth.hasAction db .edit hosted.id = true) ∧
  (Revealing method route →
    canReadRepositoryWithAuth db auth hosted.visibility hosted.id hosted.authConfig = true)

/-- **Authorization of Docker requests**: a method and a path are protected exactly when the
dispatcher refuses the caller or the caller has the permissions that the route calls for. -/
theorem protected_iff (sha : Sha256) (serde : SerdeJson) (order : HashOrder) (db : AccessTables)
    (hosted : DockerHosted) (auth : RepositoryAuthentication) (method : Method)
    (path : StoragePath) (hserde : ReadsMinimal serde) :
    Protected sha serde order db hosted auth method path ↔
      (admits hosted auth method = true →
        Permitted db hosted auth method (route method (pathParts path))) := by
  constructor
  · intro hprot hadmit
    refine ⟨fun hmod => ?_, fun hrev => ?_⟩
    · have huser := auth.isSome_getUser (isAuthenticated_of_modifying hadmit hmod)
      obtain ⟨repo, req, hne⟩ := exists_storage_ne sha order hserde hmod
      refine (hprot repo req).1 ?_
      rw [handleRepoRequestCore_of_admits hadmit, huser]
      exact hne
    · obtain ⟨repo, req, hreveals⟩ := exists_reveals sha serde order auth.getUser.isSome hrev
      refine (hprot repo req).2 ?_
      rw [handleRepoRequestCore_of_admits hadmit]
      exact hreveals
  · intro hperm repo req
    cases hadmit : admits hosted auth method with
    | false =>
      obtain ⟨hrepo, hnot⟩ := handleRepoRequestCore_of_not_admits sha serde order repo req path hadmit
      exact ⟨fun hne => absurd (congrArg DockerRepository.storage hrepo) hne,
        fun h => absurd h hnot⟩
    | true =>
      rw [handleRepoRequestCore_of_admits hadmit]
      obtain ⟨hwrite, hread⟩ := hperm hadmit
      exact ⟨fun hne => hwrite (modifying_of_storage_ne hne),
        fun h => hread (revealing_of_reveals h)⟩

/-! ### A caller without permissions -/

def privateRepository : DockerHosted := ⟨1, true, .«private», ⟨true⟩⟩

def powerlessSession : RepositoryAuthentication := .session ⟨7, false, false, false, []⟩

def noGrants : AccessTables := ⟨fun _ _ => none, fun _ => [], fun _ _ => none⟩

theorem protected_iff_privateRepository :
    ReadsMinimal minimalSerde ∧
    (Protected .hexText minimalSerde insertionOrder noGrants privateRepository powerlessSession
        .get (ofString "v2/img/manifests/a") ↔
      (admits privateRepository powerlessSession .get = true →
        Permitted noGrants privateRepository powerlessSession .get
          (route .get (pathParts (ofString "v2/img/manifests/a"))))) :=
  ⟨rfl, protected_iff _ _ _ _ _ _ _ _ rfl⟩

/-- That user is sent the manifests of the repository. -/
theorem not_protected_privateRepository :
    ¬ ∀ (sha : Sha256) (serde : SerdeJson) (order : HashOrder) (db : AccessTables)
      (hosted : DockerHosted) (auth : RepositoryAuthentication) (method : Method)
      (path : StoragePath), ReadsMinimal serde →
      Protected sha serde order db hosted auth method path := by
  intro hall
  have hprot := hall .hexText minimalSerde insertionOrder noGrants privateRepository
    powerlessSession .get (ofString "v2/img/manifests/a") rfl
  have hreveals := (hprot ⟨holding (manifestPath "img" "a") [0], ∅⟩ (requestWith [] none)).2
  refine absurd (hreveals ?_) (by decide)
  exact ⟨_, rfl, rfl⟩

end Pkgly
