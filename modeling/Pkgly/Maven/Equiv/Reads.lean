import Pkgly.Maven.Reads

/-!
# Who reads from a Maven repository?

Every read passes `checkRead`, and what is found in the storage passes `indexingCheck`; both ask the
running repository for its visibility (`handleRead_admitted`).  A hosted repository answers with
what is configured, and a proxy always with `public`, so that a proxy that is configured as private
or hidden is open to everybody unless it requires authentication (`readsProtected_iff`).
-/

namespace Pkgly.Maven

/-! ### What a response gives away -/

def Discloses : RepoResponse → Prop
  | .fileResponse _ => True
  | .fileMetaResponse _ => True
  | .upstreamHead _ => True
  | .other .. => False

def ListsDirectory : RepoResponse → Prop
  | .fileResponse (.directory _) => True
  | .fileMetaResponse none => True
  | _ => False

theorem discloses_of_listsDirectory {response : RepoResponse} (h : ListsDirectory response) :
    Discloses response := by
  cases response with
  | fileResponse file | fileMetaResponse size | upstreamHead headers => trivial
  | other status headers body => exact h

structure Admitted (visibility : Visibility) (enabled canRead : Bool) (response : RepoResponse) :
    Prop where
  discloses : visibility = .private ∨ enabled = true → Discloses response → canRead = true
  lists : visibility = .hidden → ListsDirectory response → canRead = true

theorem admitted_of_not_discloses {visibility : Visibility} {enabled canRead : Bool}
    {response : RepoResponse} (h : ¬ Discloses response) :
    Admitted visibility enabled canRead response :=
  ⟨fun _ hdiscloses => absurd hdiscloses h,
    fun _ hlists => absurd (discloses_of_listsDirectory hlists) h⟩

/-! ### The two checks -/

section Checks

variable {self : MavenRepository} {site : MavenSite} {auth : RepositoryAuthentication}

variable {response : RepoResponse}

theorem checkRead_refuses
    (h : self.checkRead site auth = .ok (some response)) : ¬ Discloses response := by
  unfold MavenRepository.checkRead at h
  split_ifs at h
  · rw [← Option.some.inj (Except.ok.inj h)]
    exact id
  · rw [← Option.some.inj (Except.ok.inj h)]
    exact id
  · cases h
  · cases h

theorem checkRead_passes (h : self.checkRead site auth = .ok none)
    (hprotected : self.visibility = .private ∨
      (site.getRepositoryAuthConfig self.id).enabled = true) :
    auth.hasAction site.tables .read self.id = true := by
  unfold MavenRepository.checkRead at h
  grind

theorem indexingCheck_lists {isDirectory : Bool} {response' : RepoResponse}
    (hdirectory : ListsDirectory response → isDirectory = true)
    (h : self.indexingCheck site auth isDirectory response = .ok response')
    (hhidden : self.visibility = .hidden) (hlists : ListsDirectory response') :
    auth.hasAction site.tables .read self.id = true := by
  unfold MavenRepository.indexingCheck at h
  aesop

theorem admitted_of_checks {isDirectory : Bool} {response' : RepoResponse}
    (hread : self.checkRead site auth = .ok none)
    (hdirectory : ListsDirectory response → isDirectory = true)
    (h : self.indexingCheck site auth isDirectory response = .ok response') :
    Admitted self.visibility (site.getRepositoryAuthConfig self.id).enabled
      (auth.hasAction site.tables .read self.id) response' :=
  ⟨fun hprotected _ => checkRead_passes hread hprotected,
    fun hhidden hlists => indexingCheck_lists hdirectory h hhidden hlists⟩

theorem admitted_of_indexingCheckFile {file : Option StorageFile}
    (hread : self.checkRead site auth = .ok none)
    (h : self.indexingCheckFile site auth file = .ok response) :
    Admitted self.visibility (site.getRepositoryAuthConfig self.id).enabled
      (auth.hasAction site.tables .read self.id) response := by
  cases file with
  | none =>
    rw [← Except.ok.inj h]
    exact admitted_of_not_discloses id
  | some file =>
    refine admitted_of_checks hread (fun hlists => ?_) h
    cases file with
    | file content => exact absurd hlists id
    | directory files => rfl

theorem admitted_of_indexingCheckMeta {size : Option (Option ℕ)}
    (hread : self.checkRead site auth = .ok none)
    (h : self.indexingCheckMeta site auth size = .ok response) :
    Admitted self.visibility (site.getRepositoryAuthConfig self.id).enabled
      (auth.hasAction site.tables .read self.id) response := by
  cases size with
  | none =>
    rw [← Except.ok.inj h]
    exact admitted_of_not_discloses id
  | some size =>
    refine admitted_of_checks hread (fun hlists => ?_) h
    cases size with
    | none => rfl
    | some length => exact absurd hlists id

end Checks

/-! ### Every read -/

section Reads

variable {site : MavenSite} {storage : DynStorage} {auth : RepositoryAuthentication}
  {path : StoragePath} {response : RepoResponse}

variable {self : MavenRepository}

theorem afterCheckRead_admitted {read : Handled}
    (hread : self.checkRead site auth = .ok none → read.2 = .ok response →
      Admitted self.visibility (site.getRepositoryAuthConfig self.id).enabled
        (auth.hasAction site.tables .read self.id) response)
    (h : (self.afterCheckRead site auth storage read).2 = .ok response) :
    Admitted self.visibility (site.getRepositoryAuthConfig self.id).enabled
      (auth.hasAction site.tables .read self.id) response := by
  grind [MavenRepository.afterCheckRead, Except.ok.inj, admitted_of_not_discloses,
    checkRead_refuses]

theorem admitted_of_checkRead (hvisible : self.visibility ≠ .hidden)
    (hread : self.checkRead site auth = .ok none) :
    Admitted self.visibility (site.getRepositoryAuthConfig self.id).enabled
      (auth.hasAction site.tables .read self.id) response :=
  ⟨fun hprotected _ => checkRead_passes hread hprotected,
    fun hhidden => absurd hhidden hvisible⟩

theorem handleRead_admitted {method : ReadMethod}
    (h : (self.handleRead site storage method auth path).2 = .ok response) :
    Admitted self.visibility (site.getRepositoryAuthConfig self.id).enabled
      (auth.hasAction site.tables .read self.id) response := by
  cases self with
  | hosted repository =>
    cases method with
    | get =>
      refine afterCheckRead_admitted (fun hread hopened => ?_) h
      unfold MavenHosted.openedResponse at hopened
      grind [fromStorage, admitted_of_indexingCheckFile]
    | head =>
      refine afterCheckRead_admitted (fun hread hfound => ?_) h
      grind [fromStorage, admitted_of_indexingCheckMeta]
  | proxy repository =>
    have hvisible : (MavenRepository.proxy repository).visibility ≠ .hidden := by
      intro hhidden
      cases hhidden
    cases method with
    | get => exact afterCheckRead_admitted (fun hread _ => admitted_of_checkRead hvisible hread) h
    | head => exact afterCheckRead_admitted (fun hread _ => admitted_of_checkRead hvisible hread) h

end Reads

/-! ### Every configuration -/

/-- The reads of a repository that has been loaded from its row are guarded by what is configured:
the visibility of the row, and the setting of the authentication. -/
def ReadsProtected (row : DBRepository) (config : MavenRepositoryConfig)
    (setting : Option RepositoryAuthConfig) : Prop :=
  ∀ (site : MavenSite) (storage : DynStorage) (method : ReadMethod)
    (auth : RepositoryAuthentication) (path : StoragePath) (response : RepoResponse),
    site.authConfig row.id = setting →
    ((MavenRepository.load row config).handleRead site storage method auth path).2 = .ok response →
    Admitted row.visibility (setting.getD ⟨true⟩).enabled (auth.hasAction site.tables .read row.id)
      response

@[simp] theorem id_load (row : DBRepository) (config : MavenRepositoryConfig) :
    (MavenRepository.load row config).id = row.id := by
  cases config with
  | hosted => rfl
  | proxy routes => rfl

def openSite (setting : Option RepositoryAuthConfig) : MavenSite where
  tables := ⟨fun _ _ => none, fun _ => [], fun _ _ => none⟩
  authConfig _ := setting
  answersAuthConfig := true
  answersHasAction := true
  answersProject := true
  recordsCacheHit := true
  upstream := ⟨fun _ => true, fun _ => none, fun _ => none⟩
  display _ := "error"

def oneDirectory : DynStorage where
  backend := .local
  objects := Store.put ∅ ["d", "f"] []
  staging := ∅

theorem proxy_shows (row : DBRepository) (routes : List MavenProxyRepositoryRoute)
    {setting : Option RepositoryAuthConfig} (hopen : (setting.getD ⟨true⟩).enabled = false) :
    ((MavenRepository.load row (.proxy routes)).handleRead (openSite setting) oneDirectory .get
      .noIdentification (.ofString "d/")).2 = .ok (.fileResponse (.directory [("f", true)])) := by
  have hcheck : (MavenRepository.load row (.proxy routes)).checkRead (openSite setting)
      .noIdentification = .ok none := by
    have hconfig : ((openSite setting).getRepositoryAuthConfig
        (MavenRepository.load row (.proxy routes)).id).enabled = false := hopen
    unfold MavenRepository.checkRead
    rw [hconfig]
    rfl
  have hfile : oneDirectory.openFile (.ofString "d/") =
      .ok (some (.directory [("f", true)])) := by decide
  show (MavenProxy.handleGet ⟨row.id, row.visibility, routes⟩ _ _ _ _).2 = _
  unfold MavenProxy.handleGet MavenRepository.afterCheckRead
  rw [show (MavenRepository.proxy ⟨row.id, row.visibility, routes⟩).checkRead (openSite setting)
    .noIdentification = .ok none from hcheck, hfile]
  rfl

/-- The reads of a repository are protected if and only if it is hosted, requires authentication,
or is public. -/
theorem readsProtected_iff (row : DBRepository) (config : MavenRepositoryConfig)
    (setting : Option RepositoryAuthConfig) :
    ReadsProtected row config setting ↔
      config = .hosted ∨ (setting.getD ⟨true⟩).enabled = true ∨ row.visibility = .public := by
  constructor
  · intro h
    cases config with
    | hosted => exact .inl rfl
    | proxy routes =>
      refine .inr ?_
      by_contra hnot
      rw [not_or, Bool.not_eq_true] at hnot
      obtain ⟨hopen, hvisibility⟩ := hnot
      -- nobody has logged in, and the directory is listed
      have hadmitted := h (openSite setting) oneDirectory .get .noIdentification (.ofString "d/")
        (.fileResponse (.directory [("f", true)])) rfl (proxy_shows row routes hopen)
      have hdenied : RepositoryAuthentication.hasAction (openSite setting).tables
          .noIdentification .read row.id = false := rfl
      rw [hdenied] at hadmitted
      cases hrow : row.visibility with
      | «public» => exact hvisibility hrow
      | «private» => exact absurd (hadmitted.discloses (.inl hrow) trivial) Bool.false_ne_true
      | hidden => exact absurd (hadmitted.lists hrow trivial) Bool.false_ne_true
  · intro h site storage method auth path response hsetting hresponse
    have hadmitted := handleRead_admitted hresponse
    have hconfig : site.getRepositoryAuthConfig row.id = setting.getD ⟨true⟩ := by
      rw [MavenSite.getRepositoryAuthConfig, hsetting]
    rw [id_load, hconfig] at hadmitted
    rcases h with rfl | henabled | hpublic
    · exact hadmitted
    · exact ⟨fun _ => hadmitted.discloses (.inr henabled),
        fun _ hlists => hadmitted.discloses (.inr henabled) (discloses_of_listsDirectory hlists)⟩
    · cases config with
      | hosted => exact hadmitted
      | proxy routes =>
        rw [hpublic]
        exact hadmitted

/-- A private proxy that does not require authentication is open to everybody. -/
theorem not_readsProtected_private :
    ¬ ReadsProtected ⟨1, .private⟩ (.proxy []) (some ⟨false⟩) := by
  intro h
  have hadmitted := h (openSite (some ⟨false⟩)) oneDirectory .get .noIdentification
    (.ofString "d/f") (.fileResponse (.file [])) rfl (by decide)
  exact absurd (hadmitted.discloses (.inl rfl) trivial) (by decide)

end Pkgly.Maven
