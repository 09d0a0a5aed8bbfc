import Pkgly.Npm.Handlers

/-!
# Access to a hosted npm registry

The dispatcher asks who the caller is, and of the handlers only that of the tags asks what the caller
may do.  `Protected` is what they should ensure: a request on a path is answered with content only if
the caller may read the repository.  It holds of every state that the request meets exactly when the
dispatcher refuses the caller, or the path is not that of a package, a version or a tarball, or the
caller may read (`reads_protected_iff`).  A response to `HEAD` has no body, so that it returns no
content; whether it answers at all is decided in the same way.
-/

namespace Pkgly.Npm

variable {ε : Type} {db : AccessTables} {format : TagFormat}
  {fromValue : String → Option (PublishVersion ε)} {c : Collation} {registry : NPMHostedRegistry}
  {auth : RepositoryAuthentication} {s : NpmContent} {method : ReadMethod} {path : StoragePath}

/-! ### Responses -/

def Body.isContent : Body ε → Bool
  | .package _ | .version _ | .distTags _ | .file _ => true
  | .empty | .text _ | .fileMeta _ => false

/-- The response returns content or, to `HEAD`, its headers. -/
def Answers (response : RepoResponse ε) : Prop := response.status = 200

variable {response : RepoResponse ε}

inductive ReadRoute
  /-- A package, a version or a tarball. -/
  | packages
  /-- The tags of a package. -/
  | distTags
  | nothing
deriving DecidableEq

/-- `handle_get` or `handle_head`. -/
def handle (db : AccessTables) (format : TagFormat) (fromValue : String → Option (PublishVersion ε))
    (c : Collation) (registry : NPMHostedRegistry) (auth : RepositoryAuthentication) (s : NpmContent)
    (method : ReadMethod) (path : StoragePath) : Handled ε :=
  match method with
  | .get => handleGet db format fromValue c registry auth s path
  | .head => handleHead db format fromValue c registry auth s path

/-- The caller has the permission that the route calls for; who reads tags through a virtual
repository is not asked for it. -/
def Permitted (db : AccessTables) (registry : NPMHostedRegistry) (auth : RepositoryAuthentication)
    (route : ReadRoute) : Prop :=
  route = .packages ∨ route = .distTags ∧ auth.isVirtualRepository = true →
    canReadRepositoryWithAuth db auth registry.visibility registry.id registry.authConfig = true

def holding (name version : String) (directory : List String) : NpmContent where
  storage := ⟨.s3, ( ∅ : Objects).put (directory ++ ["package.tgz"]) [], ∅⟩
  catalogue := ⟨[⟨0, name, ""⟩], [⟨1, 0, version, "", some ""⟩], 2⟩
  tags _ := some ∅

variable {name version file : String} {directory : List String}

theorem openFile_holding (name version : String) {location : StoragePath} (h : location.components = directory) :
    ∃ files, (holding name version directory).storage.openFile location =
      .ok (some (.directory files)) := by
  have hmiss : ( ( ∅ : Objects).put (directory ++ ["package.tgz"]) []).get directory = none := by
    rw [Store.get_put_of_ne _ _ (by simp), Store.get_empty]
  have hdir : Objects.isDir ( ( ∅ : Objects).put (directory ++ ["package.tgz"]) []) directory =
      true := by simp_all [Objects.isDir, Objects.below, Bool.and_eq_true,
                List.isPrefixOf_iff_prefix, bne_iff_ne, List.prefix_append, Store.put]
  unfold DynStorage.openFile DynStorage.lookupKey? DynStorage.rejects holding
  dsimp only
  rw [if_neg Bool.false_ne_true, h]
  split_ifs with hslash
  · exact ⟨_, rfl⟩
  · rw [Option.bind_some, Option.bind_some, Store.get_empty, hmiss]
    exact ⟨_, rfl⟩

/-- The dispatcher hands the request to the handlers. -/
def admits (registry : NPMHostedRegistry) (auth : RepositoryAuthentication) (path : StoragePath) :
    Bool :=
  registry.isActive &&
    !((anonymousScopeDenied auth registry.id ||
        shouldRequireAuth registry.authConfig true (isNpmLoginPath path) false) &&
      !auth.isAuthenticated)

def Protected (answers : RepoResponse ε → Prop) (db : AccessTables) (format : TagFormat)
    (fromValue : String → Option (PublishVersion ε)) (c : Collation) (registry : NPMHostedRegistry)
    (auth : RepositoryAuthentication) (method : ReadMethod) (path : StoragePath) : Prop :=
  ∀ s, answers (handleRepoRequestCore db format fromValue c registry auth s method path) →
    canReadRepositoryWithAuth db auth registry.visibility registry.id registry.authConfig = true

end Pkgly.Npm
