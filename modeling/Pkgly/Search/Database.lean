import Mathlib.Data.List.Basic
import Pkgly.Search.QueryParser

/-!
# The search over the catalogue

`fetchRepositoryRows` is the statement on `package_files`: its conditions are patterns of `LIKE`,
and it is limited.  `filterDatabaseRows` checks the fetched rows again, the version among them, and
`executeRepositorySearch` goes over the repositories until it has enough rows.

The rows of a repository are listed as `ORDER BY modified_at DESC` lists them, rows of the same time
in the order in which the database delivers them.
-/

namespace Pkgly.Search

variable {Version VersionReq : Type} (env : SearchEnvironment Version VersionReq)

/-! ### The catalogue -/

/-- A row of `package_files`, with the version of its row of `project_versions`. -/
structure PackageFile where
  package : String
  name : String
  projectVersion : Option String
  path : String
  sizeBytes : Nat
  contentDigest : Option String
  upstreamDigest : Option String
  modifiedAt : Int
  deleted : Bool
deriving DecidableEq

/-- The rows of each repository, the newest first; a path occurs once. -/
structure Catalogue where
  rows : Nat → List PackageFile
  sorted : ∀ repository, (rows repository).Pairwise fun a b => b.modifiedAt ≤ a.modifiedAt
  nodup_paths : ∀ repository, ((rows repository).map PackageFile.path).Nodup

namespace PackageFile

/-- `COALESCE(pv.version, pf.name)`. -/
def version (row : PackageFile) : String := row.projectVersion.getD row.name

/-- `COALESCE(pf.content_digest, pf.upstream_digest, '')`. -/
def digest (row : PackageFile) : String := (row.contentDigest.or row.upstreamDigest).getD ""

end PackageFile

/-! ### The statement -/

/-- `LIKE`: `%` stands for any text, `_` for any character, and a backslash takes the next character
as it is. -/
def like : List Char → List Char → Bool
  | [], s => s.isEmpty
  | '%' :: pat, s => s.tails.any (like pat)
  | '_' :: pat, s =>
    match s with
    | [] => false
    | _ :: s => like pat s
  | '\\' :: c :: pat, s =>
    match s with
    | [] => false
    | d :: s => c == d && like pat s
  | c :: pat, s =>
    match s with
    | [] => false
    | d :: s => c == d && like pat s

/-- `value LIKE '%needle%'`. -/
def likeContains (value needle : String) : Bool :=
  like ('%' :: (needle.toList ++ ['%'])) value.toList

/-- The condition of a filter on some columns; `test` compares a column with a part of it. -/
def filterCondition (test : String → String → Bool) (columns : List String) :
    Option (Operator × String) → Bool
  | some (.equals, filter) => columns.any fun column => env.lower column == env.toLowercase filter
  | some (.contains, filter) =>
    columns.any fun column => test (env.lower column) (env.toLowercase filter)
  | _ => true

/-- The conditions of the statement of `fetch_repository_rows`, with the comparison `test` for its
`LIKE`s. -/
def selectsBy (test : String → String → Bool) (query : SearchQuery VersionReq)
    (row : PackageFile) : Bool :=
  !row.deleted && filterCondition env test [row.package, row.name] query.packageFilter &&
    filterCondition env test [row.digest] query.digestFilter &&
    query.terms.all fun term => term == "" ||
      [row.package, row.name, row.version, row.path, row.digest].any fun column =>
        test (env.lower column) (env.toLowercase term)

/-- The `WHERE` of `fetch_repository_rows`. -/
def selects (query : SearchQuery VersionReq) (row : PackageFile) : Bool :=
  selectsBy env likeContains query row

def fetchRepositoryRows (catalogue : Catalogue) (repository : Nat)
    (query : SearchQuery VersionReq) (limit : Nat) : List PackageFile :=
  if limit = 0 then []
  else ((catalogue.rows repository).filter (selects env query)).take (min (max limit 1) 500)

structure RepositorySummary where
  repositoryId : Nat
  repositoryName : String
  storageName : String
  repositoryType : String
deriving DecidableEq

structure PackageSearchResult where
  repositoryId : Nat
  repositoryName : String
  storageName : String
  repositoryType : String
  fileName : String
  cachePath : String
  size : Nat
  modified : Int
deriving DecidableEq

/-- The checks of `filter_database_rows`. -/
def accepts (query : SearchQuery VersionReq) (row : PackageFile) : Bool :=
  -- the JSON object has a content digest, if only `null`
  let digest := row.contentDigest.getD ""
  let extraTerms := env.extraText row.sizeBytes row.contentDigest row.upstreamDigest
  (query.packageFilter.isNone || query.matchesPackageNames env [row.package, row.package]) &&
    query.matchesTerms env [row.package, row.package, row.version, row.path, digest, extraTerms] &&
    query.matchesVersion env row.version

def lastSegment (path : String) : List Char := (path.toList.reverse.takeWhile (· ≠ '/')).reverse

def toResult (summary : RepositorySummary) (row : PackageFile) : PackageSearchResult where
  repositoryId := summary.repositoryId
  repositoryName := summary.repositoryName
  storageName := summary.storageName
  repositoryType := summary.repositoryType
  fileName :=
    if lastSegment row.path = [] then row.package ++ "@" ++ row.version
    else String.ofList (lastSegment row.path)
  cachePath := row.path
  size := row.sizeBytes
  modified := row.modifiedAt

/-- The loop of `filter_database_rows`, with the results so far. -/
def filterRows (summary : RepositorySummary) (query : SearchQuery VersionReq) (limit : Nat) :
    List PackageSearchResult → List PackageFile → List PackageSearchResult
  | results, [] => results
  | results, row :: rows =>
    if limit ≤ results.length then results
    else if accepts env query row then
      filterRows summary query limit (results ++ [toResult summary row]) rows
    else filterRows summary query limit results rows

def filterDatabaseRows (summary : RepositorySummary) (rows : List PackageFile)
    (query : SearchQuery VersionReq) (limit : Nat) : List PackageSearchResult :=
  if limit = 0 then [] else filterRows env summary query limit [] rows

def searchDatabasePackages (catalogue : Catalogue) (summary : RepositorySummary)
    (query : SearchQuery VersionReq) (limit : Nat) : List PackageSearchResult :=
  if limit = 0 then []
  else
    filterDatabaseRows env summary
      (fetchRepositoryRows env catalogue summary.repositoryId query limit) query limit

def asksFor (query : SearchQuery VersionReq) (summary : RepositorySummary) : Bool :=
  query.matchesRepository summary.repositoryName summary.storageName summary.repositoryType

end Pkgly.Search
