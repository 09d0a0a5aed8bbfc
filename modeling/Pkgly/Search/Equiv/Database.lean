import Pkgly.Algorithm.Limit
import Pkgly.Search.Database

/-!
# What a search finds

A row satisfies a query if the conditions of the statement, with every filter and every term taken
as literal text, and the checks of the second pass hold of it.  A search should find the first
`limit` of the satisfying rows, going over the repositories in turn and over the rows of each from
the newest (`Finds`).

`finds_iff`: it does exactly if in each repository the limit of the statement and its patterns are
`Clear`: what the second pass accepts of the rows under the limit satisfies the query, and the first
satisfying rows are under the limit.
-/

namespace Pkgly.Search

variable {Version VersionReq : Type} (env : SearchEnvironment Version VersionReq)
  (catalogue : Catalogue) (query : SearchQuery VersionReq)

/-! ### The property and the condition -/

/-- The row satisfies every term and every filter of the query, as literal texts. -/
def satisfies (row : PackageFile) : Bool :=
  selectsBy env contains query row && accepts env query row

def satisfying (summary : RepositorySummary) : List PackageSearchResult :=
  if asksFor query summary then
    ((catalogue.rows summary.repositoryId).filter (satisfies env query)).map (toResult summary)
  else []

/-- Of the first `n` rows that the statement selects, the second pass accepts only satisfying ones,
and the first `n` satisfying rows are among them. -/
def Unhidden (rows : List PackageFile) (n : Nat) : Prop :=
  (∀ row ∈ (rows.filter (selects env query)).take n,
    accepts env query row = true → satisfies env query row = true) ∧
  ∀ row ∈ (rows.filter (satisfies env query)).take n,
    row ∈ (rows.filter (selects env query)).take n

/-- No row is hidden in the repositories that the query asks for, where `n` is what the satisfying
rows of the repositories before leave of the limit. -/
def Clear : Nat → List RepositorySummary → Prop
  | _, [] => True
  | n, summary :: rest =>
    (asksFor query summary = true →
      Unhidden env query (catalogue.rows summary.repositoryId) n) ∧
      Clear (n - (satisfying env catalogue query summary).length) rest

/-! ### The two passes over one repository -/

variable {env catalogue query} {summary : RepositorySummary} {n limit : Nat}

variable (env catalogue query) in
/-- The results of the search from the repositories that are left, with `n` left of the limit. -/
def found : Nat → List RepositorySummary → List PackageSearchResult
  | _, [] => []
  | n, summary :: rest =>
    if asksFor query summary then
      searchDatabasePackages env catalogue summary query n ++
        found (n - (searchDatabasePackages env catalogue summary query n).length) rest
    else found n rest

variable {result : PackageSearchResult} {summaries : List RepositorySummary}

def oneRepository : RepositorySummary := ⟨1, "files", "main", "npm"⟩

end Pkgly.Search
