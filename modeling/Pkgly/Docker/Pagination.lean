import Mathlib.Data.String.Basic
import Pkgly.Algorithm.BinarySearch
import Pkgly.Docker.Catalog

/-!
# Pages of a listing

A listing is read page by page: the answer to a request has a link to the next page, whose query
names the last value that was sent and the length of a page (`nextQuery`).  `readPages` follows the
links, while the listing may change from one page to the next.

The texts of a query are written and read by `form_urlencoded` (`FormUrlencoded`).
-/

namespace Pkgly.Docker

/-- What the registry uses of `form_urlencoded`. -/
structure FormUrlencoded where
  parse : String → List (String × String)
  serialize : List (String × String) → String

def maxPaginationPageSize : ℕ := 1000

/-- One pair of a query, after those before it; `none` is `PaginationError::InvalidLimit`. -/
def parsePaginationPair (params : Pagination) : String × String → Option Pagination
  | ("n", value) => do
    let parsed ← parseU64 value.toList
    if parsed = 0 then none
    else some { params with limit := some (min parsed maxPaginationPageSize) }
  | ("last", value) => some (if value = "" then params else { params with last := some value })
  | _ => some params

def parsePaginationParams (form : FormUrlencoded) (query : Option String) : Option Pagination :=
  ((query.map form.parse).getD []).foldlM parsePaginationPair ⟨none, none⟩

def pageStart (all : List String) : Option String → ℕ
  | some last => upperBound (binarySearch all last)
  | none => 0

/-- `paginate_lexically`, with the binary search that it makes. -/
def paginateBySearch (all : List String) (pagination : Pagination) :
    List String × Option PaginationCursor :=
  if all.isEmpty then ([], none)
  else
    let start := pageStart all pagination.last
    if all.length ≤ start then ([], none)
    else
      match pagination.limit with
      | some limit =>
        let stop := min (start + limit) all.length
        let selected := (all.drop start).take (stop - start)
        let next := if stop < all.length ∧ selected ≠ [] then
            selected.getLast?.map fun last => ⟨last, limit⟩
          else none
        (selected, next)
      | none => (all.drop start, none)

def nextQuery (form : FormUrlencoded) (next : PaginationCursor) : String :=
  form.serialize [("last", next.last), ("n", toString next.limit)]

def listPage (form : FormUrlencoded) (all : List String) (query : Option String) :
    Option (List String × Option String) :=
  (parsePaginationParams form query).map fun params =>
    let (values, next) := paginateBySearch all params
    (values, next.map (nextQuery form))

/-- Follow the links of at most `fuel` pages.  The listing is `lists page` when a page is asked
for; there is no result when it is answered with an error, or has a link and there is no fuel. -/
def readPages (form : FormUrlencoded) (lists : ℕ → List String) :
    (fuel page : ℕ) → (query : Option String) → Option (List (List String))
  | 0, _, _ => none
  | fuel + 1, page, query => do
    let (values, next) ← listPage form (lists page) query
    match next with
    | none => return [values]
    | some next =>
      let rest ← readPages form lists fuel (page + 1) (some next)
      return values :: rest

end Pkgly.Docker
