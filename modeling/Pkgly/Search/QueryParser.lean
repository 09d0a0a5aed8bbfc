import Pkgly.Algorithm.Text

/-!
# Search queries

`parseSearchQuery` reads words and `field:value` pairs into a `SearchQuery`; the methods `matches…`
check a repository and a package against it.  `to_lowercase` and the versions of the crate `semver`
are parameters (`SearchEnvironment`); texts are compared by their characters, which is the order of
their bytes in UTF-8.
-/

namespace Pkgly.Search

structure SearchEnvironment (Version VersionReq : Type) where
  /-- `str::to_lowercase`. -/
  toLowercase : String → String
  /-- `LOWER` of the database. -/
  lower : String → String
  /-- `Version::parse`. -/
  parseVersion : String → Option Version
  compareVersion : Version → Version → Ordering
  versionToString : Version → String
  /-- `VersionReq::parse`. -/
  parseReq : String → Option VersionReq
  reqMatches : VersionReq → Version → Bool
  /-- The text of the JSON object with the size and the digests of a row. -/
  extraText : Nat → Option String → Option String → String

variable {Version VersionReq : Type} (env : SearchEnvironment Version VersionReq)

inductive Operator
  | equals
  | contains
  | greaterThan
  | greaterOrEqual
  | lessThan
  | lessOrEqual
deriving DecidableEq

inductive Field
  | package
  | version
  | repository
  | type
  | storage
  | digest
deriving DecidableEq

inductive ParseError
  | empty
  | unknownField (field : String)
  | invalidOperator (operator : String) (field : Field)
  | missingValue (field : Field)
deriving DecidableEq

/-- `s` contains `pat`, the other way round than in `containsText`. -/
def contains (s pat : String) : Bool := containsText pat s

/-! ### Version constraints -/

inductive VersionConstraint (VersionReq : Type)
  | exact (version : String)
  | range (op : Operator) (version : String)
  | semver (req : VersionReq)

def trimmed (s : String) : String := String.ofList (trim s)

def parsePlainSemver (value : String) : Option Version :=
  let chars := trim value
  env.parseVersion (String.ofList (if chars.head? = some 'v' then chars.tail else chars))

/-- What stands after the last `c` of `s`, if there is one. -/
def afterLast (c : Char) (s : List Char) : Option (List Char) :=
  if c ∈ s then some (s.reverse.takeWhile (· ≠ c)).reverse else none

def cleanPrerelease (prerelease : List Char) : List Char :=
  (prerelease.dropWhile fun c => c = '-' || c = '~' || c = '+').map fun c =>
    if c = '~' || c = '_' then '-' else c

def parseDebianSemver (value : String) : Option Version :=
  let text := trim value
  if text = [] then none
  else
    let withoutEpoch := (afterLast ':' text).getD text
    let upstream := withoutEpoch.takeWhile (· ≠ '-')
    if upstream = [] then none
    else
      let (base, prerelease) :=
        match splitOnce ['~'] upstream with
        | some (base, prerelease) => (base, some prerelease)
        | none => (upstream, none)
      let numericParts :=
        ((base.splitOn '.').map fun segment => segment.takeWhile Char.isDigit).filter (· ≠ [])
      if numericParts = [] then none
      else
        let padded := numericParts ++ List.replicate (3 - numericParts.length) ['0']
        let core := String.intercalate "." ((padded.take 3).map String.ofList)
        let cleaned := (prerelease.map cleanPrerelease).getD []
        env.parseVersion (if cleaned = [] then core else core ++ "-" ++ String.ofList cleaned)

def looksLikeDebianVersion (value : String) : Bool :=
  let text := trim value
  if ':' ∈ text ∨ '~' ∈ text ∨ '+' ∈ text then true
  else
    match afterLast '-' text with
    | none => false
    | some suffix => (suffix.head?.any Char.isDigit) && !suffix.contains '.'

def parseSemverVersion (value : String) : Option Version :=
  if looksLikeDebianVersion value then
    (parseDebianSemver env value).orElse fun _ => parsePlainSemver env value
  else (parsePlainSemver env value).orElse fun _ => parseDebianSemver env value

def compareRange (op : Operator) (candidate target : String) : Bool :=
  match parseSemverVersion env candidate, parseSemverVersion env target with
  | some lhs, some rhs =>
    match op with
    | .greaterThan => env.compareVersion lhs rhs == .gt
    | .greaterOrEqual => env.compareVersion lhs rhs != .lt
    | .lessThan => env.compareVersion lhs rhs == .lt
    | .lessOrEqual => env.compareVersion lhs rhs != .gt
    | .equals => env.compareVersion lhs rhs == .eq
    | .contains => contains (env.toLowercase (env.versionToString lhs)) (env.toLowercase target)
  | _, _ =>
    let lhs := env.toLowercase candidate
    let rhs := env.toLowercase target
    match op with
    | .greaterThan => decide (rhs < lhs)
    | .greaterOrEqual => !decide (lhs < rhs)
    | .lessThan => decide (lhs < rhs)
    | .lessOrEqual => !decide (rhs < lhs)
    | .equals => lhs == rhs
    | .contains => contains lhs rhs

def VersionConstraint.matches (constraint : VersionConstraint VersionReq) (version : String) :
    Bool :=
  match constraint with
  | exact expected =>
    match parseSemverVersion env version, parseSemverVersion env expected with
    | some lhs, some rhs => env.compareVersion lhs rhs == .eq
    | _, _ => eqIgnoreAsciiCase version expected
  | range .contains target => contains (env.toLowercase version) (env.toLowercase target)
  | range .equals target => eqIgnoreAsciiCase version target
  | range op target => compareRange env op version target
  | semver req => (parseSemverVersion env version).any (env.reqMatches req)

/-! ### Queries -/

structure SearchQuery (VersionReq : Type) where
  terms : List String
  packageFilter : Option (Operator × String)
  digestFilter : Option (Operator × String)
  versionConstraint : Option (VersionConstraint VersionReq)
  repositoryFilter : Option String
  typeFilter : Option String
  storageFilter : Option String

namespace SearchQuery

/-- `default`. -/
def empty : SearchQuery VersionReq := ⟨[], none, none, none, none, none, none⟩

def matchesRepository (query : SearchQuery VersionReq)
    (repositoryName storageName repositoryType : String) : Bool :=
  query.repositoryFilter.all (eqIgnoreAsciiCase repositoryName) &&
    query.storageFilter.all (eqIgnoreAsciiCase storageName) &&
    query.typeFilter.all (eqIgnoreAsciiCase repositoryType)

def applyStringOperator (operator : Operator) (candidate needle : String) : Bool :=
  match operator with
  | .equals => env.toLowercase candidate == needle
  | .contains => contains (env.toLowercase candidate) needle
  | _ => false

def matchesTerms (query : SearchQuery VersionReq) (fields : List String) : Bool :=
  query.terms.all fun term => (fields.map env.toLowercase).any fun value => contains value term

def matchesPackageNames (query : SearchQuery VersionReq) (candidates : List String) : Bool :=
  match query.packageFilter with
  | some (operator, filter) =>
    candidates.any fun candidate => applyStringOperator env operator candidate filter
  | none => query.matchesTerms env candidates

def matchesVersion (query : SearchQuery VersionReq) (candidate : String) : Bool :=
  query.versionConstraint.all fun constraint => constraint.matches env candidate

end SearchQuery

/-! ### The parser -/

/-- The state of `tokenize`: the finished tokens, the current one, and the open quote. -/
structure TokenizerState where
  tokens : List String
  current : List Char
  quote : Option Char

def tokenizeChar (s : TokenizerState) (ch : Char) : TokenizerState :=
  match s.quote with
  | some quote =>
    if ch = quote then { s with quote := none } else { s with current := s.current ++ [ch] }
  | none =>
    if ch = '"' ∨ ch = '\'' then { s with quote := some ch }
    else if isWhitespace ch then
      if s.current = [] then s
      else { s with tokens := s.tokens ++ [String.ofList s.current], current := [] }
    else { s with current := s.current ++ [ch] }

def tokenize (input : String) : List String :=
  let s := input.toList.foldl tokenizeChar ⟨[], [], none⟩
  if s.current = [] then s.tokens else s.tokens ++ [String.ofList s.current]

def parseField (value : String) : Except ParseError Field :=
  let lowered := env.toLowercase value
  if lowered = "package" ∨ lowered = "pkg" then .ok .package
  else if lowered = "version" ∨ lowered = "v" then .ok .version
  else if lowered = "repository" ∨ lowered = "repo" then .ok .repository
  else if lowered = "type" then .ok .type
  else if lowered = "storage" then .ok .storage
  else if lowered = "digest" ∨ lowered = "hash" then .ok .digest
  else .error (.unknownField lowered)

def extractOperator (value : String) : Option Operator × List Char :=
  match value.toList.dropWhile isWhitespace with
  | '>' :: '=' :: rest => (some .greaterOrEqual, rest)
  | '<' :: '=' :: rest => (some .lessOrEqual, rest)
  | '>' :: rest => (some .greaterThan, rest)
  | '<' :: rest => (some .lessThan, rest)
  | '=' :: rest => (some .equals, rest)
  | '~' :: rest => (some .contains, rest)
  | rest => (none, rest)

def operatorToString : Operator → String
  | .equals => "="
  | .contains => "~"
  | .greaterThan => ">"
  | .greaterOrEqual => ">="
  | .lessThan => "<"
  | .lessOrEqual => "<="

/-- `validate_string_operator`, before the filter is set. -/
def validateStringOperator (operator : Option Operator) (field : Field)
    (query : SearchQuery VersionReq) : Except ParseError (SearchQuery VersionReq) :=
  match operator with
  | none | some .equals => .ok query
  | some op => .error (.invalidOperator (operatorToString op) field)

/-- The filters of packages and digests: a value without operator is compared whole if `exact`. -/
def stringFilter (operator : Option Operator) (exact : Bool) (field : Field) :
    Except ParseError Operator :=
  match operator.getD (if exact then .equals else .contains) with
  | .equals => .ok .equals
  | .contains => .ok .contains
  | op => .error (.invalidOperator (operatorToString op) field)

def versionConstraint (operator : Option Operator) (value : String) :
    VersionConstraint VersionReq :=
  match operator with
  | some .equals => .exact value
  | some .contains => .range .contains (env.toLowercase value)
  | some op => .range op value
  | none =>
    match env.parseReq value with
    | some req => .semver req
    | none => .exact value

def readValue (query : SearchQuery VersionReq) (field : Field) (operator : Option Operator)
    (value : String) : Except ParseError (SearchQuery VersionReq) :=
  let lowered := env.toLowercase value
  match field with
  | .package =>
    (stringFilter operator (value.toList.any isWhitespace) field).map fun op =>
      { query with packageFilter := some (op, lowered) }
  | .repository =>
    validateStringOperator operator field { query with repositoryFilter := some lowered }
  | .type => validateStringOperator operator field { query with typeFilter := some lowered }
  | .storage => validateStringOperator operator field { query with storageFilter := some lowered }
  | .version => .ok { query with versionConstraint := some (versionConstraint env operator value) }
  | .digest =>
    (stringFilter operator (value.toList.contains ':') field).map fun op =>
      { query with digestFilter := some (op, lowered) }

/-- What the next token is read as. -/
inductive Pending
  /-- The value of a field, with its operator. -/
  | segment (field : Field)
  /-- The value after the operator. -/
  | value (field : Field) (operator : Option Operator)

/-- The value of a field, with its operator; the operator may stand alone. -/
def readSegment (query : SearchQuery VersionReq) (field : Field) (segment : String) :
    Except ParseError (SearchQuery VersionReq × Option Pending) :=
  if segment = "" then .error (.missingValue field)
  else
    let caret := segment.toList.head? = some '^' ∨ segment.toList.head? = some '~'
    match if field = .version ∧ caret then env.parseReq segment else none with
    | some req => .ok ({ query with versionConstraint := some (.semver req) }, none)
    | none =>
      let (operator, remainder) := extractOperator segment
      let value := trimmed (String.ofList remainder)
      if value = "" then .ok (query, some (.value field operator))
      else (readValue env query field operator value).map fun query => (query, none)

/-- The loop of `parse_search_query`. -/
def parseTokens : SearchQuery VersionReq → Option Pending → List String →
    Except ParseError (SearchQuery VersionReq)
  | query, none, [] => .ok query
  | _, some (.segment field), [] => .error (.missingValue field)
  | _, some (.value field _), [] => .error (.missingValue field)
  | query, some (.segment field), token :: rest =>
    match readSegment env query field (trimmed token) with
    | .error e => .error e
    | .ok (query, pending) => parseTokens query pending rest
  | query, some (.value field operator), token :: rest =>
    if trimmed token = "" then .error (.missingValue field)
    else
      match readValue env query field operator (trimmed token) with
      | .error e => .error e
      | .ok query => parseTokens query none rest
  | query, none, token :: rest =>
    match splitOnce [':'] token.toList with
    | none => parseTokens { query with terms := query.terms ++ [env.toLowercase token] } none rest
    | some (name, raw) =>
      match parseField env (String.ofList name) with
      | .error e => .error e
      | .ok field =>
        let segment := trimmed (String.ofList raw)
        if segment = "" then parseTokens query (some (.segment field)) rest
        else
          match readSegment env query field segment with
          | .error e => .error e
          | .ok (query, pending) => parseTokens query pending rest

def parseSearchQuery (input : String) : Except ParseError (SearchQuery VersionReq) :=
  if trimmed input = "" then .error .empty
  else parseTokens env .empty none (tokenize (trimmed input))

end Pkgly.Search
