import Mathlib.Data.Bool.AllAny
import Pkgly.Algorithm.Trim
import Pkgly.Search.Equiv.VersionConstraint

/-!
# Correctness of the query parser

A query is written as clauses, every term and every value in double quotes (`render`).  The
tokenizer takes the quotes off (`tokenize_render`), so that the parser cannot tell a quoted colon or
operator from one that is written.  `parseSearchQuery_render_iff`: the query is read back with every
clause read as it was written if and only if the clauses are `Plain`.
-/

namespace Pkgly.Search

variable {Version VersionReq : Type} (env : SearchEnvironment Version VersionReq)

/-! ### Clauses -/

/-- `Display` of a field. -/
def Field.name : Field → String
  | .package => "package"
  | .version => "version"
  | .repository => "repository"
  | .type => "type"
  | .storage => "storage"
  | .digest => "digest"

inductive Clause
  | term (text : String)
  | field (field : Field) (operator : Option Operator) (value : String)
deriving DecidableEq

def Field.legal : Field → Option Operator → Bool
  | .version, _ => true
  | .package, op | .digest, op => op ∈ [none, some .equals, some .contains]
  | .repository, op | .type, op | .storage, op => op ∈ [none, some .equals]

/-- A text that may stand in double quotes: not empty, trimmed, and without double quotes. -/
structure Quotable (text : String) : Prop where
  trimmed : trimmed text = text
  ne_empty : text ≠ ""
  noQuote : '"' ∉ text.toList

namespace Clause

def text : Clause → String
  | term text => text
  | field _ _ value => value

structure Valid (c : Clause) : Prop where
  quotable : Quotable c.text
  legal : ∀ f op v, c = field f op v → f.legal op = true

def operatorText (op : Option Operator) : String := (op.map operatorToString).getD ""

def start : Clause → String
  | term _ => ""
  | field f op _ => f.name ++ ":" ++ operatorText op

def render (c : Clause) : String := c.start ++ "\"" ++ c.text ++ "\""

def token (c : Clause) : String := c.start ++ c.text

def on (f : Field) : Clause → Option (Option Operator × String)
  | term _ => none
  | field f' op v => if f' = f then some (op, v) else none

end Clause

def render (clauses : List Clause) : String :=
  String.intercalate " " (clauses.map Clause.render)

def lastClause (f : Field) (clauses : List Clause) : Option (Option Operator × String) :=
  (clauses.filterMap (Clause.on f)).getLast?

/-- The query that the clauses are written for: all terms in order, and the last clause on each
field. -/
def expected (clauses : List Clause) : SearchQuery VersionReq where
  terms := clauses.filterMap fun c =>
    match c with
    | .term text => some (env.toLowercase text)
    | .field .. => none
  packageFilter := (lastClause .package clauses).map fun (op, v) =>
    (op.getD (if v.toList.any isWhitespace then .equals else .contains), env.toLowercase v)
  digestFilter := (lastClause .digest clauses).map fun (op, v) =>
    (op.getD (if v.toList.contains ':' then .equals else .contains), env.toLowercase v)
  versionConstraint := (lastClause .version clauses).map fun (op, v) => versionConstraint env op v
  repositoryFilter := (lastClause .repository clauses).map fun (_, v) => env.toLowercase v
  typeFilter := (lastClause .type clauses).map fun (_, v) => env.toLowercase v
  storageFilter := (lastClause .storage clauses).map fun (_, v) => env.toLowercase v

/-! ### How a clause is read -/

inductive Reading (VersionReq : Type)
  /-- A requirement on a version, with its caret or tilde. -/
  | requirement (req : VersionReq)
  | operator (op : Option Operator) (value : String)

def readingOf (f : Field) (segment : String) : Reading VersionReq :=
  match if f = .version ∧ (segment.toList.head? = some '^' ∨ segment.toList.head? = some '~') then
      env.parseReq segment else none with
  | some req => .requirement req
  | none =>
    .operator (extractOperator segment).1 (trimmed (String.ofList (extractOperator segment).2))

/-- The clause is read as it is written: a term as a term, and a value with the operator before
its quotes; a requirement is what a value without operator may be. -/
def ReadAsWritten : Clause → Prop
  | .term text => splitOnce [':'] text.toList = none
  | .field f op v =>
    readingOf env f (Clause.operatorText op ++ v) = .operator op v ∨
      f = .version ∧ op = none ∧ ∃ req, env.parseReq v = some req ∧
        readingOf env f (Clause.operatorText op ++ v) = .requirement req

def operatorStarts : List Char := ['>', '<', '=', '~']

def Plain : Clause → Prop
  | .term text => ':' ∉ text.toList
  | .field f none v =>
    (∀ c ∈ operatorStarts, v.toList.head? ≠ some c) ∨
      f = .version ∧ v.toList.head? = some '~' ∧ (env.parseReq v).isSome = true
  | .field f (some .contains) v => f = .version → env.parseReq ("~" ++ v) = none
  | .field _ (some .greaterThan) v | .field _ (some .lessThan) v => v.toList.head? ≠ some '='
  | .field _ (some _) _ => True

theorem isWhitespace_operatorStarts : ∀ c ∈ operatorStarts, isWhitespace c = false :=
  List.all_iff_forall_prop.mp (by decide)

/-- An operator before a value is taken off, unless the value makes another operator of it. -/
theorem extractOperator_of_some {op : Operator} {v : String}
    (h : op = .greaterThan ∨ op = .lessThan → v.toList.head? ≠ some '=') :
    extractOperator (Clause.operatorText (some op) ++ v) = (some op, v.toList) := by
  unfold extractOperator Clause.operatorText
  simp only [Option.map_some, Option.getD_some, String.toList_append]
  cases op with
  | greaterThan =>
    cases hv : v.toList with
    | nil => rfl
    | cons c rest =>
      have hc : c ≠ '=' := by
        rintro rfl
        exact h (.inl rfl) (by rw [hv]; rfl)
      simp [operatorToString, isWhitespace, hc]
  | lessThan =>
    cases hv : v.toList with
    | nil => rfl
    | cons c rest =>
      have hc : c ≠ '=' := by
        rintro rfl
        exact h (.inr rfl) (by rw [hv]; rfl)
      simp [operatorToString, isWhitespace, hc]
  | equals => rfl
  | contains => rfl
  | greaterOrEqual => rfl
  | lessOrEqual => rfl

theorem extractOperator_of_equals {op : Operator} (hop : op = .greaterThan ∨ op = .lessThan)
    {v : String} (hv : v.toList.head? = some '=') :
    (extractOperator (Clause.operatorText (some op) ++ v)).1 ≠ some op := by
  obtain ⟨rest, hrest⟩ : ∃ rest, v.toList = '=' :: rest := by
    cases hcons : v.toList with
    | nil =>
      rw [hcons] at hv
      cases hv
    | cons c rest =>
      rw [hcons, List.head?_cons, Option.some.injEq] at hv
      exact ⟨rest, by rw [hv]⟩
  unfold extractOperator Clause.operatorText
  simp only [Option.map_some, Option.getD_some, String.toList_append, hrest]
  rcases hop with rfl | rfl
  · rintro ⟨⟩
  · rintro ⟨⟩

theorem extractOperator_of_none {v : String} (hvisible : ∀ c, v.toList.head? = some c →
    isWhitespace c = false) (h : ∀ c ∈ operatorStarts, v.toList.head? ≠ some c) :
    extractOperator v = (none, v.toList) := by
  unfold extractOperator
  rw [dropWhile_eq_self_of_head? hvisible]
  cases hv : v.toList with
  | nil => rfl
  | cons c rest =>
    rw [hv, List.head?_cons] at h
    have hc : ∀ d ∈ operatorStarts, c ≠ d := fun d hd heq => h d hd (congrArg some heq)
    have hgt := hc '>' (by decide)
    have hlt := hc '<' (by decide)
    have heq := hc '=' (by decide)
    have htilde := hc '~' (by decide)
    simp [hgt, hlt, heq, htilde]

theorem extractOperator_ne_none {v : String} {c : Char} (hc : c ∈ operatorStarts)
    (hv : v.toList.head? = some c) : (extractOperator v).1 ≠ none := by
  obtain ⟨rest, hrest⟩ : ∃ rest, v.toList = c :: rest := by
    cases hcons : v.toList with
    | nil =>
      rw [hcons] at hv
      cases hv
    | cons d rest =>
      rw [hcons, List.head?_cons, Option.some.injEq] at hv
      exact ⟨rest, by rw [hv]⟩
  unfold extractOperator
  rw [hrest, List.dropWhile_cons_of_neg (by rw [isWhitespace_operatorStarts c hc]; decide)]
  simp only [operatorStarts, List.mem_cons, List.not_mem_nil, or_false] at hc
  grind

/-! ### Plain clauses -/

theorem Quotable.toList_eq {text : String} (h : Quotable text) :
    trimWhile isWhitespace text.toList = text.toList := by
  have heq := congrArg String.toList h.trimmed
  rw [Search.trimmed, String.toList_ofList] at heq
  exact heq

theorem Quotable.head {text : String} (h : Quotable text) {c : Char}
    (hc : text.toList.head? = some c) : isWhitespace c = false := by
  rw [← h.toList_eq] at hc
  exact head?_trimWhile hc

theorem Quotable.last {text : String} (h : Quotable text) {c : Char}
    (hc : text.toList.getLast? = some c) : isWhitespace c = false := by
  rw [← h.toList_eq] at hc
  exact getLast?_trimWhile hc

theorem splitOnce_singleton_eq_none_iff {c : Char} {s : List Char} :
    splitOnce [c] s = none ↔ c ∉ s := by
  refine ⟨fun h hc => ?_, splitOnce_eq_none⟩
  obtain ⟨base, rest, rfl, hbase⟩ := List.eq_append_cons_of_mem hc
  have hsplit : splitOnce [c] (base ++ c :: rest) = some (base, rest) :=
    splitOnce_append hbase rest
  rw [hsplit] at h
  cases h

variable {env} {f : Field} {v : String}

variable {op : Option Operator} {c : Clause} {clauses : List Clause}

theorem readingOf_of_extractOperator {segment : String} (hv : Quotable v)
    (hextract : extractOperator segment = (op, v.toList))
    (hreq : f = .version → segment.toList.head? = some '^' ∨ segment.toList.head? = some '~' →
      env.parseReq segment = none) : readingOf env f segment = .operator op v := by
  have hvalue : trimmed (String.ofList v.toList) = v := by
    rw [String.ofList_toList, hv.trimmed]
  grind [readingOf]

theorem readAsWritten_none_iff (hv : Quotable v) :
    ReadAsWritten env (.field f none v) ↔ Plain env (.field f none v) := by
  have hsegment : Clause.operatorText none ++ v = v := String.empty_append
  rw [ReadAsWritten, Plain, hsegment]
  by_cases hplain : ∀ c ∈ operatorStarts, v.toList.head? ≠ some c
  · refine iff_of_true ?_ (.inl hplain)
    by_cases hreq : f = .version ∧ v.toList.head? = some '^' ∧ (env.parseReq v).isSome = true
    · obtain ⟨hf, hcaret, hsome⟩ := hreq
      obtain ⟨req, hreq⟩ := Option.isSome_iff_exists.mp hsome
      refine .inr ⟨hf, rfl, req, hreq, ?_⟩
      rw [readingOf, if_pos ⟨hf, .inl hcaret⟩, hreq]
    · refine .inl (readingOf_of_extractOperator hv
        (extractOperator_of_none (fun c hc => hv.head hc) hplain) fun hf hcaret => ?_)
      rw [← Option.not_isSome_iff_eq_none]
      intro hsome
      exact hreq ⟨hf, hcaret.resolve_right (hplain '~' (by decide)), hsome⟩
  · have hstart : ∃ c ∈ operatorStarts, v.toList.head? = some c := by
      by_contra hnone
      exact hplain fun c hc hhead => hnone ⟨c, hc, hhead⟩
    obtain ⟨c, hc, hhead⟩ := hstart
    have hne := extractOperator_ne_none hc hhead
    constructor
    · rintro (hread | ⟨hf, -, req, hreq, hread⟩)
      · grind [readingOf, absurd, Reading.operator.inj]
      · refine .inr ⟨hf, ?_, by rw [hreq]; rfl⟩
        by_contra htilde
        rw [readingOf, if_neg] at hread
        · cases hread
        · rintro ⟨-, hcaret | htilde'⟩
          · rw [hhead, Option.some.injEq] at hcaret
            rw [hcaret] at hc
            exact absurd hc (by decide)
          · exact htilde htilde'
    · rintro (hplain' | ⟨hf, htilde, hsome⟩)
      · exact absurd hplain' hplain
      · obtain ⟨req, hreq⟩ := Option.isSome_iff_exists.mp hsome
        refine .inr ⟨hf, rfl, req, hreq, ?_⟩
        rw [readingOf, if_pos ⟨hf, .inr htilde⟩, hreq]

theorem head?_operatorText (op : Operator) (v : String) :
    (Clause.operatorText (some op) ++ v).toList.head? = (operatorToString op).toList.head? := by
  rw [Clause.operatorText, Option.map_some, Option.getD_some, String.toList_append]
  cases op <;> rfl

/-- A value with an operator is read as it is written unless it makes another operator of it, or a
requirement with a tilde. -/
theorem readAsWritten_some_iff {op : Operator} (hv : Quotable v) :
    ReadAsWritten env (.field f (some op) v) ↔ Plain env (.field f (some op) v) := by
  have hnone : ReadAsWritten env (.field f (some op) v) ↔
      readingOf env f (Clause.operatorText (some op) ++ v) = .operator (some op) v := by
    constructor
    · rintro (hread | ⟨-, hop, -⟩)
      · exact hread
      · cases hop
    · exact .inl
  rw [hnone]
  have hfirst := head?_operatorText op v
  -- an operator other than the tilde starts no requirement
  have hother : (operatorToString op).toList.head? ≠ some '~' →
      readingOf env f (Clause.operatorText (some op) ++ v) =
        .operator (extractOperator (Clause.operatorText (some op) ++ v)).1
          (trimmed (String.ofList (extractOperator (Clause.operatorText (some op) ++ v)).2)) := by
    intro htilde
    have hcaret : (operatorToString op).toList.head? ≠ some '^' := by cases op <;> decide
    rw [readingOf, if_neg]
    rintro ⟨-, h | h⟩
    · exact hcaret (hfirst.symm.trans h)
    · exact htilde (hfirst.symm.trans h)
  have hvalue : trimmed (String.ofList v.toList) = v := by
    rw [String.ofList_toList, hv.trimmed]
  by_cases hstrict : op = .greaterThan ∨ op = .lessThan
  · have hplain : Plain env (.field f (some op) v) ↔ v.toList.head? ≠ some '=' := by
      rcases hstrict with rfl | rfl <;> exact Iff.rfl
    have htilde : (operatorToString op).toList.head? ≠ some '~' := by
      rcases hstrict with rfl | rfl <;> decide
    grind [extractOperator_of_equals, Reading.operator.inj, extractOperator_of_some]
  · have hextract : extractOperator (Clause.operatorText (some op) ++ v) = (some op, v.toList) :=
      extractOperator_of_some fun h => absurd h hstrict
    by_cases hcontains : op = .contains
    · subst hcontains
      have htext : Clause.operatorText (some .contains) ++ v = "~" ++ v := rfl
      unfold Plain
      constructor
      · intro hread hf
        rw [readingOf, if_pos ⟨hf, .inr (hfirst.trans (by decide))⟩, htext] at hread
        grind
      grind [readingOf_of_extractOperator]
    · have hplain : Plain env (.field f (some op) v) := by
        cases op <;> first | exact trivial | exact absurd (.inl rfl) hstrict |
          exact absurd (.inr rfl) hstrict | exact absurd rfl hcontains
      have htilde : (operatorToString op).toList.head? ≠ some '~' := by
        cases op <;> first | decide | exact absurd rfl hcontains
      refine iff_of_true ?_ hplain
      rw [hother htilde, hextract, hvalue]

theorem readAsWritten_iff_plain (hc : c.Valid) : ReadAsWritten env c ↔ Plain env c := by
  cases c with
  | term text => exact splitOnce_singleton_eq_none_iff
  | field f op v =>
    cases op with
    | none => exact readAsWritten_none_iff hc.quotable
    | some op => exact readAsWritten_some_iff hc.quotable

/-! ### The tokenizer -/

theorem foldl_tokenizeChar_quoted {s : List Char} (hs : '"' ∉ s) (tokens : List String)
    (current : List Char) : s.foldl tokenizeChar ⟨tokens, current, some '"'⟩ =
      ⟨tokens, current ++ s, some '"'⟩ := by
  induction s generalizing current with
  | nil => rw [List.foldl_nil, List.append_nil]
  | cons c s ih =>
    obtain ⟨hc, hs⟩ := List.ne_and_not_mem_of_not_mem_cons hs
    have hstep : tokenizeChar ⟨tokens, current, some '"'⟩ c =
        ⟨tokens, current ++ [c], some '"'⟩ := if_neg hc.symm
    rw [List.foldl_cons, hstep, ih hs, List.append_assoc, List.singleton_append]

theorem foldl_tokenizeChar_visible {s : List Char}
    (hs : ∀ c ∈ s, c ≠ '"' ∧ c ≠ '\x27' ∧ isWhitespace c = false) (tokens : List String)
    (current : List Char) : s.foldl tokenizeChar ⟨tokens, current, none⟩ =
      ⟨tokens, current ++ s, none⟩ := by
  induction s generalizing current with
  | nil => rw [List.foldl_nil, List.append_nil]
  | cons c s ih =>
    simp_all [tokenizeChar, Bool.false_eq_true, List.foldl_cons, List.append_assoc]

theorem start_visible (c : Clause) :
    ∀ ch ∈ c.start.toList, ch ≠ '"' ∧ ch ≠ '\x27' ∧ isWhitespace ch = false := by
  have hname : ∀ f : Field, ∀ ch ∈ (f.name ++ ":").toList,
      ch ≠ '"' ∧ ch ≠ '\x27' ∧ isWhitespace ch = false := by
    intro f
    refine List.all_iff_forall_prop.mp ?_
    cases f <;> decide
  have hop : ∀ op : Option Operator, ∀ ch ∈ (Clause.operatorText op).toList,
      ch ≠ '"' ∧ ch ≠ '\x27' ∧ isWhitespace ch = false := by
    intro op
    refine List.all_iff_forall_prop.mp ?_
    cases op with
    | none => decide
    | some op => cases op <;> decide
  cases c with
  | term text =>
    simp [Clause.start, String.toList_empty, List.not_mem_nil]
  | field f op v =>
    grind [Clause.start, String.toList_append]

theorem foldl_tokenizeChar_render (hc : c.Valid) (tokens : List String) :
    c.render.toList.foldl tokenizeChar ⟨tokens, [], none⟩ = ⟨tokens, c.token.toList, none⟩ := by
  have hopen : tokenizeChar ⟨tokens, c.start.toList, none⟩ '"' =
      ⟨tokens, c.start.toList, some '"'⟩ := rfl
  have hclose : tokenizeChar ⟨tokens, c.start.toList ++ c.text.toList, some '"'⟩ '"' =
      ⟨tokens, c.start.toList ++ c.text.toList, none⟩ := rfl
  have hquote : ("\"" : String).toList = ['"'] := by decide
  have htext : c.render.toList = c.start.toList ++ '"' :: (c.text.toList ++ ['"']) := by
    rw [Clause.render, String.toList_append, String.toList_append, String.toList_append, hquote,
      List.append_assoc, List.append_assoc, List.singleton_append]
  rw [htext, List.foldl_append, foldl_tokenizeChar_visible (start_visible c), List.nil_append,
    List.foldl_cons, hopen, List.foldl_append, foldl_tokenizeChar_quoted hc.quotable.noQuote,
    List.foldl_cons, List.foldl_nil, hclose, Clause.token, String.toList_append]

theorem token_ne_nil (hc : c.Valid) : c.token.toList ≠ [] := by
  rw [Clause.token, String.toList_append]
  refine List.append_ne_nil_of_right_ne_nil _ fun hnil => hc.quotable.ne_empty ?_
  rwa [← String.toList_eq_nil_iff]

def TokenizerState.finish (s : TokenizerState) : List String :=
  if s.current = [] then s.tokens else s.tokens ++ [String.ofList s.current]

theorem finish_render (hvalid : ∀ d ∈ c :: clauses, d.Valid) (tokens : List String) :
    ((render (c :: clauses)).toList.foldl tokenizeChar ⟨tokens, [], none⟩).finish =
      tokens ++ (c :: clauses).map Clause.token := by
  induction clauses generalizing c tokens with
  | nil =>
    have hc := hvalid c List.mem_cons_self
    rw [render, List.map_singleton, String.intercalate_singleton, foldl_tokenizeChar_render hc,
      TokenizerState.finish, if_neg (token_ne_nil hc), String.ofList_toList]
    rfl
  | cons d clauses ih =>
    have hc := hvalid c List.mem_cons_self
    have htext : render (c :: d :: clauses) = c.render ++ " " ++ render (d :: clauses) := by
      simp only [render, List.map_cons, String.intercalate_cons_cons]
    have hspace : tokenizeChar ⟨tokens, c.token.toList, none⟩ ' ' =
        ⟨tokens ++ [c.token], [], none⟩ := by
      have hstep : tokenizeChar ⟨tokens, c.token.toList, none⟩ ' ' =
          if c.token.toList = [] then ⟨tokens, c.token.toList, none⟩
          else ⟨tokens ++ [String.ofList c.token.toList], [], none⟩ := rfl
      rw [hstep, if_neg (token_ne_nil hc), String.ofList_toList]
    simp_all [String.toList_append, List.foldl_append, foldl_tokenizeChar_render, List.foldl_cons,
      List.append_assoc]

theorem tokenize_render (hne : clauses ≠ []) (hvalid : ∀ c ∈ clauses, c.Valid) :
    tokenize (render clauses) = clauses.map Clause.token := by
  cases clauses with
  | nil => exact absurd rfl hne
  | cons c clauses =>
    have htokens := finish_render hvalid []
    rw [List.nil_append] at htokens
    exact htokens

theorem trimmed_render (hne : clauses ≠ []) : trimmed (render clauses) = render clauses := by
  have hlast : ∃ front, (render clauses).toList = front ++ ['"'] := by
    induction clauses with
    | nil => exact absurd rfl hne
    | cons c clauses ih =>
      cases clauses with
      | nil => exact ⟨(c.start ++ "\"" ++ c.text).toList, by simp [render, Clause.render]⟩
      | cons d clauses =>
        obtain ⟨front, hfront⟩ := ih (List.cons_ne_nil d clauses)
        grind [render, String.intercalate_cons_cons, String.toList_append, List.append_assoc]
  have hhead : ∀ ch, (render clauses).toList.head? = some ch → isWhitespace ch = false := by
    cases clauses with
    | nil => exact absurd rfl hne
    | cons c clauses =>
      obtain ⟨tail, htail⟩ : ∃ tail, (render (c :: clauses)).toList =
          c.start.toList ++ '"' :: tail := by
        simp [render, Clause.render]
      intro ch hch
      rw [htail] at hch
      cases hstart : c.start.toList with
      | nil =>
        aesop
      | cons first rest =>
        grind [List.head?_cons, Option.some.injEq, start_visible, List.mem_cons_self]
  obtain ⟨front, hfront⟩ := hlast
  have htrim : trimWhile isWhitespace (render clauses).toList = (render clauses).toList := by
    refine trimWhile_eq_self hhead fun ch hch => ?_
    rw [hfront, List.getLast?_concat, Option.some.injEq] at hch
    rw [← hch]
    decide
  have htrimmed : trimmed (render clauses) =
      String.ofList (trimWhile isWhitespace (render clauses).toList) := rfl
  rw [htrimmed, htrim, String.ofList_toList]

/-! ### The parser -/

variable (env) in
def Clause.apply (query : SearchQuery VersionReq) : Clause → SearchQuery VersionReq
  | term text => { query with terms := query.terms ++ [env.toLowercase text] }
  | field .package op v => { query with
      packageFilter := some (op.getD (if v.toList.any isWhitespace then .equals else .contains),
        env.toLowercase v) }
  | field .digest op v => { query with
      digestFilter := some (op.getD (if v.toList.contains ':' then .equals else .contains),
        env.toLowercase v) }
  | field .version op v => { query with
      versionConstraint := some (versionConstraint env op v) }
  | field .repository _ v => { query with repositoryFilter := some (env.toLowercase v) }
  | field .type _ v => { query with typeFilter := some (env.toLowercase v) }
  | field .storage _ v => { query with storageFilter := some (env.toLowercase v) }

theorem stringFilter_of_mem (hop : op ∈ [none, some .equals, some .contains]) (exact : Bool) :
    stringFilter op exact f = .ok (op.getD (if exact then .equals else .contains)) := by
  aesop

theorem validateStringOperator_of_mem
    (hop : op ∈ [none, some .equals]) (query : SearchQuery VersionReq) :
    validateStringOperator op f query = .ok query := by
  simp only [List.mem_cons, List.not_mem_nil, or_false] at hop
  rcases hop with rfl | rfl <;> rfl

theorem readValue_of_legal (hlegal : f.legal op = true) (query : SearchQuery VersionReq) :
    readValue env query f op v = .ok (Clause.apply env query (.field f op v)) := by
  unfold readValue
  cases f with
  | package | digest =>
    simp only [stringFilter_of_mem (of_decide_eq_true hlegal)]
    rfl
  | version => rfl
  | repository | type | storage => exact validateStringOperator_of_mem (of_decide_eq_true hlegal) _

theorem readSegment_eq {segment : String} (hne : segment ≠ "") (query : SearchQuery VersionReq) :
    readSegment env query f segment =
      match readingOf env f segment with
      | .requirement req => .ok ({ query with versionConstraint := some (.semver req) }, none)
      | .operator op value =>
        if value = "" then .ok (query, some (.value f op))
        else (readValue env query f op value).map fun query => (query, none) := by
  rw [readSegment, if_neg hne, readingOf]
  grind

theorem readSegment_of_readAsWritten (hc : (Clause.field f op v).Valid)
    (hread : ReadAsWritten env (.field f op v)) (query : SearchQuery VersionReq) :
    readSegment env query f (Clause.operatorText op ++ v) =
      .ok (Clause.apply env query (.field f op v), none) := by
  have hv : v ≠ "" := hc.quotable.ne_empty
  have hne : Clause.operatorText op ++ v ≠ "" := by
    intro hempty
    rw [← String.toList_eq_nil_iff, String.toList_append, List.append_eq_nil_iff] at hempty
    exact hv (String.toList_eq_nil_iff.mp hempty.2)
  rw [readSegment_eq hne]
  rcases hread with hread | ⟨rfl, rfl, req, hreq, hread⟩
  · rw [hread]
    simp only [if_neg hv, readValue_of_legal (hc.legal f op v rfl) query]
    rfl
  grind [versionConstraint, Clause.apply]

theorem trimmed_operatorText_append (hv : Quotable v) (op : Option Operator) :
    trimmed (Clause.operatorText op ++ v) = Clause.operatorText op ++ v := by
  have hne : v.toList ≠ [] := fun hnil => hv.ne_empty (String.toList_eq_nil_iff.mp hnil)
  have htrim : trimWhile isWhitespace (Clause.operatorText op ++ v).toList =
      (Clause.operatorText op ++ v).toList := by
    refine trimWhile_eq_self (fun ch hch => ?_) fun ch hch => ?_
    · cases op with
      | none =>
        have hsegment : Clause.operatorText none ++ v = v := String.empty_append
        rw [hsegment] at hch
        exact hv.head hch
      | some op =>
        rw [head?_operatorText] at hch
        cases op <;> cases hch <;> decide
    · rw [String.toList_append, List.getLast?_append_of_ne_nil _ hne] at hch
      exact hv.last hch
  have htrimmed : trimmed (Clause.operatorText op ++ v) =
      String.ofList (trimWhile isWhitespace (Clause.operatorText op ++ v).toList) := rfl
  rw [htrimmed, htrim, String.ofList_toList]

theorem parseField_name (hnames : ∀ f : Field, env.toLowercase f.name = f.name) (f : Field) :
    parseField env f.name = .ok f := by
  rw [parseField, hnames]
  cases f <;> rfl

theorem parseTokens_token (hnames : ∀ f : Field, env.toLowercase f.name = f.name)
    (hc : c.Valid) (hread : ReadAsWritten env c) (query : SearchQuery VersionReq)
    (rest : List String) : parseTokens env query none (c.token :: rest) =
      parseTokens env (c.apply env query) none rest := by
  cases c with
  | term text =>
    have htoken : (Clause.term text).token = text := String.empty_append
    rw [htoken, parseTokens, hread]
    rfl
  | field f op v =>
    have htoken : (Clause.field f op v).token.toList =
        f.name.toList ++ ':' :: (Clause.operatorText op ++ v).toList := by
      simp [Clause.token, Clause.start, Clause.text]
    have hcolon : ':' ∉ f.name.toList := by cases f <;> decide
    have hsplit : splitOnce [':'] (Clause.field f op v).token.toList =
        some (f.name.toList, (Clause.operatorText op ++ v).toList) := by
      rw [htoken]
      exact splitOnce_append hcolon _
    have hne : Clause.operatorText op ++ v ≠ "" := by
      intro hempty
      rw [← String.toList_eq_nil_iff, String.toList_append, List.append_eq_nil_iff] at hempty
      exact hc.quotable.ne_empty (String.toList_eq_nil_iff.mp hempty.2)
    have htrimmed : trimmed (Clause.operatorText op ++ v) = Clause.operatorText op ++ v :=
      trimmed_operatorText_append hc.quotable op
    simp_all [parseTokens, String.ofList_toList, parseField_name, if_neg,
      readSegment_of_readAsWritten]

theorem parseTokens_map_token (hnames : ∀ f : Field, env.toLowercase f.name = f.name)
    (hvalid : ∀ c ∈ clauses, c.Valid)
    (hread : ∀ c ∈ clauses, ReadAsWritten env c) (query : SearchQuery VersionReq) :
    parseTokens env query none (clauses.map Clause.token) =
      .ok (clauses.foldl (Clause.apply env) query) := by
  induction clauses generalizing query with
  | nil => rw [List.map_nil, parseTokens, List.foldl_nil]
  | cons c clauses ih =>
    grind [parseTokens_token]

/-! ### The last clause on each field -/

theorem lastClause_concat (f : Field) (clauses : List Clause) (c : Clause) :
    lastClause f (clauses ++ [c]) = (c.on f).or (lastClause f clauses) := by
  simp [lastClause, List.filterMap_append, List.getLast?_append]

theorem expected_concat (clauses : List Clause) (c : Clause) :
    expected env (clauses ++ [c]) = c.apply env (expected env clauses) := by
  have hlast : ∀ f, lastClause f (clauses ++ [c]) = (c.on f).or (lastClause f clauses) :=
    fun f => lastClause_concat f clauses c
  unfold expected
  simp only [hlast, List.filterMap_append]
  cases c with
  | term text => simp [Clause.on, Clause.apply]
  | field f op v => cases f <;> simp [Clause.on, Clause.apply]

theorem foldl_apply_eq_expected (clauses : List Clause) :
    clauses.foldl (Clause.apply env) .empty = expected env clauses := by
  induction clauses using List.reverseRecOn with
  | nil => rfl
  | append_singleton clauses c ih => rw [List.foldl_concat, ih, expected_concat]

/-- The query of quoted clauses is read back, each clause as it is written, iff nothing in them
looks like a field or an operator. -/
theorem parseSearchQuery_render_iff (hnames : ∀ f : Field, env.toLowercase f.name = f.name)
    {clauses : List Clause} (hne : clauses ≠ []) (hvalid : ∀ c ∈ clauses, c.Valid) :
    (parseSearchQuery env (render clauses) = .ok (expected env clauses) ∧
        ∀ c ∈ clauses, ReadAsWritten env c) ↔ ∀ c ∈ clauses, Plain env c := by
  constructor
  · rintro ⟨-, hread⟩ c hc
    exact (readAsWritten_iff_plain (hvalid c hc)).mp (hread c hc)
  · intro hplain
    have hread : ∀ c ∈ clauses, ReadAsWritten env c := fun c hc =>
      (readAsWritten_iff_plain (hvalid c hc)).mpr (hplain c hc)
    refine ⟨?_, hread⟩
    have hnonempty : render clauses ≠ "" := by
      intro hempty
      have htokens := tokenize_render hne hvalid
      rw [hempty] at htokens
      exact hne (List.map_eq_nil_iff.mp htokens.symm)
    rw [parseSearchQuery, trimmed_render hne, if_neg hnonempty, tokenize_render hne hvalid,
      parseTokens_map_token hnames hvalid hread, foldl_apply_eq_expected]

/-! ### Examples of queries -/

theorem toLowercase_name (f : Field) : numbersEnvironment.toLowercase f.name = f.name := by
  cases f <;> decide

/-- A term of two words, a lower bound on the version, and a package of two words. -/
def webServer : List Clause :=
  [.term "web server", .field .version (some .greaterOrEqual) "2.0",
    .field .package none "Core Kit"]

theorem valid_webServer : ∀ c ∈ webServer, c.Valid := by
  simp only [webServer, List.forall_mem_cons, List.not_mem_nil, false_implies, implies_true,
    and_true]
  refine ⟨⟨⟨by decide, by decide, by decide⟩, fun _ _ _ h => nomatch h⟩,
    ⟨⟨by decide, by decide, by decide⟩, ?_⟩, ⟨⟨by decide, by decide, by decide⟩, ?_⟩⟩
  · rintro _ _ _ ⟨⟩
    decide
  · rintro _ _ _ ⟨⟩
    decide

theorem plain_webServer : ∀ c ∈ webServer, Plain numbersEnvironment c := by
  simp_all [webServer, List.not_mem_nil, implies_true, operatorStarts, Plain, numbersEnvironment]

theorem parseSearchQuery_render_webServer :
    parseSearchQuery numbersEnvironment (render webServer) =
        .ok (expected numbersEnvironment webServer) ∧
      ∀ c ∈ webServer, ReadAsWritten numbersEnvironment c :=
  (parseSearchQuery_render_iff toLowercase_name (List.cons_ne_nil _ _) valid_webServer).mpr
    plain_webServer

/-- A quoted term with a colon is taken for a field. -/
theorem not_parseSearchQuery_render_colon :
    ¬ ∀ (env : SearchEnvironment (List ℕ) Unit) (clauses : List Clause),
      (∀ f : Field, env.toLowercase f.name = f.name) → clauses ≠ [] →
      (∀ c ∈ clauses, c.Valid) →
      parseSearchQuery env (render clauses) = .ok (expected env clauses) ∧
        ∀ c ∈ clauses, ReadAsWritten env c := by
  intro hall
  have hvalid : ∀ c ∈ [Clause.term "std:sync"], c.Valid := by
    rintro c hc
    rw [List.mem_singleton.mp hc]
    exact ⟨⟨by decide, by decide, by decide⟩, fun _ _ _ h => nomatch h⟩
  have hread := (hall numbersEnvironment _ toLowercase_name (List.cons_ne_nil _ _) hvalid).1
  have herror : parseSearchQuery numbersEnvironment (render [.term "std:sync"]) =
      .error (.unknownField "std") := by rfl
  rw [herror] at hread
  cases hread

end Pkgly.Search
