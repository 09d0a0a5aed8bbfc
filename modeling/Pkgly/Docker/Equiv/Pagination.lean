import Pkgly.Docker.Pagination

/-!
# A listing is read completely

Whoever follows the links of a listing meets every name that is there throughout exactly once, in
order, and comes to an end if the listing does not change (`readPages_complete`).  An empty name
would send the reader back to the start (`readPages_empty_name`).
-/

namespace Pkgly.Docker

/-! ### Queries -/

theorem parseU64_toString {n : ℕ} (h : n < 2 ^ 64) : parseU64 (toString n).toList = some n := by
  have hdigits : (toString n).toList = Nat.toDigits 10 n := by
    rw [Nat.toString_eq_ofList_toDigits, String.toList_ofList]
  have hall : ∀ c ∈ Nat.toDigits 10 n, c.isDigit = true := fun c hc =>
    Nat.isDigit_of_mem_toDigits (by decide) (by decide) hc
  have hvalue : digitsValue (Nat.toDigits 10 n) = n := by
    have hof := Nat.ofDigitChars_ten_toDigits (n := n)
    rw [Nat.ofDigitChars_eq_foldl] at hof
    exact hof
  have hne := Nat.toDigits_ne_nil (n := n) (b := 10)
  rw [hdigits]
  generalize Nat.toDigits 10 n = digits at hall hvalue hne
  unfold parseU64
  cases digits with
  | nil => exact absurd rfl hne
  | cons c digits =>
    have hplus : c ≠ '+' := by
      rintro rfl
      have := hall '+' List.mem_cons_self
      cases this
    grind

variable {form : FormUrlencoded} {limit : ℕ}

theorem parsePaginationParams_first {query : String} (hpos : 1 ≤ limit)
    (hle : limit ≤ maxPaginationPageSize) (hparse : form.parse query = [("n", toString limit)]) :
    parsePaginationParams form (some query) = some ⟨some limit, none⟩ := by
  have hsmall : limit < 2 ^ 64 := lt_of_le_of_lt hle (by decide)
  have hread := parseU64_toString hsmall
  have hne : limit ≠ 0 := by omega
  unfold parsePaginationParams
  rw [Option.map_some, Option.getD_some, hparse]
  simp only [List.foldlM_cons, List.foldlM_nil, parsePaginationPair, hread, Option.bind_eq_bind, Option.bind_some, if_neg hne,
    Nat.min_eq_left hle, Option.pure_def]

theorem parsePaginationParams_nextQuery {last : String} (hlast : last ≠ "") (hpos : 1 ≤ limit)
    (hle : limit ≤ maxPaginationPageSize)
    (hparse : form.parse (nextQuery form ⟨last, limit⟩) =
      [("last", last), ("n", toString limit)]) :
    parsePaginationParams form (some (nextQuery form ⟨last, limit⟩)) =
      some ⟨some limit, some last⟩ := by
  have hsmall : limit < 2 ^ 64 := lt_of_le_of_lt hle (by decide)
  have hread := parseU64_toString hsmall
  have hne : limit ≠ 0 := by omega
  unfold parsePaginationParams
  rw [Option.map_some, Option.getD_some, hparse]
  simp only [List.foldlM_cons, List.foldlM_nil, parsePaginationPair, hread, Option.bind_eq_bind, Option.bind_some, if_neg hne,
    if_neg hlast, Nat.min_eq_left hle, Option.pure_def]

/-! ### One page -/

variable {all : List String}

def namesAfter (last : Option String) (all : List String) : List String :=
  all.filter fun name => decide (∀ l ∈ last, l < name)

variable {last : Option String}

theorem mem_namesAfter {name : String} :
    name ∈ namesAfter last all ↔ name ∈ all ∧ ∀ l ∈ last, l < name := by
  rw [namesAfter, List.mem_filter, decide_eq_true_eq]

theorem drop_pageStart (hsorted : all.Pairwise (· < ·)) (last : Option String) :
    all.drop (pageStart all last) = namesAfter last all := by
  cases last with
  | none =>
    simp_all [namesAfter, decide_eq_true, pageStart]
  | some last =>
    have hafter : namesAfter (some last) all = all.filter fun name => decide (last < name) := by
      refine List.filter_congr fun name _ => ?_
      rw [decide_eq_decide]
      simp
    rw [pageStart, upperBound_binarySearch hsorted, drop_countP_le hsorted, hafter]

theorem paginateBySearch_eq (hsorted : all.Pairwise (· < ·)) (last : Option String)
    (hpos : 1 ≤ limit) : paginateBySearch all ⟨some limit, last⟩ =
      ((namesAfter last all).take limit,
        if limit < (namesAfter last all).length then
          ((namesAfter last all).take limit).getLast?.map fun last => ⟨last, limit⟩
        else none) := by
  have hdrop := drop_pageStart hsorted last
  generalize hstart : pageStart all last = start at hdrop
  have hlength : (namesAfter last all).length = all.length - start := by
    rw [← hdrop, List.length_drop]
  unfold paginateBySearch
  simp only [hstart]
  by_cases hempty : all.isEmpty = true
  · grind
  rw [if_neg hempty]
  by_cases hend : all.length ≤ start
  · simp_all
  rw [if_neg hend]
  have htake : (all.drop start).take (min (start + limit) all.length - start) =
      (namesAfter last all).take limit := by grind
  have hmore : (min (start + limit) all.length < all.length ∧
      (namesAfter last all).take limit ≠ []) ↔ limit < (namesAfter last all).length := by
    rw [hlength]
    constructor
    · rintro ⟨hlt, -⟩
      omega
    · intro hlt
      refine ⟨by omega, fun hnil => ?_⟩
      have hlen := congrArg List.length hnil
      rw [List.length_take, hlength, List.length_nil] at hlen
      omega
  simp only [htake, hmore]

theorem listPage_eq (hsorted : all.Pairwise (· < ·)) {query : String}
    (hpos : 1 ≤ limit) (hquery : parsePaginationParams form (some query) = some ⟨some limit, last⟩) :
    listPage form all (some query) = some ((namesAfter last all).take limit,
      if limit < (namesAfter last all).length then
        ((namesAfter last all).take limit).getLast?.map fun last => nextQuery form ⟨last, limit⟩
      else none) := by
  unfold listPage
  rw [hquery, Option.map_some, paginateBySearch_eq hsorted last hpos]
  grind

theorem exists_getLast?_take {rest : List String} (hpos : 1 ≤ limit) (hmore : limit < rest.length) :
    ∃ c, (rest.take limit).getLast? = some c := by
  refine ⟨_, List.getLast?_eq_some_getLast fun hnil => ?_⟩
  have hlen := congrArg List.length hnil
  rw [List.length_take, List.length_nil] at hlen
  omega

theorem namesAfter_getLast (hsorted : all.Pairwise (· < ·)) {c : String}
    (hc : ((namesAfter last all).take limit).getLast? = some c) :
    (∀ name ∈ (namesAfter last all).take limit, name ≤ c) ∧
      namesAfter (some c) all = (namesAfter last all).drop limit := by
  have hrest : (namesAfter last all).Pairwise (· < ·) := hsorted.filter _
  have hmem := (mem_namesAfter.mp (List.mem_of_mem_take (List.mem_of_getLast? hc))).2
  obtain ⟨init, hinit⟩ := List.getLast?_eq_some_iff.mp hc
  have hsplit : (namesAfter last all).take limit ++ (namesAfter last all).drop limit =
      namesAfter last all := List.take_append_drop _ _
  obtain ⟨htake, -, hacross⟩ := List.pairwise_append.mp (hsplit.symm ▸ hrest)
  have hle : ∀ name ∈ (namesAfter last all).take limit, name ≤ c := by grind [List.mem_singleton_self]
  refine ⟨hle, ?_⟩
  have hfilter : namesAfter (some c) all =
      (namesAfter last all).filter fun name => decide (c < name) := by
    rw [namesAfter, namesAfter, List.filter_filter]
    refine List.filter_congr fun name _ => ?_
    rw [← Bool.decide_and, decide_eq_decide]
    constructor
    · intro h
      exact ⟨h c rfl, fun l hl => (hmem l hl).trans (h c rfl)⟩
    · rintro ⟨h, -⟩ l hl
      cases hl
      exact h
  have hnone : ((namesAfter last all).take limit).filter (fun name => decide (c < name)) = [] :=
    List.filter_eq_nil_iff.mpr fun name hname hlt =>
      not_lt.mpr (hle name hname) (of_decide_eq_true hlt)
  have hall : ((namesAfter last all).drop limit).filter (fun name => decide (c < name)) =
      (namesAfter last all).drop limit :=
    List.filter_eq_self.mpr fun name hname =>
      decide_eq_true (hacross c (List.mem_of_getLast? hc) name hname)
  rw [hfilter]
  conv_lhs => rw [← hsplit]
  rw [List.filter_append, hnone, hall, List.nil_append]

/-! ### All pages -/

variable {lists : ℕ → List String}

theorem readPages_spec (hsorted : ∀ page, (lists page).Pairwise (· < ·))
    (hnames : ∀ page, "" ∉ lists page) (hpos : 1 ≤ limit) (hle : limit ≤ maxPaginationPageSize)
    (hform : ∀ page, ∀ name ∈ lists page, form.parse (nextQuery form ⟨name, limit⟩) =
      [("last", name), ("n", toString limit)])
    (fuel : ℕ) {page : ℕ} {query : String} {pages : List (List String)}
    (hquery : parsePaginationParams form (some query) = some ⟨some limit, last⟩)
    (h : readPages form lists fuel page (some query) = some pages) :
    pages.flatten.Pairwise (· < ·) ∧ (∀ name ∈ pages.flatten, ∀ l ∈ last, l < name) ∧
      ∀ name, (∀ l ∈ last, l < name) → (∀ i < pages.length, name ∈ lists (page + i)) →
        name ∈ pages.flatten := by
  induction fuel generalizing page query last pages with
  | zero => cases h
  | succ fuel ih =>
    have hrest : (namesAfter last (lists page)).Pairwise (· < ·) := (hsorted page).filter _
    unfold readPages at h
    rw [listPage_eq (hsorted page) hpos hquery, Option.bind_eq_bind, Option.bind_some] at h
    by_cases hmore : limit < (namesAfter last (lists page)).length
    · obtain ⟨c, hc⟩ := exists_getLast?_take hpos hmore
      have hcmem := mem_namesAfter.mp (List.mem_of_mem_take (List.mem_of_getLast? hc))
      have hne : c ≠ "" := fun hempty => hnames page (hempty ▸ hcmem.1)
      obtain ⟨hbelow, hafter⟩ := namesAfter_getLast (hsorted page) hc
      simp only [if_pos hmore, hc, Option.map_some] at h
      obtain ⟨rest, hrec, hpages⟩ := Option.bind_eq_some_iff.mp h
      obtain rfl := Option.some.inj hpages
      obtain ⟨hincreasing, hlater, hcomplete⟩ := ih
        (parsePaginationParams_nextQuery hne hpos hle (hform page c hcmem.1)) hrec
      rw [List.flatten_cons]
      refine ⟨List.pairwise_append.mpr ⟨hrest.take, hincreasing, ?_⟩, ?_, ?_⟩
      · intro name hname next hnext
        exact lt_of_le_of_lt (hbelow name hname) (hlater next hnext c rfl)
      · intro name hname l hl
        rcases List.mem_append.mp hname with hname | hname
        · exact (mem_namesAfter.mp (List.mem_of_mem_take hname)).2 l hl
        · exact (hcmem.2 l hl).trans (hlater name hname c rfl)
      · intro name hname hlisted
        have hhere : name ∈ namesAfter last (lists page) :=
          mem_namesAfter.mpr ⟨hlisted 0 (Nat.succ_pos _), hname⟩
        rw [← List.take_append_drop limit (namesAfter last (lists page)), ← hafter] at hhere
        rcases List.mem_append.mp hhere with hhere | hhere
        · exact List.mem_append_left _ hhere
        · refine List.mem_append_right _ (hcomplete name ?_ fun i hi => ?_)
          · exact (mem_namesAfter.mp hhere).2
          · have hlisted' := hlisted (i + 1) (Nat.succ_lt_succ hi)
            rw [Nat.add_right_comm, Nat.add_assoc]
            exact hlisted'
    · simp only [if_neg hmore] at h
      obtain rfl := Option.some.inj h
      rw [List.flatten_singleton, List.take_of_length_le (not_lt.mp hmore)]
      refine ⟨hrest, fun name hname => (mem_namesAfter.mp hname).2, fun name hname hlisted => ?_⟩
      exact mem_namesAfter.mpr ⟨hlisted 0 Nat.one_pos, hname⟩

theorem readPages_constant (hsorted : all.Pairwise (· < ·)) (hnames : "" ∉ all) (hpos : 1 ≤ limit)
    (hle : limit ≤ maxPaginationPageSize)
    (hform : ∀ name ∈ all, form.parse (nextQuery form ⟨name, limit⟩) =
      [("last", name), ("n", toString limit)])
    (hlists : ∀ page, lists page = all) (fuel : ℕ) {page : ℕ} {query : String}
    {last : Option String}
    (hquery : parsePaginationParams form (some query) = some ⟨some limit, last⟩)
    (hfuel : (namesAfter last all).length < fuel) :
    ∃ pages, readPages form lists fuel page (some query) = some pages ∧
      pages.flatten = namesAfter last all := by
  induction fuel generalizing page query last with
  | zero => exact absurd hfuel (Nat.not_lt_zero _)
  | succ fuel ih =>
    unfold readPages
    rw [hlists, listPage_eq hsorted hpos hquery, Option.bind_eq_bind, Option.bind_some]
    by_cases hmore : limit < (namesAfter last all).length
    · obtain ⟨c, hc⟩ := exists_getLast?_take hpos hmore
      have hcmem := (mem_namesAfter.mp (List.mem_of_mem_take (List.mem_of_getLast? hc))).1
      have hne : c ≠ "" := fun hempty => hnames (hempty ▸ hcmem)
      obtain ⟨-, hafter⟩ := namesAfter_getLast hsorted hc
      have hshorter : (namesAfter (some c) all).length < fuel := by
        rw [hafter, List.length_drop]
        omega
      obtain ⟨rest, hrec, hflat⟩ :=
        @ih (page + 1) _ _ (parsePaginationParams_nextQuery hne hpos hle (hform c hcmem)) hshorter
      simp_all
    · refine ⟨[namesAfter last all], ?_, List.flatten_singleton⟩
      simp only [if_neg hmore, List.take_of_length_le (not_lt.mp hmore), Option.pure_def]

/-- **A listing of names is read completely**: whoever starts with a request for pages of a length
and follows the links meets every name that is always there exactly once, in order, and all of them
after a number of pages if the listing does not change. -/
theorem readPages_complete (form : FormUrlencoded) (lists : ℕ → List String) (first : String)
    (limit : ℕ) (hsorted : ∀ page, (lists page).Pairwise (· < ·))
    (hnames : ∀ page, "" ∉ lists page) (hpos : 1 ≤ limit) (hle : limit ≤ 1000)
    (hfirst : form.parse first = [("n", toString limit)])
    (hform : ∀ page, ∀ name ∈ lists page, form.parse (nextQuery form ⟨name, limit⟩) =
      [("last", name), ("n", toString limit)]) :
    (∀ fuel pages, readPages form lists fuel 0 (some first) = some pages →
      pages.flatten.Pairwise (· < ·) ∧
        ∀ name, (∀ page < pages.length, name ∈ lists page) → pages.flatten.count name = 1) ∧
    ((∀ page, lists page = lists 0) → ∃ fuel pages,
      readPages form lists fuel 0 (some first) = some pages ∧ pages.flatten = lists 0) := by
  have hquery : parsePaginationParams form (some first) = some ⟨some limit, none⟩ :=
    parsePaginationParams_first hpos hle hfirst
  constructor
  · intro fuel pages h
    obtain ⟨hincreasing, -, hcomplete⟩ :=
      readPages_spec hsorted hnames hpos hle hform fuel hquery h
    refine ⟨hincreasing, fun name hname => ?_⟩
    have hmem : name ∈ pages.flatten := by
      refine hcomplete name (fun l hl => by cases hl) fun i hi => ?_
      rw [Nat.zero_add]
      exact hname i hi
    exact List.count_eq_one_of_mem (hincreasing.imp fun hlt => hlt.ne) hmem
  · intro hlists
    have hfuel : (namesAfter none (lists 0)).length < (namesAfter none (lists 0)).length + 1 :=
      Nat.lt_succ_self _
    obtain ⟨pages, hpages, hflat⟩ := @readPages_constant form limit (lists 0) lists (hsorted 0)
      (hnames 0) hpos hle (hform 0) hlists _ 0 first none hquery hfuel
    refine ⟨_, pages, hpages, hflat.trans ?_⟩
    exact List.filter_eq_self.mpr fun name _ => decide_eq_true fun l hl => by cases hl

/-! ### Two listings -/

/-- The queries of names that need no escaping. -/
def plainForm : FormUrlencoded where
  parse query := ((query.toList.splitOn '&').filter (!·.isEmpty)).map fun pair =>
    match splitOnce ['='] pair with
    | some (name, value) => (String.ofList name, String.ofList value)
    | none => (String.ofList pair, "")
  serialize pairs := "&".intercalate (pairs.map fun pair => pair.1 ++ ("=" ++ pair.2))

/-- `alpha` is removed and `beta` is added after the first page. -/
def changingNames : ℕ → List String
  | 0 => ["alpha", "charlie", "delta"]
  | _ => ["beta", "charlie", "delta"]

theorem readPages_complete_changingNames : ∃ pages,
    readPages plainForm changingNames 4 0 (some "n=1") = some pages ∧
      pages.flatten.count "delta" = 1 := by
  have hmem : ∀ page, "delta" ∈ changingNames page := by
    intro page
    cases page with
    | zero => decide
    | succ page => exact (by decide : "delta" ∈ ["beta", "charlie", "delta"])
  have hrun : (readPages plainForm changingNames 4 0 (some "n=1")).isSome = true := by
    decide
  obtain ⟨pages, hpages⟩ := Option.isSome_iff_exists.mp hrun
  have hcomplete := (readPages_complete plainForm changingNames "n=1" 1 ?_ ?_ ?_ ?_ ?_ ?_).1
  · exact ⟨pages, hpages, (hcomplete 4 pages hpages).2 "delta" fun page _ => hmem page⟩
  · intro page
    cases page with
    | zero => decide
    | succ page => exact (by decide : ["beta", "charlie", "delta"].Pairwise (· < ·))
  · intro page
    cases page with
    | zero => decide
    | succ page => exact (by decide : "" ∉ ["beta", "charlie", "delta"])
  · decide
  · decide
  · decide
  · intro page
    cases page with
    | zero => decide
    | succ page =>
      exact (by decide : ∀ name ∈ ["beta", "charlie", "delta"],
        plainForm.parse (nextQuery plainForm ⟨name, 1⟩) = [("last", name), ("n", toString 1)])

/-- An empty name is no place to go on from. -/
theorem readPages_empty_name : ¬ ∀ (form : FormUrlencoded) (all : List String) (first : String)
    (limit : ℕ), all.Pairwise (· < ·) → 1 ≤ limit → limit ≤ 1000 →
    form.parse first = [("n", toString limit)] →
    (∀ name ∈ all, form.parse (nextQuery form ⟨name, limit⟩) =
      [("last", name), ("n", toString limit)]) →
    ∃ fuel pages, readPages form (fun _ => all) fuel 0 (some first) = some pages ∧
      pages.flatten = all := by
  intro hall
  obtain ⟨fuel, pages, hpages, -⟩ := hall plainForm ["", "alpha"] "n=1" 1 (by decide) (by decide)
    (by decide) (by decide) (by decide)
  have hfirst : listPage plainForm ["", "alpha"] (some "n=1") = some ([""], some "last=&n=1") := by
    decide
  have hnext : listPage plainForm ["", "alpha"] (some "last=&n=1") =
      some ([""], some "last=&n=1") := by
    decide
  have hnever : ∀ fuel page query, query = "n=1" ∨ query = "last=&n=1" →
      readPages plainForm (fun _ => ["", "alpha"]) fuel page (some query) = none := by
    intro fuel
    induction fuel with
    | zero => exact fun _ _ _ => rfl
    | succ fuel ih =>
      intro page query hquery
      have hpage : listPage plainForm ["", "alpha"] (some query) =
          some ([""], some "last=&n=1") := by
        rcases hquery with rfl | rfl
        · exact hfirst
        · exact hnext
      unfold readPages
      rw [hpage, Option.bind_eq_bind, Option.bind_some]
      simp only [ih (page + 1) "last=&n=1" (.inr rfl)]
      rfl
  rw [hnever fuel 0 "n=1" (.inl rfl)] at hpages
  cases hpages

end Pkgly.Docker
