import Mathlib.Data.Bool.AllAny
import Pkgly.Docker.Challenge

/-!
# Correctness of the scopes of a challenge

`parseScopes_dockerRepositoryScope_iff`: the scope that `dockerRepositoryScope` makes of a request
path names the storage and the repository of the request to the token endpoint if and only if
`ReadsAsOne` holds of them and of what the path adds.  For a path that adds no colon and no white
space this depends on the names alone (`readsAsOne_iff_of_clean`): the reader takes a storage of the
name `repositories` for the start of a path.
-/

namespace Pkgly.Docker

/-! ### Splitting -/

theorem splitOnP_append_of_forall {p : Char → Bool} {a : List Char} (h : ∀ x ∈ a, p x = false)
    (b : List Char) : (a ++ b).splitOnP p = (b.splitOnP p).modifyHead (a ++ ·) := by
  induction a with
  | nil =>
    rw [List.nil_append]
    cases b.splitOnP p <;> rfl
  | cons c a ih =>
    rw [List.cons_append, List.splitOnP_cons_eq_if_modifyHead, h c List.mem_cons_self,
      ih fun x hx => h x (List.mem_cons_of_mem c hx)]
    cases b.splitOnP p <;> rfl

theorem splitOn_append_of_forall {sep : Char} {a : List Char} (h : sep ∉ a) (b : List Char) :
    (a ++ b).splitOn sep = (b.splitOn sep).modifyHead (a ++ ·) := by
  rw [List.splitOn_eq_splitOnP, List.splitOn_eq_splitOnP]
  refine splitOnP_append_of_forall (fun x hx => ?_) b
  rw [beq_eq_false_iff_ne]
  rintro rfl
  exact h hx

/-! ### Reading one scope -/

variable {word : List Char}

theorem parseScope_of_kind {kind name actions : List Char}
    (hpieces : word.splitOn ':' = [kind, name, actions]) (hkind : kind ≠ "repository".toList) :
    parseScope (String.ofList word) = .ok none := by
  have hne : String.ofList kind ≠ "repository" := by
    intro heq
    refine hkind ?_
    rw [← heq, String.toList_ofList]
  rw [parseScope, pieces, String.toList_ofList, hpieces]
  exact if_pos hne

theorem exists_of_parseScope_none (h : parseScope (String.ofList word) = .ok none) :
    ∃ kind name actions, word.splitOn ':' = [kind, name, actions] ∧
      kind ≠ "repository".toList := by
  rw [parseScope, pieces, String.toList_ofList] at h
  rcases hpieces : word.splitOn ':' with
    _ | ⟨kind, _ | ⟨name, _ | ⟨actions, _ | ⟨more, rest⟩⟩⟩⟩ <;> rw [hpieces] at h
  · cases h
  · cases h
  · cases h
  · refine ⟨kind, name, actions, rfl, ?_⟩
    rintro rfl
    grind
  · cases h

theorem exists_of_parseScope_some {scope : ParsedScope}
    (h : parseScope (String.ofList word) = .ok (some scope)) :
    ∃ name actions, word.splitOn ':' = ["repository".toList, name, actions] := by
  rw [parseScope, pieces, String.toList_ofList] at h
  rcases hpieces : word.splitOn ':' with
    _ | ⟨kind, _ | ⟨name, _ | ⟨actions, _ | ⟨more, rest⟩⟩⟩⟩ <;> rw [hpieces] at h
  · cases h
  · cases h
  · cases h
  · refine ⟨name, actions, ?_⟩
    by_cases hkind : String.ofList kind = "repository"
    · rw [← hkind, String.toList_ofList]
    grind
  · cases h

theorem parseScope_repository {name actions : List Char}
    (hpieces : word.splitOn ':' = ["repository".toList, name, actions]) :
    parseScope (String.ofList word) =
      match (if (segments '/' (String.ofList name)).head? = some "repositories" then
          (segments '/' (String.ofList name)).tail else segments '/' (String.ofList name)) with
      | storage :: repository :: _ =>
        .ok (some ⟨String.ofList word, storage, repository,
          (pieces ',' (String.ofList actions)).foldl parseAction []⟩)
      | _ => .error (.invalidScope (String.ofList word)) := by
  rw [parseScope, pieces, String.toList_ofList, hpieces]
  exact if_neg (fun h => h String.ofList_toList)

/-! ### Reading all scopes -/

theorem filterMapM_eq_nil_iff {α β ε : Type} {f : α → Except ε (Option β)} {l : List α} :
    l.filterMapM f = .ok [] ↔ ∀ x ∈ l, f x = .ok none := by
  induction l with
  | nil =>
    constructor
    · rintro - x ⟨⟩
    · intro _
      rfl
  | cons a l ih =>
    rw [List.filterMapM_cons, List.forall_mem_cons, ← ih]
    cases hfirst : f a with
    | error e =>
      constructor
      · rintro ⟨⟩
      · rintro ⟨⟨⟩, -⟩
    | ok r =>
      cases r with
      | none =>
        constructor
        · intro h
          exact ⟨rfl, h⟩
        · exact And.right
      | some b =>
        cases hrest : l.filterMapM f with
        | error e =>
          simp [bind, Except.bind]
        | ok rest =>
          simp [bind, Except.bind, pure, Except.pure]

theorem filterMapM_eq_singleton_iff {α β ε : Type} {f : α → Except ε (Option β)} {a : α} {b : β}
    {l : List α} (ha : f a ≠ .ok none) :
    (a :: l).filterMapM f = .ok [b] ↔ f a = .ok (some b) ∧ ∀ x ∈ l, f x = .ok none := by
  rw [List.filterMapM_cons, ← filterMapM_eq_nil_iff]
  cases hfirst : f a with
  | error e =>
    constructor
    · rintro ⟨⟩
    · rintro ⟨⟨⟩, -⟩
  | ok r =>
    cases r with
    | none => exact absurd hfirst ha
    | some b' =>
      cases hrest : l.filterMapM f with
      | error e => simp [bind, Except.bind]
      | ok rest => simp [bind, Except.bind, pure, Except.pure]

/-! ### The round trip -/

def IsScopeName (name : String) : Prop :=
  name ≠ "" ∧ ∀ c ∈ name.toList, c ≠ '/' ∧ c ≠ ':' ∧ isWhitespace c = false

instance (name : String) : Decidable (IsScopeName name) :=
  -- one character after another, not all characters that there are
  haveI : Decidable (∀ c ∈ name.toList, c ≠ '/' ∧ c ≠ ':' ∧ isWhitespace c = false) :=
    List.decidableBAll _ _
  inferInstanceAs (Decidable (_ ∧ _))

/-- What a path adds to the names leaves them as they are: it is read within one word that has no
colon of its own, the words after it are scopes of another type, and the storage is not taken for
the start of a path. -/
def ReadsAsOne (storage repository : String) (suffix : List Char) : Prop :=
  ∃ word others below actions,
    (suffix ++ ":pull".toList).splitOnP isWhitespace = word :: others ∧
    word.splitOn ':' = [below, actions] ∧
    (storage ≠ "repositories" ∨
      repository = "repositories" ∧
        (segments '/' (String.ofList below)).head? = some "repositories") ∧
    ∀ other ∈ others, other ≠ [] → ∃ kind name actions,
      other.splitOn ':' = [kind, name, actions] ∧ kind ≠ "repository".toList

theorem readsAsOne_iff_of_clean {storage repository : String} {suffix : List Char}
    (hclean : ∀ c ∈ suffix, c ≠ ':' ∧ isWhitespace c = false) :
    ReadsAsOne storage repository suffix ↔ storage ≠ "repositories" ∨
      repository = "repositories" ∧
        (segments '/' (String.ofList suffix)).head? = some "repositories" := by
  have hcolon : ':' ∉ suffix := fun h => (hclean ':' h).1 rfl
  have hpull : ∀ c ∈ ":pull".toList, isWhitespace c = false :=
    List.all_iff_forall_prop.mp (by decide)
  have hwords : (suffix ++ ":pull".toList).splitOnP isWhitespace = [suffix ++ ":pull".toList] := by
    refine List.splitOnP_eq_singleton fun c hc => ?_
    rcases List.mem_append.mp hc with hc | hc
    · exact (hclean c hc).2
    · exact hpull c hc
  have hpieces : (suffix ++ ":pull".toList).splitOn ':' = [suffix, "pull".toList] := by
    rw [splitOn_append_of_forall hcolon,
      show ":pull".toList.splitOn ':' = [[], "pull".toList] by decide, List.modifyHead_cons,
      List.append_nil]
  constructor
  · rintro ⟨word, others, below, actions, hword, hbelow, hnames, -⟩
    rw [hwords] at hword
    obtain ⟨rfl, rfl⟩ := List.cons.inj hword
    rw [hpieces] at hbelow
    obtain ⟨rfl, -⟩ := List.cons.inj hbelow
    exact hnames
  · intro hnames
    refine ⟨_, [], suffix, _, hwords, hpieces, hnames, ?_⟩
    rintro other ⟨⟩

def scopeNames (storage repository : String) (slash : List Char) : List Char :=
  (storage ++ "/" ++ repository).toList ++ slash

theorem toList_scope (storage repository rest : String) :
    ∃ slash : List Char, (slash = ['/'] ∨ slash = [] ∧ repoSuffix rest = []) ∧
      ("repository:" ++ dockerRepositoryScope storage repository rest ++ ":pull").toList =
        "repository:".toList ++ scopeNames storage repository slash ++
          (repoSuffix rest ++ ":pull".toList) := by
  by_cases hnil : repoSuffix rest = []
  · refine ⟨[], .inr ⟨rfl, hnil⟩, ?_⟩
    simp_all [dockerRepositoryScope, ite_self, scopeNames]
  · refine ⟨['/'], .inl rfl, ?_⟩
    have htrimmed : trimMatches '/' rest.toList ≠ [] := by
      intro htrimmed
      refine hnil ?_
      rw [repoSuffix, htrimmed]
      rfl
    rw [dockerRepositoryScope, if_neg htrimmed, if_neg hnil]
    simp [scopeNames]

section names

variable {storage repository : String} {slash : List Char}

theorem colon_notMem_scopeNames (hstorage : IsScopeName storage)
    (hrepository : IsScopeName repository) (hslash : slash ⊆ ['/']) :
    ':' ∉ scopeNames storage repository slash := by
  intro h
  simp only [scopeNames, String.toList_append, List.mem_append] at h
  rcases h with ((h | h) | h) | h
  · exact (hstorage.2 _ h).2.1 rfl
  · exact absurd h (by decide)
  · exact (hrepository.2 _ h).2.1 rfl
  · exact absurd (List.mem_singleton.mp (hslash h)) (by decide)

theorem isWhitespace_scopeNames (hstorage : IsScopeName storage)
    (hrepository : IsScopeName repository) (hslash : slash ⊆ ['/']) {c : Char}
    (hc : c ∈ "repository:".toList ++ scopeNames storage repository slash) :
    isWhitespace c = false := by
  have hkind : ∀ c ∈ "repository:".toList, isWhitespace c = false :=
    List.all_iff_forall_prop.mp (by decide)
  have hslashes : ∀ c ∈ "/".toList, isWhitespace c = false :=
    List.all_iff_forall_prop.mp (by decide)
  simp only [scopeNames, String.toList_append, List.mem_append] at hc
  rcases hc with hc | ((hc | hc) | hc) | hc
  · exact hkind c hc
  · exact (hstorage.2 c hc).2.2
  · exact hslashes c hc
  · exact (hrepository.2 c hc).2.2
  · exact hslashes c (hslash hc)

theorem splitOn_scopeNames (hcolon : ':' ∉ scopeNames storage repository slash)
    (word : List Char) :
    ("repository:".toList ++ scopeNames storage repository slash ++ word).splitOn ':' =
      "repository".toList ::
        (word.splitOn ':').modifyHead (scopeNames storage repository slash ++ ·) := by
  have hcons : "repository:".toList ++ scopeNames storage repository slash ++ word =
      "repository".toList ++ ':' :: (scopeNames storage repository slash ++ word) := by simp
  rw [hcons, List.splitOn_append_cons_self, splitOn_append_of_forall hcolon]
  rfl

theorem segments_scopeNames (hstorage : IsScopeName storage) (hrepository : IsScopeName repository)
    {below : List Char} (hslash : slash = ['/'] ∨ slash = [] ∧ below = []) :
    segments '/' (String.ofList (scopeNames storage repository slash ++ below)) =
      storage :: repository :: segments '/' (String.ofList below) := by
  have hname : ∀ {name : String}, IsScopeName name → segments '/' name = [name] := by
    intro name h
    refine segments_eq_singleton (fun hc => (h.2 _ hc).1 rfl) fun hnil => h.1 ?_
    rwa [← String.toList_eq_nil_iff]
  rcases hslash with rfl | ⟨rfl, rfl⟩
  · have htext : String.ofList (scopeNames storage repository ['/'] ++ below) =
        storage ++ (String.ofList ['/'] ++ (repository ++ (String.ofList ['/'] ++
          String.ofList below))) := by
      rw [← String.toList_inj]
      simp [scopeNames]
    rw [htext, segments_append, segments_append, hname hstorage, hname hrepository]
    rfl
  · have htext : String.ofList (scopeNames storage repository [] ++ []) =
        storage ++ (String.ofList ['/'] ++ repository) := by
      rw [← String.toList_inj]
      simp [scopeNames]
    rw [htext, segments_append, hname hstorage, hname hrepository]
    rfl

theorem parseScope_scopeNames {word below actions : List Char}
    (hcolon : ':' ∉ scopeNames storage repository slash)
    (hsegments : segments '/' (String.ofList (scopeNames storage repository slash ++ below)) =
      storage :: repository :: segments '/' (String.ofList below))
    (hbelow : word.splitOn ':' = [below, actions]) :
    parseScope (String.ofList
        ("repository:".toList ++ scopeNames storage repository slash ++ word)) =
      match (if storage = "repositories" then repository :: segments '/' (String.ofList below)
        else storage :: repository :: segments '/' (String.ofList below)) with
      | storage' :: repository' :: _ =>
        .ok (some ⟨String.ofList ("repository:".toList ++
            scopeNames storage repository slash ++ word), storage', repository',
          (pieces ',' (String.ofList actions)).foldl parseAction []⟩)
      | _ => .error (.invalidScope (String.ofList ("repository:".toList ++
          scopeNames storage repository slash ++ word))) := by
  have hpieces := splitOn_scopeNames hcolon word
  rw [hbelow, List.modifyHead_cons] at hpieces
  rw [parseScope_repository hpieces, hsegments, List.head?_cons, List.tail_cons]
  simp only [Option.some.injEq]

theorem parseScope_scopeNames_iff {word : List Char}
    (hcolon : ':' ∉ scopeNames storage repository slash)
    (hsegments : ∀ below actions, word.splitOn ':' = [below, actions] →
      segments '/' (String.ofList (scopeNames storage repository slash ++ below)) =
        storage :: repository :: segments '/' (String.ofList below)) :
    (∃ scope, parseScope (String.ofList
        ("repository:".toList ++ scopeNames storage repository slash ++ word)) =
          .ok (some scope) ∧ scope.storage = storage ∧ scope.repository = repository) ↔
      ∃ below actions, word.splitOn ':' = [below, actions] ∧
        (storage ≠ "repositories" ∨ repository = "repositories" ∧
          (segments '/' (String.ofList below)).head? = some "repositories") := by
  constructor
  · rintro ⟨scope, htaken, hstorage, hrepository⟩
    obtain ⟨name, actions, hkind⟩ := exists_of_parseScope_some htaken
    rw [splitOn_scopeNames hcolon] at hkind
    obtain ⟨below, hbelow⟩ : ∃ below, word.splitOn ':' = [below, actions] := by
      have htail := (List.cons.inj hkind).2
      cases hword : word.splitOn ':' with
      | nil =>
        rw [hword] at htail
        cases htail
      | cons below tail =>
        simp_all
    refine ⟨below, actions, hbelow, ?_⟩
    rw [parseScope_scopeNames hcolon (hsegments below actions hbelow) hbelow] at htaken
    by_cases hname : storage = "repositories"
    · right
      rw [if_pos hname] at htaken
      cases hbelow' : segments '/' (String.ofList below) with
      | nil =>
        rw [hbelow'] at htaken
        cases htaken
      | cons first tail =>
        grind
    · exact .inl hname
  · rintro ⟨below, actions, hbelow, hname⟩
    have hread := parseScope_scopeNames hcolon (hsegments below actions hbelow) hbelow
    by_cases heq : storage = "repositories"
    · obtain ⟨hrepository, hhead⟩ := hname.resolve_left fun hne => hne heq
      cases hbelow' : segments '/' (String.ofList below) with
      | nil =>
        rw [hbelow'] at hhead
        cases hhead
      | cons first tail =>
        grind
    · rw [if_neg heq] at hread
      exact ⟨_, hread, rfl, rfl⟩

end names

/-- The scope of a request names its storage and its repository to the token endpoint if and only
if what the path adds is read as one scope with them. -/
theorem parseScopes_dockerRepositoryScope_iff {storage repository : String}
    (hstorage : IsScopeName storage) (hrepository : IsScopeName repository) (rest : String) :
    (∃ scope, parseScopes
        ["repository:" ++ dockerRepositoryScope storage repository rest ++ ":pull"] =
          .ok [scope] ∧ scope.storage = storage ∧ scope.repository = repository) ↔
      ReadsAsOne storage repository (repoSuffix rest) := by
  obtain ⟨slash, hslash, htext⟩ := toList_scope storage repository rest
  have hsub : slash ⊆ ['/'] := by
    rcases hslash with rfl | ⟨rfl, -⟩
    · exact List.Subset.refl _
    · exact List.nil_subset _
  have hcolon := colon_notMem_scopeNames hstorage hrepository hsub
  cases hsplit : (repoSuffix rest ++ ":pull".toList).splitOnP isWhitespace with
  | nil => exact absurd hsplit (List.splitOnP_ne_nil _ _)
  | cons word others =>
    set first := String.ofList ("repository:".toList ++ scopeNames storage repository slash ++ word)
      with hfirst
    have hwords : words ("repository:" ++ dockerRepositoryScope storage repository rest ++
        ":pull") = first :: (others.filter (· ≠ [])).map String.ofList := by
      rw [words, htext, splitOnP_append_of_forall
        fun c hc => isWhitespace_scopeNames hstorage hrepository hsub hc, hsplit,
        List.modifyHead_cons, List.filter_cons_of_pos (by simp), List.map_cons]
    have hnotSkipped : parseScope first ≠ .ok none := by
      intro hnone
      obtain ⟨kind, name, actions, hkind, hne⟩ := exists_of_parseScope_none hnone
      rw [splitOn_scopeNames hcolon] at hkind
      exact hne (List.cons.inj hkind).1.symm
    have hsegments : ∀ below actions, word.splitOn ':' = [below, actions] →
        segments '/' (String.ofList (scopeNames storage repository slash ++ below)) =
          storage :: repository :: segments '/' (String.ofList below) := by
      intro below actions hbelow
      refine segments_scopeNames hstorage hrepository ?_
      rcases hslash with hcons | ⟨hnil, hsuffix⟩
      · exact .inl hcons
      · refine .inr ⟨hnil, ?_⟩
        have hpull : (([] : List Char) ++ ":pull".toList).splitOnP isWhitespace =
            [":pull".toList] := by decide
        rw [hsuffix, hpull] at hsplit
        obtain ⟨rfl, -⟩ := List.cons.inj hsplit
        rw [show ":pull".toList.splitOn ':' = [[], "pull".toList] by decide] at hbelow
        exact (List.cons.inj hbelow).1.symm
    have hnames := parseScope_scopeNames_iff hcolon hsegments
    rw [parseScopes, List.flatMap_singleton, hwords]
    constructor
    · rintro ⟨scope, hparse, hscope⟩
      obtain ⟨htaken, hothers⟩ := (filterMapM_eq_singleton_iff hnotSkipped).mp hparse
      obtain ⟨below, actions, hbelow, hname⟩ := hnames.mp ⟨scope, htaken, hscope⟩
      refine ⟨word, others, below, actions, hsplit, hbelow, hname, fun other hother hne => ?_⟩
      have hmem : String.ofList other ∈ (others.filter (· ≠ [])).map String.ofList :=
        List.mem_map_of_mem (List.mem_filter.mpr ⟨hother, by simpa using hne⟩)
      exact exists_of_parseScope_none (hothers _ hmem)
    · rintro ⟨word', others', below, actions, hsplit', hbelow, hname, hothers⟩
      rw [hsplit] at hsplit'
      obtain ⟨rfl, rfl⟩ := List.cons.inj hsplit'
      obtain ⟨scope, htaken, hscope⟩ := hnames.mpr ⟨below, actions, hbelow, hname⟩
      refine ⟨scope, (filterMapM_eq_singleton_iff hnotSkipped).mpr ⟨htaken, fun x hx => ?_⟩, hscope⟩
      obtain ⟨other, hother, rfl⟩ := List.mem_map.mp hx
      obtain ⟨hmem, hne⟩ := List.mem_filter.mp hother
      obtain ⟨kind, name, actions, hkind, hskip⟩ := hothers other hmem (by simpa using hne)
      exact parseScope_of_kind hkind hskip

/-- A storage of another name and a path below the repository. -/
theorem parseScopes_image : ∃ scope, parseScopes
    ["repository:" ++ dockerRepositoryScope "main" "images" "/app/manifests/latest" ++ ":pull"] =
      .ok [scope] ∧ scope.storage = "main" ∧ scope.repository = "images" := by
  refine (parseScopes_dockerRepositoryScope_iff (by decide) (by decide) _).mpr ?_
  rw [show repoSuffix "/app/manifests/latest" = "app".toList by decide,
    readsAsOne_iff_of_clean (List.all_iff_forall_prop.mp (by decide))]
  exact .inl (by decide)

/-- A storage of the name `repositories` is dropped, and the names move up. -/
theorem not_parseScopes_repositories : ¬ ∀ (storage repository rest : String),
    IsScopeName storage → IsScopeName repository →
    (∀ c ∈ rest.toList.take (scopeEnd rest.toList), c ≠ ':' ∧ isWhitespace c = false) →
    ∃ scope, parseScopes
      ["repository:" ++ dockerRepositoryScope storage repository rest ++ ":pull"] =
        .ok [scope] ∧ scope.storage = storage ∧ scope.repository = repository := by
  intro hall
  obtain ⟨scope, hparse, hstorage, -⟩ := hall "repositories" "images" "app/manifests/latest"
    (by decide) (by decide) (List.all_iff_forall_prop.mp (by decide))
  have hread : parseScopes ["repository:" ++
      dockerRepositoryScope "repositories" "images" "app/manifests/latest" ++ ":pull"] =
      .ok [⟨"repository:repositories/images/app:pull", "images", "app", [.read]⟩] := by
    rfl
  rw [hread] at hparse
  obtain ⟨rfl, -⟩ := List.cons.inj (Except.ok.inj hparse)
  exact absurd hstorage (by decide)

end Pkgly.Docker
