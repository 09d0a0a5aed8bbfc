import Pkgly.Virtual.Resolver
import Mathlib.Data.Prod.Lex
import Mathlib.Data.String.Basic

/-!
# Correctness of the resolution

A response answers a request unless it says that there is nothing or that the request is denied.
If a member answers, then so does what `resolve` returns, and it is the first member by priority and
name unless the cache has one that responds (`resolve_answers`).  Nothing is said of a member of the
cache that says no: its response is returned, whatever the others would answer.
-/

namespace Pkgly.Virtual

open Maven (RepoResponse)

/-- The response is there, and it neither denies the request nor says that nothing is found. -/
def Answers (response : Option RepoResponse) : Prop :=
  ∃ r, response = some r ∧ isAuthFailure r = false ∧ isNotFound r = false

/-! ### The order of the members -/

theorem memberLe_iff (a b : ResolvedVirtualMember) : memberLe a b ↔
    toLex (a.priority.toNat, a.repositoryName) ≤ toLex (b.priority.toNat, b.repositoryName) := by
  rw [Prod.Lex.toLex_le_toLex, memberLe, UInt32.lt_iff_toNat_lt, ← UInt32.toNat_inj]

instance : Std.Total memberLe where
  total a b := by
    rw [memberLe_iff, memberLe_iff]
    exact le_total _ _

instance : IsTrans ResolvedVirtualMember memberLe where
  trans a b c hab hbc := by
    rw [memberLe_iff] at hab hbc ⊢
    exact le_trans hab hbc

instance : Std.Refl memberLe where
  refl _ := .inr ⟨rfl, le_refl _⟩

theorem mem_members_new {members : List ResolvedVirtualMember} {order : VirtualResolutionOrder}
    {cache : VirtualResolutionCache} {m : ResolvedVirtualMember} :
    m ∈ (VirtualResolver.new members order cache).members ↔ m ∈ members :=
  List.mem_insertionSort memberLe

/-! ### The loop -/

section Loop

variable {E : Type} {table : ResolvedVirtualMember → Option RepoResponse} (cacheKey : String)
  (now : ℕ) (cache : VirtualResolutionCache)

theorem resolveInOrder_cons_of_not_answers {m : ResolvedVirtualMember}
    (hm : ¬ Answers (table m)) (members : List ResolvedVirtualMember)
    (authFailure : Option ResolveHit) : ∃ authFailure',
    VirtualResolver.resolveInOrder (E := E) (fun m => .ok (table m)) cacheKey now cache authFailure
        (m :: members) =
      VirtualResolver.resolveInOrder (fun m => .ok (table m)) cacheKey now cache authFailure'
        members := by
  cases hresponse : table m with
  | none =>
    refine ⟨authFailure, ?_⟩
    rw [VirtualResolver.resolveInOrder, hresponse]
  | some response =>
    rw [VirtualResolver.resolveInOrder, hresponse]
    dsimp only
    split_ifs with hauth hfound
    · exact ⟨_, rfl⟩
    · exact ⟨_, rfl⟩
    · exact absurd ⟨response, hresponse, eq_false_of_ne_true hauth, eq_false_of_ne_true hfound⟩ hm

theorem resolveInOrder_cons_of_answers {m : ResolvedVirtualMember} {response : RepoResponse}
    (hresponse : table m = some response) (hm : Answers (table m))
    (members : List ResolvedVirtualMember) (authFailure : Option ResolveHit) :
    (VirtualResolver.resolveInOrder (E := E) (fun m => .ok (table m)) cacheKey now cache authFailure
      (m :: members)).1 = .ok (some ⟨m, response⟩) := by
  obtain ⟨r, hr, hauth, hfound⟩ := hm
  obtain rfl : response = r := Option.some.inj (hresponse.symm.trans hr)
  rw [VirtualResolver.resolveInOrder, hresponse]
  simp only [hauth, hfound, Bool.false_eq_true, if_false]

theorem resolveInOrder_of_answers {members : List ResolvedVirtualMember}
    (hsorted : members.Pairwise memberLe) (hanswers : ∃ m ∈ members, Answers (table m))
    (authFailure : Option ResolveHit) :
    ∃ hit, (VirtualResolver.resolveInOrder (E := E) (fun m => .ok (table m)) cacheKey now cache
        authFailure members).1 = .ok (some hit) ∧ hit.member ∈ members ∧
      table hit.member = some hit.response ∧ Answers (table hit.member) ∧
      ∀ m ∈ members, Answers (table m) → memberLe hit.member m := by
  induction members generalizing authFailure with
  | nil =>
    obtain ⟨m, hm, -⟩ := hanswers
    cases hm
  | cons first members ih =>
    obtain ⟨hfirst, hsorted⟩ := List.pairwise_cons.mp hsorted
    by_cases hm : Answers (table first)
    · obtain ⟨response, hresponse, -⟩ := id hm
      refine ⟨⟨first, response⟩, resolveInOrder_cons_of_answers cacheKey now cache hresponse hm
        members authFailure, List.mem_cons_self, hresponse, hm, fun m hmem _ => ?_⟩
      rcases List.mem_cons.mp hmem with rfl | hmem
      · exact Std.Refl.refl m
      · exact hfirst m hmem
    · obtain ⟨m, hmem, hanswer⟩ := hanswers
      rcases List.mem_cons.mp hmem with rfl | hmem
      · exact absurd hanswer hm
      obtain ⟨authFailure', heq⟩ :=
        resolveInOrder_cons_of_not_answers (E := E) cacheKey now cache hm members authFailure
      obtain ⟨hit, hresult, hhit, hresponse, hanswers, hleast⟩ :=
        ih hsorted ⟨m, hmem, hanswer⟩ authFailure'
      grind

end Loop

/-! ### The resolution -/

theorem mem_of_cachedMember {resolver : VirtualResolver} {cacheKey : String} {now : ℕ}
    {m : ResolvedVirtualMember} (h : resolver.cachedMember cacheKey now = some m) :
    m ∈ resolver.members ∧ m.enabled = true := by
  rw [VirtualResolver.cachedMember, Option.bind_eq_some_iff] at h
  grind

/-- What `resolve` returns of a table of responses: a member that answers, which is the one in the
cache if that has a response, and the first by priority and name if not. -/
structure Resolves (members : List ResolvedVirtualMember)
    (table : ResolvedVirtualMember → Option RepoResponse) (cached : Option ResolvedVirtualMember)
    (hit : ResolveHit) : Prop where
  mem : hit.member ∈ members
  enabled : hit.member.enabled = true
  response : table hit.member = some hit.response
  answers : Answers (table hit.member)
  first : (∀ m, cached = some m → table m = none) →
    ∀ m ∈ members, m.enabled = true → Answers (table m) → memberLe hit.member m
  cached : ∀ m, cached = some m → table m ≠ none → hit.member = m

/-- If an enabled member answers and the one in the cache does not say no, then the response of a
member that answers is returned. -/
theorem resolve_answers (E : Type) (members : List ResolvedVirtualMember)
    (order : VirtualResolutionOrder) (cache : VirtualResolutionCache)
    (table : ResolvedVirtualMember → Option RepoResponse) (cacheKey : String) (now later : ℕ)
    (hanswers : ∃ m ∈ members, m.enabled = true ∧ Answers (table m))
    (hcached : ∀ m, (VirtualResolver.new members order cache).cachedMember cacheKey now = some m →
      table m = none ∨ Answers (table m)) :
    ∃ hit, ((VirtualResolver.new members order cache).resolve (E := E) (fun m => .ok (table m))
        cacheKey now later).1 = .ok (some hit) ∧
      Resolves members table
        ((VirtualResolver.new members order cache).cachedMember cacheKey now) hit := by
  set resolver := VirtualResolver.new members order cache with hresolver
  have hmem : ∀ m, m ∈ resolver.members ↔ m ∈ members := fun m => mem_members_new
  have hsorted : (resolver.members.filter fun m => m.enabled).Pairwise memberLe :=
    (List.pairwise_insertionSort memberLe members).filter _
  -- the loop, for when there is no response from the cache
  obtain ⟨m, hm, henabled, hanswer⟩ := hanswers
  obtain ⟨hit, hresult, hhit, hresponse, hanswer, hleast⟩ :=
    resolveInOrder_of_answers (E := E) cacheKey later (resolver.cache.get cacheKey now).2 hsorted
      ⟨m, List.mem_filter.mpr ⟨(hmem m).mpr hm, henabled⟩, hanswer⟩ none
  obtain ⟨hhit, hhitEnabled⟩ := List.mem_filter.mp hhit
  have hfirst : ∀ m ∈ members, m.enabled = true → Answers (table m) → memberLe hit.member m :=
    fun m hm he => hleast m (List.mem_filter.mpr ⟨(hmem m).mpr hm, he⟩)
  rw [VirtualResolver.resolve]
  cases hmember : resolver.cachedMember cacheKey now with
  | none =>
    exact ⟨hit, hresult, (hmem _).mp hhit, hhitEnabled, hresponse, hanswer, fun _ => hfirst,
      fun m h => nomatch h⟩
  | some m =>
    cases hresponsem : table m with
    | none =>
      simp only [hresponsem]
      refine ⟨hit, hresult, (hmem _).mp hhit, hhitEnabled, hresponse, hanswer, fun _ => hfirst, ?_⟩
      rintro _ ⟨⟩ hne
      exact absurd hresponsem hne
    | some response =>
      have hanswerm : Answers (table m) := by
        refine (hcached m hmember).resolve_left fun hnone => ?_
        rw [hnone] at hresponsem
        cases hresponsem
      obtain ⟨hm, henabledm⟩ := mem_of_cachedMember hmember
      simp only [hresponsem]
      refine ⟨⟨m, response⟩, rfl, (hmem m).mp hm, henabledm, hresponsem, hanswerm,
        fun hnone => ?_, ?_⟩
      · rw [hnone m rfl] at hresponsem
        cases hresponsem
      · rintro _ ⟨⟩ -
        rfl

/-! ### Two members -/

def releases : ResolvedVirtualMember := ⟨1, "releases", 10, true⟩

def snapshots : ResolvedVirtualMember := ⟨2, "snapshots", 20, true⟩

def textResponse (status : ℕ) (body : String) : RepoResponse := .other status [] body

/-- A cache of a minute that holds the second member, as of time zero. -/
def snapshotsCache : VirtualResolutionCache := ⟨60, (∅ : Store String CacheEntry).put "kit" ⟨2, 0⟩⟩

/-- The second member is found no longer, and the entry has expired. -/
def movedTable (m : ResolvedVirtualMember) : Option RepoResponse :=
  if m = releases then some (textResponse 200 "kit 1.0") else some (textResponse 404 "")

theorem resolve_expired : ∃ hit,
    ((VirtualResolver.new [snapshots, releases] .priority snapshotsCache).resolve (E := Empty)
        (fun m => .ok (movedTable m)) "kit" 61 62).1 = .ok (some hit) ∧
      Resolves [snapshots, releases] movedTable
        ((VirtualResolver.new [snapshots, releases] .priority snapshotsCache).cachedMember "kit" 61)
        hit := by
  refine resolve_answers Empty _ _ _ _ _ _ _ ⟨releases, by decide, rfl, _, rfl, rfl, rfl⟩ ?_
  have hnone : (VirtualResolver.new [snapshots, releases] .priority snapshotsCache).cachedMember
      "kit" 61 = none := by decide
  intro m hm
  rw [hnone] at hm
  cases hm

/-- Both members answer, and the second one is in the cache. -/
theorem not_resolve_first : ¬ ∀ (members : List ResolvedVirtualMember)
    (order : VirtualResolutionOrder) (cache : VirtualResolutionCache)
    (table : ResolvedVirtualMember → Option RepoResponse) (cacheKey : String) (now later : ℕ),
    (∃ m ∈ members, m.enabled = true ∧ Answers (table m)) →
    ∃ hit, ((VirtualResolver.new members order cache).resolve (E := Empty) (fun m => .ok (table m))
        cacheKey now later).1 = .ok (some hit) ∧ Answers (some hit.response) ∧
      ∀ m ∈ members, m.enabled = true → Answers (table m) → memberLe hit.member m := by
  intro hall
  have hresponse : ∀ m : ResolvedVirtualMember,
      Answers ((fun m => some (textResponse 200 m.repositoryName)) m) := fun m => ⟨_, rfl, rfl, rfl⟩
  obtain ⟨hit, hresult, -, hfirst⟩ := hall [releases, snapshots] .priority snapshotsCache
    (fun m => some (textResponse 200 m.repositoryName)) "kit" 1 2
    ⟨releases, by decide, rfl, hresponse releases⟩
  have hcached : ((VirtualResolver.new [releases, snapshots] .priority snapshotsCache).resolve
      (E := Empty) (fun m => .ok (some (textResponse 200 m.repositoryName))) "kit" 1 2).1 =
      .ok (some ⟨snapshots, textResponse 200 "snapshots"⟩) := by rfl
  rw [hcached] at hresult
  cases hresult
  exact absurd (hfirst releases (by decide) rfl (hresponse releases)) (by decide)

end Pkgly.Virtual
