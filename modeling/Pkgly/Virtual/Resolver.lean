import Pkgly.Algorithm.Store
import Pkgly.Maven.Reads
import Pkgly.Virtual.Members

/-!
# Resolving a request to a virtual repository

`VirtualResolver.resolve` asks the members one after another, by priority and name, until one of
them answers, and keeps that member in a cache for the next request with the same key.  A member of
the cache is asked first, and its response is returned whatever it says.

A `RepoResponse` is the one of Maven; a client is what it fetches for the path and the method of one
request.  Times are in nanoseconds.
-/

namespace Pkgly.Virtual

open Maven (RepoResponse)

/-! ### The cache -/

structure CacheEntry where
  memberId : Uuid
  storedAt : ℕ

structure VirtualResolutionCache where
  ttl : ℕ
  entries : Store String CacheEntry

namespace VirtualResolutionCache

/-- `get`, which drops an entry that has expired. -/
def get (cache : VirtualResolutionCache) (key : String) (now : ℕ) :
    Option Uuid × VirtualResolutionCache :=
  match cache.entries.get key with
  | none => (none, cache)
  | some entry =>
    if now - entry.storedAt ≤ cache.ttl then (some entry.memberId, cache)
    else (none, { cache with entries := cache.entries.remove key })

def put (cache : VirtualResolutionCache) (key : String) (memberId : Uuid) (now : ℕ) :
    VirtualResolutionCache :=
  { cache with entries := cache.entries.put key ⟨memberId, now⟩ }

end VirtualResolutionCache

/-! ### The resolver -/

structure ResolveHit where
  member : ResolvedVirtualMember
  response : RepoResponse
deriving DecidableEq

def isAuthFailure : RepoResponse → Bool
  | .other status _ _ => status = 401 || status = 403
  | _ => false

def isNotFound : RepoResponse → Bool
  | .other status _ _ => status = 404
  | _ => false

def memberLe (a b : ResolvedVirtualMember) : Prop :=
  a.priority < b.priority ∨ a.priority = b.priority ∧ a.repositoryName ≤ b.repositoryName

instance : DecidableRel memberLe := fun a b => by
  unfold memberLe
  infer_instance

structure VirtualResolver where
  members : List ResolvedVirtualMember
  cache : VirtualResolutionCache

namespace VirtualResolver

def new (members : List ResolvedVirtualMember) (_order : VirtualResolutionOrder)
    (cache : VirtualResolutionCache) : VirtualResolver :=
  ⟨members.insertionSort memberLe, cache⟩

variable {E : Type} (fetch : ResolvedVirtualMember → Except E (Option RepoResponse))

/-- The loop of `resolve` over the enabled members, with the last that has denied the request. -/
def resolveInOrder (cacheKey : String) (now : ℕ) (cache : VirtualResolutionCache) :
    Option ResolveHit → List ResolvedVirtualMember →
      Except E (Option ResolveHit) × VirtualResolutionCache
  | authFailure, [] => (.ok authFailure, cache)
  | authFailure, member :: members =>
    match fetch member with
    | .error e => (.error e, cache)
    | .ok none => resolveInOrder cacheKey now cache authFailure members
    | .ok (some response) =>
      if isAuthFailure response then
        resolveInOrder cacheKey now cache (some ⟨member, response⟩) members
      else if isNotFound response then resolveInOrder cacheKey now cache authFailure members
      else (.ok (some ⟨member, response⟩), cache.put cacheKey member.repositoryId now)

def cachedMember (resolver : VirtualResolver) (cacheKey : String) (now : ℕ) :
    Option ResolvedVirtualMember :=
  (resolver.cache.get cacheKey now).1.bind fun memberId =>
    resolver.members.find? fun m => m.enabled && m.repositoryId == memberId

/-- `resolve`, which reads the cache at `now` and writes it at `later`. -/
def resolve (resolver : VirtualResolver) (cacheKey : String) (now later : ℕ) :
    Except E (Option ResolveHit) × VirtualResolutionCache :=
  let cache := (resolver.cache.get cacheKey now).2
  let inOrder := resolveInOrder fetch cacheKey later cache none
    (resolver.members.filter fun m => m.enabled)
  match resolver.cachedMember cacheKey now with
  | none => inOrder
  | some member =>
    match fetch member with
    | .error e => (.error e, cache)
    | .ok (some response) => (.ok (some ⟨member, response⟩), cache)
    | .ok none => inOrder

end VirtualResolver

end Pkgly.Virtual
