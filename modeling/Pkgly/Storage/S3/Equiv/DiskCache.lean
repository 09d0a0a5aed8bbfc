import Pkgly.Storage.S3.DiskCache

/-!
# What a step of the disk cache does

`Trans` lists the branches of `CacheSystem.step`, each with its guard and the state it leads to
(`trans_of_step`); every invariant is a case analysis over it.  `Locked` is the exclusion that
`publishLock` gives: at most one call is at a stage under the lock.
-/

/-!
## The sections under the lock of the cache state

What the operations on `CacheState` do to each of its parts.  The generations change in `bump`
alone; entries are only ever removed, except for the one that a publication inserts
(`peek_of_publish`); and the running total stays the sum of the sizes, within the limits
(`CacheState.Ok`), as long as no sum of two sizes saturates.
-/

namespace Pkgly.S3.CacheState

variable {cfg : CacheConfig} {st : CacheState} {key key' : String} {entry : CacheEntry}
  {p : Publication}

/-! ### Generations -/

theorem generation_bump (st : CacheState) (key key' : String) : (st.bump key).generation key' =
    if key' = key then (st.generation key + 1) % (maxU64 + 1) else st.generation key' := by
  grind [generation, bump, Store.get_put, maxU64]

@[simp] theorem generations_popEntry :
    (st.popEntry key).1.generations = st.generations := by
  unfold popEntry
  split <;> rfl

@[simp] theorem generations_evictOne {capacity : Nat} :
    (st.evictOne capacity).1.generations = st.generations := by
  unfold evictOne
  split_ifs
  · split <;> rfl
  · rfl

theorem foldl_pushFailedDeletion (st : CacheState) (l : List FailedDeletion) :
    (l.foldl pushFailedDeletion st).generations = st.generations ∧
      (l.foldl pushFailedDeletion st).entries = st.entries ∧
      (l.foldl pushFailedDeletion st).currentBytes = st.currentBytes := by
  induction l generalizing st with
  | nil => exact ⟨rfl, rfl, rfl⟩
  | cons d l ih => exact ih (st.pushFailedDeletion d)

theorem generations_publish :
    (st.publish cfg p).1.generations = (st.bumpUnless p).generations := by
  simp only [publish, evictBytes, insert, generations_evictOne, generations_popEntry]

/-! ### Entries -/

@[simp] theorem entries_bumpUnless : (st.bumpUnless p).entries = st.entries := by
  unfold bumpUnless
  split_ifs <;> rfl

theorem peek_popEntry (st : CacheState) (key key' : String) :
    (st.popEntry key).1.entries.peek key' =
      if key' = key then none else st.entries.peek key' := by
  grind [popEntry, Lru.peek_pop]

theorem peek_evictOne (st : CacheState) (capacity : Nat) :
    (st.evictOne capacity = (st, [])) ∨
    ∃ k evicted, st.entries.peek k = some evicted ∧
      (∀ k', (st.evictOne capacity).1.entries.peek k' =
        if k' = k then none else st.entries.peek k') ∧
      (st.evictOne capacity).2 = filesOf evicted := by
  unfold evictOne
  split_ifs with hfull
  · split
    · exact Or.inl rfl
    · rename_i k evicted entries hpop
      refine Or.inr ⟨k, evicted, ?_, Lru.peek_of_popLru hpop, rfl⟩
      rw [Lru.peek_eq_some_iff, Lru.items_of_popLru hpop]
      exact List.mem_cons_self
  · exact Or.inl rfl

theorem peek_of_evictOne {capacity : Nat}
    (h : (st.evictOne capacity).1.entries.peek key = some entry) :
    st.entries.peek key = some entry := by
  grind [peek_evictOne]

theorem peek_insert (st : CacheState) (key key' : String) (entry : CacheEntry) :
    (st.insert key entry).entries.peek key' =
      if key' = key then some entry else st.entries.peek key' :=
  Lru.peek_put _ _ _ _

theorem peek_of_evictBytes {maxBytes : Nat}
    (h : (st.evictBytes maxBytes).1.entries.peek key = some entry) :
    st.entries.peek key = some entry :=
  Lru.peek_evict h

theorem peek_of_publish (h : (st.publish cfg p).1.entries.peek key = some entry) :
    key = p.key ∧ entry = p.entry cfg.sha ∨ key ≠ p.key ∧ st.entries.peek key = some entry := by
  have h := peek_of_evictBytes h
  rw [peek_insert] at h
  split_ifs at h with hkey
  · exact Or.inl ⟨hkey, (Option.some.inj h).symm⟩
  · have h := peek_of_evictOne h
    rw [peek_popEntry, if_neg hkey, entries_bumpUnless] at h
    exact Or.inr ⟨hkey, h⟩

/-! ### The running total -/

structure Ok (cfg : CacheConfig) (st : CacheState) : Prop where
  currentBytes_eq : st.currentBytes = st.entries.total CacheEntry.size
  currentBytes_le : st.currentBytes ≤ cfg.maxBytes
  length_le : st.entries.length ≤ cfg.capacity

/-- No sum of two sizes within the limit saturates. -/
def Exact (cfg : CacheConfig) : Prop := cfg.maxBytes + cfg.maxBytes ≤ maxU64

end Pkgly.S3.CacheState

namespace Pkgly.S3

def CacheAction.call : CacheAction → Nat
  | generationFor r _ | get r _ | openEntry r _ | put r _ | putIfGeneration r _ | remove r _
  | retry r _ | retryUnlink r _ | retryPush r | writeContent r _ | writeMetadata r _ | lock r
  | renameContent r _ | renameMetadata r _ | update r | unlink r _ | unlock r => r

/-- The stage is one under `publishLock`. -/
def Stage.locked : Stage → Bool
  | checked | contentPlaced | placed | deleting _ _ => true
  | begun | written | ready | finished _ => false

/-- The stages between the check of a publication and its effect. -/
def Stage.passed : Stage → Bool
  | checked | contentPlaced | placed => true
  | _ => false

theorem Stage.locked_of_passed (stage : Stage) (h : stage.passed = true) :
    stage.locked = true := by
  cases stage <;> first | rfl | cases h

namespace CacheSystem

variable {cfg : CacheConfig} {s s' : CacheSystem} {r : Nat} {a : CacheAction}

/-- The state with the lock taken by `r`. -/
def locking (s : CacheSystem) (r : Nat) : CacheSystem := { s with publishLock := some r }

/-- The removal that a call under the lock carries out: of which key, and with which result. -/
def removal (s : CacheSystem) : CacheOp → Option (String × CacheResult × Bool)
  | .remove key => some (key, .removed, true)
  | .removeIfGeneration key expected =>
    some (key, .published false, decide (s.state.generation key = expected))
  | .removeIfMatches key expected =>
    some (key, .removed, (s.state.entries.peek key).any fun entry =>
      decide (entry.relativePath = expected.relativePath ∧ entry.digest = expected.digest))
  | _ => none

/-- The branches of `step`. -/
inductive Trans (cfg : CacheConfig) (s : CacheSystem) : CacheAction → CacheSystem → Prop
  | generationFor {r key} (hr : s.calls.get r = none) :
      Trans cfg s (.generationFor r key)
        (s.set r (.read key (s.state.generation key) (s.mutations key)) .begun)
  | getMiss {r key} (hnone : s.state.entries.peek key = none) : Trans cfg s (.get r key) s
  | get {r key entry} (hr : s.calls.get r = none) (hentry : s.state.entries.peek key = some entry) :
      Trans cfg s (.get r key)
        ((s.setState { s.state with entries := s.state.entries.touch key }).set r (.get key entry)
          .begun)
  | openFail {r key entry} (hr : s.calls.get r = some ⟨.get key entry, .begun⟩) :
      Trans cfg s (.openEntry r false) (s.fail r (.get key entry))
  | openHit {r key entry content} (hr : s.calls.get r = some ⟨.get key entry, .begun⟩)
      (hfile : s.files.get entry.relativePath = some content)
      (hsize : content.length = entry.size) :
      Trans cfg s (.openEntry r true) (s.set r (.get key entry) (.finished (.hit content)))
  | openStale {r key entry} (hr : s.calls.get r = some ⟨.get key entry, .begun⟩)
      (hfile : ∀ content, s.files.get entry.relativePath = some content →
        content.length ≠ entry.size) :
      Trans cfg s (.openEntry r true) (s.set r (.removeIfMatches key entry) .begun)
  | putLarge {r p} (hr : s.calls.get r = none) :
      Trans cfg s (.put r p) (s.set r (.remove p.key) .begun)
  | put {r p} (hr : s.calls.get r = none) (hguard : p.guard = .unconditional)
      (hnew : s.isNew p = true) (hsize : p.data.length ≤ cfg.maxBytes) :
      Trans cfg s (.put r p) (s.set r (.publish p) .begun)
  | putIfLarge {r p key generation capturedAt}
      (hr : s.calls.get r = some ⟨.read key generation capturedAt, .begun⟩) :
      Trans cfg s (.putIfGeneration r p) (s.set r (.removeIfGeneration key generation) .begun)
  | putIf {r p generation}
      (hr : s.calls.get r = some ⟨.read p.key generation p.capturedAt, .begun⟩)
      (hguard : p.guard = .ifGeneration generation) (hnew : s.isNew p = true)
      (hsize : p.data.length ≤ cfg.maxBytes) :
      Trans cfg s (.putIfGeneration r p) (s.set r (.publish p) .begun)
  | remove {r key} (hr : s.calls.get r = none) :
      Trans cfg s (.remove r key) (s.set r (.remove key) .begun)
  | retry {r n} (hr : s.calls.get r = none) :
      Trans cfg s (.retry r n)
        ((s.setState { s.state with
          failedDeletions := s.state.failedDeletions.drop n }).set r
            (.retry (s.state.failedDeletions.take n) []) .begun)
  | retryUnlink {r d due pending} (hr : s.calls.get r = some ⟨.retry (d :: due) pending, .begun⟩) :
      Trans cfg s (.retryUnlink r true)
        ((s.setFiles (s.files.remove d.relativePath)).set r (.retry due pending) .begun)
  | retryFail {r d due pending} (hr : s.calls.get r = some ⟨.retry (d :: due) pending, .begun⟩) :
      Trans cfg s (.retryUnlink r false)
        (s.set r (.retry due (pending ++ [{ d with attempts := d.attempts + 1 }])) .begun)
  | retryPush {r pending} (hr : s.calls.get r = some ⟨.retry [] pending, .begun⟩) :
      Trans cfg s (.retryPush r)
        ((s.setState (pending.foldl CacheState.pushFailedDeletion s.state)).set r (.retry [] [])
          (.finished .removed))
  | writeContent {r p} (hr : s.calls.get r = some ⟨.publish p, .begun⟩) :
      Trans cfg s (.writeContent r none)
        ((s.setFiles (s.files.put p.temp p.data)).set r (.publish p) .written)
  | tornContent {r p n} (hr : s.calls.get r = some ⟨.publish p, .begun⟩) :
      Trans cfg s (.writeContent r (some n))
        ((s.setFiles (s.files.put p.temp (p.data.take n))).fail r (.publish p))
  | writeMetadata {r p} (hr : s.calls.get r = some ⟨.publish p, .written⟩) :
      Trans cfg s (.writeMetadata r none)
        ((s.setFiles (s.files.put p.metadataTemp
          (cfg.codec.encode (p.metadata cfg.sha)))).set r (.publish p) .ready)
  | tornMetadata {r p n} (hr : s.calls.get r = some ⟨.publish p, .written⟩) :
      Trans cfg s (.writeMetadata r (some n))
        ((s.setFiles (s.files.put p.metadataTemp
          ((cfg.codec.encode (p.metadata cfg.sha)).take n))).fail r (.publish p))
  | lockPublish {r p} (hr : s.calls.get r = some ⟨.publish p, .ready⟩)
      (hfree : s.publishLock = none)
      (hguard : ∀ g, p.guard = .ifGeneration g → s.state.generation p.key = g) :
      Trans cfg s (.lock r) ((s.locking r).set r (.publish p) .checked)
  | lockStale {r p g} (hr : s.calls.get r = some ⟨.publish p, .ready⟩)
      (hfree : s.publishLock = none) (hguard : p.guard = .ifGeneration g)
      (hstale : s.state.generation p.key ≠ g) :
      Trans cfg s (.lock r) ((s.locking r).set r (.publish p)
        (.deleting [p.temp, p.metadataTemp] (.published false)))
  | lockRemove {r op key result} (hr : s.calls.get r = some ⟨op, .begun⟩)
      (hfree : s.publishLock = none) (hop : s.removal op = some (key, result, true)) :
      Trans cfg s (.lock r) ((s.locking r).removeEntry r op key result)
  | lockSkip {r op key result} (hr : s.calls.get r = some ⟨op, .begun⟩)
      (hfree : s.publishLock = none) (hop : s.removal op = some (key, result, false)) :
      Trans cfg s (.lock r) ((s.locking r).set r op (.deleting [] result))
  | renameContent {r p files} (hr : s.calls.get r = some ⟨.publish p, .checked⟩)
      (hfiles : rename s.files p.temp p.content = some files) :
      Trans cfg s (.renameContent r true) ((s.setFiles files).set r (.publish p) .contentPlaced)
  | renameContentFail {r p ok} (hr : s.calls.get r = some ⟨.publish p, .checked⟩)
      (hfail : ok = true → rename s.files p.temp p.content = none) :
      Trans cfg s (.renameContent r ok) (s.fail r (.publish p))
  | renameMetadata {r p files} (hr : s.calls.get r = some ⟨.publish p, .contentPlaced⟩)
      (hfiles : rename s.files p.metadataTemp p.metadataFile = some files) :
      Trans cfg s (.renameMetadata r true) ((s.setFiles files).set r (.publish p) .placed)
  | renameMetadataFail {r p ok} (hr : s.calls.get r = some ⟨.publish p, .contentPlaced⟩)
      (hfail : ok = true → rename s.files p.metadataTemp p.metadataFile = none) :
      Trans cfg s (.renameMetadata r ok) (s.fail r (.publish p))
  | update {r p} (hr : s.calls.get r = some ⟨.publish p, .placed⟩) :
      Trans cfg s (.update r) ((s.published cfg p).set r (.publish p)
        (.deleting (s.state.publish cfg p).2 (.published true)))
  | unlink {r op file todo result} (hr : s.calls.get r = some ⟨op, .deleting (file :: todo) result⟩) :
      Trans cfg s (.unlink r true)
        ((s.set r op (.deleting todo result)).setFiles (s.files.remove file))
  | unlinkFail {r op file todo result state}
      (hr : s.calls.get r = some ⟨op, .deleting (file :: todo) result⟩)
      (hstate : state = s.state ∨ (∃ key uuid, file = .content key uuid) ∧
        state = s.state.pushFailedDeletion ⟨file, 0⟩) :
      Trans cfg s (.unlink r false) ((s.set r op (.deleting todo result)).setState state)
  | unlock {r op result} (hr : s.calls.get r = some ⟨op, .deleting [] result⟩) :
      Trans cfg s (.unlock r) { s.set r op (.finished result) with publishLock := none }

theorem start_eq_some {op : CacheOp} (h : s.start r op = some s') :
    s.calls.get r = none ∧ s' = s.set r op .begun := by
  unfold start at h
  split_ifs at h with hr
  exact ⟨by simpa using hr, (Option.some.inj h).symm⟩

theorem trans_lock {call : CacheCall} (hr : s.calls.get r = some call) (h : s.lock r call = some s') :
    Trans cfg s (.lock r) s' := by
  unfold lock at h
  split_ifs at h with hfree
  rw [Option.not_isSome_iff_eq_none] at hfree
  simp only at h
  split at h
  · rename_i p
    split at h
    · rename_i hguard
      obtain rfl := Option.some.inj h
      refine .lockPublish hr hfree fun g hg => ?_
      rw [hguard] at hg
      cases hg
    · rename_i expected hguard
      split_ifs at h with hgen
      · obtain rfl := Option.some.inj h
        refine .lockPublish hr hfree fun g hg => ?_
        rw [hguard] at hg
        rw [← PublishGuard.ifGeneration.inj hg]
        exact hgen
      · obtain rfl := Option.some.inj h
        exact .lockStale hr hfree hguard hgen
  · obtain rfl := Option.some.inj h
    exact .lockRemove hr hfree rfl
  · rename_i key expected
    split_ifs at h with hgen
    · obtain rfl := Option.some.inj h
      exact .lockRemove hr hfree (by simp only [removal]; rw [decide_eq_true hgen])
    · obtain rfl := Option.some.inj h
      exact .lockSkip hr hfree (by simp only [removal]; rw [decide_eq_false hgen])
  · rename_i key expected
    split at h
    · rename_i hnone
      obtain rfl := Option.some.inj h
      exact .lockSkip hr hfree (by rw [removal, hnone]; rfl)
    · rename_i entry hentry
      split_ifs at h with hmatch
      · obtain rfl := Option.some.inj h
        exact .lockRemove hr hfree (by rw [removal, hentry, Option.any_some, decide_eq_true hmatch])
      · obtain rfl := Option.some.inj h
        exact .lockSkip hr hfree (by rw [removal, hentry, Option.any_some, decide_eq_false hmatch])
  · cases h

theorem trans_of_step (h : step cfg s a = some s') : Trans cfg s a s' := by
  cases a with
  | generationFor r key =>
    obtain ⟨hr, rfl⟩ := start_eq_some h
    exact .generationFor hr
  | get r key =>
    simp only [step, CacheSystem.get] at h
    split at h
    · rename_i hnone
      obtain rfl := Option.some.inj h
      exact .getMiss hnone
    · rename_i entry hentry
      obtain ⟨hr, rfl⟩ := start_eq_some h
      exact .get hr hentry
  | openEntry r ok =>
    obtain ⟨call, hr, h⟩ := Option.bind_eq_some_iff.mp h
    unfold openEntry at h
    split at h
    · rename_i key entry
      cases ok with
      | false =>
        obtain rfl := Option.some.inj h
        exact .openFail hr
      | true =>
        simp only [Bool.not_true, Bool.false_eq_true, if_false] at h
        split at h
        · rename_i hnone
          obtain rfl := Option.some.inj h
          refine .openStale hr fun content hcontent => ?_
          rw [hnone] at hcontent
          cases hcontent
        · rename_i content hcontent
          split_ifs at h with hsize
          · obtain rfl := Option.some.inj h
            exact .openHit hr hcontent hsize
          · obtain rfl := Option.some.inj h
            refine .openStale hr fun content' hcontent' => ?_
            rw [← Option.some.inj (hcontent.symm.trans hcontent')]
            exact hsize
    · cases h
  | put r p =>
    simp only [step, CacheSystem.put] at h
    split_ifs at h with hguard hlarge
    · obtain ⟨hr, rfl⟩ := start_eq_some h
      exact .putLarge hr
    · obtain ⟨hr, rfl⟩ := start_eq_some h
      simp only [ne_eq, not_or, not_not, Bool.not_eq_false] at hguard
      exact .put hr hguard.1 hguard.2 (Nat.not_lt.mp hlarge)
  | putIfGeneration r p =>
    obtain ⟨call, hr, h⟩ := Option.bind_eq_some_iff.mp h
    unfold putIfGeneration at h
    split at h
    · rename_i key generation capturedAt
      split_ifs at h with hguard hlarge
      · obtain rfl := Option.some.inj h
        exact .putIfLarge hr
      · obtain rfl := Option.some.inj h
        simp only [ne_eq, not_or, not_not, Bool.not_eq_false] at hguard
        obtain ⟨rfl, hgen, rfl, hnew⟩ := hguard
        exact .putIf hr hgen hnew (Nat.not_lt.mp hlarge)
    · cases h
  | remove r key =>
    obtain ⟨hr, rfl⟩ := start_eq_some h
    exact .remove hr
  | retry r n =>
    simp only [step, CacheSystem.retry] at h
    split_ifs at h
    obtain ⟨hr, rfl⟩ := start_eq_some h
    exact .retry hr
  | retryUnlink r ok =>
    obtain ⟨call, hr, h⟩ := Option.bind_eq_some_iff.mp h
    unfold retryUnlink at h
    split at h
    · cases ok with
      | false =>
        obtain rfl := Option.some.inj h
        exact .retryFail hr
      | true =>
        obtain rfl := Option.some.inj h
        exact .retryUnlink hr
    · cases h
  | retryPush r =>
    obtain ⟨call, hr, h⟩ := Option.bind_eq_some_iff.mp h
    unfold retryPush at h
    split at h
    · obtain rfl := Option.some.inj h
      exact .retryPush hr
    · cases h
  | writeContent r torn =>
    obtain ⟨call, hr, h⟩ := Option.bind_eq_some_iff.mp h
    unfold writeContent at h
    split at h
    · cases torn with
      | none =>
        obtain rfl := Option.some.inj h
        exact .writeContent hr
      | some n =>
        obtain rfl := Option.some.inj h
        exact .tornContent hr
    · cases h
  | writeMetadata r torn =>
    obtain ⟨call, hr, h⟩ := Option.bind_eq_some_iff.mp h
    unfold writeMetadata at h
    split at h
    · cases torn with
      | none =>
        obtain rfl := Option.some.inj h
        exact .writeMetadata hr
      | some n =>
        obtain rfl := Option.some.inj h
        exact .tornMetadata hr
    · cases h
  | lock r =>
    obtain ⟨call, hr, h⟩ := Option.bind_eq_some_iff.mp h
    exact trans_lock hr h
  | renameContent r ok =>
    obtain ⟨call, hr, h⟩ := Option.bind_eq_some_iff.mp h
    unfold renameContent at h
    split at h
    · split at h
      · rename_i hnone
        obtain rfl := Option.some.inj h
        exact .renameContentFail hr fun _ => hnone
      · rename_i files hfiles
        cases ok with
        | false =>
          obtain rfl := Option.some.inj h
          exact .renameContentFail hr fun hok => by cases hok
        | true =>
          obtain rfl := Option.some.inj h
          exact .renameContent hr hfiles
    · cases h
  | renameMetadata r ok =>
    obtain ⟨call, hr, h⟩ := Option.bind_eq_some_iff.mp h
    unfold renameMetadata at h
    split at h
    · split at h
      · rename_i hnone
        obtain rfl := Option.some.inj h
        exact .renameMetadataFail hr fun _ => hnone
      · rename_i files hfiles
        cases ok with
        | false =>
          obtain rfl := Option.some.inj h
          exact .renameMetadataFail hr fun hok => by cases hok
        | true =>
          obtain rfl := Option.some.inj h
          exact .renameMetadata hr hfiles
    · cases h
  | update r =>
    obtain ⟨call, hr, h⟩ := Option.bind_eq_some_iff.mp h
    unfold update at h
    split at h
    · rename_i p
      obtain rfl := Option.some.inj h
      exact .update hr
    · cases h
  | unlink r ok =>
    obtain ⟨call, hr, h⟩ := Option.bind_eq_some_iff.mp h
    unfold unlink at h
    split at h
    · cases ok with
      | true =>
        obtain rfl := Option.some.inj h
        exact .unlink hr
      | false =>
        simp only [Bool.false_eq_true, if_false] at h
        split at h
        · rename_i key uuid
          obtain rfl := Option.some.inj h
          exact .unlinkFail hr (Or.inr ⟨⟨key, uuid, rfl⟩, rfl⟩)
        · obtain rfl := Option.some.inj h
          exact .unlinkFail hr (Or.inl rfl)
    · cases h
  | unlock r =>
    obtain ⟨call, hr, h⟩ := Option.bind_eq_some_iff.mp h
    unfold unlock at h
    split at h
    · obtain rfl := Option.some.inj h
      exact .unlock hr
    · cases h

/-! ### The calls after a step -/

@[simp] theorem calls_published {p : Publication} : (s.published cfg p).calls = s.calls := by
  unfold published
  split <;> rfl

@[simp] theorem publishLock_published {p : Publication} :
    (s.published cfg p).publishLock = s.publishLock := by
  unfold published
  split <;> rfl

@[simp] theorem state_published {p : Publication} :
    (s.published cfg p).state = (s.state.publish cfg p).1 := by
  unfold published
  split <;> rfl

theorem Trans.calls (h : Trans cfg s a s') {r' : Nat} (hne : r' ≠ a.call) :
    s'.calls.get r' = s.calls.get r' := by
  cases h with
  | getMiss _ => rfl
  | update _ => exact (Store.get_put_of_ne _ _ hne).trans (by rw [calls_published])
  | _ => exact Store.get_put_of_ne _ _ hne

/-! ### The lock -/

def Locked (s : CacheSystem) : Prop :=
  ∀ r call, s.calls.get r = some call → call.stage.locked = true → s.publishLock = some r

theorem Locked.eq (h : Locked s) {r r' : Nat} {call call' : CacheCall}
    (hr : s.calls.get r = some call) (hr' : s.calls.get r' = some call')
    (hl : call.stage.locked = true) (hl' : call'.stage.locked = true) : r' = r :=
  Option.some.inj ((h r' call' hr' hl').symm.trans (h r call hr hl))

theorem Trans.publishLock (h : Trans cfg s a s') (hs : Locked s) :
    ∀ r', r' ≠ a.call → s.publishLock = some r' → (∃ call, s.calls.get r' = some call ∧
      call.stage.locked = true) → s'.publishLock = some r' := by
  intro r' hne hlock hcall
  have hkeep : ∀ (t : CacheSystem) (op : CacheOp), t.publishLock = s.publishLock →
      (t.fail a.call op).publishLock = some r' := by
    intro t op ht
    simp only [fail, set, ht, hlock, Option.some.injEq]
    rw [if_neg hne]
  obtain ⟨call, hcall, hl⟩ := hcall
  have hunlock : ∀ call', s.calls.get a.call = some call' → call'.stage.locked = true → False :=
    fun call' hr hl' => hne (hs.eq hr hcall hl' hl)
  cases h with
  | lockPublish _ hfree _ | lockStale _ hfree _ _ | lockRemove _ hfree _ | lockSkip _ hfree _ =>
    rw [hfree] at hlock
    cases hlock
  | openFail _ | tornContent _ | tornMetadata _ | renameContentFail _ _
  | renameMetadataFail _ _ => exact hkeep _ _ rfl
  | unlock hr => exact (hunlock _ hr rfl).elim
  | update hr => exact (publishLock_published).trans hlock
  | _ => exact hlock

theorem locked_of_trans (hs : Locked s) (h : Trans cfg s a s') : Locked s' := by
  intro r' call' hr' hl'
  by_cases hne : r' = a.call
  · subst hne
    have hown : ∀ (op : CacheOp) (stage : Stage), s'.calls.get a.call = some ⟨op, stage⟩ →
        stage.locked = false → s'.publishLock = some a.call := by grind
    cases h with
    | getMiss _ => exact hs _ _ hr' hl'
    | lockPublish _ _ _ | lockStale _ _ _ _ | lockRemove _ _ _ | lockSkip _ _ _ => rfl
    | renameContent hr _ | renameMetadata hr _ | unlink hr => exact hs _ _ hr rfl
    | unlinkFail hr _ => exact hs _ _ hr rfl
    | update hr => exact publishLock_published.trans (hs _ _ hr rfl)
    | _ => exact hown _ _ (Store.get_put_self _ _ _) rfl
  · rw [h.calls hne] at hr'
    exact h.publishLock hs r' hne (hs r' call' hr' hl') ⟨call', hr', hl'⟩

end CacheSystem

end Pkgly.S3
