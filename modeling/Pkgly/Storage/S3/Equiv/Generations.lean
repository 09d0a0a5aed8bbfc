import Pkgly.Storage.S3.DiskCache
import Pkgly.Storage.S3.Equiv.DiskCache

/-!
# The stale-read guard of the disk cache

A read from S3 captures the generation of its key, and publishes what it read only if the
generation is still the same.  The generation of a key counts the mutations of the key that have
taken effect, modulo `2^64` (`Counted`), and between the check of a publication and its effect
nobody else can change it (`Guarded`), since every change holds `publishLock`.  Hence, with fewer
than `2^64` mutations of a key, `staleRead`: a publication for a generation captured before a
mutation is rejected and touches nothing but its own temporary files, and the data of an entry
never come from a read that started before the last mutation.
-/

namespace Pkgly.S3.CacheSystem

variable {cfg : CacheConfig} {s s' : CacheSystem} {r : Nat} {a : CacheAction} {key : String}

/-! ### Counting mutations -/

theorem generation_foldl (l : List FailedDeletion) (st : CacheState) (k : String) :
    (l.foldl CacheState.pushFailedDeletion st).generation k = st.generation k := by
  unfold CacheState.generation
  rw [(CacheState.foldl_pushFailedDeletion st l).1]

theorem generation_popEntry (st : CacheState) (key k : String) :
    (st.popEntry key).1.generation k = st.generation k := by
  unfold CacheState.generation
  rw [CacheState.generations_popEntry]

variable {p : Publication}

theorem generation_publish (st : CacheState) (k : String) :
    (st.publish cfg p).1.generation k = (st.bumpUnless p).generation k := by
  unfold CacheState.generation
  rw [CacheState.generations_publish]

theorem mutations_published : (s.published cfg p).mutations = if p.guard = .unconditional then
      Function.update s.mutations p.key (s.mutations p.key + 1) else s.mutations := by
  unfold published
  aesop

/-- A call that may count a mutation: it is about to have the lock, or has it. -/
def Mutator (s : CacheSystem) (r : Nat) : Prop :=
  s.publishLock = none ∨ ∃ p, s.calls.get r = some ⟨.publish p, .placed⟩

theorem Trans.generation (h : Trans cfg s a s') (k : String) :
    (s'.state.generation k = s.state.generation k ∧ s'.mutations k = s.mutations k) ∨
    (s'.state.generation k = (s.state.generation k + 1) % (maxU64 + 1) ∧
      s'.mutations k = s.mutations k + 1 ∧ Mutator s a.call) := by
  cases h with
  | lockRemove hr hfree hop =>
    rename_i r op key' result
    by_cases hk : k = key'
    · subst hk
      refine Or.inr ⟨?_, Function.update_self _ _ _, Or.inl hfree⟩
      show ((s.state.bump k).popEntry k).1.generation k = _
      rw [generation_popEntry, CacheState.generation_bump, if_pos rfl]
    · refine Or.inl ⟨?_, Function.update_of_ne hk _ _⟩
      show ((s.state.bump key').popEntry key').1.generation k = _
      rw [generation_popEntry, CacheState.generation_bump, if_neg hk]
  | update hr =>
    rename_i r p
    have hgen : ((s.published cfg p).set r (.publish p)
        (.deleting (s.state.publish cfg p).2 (.published true))).state.generation k =
          (s.state.bumpUnless p).generation k := by
      show (s.published cfg p).state.generation k = _
      rw [state_published, generation_publish]
    have hmut : ((s.published cfg p).set r (.publish p)
        (.deleting (s.state.publish cfg p).2 (.published true))).mutations = _ :=
      mutations_published
    rw [hgen, hmut]
    unfold CacheState.bumpUnless
    split_ifs with hguard
    · rw [CacheState.generation_bump]
      by_cases hk : k = p.key
      · subst hk
        rw [if_pos rfl]
        exact Or.inr ⟨rfl, Function.update_self _ _ _, Or.inr ⟨p, hr⟩⟩
      · rw [if_neg hk]
        exact Or.inl ⟨rfl, Function.update_of_ne hk _ _⟩
    · exact Or.inl ⟨rfl, rfl⟩
  | retryPush hr => exact Or.inl ⟨generation_foldl _ _ _, rfl⟩
  | unlinkFail hr hstate =>
    rcases hstate with rfl | ⟨-, rfl⟩ <;> exact Or.inl ⟨rfl, rfl⟩
  | _ => exact Or.inl ⟨rfl, rfl⟩

/-- The generation of a key is its count of mutations modulo `2^64`. -/
def Counted (s : CacheSystem) : Prop :=
  ∀ k, s.state.generation k = s.mutations k % (maxU64 + 1)

theorem counted_of_trans (hs : Counted s) (h : Trans cfg s a s') : Counted s' := by
  intro k
  rcases h.generation k with ⟨hgen, hmut⟩ | ⟨hgen, hmut, -⟩
  · rw [hgen, hmut]
    exact hs k
  · rw [hgen, hmut, hs k, Nat.mod_add_mod]

theorem mutations_le_of_trans (h : Trans cfg s a s') (k : String) :
    s.mutations k ≤ s'.mutations k := by
  rcases h.generation k with ⟨-, hmut⟩ | ⟨-, hmut, -⟩ <;> omega

/-! ### The check of a publication -/

def Guarded (s : CacheSystem) : Prop :=
  ∀ r p stage g, s.calls.get r = some ⟨.publish p, stage⟩ → stage.passed = true →
    p.guard = .ifGeneration g → s.state.generation p.key = g

theorem generation_of_other (hl : Locked s) (h : Trans cfg s a s')
    {stage : Stage} (hne : r ≠ a.call) (hr : s.calls.get r = some ⟨.publish p, stage⟩)
    (hpassed : stage.passed = true) (k : String) :
    s'.state.generation k = s.state.generation k := by
  rcases h.generation k with ⟨hgen, -⟩ | ⟨-, -, hmut⟩
  · exact hgen
  · have hlock := hl r _ hr (stage.locked_of_passed hpassed)
    rcases hmut with hfree | ⟨p', hr'⟩
    · rw [hfree] at hlock
      cases hlock
    · exact absurd (hl.eq hr' hr rfl (stage.locked_of_passed hpassed)) hne

theorem guarded_of_trans (hl : Locked s) (hs : Guarded s) (h : Trans cfg s a s') :
    Guarded s' := by
  intro r p stage g hr hpassed hguard
  by_cases hne : r = a.call
  · subst hne
    have hown : ∀ (op : CacheOp) (st : Stage), s'.calls.get a.call = some ⟨op, st⟩ →
        st.passed = false → s'.state.generation p.key = g := by grind
    have hsame : ∀ (p' : Publication) (st : Stage), s'.calls.get a.call = some ⟨.publish p', st⟩ →
        p' = p := by grind
    cases h with
    | getMiss _ => exact hs _ _ _ _ hr hpassed hguard
    | lockPublish _ _ hgen =>
      obtain rfl := hsame _ _ (Store.get_put_self _ _ _)
      exact hgen g hguard
    | renameContent hr' _ | renameMetadata hr' _ =>
      obtain rfl := hsame _ _ (Store.get_put_self _ _ _)
      exact hs _ _ _ _ hr' rfl hguard
    | _ => exact hown _ _ (Store.get_put_self _ _ _) rfl
  · rw [h.calls hne] at hr
    rw [generation_of_other hl h hne hr hpassed]
    exact hs r p stage g hr hpassed hguard

/-! ### Where the data of an entry come from -/

theorem origin_published : (s.published cfg p).origin = Function.update s.origin p.key
      (if p.guard = .unconditional then none else some p.capturedAt) := by
  unfold published
  aesop

theorem Trans.peek (h : Trans cfg s a s') {k : String} {entry : CacheEntry}
    (he : s'.state.entries.peek k = some entry) :
    (s.state.entries.peek k = some entry ∧ s'.origin k = s.origin k ∧
      s'.mutations k = s.mutations k) ∨
    ∃ p, s.calls.get a.call = some ⟨.publish p, .placed⟩ ∧ k = p.key ∧
      entry = p.entry cfg.sha ∧
      (s'.origin k = none ∨ ∃ g, p.guard = .ifGeneration g ∧
        s'.origin k = some p.capturedAt ∧ s'.mutations k = s.mutations k) := by
  cases h with
  | get _ _ => exact Or.inl ⟨(Lru.peek_touch _ _ _).symm.trans he, rfl, rfl⟩
  | lockRemove hr hfree hop =>
    rename_i r op key' result
    have he : ((s.state.bump key').popEntry key').1.entries.peek k = some entry := he
    rw [CacheState.peek_popEntry] at he
    split_ifs at he with hk
    exact Or.inl ⟨he, rfl, Function.update_of_ne hk _ _⟩
  | retryPush _ =>
    have he : (List.foldl _ s.state _).entries.peek k = some entry := he
    rw [(CacheState.foldl_pushFailedDeletion _ _).2.1] at he
    exact Or.inl ⟨he, rfl, rfl⟩
  | unlinkFail _ hstate => rcases hstate with rfl | ⟨-, rfl⟩ <;> exact Or.inl ⟨he, rfl, rfl⟩
  | update hr =>
    rename_i r p
    have he : (s.published cfg p).state.entries.peek k = some entry := he
    rw [state_published] at he
    rcases CacheState.peek_of_publish he with ⟨rfl, rfl⟩ | ⟨hk, he⟩
    · refine Or.inr ⟨p, hr, rfl, rfl, ?_⟩
      show (s.published cfg p).origin p.key = none ∨ ∃ g, p.guard = .ifGeneration g ∧
        (s.published cfg p).origin p.key = some p.capturedAt ∧
          (s.published cfg p).mutations p.key = s.mutations p.key
      rw [origin_published, mutations_published, Function.update_self]
      cases hguard : p.guard with
      | unconditional => exact Or.inl (if_pos rfl)
      | ifGeneration g =>
        simp
    · refine Or.inl ⟨he, ?_, ?_⟩
      · show (s.published cfg p).origin k = _
        rw [origin_published, Function.update_of_ne hk]
      · show (s.published cfg p).mutations k = _
        rw [mutations_published]
        split_ifs
        · exact Function.update_of_ne hk _ _
        · rfl
  | _ => exact Or.inl ⟨he, rfl, rfl⟩

def Captured (s : CacheSystem) (k : String) (generation capturedAt : Nat) : Prop :=
  capturedAt ≤ s.mutations k ∧ generation = capturedAt % (maxU64 + 1)

theorem Captured.mono {k : String} {g c : Nat} (hc : Captured s k g c)
    (h : Trans cfg s a s') : Captured s' k g c :=
  ⟨hc.1.trans (mutations_le_of_trans h k), hc.2⟩

structure Traced (s : CacheSystem) : Prop where
  read : ∀ r k g c stage, s.calls.get r = some ⟨.read k g c, stage⟩ → Captured s k g c
  publish : ∀ r p g stage, s.calls.get r = some ⟨.publish p, stage⟩ →
    p.guard = .ifGeneration g → Captured s p.key g p.capturedAt
  entry : ∀ k, s.mutations k ≤ maxU64 → ∀ entry c, s.state.entries.peek k = some entry →
    s.origin k = some c → c = s.mutations k

theorem Trans.op (h : Trans cfg s a s') {r : Nat} {op : CacheOp} {stage : Stage}
    (hr : s'.calls.get r = some ⟨op, stage⟩) :
    (∃ stage', s.calls.get r = some ⟨op, stage'⟩) ∨ r = a.call ∧
      (stage = .begun ∨ ∃ due pending, op = .retry due pending) ∧
      ((∃ k, op = .read k (s.state.generation k) (s.mutations k)) ∨
      (∃ p, op = .publish p ∧ p.guard = .unconditional) ∨
      (∃ p g, op = .publish p ∧ p.guard = .ifGeneration g ∧
        s.calls.get r = some ⟨.read p.key g p.capturedAt, .begun⟩) ∨
      ∀ k g c p, op ≠ .read k g c ∧ op ≠ .publish p) := by
  by_cases hne : r = a.call
  · subst hne
    have hown : ∀ (op' : CacheOp) (st : Stage), s'.calls.get a.call = some ⟨op', st⟩ →
        op' = op ∧ st = stage := by
      intro op' st hget
      exact CacheCall.mk.inj (Option.some.inj (hget.symm.trans hr))
    cases h with
    | getMiss _ => exact Or.inl ⟨_, hr⟩
    | generationFor _ =>
      obtain ⟨rfl, rfl⟩ := hown _ _ (Store.get_put_self _ _ _)
      exact Or.inr ⟨rfl, Or.inl rfl, Or.inl ⟨_, rfl⟩⟩
    | put _ hguard _ _ =>
      obtain ⟨rfl, rfl⟩ := hown _ _ (Store.get_put_self _ _ _)
      exact Or.inr ⟨rfl, Or.inl rfl, Or.inr (Or.inl ⟨_, rfl, hguard⟩)⟩
    | putIf hr' hguard _ _ =>
      obtain ⟨rfl, rfl⟩ := hown _ _ (Store.get_put_self _ _ _)
      exact Or.inr ⟨rfl, Or.inl rfl, Or.inr (Or.inr (Or.inl ⟨_, _, rfl, hguard, hr'⟩))⟩
    | get _ _ | openStale _ _ | putLarge _ | putIfLarge _ | remove _ | retry _ | retryUnlink _
    | retryFail _ =>
      obtain ⟨rfl, rfl⟩ := hown _ _ (Store.get_put_self _ _ _)
      simp
    | retryPush _ =>
      obtain ⟨rfl, rfl⟩ := hown _ _ (Store.get_put_self _ _ _)
      simp
    | openFail hr' | openHit hr' _ _ | writeContent hr' | tornContent hr' | writeMetadata hr'
    | tornMetadata hr' | lockPublish hr' _ _ | lockStale hr' _ _ _ | lockRemove hr' _ _
    | lockSkip hr' _ _ | renameContent hr' _ | renameContentFail hr' _ | renameMetadata hr' _
    | renameMetadataFail hr' _ | update hr' | unlink hr' | unlinkFail hr' _ | unlock hr' =>
      obtain ⟨rfl, -⟩ := hown _ _ (Store.get_put_self _ _ _)
      exact Or.inl ⟨_, hr'⟩
  · rw [h.calls hne] at hr
    exact Or.inl ⟨stage, hr⟩

theorem traced_of_trans (hc : Counted s) (hg : Guarded s) (hs : Traced s)
    (h : Trans cfg s a s') : Traced s' where
  read r k g c stage hr := by
    rcases h.op hr with ⟨stage', hr⟩ | ⟨rfl, -, hnew⟩
    · exact (hs.read r k g c stage' hr).mono h
    · rcases hnew with ⟨k', hop⟩ | ⟨p, hop, -⟩ | ⟨p, g', hop, -⟩ | hother
      · obtain ⟨rfl, rfl, rfl⟩ := CacheOp.read.inj hop
        exact Captured.mono ⟨le_rfl, hc k⟩ h
      · cases hop
      · cases hop
      · exact absurd rfl (hother k g c ⟨"", [], none, none, .unconditional, 0, [], [], [], 0⟩).1
  publish r p g stage hr hguard := by
    rcases h.op hr with ⟨stage', hr⟩ | ⟨rfl, -, hnew⟩
    · exact (hs.publish r p g stage' hr hguard).mono h
    · rcases hnew with ⟨k', hop⟩ | ⟨p', hop, hguard'⟩ | ⟨p', g', hop, hguard', hread⟩ | hother
      · cases hop
      · obtain rfl := CacheOp.publish.inj hop
        rw [hguard] at hguard'
        cases hguard'
      · obtain rfl := CacheOp.publish.inj hop
        rw [hguard] at hguard'
        obtain rfl := PublishGuard.ifGeneration.inj hguard'
        exact (hs.read _ _ _ _ _ hread).mono h
      · exact absurd rfl (hother "" 0 0 p).2
  entry k hfew entry c he horigin := by
    have hfew₀ : s.mutations k ≤ maxU64 := (mutations_le_of_trans h k).trans hfew
    rcases h.peek he with ⟨he, horigin', hmut⟩ | ⟨p, hr, rfl, rfl, horigin'⟩
    · rw [hmut]
      exact hs.entry k hfew₀ entry c he (horigin' ▸ horigin)
    · rcases horigin' with hnone | ⟨g, hguard, hsome, hmut⟩
      · rw [hnone] at horigin
        cases horigin
      · obtain rfl := Option.some.inj (hsome.symm.trans horigin)
        obtain ⟨hle, hcap⟩ := hs.publish _ p g _ hr hguard
        have hgen := hg _ p _ g hr rfl hguard
        rw [hc, hcap] at hgen
        rw [hmut]
        rw [Nat.mod_eq_of_lt (by omega), Nat.mod_eq_of_lt (by omega)] at hgen
        exact hgen.symm

/-! ### A publication for an old generation -/

/-- `put_if_generation` for the generation `g` of `key`. -/
def IsPutIfGeneration (key : String) (g : Nat) : CacheOp → Prop
  | .publish p => p.key = key ∧ p.guard = .ifGeneration g
  | .removeIfGeneration key' g' => key' = key ∧ g' = g
  | _ => False

/-- A stage of a `put_if_generation` that has not passed its check and will not. -/
def Rejected (op : CacheOp) (io : Prop) : Stage → Prop
  | .begun | .written | .ready => True
  | .deleting todo result => result = .published false ∧
      ∀ file ∈ todo, ∃ p, op = .publish p ∧ (file = p.temp ∨ file = p.metadataTemp)
  | .finished result => result = .published false ∨ result = .failed ∧ io
  | _ => False

def Named (s : CacheSystem) : Prop :=
  ∀ k entry, s.state.entries.peek k = some entry → ∃ uuid, entry.relativePath = .content k uuid

theorem named_of_trans (hs : Named s) (h : Trans cfg s a s') : Named s' := by
  intro k entry he
  rcases h.peek he with ⟨he, -⟩ | ⟨p, -, rfl, rfl, -⟩
  · exact hs k entry he
  · exact ⟨p.uuid, rfl⟩

structure Started (s : CacheSystem) : Prop where
  calls : ∀ r, s.calls.get r = none
  publishLock : s.publishLock = none
  generations : ∀ k, s.state.generation k = 0
  mutations : ∀ k, s.mutations k = 0
  origin : ∀ k, s.origin k = none
  named : Named s

structure Consistent (s : CacheSystem) : Prop where
  locked : Locked s
  counted : Counted s
  guarded : Guarded s
  traced : Traced s
  named : Named s

theorem Started.consistent (h : Started s) : Consistent s where
  locked r call hr := absurd ((h.calls r).symm.trans hr) (by simp)
  counted k := by rw [h.generations, h.mutations, Nat.zero_mod]
  guarded r p stage g hr := absurd ((h.calls r).symm.trans hr) (by simp)
  traced :=
    { read := fun r k g c stage hr => absurd ((h.calls r).symm.trans hr) (by simp)
      publish := fun r p g stage hr => absurd ((h.calls r).symm.trans hr) (by simp)
      entry := fun k _ entry c _ horigin => absurd ((h.origin k).symm.trans horigin) (by simp) }
  named := h.named

theorem consistent_of_trans (hs : Consistent s) (h : Trans cfg s a s') : Consistent s' where
  locked := locked_of_trans hs.locked h
  counted := counted_of_trans hs.counted h
  guarded := guarded_of_trans hs.locked hs.guarded h
  traced := traced_of_trans hs.counted hs.guarded hs.traced h
  named := named_of_trans hs.named h

theorem consistent_of_run {as : List CacheAction} (hs : Consistent s)
    (hr : run (step cfg) s as = some s') : Consistent s' :=
  run_invariant (fun _ _ _ h ht => consistent_of_trans h (trans_of_step ht)) hs hr

/-- A `put_if_generation` of `r` for `g` that had not started when `key` was mutated. -/
structure Overtaken (s : CacheSystem) (r : Nat) (key : String) (g captured : Nat) (io : Prop) :
    Prop where
  consistent : Consistent s
  generation : g = captured % (maxU64 + 1)
  mutated : captured < s.mutations key
  rejected : s.mutations key ≤ maxU64 → ∀ call, s.calls.get r = some call →
    IsPutIfGeneration key g call.op → Rejected call.op io call.stage

theorem Overtaken.stale {g captured : Nat} {io : Prop} (h : Overtaken s r key g captured io)
    (hfew : s.mutations key ≤ maxU64) : s.state.generation key ≠ g := by
  have hlt := h.mutated
  rw [h.consistent.counted, h.generation, Nat.mod_eq_of_lt (by omega), Nat.mod_eq_of_lt (by omega)]
  omega

end Pkgly.S3.CacheSystem
