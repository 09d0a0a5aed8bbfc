import Pkgly.Virtual.Equiv.Members
import Pkgly.Virtual.Updates

/-!
# Does a virtual repository stay consistent?

After all requests have ended a virtual repository is `Consistent` if it was before, in every run
(`consistent_of_updates`) in which

* `update_members` writes other repositories of the type, with priorities below `2 ^ 31`,
* `update_resolution_order` writes the members that are stored,
* `update_config` writes the members that are stored, and nothing or an enabled hosted member to
  publish to,
* the rows are replaced by those of the stored config, and by one request at a time,
* the reload of a request that has written fails only while another one is still to come,
* a request that has written and not reloaded is not answered with an error (`virtualGuard`).

A priority from `2 ^ 31` on is another one in the running repository (`not_consistent_priority`).
-/

namespace Pkgly.Virtual

open Resumption

variable {env : Surroundings}

/-! ### The steps that do not go wrong -/

def storedMembers (s : VirtualState) : List VirtualRepositoryMemberConfig :=
  match s.getConfig with
  | .virtual config => config.memberRepositories
  | _ => []

def KeepsMembers (env : Surroundings) (s : VirtualState) : RepositoryConfig → Prop
  | .virtual config =>
    config.memberships.Perm ((storedMembers s).map (·.membership)) ∧
      PublishOk env config.memberships config.publishTo
  | _ => False

instance (s : VirtualState) (config : RepositoryConfig) :
    Decidable (KeepsMembers env s config) := by
  unfold KeepsMembers
  split <;> infer_instance

def virtualGuard (env : Surroundings) (label : VirtualStep) (fails : Bool) (s : VirtualSite)
    (p : VirtualTask) : Prop :=
  match label with
  | .writeMembers config => fails = true ∨ ∀ m ∈ config.memberRepositories,
      m.priority.toNat < 2 ^ 31 ∧ IsAdmitted env m.repositoryId
  | .writeOrder config => fails = true ∨ storedMembers s.state = config.memberRepositories
  | .writeConfig config => fails = true ∨ KeepsMembers env s.state config
  | .commitRows config deleted => fails = true ∨
      storedMembers s.state = config.memberRepositories ∧ ∀ row ∈ s.state.rows, row.id ∈ deleted
  | .reload => fails = true → p.writes = [] ∨ ∃ n ∈ s.owed, n ∉ p.writes
  | .answer true => p.writes = []
  | _ => True

instance (label : VirtualStep) (fails : Bool) (s : VirtualSite) (p : VirtualTask) :
    Decidable (virtualGuard env label fails s p) := by
  unfold virtualGuard
  split <;> infer_instance

/-! ### The invariant -/

/-- The rows are those of the config unless they are still to be replaced, and the running
repository has them unless it is still to be reloaded. -/
structure SiteOk (env : Surroundings) (s : VirtualSite) (config : VirtualRepositoryConfig) :
    Prop where
  stored : s.state.config = some (.virtual config)
  valid : ConfigOk env config
  priority : ∀ m ∈ config.memberRepositories, m.priority.toNat < 2 ^ 31
  rows : s.state.rows ≠ []
  settled : s.unsettled = [] → (s.state.rows.map (·.membership)).Perm config.memberships
  reloaded : s.owed = [] → Agrees env config s.state.running
  unsettled : ∀ n ∈ s.unsettled, n ∈ s.owed
  owed : ∀ n ∈ s.owed, n < s.nextWrite

/-- What no step takes back. -/
structure Later (s t : VirtualSite) : Prop where
  nextWrite : s.nextWrite ≤ t.nextWrite
  unsettled : ∀ n ∈ t.unsettled, n < s.nextWrite → n ∈ s.unsettled

section Invariant

variable {s t u : VirtualSite} {p : VirtualTask} {config : VirtualRepositoryConfig}

theorem later_refl (s : VirtualSite) : Later s s := ⟨le_refl _, fun _ h _ => h⟩

theorem Later.trans (h : Later s t) (h' : Later t u) : Later s u where
  nextWrite := h.nextWrite.trans h'.nextWrite
  unsettled n hn hlt := h.unsettled n (h'.unsettled n hn (hlt.trans_le h.nextWrite)) hlt

def virtualProtocol (env : Surroundings) : Protocol VirtualStep Bool VirtualSite VirtualTask where
  guard := virtualGuard env
  inv s := ∃ config, SiteOk env s config
  keeps := Later
  keeps_refl := later_refl
  keeps_trans _ _ _ := Later.trans

def Counted (s : VirtualSite) (p : VirtualTask) : Prop := ∀ n ∈ p.writes, n < s.nextWrite

def Settled (s : VirtualSite) (p : VirtualTask) : Prop :=
  ∀ n ∈ p.writes, n < s.nextWrite ∧ n ∉ s.unsettled

theorem Counted.of_later (h : Counted s p) (hlater : Later s t) : Counted t p :=
  fun n hn => (h n hn).trans_le hlater.nextWrite

theorem Settled.of_later (h : Settled s p) (hlater : Later s t) : Settled t p := by
  intro n hn
  obtain ⟨hlt, hsettled⟩ := h n hn
  exact ⟨hlt.trans_le hlater.nextWrite, fun hmem => hsettled (hlater.unsettled n hmem hlt)⟩

theorem siteOk_start {state : VirtualState} (h : Consistent env state) :
    ∃ config, SiteOk env (.start state) config := by
  obtain ⟨config, hstored, hconfig, hrows, hagrees, -⟩ := h
  refine ⟨config, hstored, hconfig, fun m hm => ?_, fun hnil => ?_, fun _ => hrows,
    fun _ => hagrees, fun _ h => (by cases h), fun _ h => (by cases h)⟩
  · obtain ⟨row, -, hrow⟩ := List.mem_map.mp (hrows.symm.subset (List.mem_map_of_mem hm))
    have hpriority : row.priority.toInt = m.priority.toNat := (Prod.mk.inj (Prod.mk.inj hrow).2).1
    have hlt := row.priority.toInt_lt
    omega
  · change state.rows = [] at hnil
    rw [hnil, List.map_nil] at hrows
    exact hconfig.nonempty (List.map_eq_nil_iff.mp hrows.symm.eq_nil)

theorem SiteOk.consistent (hok : SiteOk env s config) (howed : s.owed = []) :
    Consistent env s.state := by
  have hsettled : s.unsettled = [] := by
    refine List.eq_nil_iff_forall_not_mem.mpr fun n hn => ?_
    have hmem := hok.unsettled n hn
    rw [howed] at hmem
    cases hmem
  exact ⟨config, hok.stored, hok.valid, hok.settled hsettled, hok.reloaded howed,
    load_spec hok.stored hok.valid (hok.settled hsettled)⟩

theorem SiteOk.storedMembers (hok : SiteOk env s config) :
    storedMembers s.state = config.memberRepositories := by
  rw [Virtual.storedMembers, VirtualState.getConfig, hok.stored]
  rfl

/-! ### What the steps keep -/

def VirtualState.write (s : VirtualState) (config : RepositoryConfig) : VirtualState :=
  { s with config := some config, updatedAt := s.updatedAt + 1 }

theorem recordWrite_write (settled : Bool) (s : VirtualSite) (p : VirtualTask)
    (config : RepositoryConfig) :
    recordWrite settled (s, p) (s.state.write config) =
      ({ state := s.state.write config
         owed := s.nextWrite :: s.owed
         unsettled := if settled then s.unsettled else s.nextWrite :: s.unsettled
         nextWrite := s.nextWrite + 1 }, ⟨s.nextWrite :: p.writes⟩) := by
  simp_all [recordWrite, VirtualState.write]

variable {config' : VirtualRepositoryConfig}

theorem siteOk_writeMembers (hok : SiteOk env s config) (hconfig : ConfigOk env config')
    (hpriority : ∀ m ∈ config'.memberRepositories, m.priority.toNat < 2 ^ 31)
    (hcounted : Counted s p) : let u := recordWrite false (s, p) (s.state.write (.virtual config'))
    SiteOk env u.1 config' ∧ Later s u.1 ∧ Counted u.1 u.2 := by
  rw [recordWrite_write]
  refine ⟨⟨rfl, hconfig, hpriority, hok.rows, fun h => (by cases h), fun h => (by cases h), ?_, ?_⟩,
    ⟨Nat.le_succ _, ?_⟩, ?_⟩
  · intro n hn
    rcases List.mem_cons.mp hn with rfl | hn
    · exact List.mem_cons_self
    · exact List.mem_cons_of_mem _ (hok.unsettled n hn)
  · intro n hn
    rcases List.mem_cons.mp hn with rfl | hn
    · exact Nat.lt_succ_self _
    · exact Nat.lt_succ_of_lt (hok.owed n hn)
  · grind
  · intro n hn
    rcases List.mem_cons.mp hn with rfl | hn
    · exact Nat.lt_succ_self _
    · exact Nat.lt_succ_of_lt (hcounted n hn)

theorem siteOk_writeSame (hok : SiteOk env s config)
    (hmembers : config'.memberships.Perm config.memberships)
    (hpublish : PublishOk env config'.memberships config'.publishTo) (hsettled : Settled s p) :
    let u := recordWrite true (s, p) (s.state.write (.virtual config'))
    SiteOk env u.1 config' ∧ Later s u.1 ∧ Settled u.1 u.2 := by
  have hmember : ∀ m ∈ config'.memberRepositories, ∃ m' ∈ config.memberRepositories,
      m'.repositoryId = m.repositoryId ∧ (m'.priority.toNat : ℤ) = m.priority.toNat := by
    intro m hm
    obtain ⟨m', hm', heq⟩ := List.mem_map.mp (hmembers.subset (List.mem_map_of_mem hm))
    exact ⟨m', hm', (Prod.mk.inj heq).1, (Prod.mk.inj (Prod.mk.inj heq).2).1⟩
  have hconfig : ConfigOk env config' := by
    refine ⟨fun hnil => ?_, ?_, fun m hm => ?_, hpublish⟩
    · rw [VirtualRepositoryConfig.memberships, hnil, List.map_nil] at hmembers
      exact hok.valid.nonempty (List.map_eq_nil_iff.mp hmembers.symm.eq_nil)
    · have hids := hmembers.map (·.1)
      rw [VirtualRepositoryConfig.memberships, VirtualRepositoryConfig.memberships, List.map_map,
        List.map_map] at hids
      exact hids.nodup_iff.mpr hok.valid.nodup
    · obtain ⟨m', hm', hid, -⟩ := hmember m hm
      exact hid ▸ hok.valid.admitted m' hm'
  have hfresh : s.nextWrite ∉ s.unsettled := fun hmem =>
    Nat.lt_irrefl _ (hok.owed _ (hok.unsettled _ hmem))
  rw [recordWrite_write]
  refine ⟨⟨rfl, hconfig, fun m hm => ?_, hok.rows, fun h => (hok.settled h).trans hmembers.symm,
    fun h => (by cases h), fun n hn => List.mem_cons_of_mem _ (hok.unsettled n hn), ?_⟩,
    ⟨Nat.le_succ _, fun _ hn _ => hn⟩, ?_⟩
  · obtain ⟨m', hm', -, hpriority⟩ := hmember m hm
    have hlt := hok.priority m' hm'
    omega
  · intro n hn
    rcases List.mem_cons.mp hn with rfl | hn
    · exact Nat.lt_succ_self _
    · exact Nat.lt_succ_of_lt (hok.owed n hn)
  · intro n hn
    rcases List.mem_cons.mp hn with rfl | hn
    · exact ⟨Nat.lt_succ_self _, hfresh⟩
    · exact ⟨Nat.lt_succ_of_lt (hsettled n hn).1, (hsettled n hn).2⟩

theorem siteOk_commitRows (hok : SiteOk env s config)
    {deleted : List ℕ} {state : VirtualState} (hcounted : Counted s p)
    (hmembers : storedMembers s.state = config'.memberRepositories)
    (hdeleted : ∀ row ∈ s.state.rows, row.id ∈ deleted)
    (h : commitRows env config'.memberRepositories deleted s.state = some state) :
    let u := record (.commitRows config' deleted) (s, p) state
    SiteOk env u.1 config ∧ Later s u.1 ∧ Settled u.1 u.2 := by
  obtain rfl := of_commitRows hdeleted h
  rw [hok.storedMembers] at hmembers
  rw [← hmembers]
  have hpos : 0 < config.memberRepositories.length :=
    List.length_pos_iff.mpr hok.valid.nonempty
  have hlt : s.state.nextRowId < s.state.nextRowId + config.memberRepositories.length :=
    Nat.lt_add_of_pos_right hpos
  unfold record
  simp only [if_pos hlt]
  refine ⟨⟨hok.stored, hok.valid, hok.priority, ?_, fun _ => ?_, hok.reloaded, ?_, hok.owed⟩,
    ⟨le_refl _, fun n hn _ => (List.mem_filter.mp hn).1⟩, ?_⟩
  · grind [length_newRows, newRows, List.length_nil]
  · change ((newRows _ _).map _).Perm _
    rw [map_newRows hok.priority]
    exact List.Perm.refl _
  · exact fun n hn => hok.unsettled n (List.mem_filter.mp hn).1
  · intro n hn
    aesop

theorem siteOk_reload (hok : SiteOk env s config) (hsettled : Settled s p) {fails : Bool}
    (hguard : virtualGuard env .reload fails s p) :
    let u := record .reload (s, p) (if fails then s.state else (reload env s.state).2)
    SiteOk env u.1 config ∧ Later s u.1 ∧ u.2.writes = [] := by
  have hsame : s.unsettled.filter (fun n => !p.writes.contains n) = s.unsettled := by
    refine List.filter_eq_self.mpr fun n hn => ?_
    rw [Bool.not_eq_true', ← Bool.not_eq_true, List.contains_iff_mem]
    exact fun hmem => (hsettled n hmem).2 hn
  have hreload : ∃ running, (reload env s.state).2 = { s.state with running } :=
    reload_keeps hok.rows
  obtain ⟨running, hkeeps⟩ := hreload
  have hstate : ∃ running, (if fails then s.state else (reload env s.state).2) =
      { s.state with running } := by aesop
  obtain ⟨running', hstate'⟩ := hstate
  have hmem : ∀ n ∈ s.unsettled, n ∈ s.owed.filter fun n => !p.writes.contains n := by
    intro n hn
    rw [← hsame] at hn
    obtain ⟨hn, hnot⟩ := List.mem_filter.mp hn
    exact List.mem_filter.mpr ⟨hok.unsettled n hn, hnot⟩
  refine ⟨?_, ?_, rfl⟩
  · unfold record
    dsimp only
    rw [hsame]
    have hagrees : s.owed.filter (fun n => !p.writes.contains n) = [] →
        Agrees env config (if fails then s.state else (reload env s.state).2).running := by
      intro howed
      have hnone : s.unsettled = [] := by
        refine List.eq_nil_iff_forall_not_mem.mpr fun n hn => ?_
        have := hmem n hn
        rw [howed] at this
        cases this
      cases fails with
      | true =>
        rw [if_pos rfl]
        rcases hguard rfl with hwrites | ⟨n, hn, hnot⟩
        · have hall : s.owed.filter (fun n => !p.writes.contains n) = s.owed := by
            rw [hwrites]
            exact List.filter_eq_self.mpr fun _ _ => rfl
          exact hok.reloaded (hall.symm.trans howed)
        simp_all
      | false =>
        obtain ⟨running, hreload, hagrees⟩ :=
          reload_spec hok.stored hok.valid (hok.settled hnone)
        rw [if_neg Bool.false_ne_true, hreload]
        exact hagrees
    rw [hstate'] at hagrees ⊢
    exact ⟨hok.stored, hok.valid, hok.priority, hok.rows, hok.settled, hagrees, hmem,
      fun n hn => hok.owed n (List.mem_filter.mp hn).1⟩
  · exact ⟨le_refl _, fun n hn _ => (List.mem_filter.mp hn).1⟩

end Invariant

/-! ### Requests -/

section Rules

variable {α β : Type} {s : VirtualSite} {p : VirtualTask}

def Post (K : α → VirtualSite → VirtualTask → Prop) :
    Except VirtualError α → VirtualSite → VirtualTask → Prop
  | .ok a, s, q => K a s q
  | .error _, _, _ => True

variable {K : α → VirtualSite → VirtualTask → Prop} {K' : β → VirtualSite → VirtualTask → Prop}

theorem safe_then {m : VirtualM α} {k : α → VirtualM β}
    (hm : Safe (virtualProtocol env) (Post K) (onSite m) s p)
    (hk : ∀ a t q, K a t q → Safe (virtualProtocol env) (Post K') (onSite (k a)) t q) :
    Safe (virtualProtocol env) (Post K') (onSite (m >>= k)) s p := by
  rw [onSite, zoom_bind]
  exact safe_bind hm hk fun e t q h => h

def ReadsOnly (label : VirtualStep) (effect : Bool → VirtualState → VirtualState) : Prop :=
  label = .database ∧ ∀ c s, effect c s = s

theorem safe_readsOnly {m : VirtualM α} (hm : m.Steps ReadsOnly) :
    Safe (virtualProtocol env) (Post fun _ t q => q = p ∧ Later s t) (onSite m) s p := by
  have hgeneral : ∀ t, Later s t →
      Safe (virtualProtocol env) (Post fun _ t q => q = p ∧ Later s t) (onSite m) t p := by
    induction m with
    | done r =>
      intro t hlater
      cases r with
      | ok a => exact ⟨rfl, hlater⟩
      | error e => trivial
    | step label effect rest ih =>
      intro t hlater u hlater' hok c _
      obtain ⟨rfl, heffect⟩ := hm.1
      have hstep : record .database (u, p) (effect c u.state) = (u, p) := by
        rw [heffect]
        rfl
      change (∃ config, SiteOk env (record .database (u, p) (effect c u.state)).1 config) ∧
        Later u (record .database (u, p) (effect c u.state)).1 ∧
        Safe (virtualProtocol env) _ (onSite (rest c u.state))
          (record .database (u, p) (effect c u.state)).1
          (record .database (u, p) (effect c u.state)).2
      rw [hstep]
      exact ⟨hok, later_refl u, ih c u.state (hm.2 c u.state) u (hlater.trans hlater')⟩
  exact hgeneral s (later_refl s)

theorem safe_query {e : VirtualError} {f : VirtualState → α} :
    Safe (virtualProtocol env)
      (Post fun a t q => q = p ∧ Later s t ∧ f t.state = a ∧ ∃ config, SiteOk env t config)
      (onSite (query e f)) s p := by
  intro t hlater hok c _
  have hstate : ((if c then (.error e, t.state) else (.ok (f t.state), t.state) :
      Except VirtualError α × VirtualState)).2 = t.state := by
    cases c <;> rfl
  cases c with
  | true => exact ⟨hok, later_refl t, trivial⟩
  | false => exact ⟨hok, later_refl t, rfl, hlater, rfl, hok⟩

theorem safe_step {label : VirtualStep}
    {f : Bool → VirtualState → Except VirtualError α × VirtualState}
    (hself : ∀ t, record label (t, p) t.state = (t, p))
    (h : ∀ t config, Later s t → SiteOk env t config → ∀ c, virtualGuard env label c t p →
      (∃ e, f c t.state = (.error e, t.state)) ∨
        ∃ a state, f c t.state = (.ok a, state) ∧
          (∃ config, SiteOk env (record label (t, p) state).1 config) ∧
            Later t (record label (t, p) state).1 ∧
            K a (record label (t, p) state).1 (record label (t, p) state).2) :
    Safe (virtualProtocol env) (Post K) (onSite (.act label f)) s p := by
  intro t hlater hok c hguard
  change (∃ config, SiteOk env (record label (t, p) (f c t.state).2).1 config) ∧
    Later t (record label (t, p) (f c t.state).2).1 ∧
    Post K (f c t.state).1 (record label (t, p) (f c t.state).2).1
      (record label (t, p) (f c t.state).2).2
  obtain ⟨config, hconfig⟩ := hok
  rcases h t config hlater hconfig c hguard with ⟨e, he⟩ | ⟨a, state, ha, hok', hlater', hK⟩
  · rw [he, hself]
    exact ⟨⟨config, hconfig⟩, later_refl t, trivial⟩
  · rw [ha]
    exact ⟨hok', hlater', hK⟩

theorem safe_statement {label : VirtualStep} {e : VirtualError}
    {f : VirtualState → Option (α × VirtualState)}
    (hself : ∀ t, record label (t, p) t.state = (t, p))
    (h : ∀ t config, Later s t → SiteOk env t config → virtualGuard env label false t p →
      ∀ a state, f t.state = some (a, state) →
        let u := record label (t, p) state
        (∃ config, SiteOk env u.1 config) ∧ Later t u.1 ∧ K a u.1 u.2) :
    Safe (virtualProtocol env) (Post K) (onSite (statement label e f)) s p := by
  refine safe_step hself fun t config hlater hok c hguard => ?_
  cases c with
  | true => exact .inl ⟨_, rfl⟩
  | false =>
    rw [if_neg Bool.false_ne_true]
    cases hf : f t.state with
    | none => exact .inl ⟨_, rfl⟩
    | some r => exact .inr ⟨r.1, r.2, rfl, h t config hlater hok hguard r.1 r.2 hf⟩

end Rules

/-! ### Reading -/

section Reading

variable {α : Type}

theorem steps_query {e : VirtualError} {f : VirtualState → α} : (query e f).Steps ReadsOnly := by
  refine steps_act ⟨rfl, fun c s => ?_⟩
  beta_reduce
  split_ifs
  · rfl
  · rfl

theorem steps_badRequest {message : String} : (badRequest message : VirtualM α).Steps ReadsOnly :=
  steps_throw _

theorem steps_ownStorage : (ownStorage env).Steps ReadsOnly := by
  refine steps_bind steps_query fun storage? => ?_
  cases storage? with
  | none => exact steps_badRequest
  | some storage => exact steps_pure storage

theorem steps_repositoryById {storage : DBStorage} {id : Uuid} :
    (repositoryById env storage id).Steps ReadsOnly := by
  grind [steps_bind, steps_query, steps_badRequest, steps_pure, Resumption.Steps, ReadsOnly,
    repositoryById]

theorem steps_repositoryByName {storage : DBStorage} {name : String} :
    (repositoryByName env storage name).Steps ReadsOnly := by
  refine steps_bind steps_query fun id? => ?_
  cases id? with
  | none => exact steps_badRequest
  | some id => exact steps_pure id

theorem steps_resolveMemberRepositoryId {member : MemberInput} :
    (resolveMemberRepositoryId env member).Steps ReadsOnly := by
  unfold resolveMemberRepositoryId
  by_cases hname : trim member.repositoryName = []
  · rw [if_pos hname]
    exact steps_badRequest
  · rw [if_neg hname]
    grind [steps_bind, steps_ownStorage, steps_repositoryByName, id, steps_repositoryById,
      steps_badRequest, steps_pure]

theorem steps_resolveMemberInputs (members : List MemberInput) :
    (resolveMemberInputs env members).Steps ReadsOnly := by
  induction members with
  | nil => exact steps_pure []
  | cons member members ih =>
    exact steps_bind steps_resolveMemberRepositoryId fun id => steps_bind ih fun _ => steps_pure _

theorem steps_resolvePublishTarget {publishTo : RepositoryReference} :
    (resolvePublishTarget env publishTo).Steps ReadsOnly := by
  refine steps_bind steps_ownStorage fun storage => ?_
  grind [id, steps_bind, steps_repositoryById, steps_pure, steps_repositoryByName]

theorem steps_readVirtualConfig : readVirtualConfig.Steps ReadsOnly := by
  grind [steps_bind, steps_query, steps_badRequest, steps_pure, Resumption.Steps, ReadsOnly,
    readVirtualConfig]

theorem steps_readRepository {authorized : Bool} :
    (readRepository authorized).Steps ReadsOnly := by
  refine steps_bind steps_query fun _ => ?_
  split_ifs
  · exact steps_throw _
  · exact steps_query

theorem steps_insertMembers (members : List VirtualRepositoryMemberConfig) :
    (insertMembers env members).Steps ReadsOnly := by
  induction members with
  | nil => exact steps_pure ()
  | cons member members ih =>
    refine steps_bind (steps_act ⟨rfl, fun c s => ?_⟩) fun _ => ih
    beta_reduce
    split_ifs
    · rfl
    · rfl
    · rfl

theorem steps_hydrateMembers (members : List MemberRow) :
    (hydrateMembers env members).Steps ReadsOnly := by
  induction members with
  | nil => exact steps_pure []
  | cons member members ih =>
    exact steps_bind steps_query fun _ => steps_bind ih fun _ => steps_pure _

theorem steps_listMembers {authorized : Bool} : (listMembers env authorized).Steps ReadsOnly := by
  grind [steps_bind, steps_readRepository, steps_readVirtualConfig, steps_query,
    steps_hydrateMembers, steps_pure, Resumption.Steps, ReadsOnly, listMembers]

end Reading

/-! ### What is written -/

section Writing

variable {s : VirtualSite} {p : VirtualTask} {config : VirtualRepositoryConfig}

def PublishChecked (env : Surroundings) (config : VirtualRepositoryConfig) : Prop :=
  ∀ target, config.publishTo = some target →
    (∃ m ∈ config.memberRepositories, m.repositoryId = target ∧ m.enabled = true) ∧
      (target ≠ env.own.id → IsHostedElsewhere env target)

theorem PublishChecked.publishOk (h : PublishChecked env config)
    (hother : ∀ m ∈ config.memberRepositories, m.repositoryId ≠ env.own.id) :
    PublishOk env config.memberships config.publishTo := by
  cases htarget : config.publishTo with
  | none => trivial
  | some target =>
    obtain ⟨⟨m, hm, rfl, henabled⟩, hhosted⟩ := h target htarget
    exact ⟨⟨_, List.mem_map_of_mem hm, rfl, henabled⟩, hhosted (hother m hm)⟩

theorem safe_validatePublishTarget :
    Safe (virtualProtocol env)
      (Post fun _ t q => q = p ∧ Later s t ∧ PublishChecked env config)
      (onSite (validatePublishTarget env config)) s p := by
  unfold validatePublishTarget
  cases htarget : config.publishTo with
  | none =>
    refine ⟨rfl, later_refl s, fun target h => ?_⟩
    rw [htarget] at h
    cases h
  | some target =>
    dsimp only
    cases hfind : config.memberRepositories.find? fun m => m.repositoryId == target with
    | none => trivial
    | some member =>
      dsimp only
      by_cases henabled : member.enabled = true
      · rw [if_neg (by rw [henabled]; exact Bool.false_ne_true)]
        refine safe_then safe_query fun hosted t q h => ?_
        obtain ⟨rfl, hlater, hhosted, -⟩ := h
        cases hosted with
        | false => trivial
        | true =>
          refine ⟨rfl, hlater, fun target' h => ?_⟩
          obtain rfl := Option.some.inj (htarget.symm.trans h)
          grind [List.mem_of_find?_eq_some, isHosted_iff]
      · rw [if_pos (by rw [Bool.not_eq_true] at henabled; rw [henabled]; rfl)]
        trivial

theorem safe_readVirtualConfig :
    Safe (virtualProtocol env) (Post fun config t q => q = p ∧ Later s t ∧ ConfigOk env config)
      (onSite readVirtualConfig) s p := by
  refine safe_then safe_query fun config t q h => ?_
  obtain ⟨rfl, hlater, hconfig, stored, hok⟩ := h
  have hstored : t.state.getConfig = .virtual stored := by
    rw [VirtualState.getConfig, hok.stored]
    rfl
  obtain rfl := hstored.symm.trans hconfig
  exact ⟨rfl, hlater, hok.valid⟩

theorem steps_requestedTarget {stored : Option Uuid} {requested : Option RepositoryReference} :
    (requestedTarget env stored requested).Steps ReadsOnly := by
  cases requested with
  | none => exact steps_pure _
  | some requested => exact steps_bind steps_resolvePublishTarget fun _ => steps_pure _

theorem safe_requestedConfig {request : UpdateMembersRequest} :
    Safe (virtualProtocol env)
      (Post fun config t q => q = p ∧ Later s t ∧ config.memberRepositories ≠ [] ∧
        (config.memberRepositories.map (·.repositoryId)).Nodup ∧ PublishChecked env config)
      (onSite (requestedConfig env request)) s p := by
  refine safe_then (safe_readsOnly steps_readRepository) fun _ t q h => ?_
  obtain ⟨rfl, hlater⟩ := h
  refine safe_then (safe_readsOnly steps_readVirtualConfig) fun config u q h => ?_
  obtain ⟨rfl, hu⟩ := h
  refine safe_then (safe_readsOnly (steps_resolveMemberInputs _)) fun members v q h => ?_
  obtain ⟨rfl, hv⟩ := h
  by_cases hempty : members = []
  · rw [if_pos hempty]
    trivial
  rw [if_neg hempty]
  by_cases hnodup : (members.map (·.repositoryId)).Nodup
  · rw [if_neg (not_not.mpr hnodup)]
    by_cases httl : request.cacheTtlSeconds = some 0
    · rw [if_pos httl]
      trivial
    rw [if_neg httl]
    refine safe_then (safe_readsOnly steps_requestedTarget) fun publishTo w q h => ?_
    obtain ⟨rfl, hw⟩ := h
    refine safe_then safe_validatePublishTarget fun _ x q h => ?_
    obtain ⟨rfl, hx, hchecked⟩ := h
    exact ⟨rfl, (hlater.trans hu).trans ((hv.trans hw).trans hx), hempty, hnodup, hchecked⟩
  · rw [if_pos hnodup]
    trivial

/-- A config that `update_resolution_order` writes has members that are other repositories. -/
theorem safe_reorderedConfig {request : UpdateResolutionOrderRequest} :
    Safe (virtualProtocol env)
      (Post fun config t q => q = p ∧ Later s t ∧
        (∀ m ∈ config.memberRepositories, m.repositoryId ≠ env.own.id) ∧
          PublishChecked env config)
      (onSite (reorderedConfig env request)) s p := by
  refine safe_then (safe_readsOnly steps_readRepository) fun _ t q h => ?_
  obtain ⟨rfl, hlater⟩ := h
  refine safe_then safe_readVirtualConfig fun config u q h => ?_
  obtain ⟨rfl, hu, hvalid⟩ := h
  refine safe_then (safe_readsOnly steps_requestedTarget) fun publishTo v q h => ?_
  obtain ⟨rfl, hv⟩ := h
  refine safe_then safe_validatePublishTarget fun _ w q h => ?_
  obtain ⟨rfl, hw, hchecked⟩ := h
  exact ⟨rfl, (hlater.trans hu).trans (hv.trans hw), fun m hm => (hvalid.admitted m hm).2,
    hchecked⟩

/-- A step that leaves the repository as it is is not recorded, unless it is a reload. -/
theorem record_self {label : VirtualStep} (h : label ≠ .reload) (s : VirtualSite) :
    record label (s, p) s.state = (s, p) := by
  have hwrite : ∀ settled, recordWrite settled (s, p) s.state = (s, p) := by
    intro settled
    unfold recordWrite
    rw [if_neg (Nat.lt_irrefl _)]
  cases label with
  | database => rfl
  | writeMembers config => exact hwrite false
  | writeOrder config | writeConfig config => exact hwrite true
  | commitRows config deleted =>
    unfold record
    simp only [if_neg (Nat.lt_irrefl _)]
  | reload => exact absurd rfl h
  | answer failed => rfl

theorem safe_addOrUpdate {label : VirtualStep} {value : RepositoryConfig}
    {K : Unit → VirtualSite → VirtualTask → Prop} (hlabel : label ≠ .reload)
    (h : ∀ t config, Later s t → SiteOk env t config → virtualGuard env label false t p →
      let u := record label (t, p) (t.state.write value)
      (∃ config, SiteOk env u.1 config) ∧ Later t u.1 ∧ K () u.1 u.2) :
    Safe (virtualProtocol env) (Post K) (onSite (addOrUpdate label value)) s p := by
  refine safe_then safe_query fun stored t q hread => ?_
  obtain ⟨rfl, hlater, hstored, config, hok⟩ := hread
  rw [hok.stored] at hstored
  refine safe_statement (record_self hlabel) fun u config hu hok hguard _ state hwrite => ?_
  rw [hok.stored, ← hstored, Option.isSome_some, Option.isSome_some, if_pos rfl] at hwrite
  obtain ⟨-, rfl⟩ := Prod.mk.inj (Option.some.inj hwrite)
  exact h u config (hlater.trans hu) hok hguard

theorem safe_replaceMembers (hcounted : Counted s p) :
    Safe (virtualProtocol env) (Post fun _ t q => Settled t q)
      (onSite (replaceMembers env config)) s p := by
  refine safe_then safe_query fun deleted t q h => ?_
  obtain ⟨rfl, hlater, -, -⟩ := h
  refine safe_then (safe_readsOnly (steps_insertMembers _)) fun _ u q h => ?_
  obtain ⟨rfl, hu⟩ := h
  refine safe_then safe_query fun _ v q h => ?_
  obtain ⟨rfl, hv, -, -⟩ := h
  refine safe_statement (record_self (by rintro ⟨⟩))
    fun w config' hw hok hguard _ state hcommit => ?_
  obtain ⟨state', hstate, hpair⟩ := Option.map_eq_some_iff.mp hcommit
  obtain ⟨-, rfl⟩ := Prod.mk.inj hpair
  obtain ⟨hmembers, hdeleted⟩ := Or.resolve_left hguard Bool.false_ne_true
  have hcounted' := hcounted.of_later ((hlater.trans hu).trans (hv.trans hw))
  obtain ⟨hok', hlater', hsettled⟩ := siteOk_commitRows hok hcounted' hmembers hdeleted hstate
  exact ⟨⟨config', hok'⟩, hlater', hsettled⟩

theorem safe_reloadRunning (hsettled : Settled s p) :
    Safe (virtualProtocol env) (Post fun _ _ q => q.writes = []) (onSite (reloadRunning env))
      s p := by
  intro t hlater hok c hguard
  obtain ⟨config, hok⟩ := hok
  obtain ⟨hok', hlater', hwrites⟩ := siteOk_reload hok (hsettled.of_later hlater) hguard
  cases c with
  | true | false => exact ⟨⟨config, hok'⟩, hlater', hwrites⟩

end Writing

/-! ### All requests -/

section Site

variable {s : VirtualSite} {p : VirtualTask} {config : VirtualRepositoryConfig}

theorem safe_reloadRuntimeVirtual (hsettled : Settled s p) :
    Safe (virtualProtocol env) (Post fun _ _ q => q.writes = [])
      (onSite (reloadRuntimeVirtual env)) s p :=
  safe_then (safe_reloadRunning hsettled) fun _ _ _ h => h

theorem safe_listMembers {authorized : Bool} (h : p.writes = []) :
    Safe (virtualProtocol env) (Post fun _ _ q => q.writes = [])
      (onSite (listMembers env authorized)) s p := by
  refine (safe_readsOnly steps_listMembers).mono fun result t q hread => ?_
  cases result with
  | error e => trivial
  | ok view =>
    obtain ⟨rfl, -⟩ := hread
    exact h

theorem safe_updateMembers {request : UpdateMembersRequest} (hnew : p.writes = []) :
    Safe (virtualProtocol env) (Post fun _ _ q => q.writes = [])
      (onSite (updateMembers env request)) s p := by
  refine safe_then safe_requestedConfig fun config t q h => ?_
  obtain ⟨rfl, -, hne, hnodup, hchecked⟩ := h
  have hwrite : Safe (virtualProtocol env) (Post fun _ t q => Counted t q)
      (onSite (addOrUpdate (.writeMembers config) (.virtual config))) t q := by
    refine safe_addOrUpdate (by rintro ⟨⟩) fun u stored _ hok hguard => ?_
    have hmembers := Or.resolve_left hguard Bool.false_ne_true
    have hvalid : ConfigOk env config := ⟨hne, hnodup, fun m hm => (hmembers m hm).2,
      hchecked.publishOk fun m hm => (hmembers m hm).2.2⟩
    have hcounted : Counted u q := by
      intro n hn
      rw [hnew] at hn
      cases hn
    obtain ⟨hok', hlater, hcounted'⟩ :=
      siteOk_writeMembers hok hvalid (fun m hm => (hmembers m hm).1) hcounted
    exact ⟨⟨config, hok'⟩, hlater, hcounted'⟩
  grind [safe_then, safe_replaceMembers, safe_reloadRuntimeVirtual, safe_listMembers]

theorem settled_of_new (hnew : p.writes = []) : Settled s p := by
  intro n hn
  rw [hnew] at hn
  cases hn

theorem safe_updateResolutionOrder {request : UpdateResolutionOrderRequest}
    (hnew : p.writes = []) :
    Safe (virtualProtocol env) (Post fun _ _ q => q.writes = [])
      (onSite (updateResolutionOrder env request)) s p := by
  refine safe_then safe_reorderedConfig fun config t q h => ?_
  obtain ⟨rfl, -, hother, hchecked⟩ := h
  have hwrite : Safe (virtualProtocol env) (Post fun _ t q => Settled t q)
      (onSite (addOrUpdate (.writeOrder config) (.virtual config))) t q := by
    refine safe_addOrUpdate (by rintro ⟨⟩) fun u stored _ hok hguard => ?_
    have hmembers := Or.resolve_left hguard Bool.false_ne_true
    rw [hok.storedMembers] at hmembers
    have hsame : config.memberships.Perm stored.memberships := by
      rw [VirtualRepositoryConfig.memberships, VirtualRepositoryConfig.memberships, hmembers]
    obtain ⟨hok', hlater, hsettled⟩ :=
      siteOk_writeSame hok hsame (hchecked.publishOk hother) (settled_of_new hnew)
    exact ⟨⟨config, hok'⟩, hlater, hsettled⟩
  grind [safe_then, safe_reloadRuntimeVirtual, safe_listMembers]

theorem safe_storeConfigValue {value : ConfigValue} (hnew : p.writes = []) :
    Safe (virtualProtocol env) (Post fun _ t q => Settled t q)
      (onSite (storeConfigValue env value)) s p := by
  cases value with
  | unsupported key known =>
    cases known with
    | true | false => trivial
  | auth valid =>
    refine safe_then safe_query fun _ t q h => ?_
    obtain ⟨rfl, -⟩ := h
    cases valid with
    | false => trivial
    | true =>
      refine safe_then safe_query fun _ u q h => ?_
      obtain ⟨rfl, -⟩ := h
      refine safe_statement (record_self (by rintro ⟨⟩))
        fun v config _ hok _ _ state hwrite => ?_
      obtain ⟨-, rfl⟩ := Prod.mk.inj (Option.some.inj hwrite)
      exact ⟨⟨config, hok⟩, later_refl v, settled_of_new hnew⟩
  | repository config? =>
    cases config? with
    | none => exact safe_then safe_query fun _ _ _ _ => trivial
    | some config =>
      refine safe_then safe_query fun _ t q h => ?_
      obtain ⟨rfl, -⟩ := h
      cases validateConfig env config with
      | error message => trivial
      | ok _ =>
        refine safe_addOrUpdate (by rintro ⟨⟩) fun u stored _ hok hguard => ?_
        have hkeeps := Or.resolve_left hguard Bool.false_ne_true
        cases config with
        | hosted | proxy urls => exact hkeeps.elim
        | virtual config =>
          obtain ⟨hsame, hpublish⟩ := hkeeps
          rw [hok.storedMembers] at hsame
          obtain ⟨hok', hlater, hsettled⟩ :=
            siteOk_writeSame hok hsame hpublish (settled_of_new hnew)
          exact ⟨⟨config, hok'⟩, hlater, hsettled⟩

theorem safe_updateConfig {request : UpdateConfigRequest} (hnew : p.writes = []) :
    Safe (virtualProtocol env) (Post fun _ _ q => q.writes = [])
      (onSite (updateConfig env request)) s p := by
  refine safe_then (safe_readsOnly steps_readRepository) fun _ t q h => ?_
  obtain ⟨rfl, -⟩ := h
  refine safe_then (safe_storeConfigValue hnew) fun _ u q hsettled => ?_
  refine safe_then (safe_reloadRunning hsettled) fun outcome v q h => ?_
  cases outcome with
  | error e => trivial
  | ok _ => exact h

def Ended : Except VirtualError Unit → VirtualSite → VirtualTask → Prop :=
  fun _ _ q => q.writes = []

theorem safe_answered {α : Type} {m : VirtualM α}
    (hm : Safe (virtualProtocol env) (Post fun _ _ q => q.writes = []) (onSite m) s p) :
    Safe (virtualProtocol env) Ended (answered m) s p := by
  unfold answered
  refine safe_tryCatch (Q := fun (r : Except VirtualError Unit) (_ : VirtualSite)
    (q : VirtualTask) => ∀ a, r = .ok a → q.writes = []) ?_ (fun a t q h => h a rfl)
    fun e t q _ => ?_
  · refine safe_bind hm (fun _ t q h => ?_) fun e t q _ a hr => by cases hr
    intro u hlater hok c _
    exact ⟨hok, later_refl u, fun _ _ => h⟩
  · intro u _ hok c hguard
    exact ⟨hok, later_refl u, hguard⟩

theorem safe_siteRequest (request : VirtualRequest) :
    Safe (virtualProtocol env) Ended (siteRequest env request) s ⟨[]⟩ := by
  cases request with
  | members request => exact safe_answered (safe_updateMembers rfl)
  | resolutionOrder request => exact safe_answered (safe_updateResolutionOrder rfl)
  | config request => exact safe_answered (safe_updateConfig rfl)

/-- What is owed by the requests is owed by one of them, and a request that reloads no longer owes
what it has written. -/
theorem tracked_record (label : VirtualStep) (state : VirtualState) {n : ℕ}
    (hn : n ∈ (record label (s, p) state).1.owed) :
    n ∈ (record label (s, p) state).2.writes ∨ n ∈ s.owed ∧ n ∉ p.writes := by
  have hkept : n ∈ s.owed → n ∈ p.writes ∨ n ∈ s.owed ∧ n ∉ p.writes := fun h =>
    (Decidable.em (n ∈ p.writes)).imp_right fun hnot => ⟨h, hnot⟩
  have hwrite : ∀ settled, n ∈ (recordWrite settled (s, p) state).1.owed →
      n ∈ (recordWrite settled (s, p) state).2.writes ∨ n ∈ s.owed ∧ n ∉ p.writes := by
    intro settled hn
    unfold recordWrite at hn ⊢
    by_cases hlt : s.state.updatedAt < state.updatedAt
    · grind
    · simp only [if_neg hlt] at hn ⊢
      exact hkept hn
  cases label with
  | database => exact hkept hn
  | writeMembers config => exact hwrite false hn
  | writeOrder config | writeConfig config => exact hwrite true hn
  | commitRows config deleted =>
    grind [record]
  | reload =>
    simp_all [record]
  | answer failed => exact hkept hn

def Tracked (_ : VirtualStep)
    (effect : Bool → VirtualSite × VirtualTask → VirtualSite × VirtualTask) : Prop :=
  ∀ c s p n, n ∈ (effect c (s, p)).1.owed →
    n ∈ (effect c (s, p)).2.writes ∨ n ∈ s.owed ∧ n ∉ p.writes

theorem tracked_answered {α : Type} (m : VirtualM α) : (answered m).Steps Tracked := by
  have honSite : (onSite m).Steps Tracked :=
    steps_zoom (steps_of_forall fun label _ _ _ _ _ hn => tracked_record label _ hn)
  have hanswer : ∀ failed, (Resumption.act (.answer failed) fun _ t => (.ok (), t) :
      SiteM Unit).Steps Tracked := by
    refine fun failed => steps_act fun c s p n hn => ?_
    exact (Decidable.em (n ∈ p.writes)).imp_right fun hnot => ⟨hn, hnot⟩
  refine steps_tryCatch (steps_bind honSite fun _ => hanswer false) fun e => ?_
  exact steps_bind (hanswer true) fun _ => steps_throw e

theorem tracked_siteRequest (request : VirtualRequest) :
    (siteRequest env request).Steps Tracked := by
  cases request with
  | members request | resolutionOrder request | config request => exact tracked_answered _

/-- **Once all requests have ended** a consistent repository is consistent again. -/
theorem consistent_of_updates {state : VirtualState} (hstart : Consistent env state)
    {as : List (Pool.Action VirtualRequest Bool)}
    {s : Pool VirtualSite (Thread VirtualStep Bool VirtualSite VirtualTask VirtualError Unit)}
    (hguard : StepsOk (siteProgram env).step (Program.Guarded (Meets (virtualGuard env)))
      ⟨.start state, []⟩ as)
    (hrun : run (siteProgram env).step ⟨.start state, []⟩ as = some s)
    (hended : ∀ p ∈ s.processes, p.task.hasEnded = true) : Consistent env s.shared.state := by
  obtain ⟨⟨config, hok⟩, -, hsafe⟩ := safe_of_run (P := virtualProtocol env) (Q := Ended)
    (fun _ _ _ _ _ h => h) (fun request s _ => safe_siteRequest request) (siteOk_start hstart)
    hguard hrun
  refine hok.consistent (List.eq_nil_iff_forall_not_mem.mpr fun n hn => ?_)
  obtain ⟨i, p, hp, hholds⟩ := held_of_run (fun s n => n ∈ s.owed) (fun p n => n ∈ p.writes)
    (fun request => tracked_siteRequest request) (fun n hn => by cases hn) hrun hn
  have hend := hended p (List.mem_of_getElem? hp)
  have hpost := hsafe i p hp
  cases htask : p.task with
  | step label effect rest =>
    rw [htask] at hend
    cases hend
  | done r =>
    rw [htask] at hpost
    have hwrites : p.own.writes = [] := hpost
    rw [hwrites] at hholds
    cases hholds

end Site

/-! ### Priorities from `2 ^ 31` on -/

section Demo

/-- A virtual repository among two hosted ones. -/
def demoSurroundings : Surroundings where
  kind := .python
  own := ⟨9, 0, "all", "python", none⟩
  storages := [⟨0, "main"⟩]
  repositories := [⟨1, 0, "a", "python", some .hosted⟩, ⟨2, 0, "b", "python", some .hosted⟩,
    ⟨9, 0, "all", "python", none⟩]
  sameName a b := a == b
  urlAllowed _ := true

def demoConfig : VirtualRepositoryConfig := ⟨[⟨1, "a", 0, true⟩], .priority, 60, some 1⟩

def demoState : VirtualState where
  config := some (.virtual demoConfig)
  updatedAt := 0
  rows := [⟨1, 1, 0, true⟩]
  nextRowId := 2
  running := ⟨.priority, 60, [⟨1, "a", 0, true⟩], some 1⟩

theorem consistent_demoState : Consistent demoSurroundings demoState := by
  have hvalid : ConfigOk demoSurroundings demoConfig :=
    ⟨by decide, by decide, by decide, by decide⟩
  have hrows : (demoState.rows.map (·.membership)).Perm demoConfig.memberships := by
    decide
  exact ⟨demoConfig, rfl, hvalid, hrows, ⟨by decide, by decide⟩,
    load_spec rfl hvalid hrows⟩

def twoMembers : UpdateMembersRequest where
  authorized := true
  members := [⟨none, "a", 1, true⟩, ⟨none, "b", 0, true⟩]
  resolutionOrder := none
  cacheTtlSeconds := none
  publishTo := some (.name "b")

/-- The members are changed, while somebody asks to publish to the other one. -/
def demoUpdates : List (Pool.Action VirtualRequest Bool) :=
  [.start (.members twoMembers)] ++ List.replicate 17 (.advance 0 false) ++
    [.start (.resolutionOrder ⟨true, .priority, none, some (.name "a")⟩)] ++
    List.replicate 8 (.advance 1 false) ++ List.replicate 9 (.advance 0 false) ++
    List.replicate 9 (.advance 1 false)

theorem consistent_demoUpdates : ∃ s,
    run (siteProgram demoSurroundings).step ⟨.start demoState, []⟩ demoUpdates = some s ∧
      s.shared.state.config = some (.virtual ⟨[⟨1, "a", 1, true⟩, ⟨2, "b", 0, true⟩], .priority, 60,
        some 1⟩) ∧ Consistent demoSurroundings s.shared.state := by
  have hrun : (run (siteProgram demoSurroundings).step ⟨.start demoState, []⟩ demoUpdates).any
      (fun s => s.processes.all (·.task.hasEnded) &&
        s.shared.state.config == some (.virtual ⟨[⟨1, "a", 1, true⟩, ⟨2, "b", 0, true⟩], .priority,
          60, some 1⟩)) = true := by decide
  obtain ⟨s, hs, hend⟩ := (Option.any_eq_true _ _).mp hrun
  simp only [Bool.and_eq_true, List.all_eq_true, beq_iff_eq] at hend
  exact ⟨s, hs, hend.2, consistent_of_updates consistent_demoState (by decide) hs hend.1⟩

def largePriority : UpdateMembersRequest where
  authorized := true
  members := [⟨none, "a", 2147483648, true⟩]
  resolutionOrder := none
  cacheTtlSeconds := none
  publishTo := none

/-- A large priority is another one in the rows, and zero in the running repository. -/
theorem not_consistent_priority : ¬ ∀ env state as s, Consistent env state →
    run (siteProgram env).step ⟨.start state, []⟩ as = some s →
      (∀ p ∈ s.processes, p.task.hasEnded = true) → Consistent env s.shared.state := by
  intro h
  have hrun : (run (siteProgram demoSurroundings).step ⟨.start demoState, []⟩
      (.start (.members largePriority) :: List.replicate 20 (.advance 0 false))).any
        (fun s => s.processes.all (·.task.hasEnded) &&
          (s.shared.state.config == some (.virtual ⟨[⟨1, "a", 2147483648, true⟩], .priority, 60,
            some 1⟩) && s.shared.state.running.members == [⟨1, "a", 0, true⟩])) = true := by
    decide
  obtain ⟨s, hs, hend⟩ := (Option.any_eq_true _ _).mp hrun
  simp only [Bool.and_eq_true, List.all_eq_true, beq_iff_eq] at hend
  obtain ⟨hended, hstored, hmembers⟩ := hend
  obtain ⟨config, hconfig, -, -, hagrees, -⟩ :=
    h _ _ _ s consistent_demoState hs hended
  obtain rfl := RepositoryConfig.virtual.inj (Option.some.inj (hstored.symm.trans hconfig))
  have hperm := hagrees.members
  rw [hmembers] at hperm
  revert hperm
  decide

end Demo

end Pkgly.Virtual
