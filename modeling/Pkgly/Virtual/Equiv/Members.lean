import Pkgly.Virtual.Members

/-!
# Are the members of a virtual repository the same everywhere?

A virtual repository is `Consistent` if the config, the rows and the running repository have the
same members with the same priorities and marks, all of them other repositories of its type, of
which it publishes to an enabled hosted one, if to any, and if a restart loads it so.

A reload makes the running repository agree with a config and rows that agree (`syncMembers_spec`).
The priority of a row is a signed number: it is that of the config below `2 ^ 31`
(`toInt_toInt32`).
-/

namespace Pkgly.Virtual

variable {env : Surroundings} {s : VirtualState} {config : VirtualRepositoryConfig}

/-! ### What is promised -/

abbrev Membership := Uuid × ℤ × Bool

def VirtualRepositoryMemberConfig.membership (m : VirtualRepositoryMemberConfig) : Membership :=
  (m.repositoryId, m.priority.toNat, m.enabled)

def MemberRow.membership (m : MemberRow) : Membership :=
  (m.memberRepositoryId, m.priority.toInt, m.enabled)

def ResolvedVirtualMember.membership (m : ResolvedVirtualMember) : Membership :=
  (m.repositoryId, m.priority.toNat, m.enabled)

def VirtualRepositoryConfig.memberships (config : VirtualRepositoryConfig) : List Membership :=
  config.memberRepositories.map (·.membership)

def IsAdmitted (env : Surroundings) (id : Uuid) : Prop :=
  (env.getById id).any (fun r => eqIgnoreAsciiCase r.repositoryType env.kind.typeId) = true ∧
    id ≠ env.own.id

instance (id : Uuid) : Decidable (IsAdmitted env id) := by
  unfold IsAdmitted
  infer_instance

def IsHostedElsewhere (env : Surroundings) (id : Uuid) : Prop :=
  ((env.getById id).bind (·.config)).getD .hosted = .hosted

instance (id : Uuid) : Decidable (IsHostedElsewhere env id) := by
  unfold IsHostedElsewhere
  infer_instance

def PublishOk (env : Surroundings) (members : List Membership) : Option Uuid → Prop
  | none => True
  | some target =>
    (∃ m ∈ members, m.1 = target ∧ m.2.2 = true) ∧ IsHostedElsewhere env target

instance (members : List Membership) (publishTo : Option Uuid) :
    Decidable (PublishOk env members publishTo) := by
  unfold PublishOk
  split <;> infer_instance

structure Agrees (env : Surroundings) (config : VirtualRepositoryConfig)
    (running : RunningVirtual) : Prop where
  members : (running.members.map (·.membership)).Perm config.memberships
  publishTo : PublishOk env config.memberships running.publishTo

structure ConfigOk (env : Surroundings) (config : VirtualRepositoryConfig) : Prop where
  nonempty : config.memberRepositories ≠ []
  nodup : (config.memberRepositories.map (·.repositoryId)).Nodup
  admitted : ∀ m ∈ config.memberRepositories, IsAdmitted env m.repositoryId
  publishTo : PublishOk env config.memberships config.publishTo

def Consistent (env : Surroundings) (s : VirtualState) : Prop :=
  ∃ config, s.config = some (.virtual config) ∧ ConfigOk env config ∧
    (s.rows.map (·.membership)).Perm config.memberships ∧ Agrees env config s.running ∧
    ∃ running, load env s = .ok (some running) ∧ Agrees env config running

/-! ### Priorities -/

theorem toInt_toInt32 {n : UInt32} (h : n.toNat < 2 ^ 31) : n.toInt32.toInt = n.toNat := by
  change n.toBitVec.toInt = n.toNat
  rw [BitVec.toInt_eq_toNat_of_lt]
  · rfl
  · change 2 * n.toNat < 2 ^ 32
    omega

theorem toNat_toUInt32 {p : Int32} (h : 0 ≤ p.toInt) :
    ((max p 0).toUInt32.toNat : ℤ) = p.toInt := by
  have hmax : max p 0 = p := by
    change (if p ≤ 0 then 0 else p) = p
    split_ifs with hle
    · have hnonpos : p.toInt ≤ 0 := Int32.le_iff_toInt_le.mp hle
      have hzero : (0 : Int32).toInt = p.toInt := le_antisymm h hnonpos
      exact Int32.toInt_inj.mp hzero
    · rfl
  rw [hmax]
  change (p.toBitVec.toNat : ℤ) = p.toBitVec.toInt
  have hlt : 2 * p.toBitVec.toNat < 2 ^ 32 := by
    by_contra hge
    have hneg : p.toBitVec.toInt = (p.toBitVec.toNat : ℤ) - 2 ^ 32 := by
      rw [BitVec.toInt_eq_toNat_cond, if_neg hge]
      rfl
    have hbound : p.toBitVec.toNat < 2 ^ 32 := p.toBitVec.isLt
    have h : 0 ≤ p.toBitVec.toInt := h
    omega
  exact (BitVec.toInt_eq_toNat_of_lt hlt).symm

/-! ### Rows -/

theorem perm_listForVirtual (rows : List MemberRow) : (listForVirtual rows).Perm rows :=
  List.perm_insertionSort _ rows

theorem length_newRows (n : ℕ) (members : List VirtualRepositoryMemberConfig) :
    (newRows n members).length = members.length := by
  induction members generalizing n with
  | nil => rfl
  | cons m members ih => rw [newRows, List.length_cons, ih, List.length_cons]

theorem map_newRows {members : List VirtualRepositoryMemberConfig}
    (h : ∀ m ∈ members, m.priority.toNat < 2 ^ 31) (n : ℕ) :
    (newRows n members).map (·.membership) = members.map (·.membership) := by
  induction members generalizing n with
  | nil => rfl
  | cons m members ih =>
    grind [newRows, List.mem_cons_of_mem, MemberRow.membership,
      VirtualRepositoryMemberConfig.membership, toInt_toInt32, List.mem_cons_self]

theorem of_commitRows {members : List VirtualRepositoryMemberConfig} {deleted : List ℕ}
    {s' : VirtualState} (hdeleted : ∀ row ∈ s.rows, row.id ∈ deleted)
    (h : commitRows env members deleted s = some s') :
    s' = { s with
      rows := newRows s.nextRowId members
      nextRowId := s.nextRowId + members.length } := by
  have hkept : s.rows.filter (fun row => !deleted.contains row.id) = [] := by simp_all
  unfold commitRows at h
  simp only [hkept, List.nil_append] at h
  split_ifs at h
  exact (Option.some.inj h).symm

/-! ### The running repository -/

theorem getById_id {id : Uuid} {r : DBRepository} (h : env.getById id = some r) : r.id = id := by
  have hid := List.find?_some h
  exact beq_iff_eq.mp hid

theorem resolveMembers_spec {rows : List MemberRow}
    (h : ∀ row ∈ rows, IsAdmitted env row.memberRepositoryId ∧ 0 ≤ row.priority.toInt) :
    ∃ members, resolveMembers env rows = .ok members ∧
      members.map (·.membership) = rows.map (·.membership) := by
  induction rows with
  | nil => exact ⟨[], rfl, rfl⟩
  | cons row rows ih =>
    obtain ⟨⟨htype, hown⟩, hpriority⟩ := h row List.mem_cons_self
    obtain ⟨members, hmembers, hmap⟩ := ih fun r hr => h r (List.mem_cons_of_mem _ hr)
    obtain ⟨repo, hrepo, hkind⟩ := (Option.any_eq_true _ _).mp htype
    have hid := getById_id hrepo
    have hresolve : resolveMember env row =
        .ok ⟨repo.id, repo.name, (max row.priority 0).toUInt32, row.enabled⟩ := by
      unfold resolveMember
      rw [hrepo]
      simp only [hkind, Bool.not_true, Bool.false_eq_true, if_false, hid, hown]
    refine ⟨_, by rw [resolveMembers, hresolve, hmembers]; rfl, ?_⟩
    grind [ResolvedVirtualMember.membership, MemberRow.membership, toNat_toUInt32]

theorem isHosted_iff {id : Uuid} (h : id ≠ env.own.id) :
    isHosted env s id = true ↔ IsHostedElsewhere env id := by
  rw [isHosted, decide_eq_true_iff, configOf, if_neg h, IsHostedElsewhere]

theorem perm_publishOrder (kind : VirtualKind) (members : List ResolvedVirtualMember) :
    (publishOrder kind members).Perm members := by
  cases kind with
  | npm => exact List.Perm.refl _
  | python | nuget => exact List.perm_insertionSort _ members

theorem selectPublishTarget_spec {members : List ResolvedVirtualMember}
    (hconfig : ConfigOk env config)
    (hmembers : (members.map (·.membership)).Perm config.memberships) :
    ∃ publishTo, selectPublishTarget env s config members = .ok publishTo ∧
      PublishOk env config.memberships publishTo := by
  have hmember : ∀ m ∈ members, m.membership ∈ config.memberships :=
    fun m hm => hmembers.subset (List.mem_map_of_mem hm)
  have hother : ∀ m ∈ config.memberships, m.1 ≠ env.own.id := by
    intro m hm
    obtain ⟨member, hmember, rfl⟩ := List.mem_map.mp hm
    exact (hconfig.admitted member hmember).2
  unfold selectPublishTarget
  cases htarget : config.publishTo with
  | none =>
    refine ⟨_, rfl, ?_⟩
    cases hfind : (publishOrder env.kind (members.filter (·.enabled))).find? fun member =>
        isHosted env s member.repositoryId with
    | none => trivial
    | some member =>
      have hmem := (perm_publishOrder _ _).subset (List.mem_of_find?_eq_some hfind)
      obtain ⟨hmem, henabled⟩ := List.mem_filter.mp hmem
      have hhosted := List.find?_some hfind
      exact ⟨⟨_, hmember member hmem, rfl, henabled⟩,
        (isHosted_iff (hother _ (hmember member hmem))).mp hhosted⟩
  | some target =>
    have hpublish := hconfig.publishTo
    rw [htarget] at hpublish
    obtain ⟨⟨m, hm, hid, henabled⟩, hhosted⟩ := hpublish
    have hown : target ≠ env.own.id := hid ▸ hother m hm
    obtain ⟨member, hmem, hmembership⟩ := List.mem_map.mp (hmembers.symm.subset hm)
    have hnodup : (members.map (·.repositoryId)).Nodup := by
      have hids := hmembers.map (·.1)
      rw [VirtualRepositoryConfig.memberships, List.map_map, List.map_map] at hids
      exact hids.nodup_iff.mpr hconfig.nodup
    have hmemberId : member.repositoryId = target := by
      rw [← hid, ← hmembership]
      rfl
    have hfind : members.find? (fun m => m.repositoryId == target) = some member := by
      cases hfound : members.find? fun m => m.repositoryId == target with
      | none =>
        grind
      | some found =>
        grind [List.inj_on_of_nodup_map, List.mem_of_find?_eq_some]
    have hon : member.enabled = true := by
      rw [← henabled, ← hmembership]
      rfl
    refine ⟨some target, ?_, ⟨m, hm, hid, henabled⟩, hhosted⟩
    unfold validateTarget
    simp only [hfind, hon, (isHosted_iff hown).mpr hhosted, Bool.not_true, Bool.false_eq_true,
      if_false]
    rfl

/-- **If the config and the rows agree**, the running repository agrees with them afterwards. -/
theorem syncMembers_spec (hconfig : ConfigOk env config)
    (hrows : (s.rows.map (·.membership)).Perm config.memberships) :
    ∃ running, syncMembers env config s = (.ok (), { s with running }) ∧
      Agrees env config running := by
  have hlist := ((perm_listForVirtual s.rows).map (·.membership)).trans hrows
  have hne : s.rows ≠ [] := by
    intro hnil
    rw [hnil, List.map_nil] at hrows
    have hempty := hrows.symm.eq_nil
    exact hconfig.nonempty (List.map_eq_nil_iff.mp hempty)
  have hload : loadOrSeed env config s = .ok (listForVirtual s.rows, s) := by
    rw [loadOrSeed, if_neg fun h => hne h.1]
  have hadmitted : ∀ row ∈ listForVirtual s.rows,
      IsAdmitted env row.memberRepositoryId ∧ 0 ≤ row.priority.toInt := by
    intro row hrow
    obtain ⟨m, hm, hmembership⟩ := List.mem_map.mp (hlist.subset (List.mem_map_of_mem hrow))
    obtain ⟨hid, hpriority, -⟩ : m.repositoryId = row.memberRepositoryId ∧
        (m.priority.toNat : ℤ) = row.priority.toInt ∧ m.enabled = row.enabled := by
      simpa [VirtualRepositoryMemberConfig.membership, MemberRow.membership] using hmembership
    exact ⟨hid ▸ hconfig.admitted m hm, hpriority ▸ Int.natCast_nonneg _⟩
  obtain ⟨members, hmembers, hmap⟩ := resolveMembers_spec hadmitted
  rw [← hmap] at hlist
  obtain ⟨publishTo, htarget, hpublish⟩ := selectPublishTarget_spec (s := s) hconfig hlist
  refine ⟨{ s.running with members, publishTo }, ?_, ⟨hlist, hpublish⟩⟩
  unfold syncMembers
  rw [hload]
  simp only [hmembers, htarget]

theorem reload_keeps (hne : s.rows ≠ []) :
    ∃ running, (reload env s).2 = { s with running } := by
  unfold reload
  cases s.getConfig with
  | hosted | proxy urls => exact ⟨s.running, rfl⟩
  | virtual config =>
    have hload : loadOrSeed env config (updateResolutionSettings config s) =
        .ok (listForVirtual s.rows, updateResolutionSettings config s) := by
      rw [loadOrSeed, if_neg fun h => hne h.1]
      rfl
    simp only [syncMembers, hload]
    cases resolveMembers env (listForVirtual s.rows) with
    | error e => exact ⟨_, rfl⟩
    | ok members =>
      dsimp only
      cases selectPublishTarget env (updateResolutionSettings config s) config members with
      | error e | ok publishTo => exact ⟨_, rfl⟩

theorem reload_spec (hstored : s.config = some (.virtual config)) (hconfig : ConfigOk env config)
    (hrows : (s.rows.map (·.membership)).Perm config.memberships) :
    ∃ running, reload env s = (.ok (), { s with running }) ∧ Agrees env config running := by
  simp_all [VirtualState.getConfig, syncMembers_spec, updateResolutionSettings, reload]

theorem load_spec (hstored : s.config = some (.virtual config)) (hconfig : ConfigOk env config)
    (hrows : (s.rows.map (·.membership)).Perm config.memberships) :
    ∃ running, load env s = .ok (some running) ∧ Agrees env config running := by
  have hget : s.getConfig = .virtual config := by
    rw [VirtualState.getConfig, hstored]
    rfl
  obtain ⟨running, hsync, hagrees⟩ := syncMembers_spec (s := { s with running :=
    ⟨config.resolutionOrder, min (max config.cacheTtlSeconds 1) (86400 * 24), [],
      config.publishTo⟩ }) hconfig hrows
  refine ⟨running, ?_, hagrees⟩
  rw [load, hget]
  simp only [hsync]
  rfl

end Pkgly.Virtual
