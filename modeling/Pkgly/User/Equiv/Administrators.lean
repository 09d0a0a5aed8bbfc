import Pkgly.User.Administrators

/-!
# Which runs keep an active administrator

A statement takes a user out of the active administrators only as the last statement of a call whose
operation does so (`takesAdmin`); every other statement keeps them.  `hasActiveAdmin_iff` says when
one step from a table with an active administrator leads to one, and `adminRemains_iff` when a whole
run does: iff every statement that takes an administrator away finds another one in the table.
-/

namespace Pkgly.Administrators

def isActiveAdmin (user : UserRow) : Bool := user.admin && user.active

def AdminOp.takesAdmin : AdminOp → Bool
  | updatePermissions _ _ update => update.admin == some false
  | updateUserStatus _ _ active => !active
  | deleteUser _ _ => true
  | oauthLogin roles => !roles.has "admin"

/-- The user whose row a call is about to change. -/
def Stage.checked? : Stage → Option UserRow
  | .checked user => some user
  | _ => none

namespace AdminSystem

variable {s s' : AdminSystem} {a : AdminAction}

/-! ### What is asked of the runs -/

def HasActiveAdmin (s : AdminSystem) : Prop :=
  ∃ id user, s.users.get id = some user ∧ isActiveAdmin user = true

/-- Some user other than `id` is one. -/
def OtherActiveAdmin (s : AdminSystem) (id : Int) : Prop :=
  ∃ id' user, s.users.get id' = some user ∧ isActiveAdmin user = true ∧ id' ≠ id

instance (id : Int) : Decidable (s.OtherActiveAdmin id) :=
  decidable_of_iff (∃ e ∈ s.users.entries, isActiveAdmin e.2 = true ∧ e.1 ≠ id)
    ⟨fun ⟨e, he, h⟩ => ⟨e.1, e.2, Store.get_eq_some_iff.mpr he, h⟩,
      fun ⟨id', user, hget, h⟩ => ⟨⟨id', user⟩, Store.get_eq_some_iff.mp hget, h⟩⟩

/-- The condition on a step: a statement that takes a user out of the active administrators finds
another one in the table. -/
def LeavesAdmin (s : AdminSystem) : AdminAction → Prop
  | .change r true => ∀ call ∈ s.calls.get r, ∀ user ∈ call.stage.checked?,
      call.op.takesAdmin = true → s.OtherActiveAdmin user.id
  | _ => True

instance : ∀ a, Decidable (s.LeavesAdmin a)
  | .change r true => inferInstanceAs (Decidable (∀ call ∈ s.calls.get r,
      ∀ user ∈ call.stage.checked?, call.op.takesAdmin = true → s.OtherActiveAdmin user.id))
  | .change _ false | .start _ _ | .getById _ _ | .resolveUser _ _ _ | .count _ _ => isTrue trivial

/-! ### The table after a statement -/

theorem get_updateUser (id id' : Int) (f : UserRow → UserRow) :
    (s.updateUser id f).users.get id' =
      if id' = id then (s.users.get id).map f else s.users.get id' := by
  grind [updateUser, Store.get_put]

/-- The row `id` has changed, and no other one. -/
def ChangesOnly (s s' : AdminSystem) (id : Int) : Prop :=
  ∀ id', id' ≠ id → s'.users.get id' = s.users.get id'

theorem changesOnly_updateUser (id : Int) (f : UserRow → UserRow) :
    ChangesOnly s (s.updateUser id f) id := by
  intro id' hne
  rw [get_updateUser, if_neg hne]

theorem changesOnly_execute (user : UserRow) (op : AdminOp) :
    ChangesOnly s (s.execute user op).1 user.id := by
  have hupdate : ∀ update : UpdatePermissions,
      ChangesOnly s (s.updatePermissions update user.id) user.id := by
    intro update
    unfold updatePermissions
    split_ifs
    · exact changesOnly_updateUser _ _
    · exact fun _ _ => rfl
  cases op with
  | updatePermissions auth userId update => exact hupdate update
  | updateUserStatus auth userId active => exact changesOnly_updateUser _ _
  | deleteUser auth userId =>
    intro id' hne
    exact (Store.get_remove _ _ _).trans (if_neg hne)
  | oauthLogin roles => exact hupdate roles.update

theorem execute_takesAdmin {user : UserRow} {op : AdminOp} (h : op.takesAdmin = true)
    (row : UserRow) (hrow : (s.execute user op).1.users.get user.id = some row) :
    isActiveAdmin row = false := by
  have hupdate : ∀ update : UpdatePermissions, update.admin = some false →
      (s.updatePermissions update user.id).users.get user.id = some row →
        isActiveAdmin row = false := by
    intro update hadmin hget
    have hchange : update.hasRegularChange = true := by
      simp [UpdatePermissions.hasRegularChange, hadmin]
    rw [updatePermissions, if_pos hchange, get_updateUser, if_pos rfl] at hget
    obtain ⟨old, -, rfl⟩ := Option.map_eq_some_iff.mp hget
    simp [isActiveAdmin, UpdatePermissions.applyTo, hadmin]
  cases op with
  | updatePermissions auth userId update =>
    exact hupdate update (by simpa [AdminOp.takesAdmin] using h) hrow
  | updateUserStatus auth userId active =>
    obtain rfl : active = false := by simpa [AdminOp.takesAdmin] using h
    have hget : (s.updateUser user.id _).users.get user.id = some row := hrow
    rw [get_updateUser, if_pos rfl] at hget
    obtain ⟨old, -, rfl⟩ := Option.map_eq_some_iff.mp hget
    exact Bool.and_false _
  | deleteUser auth userId =>
    have hget : (s.users.remove user.id).get user.id = some row := hrow
    rw [Store.get_remove_self] at hget
    cases hget
  | oauthLogin roles =>
    refine hupdate roles.update ?_ hrow
    grind [AdminOp.takesAdmin, OAuthRoles.update]

theorem execute_keepsAdmin (user : UserRow) {row : UserRow} {op : AdminOp} {id : Int}
    (h : op.takesAdmin = false) (hrow : s.users.get id = some row)
    (hadmin : isActiveAdmin row = true) :
    ∃ row', (s.execute user op).1.users.get id = some row' ∧ isActiveAdmin row' = true := by
  have hupdate : ∀ f : UserRow → UserRow, isActiveAdmin (f row) = true →
      ∃ row', (s.updateUser user.id f).users.get id = some row' ∧ isActiveAdmin row' = true := by
    intro f hf
    rw [get_updateUser]
    split_ifs with heq
    · rw [← heq, hrow]
      exact ⟨f row, rfl, hf⟩
    · exact ⟨row, hrow, hadmin⟩
  have hpermissions : ∀ update : UpdatePermissions, update.admin ≠ some false →
      ∃ row', (s.updatePermissions update user.id).users.get id = some row' ∧
        isActiveAdmin row' = true := by
    intro update hne
    unfold updatePermissions
    split_ifs
    · refine hupdate _ ?_
      unfold isActiveAdmin UpdatePermissions.applyTo at *
      rcases hup : update.admin with _ | (_ | _)
      · simpa using hadmin
      · exact absurd hup hne
      · simp_all
    · exact ⟨row, hrow, hadmin⟩
  cases op with
  | updatePermissions auth userId update =>
    exact hpermissions update (by simpa [AdminOp.takesAdmin] using h)
  | updateUserStatus auth userId active =>
    obtain rfl : active = true := by simpa [AdminOp.takesAdmin] using h
    refine hupdate _ ?_
    unfold isActiveAdmin at *
    simp_all
  | deleteUser auth userId => cases h
  | oauthLogin roles =>
    refine hpermissions roles.update ?_
    have hrole : roles.has "admin" = true := by simpa [AdminOp.takesAdmin] using h
    rw [OAuthRoles.update, hrole]
    exact Bool.noConfusion ∘ Option.some.inj

/-! ### Steps -/

theorem users_find {r : Nat} {ok : Bool} {call : AdminCall} {auth : UserPermissions}
    {userId : Int} : (s.find r ok call auth userId).users = s.users := by
  unfold find
  split_ifs
  · rfl
  · rfl
  · split <;> rfl

theorem users_of_resolved {t : AdminSystem} {r : Nat} {call : AdminCall} {roles : OAuthRoles}
    {userId id : Int} {row : UserRow} (hrow : t.users.get id = some row)
    (h : t.resolved r call roles userId = some s') : s'.users.get id = some row := by
  unfold resolved at h
  aesop

theorem execute_of_step {r : Nat} (h : step s (.change r true) = some s') :
    ∃ call user, s.calls.get r = some call ∧ call.stage = .checked user ∧
      s'.users = (s.execute user call.op).1.users := by
  obtain ⟨call, hr, h⟩ := Option.bind_eq_some_iff.mp h
  unfold stepChange at h
  aesop

theorem kept_of_step (h : step s a = some s') (ha : ∀ r, a ≠ .change r true) {id : Int}
    {row : UserRow} (hrow : s.users.get id = some row) : s'.users.get id = some row := by
  cases a with
  | start r op =>
    simp only [step, start] at h
    split_ifs at h
    obtain rfl := Option.some.inj h
    exact hrow
  | getById r ok =>
    obtain ⟨call, hr, h⟩ := Option.bind_eq_some_iff.mp h
    unfold stepGetById at h
    split at h
    · obtain rfl := Option.some.inj h
      rwa [users_find]
    · obtain rfl := Option.some.inj h
      rwa [users_find]
    · obtain rfl := Option.some.inj h
      rwa [users_find]
    · cases h
  | resolveUser r userId ok =>
    obtain ⟨call, hr, h⟩ := Option.bind_eq_some_iff.mp h
    unfold stepResolveUser at h
    split at h
    · split_ifs at h with hdenied hok hsome
      · obtain rfl := Option.some.inj h
        exact hrow
      · obtain rfl := Option.some.inj h
        exact hrow
      · exact users_of_resolved hrow h
      · refine users_of_resolved ?_ h
        refine (Store.get_put_of_ne _ _ ?_).trans hrow
        rintro rfl
        exact hsome (by rw [hrow]; rfl)
    · cases h
  | count r ok =>
    obtain ⟨call, hr, h⟩ := Option.bind_eq_some_iff.mp h
    unfold stepCount at h
    aesop
  | change r ok =>
    cases ok with
    | true => exact absurd rfl (ha r)
    | false =>
      obtain ⟨call, hr, h⟩ := Option.bind_eq_some_iff.mp h
      unfold stepChange at h
      split at h
      · obtain rfl := Option.some.inj h
        exact hrow
      · cases h

/-- A step from a table with an active administrator leads to one exactly if it is
`LeavesAdmin`. -/
theorem hasActiveAdmin_iff (hs : s.HasActiveAdmin) (h : step s a = some s') :
    s'.HasActiveAdmin ↔ s.LeavesAdmin a := by
  obtain ⟨id, row, hrow, hadmin⟩ := hs
  by_cases hchange : ∃ r, a = .change r true
  · obtain ⟨r, rfl⟩ := hchange
    obtain ⟨call, user, hr, hstage, husers⟩ := execute_of_step h
    have hcondition : s.LeavesAdmin (.change r true) ↔
        (call.op.takesAdmin = true → s.OtherActiveAdmin user.id) := by
      constructor
      · exact fun hleaves => hleaves call hr user (by rw [hstage]; rfl)
      · intro hother call' hr' user' hstage'
        obtain rfl := Option.some.inj (hr.symm.trans hr')
        rw [hstage] at hstage'
        obtain rfl := Option.some.inj hstage'
        exact hother
    rw [hcondition]
    cases htakes : call.op.takesAdmin with
    | false =>
      obtain ⟨row', hrow', hadmin'⟩ := execute_keepsAdmin user htakes hrow hadmin
      exact iff_of_true ⟨id, row', husers ▸ hrow', hadmin'⟩ Bool.noConfusion
    | true =>
      have hsame : ∀ id', id' ≠ user.id → s'.users.get id' = s.users.get id' := by
        rw [husers]
        exact changesOnly_execute user call.op
      constructor
      · rintro ⟨id', row', hrow', hadmin'⟩ -
        have hne : id' ≠ user.id := by
          rintro rfl
          rw [husers] at hrow'
          rw [execute_takesAdmin htakes row' hrow'] at hadmin'
          cases hadmin'
        exact ⟨id', row', (hsame id' hne).symm.trans hrow', hadmin', hne⟩
      · intro hother
        obtain ⟨id', row', hrow', hadmin', hne⟩ := hother rfl
        exact ⟨id', row', (hsame id' hne).trans hrow', hadmin'⟩
  · have hkept := kept_of_step h (fun r heq => hchange ⟨r, heq⟩) hrow
    refine iff_of_true ⟨id, row, hkept, hadmin⟩ ?_
    cases a with
    | change r ok =>
      cases ok with
      | true => exact absurd ⟨r, rfl⟩ hchange
      | false => trivial
    | _ => trivial

/-- **Main theorem.**  In every run that starts with an active administrator, there is one in every
state on the way iff every statement that takes an administrator away finds another one in the
table. -/
theorem adminRemains_iff {s₀ : AdminSystem} {as : List AdminAction} (h₀ : s₀.HasActiveAdmin)
    (hr : run step s₀ as = some s) :
    (∀ pre t, pre <+: as → run step s₀ pre = some t → t.HasActiveAdmin) ↔
      StepsOk step LeavesAdmin s₀ as :=
  stepsOk_iff_of_prefixes (fun _ _ _ hs h => hasActiveAdmin_iff hs h) h₀ hr

/-! ### Two runs -/

def twoAdmins : AdminSystem where
  users := ((∅ : Store Int UserRow).put 1 ⟨1, true, true, false, false, []⟩).put 2
    ⟨2, true, true, false, false, []⟩
  calls := ∅

theorem hasActiveAdmin_twoAdmins : twoAdmins.HasActiveAdmin :=
  ⟨1, ⟨1, true, true, false, false, []⟩, by decide, rfl⟩

/-- The flags with which the administrator `id` was authenticated. -/
def adminAuth (id : Int) : UserPermissions := ⟨id, true, false, false, []⟩

def serialDeactivation : List AdminAction :=
  [.start 0 (.updateUserStatus (adminAuth 1) 2 false), .getById 0 true, .count 0 true,
    .change 0 true, .start 1 (.updateUserStatus (adminAuth 2) 1 false), .getById 1 true,
    .count 1 true]

def parallelDeactivation : List AdminAction :=
  [.start 0 (.updateUserStatus (adminAuth 1) 2 false), .getById 0 true, .count 0 true,
    .start 1 (.updateUserStatus (adminAuth 2) 1 false), .getById 1 true, .count 1 true,
    .change 0 true, .change 1 true]

/-- When one comes after the other, the second is told that this is the last administrator. -/
theorem adminRemains_serialDeactivation :
    ∃ s, run step twoAdmins serialDeactivation = some s ∧
      ∀ pre t, pre <+: serialDeactivation → run step twoAdmins pre = some t →
        t.HasActiveAdmin := by
  have hsome : (run step twoAdmins serialDeactivation).isSome = true := by decide
  obtain ⟨s, hs⟩ := Option.isSome_iff_exists.mp hsome
  exact ⟨s, hs, (adminRemains_iff hasActiveAdmin_twoAdmins hs).mpr (by decide)⟩

/-- When both count first, no administrator is left. -/
theorem not_adminRemains_parallelDeactivation :
    ¬ ∀ (s₀ s : AdminSystem) (as : List AdminAction), s₀.HasActiveAdmin →
      run step s₀ as = some s → s.HasActiveAdmin := by
  intro hall
  have hnone : (run step twoAdmins parallelDeactivation).map (fun s =>
      s.users.entries.any fun e => isActiveAdmin e.2) = some false := by
    decide
  obtain ⟨s, hs, hany⟩ := Option.map_eq_some_iff.mp hnone
  obtain ⟨id, row, hrow, hadmin⟩ := hall twoAdmins s _ hasActiveAdmin_twoAdmins hs
  have hfound : (s.users.entries.any fun e => isActiveAdmin e.2) = true :=
    List.any_eq_true.mpr ⟨_, Store.get_eq_some_iff.mp hrow, hadmin⟩
  rw [hany] at hfound
  cases hfound

end AdminSystem

end Pkgly.Administrators
