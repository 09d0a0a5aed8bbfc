import Pkgly.Docker.ObjectAccounting

/-!
# Reconciliation and fresh rows

The rows are accounted for (`Accounted`) if each object whose writer has written its row has a row
with its size.  A reconciliation does not guard this: the revision of a row stays as it is when a
writer finds that the row says the right thing already, and starts anew when a row that was removed
is written again, so that a plan which is made from an older look at the storage may still be
carried out.  Writers of one path may also write their rows in another order than their objects.

`accounted_of_run`: the rows are accounted for in every state of a run in which no step gives a row
a revision that such a plan waits for, and no writer writes its row after that of a later write of
another size (`StepOk`).  The proof follows what each step of a process does (`WriterMoves`,
`ReconcileMoves`), and keeps that a plan agrees with the storage wherever its revision still counts
(`PlanOk`).
-/

namespace Pkgly.Docker.ObjectAccounting

def Accounted (st : Accounting) : Prop :=
  ∀ path object, st.objects.get path = some object → object.recorded = true →
    ∃ row, st.rows.get path = some row ∧ row.sizeBytes = object.content.length

/-! ### Plans -/

/-- A write of a row that a reconciliation is going to make if the row has the revision: a size,
or the removal of the row. -/
structure Plan where
  path : String
  revision : ℕ
  size : Option ℕ
deriving DecidableEq

def BackfillObject.plan (o : BackfillObject) : Option Plan :=
  o.revision.map fun revision => ⟨o.object.path, revision, some o.object.size⟩

def ListedRow.plan (row : ListedRow) (observed : Option ℕ) : Option Plan :=
  if observed = some row.storedSize then none else some ⟨row.path, row.revision, observed⟩

def removal (missing : String × ℕ) : Plan := ⟨missing.1, missing.2, none⟩

def comparePlans (inventory : Option (Store String ℕ)) (rows : List ListedRow)
    (missing : List (String × ℕ)) : List Plan :=
  missing.map removal ++
    match inventory with
    | none => []
    | some inventory => rows.filterMap fun row => row.plan (inventory.get row.path)

def Stage.plans : Stage → List Plan
  | .walk backfill _ => backfill.objects.filterMap BackfillObject.plan
  | .probe _ _ backfill _ => backfill.objects.filterMap BackfillObject.plan
  | .publish objects _ => objects.filterMap BackfillObject.plan
  | .compare inventory rows missing => comparePlans inventory rows missing
  | .update size row inventory rows missing =>
    ⟨row.path, row.revision, some size⟩ :: comparePlans inventory rows missing
  | _ => []

def Process.plans : Process → List Plan
  | .writer _ => []
  | .reconcile r => r.stage.plans

/-! ### The condition on a step -/

def NoStalePlan (processes : List Process) (path : String) (revision size : ℕ) : Prop :=
  ∀ p ∈ processes, ∀ plan ∈ p.plans, plan.path = path → plan.revision = revision →
    plan.size = some size

instance (processes : List Process) (path : String) (revision size : ℕ) :
    Decidable (NoStalePlan processes path revision size) :=
  inferInstanceAs (Decidable (∀ p ∈ processes, ∀ plan ∈ p.plans, _))

def upsertedRow (rows : ObjectRows) (path : String) (size : ℕ) (references : List String) :
    ObjectRow :=
  match rows.get path with
  | none => ⟨size, references, 0⟩
  | some row =>
    if row.sizeBytes = size ∧ row.references = references then row
    else ⟨size, references, row.revision + 1⟩

/-- A writer writes its row: not after that of a later write of another size, and not with a
revision that a stale plan waits for. -/
def RecordOk (s : Pool Accounting Process) (version : ℕ) (write : ObjectWrite) : Prop :=
  ∀ object ∈ s.shared.objects.get write.path,
    (object.version ≠ version → object.recorded = true →
      write.content.length = object.content.length) ∧
    (object.version = version ∨ object.recorded = true →
      NoStalePlan s.processes write.path (upsertedRow s.shared.rows write.path
        write.content.length write.references).revision object.content.length)

/-- A reconciliation updates a row: not with a revision that a stale plan waits for. -/
def UpdateOk (s : Pool Accounting Process) (path : String) (revision : ℕ) : Prop :=
  ∀ row ∈ s.shared.rows.get path, row.revision = revision →
    ∀ object ∈ s.shared.objects.get path, object.recorded = true →
      NoStalePlan s.processes path (revision + 1) object.content.length

instance (s : Pool Accounting Process) (version : ℕ) (write : ObjectWrite) :
    Decidable (RecordOk s version write) :=
  inferInstanceAs (Decidable (∀ object ∈ s.shared.objects.get write.path, _))

instance (s : Pool Accounting Process) (path : String) (revision : ℕ) :
    Decidable (UpdateOk s path revision) :=
  inferInstanceAs (Decidable (∀ row ∈ s.shared.rows.get path, _))

def Stage.updates : Stage → Option (String × ℕ)
  | .publish (o :: _) _ => o.revision.map fun revision => (o.object.path, revision)
  | .update _ row _ _ _ => some (row.path, row.revision)
  | _ => none

def StageOk (s : Pool Accounting Process) (stage : Stage) : Prop :=
  ∀ update ∈ stage.updates, UpdateOk s update.1 update.2

instance (s : Pool Accounting Process) (stage : Stage) : Decidable (StageOk s stage) :=
  inferInstanceAs (Decidable (∀ update ∈ stage.updates, _))

def ProcessOk (s : Pool Accounting Process) : Process → Prop
  | .writer (.record version write _) => RecordOk s version write
  | .writer _ => True
  | .reconcile r => StageOk s r.stage

instance (s : Pool Accounting Process) : ∀ p, Decidable (ProcessOk s p)
  | .writer (.save _ _) => isTrue trivial
  | .writer (.record version write _) => inferInstanceAs (Decidable (RecordOk s version write))
  | .writer .completed => isTrue trivial
  | .writer .failed => isTrue trivial
  | .reconcile r => inferInstanceAs (Decidable (StageOk s r.stage))

def StepOk (s : Pool Accounting Process) : Pool.Action Request Choice → Prop
  | .start _ => True
  | .advance i choice => choice = .ok → ∀ p ∈ s.processes[i]?, ProcessOk s p

instance (s : Pool Accounting Process) : ∀ action, Decidable (StepOk s action)
  | .start _ => isTrue trivial
  | .advance i choice => inferInstanceAs (Decidable (choice = .ok → ∀ p ∈ s.processes[i]?, _))

/-! ### What the steps do -/

variable {st st' : Accounting} {path : String} {rows : ObjectRows} {registry : Registry}
  {choice : Choice}

inductive WriterMoves (st : Accounting) : Choice → Writer → Accounting → Writer → Prop
  | ends {choice : Choice} {w : Writer} : WriterMoves st choice w st .failed
  | savesAndEnds {write : ObjectWrite} {rest : List ObjectWrite} :
    WriterMoves st (.error true) (.save write rest) (st.saveObject write) .failed
  | saves {write : ObjectWrite} {rest : List ObjectWrite} :
    WriterMoves st .ok (.save write rest) (st.saveObject write)
      (.record (st.nextVersion write.path) write rest)
  | records {version : ℕ} {write : ObjectWrite} {rest : List ObjectWrite} {rows : ObjectRows}
    (hrows : upsert st.rows write.path write.content.length write.references = some rows) :
    WriterMoves st .ok (.record version write rest)
      ({ st with rows := rows }.markRecorded write.path version) (.next rest)

variable {w : Writer} {stage : Stage}

theorem writerMoves_of_next {w' : Writer} (h : st.nextWriter w choice = some (st', w')) :
    WriterMoves st choice w st' w' := by
  cases w with
  | completed | failed => cases h
  | save write rest =>
    cases choice with
    | ok =>
      cases h
      exact .saves
    | error done =>
      cases done with
      | true =>
        cases h
        exact .savesAndEnds
      | false =>
        cases h
        exact .ends
    | _ => cases h
  | record version write rest =>
    cases choice with
    | ok =>
      unfold Accounting.nextWriter at h
      cases hrows : upsert st.rows write.path write.content.length write.references with
      | none =>
        simp only [hrows] at h
        cases h
        exact .ends
      | some rows =>
        simp only [hrows] at h
        cases h
        exact .records hrows
    | error done =>
      cases h
      exact .ends
    | _ => cases h

def Plan.Agrees (plan : Plan) (st : Accounting) : Prop :=
  ∀ object, st.objects.get plan.path = some object → object.recorded = true →
    plan.size = some object.content.length

inductive ReconcileMoves (st : Accounting) : Choice → Stage → Accounting → Stage → Prop
  /-- New plans are made from what the storage holds. -/
  | observes {choice : Choice} {stage stage' : Stage}
    (hplans : ∀ plan ∈ stage'.plans, plan ∈ stage.plans ∨ plan.Agrees st) :
    ReconcileMoves st choice stage st stage'
  | inserts {stage stage' : Stage} {path : String} {row : ObjectRow}
    (hplans : stage'.plans ⊆ stage.plans) (hnone : st.rows.get path = none) :
    ReconcileMoves st .ok stage { st with rows := st.rows.put path row } stage'
  /-- A plan is carried out. -/
  | updates {stage stage' : Stage} {path : String} {size : ℕ} {row row' : ObjectRow}
    (hplans : stage'.plans ⊆ stage.plans) (hget : st.rows.get path = some row)
    (hplan : ⟨path, row.revision, some size⟩ ∈ stage.plans)
    (hok : ∀ s : Pool Accounting Process, StageOk s stage → UpdateOk s path row.revision)
    (hsize : row'.sizeBytes = size) (hrevision : row'.revision = row.revision + 1) :
    ReconcileMoves st .ok stage { st with rows := st.rows.put path row' } stage'
  | deletes {stage stage' : Stage} {missing : List (String × ℕ)}
    (hplans : stage'.plans = []) (hmissing : ∀ m ∈ missing, removal m ∈ stage.plans) :
    ReconcileMoves st .ok stage { st with rows := st.rows.removeIf (deletes st.rows missing) } stage'

theorem ReconcileMoves.of_subset {stage' : Stage} (h : stage'.plans ⊆ stage.plans) :
    ReconcileMoves st choice stage st stage' :=
  .observes fun _ hplan => .inl (h hplan)

theorem ReconcileMoves.of_nil {stage' : Stage} (h : stage'.plans = []) :
    ReconcileMoves st choice stage st stage' := by
  refine .of_subset ?_
  rw [h]
  exact List.nil_subset _

/-- The objects whose rows have been written are at paths that locations print. -/
def Printed (st : Accounting) : Prop :=
  ∀ path object, st.objects.get path = some object → object.recorded = true →
    (StoragePath.ofString path).toString' = path

theorem objectAt_of_get {object : StoredObject} (h : Printed st)
    (hget : st.objects.get path = some object) (hrecorded : object.recorded = true) :
    st.objectAt path = some object := by
  unfold Accounting.objectAt
  rw [h path object hget hrecorded, hget]

/-! ### Backfills -/

theorem agrees_of_observe {serde : SerdeJson} {name : String} {references : List String}
    {objects : List ObservedObject} (h : Printed st)
    (hobserve : st.observe serde name path = some (references, objects)) {o : ObservedObject}
    (ho : o ∈ objects) (revision : ℕ) : Plan.Agrees ⟨o.path, revision, some o.size⟩ st := by
  unfold Accounting.observe at hobserve
  cases hat : st.objectAt path with
  | none =>
    rw [hat] at hobserve
    cases hobserve
    cases ho
  | some object =>
    have hfound : o.path = path ∧ o.size = object.content.length := by
      rw [hat] at hobserve
      by_cases hmanifest : (splitManifestCachePath path).isSome = true
      · aesop
      · grind
    intro object' hget hrecorded
    have hget' : st.objects.get path = some object' := hfound.1 ▸ hget
    have hsame := (objectAt_of_get h hget' hrecorded).symm.trans hat
    obtain rfl := Option.some.inj hsame
    exact congrArg some hfound.2

theorem plans_nextWalk (st : Accounting) (backfill : Backfill) (entries : List String) :
    (st.nextWalk backfill entries).plans ⊆ backfill.objects.filterMap BackfillObject.plan := by
  unfold Accounting.nextWalk
  cases backfill.pending with
  | nil =>
    intro plan hplan
    obtain ⟨o, ho, heq⟩ := List.mem_filterMap.mp hplan
    exact List.mem_filterMap.mpr ⟨o, List.mem_reverse.mp ho, heq⟩
  | cons path pending =>
    by_cases hvisited : path ∈ backfill.visited
    · simp only [if_pos hvisited]
      exact List.Subset.refl _
    · simp only [if_neg hvisited]
      exact List.Subset.refl _

theorem moves_nextProbe {revision : Option ℕ} {backfill : Backfill} {entries : List String}
    (h : Printed st)
    (hnext : st.nextProbe registry.serde path revision backfill entries = some stage) :
    ReconcileMoves st .ok (.probe path revision backfill entries) st stage := by
  obtain ⟨⟨references, objects⟩, hobserve, rfl⟩ := Option.map_eq_some_iff.mp hnext
  refine .observes fun plan hplan => ?_
  obtain ⟨o, ho, heq⟩ := List.mem_filterMap.mp hplan
  rcases List.mem_append.mp ho with ho | ho
  · exact .inl (List.mem_filterMap.mpr ⟨o, ho, heq⟩)
  · obtain ⟨object, hobject, rfl⟩ := List.mem_map.mp ho
    obtain ⟨ρ, _, rfl⟩ := Option.map_eq_some_iff.mp heq
    exact .inr (agrees_of_observe h hobserve hobject ρ)

theorem updateIfRevision_cases (rows : ObjectRows) (path : String) (expected : ℕ)
    (update : ObjectRow → ObjectRow) :
    (updateIfRevision rows path expected update).1 = rows ∨
      ∃ row, rows.get path = some row ∧ row.revision = expected ∧
        (updateIfRevision rows path expected update).1 =
          rows.put path { update row with revision := row.revision + 1 } := by
  unfold updateIfRevision
  grind

theorem eq_of_tryFromSize {size size' : ℕ} (h : tryFromSize size = some size') : size' = size := by
  unfold tryFromSize at h
  grind

theorem moves_publishObject {o : BackfillObject} {objects : List BackfillObject}
    {entries : List String} (h : Accounting.publishObject st.rows o = some rows) :
    ReconcileMoves st .ok (.publish (o :: objects) entries) { st with rows := rows }
      (.publish objects entries) := by
  have hsubset : (Stage.publish objects entries).plans ⊆
      (Stage.publish (o :: objects) entries).plans := by grind [List.mem_cons_of_mem, Stage.plans]
  obtain ⟨object, revision⟩ := o
  unfold Accounting.publishObject at h
  cases revision with
  | none =>
    obtain ⟨size, _, rfl⟩ := Option.map_eq_some_iff.mp h
    cases hget : st.rows.get object.path with
    | none => exact .inserts hsubset hget
    | some row => exact .of_subset hsubset
  | some revision =>
    obtain ⟨_, hupsert, rfl⟩ := Option.map_eq_some_iff.mp h
    obtain ⟨size, hsize, rfl⟩ := Option.map_eq_some_iff.mp hupsert
    rcases updateIfRevision_cases st.rows object.path revision
        fun row => { row with sizeBytes := size, references := object.references } with
      heq | ⟨row, hget, hrevision, heq⟩
    · rw [heq]
      exact .of_subset hsubset
    · rw [heq]
      refine .updates hsubset hget ?_ (fun s hok => ?_) (eq_of_tryFromSize hsize) rfl
      · rw [hrevision]
        exact List.mem_filterMap.mpr ⟨_, List.mem_cons_self, rfl⟩
      · rw [hrevision]
        exact hok _ rfl

/-! ### The loop over the rows -/

variable {row : ListedRow} {listed : List ListedRow} {missing : List (String × ℕ)}
  {inventory : Option (Store String ℕ)} {observed : Option ℕ} {plan : Plan}

theorem comparePlans_cons :
    comparePlans inventory listed missing ⊆ comparePlans inventory (row :: listed) missing := by
  intro plan hplan
  rcases List.mem_append.mp hplan with hplan | hplan
  · exact List.mem_append_left _ hplan
  grind [List.mem_append_right, List.mem_cons_of_mem, comparePlans]

theorem plans_judgeRow
    (hplan : plan ∈ (Accounting.judgeRow row observed inventory listed missing).plans) :
    plan ∈ comparePlans inventory listed missing ∨ row.plan observed = some plan := by
  unfold Accounting.judgeRow at hplan
  unfold ListedRow.plan
  cases observed with
  | none =>
    have hmem : plan ∈ comparePlans inventory listed
        (missing ++ [(row.path, row.revision)]) := hplan
    unfold comparePlans at hmem
    rw [List.map_append, List.append_assoc] at hmem
    rcases List.mem_append.mp hmem with hmem | hmem
    · exact .inl (List.mem_append_left _ hmem)
    · rcases List.mem_append.mp hmem with hmem | hmem
      · aesop
      · exact .inl (List.mem_append_right _ hmem)
  | some size =>
    by_cases hsize : size = row.storedSize
    · simp only [hsize, ne_eq, not_true_eq_false, if_false] at hplan
      exact .inl hplan
    · simp only [ne_eq, hsize, not_false_eq_true, if_true] at hplan
      rcases List.mem_cons.mp hplan with rfl | hplan
      · rw [if_neg (fun heq => hsize (Option.some.inj heq))]
        exact .inr rfl
      · exact .inl hplan

theorem path_of_plan (h : row.plan observed = some plan) :
    plan.path = row.path ∧ plan.size = observed := by
  unfold ListedRow.plan at h
  grind

theorem moves_judgeRow (h : Printed st) :
    ReconcileMoves st .ok (.compare inventory (row :: listed) missing) st
      (Accounting.judgeRow row (st.observedSize inventory row.path) inventory listed missing) := by
  refine .observes fun plan hplan => ?_
  rcases plans_judgeRow hplan with hplan | hplan
  · exact .inl (comparePlans_cons hplan)
  · cases inventory with
    | some inventory =>
      exact .inl (List.mem_append_right _
        (List.mem_filterMap.mpr ⟨row, List.mem_cons_self, hplan⟩))
    | none =>
      grind [path_of_plan, Accounting.observedSize, objectAt_of_get, Stage.plans, Plan.Agrees]

theorem moves_scan :
    ReconcileMoves st .ok (.scan listed) st
      (.compare (some (Accounting.inventoryOf st.objects)) listed []) := by
  refine .observes fun plan hplan => .inr fun object hget _ => ?_
  obtain ⟨row, _, heq⟩ := List.mem_filterMap.mp hplan
  grind [path_of_plan, Accounting.inventoryOf, Store.get_mapValues]

theorem moves_finishRows {summary : ReconcileSummary} {r : Reconcile}
    (hnext : st.finishRows missing summary = (st', r)) :
    ReconcileMoves st .ok (.compare inventory [] missing) st' r.stage := by
  unfold Accounting.finishRows at hnext
  by_cases hmissing : missing = []
  · rw [if_pos hmissing] at hnext
    cases hnext
    exact .of_nil rfl
  · rw [if_neg hmissing] at hnext
    cases hnext
    exact .deletes rfl fun m hm => List.mem_append_left _ (List.mem_map_of_mem hm)

theorem moves_updateSize {size : ℕ} {corrected : Bool}
    (h : updateSizeIfRevision st.rows row.path size row.revision = some (rows, corrected)) :
    ReconcileMoves st .ok (.update size row inventory listed missing) { st with rows := rows }
      (.compare inventory listed missing) := by
  have hsubset : (Stage.compare inventory listed missing).plans ⊆
      (Stage.update size row inventory listed missing).plans :=
    List.subset_cons_self _ _
  obtain ⟨size', hsize, heq⟩ := Option.map_eq_some_iff.mp h
  have hrows : rows = (updateIfRevision st.rows row.path row.revision
      fun row => { row with sizeBytes := size' }).1 := by
    rw [heq]
  rcases updateIfRevision_cases st.rows row.path row.revision
      fun row => { row with sizeBytes := size' } with hsame | ⟨row', hget, hrevision, hput⟩
  · rw [hrows, hsame]
    exact .of_subset hsubset
  · rw [hrows, hput]
    refine .updates hsubset hget ?_ (fun s hok => ?_) (eq_of_tryFromSize hsize) rfl
    · rw [hrevision]
      exact List.mem_cons_self
    · rw [hrevision]
      exact hok _ rfl

theorem reconcileMoves_of_next {summary : ReconcileSummary} {r : Reconcile} (hprinted : Printed st)
    (h : st.nextReconcile registry summary stage choice = some (st', r)) :
    ReconcileMoves st choice stage st' r.stage := by
  cases stage with
  | completed | failed => cases choice <;> cases h
  | collect =>
    cases choice with
    | found entries | error done =>
      cases h
      exact .of_nil rfl
    | _ => cases h
  | check entries =>
    cases entries with
    | nil =>
      cases choice with
      | ok =>
        cases h
        refine .of_nil ?_
        cases registry.isS3 with
        | true | false => rfl
      | error done =>
        cases h
        exact .of_nil rfl
      | _ => cases h
    | cons entry entries =>
      cases choice with
      | answer needsBackfill =>
        cases needsBackfill with
        | false =>
          cases h
          exact .of_nil rfl
        | true =>
          unfold Accounting.nextReconcile at h
          cases hsplit : splitManifestCachePath entry with
          | none | some name =>
            simp only [hsplit] at h
            cases h
            exact .of_nil rfl
      | error done =>
        cases h
        exact .of_nil rfl
      | _ => cases h
  | walk backfill entries =>
    cases choice with
    | ok =>
      cases h
      exact .of_subset (plans_nextWalk st backfill entries)
    | error done =>
      cases h
      exact .of_nil rfl
    | _ => cases h
  | probe path revision backfill entries =>
    cases choice with
    | ok =>
      obtain ⟨stage, hstage, heq⟩ := Option.map_eq_some_iff.mp h
      cases heq
      exact moves_nextProbe hprinted hstage
    | unread =>
      cases h
      exact .of_subset (List.Subset.refl _)
    | error done =>
      cases h
      exact .of_nil rfl
    | _ => cases h
  | publish objects entries =>
    cases choice with
    | ok =>
      cases objects with
      | nil =>
        cases h
        exact .of_nil rfl
      | cons o objects =>
        unfold Accounting.nextReconcile at h
        cases hrows : Accounting.publishObject st.rows o with
        | none =>
          simp only [hrows] at h
          cases h
          exact .of_nil rfl
        | some rows =>
          simp only [hrows] at h
          cases h
          exact moves_publishObject hrows
    | error done =>
      cases objects <;> cases h <;> exact .of_nil rfl
    | _ => cases objects <;> cases h
  | scan rows =>
    cases choice with
    | ok =>
      cases h
      exact moves_scan
    | error done =>
      cases h
      exact .of_nil rfl
    | _ => cases h
  | compare inventory rows missing =>
    cases rows with
    | nil =>
      cases choice with
      | ok => exact moves_finishRows (Option.some.inj h)
      | error done =>
        cases inventory <;> cases h <;> exact .of_nil rfl
      | _ => cases inventory <;> cases h
    | cons row rows =>
      cases choice with
      | ok =>
        cases h
        exact moves_judgeRow hprinted
      | error done =>
        cases inventory with
        | none =>
          cases h
          have hsubset : comparePlans none rows missing ⊆
              comparePlans none (row :: rows) missing := comparePlans_cons
          exact .of_subset hsubset
        | some inventory => cases h
      | _ => cases inventory <;> cases h
  | update size row inventory rows missing =>
    cases choice with
    | ok =>
      unfold Accounting.nextReconcile at h
      cases hrows : updateSizeIfRevision st.rows row.path size row.revision with
      | none =>
        simp only [hrows] at h
        cases h
        exact .of_nil rfl
      | some r =>
        grind [moves_updateSize]
    | error done =>
      cases h
      exact .of_nil rfl
    | _ => cases h

/-! ### Rows and objects after a step -/

def PlanOk (st : Accounting) (plan : Plan) : Prop :=
  ∀ row, st.rows.get plan.path = some row → row.revision = plan.revision → plan.Agrees st

theorem PlanOk.put {row : ObjectRow} (h : PlanOk st plan)
    (hnew : plan.path = path → plan.revision = row.revision → plan.Agrees st) :
    PlanOk { st with rows := st.rows.put path row } plan := by
  intro row' hget hrevision
  rcases Store.get_put_eq_some.mp hget with ⟨hpath, rfl⟩ | ⟨_, hget⟩
  · exact hnew hpath hrevision.symm
  · exact h row' hget hrevision

theorem PlanOk.removeIf {p : String → Bool} (h : PlanOk st plan) :
    PlanOk { st with rows := st.rows.removeIf p } plan := by
  intro row hget hrevision
  have hget' : (if p plan.path then none else st.rows.get plan.path) = some row :=
    (Store.get_removeIf _ _ _).symm.trans hget
  aesop

theorem PlanOk.saveObject (h : PlanOk st plan) (write : ObjectWrite) :
    PlanOk (st.saveObject write) plan := by
  intro row hget hrevision object hobject hrecorded
  rcases Store.get_put_eq_some.mp hobject with ⟨_, rfl⟩ | ⟨_, hobject⟩
  · cases hrecorded
  · exact h row hget hrevision object hobject hrecorded

theorem upsert_spec {size : ℕ} {references : List String}
    (h : upsert st.rows path size references = some rows) :
    rows.get path = some (upsertedRow st.rows path size references) ∧
      (upsertedRow st.rows path size references).sizeBytes = size ∧
      ∀ other, other ≠ path → rows.get other = st.rows.get other := by
  obtain ⟨size', hsize, hrows⟩ := Option.map_eq_some_iff.mp h
  obtain rfl := eq_of_tryFromSize hsize
  unfold upsertedRow
  cases hget : st.rows.get path with
  | none =>
    simp only [hget] at hrows
    rw [← hrows]
    exact ⟨Store.get_put_self _ _ _, rfl, fun other hne => Store.get_put_of_ne _ _ hne⟩
  | some row =>
    simp only [hget] at hrows
    by_cases hsame : row.sizeBytes = size' ∧ row.references = references
    · grind
    · rw [if_neg hsame] at hrows
      simp only [if_neg hsame]
      rw [← hrows]
      exact ⟨Store.get_put_self _ _ _, trivial, fun other hne => Store.get_put_of_ne _ _ hne⟩

theorem rows_markRecorded (st : Accounting) (path : String) (version : ℕ) :
    (st.markRecorded path version).rows = st.rows := by
  unfold Accounting.markRecorded
  grind

/-- The objects after a row has been written: the same, but for one that is recorded. -/
theorem get_markRecorded {version : ℕ} {other : String} {object : StoredObject}
    (h : (st.markRecorded path version).objects.get other = some object) :
    ∃ before, st.objects.get other = some before ∧ object.content = before.content ∧
      object.version = before.version ∧
      (object.recorded = true → before.recorded = true ∨
        other = path ∧ before.version = version) := by
  unfold Accounting.markRecorded at h
  cases hget : st.objects.get path with
  | none =>
    rw [hget] at h
    exact ⟨object, h, rfl, rfl, .inl⟩
  | some before =>
    rw [hget] at h
    by_cases hversion : before.version = version
    · simp only [if_pos hversion] at h
      rcases Store.get_put_eq_some.mp h with ⟨rfl, rfl⟩ | ⟨_, h⟩
      · exact ⟨before, hget, rfl, rfl, fun _ => .inr ⟨rfl, hversion⟩⟩
      · exact ⟨object, h, rfl, rfl, .inl⟩
    · simp only [if_neg hversion] at h
      exact ⟨object, h, rfl, rfl, .inl⟩

theorem exists_get_markRecorded (st : Accounting) (path : String) (version : ℕ) {other : String}
    {before : StoredObject} (h : st.objects.get other = some before) :
    ∃ object, (st.markRecorded path version).objects.get other = some object := by
  unfold Accounting.markRecorded
  cases hget : st.objects.get path with
  | none => exact ⟨before, h⟩
  | some current =>
    by_cases hversion : current.version = version
    · simp only [if_pos hversion]
      rw [Store.get_put]
      grind
    · simp only [if_neg hversion]
      exact ⟨before, h⟩

/-! ### The invariant -/

/-- A writer that is about to write a row has written its object, or another has since. -/
def WriterOk (st : Accounting) : Writer → Prop
  | .record version write _ => ∃ object, st.objects.get write.path = some object ∧
    version ≤ object.version ∧ (object.version = version → object.content = write.content)
  | _ => True

def Kept (st : Accounting) : Process → Prop
  | .writer w => WriterOk st w
  | .reconcile r => ∀ plan ∈ r.stage.plans, PlanOk st plan

/-- **The invariant.** -/
def accountedInvariant : Pool.Invariant Accounting Process where
  shared st := Accounted st ∧ Printed st
  each := Kept
  pair _ _ := True

theorem writerOk_next (st : Accounting) (writes : List ObjectWrite) :
    WriterOk st (.next writes) := by
  cases writes with
  | nil | cons write rest => trivial

theorem kept_init (st : Accounting) (request : Request) :
    Kept st (Process.init registry request) := by
  cases request with
  | reconcile => exact fun plan hplan => by cases hplan
  | completeUpload name digest content =>
    exact writerOk_next st [blobWrite name digest content]
  | putManifest name reference body =>
    change WriterOk st
      (((manifestWrites registry name reference body).map Writer.next).getD .failed)
    cases manifestWrites registry name reference body with
    | none => trivial
    | some writes => exact writerOk_next st writes

/-! ### An object is written -/

variable {write : ObjectWrite}

theorem Accounted.saveObject (h : Accounted st) (write : ObjectWrite) :
    Accounted (st.saveObject write) := by
  intro path object hget hrecorded
  rcases Store.get_put_eq_some.mp hget with ⟨_, rfl⟩ | ⟨_, hget⟩
  · cases hrecorded
  · exact h path object hget hrecorded

theorem Printed.saveObject (h : Printed st) (write : ObjectWrite) :
    Printed (st.saveObject write) := by
  intro path object hget hrecorded
  rcases Store.get_put_eq_some.mp hget with ⟨_, rfl⟩ | ⟨_, hget⟩
  · cases hrecorded
  · exact h path object hget hrecorded

theorem WriterOk.saveObject (h : WriterOk st w) (write : ObjectWrite) :
    WriterOk (st.saveObject write) w := by
  cases w with
  | record version write' rest =>
    obtain ⟨object, hget, hle, hcontent⟩ := h
    by_cases hpath : write'.path = write.path
    · have hversion : st.nextVersion write.path = object.version + 1 := by
        unfold Accounting.nextVersion
        rw [← hpath, hget]
        rfl
      refine ⟨⟨write.content, st.nextVersion write.path, false⟩, ?_, ?_, ?_⟩
      · exact Store.get_put_eq_some.mpr (.inl ⟨hpath, rfl⟩)
      · change version ≤ st.nextVersion write.path
        omega
      · intro heq
        change st.nextVersion write.path = version at heq
        omega
    · exact ⟨object, Store.get_put_eq_some.mpr (.inr ⟨hpath, hget⟩), hle, hcontent⟩
  | _ => trivial

theorem Kept.saveObject {p : Process} (h : Kept st p) (write : ObjectWrite) :
    Kept (st.saveObject write) p := by
  cases p with
  | writer w => exact WriterOk.saveObject h write
  | reconcile r => exact fun plan hplan => (h plan hplan).saveObject write

theorem writerOk_record (st : Accounting) (write : ObjectWrite) (rest : List ObjectWrite) :
    WriterOk (st.saveObject write) (.record (st.nextVersion write.path) write rest) :=
  ⟨_, Store.get_put_self _ _ _, Nat.le_refl _, fun _ => rfl⟩

/-! ### A writer writes its row -/

theorem WriterOk.markRecorded {version : ℕ} (h : WriterOk st w) :
    WriterOk ({ st with rows := rows }.markRecorded path version) w := by
  cases w with
  | record version' write' rest =>
    obtain ⟨before, hget, hle, hcontent⟩ := h
    obtain ⟨object, hobject⟩ := exists_get_markRecorded { st with rows := rows } path version hget
    obtain ⟨before', hget', hsame, hversion, _⟩ := get_markRecorded hobject
    obtain rfl := Option.some.inj (hget.symm.trans hget')
    grind [WriterOk, Accounting.markRecorded]
  | _ => trivial

theorem Printed.markRecorded {version : ℕ} (h : Printed st) :
    Printed ({ st with rows := rows }.markRecorded write.path version) := by
  intro path object hget hrecorded
  obtain ⟨before, hbefore, _, _, hor⟩ := get_markRecorded hget
  rcases hor hrecorded with hrecorded | ⟨rfl, _⟩
  · exact h path before hbefore hrecorded
  · exact write.wellFormed.toString'_ofString

section

variable {s : Pool Accounting Process} {version : ℕ} {rest : List ObjectWrite}

theorem accounted_record (h : Accounted s.shared)
    (hw : WriterOk s.shared (.record version write rest)) (hok : RecordOk s version write)
    (hrows : upsert s.shared.rows write.path write.content.length write.references = some rows) :
    Accounted ({ s.shared with rows := rows }.markRecorded write.path version) := by
  obtain ⟨hrow, hsize, hothers⟩ := upsert_spec hrows
  intro path object hget hrecorded
  rw [rows_markRecorded]
  obtain ⟨before, hbefore, hcontent, _, hor⟩ := get_markRecorded hget
  by_cases hpath : path = write.path
  · subst hpath
    refine ⟨_, hrow, ?_⟩
    rw [hsize, hcontent]
    by_cases hversion : before.version = version
    · obtain ⟨current, hcurrent, _, hsame⟩ := hw
      obtain rfl := Option.some.inj (hcurrent.symm.trans hbefore)
      rw [hsame hversion]
    · rcases hor hrecorded with hrecorded | ⟨_, heq⟩
      · exact (hok before hbefore).1 hversion hrecorded
      · exact absurd heq hversion
  aesop

theorem planOk_record (hok : RecordOk s version write)
    (hrows : upsert s.shared.rows write.path write.content.length write.references = some rows)
    {p : Process} (hp : p ∈ s.processes) (hplan : plan ∈ p.plans) (h : PlanOk s.shared plan) :
    PlanOk ({ s.shared with rows := rows }.markRecorded write.path version) plan := by
  obtain ⟨hrow, _, hothers⟩ := upsert_spec hrows
  intro row hget hrevision object hobject hrecorded
  rw [rows_markRecorded] at hget
  obtain ⟨before, hbefore, hcontent, _, hor⟩ := get_markRecorded hobject
  rw [hcontent]
  by_cases hpath : plan.path = write.path
  · rw [hpath] at hget hbefore
    obtain rfl := Option.some.inj (hrow.symm.trans hget)
    refine (hok before hbefore).2 ?_ p hp plan hplan hpath hrevision.symm
    grind
  · rcases hor hrecorded with hrecorded | ⟨heq, _⟩
    · exact h row ((hothers plan.path hpath).symm.trans hget) hrevision before hbefore hrecorded
    · exact absurd heq hpath

theorem kept_record (hok : RecordOk s version write)
    (hrows : upsert s.shared.rows write.path write.content.length write.references = some rows)
    {p : Process} (hp : p ∈ s.processes) (h : Kept s.shared p) :
    Kept ({ s.shared with rows := rows }.markRecorded write.path version) p := by
  cases p with
  | writer w => exact WriterOk.markRecorded h
  | reconcile r => exact fun plan hplan => planOk_record hok hrows hp hplan (h plan hplan)

end

/-! ### A reconciliation writes a row -/

theorem WriterOk.of_objects (h : WriterOk st w)
    (hobjects : st'.objects = st.objects) : WriterOk st' w := by
  simp_all [WriterOk]

theorem Accounted.agrees_of_none (h : Accounted st) (hnone : st.rows.get path = none)
    (hpath : plan.path = path) : plan.Agrees st := by
  intro object hget hrecorded
  obtain ⟨row, hrow, _⟩ := h plan.path object hget hrecorded
  rw [hpath, hnone] at hrow
  cases hrow

theorem Accounted.insert {row : ObjectRow} (h : Accounted st)
    (hnone : st.rows.get path = none) :
    Accounted { st with rows := st.rows.put path row } := by
  intro other object hget hrecorded
  obtain ⟨row', hrow', hsize⟩ := h other object hget hrecorded
  have hne : other ≠ path := by
    rintro rfl
    rw [hnone] at hrow'
    cases hrow'
  exact ⟨row', (Store.get_put_of_ne _ _ hne).trans hrow', hsize⟩

theorem Accounted.update {row : ObjectRow} {size : ℕ} (h : Accounted st)
    (hagrees : Plan.Agrees ⟨path, row.revision, some size⟩ st) {row' : ObjectRow}
    (hsize : row'.sizeBytes = size) :
    Accounted { st with rows := st.rows.put path row' } := by
  intro other object hget hrecorded
  by_cases hpath : other = path
  · subst hpath
    refine ⟨row', Store.get_put_self _ _ _, ?_⟩
    rw [hsize]
    exact Option.some.inj (hagrees object hget hrecorded)
  · obtain ⟨row'', hrow, hsize'⟩ := h other object hget hrecorded
    exact ⟨row'', (Store.get_put_of_ne _ _ hpath).trans hrow, hsize'⟩

/-- A row whose removal is planned, and whose revision counts, has no object that is recorded. -/
theorem Accounted.delete (h : Accounted st) (hmissing : ∀ m ∈ missing, PlanOk st (removal m)) :
    Accounted { st with rows := st.rows.removeIf (deletes st.rows missing) } := by
  intro path object hget hrecorded
  obtain ⟨row, hrow, hsize⟩ := h path object hget hrecorded
  refine ⟨row, ?_, hsize⟩
  have hkeeps : deletes st.rows missing path ≠ true := by
    intro hdeletes
    unfold deletes at hdeletes
    rw [hrow, Option.any_some, decide_eq_true_eq] at hdeletes
    have hagrees := hmissing _ hdeletes row hrow rfl object hget hrecorded
    cases hagrees
  exact (Store.get_removeIf _ _ _).trans ((if_neg hkeeps).trans hrow)

/-! ### Runs -/

variable {s s' : Pool Accounting Process} {action : Pool.Action Request Choice}

theorem holds_writer {w' : Writer} {t : Accounting}
    (h : Pool.Holds accountedInvariant s) (hw : WriterOk s.shared w)
    (hmoves : WriterMoves s.shared choice w t w') (hok : choice = .ok → ProcessOk s (.writer w)) :
    (Accounted t ∧ Printed t) ∧ WriterOk t w' ∧
      ∀ p ∈ s.processes, Kept s.shared p → Kept t p := by
  obtain ⟨haccounted, hprinted⟩ := h.shared
  cases hmoves with
  | ends => exact ⟨⟨haccounted, hprinted⟩, trivial, fun p _ hp => hp⟩
  | @savesAndEnds write rest =>
    exact ⟨⟨haccounted.saveObject write, hprinted.saveObject write⟩, trivial,
      fun p _ hp => hp.saveObject write⟩
  | @saves write rest =>
    exact ⟨⟨haccounted.saveObject write, hprinted.saveObject write⟩,
      writerOk_record s.shared write rest, fun p _ hp => hp.saveObject write⟩
  | records hrows =>
    have hrecord := hok rfl
    exact ⟨⟨accounted_record haccounted hw hrecord hrows, hprinted.markRecorded⟩,
      writerOk_next _ _, fun p hmem hp => kept_record hrecord hrows hmem hp⟩

theorem holds_reconcile {stage' : Stage} {t : Accounting}
    (h : Pool.Holds accountedInvariant s) (hstage : ∀ plan ∈ stage.plans, PlanOk s.shared plan)
    (hmem : ∃ summary, .reconcile ⟨stage, summary⟩ ∈ s.processes)
    (hmoves : ReconcileMoves s.shared choice stage t stage')
    (hok : choice = .ok → StageOk s stage) :
    (Accounted t ∧ Printed t) ∧ (∀ plan ∈ stage'.plans, PlanOk t plan) ∧
      ∀ p ∈ s.processes, Kept s.shared p → Kept t p := by
  obtain ⟨haccounted, hprinted⟩ := h.shared
  cases hmoves with
  | observes hplans =>
    refine ⟨⟨haccounted, hprinted⟩, fun plan hplan => ?_, fun p _ hp => hp⟩
    grind [PlanOk]
  | inserts hplans hnone =>
    refine ⟨⟨haccounted.insert hnone, hprinted⟩, fun plan hplan => ?_, fun p _ hp => ?_⟩
    · exact (hstage plan (hplans hplan)).put fun hpath _ => haccounted.agrees_of_none hnone hpath
    · cases p with
      | writer w => exact WriterOk.of_objects hp rfl
      | reconcile r =>
        exact fun plan hplan =>
          (hp plan hplan).put fun hpath _ => haccounted.agrees_of_none hnone hpath
  | @updates _ _ path size row row' hplans hget hplan hupdate hsize hrevision =>
    have hagrees := hstage _ hplan row hget rfl
    have hfresh := hupdate s (hok rfl) row hget rfl
    -- a plan for the revision that the row gets is for the size of the object
    have hnew : ∀ p ∈ s.processes, ∀ plan ∈ p.plans, plan.path = path →
        plan.revision = row'.revision → plan.Agrees s.shared := by
      intro p hp plan hmem hpath hrev object hobject hrecorded
      rw [hpath] at hobject
      exact hfresh object hobject hrecorded p hp plan hmem hpath (hrev.trans hrevision)
    obtain ⟨summary, hself⟩ := hmem
    refine ⟨⟨haccounted.update hagrees hsize, hprinted⟩, fun plan hmem => ?_, fun p hp hkept => ?_⟩
    · exact (hstage plan (hplans hmem)).put (hnew _ hself plan (hplans hmem))
    · cases p with
      | writer w => exact WriterOk.of_objects hkept rfl
      | reconcile r => exact fun plan hmem => (hkept plan hmem).put (hnew _ hp plan hmem)
  | deletes hplans hmissing =>
    refine ⟨⟨haccounted.delete fun m hm => hstage _ (hmissing m hm), hprinted⟩,
      fun plan hplan => ?_, fun p _ hp => ?_⟩
    · rw [hplans] at hplan
      cases hplan
    · cases p with
      | writer w => exact WriterOk.of_objects hp rfl
      | reconcile r => exact fun plan hplan => (hp plan hplan).removeIf

/-- **One step** of a pool keeps the invariant if it meets the condition. -/
theorem holds_step (h : Pool.Holds accountedInvariant s) (hok : StepOk s action)
    (hstep : (program registry).step s action = some s') : Pool.Holds accountedInvariant s' := by
  refine h.of_step hstep (fun request _ => ?_) fun i choice p t q ha hp hnext => ?_
  · exact ⟨kept_init s.shared request, fun _ => ⟨trivial, trivial⟩⟩
  · have hmem := List.mem_of_getElem? hp
    have hkept := h.each i p hp
    have hprocess : choice = .ok → ProcessOk s p := by
      rintro rfl
      rw [ha] at hok
      exact hok rfl p hp
    suffices hsuffices : (Accounted t ∧ Printed t) ∧ Kept t q ∧
        ∀ p ∈ s.processes, Kept s.shared p → Kept t p by
      obtain ⟨hshared, hq, hothers⟩ := hsuffices
      exact ⟨hshared, hq, fun j r _ hr =>
        ⟨hothers r (List.mem_of_getElem? hr) (h.each j r hr), trivial, trivial⟩⟩
    cases p with
    | writer w =>
      obtain ⟨⟨t', w'⟩, hw, heq⟩ := Option.map_eq_some_iff.mp hnext
      cases heq
      exact holds_writer h hkept (writerMoves_of_next hw) hprocess
    | reconcile r =>
      obtain ⟨⟨t', r'⟩, hr, heq⟩ := Option.map_eq_some_iff.mp hnext
      cases heq
      exact holds_reconcile h hkept ⟨r.summary, hmem⟩
        (reconcileMoves_of_next h.shared.2 hr) hprocess

theorem holds_initial (contents : Store String Bytes) (rows : ObjectRows) :
    Pool.Holds accountedInvariant ⟨.initial contents rows, []⟩ := by
  have hnone : ∀ path object,
      (Accounting.initial contents rows).objects.get path = some object →
        object.recorded = false := by
    intro path object hget
    have hmap : (contents.get path).map (fun content => (⟨content, 0, false⟩ : StoredObject)) =
        some object := (Store.get_mapValues _ _ _).symm.trans hget
    obtain ⟨content, _, rfl⟩ := Option.map_eq_some_iff.mp hmap
    rfl
  refine Pool.holds_nil ⟨fun path object hget hrecorded => ?_, fun path object hget hrecorded => ?_⟩
  · rw [hnone path object hget] at hrecorded
    cases hrecorded
  · rw [hnone path object hget] at hrecorded
    cases hrecorded

/-- **The rows of a run.**  If all of its steps meet the condition, every object whose writer has
written its row has a row with its size, wherever the run gets. -/
theorem accounted_of_run {contents : Store String Bytes} {rows : ObjectRows}
    {actions : List (Pool.Action Request Choice)}
    (hok : StepsOk (program registry).step StepOk ⟨.initial contents rows, []⟩ actions)
    (hrun : run (program registry).step ⟨.initial contents rows, []⟩ actions = some s') :
    Accounted s'.shared :=
  (run_invariant_of_stepsOk (fun _ _ _ h hok hstep => holds_step h hok hstep)
    (holds_initial contents rows) hok hrun).shared.1

/-! ### Examples -/

def s3Registry : Registry where
  serde := ⟨fun _ => none, fun _ => true⟩
  sha := .hexText
  isS3 := true

/-- The digest of the letter `k`. -/
def letterDigest : String :=
  "sha256:8254c329a92850f6d539dd376f4816ee2764517da5e0235514af433164480d7a"

def driftedRows : ObjectRows := Store.put ∅ ("v2/app/blobs/" ++ letterDigest) ⟨1, [], 0⟩

/-- The blob is uploaded before the inventory is taken: the reconciliation finds it. -/
def uploadBeforeScan : List (Pool.Action Request Choice) :=
  [.start .reconcile, .start (.completeUpload "app" letterDigest [107]), .advance 0 (.found []),
    .advance 0 .ok, .advance 1 .ok, .advance 0 .ok, .advance 1 .ok, .advance 0 .ok, .advance 0 .ok]

theorem accounted_uploadBeforeScan :
    ∃ s', run (program s3Registry).step ⟨.initial ∅ driftedRows, []⟩ uploadBeforeScan = some s' ∧
      Accounted s'.shared := by
  have hok : StepsOk (program s3Registry).step StepOk ⟨.initial ∅ driftedRows, []⟩
      uploadBeforeScan := by
    decide
  have hsome : (run (program s3Registry).step ⟨.initial ∅ driftedRows, []⟩
      uploadBeforeScan).isSome = true := by
    decide
  obtain ⟨s', hrun⟩ := Option.isSome_iff_exists.mp hsome
  exact ⟨s', hrun, accounted_of_run hok hrun⟩

/-- The blob is uploaded after the inventory: the upsert does not change the row, nor its revision,
and the reconciliation removes it. -/
def uploadAfterScan : List (Pool.Action Request Choice) :=
  [.start .reconcile, .start (.completeUpload "app" letterDigest [107]), .advance 0 (.found []),
    .advance 0 .ok, .advance 0 .ok, .advance 1 .ok, .advance 1 .ok, .advance 0 .ok, .advance 0 .ok]

def Process.completed : Process → Bool
  | .writer w => w = .completed
  | .reconcile ⟨.completed, _⟩ => true
  | .reconcile _ => false

theorem not_accounted_uploadAfterScan :
    ∃ s', run (program s3Registry).step ⟨.initial ∅ driftedRows, []⟩ uploadAfterScan = some s' ∧
      (∀ p ∈ s'.processes, p.completed = true) ∧ ¬ Accounted s'.shared := by
  have hrun : ((run (program s3Registry).step ⟨.initial ∅ driftedRows, []⟩ uploadAfterScan).any
      fun s' => s'.processes.all Process.completed &&
        (s'.shared.objects.get ("v2/app/blobs/" ++ letterDigest)).any StoredObject.recorded &&
        (s'.shared.rows.get ("v2/app/blobs/" ++ letterDigest)).isNone) = true := by
    decide
  obtain ⟨s', hs', hall⟩ := (Option.any_eq_true _ _).mp hrun
  rw [Bool.and_eq_true, Bool.and_eq_true] at hall
  obtain ⟨⟨hcompleted, hobject⟩, hrow⟩ := hall
  refine ⟨s', hs', List.all_eq_true.mp hcompleted, fun haccounted => ?_⟩
  obtain ⟨object, hget, hrecorded⟩ := (Option.any_eq_true _ _).mp hobject
  obtain ⟨row, hsome, _⟩ := haccounted _ object hget hrecorded
  rw [hsome] at hrow
  cases hrow

end Pkgly.Docker.ObjectAccounting
