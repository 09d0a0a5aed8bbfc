import Pkgly.Storage.S3.CreationProbes

/-!
# Is the memo of clear ancestors right beside writers?

A probe compares the generation and inserts into the memo in two steps.  At the comparison no
writer of its key has returned (`notMem_returned_of_compare`): a writer that has returned has noted
its object after it was stored, so that either the probe sees the object or the generation has
changed.  Between the two steps a writer may return, and then the memo keeps a key at which there
is an object.  The memo is right all through a run exactly if that never happens
(`creationProbes_sound_iff`).
-/

namespace Pkgly.S3

/-- No key whose writer has returned is remembered as clear. -/
def MemoSound (s : ProbedStorage) : Prop :=
  ∀ path ∈ s.returned, s.storage.creationProbes.peek path = none

/-- When the next step inserts a key into the memo, no writer of the key has returned. -/
def InTime (_ : Outcome) (s : ProbedStorage) : Task → Prop
  | .probe (path :: _) .insert => path ∉ s.returned
  | _ => True

instance (outcome : Outcome) (s : ProbedStorage) (p : Task) : Decidable (InTime outcome s p) := by
  unfold InTime
  split <;> infer_instance

variable {s : ProbedStorage} {path : String}

/-! ### The operations on the memo -/

theorem peek_noteObjectCreated (s : ProbedStorage) (path path' : String) :
    (s.noteObjectCreated path).storage.creationProbes.peek path' =
      if path' = path then none else s.storage.creationProbes.peek path' :=
  Lru.peek_pop _ _ _

theorem MemoSound.noteObjectCreated (h : MemoSound s) (path : String) :
    MemoSound (s.noteObjectCreated path) := by
  intro path' hpath'
  rw [peek_noteObjectCreated]
  split_ifs
  · rfl
  · exact h path' hpath'

theorem MemoSound.finish (h : MemoSound s) (path : String) : MemoSound (s.finish path) := by
  intro path' hpath'
  show (s.noteObjectCreated path).storage.creationProbes.peek path' = none
  rcases List.mem_cons.mp hpath' with rfl | hpath'
  · rw [peek_noteObjectCreated, if_pos rfl]
  · exact h.noteObjectCreated path path' hpath'

/-- Inserting keeps the memo right exactly if no writer of the key has returned; a key that is
evicted does no harm. -/
theorem memoSound_rememberClear_iff (h : MemoSound s) :
    MemoSound (s.rememberClear path) ↔ path ∉ s.returned := by
  constructor
  · grind [ProbedStorage.rememberClear, S3Storage.rememberClear, Lru.peek_put, MemoSound]
  · intro hnew path' hpath'
    rw [← Option.not_isSome_iff_eq_none]
    intro hsome
    rcases S3Storage.peek_rememberClear hsome with rfl | hsome
    · exact hnew hpath'
    · rw [h path' hpath'] at hsome
      cases hsome

variable {s' : ProbedStorage}

theorem memoSound_next_iff {outcome : Outcome} {p p' : Task}
    (h : MemoSound s) (hnext : p.next outcome s = some (s', p')) :
    MemoSound s' ↔ InTime outcome s p := by
  cases p with
  | probe pending stage =>
    -- only an insertion changes the memo
    have hkeep : ∀ {r : ProbedStorage × Task}, some r = some (s', p') → r.1 = s →
        (MemoSound s' ↔ True) := by
      rintro r hr rfl
      obtain rfl := Option.some.inj hr
      exact iff_of_true h trivial
    cases stage with
    | look =>
      cases pending with
      | nil => exact hkeep hnext rfl
      | cons path rest =>
        rw [Task.next] at hnext
        split_ifs at hnext
        · exact hkeep hnext rfl
        · exact hkeep hnext rfl
    | readGeneration =>
      cases pending with
      | nil => cases hnext
      | cons path rest => exact hkeep hnext rfl
    | head generation noted =>
      cases pending with
      | nil => cases hnext
      | cons path rest =>
        cases outcome with
        | lost done => exact hkeep hnext rfl
        | ok =>
          rw [Task.next] at hnext
          split_ifs at hnext
          · exact hkeep hnext rfl
          · exact hkeep hnext rfl
    | compare generation noted =>
      cases pending with
      | nil => cases hnext
      | cons path rest =>
        rw [Task.next] at hnext
        split_ifs at hnext
        · exact hkeep hnext rfl
        · exact hkeep hnext rfl
    | insert =>
      cases pending with
      | nil => cases hnext
      | cons path rest =>
        obtain ⟨rfl, -⟩ := Prod.mk.inj (Option.some.inj hnext)
        exact memoSound_rememberClear_iff h
    | accepted | collision | failed => cases pending <;> cases hnext
  | write path object stage =>
    show MemoSound s' ↔ True
    refine iff_of_true ?_ trivial
    cases stage with
    | noteBefore =>
      obtain ⟨rfl, -⟩ := Prod.mk.inj (Option.some.inj hnext)
      exact h.noteObjectCreated path
    | put =>
      cases outcome with
      | ok =>
        obtain ⟨rfl, -⟩ := Prod.mk.inj (Option.some.inj hnext)
        exact h
      | lost done =>
        cases done with
        | true | false =>
          obtain ⟨rfl, -⟩ := Prod.mk.inj (Option.some.inj hnext)
          exact h
    | noteAfter =>
      obtain ⟨rfl, -⟩ := Prod.mk.inj (Option.some.inj hnext)
      exact h.finish path
    | returned | failed => cases hnext

/-! ### The comparison of the generations -/

/-- What a step does for the other processes: notes are counted, a writer returns only with a
note, and objects stay. -/
structure Extends (s s' : ProbedStorage) : Prop where
  noted_le : s.noted ≤ s'.noted
  returned_eq : s'.noted = s.noted → s'.returned = s.returned
  stored : ∀ path, s.storage.doesPathExist path = true → s'.storage.doesPathExist path = true

theorem Extends.refl (s : ProbedStorage) : Extends s s := ⟨le_rfl, fun _ => rfl, fun _ h => h⟩

theorem extends_noteObjectCreated (s : ProbedStorage) (path : String) :
    Extends s (s.noteObjectCreated path) where
  noted_le := Nat.le_succ _
  returned_eq h := absurd h (Nat.succ_ne_self _)
  stored _ h := h

theorem extends_finish (s : ProbedStorage) (path : String) : Extends s (s.finish path) where
  noted_le := Nat.le_succ _
  returned_eq h := absurd h (Nat.succ_ne_self _)
  stored _ h := h

theorem doesPathExist_putObject (s : ProbedStorage) (path path' : String) (object : S3Object) :
    (s.putObject path object).storage.doesPathExist path' =
      (decide (path' = path) || s.storage.doesPathExist path') := by
  grind [S3Storage.doesPathExist, ProbedStorage.putObject, S3Storage.putObject, Store.get_put]

theorem extends_putObject (s : ProbedStorage) (path : String) (object : S3Object) :
    Extends s (s.putObject path object) where
  noted_le := le_rfl
  returned_eq _ := rfl
  stored path' h := by rw [doesPathExist_putObject, h, Bool.or_true]

/-- What is known of the shared state: the generation counts the notes, and the object of a writer
that has returned is stored. -/
def SharedOk (s : ProbedStorage) : Prop :=
  s.generation = s.noted % 2 ^ 64 ∧ ∀ path ∈ s.returned, s.storage.doesPathExist path = true

/-- What is known of a process: a probe that has found no object, with no note since it read the
generation, has no returned writer of its key; a writer before its last note has stored its
object. -/
def TaskOk (s : ProbedStorage) : Task → Prop
  | .probe _ (.head generation noted) => generation = noted % 2 ^ 64 ∧ noted ≤ s.noted
  | .probe pending (.compare generation noted) =>
    generation = noted % 2 ^ 64 ∧ noted ≤ s.noted ∧
      (noted = s.noted → ∀ path ∈ pending.head?, path ∉ s.returned)
  | .write path _ .noteAfter => s.storage.doesPathExist path = true
  | _ => True

theorem TaskOk.extends {p : Task} (h : TaskOk s p) (hext : Extends s s') : TaskOk s' p := by
  cases p with
  | probe pending stage =>
    cases stage with
    | head generation noted => exact ⟨h.1, h.2.trans hext.noted_le⟩
    | compare generation noted =>
      obtain ⟨hgeneration, hle, hclear⟩ := h
      refine ⟨hgeneration, hle.trans hext.noted_le, fun heq path hpath => ?_⟩
      have hsame : s'.noted = s.noted := by
        have := hext.noted_le
        omega
      rw [hext.returned_eq hsame]
      exact hclear (heq.trans hsame) path hpath
    | _ => trivial
  | write path object stage =>
    cases stage with
    | noteAfter => exact hext.stored path h
    | _ => trivial

theorem next_ok {outcome : Outcome} {p p' : Task} (hs : SharedOk s)
    (hp : TaskOk s p) (hnext : p.next outcome s = some (s', p')) :
    SharedOk s' ∧ TaskOk s' p' ∧ Extends s s' := by
  obtain ⟨hgeneration, hreturned⟩ := hs
  have hcount : ∀ path, (s.noteObjectCreated path).generation =
      (s.noteObjectCreated path).noted % 2 ^ 64 := by
    intro path
    show (s.generation + 1) % 2 ^ 64 = (s.noted + 1) % 2 ^ 64
    omega
  cases p with
  | probe pending stage =>
    -- most steps of a probe leave the state as it is and reach a stage about which nothing is said
    have hkeep : ∀ {r : ProbedStorage × Task}, some r = some (s', p') → r.1 = s →
        TaskOk s r.2 → SharedOk s' ∧ TaskOk s' p' ∧ Extends s s' := by
      rintro r hr rfl hok
      obtain rfl := Option.some.inj hr
      exact ⟨⟨hgeneration, hreturned⟩, hok, .refl _⟩
    cases stage with
    | look =>
      cases pending with
      | nil => exact hkeep hnext rfl trivial
      | cons path rest =>
        rw [Task.next] at hnext
        split_ifs at hnext
        · exact hkeep hnext rfl trivial
        · exact hkeep hnext rfl trivial
    | readGeneration =>
      cases pending with
      | nil => cases hnext
      | cons path rest => exact hkeep hnext rfl ⟨hgeneration, le_rfl⟩
    | head generation noted =>
      cases pending with
      | nil => cases hnext
      | cons path rest =>
        cases outcome with
        | lost done => exact hkeep hnext rfl trivial
        | ok =>
          rw [Task.next] at hnext
          split_ifs at hnext with hexists
          · exact hkeep hnext rfl trivial
          · refine hkeep hnext rfl ⟨hp.1, hp.2, ?_⟩
            grind
    | compare generation noted =>
      cases pending with
      | nil => cases hnext
      | cons path rest =>
        rw [Task.next] at hnext
        split_ifs at hnext
        · exact hkeep hnext rfl trivial
        · exact hkeep hnext rfl trivial
    | insert =>
      cases pending with
      | nil => cases hnext
      | cons path rest =>
        obtain ⟨rfl, rfl⟩ := Prod.mk.inj (Option.some.inj hnext)
        exact ⟨⟨hgeneration, hreturned⟩, trivial, ⟨le_rfl, fun _ => rfl, fun _ h => h⟩⟩
    | accepted | collision | failed => cases pending <;> cases hnext
  | write path object stage =>
    cases stage with
    | noteBefore =>
      obtain ⟨rfl, rfl⟩ := Prod.mk.inj (Option.some.inj hnext)
      exact ⟨⟨hcount path, hreturned⟩, trivial, extends_noteObjectCreated s path⟩
    | put =>
      have hput : SharedOk (s.putObject path object) :=
        ⟨hgeneration, fun path' h => (extends_putObject s path object).stored path' (hreturned path' h)⟩
      cases outcome with
      | ok =>
        obtain ⟨rfl, rfl⟩ := Prod.mk.inj (Option.some.inj hnext)
        refine ⟨hput, ?_, extends_putObject s path object⟩
        show (s.putObject path object).storage.doesPathExist path = true
        rw [doesPathExist_putObject, decide_eq_true rfl, Bool.true_or]
      | lost done =>
        cases done with
        | true =>
          obtain ⟨rfl, rfl⟩ := Prod.mk.inj (Option.some.inj hnext)
          exact ⟨hput, trivial, extends_putObject s path object⟩
        | false =>
          obtain ⟨rfl, rfl⟩ := Prod.mk.inj (Option.some.inj hnext)
          exact ⟨⟨hgeneration, hreturned⟩, trivial, .refl s⟩
    | noteAfter =>
      obtain ⟨rfl, rfl⟩ := Prod.mk.inj (Option.some.inj hnext)
      refine ⟨⟨hcount path, fun path' h => ?_⟩, trivial, extends_finish s path⟩
      rcases List.mem_cons.mp h with rfl | h
      · exact hp
      · exact hreturned path' h
    | returned | failed => cases hnext

/-- What is known in every state that a run reaches. -/
def probesInvariant : Pool.Invariant ProbedStorage Task := ⟨SharedOk, TaskOk, fun _ _ => True⟩

theorem holds_of_run {storage : S3Storage} {generation : ℕ}
    {as : List (Pool.Action TaskInput Outcome)} {t : Pool ProbedStorage Task}
    (hrun : run creationProbes.step ⟨.start storage generation, []⟩ as = some t) :
    t.Holds probesInvariant := by
  refine run_invariant (I := Pool.Holds probesInvariant) ?_ (Pool.holds_nil ⟨rfl, ?_⟩) hrun
  · intro s a s' h hstep
    refine h.of_step hstep ?_ ?_
    · intro input _
      refine ⟨?_, fun _ => ⟨trivial, trivial⟩⟩
      cases input <;> trivial
    · intro i outcome p u q _ hp hnext
      obtain ⟨hshared, hq, hext⟩ := next_ok h.shared (h.each i p hp) hnext
      exact ⟨hshared, hq, fun j r _ hr => ⟨(h.each j r hr).extends hext, trivial, trivial⟩⟩
  · intro path hpath
    cases hpath

/-- When a probe finds the generation unchanged, after fewer than `2 ^ 64` notes, no writer of its
key has returned. -/
theorem notMem_returned_of_compare {storage : S3Storage} {start : ℕ}
    {as : List (Pool.Action TaskInput Outcome)} {t : Pool ProbedStorage Task}
    (hrun : run creationProbes.step ⟨.start storage start, []⟩ as = some t) {i : ℕ} {path : String}
    {rest : List String} {noted : ℕ}
    (hi : t.processes[i]? = some (.probe (path :: rest) (.compare t.shared.generation noted)))
    (hfew : t.shared.noted < noted + 2 ^ 64) : path ∉ t.shared.returned := by
  have h := holds_of_run hrun
  obtain ⟨hgeneration, -⟩ := h.shared
  obtain ⟨hread, hle, hclear⟩ := h.each i _ hi
  grind

/-! ### The result -/

/-- In every run of probes and writers the memo is right all along exactly if no writer of a key
returns before a probe inserts the key.  This can only happen after the probe has compared the
generations: at a comparison that succeeds (after fewer than `2 ^ 64` notes) no writer of the key
has returned. -/
theorem creationProbes_sound_iff (storage : S3Storage) (generation : ℕ)
    (as : List (Pool.Action TaskInput Outcome)) (t : Pool ProbedStorage Task)
    (hrun : run creationProbes.step ⟨.start storage generation, []⟩ as = some t) :
    ((∀ pre u, pre <+: as →
        run creationProbes.step ⟨.start storage generation, []⟩ pre = some u →
          MemoSound u.shared) ↔
      StepsOk creationProbes.step (Program.Guarded InTime) ⟨.start storage generation, []⟩ as) ∧
    ∀ (i : ℕ) (path : String) (rest : List String) (noted : ℕ),
      t.processes[i]? = some (.probe (path :: rest) (.compare t.shared.generation noted)) →
        t.shared.noted < noted + 2 ^ 64 → path ∉ t.shared.returned := by
  refine ⟨stepsOk_iff_of_prefixes (Q := fun s => MemoSound s.shared) ?_ ?_ hrun,
    fun i path rest noted => notMem_returned_of_compare hrun⟩
  · intro s a s' hs hstep
    cases a with
    | start input =>
      obtain rfl := Option.some.inj hstep
      exact iff_of_true hs trivial
    | advance i outcome =>
      obtain ⟨p, u, q, hp, hnext, rfl⟩ := Program.step_advance hstep
      rw [memoSound_next_iff hs hnext, Program.Guarded]
      simp [hp]
  · intro path hpath
    cases hpath

def demoObject : S3Object := ⟨[1], "application/octet-stream", some "e1"⟩

/-- A probe of `r/a` finds nothing and the generation unchanged; before it inserts, a writer of
`r/a` stores its object and returns. -/
def staleProbe : List (Pool.Action TaskInput Outcome) :=
  [.start (.getPathForCreation "r" ⟨["a", "b"], none⟩), .advance 0 .ok, .advance 0 .ok,
    .advance 0 .ok, .advance 0 .ok, .start (.write "r/a" demoObject), .advance 1 .ok,
    .advance 1 .ok, .advance 1 .ok, .advance 0 .ok,
    .start (.getPathForCreation "r" ⟨["a", "c"], none⟩), .advance 2 .ok, .advance 2 .ok]

/-- The memo keeps `r/a` although its writer has returned, and a later child is accepted. -/
theorem not_memoSound_staleProbe :
    ∃ t, run creationProbes.step ⟨.start ⟨∅, ∅, ∅⟩ 0, []⟩ staleProbe = some t ∧
      "r/a" ∈ t.shared.returned ∧
      (t.shared.storage.creationProbes.peek "r/a").isSome = true ∧
      t.processes[2]? = some (.probe [] .accepted) := by
  have hsome : (run creationProbes.step ⟨.start ⟨∅, ∅, ∅⟩ 0, []⟩ staleProbe).isSome = true := by
    decide
  obtain ⟨t, ht⟩ := Option.isSome_iff_exists.mp hsome
  have hall : (run creationProbes.step ⟨.start ⟨∅, ∅, ∅⟩ 0, []⟩ staleProbe).all (fun t =>
      decide ("r/a" ∈ t.shared.returned) && (t.shared.storage.creationProbes.peek "r/a").isSome &&
        decide (t.processes[2]? = some (.probe [] .accepted))) = true := by decide
  rw [ht] at hall
  simp only [Option.all_some, Bool.and_eq_true, decide_eq_true_eq] at hall
  exact ⟨t, ht, hall.1.1, hall.1.2, hall.2⟩

def promptProbe : List (Pool.Action TaskInput Outcome) :=
  [.start (.getPathForCreation "r" ⟨["a", "b"], none⟩), .advance 0 .ok, .advance 0 .ok,
    .advance 0 .ok, .advance 0 .ok, .advance 0 .ok, .start (.write "r/a" demoObject),
    .advance 1 .ok, .advance 1 .ok, .advance 1 .ok]

theorem creationProbes_sound_demo :
    ∃ t, run creationProbes.step ⟨.start ⟨∅, ∅, ∅⟩ 0, []⟩ promptProbe = some t ∧
      ∀ pre u, pre <+: promptProbe →
        run creationProbes.step ⟨.start ⟨∅, ∅, ∅⟩ 0, []⟩ pre = some u → MemoSound u.shared := by
  have hsome : (run creationProbes.step ⟨.start ⟨∅, ∅, ∅⟩ 0, []⟩ promptProbe).isSome = true := by
    decide
  obtain ⟨t, ht⟩ := Option.isSome_iff_exists.mp hsome
  exact ⟨t, ht, (creationProbes_sound_iff ⟨∅, ∅, ∅⟩ 0 promptProbe t ht).1.mpr (by decide)⟩

end Pkgly.S3
