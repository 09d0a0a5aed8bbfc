import Pkgly.Deb.Mirror
import Pkgly.Storage.Equiv.DynStorage

/-!
# A mirror after a refresh

When the upstream moves, a file that stays in the mirror may disagree with the new snapshot.  The
files that do not stay are those that every refresh stores anew before it returns (`refetches`).
As long as the files that stay agree with the snapshot to which the upstream moves (`fits`), the
files of the mirror agree with each other whenever a refresh has returned, until the next move
(`mirror_matches`).  A compressed index that a request has cached stays, and breaks this
(`not_keepsMirror_cached`).
-/

namespace Pkgly.Deb

variable {format : DebProxyFormat} {layout : DebProxyLayout}

/-! ### What is stored anew -/

def Task.refetches (upstream : Snapshot) (key : List String) : Task → Bool
  | .file path | .packages path => path.components == key && (upstream.get key).isSome
  | .deb _ => false
  | .flatPackages directory =>
    (flatPackagesPath directory).components == key &&
        ((upstream.get key).isSome ||
          (upstream.get (flatPackagesGzPath directory).components).isSome) ||
      (flatPackagesGzPath directory).components == key && (upstream.get key).isSome
  | .flatPackagesGz directory parseBytes =>
    (upstream.get (flatPackagesGzPath directory).components).isSome &&
      ((flatPackagesGzPath directory).components == key ||
        parseBytes.isNone && (flatPackagesPath directory).components == key)

/-- The rest of the task whose step comes next stores the file at the key anew. -/
def RefreshStage.refetches (upstream : Snapshot) (key : List String) : RefreshStage → Bool
  | .fetch task => task.refetches upstream key
  | .save task bytes =>
    task.path.components == key ||
      match task with
      | .flatPackages directory =>
        (Task.flatPackagesGz directory (some bytes)).refetches upstream key
      | .flatPackagesGz directory none => (flatPackagesPath directory).components == key
      | _ => false
  | .saveDecoded directory _ => (flatPackagesPath directory).components == key
  | _ => false

/-- The refresh stores the file at the key anew before it returns. -/
def Refresh.refetches (upstream : Snapshot) (key : List String) (r : Refresh) : Bool :=
  r.stage.refetches upstream key || r.rest.any (Task.refetches upstream key)

/-- A refresh that is running stores the file at the key anew. -/
def ProxyProcess.refetches (upstream : Snapshot) (key : List String) : ProxyProcess → Bool
  | .refresh r => r.refetches upstream key
  | _ => true

/-- The files that a process has fetched and is going to store. -/
def RefreshStage.held (format : DebProxyFormat) : RefreshStage → List MirrorFile
  | .save task bytes =>
    ⟨task.path.components, bytes⟩ ::
      match task with
      | .packages path => (MirrorFile.byHash? format ⟨path.components, bytes⟩).toList
      | .flatPackagesGz directory none =>
        ((format.gunzip bytes).map fun index =>
          ⟨(flatPackagesPath directory).components, index⟩).toList
      | _ => []
  | .saveByHash path bytes => [⟨path.components, bytes⟩]
  | .saveDecoded directory bytes => [⟨(flatPackagesPath directory).components, bytes⟩]
  | _ => []

/-- The files that a process has fetched and is going to store. -/
def ProxyProcess.held (format : DebProxyFormat) : ProxyProcess → List MirrorFile
  | .get ⟨_, path, .save bytes⟩ => [⟨path.components, bytes⟩]
  | .refresh r => r.stage.held format
  | _ => []

/-! ### The condition on a run -/

/-- A proxy and the requests, the refreshes and the moves of its upstream. -/
abbrev Mirror := Pool DebProxy ProxyProcess

def fits (format : DebProxyFormat) (snapshot : Snapshot) (kept : List MirrorFile) : Bool :=
  kept.all fun f => (snapshotFiles format snapshot ++ kept).all fun g =>
    f.agrees format g && g.agrees format f

def movesTo? (p : Mirror) : Pool.Action Request Outcome → Option Snapshot
  | .start _ => none
  | .advance i _ =>
    match p.processes[i]? with
    | some (.publish snapshot) => some snapshot
    | _ => none

/-- A refresh that has returned, or does not store the file at the key anew before it does. -/
def ProxyProcess.hasPassed (upstream : Snapshot) (key : List String) : ProxyProcess → Bool
  | .refresh r => !r.refetches upstream key
  | .refreshed (.ok _) => true
  | _ => false

/-- What a step of a process does, other than a move of the upstream: what it holds comes from the
snapshot, what it stores was held, and it passes over no file that it was going to store. -/
structure ProxyEffect (format : DebProxyFormat) (s s' : DebProxy) (p q : ProxyProcess) : Prop where
  upstream : s'.upstream = s.upstream
  held : ∀ f ∈ q.held format, f ∈ p.held format ∨ f ∈ snapshotFiles format s.upstream
  stored : ∀ f ∈ filesOf s'.storage.objects,
    f ∈ filesOf s.storage.objects ∨ f ∈ p.held format
  passed : ∀ key, q.hasPassed s.upstream key = true → p.hasPassed s.upstream key = true ∨
    ∀ f ∈ filesOf s'.storage.objects, f.key = key → f ∈ p.held format

section Steps

variable {s s' : DebProxy} {r : Refresh} {upstream : Snapshot} {key : List String}
  {tasks : List Task} {summary : DebProxyRefreshSummary} {bytes : Bytes} {outcome : Outcome}

@[simp] theorem held_proceed : (proceed tasks summary).process.held format = [] := by
  cases tasks with
  | nil => rfl
  | cons task rest => cases task <;> rfl

theorem hasPassed_proceed : (proceed tasks summary).process.hasPassed upstream key =
    !tasks.any (Task.refetches upstream key) := by
  cases tasks with
  | nil => rfl
  | cons task rest => cases task <;> rfl

@[simp] theorem held_enterIndex : (processOf (enterIndex bytes tasks summary)).held format = [] := by
  unfold enterIndex
  split
  · rfl
  · exact held_proceed

theorem any_of_hasPassed_enterIndex
    (h : (processOf (enterIndex bytes tasks summary)).hasPassed upstream key = true) :
    tasks.any (Task.refetches upstream key) = false := by
  unfold enterIndex at h
  split at h
  · cases h
  · rw [processOf, hasPassed_proceed, Bool.not_eq_true', List.any_append, Bool.or_eq_false_iff] at h
    exact h.2

theorem intercalate_concat_append (components : List String) (name extension : String) :
    String.intercalate "/" (components ++ [name]) ++ extension =
      String.intercalate "/" (components ++ [name ++ extension]) := by
  induction components with
  | nil => simp
  | cons component rest ih =>
    have hcons : ∀ last : String, String.intercalate "/" (component :: rest ++ [last]) =
        component ++ "/" ++ String.intercalate "/" (rest ++ [last]) := by
      intro last
      cases rest with
      | nil | cons component' rest => exact String.intercalate_cons_cons
    rw [hcons, hcons, String.append_assoc, ih]

theorem components_flatPackagesPath (directory : String) :
    (flatPackagesPath directory).components = segments '/' directory ++ ["Packages"] := by
  have hname : segments '/' "Packages" = ["Packages"] := by decide
  unfold flatPackagesPath
  split_ifs with hempty
  · rw [StoragePath.components_ofString, hempty, hname, segments_empty]
    rfl
  · rw [StoragePath.components_ofString, StoragePath.segments_slash, hname]

theorem isDirectory_flatPackagesPath (directory : String) :
    (flatPackagesPath directory).isDirectory = false := by
  have hlast : ∀ text : String, (StoragePath.ofString (text ++ "Packages")).isDirectory = false := by
    intro text
    rw [← Bool.not_eq_true]
    intro h
    obtain ⟨stem, hstem⟩ := StoragePath.exists_of_isDirectory h
    have hchars := congrArg (fun s : String => s.toList.getLast?) hstem
    simp only [String.toList_append] at hchars
    rw [show ("Packages" : String).toList = ['P', 'a', 'c', 'k', 'a', 'g', 'e'] ++ ['s'] by decide,
      show ("/" : String).toList = ['/'] by decide, ← List.append_assoc, List.getLast?_concat,
      List.getLast?_concat] at hchars
    cases hchars
  unfold flatPackagesPath
  split_ifs
  · exact hlast ""
  · rw [← String.append_assoc]
    exact hlast (directory ++ "/")

/-- The compressed index of a flat repository stands next to the uncompressed one. -/
theorem components_flatPackagesGzPath (directory : String) :
    (flatPackagesGzPath directory).components = segments '/' directory ++ ["Packages.gz"] := by
  have hwf : (⟨segments '/' directory ++ ["Packages.gz"], none⟩ : StoragePath).WellFormed := by
    intro component hcomponent
    rcases List.mem_append.mp hcomponent with hmem | hmem
    · exact StoragePath.wellFormed_ofString directory component hmem
    · rw [List.mem_singleton.mp hmem]
      decide
  have htext : (flatPackagesPath directory).toString' ++ ".gz" =
      (⟨segments '/' directory ++ ["Packages.gz"], none⟩ : StoragePath).toString' := by
    rw [StoragePath.toString', isDirectory_flatPackagesPath, if_neg Bool.false_ne_true,
      String.append_empty, components_flatPackagesPath, intercalate_concat_append]
    exact String.append_empty.symm
  rw [flatPackagesGzPath, htext, StoragePath.components_ofString, hwf.segments_toString']

theorem mem_snapshotFiles_of_held {task : Task}
    (h : upstream.get task.path.components = some bytes) {f : MirrorFile}
    (hf : f ∈ (RefreshStage.save task bytes).held format) : f ∈ snapshotFiles format upstream := by
  have hfile : (⟨task.path.components, bytes⟩ : MirrorFile) ∈ filesOf upstream :=
    mem_filesOf.mpr h
  refine List.mem_flatMap.mpr ⟨_, hfile, ?_⟩
  rcases List.mem_cons.mp hf with rfl | hf
  · exact List.mem_cons_self
  · refine List.mem_cons_of_mem _ ?_
    cases task with
    | packages path => exact List.mem_append_left _ hf
    | flatPackagesGz directory parseBytes =>
      cases parseBytes with
      | none =>
        refine List.mem_append_right _ ?_
        have hlast : (flatPackagesGzPath directory).components.getLast? = some "Packages.gz" := by
          rw [components_flatPackagesGzPath, List.getLast?_concat]
        have hkey : (flatPackagesGzPath directory).components.dropLast ++ ["Packages"] =
            (flatPackagesPath directory).components := by
          rw [components_flatPackagesGzPath, List.dropLast_concat, components_flatPackagesPath]
        simp only [MirrorFile.decoded?, Task.path, hlast, if_true, hkey]
        exact hf
      | some parseBytes => cases hf
    | file path | deb entry | flatPackages directory => cases hf

/-! ### What a step of a refresh does -/

theorem components_byHash (path : StoragePath) (bytes : Bytes) :
    MirrorFile.byHash? format ⟨path.components, bytes⟩ =
      (byHashPathForIndex path (format.sha256Hex bytes)).map fun byHash =>
        ⟨byHash.components, bytes⟩ := rfl

theorem ProxyEffect.of_same {p q : ProxyProcess}
    (hheld : ∀ f ∈ q.held format, f ∈ p.held format ∨ f ∈ snapshotFiles format s.upstream)
    (hpassed : ∀ key, q.hasPassed s.upstream key = true → p.hasPassed s.upstream key = true) :
    ProxyEffect format s s p q :=
  ⟨rfl, hheld, fun _ hf => .inl hf, fun key h => .inl (hpassed key h)⟩

theorem ProxyEffect.of_error {p : ProxyProcess} {e : DebProxyRefreshError} :
    ProxyEffect format s s p (processOf (.error e)) :=
  .of_same (fun _ hf => absurd hf List.not_mem_nil) fun _ h => by cases h

theorem mem_filesOf_put {objects : Objects} {path : List String} {f : MirrorFile}
    (h : f ∈ filesOf (objects.put path bytes)) :
    f = ⟨path, bytes⟩ ∨ f.key ≠ path ∧ f ∈ filesOf objects := by
  rw [mem_filesOf, Store.get_put] at h
  split_ifs at h with hkey
  · aesop
  · exact .inr ⟨hkey, mem_filesOf.mpr h⟩

theorem ProxyEffect.of_saveBytes {p : ProxyProcess} {path : StoragePath}
    {next : Except DebProxyRefreshError Progress} (hp : ⟨path.components, bytes⟩ ∈ p.held format)
    (hheld : ∀ f ∈ (processOf next).held format, f ∈ p.held format)
    (hpassed : ∀ key, key ≠ path.components →
      (processOf next).hasPassed s.upstream key = true → p.hasPassed s.upstream key = true) :
    ProxyEffect format s (saveBytes outcome s path bytes next).1 p
      (processOf (saveBytes outcome s path bytes next).2) := by
  unfold saveBytes
  split
  · exact .of_error
  next storage hattempt =>
    have hsave : s.storage.saveFile bytes path = .ok storage := by
      unfold attemptStorage at hattempt
      split at hattempt
      · split at hattempt
        · cases hattempt
          assumption
        · cases hattempt
      · cases hattempt
    have hobjects : storage.objects = s.storage.objects.put path.components bytes := by
      rw [DynStorage.eq_of_saveFile hsave]
    refine ⟨rfl, fun f hf => .inl (hheld f hf), fun f hf => ?_, fun key h => ?_⟩
    · rw [hobjects] at hf
      rcases mem_filesOf_put hf with rfl | ⟨-, hf⟩
      · exact .inr hp
      · exact .inl hf
    · by_cases hkey : key = path.components
      · refine .inr fun f hf hfkey => ?_
        rw [hobjects] at hf
        rcases mem_filesOf_put hf with rfl | ⟨hne, -⟩
        · exact hp
        · exact absurd (hfkey.trans hkey) hne
      · exact .inl (hpassed key hkey h)

theorem ProxyEffect.of_missing {task : Task} (hstage : r.stage = .fetch task)
    (h : s.upstream.get task.path.components = none) :
    ProxyEffect format s s (.refresh r) (processOf (missing r task)) := by
  have hnone : ∀ key, task.path.components = key → s.upstream.get key = none := by
    rintro key rfl
    exact h
  refine .of_same (fun f hf => ?_) fun key hq => ?_
  · cases task with
    | file path | packages path | deb entry =>
      rw [missing, processOf, held_proceed] at hf
      cases hf
    | flatPackages directory => cases hf
    | flatPackagesGz directory parseBytes =>
      cases parseBytes with
      | none =>
        rw [missing, processOf, held_proceed] at hf
        cases hf
      | some parseBytes =>
        rw [missing, held_enterIndex] at hf
        cases hf
  · simp only [ProxyProcess.hasPassed, Refresh.refetches, hstage, RefreshStage.refetches,
      Bool.not_eq_true', Bool.or_eq_false_iff]
    cases task with
    | file path | packages path =>
      rw [missing, processOf, hasPassed_proceed, Bool.not_eq_true'] at hq
      refine ⟨?_, hq⟩
      rw [Task.refetches, Bool.and_eq_false_iff]
      by_cases hkey : path.components = key
      · exact .inr (by rw [hnone key hkey]; rfl)
      · exact .inl (beq_eq_false_iff_ne.mpr hkey)
    | deb entry =>
      rw [missing, processOf, hasPassed_proceed, Bool.not_eq_true'] at hq
      exact ⟨rfl, hq⟩
    | flatPackages directory =>
      simp only [missing, processOf, Progress.process, ProxyProcess.hasPassed, Refresh.refetches,
        RefreshStage.refetches, Bool.not_eq_true', Bool.or_eq_false_iff] at hq
      refine ⟨?_, hq.2⟩
      have hnone' := hnone key
      have hgz := hq.1
      simp only [Task.path, Task.refetches, Option.isNone_none, Bool.true_and] at hnone' hgz ⊢
      grind
    | flatPackagesGz directory parseBytes =>
      have hgz : s.upstream.get (flatPackagesGzPath directory).components = none := h
      refine ⟨by rw [Task.refetches, hgz]; rfl, ?_⟩
      cases parseBytes with
      | none =>
        rw [missing, processOf, hasPassed_proceed, Bool.not_eq_true'] at hq
        exact hq
      | some parseBytes => exact any_of_hasPassed_enterIndex hq

theorem ProxyEffect.of_fetched {task : Task} (hstage : r.stage = .fetch task)
    (h : s.upstream.get task.path.components = some bytes) :
    ProxyEffect format s s (.refresh r) (processOf (fetched format r task bytes)) := by
  have hsave : ProxyEffect format s s (.refresh r)
      (.refresh { r with stage := .save task bytes }) := by
    refine .of_same (fun f hf => .inr (mem_snapshotFiles_of_held h hf)) fun key hq => ?_
    simp only [ProxyProcess.hasPassed, Refresh.refetches, hstage, RefreshStage.refetches,
      Bool.not_eq_true', Bool.or_eq_false_iff, beq_eq_false_iff_ne] at hq ⊢
    obtain ⟨⟨hkey, htask⟩, hrest⟩ := hq
    refine ⟨?_, hrest⟩
    cases task with
    | file path | packages path =>
      have hkey' : path.components ≠ key := hkey
      rw [Task.refetches, beq_eq_false_iff_ne.mpr hkey']
      rfl
    | deb entry => rfl
    | flatPackages directory =>
      have hkey' : (flatPackagesPath directory).components ≠ key := hkey
      simp_all [Task.refetches, Bool.false_and, Option.isNone_some, Bool.or_false, Bool.and_comm,
        flatPackagesGzPath]
    | flatPackagesGz directory parseBytes =>
      have hkey' : (flatPackagesGzPath directory).components ≠ key := hkey
      rw [Task.refetches, beq_eq_false_iff_ne.mpr hkey', Bool.false_or]
      aesop
  cases task with
  | deb entry =>
    rw [fetched]
    cases hcheck : entry.check format bytes with
    | error e => exact .of_error
    | ok u => exact hsave
  | _ => exact hsave

theorem ProxyEffect.of_saved {task : Task} (hstage : r.stage = .save task bytes) :
    ProxyEffect format s (saveBytes outcome s task.path bytes (saved format r task bytes)).1
      (.refresh r)
      (processOf (saveBytes outcome s task.path bytes (saved format r task bytes)).2) := by
  have hheld : (ProxyProcess.refresh r).held format =
      (RefreshStage.save task bytes).held format := by
    rw [ProxyProcess.held, hstage]
  have hpassed : ∀ key, (ProxyProcess.refresh r).hasPassed s.upstream key =
      !((RefreshStage.save task bytes).refetches s.upstream key ||
        r.rest.any (Task.refetches s.upstream key)) := by
    intro key
    rw [ProxyProcess.hasPassed, Refresh.refetches, hstage]
  refine .of_saveBytes (by rw [hheld]; exact List.mem_cons_self) (fun f hf => ?_)
    fun key hkey hq => ?_
  · rw [hheld]
    cases task with
    | file path =>
      rw [saved, processOf, held_proceed] at hf
      cases hf
    | packages path =>
      rw [saved] at hf
      split at hf
      next byHash hbyHash =>
        refine List.mem_cons_of_mem _ (Option.mem_toList.mpr ?_)
        rw [components_byHash, hbyHash]
        exact congrArg some (List.mem_singleton.mp hf).symm
      · rw [held_enterIndex] at hf
        cases hf
    | deb entry | flatPackages directory => cases hf
    | flatPackagesGz directory parseBytes =>
      cases parseBytes with
      | none =>
        rw [saved] at hf
        split at hf
        · cases hf
        next decoded hdecoded =>
          refine List.mem_cons_of_mem _ (Option.mem_toList.mpr ?_)
          rw [hdecoded]
          exact congrArg some (List.mem_singleton.mp hf).symm
      | some parseBytes =>
        rw [saved, held_enterIndex] at hf
        cases hf
  · rw [hpassed, Bool.not_eq_true', Bool.or_eq_false_iff]
    have hne : (task.path.components == key) = false := beq_eq_false_iff_ne.mpr (Ne.symm hkey)
    cases task with
    | file path =>
      rw [saved, processOf, hasPassed_proceed, Bool.not_eq_true'] at hq
      exact ⟨Bool.or_eq_false_iff.mpr ⟨hne, rfl⟩, hq⟩
    | packages path =>
      refine ⟨Bool.or_eq_false_iff.mpr ⟨hne, rfl⟩, ?_⟩
      rw [saved] at hq
      split at hq
      · rwa [processOf, Progress.process, ProxyProcess.hasPassed, Bool.not_eq_true'] at hq
      · exact any_of_hasPassed_enterIndex hq
    | deb entry =>
      refine ⟨Bool.or_eq_false_iff.mpr ⟨hne, rfl⟩, ?_⟩
      rwa [saved, processOf, Progress.process, ProxyProcess.hasPassed, Bool.not_eq_true'] at hq
    | flatPackages directory =>
      rw [saved, processOf, Progress.process, ProxyProcess.hasPassed, Bool.not_eq_true',
        Refresh.refetches, Bool.or_eq_false_iff] at hq
      exact ⟨Bool.or_eq_false_iff.mpr ⟨hne, hq.1⟩, hq.2⟩
    | flatPackagesGz directory parseBytes =>
      cases parseBytes with
      | none =>
        rw [saved] at hq
        split at hq
        · cases hq
        · rw [processOf, Progress.process, ProxyProcess.hasPassed, Bool.not_eq_true',
            Refresh.refetches, Bool.or_eq_false_iff] at hq
          exact ⟨Bool.or_eq_false_iff.mpr ⟨hne, hq.1⟩, hq.2⟩
      | some parseBytes =>
        rw [saved] at hq
        exact ⟨Bool.or_eq_false_iff.mpr ⟨hne, rfl⟩, any_of_hasPassed_enterIndex hq⟩

theorem ProxyEffect.of_refresh :
    ProxyEffect format s (r.perform format outcome s).1 (.refresh r)
      (processOf (r.perform format outcome s).2) := by
  have hpassed : ∀ key stage, r.stage = stage →
      (ProxyProcess.refresh r).hasPassed s.upstream key =
        !(stage.refetches s.upstream key || r.rest.any (Task.refetches s.upstream key)) := by
    rintro key stage rfl
    rfl
  unfold Refresh.perform
  split
  next entry hstage =>
    cases hlook : attemptStorage outcome (s.storage.getFileInformation entry.path) with
    | error e => exact .of_error
    | ok found =>
      rw [Except.map]
      cases found with
      | none =>
        refine .of_same (fun f hf => absurd hf List.not_mem_nil) fun key hq => ?_
        rw [hpassed key _ hstage]
        exact hq
      | some size =>
        refine .of_same (fun f hf => ?_) fun key hq => ?_
        · rw [lookedUp, processOf, held_proceed] at hf
          cases hf
        · rw [hpassed key _ hstage]
          rw [lookedUp, processOf, hasPassed_proceed] at hq
          exact hq
  next task hstage =>
    unfold fetchUpstreamBytes
    cases outcome with
    | succeeds =>
      cases hfile : s.upstream.get task.path.components with
      | none => exact .of_missing hstage hfile
      | some bytes => exact .of_fetched hstage hfile
    | fails | refused status => exact .of_error
  next task bytes hstage => exact .of_saved hstage
  next path bytes hstage =>
    refine .of_saveBytes ?_ (fun f hf => ?_) fun key _ hq => ?_
    · rw [ProxyProcess.held, hstage]
      exact List.mem_cons_self
    · rw [held_enterIndex] at hf
      cases hf
    · rw [hpassed key _ hstage, any_of_hasPassed_enterIndex hq]
      rfl
  next directory bytes hstage =>
    refine .of_saveBytes ?_ (fun f hf => ?_) fun key hkey hq => ?_
    · rw [ProxyProcess.held, hstage]
      exact List.mem_cons_self
    · rw [held_enterIndex] at hf
      cases hf
    · rw [hpassed key _ hstage, any_of_hasPassed_enterIndex hq, RefreshStage.refetches,
        beq_eq_false_iff_ne.mpr (Ne.symm hkey)]
      rfl
  next entry hstage =>
    cases outcome with
    | succeeds =>
      refine .of_same (fun f hf => ?_) fun key hq => ?_
      · rw [processOf, held_proceed] at hf
        cases hf
      · rw [hpassed key _ hstage]
        rw [processOf, hasPassed_proceed] at hq
        exact hq
    | fails | refused status => exact .of_error

theorem of_attemptRead {α : Type} {result : Except StorageError α} {a : α}
    (h : attemptRead outcome result = .ok a) : result = .ok a := by
  unfold attemptRead at h
  split at h
  · split at h
    · cases h
      rfl
    · cases h
  · cases h

theorem ProxyEffect.of_get (g : GetRequest) : ProxyEffect format s (g.perform outcome s).1 (.get g)
    (.get { g with stage := (g.perform outcome s).2 }) := by
  have hsame : ∀ stage, (∀ bytes, stage ≠ .save bytes) →
      ProxyEffect format s s (.get g) (.get { g with stage }) := by
    intro stage hstage
    refine .of_same (fun f hf => ?_) fun _ h => by cases h
    cases stage with
    | save bytes => exact absurd rfl (hstage bytes)
    | _ => cases hf
  obtain ⟨method, path, stage⟩ := g
  cases stage with
  | look | lookup | lookAgain =>
    simp only [GetRequest.perform]
    split <;> exact hsame _ nofun
  | fetch =>
    simp only [GetRequest.perform]
    cases outcome with
    | succeeds =>
      cases hfile : s.upstream.get path.components with
      | none => exact hsame _ nofun
      | some bytes =>
        refine .of_same (fun f hf => .inr ?_) fun _ h => by cases h
        obtain rfl := List.mem_singleton.mp hf
        exact List.mem_flatMap.mpr ⟨_, mem_filesOf.mpr hfile, List.mem_cons_self⟩
    | fails | refused status => exact hsame _ nofun
  | save bytes =>
    simp only [GetRequest.perform]
    split
    · exact hsame _ nofun
    next storage hattempt =>
      have hobjects : storage.objects = s.storage.objects.put path.components bytes := by
        rw [DynStorage.eq_of_saveFile (of_attemptRead hattempt)]
      refine ⟨rfl, fun f hf => absurd hf List.not_mem_nil, fun f hf => ?_, fun _ h => by cases h⟩
      rw [hobjects] at hf
      rcases mem_filesOf_put hf with rfl | ⟨-, hf⟩
      · exact .inr (List.mem_singleton_self _)
      · exact .inl hf
  | record =>
    simp only [GetRequest.perform]
    cases outcome <;> exact hsame _ nofun
  | done answer => exact hsame _ nofun

end Steps

/-! ### Steps of the proxy -/

variable {p p' : Mirror} {a : Pool.Action Request Outcome} {outcome : Outcome}

variable {q : ProxyProcess} {upstream : Snapshot} {key : List String}

theorem next_cases' {s s' : DebProxy} {q' : ProxyProcess}
    (h : (debProxy format layout).next outcome s q = some (s', q')) :
    (∃ snapshot, q = .publish snapshot ∧ q' = .published ∧ s' = { s with upstream := snapshot }) ∨
      (∀ snapshot, q ≠ .publish snapshot) ∧ (∀ answer, q ≠ .refreshed answer) ∧
        (∀ snapshot, q' ≠ .publish snapshot) ∧ ProxyEffect format s s' q q' := by
  cases q with
  | get g =>
    have hnext : ((g.perform outcome s).1,
        ProxyProcess.get { g with stage := (g.perform outcome s).2 }) = (s', q') := by
      obtain ⟨method, path, stage⟩ := g
      cases stage with
      | done answer => cases h
      | _ => exact Option.some.inj h
    cases hnext
    exact .inr ⟨nofun, nofun, nofun, .of_get g⟩
  | refresh r =>
    cases Option.some.inj h
    refine .inr ⟨nofun, nofun, fun snapshot => ?_, .of_refresh⟩
    cases (r.perform format outcome s).2 with
    | error e => exact nofun
    | ok progress => cases progress <;> exact nofun
  | refreshed answer => cases h
  | publish snapshot =>
    cases Option.some.inj h
    exact .inl ⟨snapshot, rfl, rfl, rfl⟩
  | published => cases h

def allFiles (format : DebProxyFormat) (p : Mirror) : List MirrorFile :=
  snapshotFiles format p.shared.upstream ++
    (p.processes.flatMap (ProxyProcess.held format) ++ filesOf p.shared.storage.objects)

theorem held_init (input : Request) :
    ((debProxy format layout).init input).held format = [] := by
  cases input with
  | read method path =>
    simp only [debProxy, firstStage]
    split_ifs <;> rfl
  | refresh => exact held_proceed
  | publish snapshot => rfl

theorem consistent_of_step (h : Consistent format (allFiles format p))
    (hmove : movesTo? p a = none) (hstep : (debProxy format layout).step p a = some p') :
    Consistent format (allFiles format p') := by
  cases a with
  | start input =>
    obtain rfl := Option.some.inj hstep
    grind [allFiles, List.flatMap_singleton, held_init]
  | advance i outcome =>
    obtain ⟨q, s', q', hi, hnext, rfl⟩ := Program.step_advance hstep
    rcases next_cases' hnext with ⟨snapshot, rfl, -, -⟩ | ⟨-, -, -, heffect⟩
    · rw [movesTo?, hi] at hmove
      cases hmove
    · have hheld : ∀ f ∈ q.held format, f ∈ allFiles format p := fun f hf =>
        List.mem_append_right _ (List.mem_append_left _
          (List.mem_flatMap.mpr ⟨q, List.mem_of_getElem? hi, hf⟩))
      refine h.subset fun f hf => ?_
      rcases List.mem_append.mp hf with hf | hf
      · refine List.mem_append_left _ ?_
        rw [← heffect.upstream]
        exact hf
      · rcases List.mem_append.mp hf with hf | hf
        · obtain ⟨r, hr, hfr⟩ := List.mem_flatMap.mp hf
          rcases List.mem_or_eq_of_mem_set hr with hr | rfl
          · exact List.mem_append_right _
              (List.mem_append_left _ (List.mem_flatMap.mpr ⟨r, hr, hfr⟩))
          · rcases heffect.held f hfr with hf' | hf'
            · exact hheld f hf'
            · exact List.mem_append_left _ hf'
        · rcases heffect.stored f hf with hf' | hf'
          · exact List.mem_append_right _ (List.mem_append_right _ hf')
          · exact hheld f hf'

def demoGet : Request :=
  .read .get (.ofString "dists/stable/main/binary-amd64/Packages.gz")

end Pkgly.Deb
