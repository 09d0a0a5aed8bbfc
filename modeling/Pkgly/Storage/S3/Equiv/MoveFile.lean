import Mathlib.Tactic.NormNum
import Pkgly.Storage.S3.MoveFile

/-!
# Does a move deliver its source?

`Delivers` is what a move promises: after `Ok(true)` the destination has the bytes of the source,
and after an error the bytes are still somewhere.  A copy in parts has all the bytes
(`copiedParts_eq`).  The upload of a staged file, however, takes a destination of the same size for
the result of an earlier attempt, and a move onto itself may delete what it has just written.
`moveFile_delivers_iff` says in which states a move keeps its promise whatever happens to its
requests.
-/

namespace Pkgly.S3

namespace MoveStorage

variable {s : MoveStorage} {fromPath toPath : String}

/-! ### The promise -/

def source (s : MoveStorage) (fromPath : String) : Option Bytes :=
  match s.appendStaging.get fromPath with
  | some staged => some staged.content
  | none => (s.objects.get fromPath).map S3Object.content

def Keeps (s : MoveStorage) (fromPath toPath : String) (content : Bytes) : Prop :=
  (s.appendStaging.get fromPath).map StagedFile.content = some content ∨
    (s.objects.get fromPath).map S3Object.content = some content ∨
      (s.objects.get toPath).map S3Object.content = some content

/-- A move that returns `Ok(true)` has delivered the source, and one that fails has not lost it. -/
def Delivers (s : MoveStorage) (fromPath toPath : String)
    (r : MoveStorage × Except MoveError Bool) : Prop :=
  (r.2 = .ok true → ∃ content, s.source fromPath = some content ∧
    (r.1.objects.get toPath).map S3Object.content = some content) ∧
  ∀ e, r.2 = .error e → ∀ content, s.source fromPath = some content →
    r.1.Keeps fromPath toPath content

def BaseDeletable (s : MoveStorage) (fromPath : String) (staged : StagedFile) : Prop :=
  staged.baseEtag = none ∨ (s.objects.get fromPath).bind S3Object.eTag = staged.baseEtag

/-- The state of a move that cannot go wrong: a staged upload with a destination of its size, whose
base can be deleted, has the bytes of the destination, and a source is not moved onto itself if it
has a base, or is copied in parts. -/
def MoveSafe (s : MoveStorage) (fromPath toPath : String) : Prop :=
  match s.appendStaging.get fromPath with
  | some staged =>
    match s.objects.get toPath with
    | none => fromPath = toPath → staged.baseEtag = none
    | some destination =>
      (destination.content.length = staged.size ∨ staged.size = 0) →
        s.BaseDeletable fromPath staged →
          destination.content = staged.content ∧ (fromPath = toPath → staged.baseEtag = none)
  | none =>
    ∀ object, s.objects.get fromPath = some object → object.eTag ≠ none →
      multipartCopyThreshold < object.content.length → fromPath ≠ toPath

variable {s' : MoveStorage} {staged : StagedFile}

theorem delivers_error {e : MoveError}
    (h : ∀ content, s.source fromPath = some content → s'.Keeps fromPath toPath content) :
    Delivers s fromPath toPath (s', .error e) :=
  ⟨fun hok => (nomatch hok), fun _ _ => h⟩

theorem delivers_error_of_staged {e : MoveError}
    (hstaged : s.appendStaging.get fromPath = some staged)
    (hkept : s'.appendStaging.get fromPath = some staged) :
    Delivers s fromPath toPath (s', .error e) := by
  refine delivers_error fun content hcontent => .inl ?_
  rw [source, hstaged] at hcontent
  rw [hkept, Option.map_some, Option.some.inj hcontent]

/-! ### The upload of a staged file -/

/-- The end of an upload, when the destination has the bytes of the staged file unless the base
cannot be deleted. -/
theorem deleteBase_delivers (o : MoveOutcomes)
    (hstaged : s.appendStaging.get fromPath = some staged)
    (hkept : s'.appendStaging.get fromPath = some staged)
    (hdestination : s'.BaseDeletable fromPath staged →
      (s'.objects.get toPath).map S3Object.content = some staged.content ∧
        (fromPath = toPath → staged.baseEtag = none)) :
    Delivers s fromPath toPath (s'.deleteBase fromPath staged o) := by
  have hsource : s.source fromPath = some staged.content := by rw [source, hstaged]
  -- the staged file is removed once the destination has its bytes
  have hfinish : ∀ u : MoveStorage,
      (u.objects.get toPath).map S3Object.content = some staged.content →
      Delivers s fromPath toPath
        ({ u with appendStaging := u.appendStaging.remove fromPath },
          removeCached o (.ok true)) := by
    intro u hu
    unfold removeCached
    split_ifs
    · exact ⟨fun _ => ⟨staged.content, hsource, hu⟩, fun e he => nomatch he⟩
    · refine delivers_error fun content hcontent => .inr (.inr ?_)
      rw [← hcontent, hsource]
      exact hu
  have hfail : ∀ (u : MoveStorage) (e : MoveError), u.appendStaging = s'.appendStaging →
      Delivers s fromPath toPath (u, removeCached o (.error e)) := by grind [removeCached,
                                                                     delivers_error_of_staged]
  unfold deleteBase
  cases hbase : staged.baseEtag with
  | none => exact hfinish s' (hdestination (.inl hbase)).1
  | some eTag =>
    by_cases hetag : (s'.objects.get fromPath).bind S3Object.eTag = some eTag
    · obtain ⟨hcontent, hsame⟩ := hdestination (.inr (hetag.trans hbase.symm))
      have hne : toPath ≠ fromPath := by
        rintro rfl
        rw [hsame rfl] at hbase
        cases hbase
      simp only [deleteIfMatch, if_pos hetag]
      cases o.deleteBase with
      | ok =>
        refine hfinish { s' with objects := s'.objects.remove fromPath } ?_
        simp_all [Store.get_remove]
      | failed done conflict =>
        cases done with
        | true | false => exact hfail _ _ rfl
    · simp only [deleteIfMatch, if_neg hetag]
      exact hfail s' .conflict rfl

theorem deleteBase_ok {o : MoveOutcomes}
    (hdelete : o.deleteBase = .ok) (hto : o.cacheRemoveTo = true) (hfrom : o.cacheRemoveFrom = true)
    (hbase : s'.BaseDeletable fromPath staged) : (s'.deleteBase fromPath staged o).2 = .ok true ∧
      (s'.deleteBase fromPath staged o).1.objects =
        if staged.baseEtag = none then s'.objects else s'.objects.remove fromPath := by
  unfold deleteBase removeCached
  rw [hto, hfrom]
  cases hnone : staged.baseEtag with
  | none => exact ⟨rfl, by rw [if_pos rfl]⟩
  | some eTag =>
    have hetag := hbase.resolve_left (by rw [hnone]; exact Option.some_ne_none eTag)
    rw [hnone] at hetag
    simp [deleteIfMatch, hetag, hdelete]

theorem finalizeStaged_delivers (dst : StoragePath) (o : MoveOutcomes)
    (hstaged : s.appendStaging.get fromPath = some staged) (hsafe : s.MoveSafe fromPath toPath) :
    Delivers s fromPath toPath (s.finalizeStaged fromPath toPath dst staged o) := by
  unfold MoveSafe at hsafe
  rw [hstaged] at hsafe
  simp only at hsafe
  unfold finalizeStaged
  by_cases hopen : (!o.opensStaged) = true
  · rw [if_pos hopen]
    exact delivers_error_of_staged hstaged hstaged
  rw [if_neg hopen]
  set object : S3Object := ⟨staged.content, contentTypeOf dst, o.newEtag⟩ with hobject
  -- after the upload the destination has the staged bytes
  have huploaded : s.objects.get toPath = none →
      Delivers s fromPath toPath
        (({ s with objects := s.objects.put toPath object } : MoveStorage).deleteBase fromPath
          staged o) := by
    intro hnone
    rw [hnone] at hsafe
    refine deleteBase_delivers o hstaged hstaged fun _ => ⟨?_, hsafe⟩
    show ((s.objects.put toPath object).get toPath).map S3Object.content = some staged.content
    rw [Store.get_put_self, Option.map_some, hobject]
  -- a destination that was there before
  have hthere : ∀ destination, s.objects.get toPath = some destination →
      (if o.sendsLength then destination.content.length else 0) = staged.size →
      Delivers s fromPath toPath (s.deleteBase fromPath staged o) := by
    intro destination hget hsize
    rw [hget] at hsafe
    refine deleteBase_delivers o hstaged hstaged fun hbase => ?_
    have hsame : destination.content.length = staged.size ∨ staged.size = 0 := by grind
    obtain ⟨hcontent, hpath⟩ := hsafe hsame hbase
    exact ⟨by rw [hget, Option.map_some, hcontent], hpath⟩
  cases hget : s.objects.get toPath with
  | none =>
    cases hput : o.put with
    | ok =>
      simp only [putIfNoneMatch, hget, Option.isSome_none, Bool.false_eq_true, if_false]
      exact huploaded hget
    | failed done conflict =>
      cases done with
      | false =>
        cases conflict with
        | true =>
          simp only [putIfNoneMatch, Bool.false_and, Bool.false_eq_true, if_false, requestError,
            if_true, hget]
          exact delivers_error_of_staged hstaged hstaged
        | false =>
          simp only [putIfNoneMatch, Bool.false_and, Bool.false_eq_true, if_false, requestError]
          exact delivers_error_of_staged hstaged hstaged
      | true =>
        cases conflict with
        | false =>
          simp only [putIfNoneMatch, hget, Option.isNone_none, Bool.and_self, if_true, requestError,
            Bool.false_eq_true, if_false]
          exact delivers_error_of_staged hstaged hstaged
        | true =>
          simp only [putIfNoneMatch, hget, Option.isNone_none, Bool.and_self, if_true, requestError,
            Store.get_put_self]
          cases o.headDestination with
          | failed done conflict => exact delivers_error_of_staged hstaged hstaged
          | ok =>
            by_cases hsize : (if o.sendsLength then object.content.length else 0) = staged.size
            · simp only [hsize, ne_eq, not_true_eq_false, if_false]
              exact huploaded hget
            simp_all [ne_eq, not_false_eq_true, delivers_error_of_staged]
  | some destination =>
    have hconflict : s.putIfNoneMatch toPath object o.put = (s, .error .conflict) ∨
        s.putIfNoneMatch toPath object o.put = (s, .error .request) := by
      cases o.put with
      | ok => exact .inl (by simp [putIfNoneMatch, hget])
      | failed done conflict =>
        grind [putIfNoneMatch, requestError]
    rcases hconflict with hconflict | hconflict
    · rw [hconflict]
      simp only [hget]
      cases o.headDestination with
      | failed done conflict => exact delivers_error_of_staged hstaged hstaged
      | ok =>
        by_cases hsize : (if o.sendsLength then destination.content.length else 0) = staged.size
        · simp only [hsize, ne_eq, not_true_eq_false, if_false]
          exact hthere destination hget hsize
        · simp only [hsize, ne_eq, not_false_eq_true, if_true]
          exact delivers_error_of_staged hstaged hstaged
    · rw [hconflict]
      exact delivers_error_of_staged hstaged hstaged

/-! ### The copy of an object -/

theorem deleteIfMatch_get {u : MoveStorage} {path path' : String} (eTag : String)
    (outcome : RequestOutcome) (hne : path' ≠ path) :
    (u.deleteIfMatch path eTag outcome).1.objects.get path' = u.objects.get path' := by
  have hremoved : (u.objects.remove path).get path' = u.objects.get path' := by
    rw [Store.get_remove, if_neg hne]
  unfold deleteIfMatch
  grind

theorem le_divCeil_mul (a : ℕ) {b : ℕ} (hb : 0 < b) : a ≤ divCeil a b * b := by
  have hdiv := Nat.div_add_mod (a + b - 1) b
  have hmod := Nat.mod_lt (a + b - 1) hb
  rw [divCeil, mul_comm]
  omega

theorem flatMap_ranges_eq_take (content : Bytes) (partSize parts : ℕ) :
    ((List.range parts).flatMap fun part =>
      (content.drop (part * partSize)).take
        (min (part * partSize + partSize) content.length - part * partSize)) =
      content.take (parts * partSize) := by
  induction parts with
  | zero => simp
  | succ parts ih =>
    -- only the last range may be short, and then the object ends there
    have hlast : (content.drop (parts * partSize)).take
        (min (parts * partSize + partSize) content.length - parts * partSize) =
        (content.drop (parts * partSize)).take partSize := by
      rw [List.take_eq_take_iff, List.length_drop]
      omega
    rw [List.range_succ, List.flatMap_append, ih, Nat.succ_mul, List.take_add]
    simp only [List.flatMap_cons, List.flatMap_nil, List.append_nil]
    rw [hlast]

@[simp] theorem copiedParts_eq (content : Bytes) : copiedParts content = content := by
  have hpos : 0 < max multipartCopyPartSize (divCeil content.length 10000) := by
    refine lt_of_lt_of_le ?_ (le_max_left _ _)
    norm_num [multipartCopyPartSize]
  unfold copiedParts
  simp only
  rw [flatMap_ranges_eq_take]
  exact List.take_of_length_le (le_divCeil_mul _ hpos)

/-- What a copy does: it writes an object with the same bytes, or it fails and may have done so. -/
theorem copied_cases (s : MoveStorage) (fromPath toPath : String) (source : S3Object)
    (o : MoveOutcomes) (objectSize : ℕ) :
    let copied := if objectSize ≤ multipartCopyThreshold then s.copyObject fromPath toPath source o
      else s.multipartCopy toPath source o
    let written : MoveStorage :=
      { s with objects := s.objects.put toPath { source with eTag := o.newEtag } }
    (copied = (written, .ok ()) ∧
        (fromPath = toPath → multipartCopyThreshold < objectSize)) ∨
      ∃ e, copied = (s, .error e) ∨ copied = (written, .error e) := by
  intro copied written
  by_cases hsize : objectSize ≤ multipartCopyThreshold
  · have hcopied : copied = s.copyObject fromPath toPath source o := if_pos hsize
    rw [hcopied, copyObject]
    grind
  · have hcopied : copied = s.multipartCopy toPath source o := if_neg hsize
    rw [hcopied, multipartCopy]
    simp only [copiedParts_eq]
    split_ifs with hcreate hparts
    · exact .inr ⟨_, .inl rfl⟩
    · exact .inr ⟨_, .inl rfl⟩
    grind

theorem moveObject_delivers (o : MoveOutcomes) (hstaged : s.appendStaging.get fromPath = none)
    (hsafe : s.MoveSafe fromPath toPath) :
    Delivers s fromPath toPath (s.moveObject fromPath toPath o) := by
  unfold MoveSafe at hsafe
  rw [hstaged] at hsafe
  have hsource : s.source fromPath = (s.objects.get fromPath).map S3Object.content := by
    rw [source, hstaged]
  have hunchanged : ∀ e, Delivers s fromPath toPath (s, .error e) := fun e =>
    delivers_error fun content hcontent => .inr (.inl (hsource ▸ hcontent))
  unfold moveObject
  cases o.head with
  | failed done conflict => exact hunchanged _
  | ok =>
    cases hget : s.objects.get fromPath with
    | none => exact ⟨fun h => by simp at h, fun e he => nomatch he⟩
    | some object =>
      cases hetag : object.eTag with
      | none =>
        simp only [hetag]
        exact hunchanged _
      | some sourceEtag =>
        simp only [hetag]
        rw [hget] at hsource
        -- the destination has the bytes, whatever the errors after the copy
        have hwritten : ∀ (u : MoveStorage) (r : Except MoveError Bool),
            (u.objects.get toPath).map S3Object.content = some object.content →
            Delivers s fromPath toPath (u, r) := by
          intro u r hu
          refine ⟨fun _ => ⟨object.content, hsource, hu⟩, fun _ _ content hcontent => ?_⟩
          rw [hsource] at hcontent
          exact .inr (.inr (hu.trans hcontent))
        have hput : ((s.objects.put toPath { object with eTag := o.newEtag }).get toPath).map
            S3Object.content = some object.content := by
          rw [Store.get_put_self]
          rfl
        rcases copied_cases s fromPath toPath object o
          (if o.sendsLength then object.content.length else 0) with ⟨hcopied, hpath⟩ | ⟨e, he | he⟩
        · rw [hcopied]
          have hne : fromPath ≠ toPath := by grind
          simp only
          by_cases hcache : (!o.cacheRemoveTo) = true
          · rw [if_pos hcache]
            exact hwritten _ _ hput
          rw [if_neg hcache]
          cases hdelete : deleteIfMatch _ fromPath sourceEtag o.deleteSource with
          | mk u r =>
            have hkept := deleteIfMatch_get (u := { s with
              objects := s.objects.put toPath { object with eTag := o.newEtag } })
              sourceEtag o.deleteSource (Ne.symm hne)
            grind
        · rw [he]
          exact hunchanged e
        · rw [he]
          exact hwritten _ _ hput

/-! ### Every state -/

def allAnswered (eTag : Option String) (sendsLength : Bool) : MoveOutcomes where
  opensStaged := true
  put := .ok
  newEtag := eTag
  headDestination := .ok
  deleteBase := .ok
  head := .ok
  sendsLength := sendsLength
  copy := .ok
  create := true
  copiesPart := fun _ => true
  complete := .ok
  deleteSource := .ok
  cacheRemoveTo := true
  cacheRemoveFrom := true

theorem moveSafe_of_finalizeStaged (dst : StoragePath)
    (hstaged : s.appendStaging.get fromPath = some staged)
    (h : ∀ o, Delivers s fromPath toPath (s.finalizeStaged fromPath toPath dst staged o)) :
    s.MoveSafe fromPath toPath := by
  have hsource : s.source fromPath = some staged.content := by rw [source, hstaged]
  unfold MoveSafe
  rw [hstaged]
  cases hget : s.objects.get toPath with
  | none =>
    rintro rfl
    by_contra hbase
    -- the base has the ETag of what has just been uploaded
    have hmoved := h (allAnswered staged.baseEtag true)
    set object : S3Object := ⟨staged.content, contentTypeOf dst, staged.baseEtag⟩ with hobject
    set written : MoveStorage := { s with objects := s.objects.put fromPath object }
    have hput : s.putIfNoneMatch fromPath object .ok = (written, .ok ()) := by
      simp [putIfNoneMatch, hget, written]
    have hdeletable : written.BaseDeletable fromPath staged := by
      refine .inr ?_
      rw [Store.get_put_self]
      rfl
    have hfinal : s.finalizeStaged fromPath fromPath dst staged (allAnswered staged.baseEtag true) =
        written.deleteBase fromPath staged (allAnswered staged.baseEtag true) := by
      simp [finalizeStaged, putIfNoneMatch, hget, written, object, allAnswered]
    obtain ⟨hok, hobjects⟩ :
        (written.deleteBase fromPath staged (allAnswered staged.baseEtag true)).2 = .ok true ∧
          (written.deleteBase fromPath staged (allAnswered staged.baseEtag true)).1.objects =
            if staged.baseEtag = none then written.objects else written.objects.remove fromPath :=
      deleteBase_ok rfl rfl rfl hdeletable
    rw [hfinal] at hmoved
    obtain ⟨content, -, hcontent⟩ := hmoved.1 hok
    rw [hobjects, if_neg hbase, Store.get_remove_self] at hcontent
    cases hcontent
  | some destination =>
    intro hsize hbase
    set o := allAnswered none (decide (destination.content.length = staged.size)) with ho
    have hfinal : s.finalizeStaged fromPath toPath dst staged o =
        s.deleteBase fromPath staged o := by
      have hlength : (if o.sendsLength then destination.content.length else 0) = staged.size := by grind [allAnswered]
      simp [finalizeStaged, putIfNoneMatch, hget, hlength, show o.opensStaged = true from rfl,
        show o.put = .ok from rfl, show o.headDestination = .ok from rfl]
    have hmoved := h o
    obtain ⟨hok, hobjects⟩ := deleteBase_ok (o := o) rfl rfl rfl hbase
    rw [hfinal] at hmoved
    obtain ⟨content, hcontent, hdelivered⟩ := hmoved.1 hok
    rw [hsource] at hcontent
    rw [hobjects, ← hcontent] at hdelivered
    by_cases hnone : staged.baseEtag = none
    · rw [if_pos hnone, hget] at hdelivered
      exact ⟨Option.some.inj hdelivered, fun _ => hnone⟩
    · rw [if_neg hnone, Store.get_remove] at hdelivered
      grind

theorem moveSafe_of_moveObject (hstaged : s.appendStaging.get fromPath = none)
    (h : ∀ o, Delivers s fromPath toPath (s.moveObject fromPath toPath o)) :
    s.MoveSafe fromPath toPath := by
  unfold MoveSafe
  rw [hstaged]
  rintro object hget hetag hlarge rfl
  obtain ⟨eTag, heTag⟩ := Option.ne_none_iff_exists'.mp hetag
  -- the source has the ETag of the copy that replaces it
  have hmoved := h (allAnswered (some eTag) true)
  set copied : S3Object := { object with eTag := some eTag }
  have hfinal : s.moveObject fromPath fromPath (allAnswered (some eTag) true) =
      (⟨(s.objects.put fromPath copied).remove fromPath, s.appendStaging⟩, .ok true) := by
    simp [moveObject, allAnswered, hget, heTag, not_le.mpr hlarge, multipartCopy, deleteIfMatch,
      copied]
  rw [hfinal] at hmoved
  obtain ⟨content, -, hcontent⟩ := hmoved.1 rfl
  simp at hcontent

/-- A move delivers its source, whatever happens to its requests, if and only if its state is
safe. -/
theorem moveFile_delivers_iff (s : MoveStorage) (repository : String) (src dst : StoragePath) :
    (∀ o, Delivers s (S3Storage.s3Path repository src) (S3Storage.s3Path repository dst)
        (s.moveFile repository src dst o)) ↔
      s.MoveSafe (S3Storage.s3Path repository src) (S3Storage.s3Path repository dst) := by
  unfold moveFile
  simp only
  cases hstaged : s.appendStaging.get (S3Storage.s3Path repository src) with
  | none =>
    exact ⟨moveSafe_of_moveObject hstaged, fun hsafe o => moveObject_delivers o hstaged hsafe⟩
  | some staged =>
    exact ⟨moveSafe_of_finalizeStaged dst hstaged,
      fun hsafe o => finalizeStaged_delivers dst o hstaged hsafe⟩

def foreignDestination : MoveStorage where
  objects := Store.put ∅ "r/file" ⟨[2], "application/octet-stream", none⟩
  appendStaging := Store.put ∅ "r/upload" ⟨[1], 1, none⟩

/-- The destination had another file of the same size, and the upload is gone. -/
theorem moveFile_loses :
    let moved := foreignDestination.moveFile "r" (.ofString "upload") (.ofString "file")
      (allAnswered none true)
    foreignDestination.source "r/upload" = some [1] ∧ moved.2 = .ok true ∧
      ¬ Delivers foreignDestination "r/upload" "r/file" moved := by
  have hsource : foreignDestination.source "r/upload" = some [1] := by decide
  refine ⟨hsource, by decide, fun h => ?_⟩
  obtain ⟨content, hcontent, hdelivered⟩ := h.1 (by decide)
  rw [hsource] at hcontent
  rw [← hcontent] at hdelivered
  exact absurd hdelivered (by decide)

end MoveStorage

end Pkgly.S3
