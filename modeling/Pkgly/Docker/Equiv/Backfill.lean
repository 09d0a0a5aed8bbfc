import Mathlib.Data.List.Dedup
import Mathlib.Data.List.TakeWhile
import Pkgly.Algorithm.DepthFirst
import Pkgly.Docker.Equiv.Reconcile

/-!
# Children before parents

The rows of a manifest graph are written in the reverse of the order in which the walk meets the
objects, so that a crash between two writes leaves no indexed manifest without the rows below it.
That holds when no two references of a manifest share a stored object, unless the one that the walk
takes later is itself below one that it takes earlier (`Nested`): otherwise the shared object is met
below the first of the two, before the manifest of the second, and its row is written after that
manifest's (`writes_childrenFirst_iff`).
-/

namespace Pkgly.Docker

open DepthFirst StoragePath

variable {serde : SerdeJson} {st : DynStorage} {name : String}

/-- The references of a stored manifest, in the order in which the walk takes them off its stack. -/
def referencesTaken (serde : SerdeJson) (st : DynStorage) (name path : String) : List String :=
  match observeObject serde st name path with
  | some (.ok (references, _)) => references.reverse
  | _ => []

def observedAt (serde : SerdeJson) (st : DynStorage) (name path : String) : List ObservedObject :=
  match observeObject serde st name path with
  | some (.ok (_, objects)) => objects
  | _ => []

def isStored (st : DynStorage) (path : String) : Bool :=
  match st.openFile (.ofString path) with
  | .ok (some (.file _)) => true
  | _ => false

/-- The rows of a set contain those of everything stored below them. -/
def Indexed (serde : SerdeJson) (st : DynStorage) (name : String) (rows : Set String) : Prop :=
  ∀ path ∈ rows, ∀ p, Reaches (referencesTaken serde st name) path p → isStored st p → p ∈ rows

/-- What the order of the writes is for: the paths that are written are those of the stored objects
below the root, each once and after those it refers to, and rows that were in order before are in
order after any number of the writes. -/
structure ChildrenFirst (serde : SerdeJson) (st : DynStorage) (name root : String)
    (writes : List String) : Prop where
  mem_iff : ∀ path, path ∈ writes ↔
    Reaches (referencesTaken serde st name) root path ∧ isStored st path
  nodup : writes.Nodup
  children_first : ∀ written path rest, writes = written ++ path :: rest →
    ∀ child ∈ referencesTaken serde st name path, isStored st child → child ∈ written
  indexed : ∀ rows, Indexed serde st name rows → ∀ written rest, writes = written ++ rest →
    Indexed serde st name (rows ∪ {path | path ∈ written})

/-- Every object below the root is read, and its size fits a row. -/
def AllReadable (serde : SerdeJson) (st : DynStorage) (name root : String) : Prop :=
  ∀ path, Reaches (referencesTaken serde st name) root path →
    ∃ references objects, observeObject serde st name path = some (.ok (references, objects)) ∧
      ∀ object ∈ objects, object.size < 2 ^ 63

/-- Of two references that share a stored object below them, the one that is taken later is itself
below one that is taken earlier. -/
def Nested (serde : SerdeJson) (st : DynStorage) (name root : String) : Prop :=
  ∀ manifest, Reaches (referencesTaken serde st name) root manifest →
    ∀ earlier later rest, referencesTaken serde st name manifest = earlier ++ later :: rest →
      ∀ shared, isStored st shared → Reaches (referencesTaken serde st name) later shared →
        shared ∈ Below (referencesTaken serde st name) earlier →
          later ∈ Below (referencesTaken serde st name) earlier

/-! ### What the walk finds -/

variable {path : String}

theorem observeObject_ok {next : List String} {more : List ObservedObject}
    (h : observeObject serde st name path = some (.ok (next, more))) :
    referencesTaken serde st name path = next.reverse ∧ observedAt serde st name path = more := by
  rw [referencesTaken, observedAt, h]
  exact ⟨rfl, rfl⟩

theorem map_path_observedAt {next : List String} {more : List ObservedObject}
    (h : observeObject serde st name path = some (.ok (next, more))) :
    more.map ObservedObject.path = [path].filter (isStored st) := by
  unfold observeObject at h
  unfold isStored
  split_ifs at h
  · cases hopen : st.openFile (StoragePath.ofString path) with
    | error e => simp [hopen] at h
    | ok opened =>
      match opened, hopen with
      | none, hopen =>
        obtain ⟨-, rfl⟩ : next = [] ∧ more = [] := by simpa [hopen, eq_comm] using h
        simp [hopen]
      | some (.directory _), hopen =>
        obtain ⟨-, rfl⟩ : next = [] ∧ more = [] := by simpa [hopen, eq_comm] using h
        simp [hopen]
      | some (.file content), hopen =>
        simp only [hopen, Option.map_eq_some_iff] at h
        obtain ⟨references, -, heq⟩ := h
        obtain ⟨-, rfl⟩ : references = next ∧ _ := by simpa using heq
        simp [hopen]
  · unfold DynStorage.getFileInformation at h
    grind

theorem mem_referencesTaken {child : String}
    (h : child ∈ referencesTaken serde st name path) : isStored st path ∧
      ∃ content ∈ storedContents st, child ∈ (manifestReferences serde name content).getD [] := by
  unfold referencesTaken observeObject at h
  unfold isStored
  split_ifs at h
  · cases hopen : st.openFile (StoragePath.ofString path) with
    | error e => simp [hopen] at h
    | ok opened =>
      match opened, hopen with
      | none, hopen => simp [hopen] at h
      | some (.directory _), hopen => simp [hopen] at h
      | some (.file content), hopen =>
        refine ⟨rfl, content, mem_storedContents_of_openFile hopen, ?_⟩
        cases hreferences : manifestReferences serde name content with
        | none => simp [hopen, hreferences] at h
        | some references => simpa [hopen, hreferences] using h
  grind

theorem keepsParents_isStored :
    KeepsParents (referencesTaken serde st name) {path | isStored st path} :=
  fun _ _ h => (mem_referencesTaken h).1

theorem map_path_flatMap {order : List String}
    (hok : ∀ path ∈ order, ∃ next more,
      observeObject serde st name path = some (.ok (next, more))) :
    (order.flatMap (observedAt serde st name)).map ObservedObject.path =
      order.filter (isStored st) := by
  induction order with
  | nil => rfl
  | cons path order ih =>
    obtain ⟨next, more, h⟩ := hok path List.mem_cons_self
    rw [List.flatMap_cons, List.map_append, ih fun p hp => hok p (List.mem_cons_of_mem path hp),
      (observeObject_ok h).2, map_path_observedAt h, ← List.filter_append, List.singleton_append]

/-! ### The order of the writes -/

variable {root : String} {order : List String}

theorem nested_iff : Nested serde st name root ↔
    ∀ w, Reaches (referencesTaken serde st name) root w →
      Apart (referencesTaken serde st name) {path | isStored st path}
        (referencesTaken serde st name w) ∅ := by
  constructor
  · intro h w hw ys x zs heq _ hx s hs hxs
    exact ⟨Set.notMem_empty s, fun hshared => hx (h w hw ys x zs heq s hs hxs hshared)⟩
  · intro h w hw earlier later rest heq s hs hlater hshared
    by_contra hcon
    exact (h w hw earlier later rest heq (Set.notMem_empty later) hcon s hs hlater).2 hshared

theorem mem_order_iff (hacyclic : Acyclic (referencesTaken serde st name) [root])
    (hvisit : Visit (referencesTaken serde st name) [root] ∅ order) (path : String) :
    path ∈ order ↔ Reaches (referencesTaken serde st name) root path := by
  rw [hvisit.mem_iff hacyclic (fun u hu => absurd hu (Set.notMem_empty u)) path, mem_below_cons]
  simp

theorem indexed_of_children_first {writes : List String}
    (h : ∀ written path rest, writes = written ++ path :: rest →
      ∀ child ∈ referencesTaken serde st name path, isStored st child → child ∈ written)
    {rows : Set String} (hrows : Indexed serde st name rows) {written rest : List String}
    (hwrites : writes = written ++ rest) :
    Indexed serde st name (rows ∪ {path | path ∈ written}) := by
  rintro path (hpath | hpath) p hp hstored
  · exact .inl (hrows path hpath p hp hstored)
  · refine .inr ?_
    -- every child of a written object is written
    induction hp using Relation.ReflTransGen.head_induction_on with
    | refl => exact hpath
    | @head a c hc hcp ih =>
      refine ih ?_
      obtain ⟨before, after, rfl⟩ := List.append_of_mem hpath
      have hchild : c ∈ before := by
        refine h before a (after ++ rest) ?_ c hc (keepsParents_isStored.mem hstored hcp)
        rw [hwrites, List.append_assoc, List.cons_append]
      exact List.mem_append_left _ hchild

/-- The stored objects of a walk, last to first, are children first when the walk met parents
first. -/
theorem childrenFirst_iff_parentsFirst
    (hacyclic : Acyclic (referencesTaken serde st name) [root])
    (hvisit : Visit (referencesTaken serde st name) [root] ∅ order) :
    ChildrenFirst serde st name root (order.filter (isStored st)).reverse ↔
      ParentsFirst (referencesTaken serde st name) {path | isStored st path} ∅ order := by
  constructor
  · rintro h l₁ u l₂ rfl c hc hkeep
    refine ⟨Set.notMem_empty c, fun hl₁ => ?_⟩
    have hu : isStored st u := (mem_referencesTaken hc).1
    have hwrites : ((l₁ ++ u :: l₂).filter (isStored st)).reverse =
        (l₂.filter (isStored st)).reverse ++ u :: (l₁.filter (isStored st)).reverse := by grind
    have hin := h.children_first _ u _ hwrites c hc hkeep
    have hl₂ : c ∈ l₂ := List.mem_of_mem_filter (List.mem_reverse.mp hin)
    have hdisjoint := (List.nodup_append.mp hvisit.nodup).2.2
    exact hdisjoint c hl₁ c (List.mem_cons_of_mem u hl₂) rfl
  · intro hfirst
    have hmem := mem_order_iff hacyclic hvisit
    have hchildren : ∀ written path rest,
        (order.filter (isStored st)).reverse = written ++ path :: rest →
        ∀ child ∈ referencesTaken serde st name path, isStored st child → child ∈ written := by
      intro written path rest heq child hchild hstored
      have hfilter : order.filter (isStored st) = rest.reverse ++ path :: written.reverse := by grind
      obtain ⟨m₁, m₂, rfl, hm₁, hm₂⟩ := List.filter_eq_append_iff.mp hfilter
      obtain ⟨n₁, n₂, rfl, hn₁, hpath, hn₂⟩ := List.filter_eq_cons_iff.mp hm₂
      have hsplit : m₁ ++ (n₁ ++ path :: n₂) = (m₁ ++ n₁) ++ path :: n₂ := by
        rw [List.append_assoc]
      obtain ⟨-, hbefore⟩ := hfirst _ path n₂ hsplit child hchild hstored
      have hreach : Reaches (referencesTaken serde st name) root path :=
        (hmem path).mp (by rw [hsplit]; exact List.mem_append_right _ List.mem_cons_self)
      have hin : child ∈ (m₁ ++ n₁) ++ path :: n₂ :=
        hsplit ▸ (hmem child).mpr (hreach.trans (.head hchild .refl))
      have hne : child ≠ path := by
        rintro rfl
        exact hacyclic child (mem_below_cons.mpr (.inl hreach)) child hchild .refl
      have hafter : child ∈ n₂ :=
        (List.mem_cons.mp ((List.mem_append.mp hin).resolve_left hbefore)).resolve_left hne
      have hlast : child ∈ written.reverse := hn₂ ▸ List.mem_filter.mpr ⟨hafter, hstored⟩
      exact List.mem_reverse.mp hlast
    refine ⟨fun path => ?_, ?_, hchildren, fun rows hrows written rest heq =>
      indexed_of_children_first hchildren hrows heq⟩
    · rw [List.mem_reverse, List.mem_filter, hmem]
    · exact List.nodup_reverse.mpr (hvisit.nodup.filter _)

/-! ### The walk of a root -/

variable {reference : String} {fuel : ℕ} {objects : List ObservedObject}

theorem visit_of_backfillManifestObjects
    (hroot : splitManifestCachePath root = some (name, reference))
    (h : backfillManifestObjects serde st fuel root = some (.ok objects)) :
    ∃ order, Visit (referencesTaken serde st name) [root] ∅ order ∧
      (∀ path ∈ order, ∃ next more,
        observeObject serde st name path = some (.ok (next, more))) ∧
      objects = order.flatMap (observedAt serde st name) := by
  unfold backfillManifestObjects at h
  rw [hroot] at h
  have hloop : worklist (observeObject serde st name) fuel ([root] ++ []) [] [] =
      some (.ok objects) := h
  obtain ⟨order, fuel', -, hvisit, hok, hend⟩ := visit_of_worklist
    (fun path next more => observeObject_ok) fuel [root] [] [] [] objects hloop
  refine ⟨order, ?_, hok, ?_⟩
  · simp_all
  · cases fuel' with
    | zero => simp [worklist] at hend
    | succ fuel' => simpa [worklist, eq_comm] using hend

theorem exists_reachable_list (root : String) : ∃ all : List String, ∀ path,
    path ∈ all ↔ Reaches (referencesTaken serde st name) root path := by
  classical
  refine ⟨(root :: (storedContents st).flatMap fun content =>
    (manifestReferences serde name content).getD []).filter fun path =>
      decide (Reaches (referencesTaken serde st name) root path), fun path => ?_⟩
  rw [List.mem_filter, decide_eq_true_eq, and_iff_right_iff_imp]
  intro hreach
  rcases Relation.ReflTransGen.cases_tail hreach with rfl | ⟨parent, -, hchild⟩
  · exact List.mem_cons_self
  · obtain ⟨content, hcontent, hin⟩ := (mem_referencesTaken hchild).2
    exact List.mem_cons_of_mem _ (List.mem_flatMap.mpr ⟨content, hcontent, hin⟩)

theorem backfillManifestObjects_succeeds
    (hroot : splitManifestCachePath root = some (name, reference))
    (hreadable : AllReadable serde st name root) :
    ∃ fuel objects, backfillManifestObjects serde st fuel root = some (.ok objects) := by
  obtain ⟨all, hall⟩ := @exists_reachable_list serde st name root
  have hread : ∀ path ∈ all, ∃ r, observeObject serde st name path = some (.ok r) := by
    intro path hpath
    obtain ⟨references, objects, h, -⟩ := hreadable path ((hall path).mp hpath)
    exact ⟨_, h⟩
  have hclosed : ∀ path ∈ all, ∀ next more,
      observeObject serde st name path = some (.ok (next, more)) → ∀ b ∈ next, b ∈ all := by
    intro path hpath next more h b hb
    refine (hall b).mpr (((hall path).mp hpath).tail ?_)
    rw [(observeObject_ok h).1]
    exact List.mem_reverse.mpr hb
  have hpending : ∀ path ∈ [root], path ∈ all := by
    intro path hpath
    rw [List.mem_singleton.mp hpath, hall]
    exact .refl
  unfold backfillManifestObjects
  rw [hroot]
  obtain ⟨fuel, hfuel⟩ := worklist_returns all
    (fun path hpath => by obtain ⟨r, h⟩ := hread path hpath; simp [h]) hclosed hpending [] []
  cases hresult : worklist (observeObject serde st name) fuel [root] [] [] with
  | none => exact absurd hresult hfuel
  | some result =>
    cases result with
    | ok objects => exact ⟨fuel, objects, hresult⟩
    | error e =>
      obtain ⟨path, hpath, herror⟩ := exists_error_of_worklist hclosed fuel _ _ _ hpending hresult
      obtain ⟨r, h⟩ := hread path hpath
      rw [herror] at h
      cases h

theorem rowWrites_eq_reverse (hnodup : (objects.map ObservedObject.path).Nodup)
    (hall : ∀ object ∈ objects, object.path ∈ (rowWrites objects).map ObservedObject.path) :
    rowWrites objects = objects.reverse ∧ ∀ object ∈ objects, object.size < 2 ^ 63 := by
  have hsplit : objects.reverse.takeWhile (fun object => decide (object.size < 2 ^ 63)) ++
      objects.reverse.dropWhile (fun object => decide (object.size < 2 ^ 63)) = objects.reverse :=
    List.takeWhile_append_dropWhile
  have hnone : objects.reverse.dropWhile (fun object => decide (object.size < 2 ^ 63)) = [] := by
    refine List.eq_nil_iff_forall_not_mem.mpr fun object hdrop => ?_
    have hobject : object ∈ objects :=
      List.mem_reverse.mp (hsplit ▸ List.mem_append_right _ hdrop)
    have hnodup' : (objects.reverse.map ObservedObject.path).Nodup := by
      rw [List.map_reverse]
      exact List.nodup_reverse.mpr hnodup
    rw [← hsplit, List.map_append] at hnodup'
    exact (List.nodup_append.mp hnodup').2.2 _ (hall object hobject) _
      (List.mem_map_of_mem hdrop) rfl
  simp_all [rowWrites, List.append_nil]

theorem readable_nested_of_childrenFirst
    (hroot : splitManifestCachePath root = some (name, reference))
    (hacyclic : Acyclic (referencesTaken serde st name) [root])
    (hwalk : backfillManifestObjects serde st fuel root = some (.ok objects))
    (hfirst : ChildrenFirst serde st name root ((rowWrites objects).map ObservedObject.path)) :
    AllReadable serde st name root ∧ Nested serde st name root := by
  obtain ⟨order, hvisit, hok, rfl⟩ := visit_of_backfillManifestObjects hroot hwalk
  have hpaths := map_path_flatMap hok
  have hmem := mem_order_iff hacyclic hvisit
  obtain ⟨hwrites, hsizes⟩ := rowWrites_eq_reverse (by rw [hpaths]; exact hvisit.nodup.filter _)
    (fun object hobject => by
      have hin : object.path ∈ (order.flatMap (observedAt serde st name)).map
          ObservedObject.path := List.mem_map_of_mem hobject
      rw [hpaths, List.mem_filter, hmem] at hin
      exact (hfirst.mem_iff _).mpr hin)
  rw [hwrites, List.map_reverse, hpaths, childrenFirst_iff_parentsFirst hacyclic hvisit,
    hvisit.parentsFirst_iff keepsParents_isStored hacyclic, ← nested_iff] at hfirst
  refine ⟨fun path hpath => ?_, hfirst⟩
  obtain ⟨next, more, h⟩ := hok path ((hmem path).mpr hpath)
  refine ⟨next, more, h, fun object hobject => hsizes object ?_⟩
  exact List.mem_flatMap.mpr ⟨path, (hmem path).mpr hpath, (observeObject_ok h).2 ▸ hobject⟩

theorem childrenFirst_of_nested (hroot : splitManifestCachePath root = some (name, reference))
    (hacyclic : Acyclic (referencesTaken serde st name) [root])
    (hreadable : AllReadable serde st name root) (hnested : Nested serde st name root) :
    ∃ fuel objects, backfillManifestObjects serde st fuel root = some (.ok objects) ∧
      ChildrenFirst serde st name root ((rowWrites objects).map ObservedObject.path) := by
  obtain ⟨fuel, objects, hwalk⟩ := backfillManifestObjects_succeeds hroot hreadable
  refine ⟨fuel, objects, hwalk, ?_⟩
  obtain ⟨order, hvisit, hok, rfl⟩ := visit_of_backfillManifestObjects hroot hwalk
  have hmem := mem_order_iff hacyclic hvisit
  have hwrites : rowWrites (order.flatMap (observedAt serde st name)) =
      (order.flatMap (observedAt serde st name)).reverse := by
    refine List.takeWhile_eq_self_iff.mpr fun object hobject => ?_
    obtain ⟨path, hpath, hin⟩ := List.mem_flatMap.mp (List.mem_reverse.mp hobject)
    obtain ⟨references, objects, h, hsizes⟩ := hreadable path ((hmem path).mp hpath)
    rw [(observeObject_ok h).2] at hin
    simpa using hsizes object hin
  rw [hwrites, List.map_reverse, map_path_flatMap hok,
    childrenFirst_iff_parentsFirst hacyclic hvisit,
    hvisit.parentsFirst_iff keepsParents_isStored hacyclic, ← nested_iff]
  exact hnested

/-- **Children before parents**: in an acyclic graph the walk ends and writes the rows children
first exactly when every object below the root is read and shared objects are nested. -/
theorem writes_childrenFirst_iff (serde : SerdeJson) (st : DynStorage)
    (root name reference : String) (hroot : splitManifestCachePath root = some (name, reference))
    (hacyclic : Acyclic (referencesTaken serde st name) [root]) :
    (∃ fuel objects, backfillManifestObjects serde st fuel root = some (.ok objects) ∧
      ChildrenFirst serde st name root ((rowWrites objects).map ObservedObject.path)) ↔
    AllReadable serde st name root ∧ Nested serde st name root := by
  constructor
  · rintro ⟨fuel, objects, hwalk, hfirst⟩
    exact readable_nested_of_childrenFirst hroot hacyclic hwalk hfirst
  · rintro ⟨hreadable, hnested⟩
    exact childrenFirst_of_nested hroot hacyclic hreadable hnested

/-! ### A nested index that shares a manifest with its parent -/

/-- The manifest `sha256:c`. -/
def leafText : Bytes := intoBytes "\x7b\"schemaVersion\":2\x7d"

def entryText (mediaType digest size : String) : String :=
  "\x7b\"mediaType\":\"" ++ mediaType ++ "\",\"digest\":\"" ++ digest ++ "\",\"size\":" ++
    size ++ "\x7d"

def indexText (entries : String) : Bytes :=
  intoBytes ("\x7b\"schemaVersion\":2,\"mediaType\":\"" ++ MediaType.ociImageIndex ++
    "\",\"manifests\":[" ++ entries ++ "]\x7d")

/-- The index `sha256:a`, which refers to `sha256:c`. -/
def innerText : Bytes := indexText (entryText MediaType.ociImageManifest "sha256:c" "19")

/-- The index `latest`, which refers to `sha256:a` and `sha256:c`. -/
def outerText : Bytes :=
  indexText (entryText MediaType.ociImageIndex "sha256:a" "176" ++ "," ++
    entryText MediaType.ociImageManifest "sha256:c" "19")

def entryJson (mediaType digest : String) (size : Int) : Json :=
  .obj [("mediaType", .str mediaType), ("digest", .str digest), ("size", .int size)]

def indexJson (entries : List Json) : Json :=
  .obj [("schemaVersion", .int 2), ("mediaType", .str MediaType.ociImageIndex),
    ("manifests", .arr entries)]

/-- `serde_json` on the three documents. -/
def sharedSerde : SerdeJson where
  parse bytes :=
    if bytes = leafText then some (.obj [("schemaVersion", .int 2)])
    else if bytes = innerText then
      some (indexJson [entryJson MediaType.ociImageManifest "sha256:c" 19])
    else if bytes = outerText then
      some (indexJson [entryJson MediaType.ociImageIndex "sha256:a" 176,
        entryJson MediaType.ociImageManifest "sha256:c" 19])
    else none
  acceptsValue _ := true

/-- The storage with the three manifests of the image `img`. -/
def sharedManifests : DynStorage where
  backend := .local
  objects := (((∅ : Objects).put ["v2", "img", "manifests", "sha256:c"] leafText).put
    ["v2", "img", "manifests", "sha256:a"] innerText).put
    ["v2", "img", "manifests", "latest"] outerText
  staging := ∅

theorem digests_leafText :
    (parseManifest sharedSerde leafText).map (Option.map Manifest.digests) =
      some (some ("blobs", [])) := by
  decide

set_option maxRecDepth 4000 in
theorem digests_innerText :
    (parseManifest sharedSerde innerText).map (Option.map Manifest.digests) =
      some (some ("manifests", ["sha256:c"])) := by
  decide

set_option maxRecDepth 4000 in
theorem digests_outerText :
    (parseManifest sharedSerde outerText).map (Option.map Manifest.digests) =
      some (some ("manifests", ["sha256:a", "sha256:c"])) := by
  decide

theorem manifestReferences_of_digests {serde : SerdeJson} {bytes : Bytes} {name kind : String}
    {digests : List String}
    (h : (parseManifest serde bytes).map (Option.map Manifest.digests) =
      some (some (kind, digests)))
    (hsorted : (digests.map (objectPath name kind)).Pairwise (· ≤ ·))
    (hnodup : (digests.map (objectPath name kind)).Nodup) :
    manifestReferences serde name bytes = some (digests.map (objectPath name kind)) := by
  obtain ⟨parsed, hparsed, hdigests⟩ := Option.map_eq_some_iff.mp h
  obtain ⟨manifest, rfl, hmanifest⟩ := Option.map_eq_some_iff.mp hdigests
  rw [manifestReferences, hparsed]
  simp only [Option.map_some, hmanifest]
  rw [List.mergeSort_of_pairwise (hsorted.imp fun h => decide_eq_true h), hnodup.dedup]

def leafPath : String := "v2/img/manifests/sha256:c"
def innerPath : String := "v2/img/manifests/sha256:a"
def outerPath : String := "v2/img/manifests/latest"

theorem observeObject_leafPath : observeObject sharedSerde sharedManifests "img" leafPath =
    some (.ok ([], [⟨leafPath, 19, []⟩])) := by
  have hopen : sharedManifests.openFile (.ofString leafPath) =
      .ok (some (.file leafText)) := by rfl
  have hreferences : manifestReferences sharedSerde "img" leafText = some [] :=
    manifestReferences_of_digests digests_leafText List.Pairwise.nil List.nodup_nil
  have hlength : leafText.length = 19 := by decide
  rw [observeObject, if_pos (by decide), hopen]
  simp only [hreferences, Option.map_some, hlength]

set_option maxRecDepth 4000 in
theorem observeObject_innerPath : observeObject sharedSerde sharedManifests "img" innerPath =
    some (.ok ([leafPath], [⟨innerPath, 176, [leafPath]⟩])) := by
  have hopen : sharedManifests.openFile (.ofString innerPath) =
      .ok (some (.file innerText)) := by rfl
  have hpaths : ["sha256:c"].map (objectPath "img" "manifests") = [leafPath] := by decide
  have hreferences : manifestReferences sharedSerde "img" innerText = some [leafPath] := by
    rw [manifestReferences_of_digests digests_innerText (by decide) (by decide),
      hpaths]
  have hlength : innerText.length = 176 := by decide
  rw [observeObject, if_pos (by decide), hopen]
  simp only [hreferences, Option.map_some, hlength]

set_option maxRecDepth 4000 in
theorem observeObject_outerPath : ∃ size, size < 2 ^ 63 ∧
    observeObject sharedSerde sharedManifests "img" outerPath =
    some (.ok ([innerPath, leafPath], [⟨outerPath, size, [innerPath, leafPath]⟩])) := by
  have hopen : sharedManifests.openFile (.ofString outerPath) =
      .ok (some (.file outerText)) := by rfl
  have hpaths : ["sha256:a", "sha256:c"].map (objectPath "img" "manifests") =
      [innerPath, leafPath] := by decide
  have hreferences : manifestReferences sharedSerde "img" outerText =
      some [innerPath, leafPath] := by
    rw [manifestReferences_of_digests digests_outerText (by decide) (by decide),
      hpaths]
  refine ⟨outerText.length, by decide, ?_⟩
  rw [observeObject, if_pos (by decide), hopen]
  simp only [hreferences, Option.map_some]

theorem referencesTaken_leafPath :
    referencesTaken sharedSerde sharedManifests "img" leafPath = [] :=
  (observeObject_ok observeObject_leafPath).1

theorem referencesTaken_innerPath :
    referencesTaken sharedSerde sharedManifests "img" innerPath = [leafPath] :=
  (observeObject_ok observeObject_innerPath).1

theorem referencesTaken_outerPath :
    referencesTaken sharedSerde sharedManifests "img" outerPath = [leafPath, innerPath] := by
  obtain ⟨size, -, h⟩ := observeObject_outerPath
  exact (observeObject_ok h).1

theorem of_mem_below {root : String} (hroot : root ∈ [outerPath, innerPath, leafPath])
    (h : path ∈ Below (referencesTaken sharedSerde sharedManifests "img") [root]) :
    path = outerPath ∨ path = innerPath ∨ path = leafPath := by
  have hsub : Below (referencesTaken sharedSerde sharedManifests "img") [root] ⊆
      {path | path ∈ [outerPath, innerPath, leafPath]} := by
    refine below_subset (fun p hp => List.mem_singleton.mp hp ▸ hroot) fun p hp c hc => ?_
    simp only [Set.mem_ofPred_eq, List.mem_cons, List.not_mem_nil, or_false] at hp ⊢
    rcases hp with rfl | rfl | rfl
    · rw [referencesTaken_outerPath] at hc
      simp only [List.mem_cons, List.not_mem_nil, or_false] at hc
      exact .inr hc.symm
    · rw [referencesTaken_innerPath, List.mem_singleton] at hc
      exact .inr (.inr hc)
    · rw [referencesTaken_leafPath] at hc
      exact absurd hc List.not_mem_nil
  simpa using hsub h

theorem acyclic_sharedManifests {root : String} (hroot : root ∈ [outerPath, innerPath, leafPath]) :
    Acyclic (referencesTaken sharedSerde sharedManifests "img") [root] := by
  refine acyclic_of_rank (fun path =>
    if path = outerPath then 2 else if path = innerPath then 1 else 0) fun p hp c hc => ?_
  rcases of_mem_below hroot hp with rfl | rfl | rfl
  · rw [referencesTaken_outerPath] at hc
    rcases List.mem_pair.mp hc with rfl | rfl <;> decide
  · rw [referencesTaken_innerPath, List.mem_singleton] at hc
    subst hc
    decide
  · rw [referencesTaken_leafPath] at hc
    exact absurd hc List.not_mem_nil

theorem allReadable_sharedManifests {root : String}
    (hroot : root ∈ [outerPath, innerPath, leafPath]) :
    AllReadable sharedSerde sharedManifests "img" root := by
  intro path hpath
  rcases of_mem_below hroot (mem_below_cons.mpr (.inl hpath)) with rfl | rfl | rfl
  · grind [observeObject_outerPath]
  · exact ⟨_, _, observeObject_innerPath, by simp⟩
  · exact ⟨_, _, observeObject_leafPath, by simp⟩

theorem reaches_leafPath
    (h : Reaches (referencesTaken sharedSerde sharedManifests "img") leafPath path) :
    path = leafPath := by
  rcases Relation.ReflTransGen.cases_head h with rfl | ⟨c, hc, -⟩
  · rfl
  · rw [referencesTaken_leafPath] at hc
    exact absurd hc List.not_mem_nil

/-- The rows of the inner index are written children first. -/
theorem writes_childrenFirst_innerPath : ∃ fuel objects,
    backfillManifestObjects sharedSerde sharedManifests fuel innerPath = some (.ok objects) ∧
    ChildrenFirst sharedSerde sharedManifests "img" innerPath
      ((rowWrites objects).map ObservedObject.path) := by
  refine (writes_childrenFirst_iff sharedSerde sharedManifests innerPath "img" "sha256:a"
    (by decide) (acyclic_sharedManifests (by simp))).mpr
    ⟨allReadable_sharedManifests (by simp), ?_⟩
  intro manifest hmanifest earlier later rest heq shared _ _ hshared
  have hnil : earlier = [] := by
    have hreach : Reaches (referencesTaken sharedSerde sharedManifests "img") innerPath manifest :=
      hmanifest
    rcases Relation.ReflTransGen.cases_head hreach with rfl | ⟨c, hc, hcm⟩
    · rw [referencesTaken_innerPath] at heq
      cases earlier with
      | nil => rfl
      | cons x earlier => simp at heq
    · rw [referencesTaken_innerPath, List.mem_singleton] at hc
      subst hc
      rw [reaches_leafPath hcm, referencesTaken_leafPath] at heq
      simp at heq
  exact absurd (hnil ▸ hshared) mem_below_nil

/-- The rows of the outer index are not: the one of the inner index comes before that of the
manifest they share. -/
theorem not_childrenFirst_outerPath :
    ¬ ∀ (serde : SerdeJson) (st : DynStorage) (root name reference : String),
      splitManifestCachePath root = some (name, reference) →
      Acyclic (referencesTaken serde st name) [root] → AllReadable serde st name root →
      ∃ fuel objects, backfillManifestObjects serde st fuel root = some (.ok objects) ∧
        ChildrenFirst serde st name root ((rowWrites objects).map ObservedObject.path) := by
  intro hall
  have hroot : splitManifestCachePath outerPath = some ("img", "latest") := by decide
  have hacyclic := @acyclic_sharedManifests outerPath (by simp)
  obtain ⟨fuel, objects, hwalk, hfirst⟩ := hall sharedSerde sharedManifests outerPath "img" "latest"
    hroot hacyclic (allReadable_sharedManifests (by simp))
  obtain ⟨-, hnested⟩ := readable_nested_of_childrenFirst hroot hacyclic hwalk hfirst
  -- the walk takes the shared manifest first
  have hinner : Reaches (referencesTaken sharedSerde sharedManifests "img") innerPath leafPath :=
    .head (referencesTaken_innerPath ▸ List.mem_singleton_self leafPath) .refl
  have hbelow := hnested outerPath .refl [leafPath] innerPath [] referencesTaken_outerPath leafPath
    (by rfl) hinner (mem_below_of_mem (List.mem_singleton_self leafPath))
  have hreach := (mem_below_cons.mp hbelow).resolve_right mem_below_nil
  exact absurd (reaches_leafPath hreach) (by decide)

end Pkgly.Docker
