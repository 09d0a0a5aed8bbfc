import Pkgly.Storage.StoragePath

/-!
# Correctness of the storage paths

`fromUntrusted` accepts the empty text, the text of the root and the texts of `Allowed`
(`isSome_fromUntrusted_iff`).  An accepted text is printed back (`toString'_of_fromUntrusted`), and
from any root its path leads below the root (`descend_of_fromUntrusted`).

A path that was made by `ofString`, `push`, `pushMut` and `parent` (`Built`) is not always equal to
the path of the text that it prints: the flag for a missing slash comes from the last text that was
pushed, and `ofString` looks at all components.  They agree unless the flag is unset while a
component has a dot (`ofString_toString'_iff`).
-/

namespace Pkgly.StoragePath

/-! ### Texts and their pieces -/

theorem toList_segments (sep : Char) (s : String) :
    (segments sep s).map String.toList = (s.toList.splitOn sep).filter (· ≠ []) := by
  rw [segments, List.map_map]
  simp

theorem exists_mem_splitOn {sep ch : Char} (hne : ch ≠ sep) {s : List Char} (h : ch ∈ s) :
    ∃ piece ∈ s.splitOn sep, ch ∈ piece := by
  induction s with
  | nil => cases h
  | cons c s ih =>
    rw [List.splitOn_cons_eq_if_modifyHead]
    split_ifs with hc
    · grind
    · cases hsplit : s.splitOn sep with
      | nil => exact absurd hsplit (List.splitOn_ne_nil _ _)
      | cons first rest =>
        aesop

variable {s : String} {path : StoragePath}

theorem exists_mem_segments {sep ch : Char} (hne : ch ≠ sep) (h : ch ∈ s.toList) :
    ∃ component ∈ segments sep s, ch ∈ component.toList := by
  obtain ⟨piece, hpiece, hmem⟩ := exists_mem_splitOn hne h
  refine ⟨String.ofList piece, List.mem_map_of_mem (List.mem_filter.mpr ⟨hpiece, ?_⟩), ?_⟩
  · simpa using List.ne_nil_of_mem hmem
  · rwa [String.toList_ofList]

theorem mem_of_mem_segments {sep ch : Char} {component : String}
    (hcomponent : component ∈ segments sep s) (h : ch ∈ component.toList) : ch ∈ s.toList := by
  have hpiece : component.toList ∈ (segments sep s).map String.toList :=
    List.mem_map_of_mem hcomponent
  rw [toList_segments] at hpiece
  have hjoin : [sep].intercalate (s.toList.splitOn sep) = s.toList := List.intercalate_splitOn sep
  rw [← hjoin, List.intercalate]
  refine List.mem_flatten.mpr ⟨component.toList, ?_, h⟩
  have hmem := (List.mem_filter.mp hpiece).1
  generalize s.toList.splitOn sep = pieces at hmem ⊢
  induction pieces with
  | nil => cases hmem
  | cons a pieces ih =>
    cases pieces with
    | nil => exact hmem
    | cons b pieces =>
      aesop

/-! ### Accepted texts -/

theorem hasDoubleSlash_iff {s : List Char} : hasDoubleSlash s = true ↔ ['/', '/'] <:+: s := by
  induction s with
  | nil => simp [hasDoubleSlash]
  | cons c s ih =>
    rw [List.infix_cons_iff, ← ih]
    constructor
    · intro h
      unfold hasDoubleSlash at h
      grind
    · rintro (⟨rest, hrest⟩ | h)
      · obtain ⟨rfl, rfl⟩ := List.cons.inj hrest
        rfl
      · unfold hasDoubleSlash
        grind

/-- A text of a relative path in its normal form, without characters that other systems take for
separators or ends. -/
structure Allowed (s : String) : Prop where
  slash_ne_head : s.toList.head? ≠ some '/'
  backslash_ne_head : s.toList.head? ≠ some '\\'
  noDoubleSlash : ¬ ['/', '/'] <:+: s.toList
  noBackslash : '\\' ∉ s.toList
  noNul : '\x00' ∉ s.toList
  noDot : "." ∉ segments '/' s
  noDotDot : ".." ∉ segments '/' s

theorem startsWith_singleton_iff (c : Char) (s : String) :
    startsWith (String.ofList [c]) s = true ↔ s.toList.head? = some c := by
  rw [startsWith_iff, String.toList_ofList]
  cases s.toList with
  | nil => simp
  | cons d l => simp [eq_comm]

/-- The components of a text are safe iff it has no bad character and no dots as a segment. -/
theorem validate_ofString_iff : (ofString s).validate = true ↔
    '\\' ∉ s.toList ∧ '\x00' ∉ s.toList ∧ "." ∉ segments '/' s ∧ ".." ∉ segments '/' s := by
  rw [validate, components_ofString, List.all_eq_true]
  constructor
  · intro h
    have hchar : ∀ ch : Char, ch = '\\' ∨ ch = '\x00' → ch ∉ s.toList := by
      intro ch hch hmem
      have hne : ch ≠ '/' := by rcases hch with rfl | rfl <;> decide
      obtain ⟨component, hcomponent, hin⟩ := exists_mem_segments hne hmem
      have hvalid := h component hcomponent
      rw [validComponent, Bool.and_eq_true, List.all_eq_true] at hvalid
      have hbad := hvalid.2 ch hin
      rcases hch with rfl | rfl
      · exact absurd hbad (by decide)
      · exact absurd hbad (by decide)
    exact ⟨hchar _ (.inl rfl), hchar _ (.inr rfl),
      fun hmem => absurd (h _ hmem) (by decide), fun hmem => absurd (h _ hmem) (by decide)⟩
  · rintro ⟨hbackslash, hnul, hdot, hdotdot⟩ component hcomponent
    have hne : ∀ bad : String, bad ∉ segments '/' s → component ≠ bad := by
      rintro bad hbad rfl
      exact hbad hcomponent
    rw [validComponent, Bool.and_eq_true, Bool.and_eq_true, bne_iff_ne, bne_iff_ne,
      List.all_eq_true]
    refine ⟨⟨hne _ hdot, hne _ hdotdot⟩, fun ch hch => ?_⟩
    have hmem := mem_of_mem_segments hcomponent hch
    aesop

theorem isSome_fromUntrusted_iff :
    (fromUntrusted s).isSome = true ↔ s = "" ∨ s = "/" ∨ Allowed s := by
  have hslash := startsWith_singleton_iff '/' s
  have hbackslash := startsWith_singleton_iff '\\' s
  rw [show String.ofList ['/'] = "/" by decide] at hslash
  rw [show String.ofList ['\\'] = "\\" by decide] at hbackslash
  unfold fromUntrusted
  split_ifs with hroot hbad hvalid
  · exact ⟨fun _ => by rcases hroot with h | h <;> simp [h], fun _ => rfl⟩
  · rw [Bool.or_eq_true, Bool.or_eq_true, hslash, hbackslash, hasDoubleSlash_iff] at hbad
    refine ⟨fun h => absurd h Bool.false_ne_true, fun h => ?_⟩
    obtain h | h | h := h
    · exact absurd (.inl h) hroot
    · exact absurd (.inr h) hroot
    · rcases hbad with (hbad | hbad) | hbad
      · exact absurd hbad h.slash_ne_head
      · exact absurd hbad h.backslash_ne_head
      · exact absurd hbad h.noDoubleSlash
  · rw [Bool.or_eq_true, Bool.or_eq_true, hslash, hbackslash, hasDoubleSlash_iff, not_or,
      not_or] at hbad
    obtain ⟨hnoBackslash, hnoNul, hnoDot, hnoDotDot⟩ := validate_ofString_iff.mp hvalid
    exact ⟨fun _ => .inr (.inr ⟨hbad.1.1, hbad.1.2, hbad.2, hnoBackslash, hnoNul, hnoDot,
      hnoDotDot⟩), fun _ => rfl⟩
  · refine ⟨fun h => absurd h Bool.false_ne_true, fun h => ?_⟩
    obtain h | h | h := h
    · exact absurd (.inl h) hroot
    · exact absurd (.inr h) hroot
    · exact absurd (validate_ofString_iff.mpr ⟨h.noBackslash, h.noNul, h.noDot, h.noDotDot⟩) hvalid

/-! ### Printing an accepted text -/

theorem intercalate_filter_pieces {pieces : List (List Char)}
    (hpieces : ∀ piece ∈ pieces, '/' ∉ piece)
    (hhead : (['/'].intercalate pieces).head? ≠ some '/')
    (hdouble : ¬ ['/', '/'] <:+: ['/'].intercalate pieces) :
    ['/'].intercalate (pieces.filter (· ≠ [])) ++
        (if ['/'].isSuffixOf (['/'].intercalate pieces) then ['/'] else []) =
      ['/'].intercalate pieces := by
  induction pieces with
  | nil => rfl
  | cons a pieces ih =>
    have ha : '/' ∉ a := hpieces a List.mem_cons_self
    have hone : ∀ l : List Char, ['/'].intercalate [l] = l := fun l => by simp [List.intercalate]
    cases pieces with
    | nil =>
      have hend : ¬ ['/'].isSuffixOf (['/'].intercalate [a]) = true := by
        rw [hone, List.isSuffixOf_iff_suffix]
        rintro ⟨front, hfront⟩
        exact ha (hfront ▸ List.mem_append_right _ (List.mem_singleton_self _))
      rw [if_neg hend, List.append_nil, hone]
      by_cases hnil : a = []
      · rw [hnil]
        rfl
      · rw [List.filter_cons_of_pos (by simpa using hnil), List.filter_nil, hone]
    | cons b pieces =>
      set rest := ['/'].intercalate (b :: pieces) with hrest
      have htext : ['/'].intercalate (a :: b :: pieces) = a ++ '/' :: rest := by
        simp [hrest, List.intercalate, List.intersperse_cons_cons]
      rw [htext] at hhead hdouble ⊢
      have hne : a ≠ [] := by
        rintro rfl
        exact hhead rfl
      have hrestHead : rest.head? ≠ some '/' := by
        intro h
        obtain ⟨tail, htail⟩ : ∃ tail, rest = '/' :: tail := by
          cases hcons : rest with
          | nil =>
            rw [hcons] at h
            cases h
          | cons c tail =>
            rw [hcons, List.head?_cons, Option.some.injEq] at h
            exact ⟨tail, by rw [h]⟩
        exact hdouble ⟨a, tail, by rw [htail]; simp⟩
      have hrestDouble : ¬ ['/', '/'] <:+: rest := by grind [List.suffix_cons, List.suffix_append]
      have hih := ih (fun p hp => hpieces p (List.mem_cons_of_mem a hp)) hrestHead hrestDouble
      rw [List.filter_cons_of_pos (by simpa using hne)]
      by_cases hnil : rest = []
      · -- the text ends in the slash after `a`
        have hfilter : (b :: pieces).filter (· ≠ []) = [] := by
          have hjoined : ['/'].intercalate ((b :: pieces).filter (· ≠ [])) = [] := by
            rw [hnil] at hih
            exact (List.append_eq_nil_iff.mp hih).1
          cases hcons : (b :: pieces).filter (· ≠ []) with
          | nil => rfl
          | cons c tail =>
            have hmem : c ∈ (b :: pieces).filter (· ≠ []) := hcons ▸ List.mem_cons_self
            have hc : c ≠ [] := by simpa using (List.mem_filter.mp hmem).2
            rw [hcons] at hjoined
            cases tail with
            | nil =>
              rw [hone] at hjoined
              exact absurd hjoined hc
            | cons d tail =>
              simp_all
        grind
      · have hend : ['/'].isSuffixOf (a ++ '/' :: rest) = ['/'].isSuffixOf rest := by
          rw [Bool.eq_iff_iff, List.isSuffixOf_iff_suffix, List.isSuffixOf_iff_suffix]
          constructor
          · intro h
            have hsuffix : rest <:+ a ++ '/' :: rest :=
              (List.suffix_cons _ _).trans (List.suffix_append _ _)
            refine List.suffix_of_suffix_length_le h hsuffix ?_
            exact List.length_pos_iff.mpr hnil
          · intro h
            exact h.trans ((List.suffix_cons _ _).trans (List.suffix_append _ _))
        have hfilter : ∃ c tail, (b :: pieces).filter (· ≠ []) = c :: tail := by
          cases hcons : (b :: pieces).filter (· ≠ []) with
          | nil =>
            rw [hcons] at hih
            -- nothing but slashes is left, and the first of them would double the one before
            split_ifs at hih
            · rw [← hih] at hrestHead
              exact absurd rfl hrestHead
            · exact absurd hih.symm hnil
          | cons c tail => exact ⟨c, tail, rfl⟩
        obtain ⟨c, tail, hfilter⟩ := hfilter
        grind [List.intercalate, List.intersperse_cons_cons, List.append_assoc]

theorem toString'_ofString_of_noDoubleSlash (hstart : s.toList.head? ≠ some '/')
    (hnone : ¬ ['/', '/'] <:+: s.toList) : (ofString s).toString' = s := by
  have hjoin : ['/'].intercalate (s.toList.splitOn '/') = s.toList := List.intercalate_splitOn '/'
  have hpieces := intercalate_filter_pieces (fun piece hpiece => notMem_of_mem_splitOn hpiece)
    (hjoin.symm ▸ hstart) (hjoin.symm ▸ hnone)
  rw [hjoin] at hpieces
  rw [← String.toList_inj, toString', isDirectory_ofString, endsWith, components_ofString,
    String.toList_append, String.toList_intercalate, toList_segments]
  rw [show ("/" : String).toList = ['/'] by decide]
  refine Eq.trans ?_ hpieces
  split_ifs <;> simp

theorem Allowed.toString'_ofString (h : Allowed s) : (ofString s).toString' = s :=
  toString'_ofString_of_noDoubleSlash h.slash_ne_head h.noDoubleSlash

theorem toString'_of_fromUntrusted (h : fromUntrusted s = some path) : path.toString' = s := by
  obtain ⟨rfl, -⟩ := validate_of_fromUntrusted h
  have hsome : (fromUntrusted s).isSome = true := by rw [h]; rfl
  obtain rfl | rfl | hallowed := isSome_fromUntrusted_iff.mp hsome
  · decide
  · decide
  · exact hallowed.toString'_ofString

/-! ### Below a root -/

/-- Where the components lead: a dot stays, and two dots go up. -/
def descend (dir : List String) (components : List String) : List String :=
  components.foldl (fun dir component =>
    if component = "." then dir
    else if component = ".." then dir.dropLast
    else dir ++ [component]) dir

theorem descend_of_validate {components : List String}
    (h : components.all validComponent = true) (root : List String) :
    descend root components = root ++ components := by
  induction components generalizing root with
  | nil => exact (List.append_nil root).symm
  | cons component components ih =>
    rw [List.all_cons, Bool.and_eq_true] at h
    have hdots : component ≠ "." ∧ component ≠ ".." := by
      rw [validComponent, Bool.and_eq_true, Bool.and_eq_true, bne_iff_ne, bne_iff_ne] at h
      exact h.1.1
    have hstep : descend root (component :: components) =
        descend (root ++ [component]) components := by
      rw [descend, List.foldl_cons, if_neg hdots.1, if_neg hdots.2]
      rfl
    rw [hstep, ih h.2, List.append_assoc, List.singleton_append]

theorem descend_of_fromUntrusted (h : fromUntrusted s = some path) (root : List String) (n : ℕ) :
    root <+: descend root (path.components.take n) := by
  have hvalid : (path.components.take n).all validComponent = true := by
    rw [List.all_eq_true]
    intro component hcomponent
    exact List.all_eq_true.mp (validate_of_fromUntrusted h).2 component
      (List.mem_of_mem_take hcomponent)
  rw [descend_of_validate hvalid]
  exact List.prefix_append _ _

/-! ### Constructed paths -/

def pushMut (path : StoragePath) (component : String) : StoragePath where
  components := path.components ++ (ofString component).components
  trailingSlash := (ofString component).trailingSlash

inductive Built : StoragePath → Prop
  | ofString (value : String) : Built (ofString value)
  | push {path : StoragePath} (h : Built path) (component : String) : Built (path.push component)
  | pushMut {path : StoragePath} (h : Built path) (component : String) :
    Built (path.pushMut component)
  | parent {path : StoragePath} (h : Built path) : Built path.parent

theorem shouldAddSlash_cases (value : String) :
    shouldAddSlash value = some true ∨
      shouldAddSlash value = some false ∧ '.' ∈ value.toList ∨
      shouldAddSlash value = none := by
  unfold shouldAddSlash
  grind

/-- The invariant of the constructions: a flag for a file is there for a dot. -/
structure Consistent (path : StoragePath) : Prop where
  wellFormed : path.WellFormed
  dot : path.trailingSlash = some false → ∃ component ∈ path.components, '.' ∈ component.toList

theorem exists_dot_of_shouldAddSlash {value : String} (h : shouldAddSlash value = some false) :
    ∃ component ∈ segments '/' value, '.' ∈ component.toList := by
  rcases shouldAddSlash_cases value with hflag | ⟨-, hdot⟩ | hflag
  · rw [hflag] at h
    cases h
  · exact exists_mem_segments (by decide) hdot
  · rw [hflag] at h
    cases h

theorem consistent_ofString (value : String) : (ofString value).Consistent :=
  ⟨wellFormed_ofString value, fun h => exists_dot_of_shouldAddSlash h⟩

theorem Consistent.push (h : path.Consistent) (component : String) :
    (path.push component).Consistent := by
  refine ⟨h.wellFormed.push component, fun hflag => ?_⟩
  obtain ⟨c, hc, hdot⟩ := exists_dot_of_shouldAddSlash hflag
  exact ⟨c, List.mem_append_right _ hc, hdot⟩

theorem Consistent.parent (h : path.Consistent) : path.parent.Consistent :=
  ⟨h.wellFormed.parent, fun hflag => by cases hflag⟩

theorem Built.consistent (h : Built path) : path.Consistent := by
  induction h with
  | ofString value => exact consistent_ofString value
  | push _ component ih => exact ih.push component
  | pushMut _ component ih => exact ih.push component
  | parent _ ih => exact ih.parent

theorem dot_mem_toString'_iff (h : path.WellFormed) :
    '.' ∈ path.toString'.toList ↔ ∃ component ∈ path.components, '.' ∈ component.toList := by
  constructor
  · intro hdot
    have hne : '.' ≠ '/' := by decide
    have hpieces := exists_mem_segments hne hdot
    rwa [h.segments_toString'] at hpieces
  · rintro ⟨component, hcomponent, hdot⟩
    rw [← h.segments_toString'] at hcomponent
    exact mem_of_mem_segments hcomponent hdot

theorem shouldAddSlash_toString' (h : path.WellFormed) : shouldAddSlash path.toString' =
      if path.isDirectory then some true
      else if ∃ component ∈ path.components, '.' ∈ component.toList then some false
      else none := by
  have hdirectory := h.isDirectory_toString'
  rw [isDirectory_ofString] at hdirectory
  rw [shouldAddSlash, hdirectory]
  simp only [dot_mem_toString'_iff h]

/-- A path equals the path of its text unless its flag is unset while a component has a dot. -/
theorem ofString_toString'_iff (h : Built path) : ofString path.toString' = path ↔
      (path.trailingSlash = none → ∀ component ∈ path.components, '.' ∉ component.toList) := by
  obtain ⟨hwf, hdot⟩ := h.consistent
  have hcomponents : (ofString path.toString').components = path.components :=
    hwf.segments_toString'
  have heq : ofString path.toString' = path ↔
      shouldAddSlash path.toString' = path.trailingSlash := by
    constructor
    · intro h
      exact congrArg StoragePath.trailingSlash h
    · simp_all [ofString]
  rw [heq, shouldAddSlash_toString' hwf, isDirectory]
  cases hflag : path.trailingSlash with
  | none =>
    simp
  | some flag =>
    aesop

/-! ### The paths as a whole -/

/-- What a text must be to be accepted, what the accepted path prints and where it leads; and for
which constructed paths the printed text gives an equal path. -/
theorem fromUntrusted_and_ofString_toString' (s : String) (path : StoragePath) :
    (((fromUntrusted s).isSome = true ↔ s = "" ∨ s = "/" ∨ Allowed s) ∧
      ∀ accepted, fromUntrusted s = some accepted →
        accepted.toString' = s ∧
        ∀ (root : List String) (n : ℕ),
          root <+: descend root (accepted.components.take n)) ∧
    (Built path →
      (ofString path.toString' = path ↔
        (path.trailingSlash = none → ∀ component ∈ path.components, '.' ∉ component.toList))) :=
  ⟨⟨isSome_fromUntrusted_iff, fun _ h =>
    ⟨toString'_of_fromUntrusted h, descend_of_fromUntrusted h⟩⟩, ofString_toString'_iff⟩

/-- An accepted path, and a constructed one. -/
theorem fromUntrusted_and_ofString_toString'_jar :
    (ofString "a/b.jar").toString' = "a/b.jar" ∧
      ofString ((ofString "a").push "b.jar").toString' = (ofString "a").push "b.jar" := by
  let jar := "a/b.jar"
  let pushed := (ofString "a").push "b.jar"
  have h := fromUntrusted_and_ofString_toString' jar pushed
  exact ⟨(h.1.2 (ofString jar) (by decide)).1,
    (h.2 (.push (.ofString "a") "b.jar")).mpr (by decide)⟩

/-- Below a directory with a dot the flag of a pushed name is unset. -/
theorem not_ofString_toString'_push : ¬ ∀ path : StoragePath, Built path →
    ofString path.toString' = path := by
  intro h
  exact absurd (h _ (.push (.ofString "v1.0") "list")) (by decide)

end Pkgly.StoragePath
