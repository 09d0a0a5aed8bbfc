import Pkgly.Algorithm.Text

/-!
# Storage paths

`StoragePath` is a list of non-empty components and the mark of a trailing slash.  `ofString`
drops empty components, so a path is not recovered from the text it was built from, only from
the text it prints (`toString'`).  The components of a text cut at a slash are those of the two
sides (`components_ofString_append`), which is how the paths the handlers format are read.
-/

namespace Pkgly

structure StoragePath where
  components : List String
  trailingSlash : Option Bool
deriving DecidableEq, Repr

namespace StoragePath

def shouldAddSlash (component : String) : Option Bool :=
  if endsWith "/" component then some true
  else if '.' ∈ component.toList then some false
  else none

/-- `impl From<&str> for StoragePath`. -/
def ofString (value : String) : StoragePath where
  components := segments '/' value
  trailingSlash := shouldAddSlash value

def isDirectory (path : StoragePath) : Bool := path.trailingSlash == some true

def push (path : StoragePath) (component : String) : StoragePath where
  components := path.components ++ (ofString component).components
  trailingSlash := (ofString component).trailingSlash

/-- `StoragePath::parent`, which is always a directory. -/
def parent (path : StoragePath) : StoragePath where
  components := path.components.dropLast
  trailingSlash := some true

/-- `impl Display for StoragePath`. -/
def toString' (path : StoragePath) : String :=
  String.intercalate "/" path.components ++ if path.isDirectory then "/" else ""

/-- The check of `StoragePath::validate` on one component. -/
def validComponent (component : String) : Bool :=
  component != "." && component != ".." &&
    component.toList.all fun c => c != '\\' && c != '\x00'

def validate (path : StoragePath) : Bool := path.components.all validComponent

/-- The text contains two slashes in a row. -/
def hasDoubleSlash : List Char → Bool
  | '/' :: '/' :: _ => true
  | _ :: s => hasDoubleSlash s
  | [] => false

/-- `StoragePath::from_untrusted`; `none` is `InvalidStoragePath`. -/
def fromUntrusted (value : String) : Option StoragePath :=
  if value = "" ∨ value = "/" then some (ofString value)
  else if startsWith "/" value || startsWith "\\" value || hasDoubleSlash value.toList then none
  else if (ofString value).validate then some (ofString value) else none

/-- The components of a path are non-empty and have no slashes (`StoragePathComponent`). -/
def WellFormed (path : StoragePath) : Prop :=
  ∀ component ∈ path.components, component.toList ≠ [] ∧ '/' ∉ component.toList

instance (path : StoragePath) : Decidable path.WellFormed :=
  inferInstanceAs (Decidable (∀ component ∈ path.components, _))

theorem wellFormed_ofString (value : String) : (ofString value).WellFormed := fun _ h =>
  ⟨ne_empty_of_mem_segments h, notMem_of_mem_segments h⟩

variable {path : StoragePath}

theorem WellFormed.push (h : path.WellFormed) (component : String) :
    (path.push component).WellFormed := by
  intro c hc
  rcases List.mem_append.mp hc with hc | hc
  · exact h c hc
  · exact wellFormed_ofString component c hc

theorem WellFormed.parent (h : path.WellFormed) : path.parent.WellFormed :=
  fun c hc => h c (List.mem_of_mem_dropLast hc)

/-- What an accepted external path is: the path of its text, all components being safe. -/
theorem validate_of_fromUntrusted {value : String}
    (h : fromUntrusted value = some path) : path = ofString value ∧ path.validate = true := by
  unfold fromUntrusted at h
  split_ifs at h with hroot hbad hval
  · obtain rfl := Option.some.inj h
    refine ⟨rfl, ?_⟩
    rcases hroot with rfl | rfl <;> decide
  · obtain rfl := Option.some.inj h
    exact ⟨rfl, hval⟩

@[simp] theorem components_ofString (value : String) :
    (ofString value).components = segments '/' value := rfl

theorem segments_slash (a b : String) :
    segments '/' (a ++ ("/" ++ b)) = segments '/' a ++ segments '/' b :=
  segments_append '/' a b

theorem validate_slash {a b : String} : (ofString (a ++ ("/" ++ b))).validate =
    ((ofString a).validate && (ofString b).validate) := by
  rw [validate, components_ofString, segments_slash, List.all_append]
  rfl

theorem WellFormed.segments_toString' (h : path.WellFormed) :
    segments '/' path.toString' = path.components := by
  have hjoin : ∀ components : List String,
      (∀ component ∈ components, component.toList ≠ [] ∧ '/' ∉ component.toList) →
      segments '/' (String.intercalate "/" components) = components := by
    intro components hwf
    induction components with
    | nil => rw [String.intercalate_nil, segments_empty]
    | cons a rest ih =>
      obtain ⟨hne, hsep⟩ := hwf a List.mem_cons_self
      have hrest := ih fun b hb => hwf b (List.mem_cons_of_mem a hb)
      cases rest with
      | nil => rw [String.intercalate_singleton, segments_eq_singleton hsep hne]
      | cons b rest =>
        rw [String.intercalate_cons_cons, String.append_assoc, segments_slash, hrest,
          segments_eq_singleton hsep hne]
        rfl
  rw [toString']
  split_ifs
  · have hslash : String.intercalate "/" path.components ++ "/" =
        String.intercalate "/" path.components ++ ("/" ++ "") := by rw [String.append_empty]
    rw [hslash, segments_slash, segments_empty, List.append_nil, hjoin path.components h]
  · rw [String.append_empty, hjoin path.components h]

theorem isDirectory_ofString (value : String) :
    (ofString value).isDirectory = endsWith "/" value := by
  grind [isDirectory, ofString, shouldAddSlash, endsWith]

theorem isDirectory_append (a : String) {b : String} (hne : b.toList ≠ [])
    (hlast : b.toList.getLast? ≠ some '/') : (ofString (a ++ b)).isDirectory = false := by
  rw [isDirectory_ofString, ← Bool.not_eq_true, endsWith, List.isSuffixOf_iff_suffix]
  rintro ⟨front, hfront⟩
  grind [List.getLast?_append_of_ne_nil, String.toList_append, List.getLast?_concat]

theorem WellFormed.isDirectory_toString' (h : path.WellFormed) :
    (ofString path.toString').isDirectory = path.isDirectory := by
  rw [isDirectory_ofString]
  cases hdirectory : path.isDirectory with
  | true =>
    rw [toString', hdirectory, if_pos rfl, endsWith, String.toList_append]
    exact List.isSuffixOf_iff_suffix.mpr (List.suffix_append _ _)
  | false =>
    rw [toString', hdirectory, if_neg Bool.false_ne_true, String.append_empty,
      ← Bool.not_eq_true, endsWith]
    intro hslash
    have hlast : (String.intercalate "/" path.components).toList.getLast? = some '/' := by
      obtain ⟨stem, hstem⟩ := List.isSuffixOf_iff_suffix.mp hslash
      rw [← hstem, show ("/" : String).toList = ['/'] by decide, List.getLast?_concat]
    have hjoin : ∀ components : List String, components ≠ [] →
        (∀ component ∈ components, component.toList ≠ [] ∧ '/' ∉ component.toList) →
        ∃ ch, (String.intercalate "/" components).toList.getLast? = some ch ∧ ch ≠ '/' := by
      intro components hne hwf
      induction components with
      | nil => exact absurd rfl hne
      | cons a rest ih =>
        obtain ⟨ha, hsep⟩ := hwf a List.mem_cons_self
        cases rest with
        | nil =>
          rw [String.intercalate_singleton]
          refine ⟨a.toList.getLast ha, List.getLast?_eq_some_getLast ha, fun heq => hsep ?_⟩
          rw [← heq]
          exact List.getLast_mem ha
        | cons b rest =>
          obtain ⟨ch, hch, hslash⟩ := ih (List.cons_ne_nil b rest)
            fun b hb => hwf b (List.mem_cons_of_mem a hb)
          have hnil : (String.intercalate "/" (b :: rest)).toList ≠ [] := by
            intro hnil
            rw [hnil] at hch
            cases hch
          grind [String.intercalate_cons_cons, String.toList_append, List.getLast?_append_of_ne_nil]
    have hne : path.components ≠ [] := by
      intro hnil
      rw [hnil, String.intercalate_nil] at hlast
      cases hlast
    obtain ⟨ch, hch, hslash⟩ := hjoin path.components hne h
    exact hslash (Option.some.inj (hch.symm.trans hlast))

theorem WellFormed.toString'_ofString (h : path.WellFormed) :
    (ofString path.toString').toString' = path.toString' := by
  have hcomponents : (ofString path.toString').components = path.components :=
    h.segments_toString'
  rw [toString', hcomponents, h.isDirectory_toString']
  rfl

theorem ofString_intercalate {names : List String}
    (h : ∀ s ∈ names, s.toList ≠ [] ∧ '/' ∉ s.toList) :
    (ofString ("/".intercalate names)).components = names ∧
      (ofString ("/".intercalate names)).toString' = "/".intercalate names ∧
      (ofString ("/".intercalate names)).isDirectory = false := by
  have hwf : (⟨names, none⟩ : StoragePath).WellFormed := h
  have htext : (⟨names, none⟩ : StoragePath).toString' = "/".intercalate names :=
    String.append_empty
  rw [← htext]
  exact ⟨hwf.segments_toString', hwf.toString'_ofString, hwf.isDirectory_toString'⟩

theorem exists_of_isDirectory {value : String} (h : (ofString value).isDirectory = true) :
    ∃ stem, value = stem ++ "/" := by
  have hend : endsWith "/" value = true := by grind [isDirectory, ofString, shouldAddSlash]
  obtain ⟨stem, hstem⟩ := List.isSuffixOf_iff_suffix.mp hend
  refine ⟨String.ofList stem, String.toList_inj.mp ?_⟩
  rw [String.toList_append, String.toList_ofList, hstem]

theorem hasDoubleSlash_of_notMem {s : List Char} (h : '/' ∉ s) : hasDoubleSlash s = false := by
  induction s with
  | nil => rfl
  | cons c s ih =>
    obtain ⟨hc, hs⟩ := List.ne_and_not_mem_of_not_mem_cons h
    rw [hasDoubleSlash, ih hs]
    rintro rest heq -
    exact hc heq.symm

/-- A slash between two texts is a single one, unless the second starts with another. -/
theorem hasDoubleSlash_append {a b : List Char} (ha : '/' ∉ a) (hb : b.head? ≠ some '/')
    (h : hasDoubleSlash b = false) : hasDoubleSlash (a ++ '/' :: b) = false := by
  induction a with
  | nil =>
    rw [List.nil_append, hasDoubleSlash, h]
    rintro rest - rfl
    exact hb rfl
  | cons c a ih =>
    obtain ⟨hc, ha⟩ := List.ne_and_not_mem_of_not_mem_cons ha
    rw [List.cons_append, hasDoubleSlash, ih ha]
    rintro rest heq -
    exact hc heq.symm

/-- The text of some components starts as the first of them does, and has no empty piece. -/
theorem join_components {a : String} {rest : List String}
    (h : ∀ component ∈ a :: rest, component.toList ≠ [] ∧ '/' ∉ component.toList) :
    (String.intercalate "/" (a :: rest)).toList.head? = a.toList.head? ∧
      hasDoubleSlash (String.intercalate "/" (a :: rest)).toList = false := by
  induction rest generalizing a with
  | nil =>
    rw [String.intercalate_singleton]
    exact ⟨rfl, hasDoubleSlash_of_notMem (h a List.mem_cons_self).2⟩
  | cons b rest ih =>
    obtain ⟨hne, hslash⟩ := h a List.mem_cons_self
    obtain ⟨hhead, hdouble⟩ := ih fun c hc => h c (List.mem_cons_of_mem a hc)
    obtain ⟨-, hbslash⟩ := h b (List.mem_cons_of_mem a List.mem_cons_self)
    rw [String.intercalate_cons_cons, String.toList_append, String.toList_append, List.append_assoc,
      show ("/" : String).toList = ['/'] by decide, List.singleton_append]
    grind [List.head?_append_of_ne_nil, hasDoubleSlash_append, List.mem_of_head?]

theorem WellFormed.fromUntrusted_toString' (h : path.WellFormed)
    (hvalid : path.validate = true) (hfile : path.isDirectory = false) :
    fromUntrusted path.toString' = some (ofString path.toString') := by
  have htext : path.toString' = String.intercalate "/" path.components := by
    rw [toString', hfile, if_neg Bool.false_ne_true, String.append_empty]
  unfold fromUntrusted
  split_ifs with hroot hbad hval
  · rfl
  · refine absurd hbad ?_
    cases hc : path.components with
    | nil =>
      rw [htext, hc]
      decide
    | cons a rest =>
      have hwf : ∀ component ∈ a :: rest, component.toList ≠ [] ∧ '/' ∉ component.toList := by
        rw [← hc]
        exact h
      obtain ⟨hhead, hdouble⟩ := join_components hwf
      obtain ⟨-, hslash⟩ := hwf a List.mem_cons_self
      have hbackslash : '\\' ∉ a.toList := by
        intro hmem
        rw [validate, hc, List.all_cons, Bool.and_eq_true, validComponent,
          Bool.and_eq_true] at hvalid
        have hch := List.all_eq_true.mp hvalid.1.2 _ hmem
        simp at hch
      have hstarts : ∀ ch : Char, ch ∉ a.toList →
          startsWith (String.ofList [ch]) path.toString' = false := by
        intro ch hch
        rw [← Bool.not_eq_true, startsWith_iff, String.toList_ofList, htext, hc]
        rintro ⟨tail, htail⟩
        rw [← htail] at hhead
        exact hch (List.mem_of_head? hhead.symm)
      grind
  · rfl
  · refine absurd ?_ hval
    rw [validate, components_ofString, h.segments_toString']
    exact hvalid

end StoragePath

end Pkgly
