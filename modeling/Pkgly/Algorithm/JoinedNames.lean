import Pkgly.Algorithm.Text

/-!
# Names joined with slashes

The text `joined names` of a list of names, and the text `dirText names` of the directory that they
lead to, which ends with a slash.  Names are not empty and have no slashes, so the texts determine
the names: a directory's text is a prefix of that of a path exactly when its names are the first
ones of the path (`dirText_prefix_iff`), and a text that is cut at a name between slashes is cut
between names (`splitOnce_joined`).
-/

namespace Pkgly

def AreNames (names : List String) : Prop := ∀ s ∈ names, s.toList ≠ [] ∧ '/' ∉ s.toList

def joined (names : List String) : List Char := ("/".intercalate names).toList

def dirText (names : List String) : List Char := names.flatMap fun s => s.toList ++ ['/']

theorem AreNames.head {a : String} {names : List String} (h : AreNames (a :: names)) :
    a.toList ≠ [] ∧ '/' ∉ a.toList :=
  h a List.mem_cons_self

theorem AreNames.tail {a : String} {names : List String} (h : AreNames (a :: names)) :
    AreNames names :=
  fun s hs => h s (List.mem_cons_of_mem a hs)

variable {ys names : List String}

theorem areNames_append {xs : List String} : AreNames (xs ++ ys) ↔ AreNames xs ∧ AreNames ys := by
  grind [AreNames, List.mem_append_left, List.mem_append_right]

theorem areNames_cons {a : String} :
    AreNames (a :: names) ↔ (a.toList ≠ [] ∧ '/' ∉ a.toList) ∧ AreNames names := by
  unfold AreNames
  simp only [List.mem_cons, forall_eq_or_imp]

@[simp] theorem joined_nil : joined [] = [] := rfl

@[simp] theorem joined_singleton (a : String) : joined [a] = a.toList := by
  rw [joined, String.intercalate_singleton]

theorem joined_cons (a : String) (h : names ≠ []) :
    joined (a :: names) = a.toList ++ '/' :: joined names := by
  obtain ⟨b, names, rfl⟩ := List.exists_cons_of_ne_nil h
  rw [joined, String.intercalate_cons_cons, String.toList_append, String.toList_append, joined,
    List.append_assoc]
  rfl

@[simp] theorem dirText_nil : dirText [] = [] := rfl

@[simp] theorem dirText_cons (a : String) (names : List String) :
    dirText (a :: names) = a.toList ++ '/' :: dirText names := by
  rw [dirText, List.flatMap_cons, List.append_assoc]
  rfl

theorem dirText_append (xs ys : List String) : dirText (xs ++ ys) = dirText xs ++ dirText ys :=
  List.flatMap_append

theorem joined_append (xs : List String) (h : ys ≠ []) :
    joined (xs ++ ys) = dirText xs ++ joined ys := by
  induction xs with
  | nil => rfl
  | cons a xs ih =>
    rw [List.cons_append, joined_cons a (List.append_ne_nil_of_right_ne_nil xs h), ih,
      dirText_cons, List.append_assoc, List.cons_append]

theorem joined_ne_nil (h : AreNames names) (hne : names ≠ []) : joined names ≠ [] := by
  obtain ⟨a, names, rfl⟩ := List.exists_cons_of_ne_nil hne
  rcases names with _ | ⟨b, names⟩
  · rw [joined_singleton]
    exact h.head.1
  · rw [joined_cons a (List.cons_ne_nil b names)]
    exact List.append_ne_nil_of_left_ne_nil h.head.1 _

theorem eq_of_append_slash {a b : String} {x y : List Char} (ha : '/' ∉ a.toList)
    (hb : '/' ∉ b.toList) (h : a.toList ++ '/' :: x = b.toList ++ '/' :: y) : a = b ∧ x = y := by
  have hcut := @splitOnce_append '/' [] a.toList ha x
  have hcut' := @splitOnce_append '/' [] b.toList hb y
  grind [Prod.mk.inj, Option.some.inj, String.toList_injective]

theorem dirText_prefix_iff {dir : List String} (hdir : AreNames dir)
    (hnames : AreNames names) (hne : names ≠ []) :
    dirText dir <+: joined names ↔ ∃ rest, rest ≠ [] ∧ names = dir ++ rest := by
  constructor
  · rintro ⟨tail, htail⟩
    induction dir generalizing names with
    | nil => exact ⟨names, hne, rfl⟩
    | cons a dir ih =>
      obtain ⟨b, names, rfl⟩ := List.exists_cons_of_ne_nil hne
      rw [dirText_cons, List.append_assoc, List.cons_append] at htail
      by_cases hlast : names = []
      · -- the last name has no slash
        subst hlast
        rw [joined_singleton] at htail
        exact absurd (htail ▸ List.mem_append_right _ List.mem_cons_self) hnames.head.2
      · rw [joined_cons b hlast] at htail
        obtain ⟨rfl, hbelow⟩ := eq_of_append_slash hdir.head.2 hnames.head.2 htail
        obtain ⟨rest, hrest, rfl⟩ := ih hdir.tail hnames.tail hlast hbelow
        exact ⟨rest, hrest, rfl⟩
  · rintro ⟨rest, hrest, rfl⟩
    rw [joined_append dir hrest]
    exact List.prefix_append _ _

theorem dirText_prefix_iff_of_ne {dir : List String} (hdir : AreNames dir)
    (hnames : AreNames names) (hne : dir ≠ []) :
    dirText dir <+: joined names ↔ ∃ rest, rest ≠ [] ∧ names = dir ++ rest := by
  by_cases hnil : names = []
  · obtain ⟨a, dir, rfl⟩ := List.exists_cons_of_ne_nil hne
    simp [hnil]
  · exact dirText_prefix_iff hdir hnames hnil

theorem dirText_injective {xs : List String} (hxs : AreNames xs) (hys : AreNames ys)
    (h : dirText xs = dirText ys) : xs = ys := by
  induction xs generalizing ys with
  | nil =>
    cases ys with
    | nil => rfl
    | cons b ys => simp at h
  | cons a xs ih =>
    cases ys with
    | nil => simp at h
    | cons b ys =>
      rw [dirText_cons, dirText_cons] at h
      obtain ⟨rfl, hrest⟩ := eq_of_append_slash hxs.head.2 hys.head.2 h
      rw [ih hxs.tail hys.tail hrest]

theorem dirText_eq (h : names ≠ []) : dirText names = joined names ++ ['/'] := by
  induction names with
  | nil => exact absurd rfl h
  | cons a names ih =>
    by_cases hlast : names = []
    · rw [hlast, dirText_cons, dirText_nil, joined_singleton]
    · rw [dirText_cons, ih hlast, joined_cons a hlast, List.append_assoc, List.cons_append]

theorem joined_injective {xs : List String} (hxs : AreNames xs) (hys : AreNames ys)
    (h : joined xs = joined ys) : xs = ys := by
  by_cases hnil : xs = []
  · grind [joined_nil, joined_ne_nil]
  · have hnil' : ys ≠ [] := by
      rintro rfl
      exact joined_ne_nil hxs hnil h
    refine dirText_injective hxs hys ?_
    rw [dirText_eq hnil, dirText_eq hnil', h]

/-- The first slash of a path is behind its first name. -/
theorem splitOnce_slash {a : String} (h : AreNames (a :: names)) :
    splitOnce ['/'] (joined (a :: names)) =
      if names = [] then none else some (a.toList, joined names) := by
  by_cases hlast : names = []
  · rw [if_pos hlast, hlast, joined_singleton]
    exact splitOnce_eq_none h.head.2
  · rw [if_neg hlast, joined_cons a hlast]
    exact @splitOnce_append '/' [] a.toList h.head.2 (joined names)

theorem pieces_joined (h : AreNames names) (hne : names ≠ []) :
    pieces '/' ("/".intercalate names) = names := by
  induction names with
  | nil => exact absurd rfl hne
  | cons a names ih =>
    cases names with
    | nil => rw [String.intercalate_singleton, pieces_eq_singleton h.head.2]
    | cons b names =>
      have hslash : String.ofList ['/'] = "/" := rfl
      rw [String.intercalate_cons_cons, String.append_assoc, ← hslash, pieces_append,
        pieces_eq_singleton h.head.2, hslash, ih h.tail (List.cons_ne_nil b names)]
      rfl

/-! ### Ends of paths -/

theorem suffix_slash_iff {text x y : List Char} (htext : '/' ∉ text) :
    text <:+ x ++ '/' :: y ↔ text <:+ y := by
  constructor
  · intro h
    rcases List.suffix_or_suffix_of_suffix h (List.suffix_append x ('/' :: y)) with hshort | hlong
    · rcases List.suffix_cons_iff.mp hshort with rfl | hy
      · exact absurd List.mem_cons_self htext
      · exact hy
    · exact absurd (hlong.subset List.mem_cons_self) htext
  · exact fun h => (h.trans (List.suffix_cons '/' y)).trans (List.suffix_append x _)

/-- A text without slashes that ends a path ends its last name. -/
theorem suffix_joined_iff {text : List Char} (htext : '/' ∉ text) (dir : List String)
    (last : String) : text <:+ joined (dir ++ [last]) ↔ text <:+ last.toList := by
  by_cases hdir : dir = []
  · rw [hdir, List.nil_append, joined_singleton]
  · rw [joined_append dir (List.cons_ne_nil last []), joined_singleton, dirText_eq hdir,
      List.append_assoc, List.singleton_append]
    exact suffix_slash_iff htext

/-- A text with a slash at its end that ends a directory ends its last name with it. -/
theorem suffix_dirText_iff {text : List Char} (htext : '/' ∉ text) (dir : List String)
    (last : String) : text ++ ['/'] <:+ dirText (dir ++ [last]) ↔ text <:+ last.toList := by
  rw [dirText_eq (List.append_ne_nil_of_right_ne_nil dir (List.cons_ne_nil last [])),
    ← suffix_joined_iff htext dir last]
  constructor
  · rintro ⟨front, hfront⟩
    rw [← List.append_assoc] at hfront
    exact ⟨front, List.append_cancel_right hfront⟩
  · rintro ⟨front, hfront⟩
    exact ⟨front, by rw [← List.append_assoc, hfront]⟩

/-! ### The first occurrence of a name -/

/-- The names before and after the first occurrence of `mark` that has names on both sides. -/
def cutAt (mark : String) : List String → Option (List String × List String)
  | a :: b :: names =>
    if b = mark ∧ names ≠ [] then some ([a], names)
    else (cutAt mark (b :: names)).map fun r => (a :: r.1, r.2)
  | _ => none

theorem cutAt_eq_some_iff {mark : String} {front back : List String} :
    cutAt mark names = some (front, back) ↔
      names = front ++ mark :: back ∧ front ≠ [] ∧ back ≠ [] ∧ mark ∉ front.tail := by
  induction names generalizing front with
  | nil => simp [cutAt]
  | cons a names ih =>
    cases names with
    | nil =>
      simp only [cutAt, reduceCtorEq, false_iff, not_and]
      intro h hfront
      obtain ⟨x, front, rfl⟩ := List.exists_cons_of_ne_nil hfront
      simp at h
    | cons b names =>
      rw [cutAt]
      by_cases hmark : b = mark ∧ names ≠ []
      · rw [if_pos hmark]
        obtain ⟨rfl, hback⟩ := hmark
        constructor
        · grind
        · rintro ⟨heq, hfront, -, hfirst⟩
          obtain ⟨x, front, rfl⟩ := List.exists_cons_of_ne_nil hfront
          obtain ⟨rfl, hrest⟩ := List.cons.inj heq
          cases front with
          | nil => rw [(List.cons.inj hrest).2]
          | cons y front =>
            obtain ⟨rfl, -⟩ := List.cons.inj hrest
            exact absurd List.mem_cons_self hfirst
      · rw [if_neg hmark, Option.map_eq_some_iff]
        constructor
        · rintro ⟨⟨before, after⟩, hcut, heq⟩
          obtain ⟨rfl, rfl⟩ := Prod.mk.inj heq
          obtain ⟨hnames, hbefore, hafter, hfirst⟩ := ih.mp hcut
          refine ⟨congrArg (List.cons a) hnames, List.cons_ne_nil a before, hafter, ?_⟩
          obtain ⟨y, before, rfl⟩ := List.exists_cons_of_ne_nil hbefore
          aesop
        · rintro ⟨heq, hfront, hback, hfirst⟩
          obtain ⟨x, front, rfl⟩ := List.exists_cons_of_ne_nil hfront
          obtain ⟨rfl, hrest⟩ := List.cons.inj heq
          refine ⟨(front, back), ih.mpr ⟨hrest, ?_, hback, fun hmem => hfirst ?_⟩, rfl⟩
          · grind
          · exact List.mem_of_mem_tail hmem

/-- A head without the pattern's first character is skipped. -/
theorem splitOnce_skip {p : Char} {pat base : List Char} (hbase : p ∉ base) (s : List Char) :
    splitOnce (p :: pat) (base ++ s) =
      (splitOnce (p :: pat) s).map fun r => (base ++ r.1, r.2) := by
  induction base with
  | nil =>
    rw [List.nil_append]
    cases splitOnce (p :: pat) s <;> rfl
  | cons c base ih =>
    rw [List.mem_cons, not_or] at hbase
    have hp : (p :: pat).isPrefixOf (c :: (base ++ s)) = false := by
      rw [List.isPrefixOf_cons_cons, beq_eq_false_iff_ne.mpr hbase.1, Bool.false_and]
    rw [List.cons_append, splitOnce, hp, ih hbase.2]
    cases splitOnce (p :: pat) s <;> rfl

/-- Cutting a path at a name between slashes. -/
theorem splitOnce_joined {mark : String} (hmark : mark.toList ≠ [] ∧ '/' ∉ mark.toList)
    (h : AreNames names) : splitOnce ('/' :: (mark.toList ++ ['/'])) (joined names) =
      (cutAt mark names).map fun r => (joined r.1, joined r.2) := by
  induction names with
  | nil => rfl
  | cons a names ih =>
    cases names with
    | nil =>
      rw [joined_singleton, splitOnce_eq_none h.head.2]
      rfl
    | cons b names =>
      have hcuts :
          ('/' :: (mark.toList ++ ['/'])).isPrefixOf ('/' :: joined (b :: names)) = true ↔
            b = mark ∧ names ≠ [] := by
        have hdir : mark.toList ++ ['/'] = dirText [mark] := by simp
        have hnames : AreNames [mark] := fun s hs => List.mem_singleton.mp hs ▸ hmark
        rw [List.isPrefixOf_cons_cons, beq_self_eq_true, Bool.true_and, List.isPrefixOf_iff_prefix,
          hdir, dirText_prefix_iff hnames h.tail (List.cons_ne_nil b names)]
        constructor
        · grind
        · rintro ⟨rfl, hrest⟩
          exact ⟨names, hrest, rfl⟩
      rw [joined_cons a (List.cons_ne_nil b names), splitOnce_skip h.head.2, splitOnce, cutAt]
      by_cases hcut : b = mark ∧ names ≠ []
      · rw [if_pos (hcuts.mpr hcut), if_pos hcut]
        obtain ⟨rfl, hrest⟩ := hcut
        have hdrop : ('/' :: joined (b :: names)).drop ('/' :: (b.toList ++ ['/'])).length =
            joined names := by
          have hslash : '/' :: joined (b :: names) =
              ('/' :: (b.toList ++ ['/'])) ++ joined names := by
            rw [joined_cons b hrest]
            simp
          rw [hslash, List.drop_left]
        rw [hdrop]
        simp
      · rw [if_neg (fun hp => hcut (hcuts.mp hp)), if_neg hcut, ih h.tail, Option.map_map,
          Option.map_map, Option.map_map]
        refine Option.map_congr fun r hr => ?_
        obtain ⟨-, hfront, -⟩ := cutAt_eq_some_iff.mp hr
        simp [joined_cons a hfront]

end Pkgly
