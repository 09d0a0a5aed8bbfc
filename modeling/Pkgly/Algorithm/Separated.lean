import Pkgly.Algorithm.Text
import Pkgly.Algorithm.Trim

/-!
# Texts between separators

Texts that do not contain a separator are read back from the text in which they are joined by it
(`pieces_intercalate`), or in which each of them is ended by it (`terminatedPieces_terminated`), and
what is read never contains it (`notMem_of_mem_pieces`).  Words are what stands between white space
(`mem_words`, `words_eq_pair`).
-/

namespace Pkgly

variable {sep : Char} {parts : List String}

/-! ### Joined texts -/

theorem notMem_of_mem_splitOnP {p : Char → Bool} {s l : List Char} (hl : l ∈ s.splitOnP p) :
    (∀ ch ∈ l, p ch = false) ∧ ∀ ch ∈ l, ch ∈ s := by
  induction s generalizing l with
  | nil =>
    grind [List.splitOnP_nil, List.mem_singleton, absurd]
  | cons c s ih =>
    rw [List.splitOnP_cons_eq_if_modifyHead] at hl
    split_ifs at hl with hc
    · grind
    · cases hsplit : s.splitOnP p with
      | nil => exact absurd hsplit (List.splitOnP_ne_nil p s)
      | cons head tail =>
        rw [hsplit, List.modifyHead_cons, List.mem_cons] at hl
        grind

variable {s : String}

theorem notMem_of_mem_pieces {x : String} (hx : x ∈ pieces sep s) : sep ∉ x.toList := by
  obtain ⟨l, hl, rfl⟩ := List.mem_map.mp hx
  rw [String.toList_ofList]
  exact notMem_of_mem_splitOn hl

theorem mem_of_mem_pieces {x : String} (hx : x ∈ pieces sep s) {ch : Char}
    (hch : ch ∈ x.toList) : ch ∈ s.toList := by
  obtain ⟨l, hl, rfl⟩ := List.mem_map.mp hx
  rw [String.toList_ofList] at hch
  exact (notMem_of_mem_splitOnP hl).2 ch hch

theorem pieces_ne_nil (sep : Char) (s : String) : pieces sep s ≠ [] := by
  rw [pieces, Ne, List.map_eq_nil_iff]
  exact List.splitOn_ne_nil sep s.toList

/-- A joined text is cut where it was joined. -/
theorem pieces_intercalate (h : ∀ s ∈ parts, sep ∉ s.toList) (hne : parts ≠ []) :
    pieces sep (String.intercalate (String.ofList [sep]) parts) = parts := by
  induction parts with
  | nil => exact absurd rfl hne
  | cons a parts ih =>
    have ha : pieces sep a = [a] := pieces_eq_singleton (h a List.mem_cons_self)
    cases parts with
    | nil => rw [String.intercalate_singleton, ha]
    | cons b parts =>
      rw [String.intercalate_cons_cons, String.append_assoc, pieces_append, ha,
        ih (fun s hs => h s (List.mem_cons_of_mem a hs)) (List.cons_ne_nil b parts)]
      rfl

theorem intercalate_pieces (sep : Char) (s : String) :
    String.intercalate (String.ofList [sep]) (pieces sep s) = s := by
  refine String.toList_inj.mp ?_
  have hid : String.toList ∘ String.ofList = id := funext fun l => String.toList_ofList
  rw [String.toList_intercalate, pieces, List.map_map, hid, List.map_id, String.toList_ofList]
  exact List.intercalate_splitOn sep

/-! ### Ended texts -/

def terminated (sep : Char) (parts : List String) : String :=
  String.join (parts.map fun s => s ++ String.ofList [sep])

def terminatedPieces (sep : Char) (s : String) : List String := (pieces sep s).dropLast

theorem terminated_cons (a : String) (parts : List String) :
    terminated sep (a :: parts) = a ++ (String.ofList [sep] ++ terminated sep parts) := by
  rw [terminated, List.map_cons, String.join_cons, String.append_assoc]
  rfl

/-- Ended texts are cut where they end. -/
theorem terminatedPieces_terminated (h : ∀ s ∈ parts, sep ∉ s.toList) :
    terminatedPieces sep (terminated sep parts) = parts := by
  induction parts with
  | nil => rw [terminated, List.map_nil, terminatedPieces, pieces]; simp
  | cons a parts ih =>
    grind [pieces, pieces_eq_singleton, List.mem_cons_self, terminated_cons, terminatedPieces,
      pieces_append, List.singleton_append, List.dropLast_cons_of_ne_nil, pieces_ne_nil,
      List.mem_cons_of_mem]

theorem notMem_of_mem_terminatedPieces {x : String} (hx : x ∈ terminatedPieces sep s) :
    sep ∉ x.toList :=
  notMem_of_mem_pieces (List.mem_of_mem_dropLast hx)

/-! ### The first separator -/

/-- What stands before the first separator, and what stands behind it. -/
def cutFirst (sep : Char) (s : String) : String × String :=
  (String.ofList (s.toList.takeWhile (· ≠ sep)),
    String.ofList ((s.toList.dropWhile (· ≠ sep)).drop 1))

theorem cutFirst_append {a : String} (ha : sep ∉ a.toList) (b : String) :
    cutFirst sep (a ++ (String.ofList [sep] ++ b)) = (a, b) := by
  have hall : ∀ ch ∈ a.toList, decide (ch ≠ sep) = true := fun ch hch =>
    decide_eq_true fun heq => ha (heq ▸ hch)
  have htake : (sep :: b.toList).takeWhile (· ≠ sep) = [] := List.takeWhile_cons_of_neg (by simp)
  have hdrop : (sep :: b.toList).dropWhile (· ≠ sep) = sep :: b.toList :=
    List.dropWhile_cons_of_neg (by simp)
  simp_all [cutFirst, String.toList_append, List.takeWhile_append_of_pos, List.append_nil,
    List.dropWhile_append_of_pos, String.ofList_toList]

theorem notMem_fst_cutFirst (sep : Char) (s : String) : sep ∉ (cutFirst sep s).1.toList := by
  rw [cutFirst, String.toList_ofList]
  intro h
  exact absurd (List.mem_takeWhile_imp h) (by simp)

theorem mem_of_mem_fst_cutFirst {ch : Char} (h : ch ∈ (cutFirst sep s).1.toList) :
    ch ∈ s.toList := by
  rw [cutFirst, String.toList_ofList] at h
  exact (List.takeWhile_prefix _).subset h

theorem mem_of_mem_snd_cutFirst {ch : Char} (h : ch ∈ (cutFirst sep s).2.toList) :
    ch ∈ s.toList := by
  rw [cutFirst, String.toList_ofList] at h
  exact (List.dropWhile_suffix _).subset (List.mem_of_mem_drop h)

/-! ### Words -/

/-- A text without white space that is not empty. -/
def IsWord (s : String) : Prop := s ≠ "" ∧ ∀ ch ∈ s.toList, isWhitespace ch = false

theorem of_mem_words {x : String} (hx : x ∈ words s) :
    IsWord x ∧ ∀ ch ∈ x.toList, ch ∈ s.toList := by
  obtain ⟨l, hl, rfl⟩ := List.mem_map.mp hx
  obtain ⟨hsplit, hne⟩ := List.mem_filter.mp hl
  obtain ⟨hp, hmem⟩ := notMem_of_mem_splitOnP hsplit
  rw [IsWord, String.toList_ofList]
  simp_all

theorem words_append {a : String} (ha : IsWord a) {c : Char} (hc : isWhitespace c = true)
    (s : String) : words (a ++ (String.ofList [c] ++ s)) = a :: words s := by
  have hne : a.toList ≠ [] := by simpa using ha.1
  unfold words
  rw [String.toList_append, String.toList_append, String.toList_ofList, List.singleton_append,
    List.splitOnP_append_cons _ _ hc, List.splitOnP_eq_singleton ha.2, List.singleton_append,
    List.filter_cons_of_pos (by simpa using hne), List.map_cons, String.ofList_toList]

theorem words_of_isWord {a : String} (ha : IsWord a) : words a = [a] := by
  have hne : a.toList ≠ [] := by simpa using ha.1
  unfold words
  rw [List.splitOnP_eq_singleton ha.2, List.filter_cons_of_pos (by simpa using hne),
    List.filter_nil, List.map_singleton, String.ofList_toList]

theorem words_trim (s : String) : words (String.ofList (trim s)) = words s := by
  have hdrop : ∀ a l : List Char, (∀ ch ∈ a, isWhitespace ch = true) →
      ((a ++ l).splitOnP isWhitespace).filter (· ≠ []) =
        (l.splitOnP isWhitespace).filter (· ≠ []) := by
    intro a l ha
    induction a with
    | nil => rfl
    | cons c a ih =>
      rw [List.cons_append, List.splitOnP_cons_eq_if_modifyHead, if_pos (ha c List.mem_cons_self),
        List.filter_cons_of_neg (by simp), ih fun ch hch => ha ch (List.mem_cons_of_mem c hch)]
  have hend : ∀ l b : List Char, (∀ ch ∈ b, isWhitespace ch = true) →
      ((l ++ b).splitOnP isWhitespace).filter (· ≠ []) =
        (l.splitOnP isWhitespace).filter (· ≠ []) := by
    intro l b hb
    cases b with
    | nil => rw [List.append_nil]
    | cons c b =>
      have hnil := hdrop b [] fun ch hch => hb ch (List.mem_cons_of_mem c hch)
      grind [List.splitOnP_nil, List.filter_cons_of_neg, List.splitOnP_append_cons,
        List.mem_cons_self]
  obtain ⟨a, b, hs, ha, hb⟩ := exists_append_trimWhile isWhitespace s.toList
  have htrim : trim s = trimWhile isWhitespace s.toList := rfl
  grind [words, String.toList_ofList, trimWhile, isWhitespace]

end Pkgly
