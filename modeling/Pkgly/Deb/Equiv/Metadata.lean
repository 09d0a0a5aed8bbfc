import Pkgly.Algorithm.Separated
import Pkgly.Deb.Metadata

/-!
# What a control file can say

The lines of a control file one by one.  A line that starts with a label files the field before it
and begins its own (`line_label`); any other line adds at most its own length to what is held
(`held_le_of_line`), and of a value that is filed nothing is kept but the text without the white
space at its end (`weight_flush_le`).  So the values that a text is parsed to are never longer than
its lines.

The value of a field is a summary and lines behind it that are empty or neither blank nor a single
point (`ValueOk`).
-/

namespace Pkgly.Deb

/-! ### Lines -/

def stripReturn (line : List Char) : List Char := (stripSuffix ['\r'] line).getD line

def isBlank (line : List Char) : Bool := (line.dropWhile isWhitespace).isEmpty

theorem isBlank_iff {line : List Char} :
    isBlank line = true ↔ ∀ ch ∈ line, isWhitespace ch = true := by
  rw [isBlank, List.isEmpty_iff, List.dropWhile_eq_nil_iff]

theorem stripReturn_append_return (line : List Char) : stripReturn (line ++ ['\r']) = line := by
  rw [stripReturn, stripSuffix_eq_some_iff.mpr rfl]
  rfl

theorem stripReturn_eq_self {line : List Char} (h : line.getLast? ≠ some '\r') :
    stripReturn line = line := by
  rw [stripReturn]
  cases hstrip : stripSuffix ['\r'] line with
  | none => rfl
  | some base =>
    rw [stripSuffix_eq_some_iff] at hstrip
    rw [hstrip, List.getLast?_append] at h
    exact absurd rfl h

theorem stripReturn_cases (line : List Char) :
    line = stripReturn line ++ ['\r'] ∨ line.getLast? ≠ some '\r' ∧ stripReturn line = line := by
  by_cases h : line.getLast? = some '\r'
  · obtain ⟨base, rfl⟩ := List.getLast?_eq_some_iff.mp h
    exact .inl (by rw [stripReturn_append_return])
  · exact .inr ⟨h, stripReturn_eq_self h⟩

theorem length_stripReturn_le (line : List Char) : (stripReturn line).length ≤ line.length := by
  rcases stripReturn_cases line with h | ⟨-, h⟩
  · have hlength := congrArg List.length h
    rw [List.length_append] at hlength
    omega
  · rw [h]

theorem isWhitespace_return : isWhitespace '\r' = true := by decide

theorem isBlank_stripReturn (line : List Char) : isBlank (stripReturn line) = isBlank line := by
  rw [Bool.eq_iff_iff, isBlank_iff, isBlank_iff]
  rcases stripReturn_cases line with h | ⟨-, h⟩
  · rw [h, stripReturn_append_return, List.forall_mem_append]
    exact ⟨fun hall => ⟨hall, by simpa using isWhitespace_return⟩, fun hall => hall.1⟩
  · rw [h]

theorem lines_terminated {parts : List String} (h : ∀ s ∈ parts, '\n' ∉ s.toList) :
    Pkgly.lines (terminated '\n' parts) = parts.map fun s => stripReturn s.toList := by
  have hpieces : (terminated '\n' parts).toList.splitOn '\n' =
      parts.map String.toList ++ [[]] := by
    induction parts with
    | nil => rw [terminated, List.map_nil]; simp
    | cons a parts ih =>
      grind [terminated_cons, String.toList_append, String.toList_ofList, List.singleton_append,
        List.splitOn_append_cons_self, List.splitOn_eq_singleton, List.mem_cons_self,
        List.mem_cons_of_mem]
  have hlast : ((some ([] : List Char)).filter fun last => !last.isEmpty).toList = [] := rfl
  rw [Pkgly.lines, hpieces, List.dropLast_concat, List.getLast?_concat, hlast, List.append_nil,
    List.map_map]
  rfl

/-! ### Trimming -/

theorem length_trimEnd_le (s : List Char) : (trimEnd s).length ≤ s.length :=
  (List.rdropWhile_prefix isWhitespace s).length_le

theorem length_dropWhile_le (s : List Char) : (s.dropWhile isWhitespace).length ≤ s.length :=
  (List.dropWhile_suffix isWhitespace).length_le

theorem trimEnd_append_of_blank {s t : List Char} (h : ∀ ch ∈ t, isWhitespace ch = true) :
    trimEnd (s ++ t) = trimEnd s :=
  rdropWhile_append_of_all h

theorem trimEnd_eq_self_iff {s : List Char} :
    trimEnd s = s ↔ ∀ ch, s.getLast? = some ch → isWhitespace ch = false := by
  constructor
  · intro h ch hch
    have hne : s.rdropWhile isWhitespace ≠ [] := by
      intro hnil
      have hs : s = [] := h.symm.trans hnil
      rw [hs] at hch
      cases hch
    have hlast := List.rdropWhile_last_not isWhitespace s hne
    rw [← h] at hch
    have hget : (s.rdropWhile isWhitespace).getLast? = some ch := hch
    grind
  · exact rdropWhile_eq_self_of_getLast?

theorem trimEnd_dropWhile_stripReturn (s : List Char) :
    trimEnd ((stripReturn s).dropWhile isWhitespace) = trimEnd (s.dropWhile isWhitespace) := by
  rcases stripReturn_cases s with h | ⟨-, h⟩
  · have htrim : trimEnd (([] : List Char) ++ (['\r'] : List Char)) = [] := by decide
    grind [stripReturn, List.dropWhile_append, trimEnd_append_of_blank, isWhitespace_return,
      trimEnd, isWhitespace]
  · rw [h]

/-! ### Labels -/

/-- The label of a field: what stands before the colon of its line. -/
structure IsLabel (label : String) : Prop where
  colon_notMem : ':' ∉ label.toList
  trim : trim label = label.toList
  ne_empty : label ≠ ""

instance (label : String) : Decidable (IsLabel label) :=
  decidable_of_iff (':' ∉ label.toList ∧ Pkgly.trim label = label.toList ∧ label ≠ "")
    ⟨fun h => ⟨h.1, h.2.1, h.2.2⟩, fun h => ⟨h.1, h.2, h.3⟩⟩

theorem IsLabel.head {label : String} (h : IsLabel label) :
    ∃ ch rest, label.toList = ch :: rest ∧ isWhitespace ch = false := by
  cases hlist : label.toList with
  | nil => exact absurd (by simpa using hlist) h.ne_empty
  | cons ch rest =>
    refine ⟨ch, rest, rfl, head?_trimWhile (p := isWhitespace) (l := label.toList) ?_⟩
    have htrim : trimWhile isWhitespace label.toList = label.toList := h.trim
    rw [htrim, hlist]
    rfl

/-- The parser between two fields, or in one: nothing is held without a key. -/
def ControlParser.Ok (st : ControlParser) : Prop := st.currentKey = none → st.currentValue = []

theorem ControlParser.flush_currentValue {st : ControlParser} (h : st.Ok) :
    st.flush.currentValue = [] := by
  unfold ControlParser.flush
  split
  · rename_i hkey
    exact h hkey
  · rfl

theorem ControlParser.line_label {label : String} (hlabel : IsLabel label) (st : ControlParser)
    (hok : st.Ok) (value : List Char) :
    st.line (stripReturn (label.toList ++ ':' :: ' ' :: value)) =
      .ok ⟨st.flush.fields, some label, (stripReturn value).dropWhile isWhitespace⟩ := by
  obtain ⟨ch, rest, hhead, hch⟩ := hlabel.head
  have hstrip : stripReturn (label.toList ++ ':' :: ' ' :: value) =
      label.toList ++ ':' :: ' ' :: stripReturn value := by
    rcases stripReturn_cases value with h | ⟨hlast, h⟩
    · grind [stripReturn, List.append_assoc, stripReturn_append_return]
    · rw [h]
      refine stripReturn_eq_self ?_
      rw [List.getLast?_append, List.getLast?_cons_cons]
      cases value with
      | nil => simp
      | cons a value =>
        grind
  have hblank : ((label.toList ++ ':' :: ' ' :: stripReturn value).dropWhile
      isWhitespace).isEmpty = false := by simp_all
  have hspace : ch ≠ ' ' := by
    rintro rfl
    exact absurd hch (by decide)
  have hsplit : splitOnce [':'] (label.toList ++ ':' :: ' ' :: stripReturn value) =
      some (label.toList, ' ' :: stripReturn value) :=
    splitOnce_append hlabel.colon_notMem (' ' :: stripReturn value)
  have hkey : String.ofList (Pkgly.trim (String.ofList label.toList)) = label := by
    rw [String.ofList_toList, hlabel.trim, String.ofList_toList]
  have hdrop : (' ' :: stripReturn value).dropWhile isWhitespace =
      (stripReturn value).dropWhile isWhitespace := List.dropWhile_cons_of_pos (by decide)
  rw [hstrip, ControlParser.line, hblank, if_neg Bool.false_ne_true, hsplit]
  · dsimp only
    rw [hkey, hdrop, flush_currentValue hok, List.nil_append]
  grind

/-! ### What is held is not longer than the lines -/

def weight (fields : List (String × String)) : ℕ := (fields.map fun field => field.2.length).sum

def ControlParser.held (st : ControlParser) : ℕ := weight st.fields + st.currentValue.length

def ControlParser.kept (st : ControlParser) : ℕ :=
  weight st.fields + (trimEnd st.currentValue).length

theorem weight_cons (field : String × String) (fields : List (String × String)) :
    weight (field :: fields) = field.2.length + weight fields := by
  rw [weight, List.map_cons, List.sum_cons, ← weight]

theorem weight_filter_le (p : String × String → Bool) (fields : List (String × String)) :
    weight (fields.filter p) ≤ weight fields := by
  induction fields with
  | nil => exact Nat.le_refl _
  | cons field fields ih =>
    grind [weight_cons]

theorem weight_perm {fields fields' : List (String × String)} (h : fields.Perm fields') :
    weight fields = weight fields' :=
  (h.map _).sum_nat

theorem ControlParser.kept_le_held (st : ControlParser) : st.kept ≤ st.held :=
  Nat.add_le_add_left (length_trimEnd_le _) _

theorem ControlParser.weight_flush_le (st : ControlParser) : weight st.flush.fields ≤ st.kept := by
  unfold ControlParser.flush ControlParser.kept
  split
  · exact Nat.le_add_right _ _
  · rename_i key _
    rw [weight_cons]
    have hfilter := weight_filter_le (fun field => decide (field.1 ≠ key)) st.fields
    have hlength : (String.ofList (trimEnd st.currentValue)).length =
        (trimEnd st.currentValue).length := by simp
    rw [hlength]
    omega

theorem ControlParser.held_label_le (st : ControlParser) (label : String) (value : List Char) :
    (⟨st.flush.fields, some label, value⟩ : ControlParser).held ≤ st.kept + value.length :=
  Nat.add_le_add_right st.weight_flush_le _

theorem ControlParser.kept_label_le (st : ControlParser) (label : String) (value : List Char) :
    (⟨st.flush.fields, some label, value⟩ : ControlParser).kept ≤
      st.kept + (trimEnd value).length :=
  Nat.add_le_add_right st.weight_flush_le _

theorem length_of_splitOnce {pat line key value : List Char}
    (h : splitOnce pat line = some (key, value)) :
    line.length = key.length + pat.length + value.length := by
  rw [eq_of_splitOnce h, List.length_append, List.length_append]

def addLine (value stripped : List Char) : List Char :=
  if stripped = ['.'] then value ++ ['\n']
  else value ++ (if value.isEmpty then [] else ['\n']) ++ stripped

/-- What a line behind a space adds. -/
def continuationCost (stripped : List Char) : ℕ :=
  if stripped = ['.'] then 1 else 1 + stripped.length

theorem continuationCost_le (stripped : List Char) :
    continuationCost stripped ≤ 1 + stripped.length := by
  unfold continuationCost
  split_ifs
  · omega
  · exact Nat.le_refl _

theorem length_addLine_le (value stripped : List Char) :
    (addLine value stripped).length ≤ value.length + continuationCost stripped := by
  grind [addLine, continuationCost, List.length_append, List.length_singleton]

theorem ControlParser.line_blank (st : ControlParser) {line : List Char}
    (hblank : isBlank line = true) : st.line line = .ok st.flush := by
  unfold ControlParser.line
  exact if_pos hblank

variable {stripped : List Char}

theorem ControlParser.line_continuation (st : ControlParser)
    (hblank : isBlank (' ' :: stripped) = false) : st.line (' ' :: stripped) =
      if st.currentKey.isNone then .error .invalidContinuation
      else .ok { st with currentValue := addLine st.currentValue stripped } := by
  have hempty : ((' ' :: stripped).dropWhile isWhitespace).isEmpty = false := hblank
  rw [ControlParser.line, hempty, if_neg Bool.false_ne_true, addLine]
  grind

theorem ControlParser.held_le_of_continuation {st st' : ControlParser}
    (hblank : isBlank (' ' :: stripped) = false) (h : st.line (' ' :: stripped) = .ok st') :
    st'.Ok ∧ st'.held ≤ st.held + continuationCost stripped := by
  rw [line_continuation st hblank] at h
  split_ifs at h with hkey
  obtain rfl := Except.ok.inj h
  grind [absurd, length_addLine_le, ControlParser.held, ControlParser.Ok, addLine, continuationCost]

theorem ControlParser.held_le_of_line {st st' : ControlParser} {line : List Char} (hok : st.Ok)
    (hblank : isBlank line = false) (h : st.line line = .ok st') :
    st'.Ok ∧ st'.held ≤ st.held + line.length := by
  by_cases hspace : ∃ stripped, line = ' ' :: stripped
  · obtain ⟨stripped, rfl⟩ := hspace
    obtain ⟨hok', hle⟩ := held_le_of_continuation hblank h
    grind [continuationCost_le, List.length_cons]
  · have hempty : (line.dropWhile isWhitespace).isEmpty = false := hblank
    rw [ControlParser.line, hempty, if_neg Bool.false_ne_true] at h
    · split at h
      · cases h
      · rename_i key value hsplit
        obtain rfl := Except.ok.inj h
        have hlength := length_of_splitOnce hsplit
        have hdrop := length_dropWhile_le value
        have hflush := st.weight_flush_le
        have hkept := st.kept_le_held
        refine ⟨fun hnone => (Option.some_ne_none _ hnone).elim, ?_⟩
        rw [ControlParser.held, flush_currentValue hok, List.nil_append]
        dsimp only
        omega
    · intro stripped heq
      exact hspace ⟨stripped, heq⟩

/-! ### The values of a control file -/

/-- A summary and lines behind it.  The lines are empty, or neither blank nor a point; behind an
empty summary the first of them is empty. -/
def ValueOk (value : List Char) : Prop :=
  ∃ (summary : List Char) (rest : List (List Char)),
    value = summary ++ rest.flatMap (fun line => '\n' :: line) ∧ '\n' ∉ summary ∧
      (∀ line ∈ rest, '\n' ∉ line ∧ (line = [] ∨ isBlank line = false ∧ line ≠ ['.'])) ∧
      (summary = [] → ∀ line ∈ rest.head?, line = [])

theorem valueOk_of_line {summary : List Char} (h : '\n' ∉ summary) : ValueOk summary :=
  ⟨summary, [], (List.append_nil summary).symm, h, fun _ hline => absurd hline List.not_mem_nil,
    fun _ _ hline => absurd hline (by simp)⟩

theorem isBlank_cons_space (line : List Char) : isBlank (' ' :: line) = isBlank line := by
  rw [isBlank, List.dropWhile_cons_of_pos (by decide), ← isBlank]

theorem mem_head?_append {α : Type} {l l' : List α} {a : α} (hne : l ≠ [])
    (h : a ∈ (l ++ l').head?) : a ∈ l.head? := by
  rwa [List.head?_append_of_ne_nil _ hne] at h

theorem valueOk_addLine {value : List Char} (h : ValueOk value)
    (hblank : isBlank stripped = false) (hline : '\n' ∉ stripped) :
    ValueOk (addLine value stripped) := by
  obtain ⟨summary, rest, rfl, hsummary, hrest, hhead⟩ := h
  unfold addLine
  split_ifs with hpoint hempty
  · refine ⟨summary, rest ++ [[]], ?_, hsummary, ?_, fun hnil line hmem => ?_⟩
    · rw [List.flatMap_append, List.append_assoc]
      rfl
    · grind
    · cases rest with
      | nil => exact (Option.some.inj hmem).symm
      | cons first rest => exact hhead hnil line hmem
  · rw [List.isEmpty_iff.mp hempty, List.append_nil, List.nil_append]
    exact valueOk_of_line hline
  · refine ⟨summary, rest ++ [stripped], ?_, hsummary, ?_, fun hnil line hmem => ?_⟩
    · rw [List.flatMap_append, List.append_assoc, List.append_assoc]
      simp
    · grind
    · refine hhead hnil line (mem_head?_append ?_ hmem)
      rintro rfl
      exact hempty (by rw [hnil]; rfl)

theorem trimEnd_append_of_not_blank {s t : List Char} (h : isBlank t = false) :
    trimEnd (s ++ t) = s ++ trimEnd t := by
  have hne : (t.reverse.dropWhile isWhitespace).isEmpty ≠ true := by
    intro hempty
    rw [List.isEmpty_iff, List.dropWhile_eq_nil_iff] at hempty
    have hblank : isBlank t = true := isBlank_iff.mpr fun ch hch =>
      hempty ch (List.mem_reverse.mpr hch)
    rw [hblank] at h
    cases h
  rw [trimEnd, List.reverse_append, List.dropWhile_append, if_neg hne, List.reverse_append,
    List.reverse_reverse, trimEnd]

theorem isBlank_trimEnd (s : List Char) : isBlank (trimEnd s) = isBlank s := by
  have happend : s = trimEnd s ++ s.rtakeWhile isWhitespace :=
    List.rdropWhile_append_rtakeWhile.symm
  rw [Bool.eq_iff_iff, isBlank_iff, isBlank_iff]
  grind [List.mem_rtakeWhile_imp, List.rdropWhile_prefix, isWhitespace]

theorem valueOk_trimEnd {value : List Char} (h : ValueOk value)
    (hpoint : ¬ ['\n', '.'] <:+ trimEnd value) : ValueOk (trimEnd value) := by
  obtain ⟨summary, rest, rfl, hsummary, hrest, hhead⟩ := h
  induction rest using List.reverseRecOn with
  | nil =>
    rw [List.flatMap_nil, List.append_nil]
    exact valueOk_of_line fun hmem =>
      hsummary ((List.rdropWhile_prefix isWhitespace summary).subset hmem)
  | append_singleton rest last ih =>
    obtain ⟨hlast, hform⟩ := hrest last (List.mem_append_right _ List.mem_cons_self)
    have hfront : ∀ line ∈ rest, '\n' ∉ line ∧ (line = [] ∨ isBlank line = false ∧ line ≠ ['.']) :=
      fun line hline => hrest line (List.mem_append_left _ hline)
    have hvalue : summary ++ (rest ++ [last]).flatMap (fun line => '\n' :: line) =
        (summary ++ rest.flatMap fun line => '\n' :: line) ++ '\n' :: last := by
      rw [List.flatMap_append, List.append_assoc]
      simp
    have hfrontHead : summary = [] → ∀ line ∈ rest.head?, line = [] := by
      intro hnil line hline
      refine hhead hnil line ?_
      rw [List.head?_append, Option.mem_def.mp hline]
      rfl
    rw [hvalue] at hpoint ⊢
    by_cases hblank : isBlank last = true
    · have hall : ∀ ch ∈ '\n' :: last, isWhitespace ch = true :=
        List.forall_mem_cons.mpr ⟨by decide, isBlank_iff.mp hblank⟩
      rw [trimEnd_append_of_blank hall] at hpoint ⊢
      exact ih hpoint hfront hfrontHead
    · rw [Bool.not_eq_true] at hblank
      have hcons : isBlank ('\n' :: last) = false := by
        rw [isBlank, List.dropWhile_cons_of_pos (by decide)]
        exact hblank
      have htrim : trimEnd ('\n' :: last) = '\n' :: trimEnd last :=
        trimEnd_append_of_not_blank (s := ['\n']) hblank
      rw [trimEnd_append_of_not_blank hcons, htrim] at hpoint ⊢
      refine ⟨summary, rest ++ [trimEnd last], ?_, hsummary, ?_, fun hnil line hline => ?_⟩
      · rw [List.flatMap_append, List.append_assoc]
        simp
      · intro line hline
        rcases List.mem_append.mp hline with hline | hline
        · exact hfront line hline
        · rw [List.mem_singleton.mp hline]
          refine ⟨fun hmem => hlast ((List.rdropWhile_prefix isWhitespace last).subset hmem),
            .inr ⟨by rw [isBlank_trimEnd, hblank], fun heq => hpoint ?_⟩⟩
          rw [heq]
          exact List.suffix_append _ _
      · cases rest with
        | nil =>
          -- the summary is empty, so the first line is: it is not the last one
          have hempty : last = [] := hhead hnil last rfl
          rw [hempty] at hblank
          cases hblank
        | cons first rest => exact hhead hnil line hline

def Filed (text : String) : Prop :=
  ∃ value, ValueOk value ∧ text = String.ofList (trimEnd value)

/-- What holds of the parser between two lines. -/
structure ControlParser.Form (st : ControlParser) : Prop where
  ok : st.Ok
  value : ValueOk st.currentValue
  fields : ∀ field ∈ st.fields, Filed field.2

theorem ControlParser.Form.flush {st : ControlParser} (h : st.Form) : st.flush.Form := by
  unfold ControlParser.flush
  split
  · exact h
  · refine ⟨fun _ => rfl, valueOk_of_line List.not_mem_nil, fun field hfield => ?_⟩
    rcases List.mem_cons.mp hfield with rfl | hfield
    · exact ⟨st.currentValue, h.value, rfl⟩
    · exact h.fields field (List.mem_filter.mp hfield).1

theorem ControlParser.Form.line {st st' : ControlParser} (h : st.Form) {line : List Char}
    (hline : '\n' ∉ line) (hstep : st.line line = .ok st') : st'.Form := by
  cases hblank : isBlank line with
  | true =>
    rw [line_blank st hblank] at hstep
    obtain rfl := Except.ok.inj hstep
    exact h.flush
  | false =>
    by_cases hspace : ∃ stripped, line = ' ' :: stripped
    · obtain ⟨stripped, rfl⟩ := hspace
      rw [line_continuation st hblank] at hstep
      split_ifs at hstep with hkey
      obtain rfl := Except.ok.inj hstep
      rw [isBlank_cons_space] at hblank
      refine ⟨fun hnone => absurd (Option.isNone_iff_eq_none.mpr hnone) hkey,
        valueOk_addLine h.value hblank ?_, h.fields⟩
      exact fun hmem => hline (List.mem_cons_of_mem ' ' hmem)
    · have hempty : (line.dropWhile isWhitespace).isEmpty = false := hblank
      rw [ControlParser.line, hempty, if_neg Bool.false_ne_true] at hstep
      · split at hstep
        · cases hstep
        · rename_i key value hsplit
          obtain rfl := Except.ok.inj hstep
          refine ⟨fun hnone => (Option.some_ne_none _ hnone).elim, ?_, h.flush.fields⟩
          rw [flush_currentValue h.ok, List.nil_append]
          refine valueOk_of_line fun hmem => hline ?_
          rw [eq_of_splitOnce hsplit]
          exact List.mem_append_right _ ((List.dropWhile_suffix isWhitespace).subset hmem)
      · intro stripped heq
        exact hspace ⟨stripped, heq⟩

theorem notMem_of_mem_lines {s : String} {line : List Char} (h : line ∈ Pkgly.lines s) :
    '\n' ∉ line := by
  rw [Pkgly.lines, List.mem_append] at h
  rcases h with h | h
  · obtain ⟨raw, hraw, rfl⟩ := List.mem_map.mp h
    grind [notMem_of_mem_splitOn, List.mem_of_mem_dropLast, stripReturn_cases, List.mem_append_left,
      stripReturn, stripSuffix]
  · obtain ⟨hlast, -⟩ := Option.mem_filter_iff.mp (Option.mem_toList.mp h)
    exact notMem_of_mem_splitOn (List.mem_of_getLast? hlast)

theorem ControlParser.Form.lines {st st' : ControlParser} {text : List (List Char)} (h : st.Form)
    (htext : ∀ line ∈ text, '\n' ∉ line) (hrun : st.lines text = .ok st') : st'.Form := by
  induction text generalizing st with
  | nil => exact Except.ok.inj hrun ▸ h
  | cons line text ih =>
    grind [ControlParser.lines, line, List.mem_cons_self, List.mem_cons_of_mem]

theorem filed_of_parse {contents : String} {control : ControlFile}
    (h : ControlFile.parse contents = .ok control) {label text : String}
    (hget : control.get label = some text) : Filed text := by
  rw [ControlFile.parse] at h
  split at h
  · cases h
  · rename_i st hst
    obtain rfl := Except.ok.inj h
    have hform : (⟨[], none, []⟩ : ControlParser).Form := ⟨fun _ => rfl,
      valueOk_of_line List.not_mem_nil, fun field hfield => absurd hfield List.not_mem_nil⟩
    have hend := (hform.lines (fun line hline => notMem_of_mem_lines hline) hst).flush
    obtain ⟨front, back, hfields, -⟩ := List.lookup_eq_some_iff.mp hget
    have hfields : st.flush.fields = front ++ (label, text) :: back := hfields
    refine hend.fields (label, text) ?_
    rw [hfields]
    exact List.mem_append_right _ List.mem_cons_self

end Pkgly.Deb
