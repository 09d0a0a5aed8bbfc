import Pkgly.Deb.Equiv.Stanzas
import Pkgly.Storage.Sha256

/-!
# What the `Packages` index says

The index of uploaded packages is read back if and only if the fields of the uploads are clean
(`packages_faithful_iff`); the numbers and the digests, which the repository writes itself, always
are.
-/

/-!
## What is lost in a stanza

The values that are read of the index are never longer than the lines they are read from, and a
field with a line break, or with white space around it, loses at least one character (`Adds`).  So
an index that is read back has clean fields only (`Faithful.cleanRecord`).

A `Reader` goes over the whole index: it files the fields of a stanza at each blank line and begins
the next.
-/

namespace Pkgly.Deb

/-! ### Reading all stanzas -/

def ControlParser.start : ControlParser := ⟨[], none, []⟩

abbrev Reader := ControlParser × ℕ

/-- The next line of the index: a blank line ends the stanza. -/
def Reader.read (r : Reader) (line : String) : Except ControlParseError Reader :=
  if isBlankLine line then .ok (.start, r.2 + weight r.1.flush.fields)
  else (r.1.line (stripReturn line.toList)).map fun st => (st, r.2)

def Reader.readAll (r : Reader) : List String → Except ControlParseError Reader
  | [] => .ok r
  | line :: rest => (r.read line).bind fun r => r.readAll rest

variable {r r' : Reader} {text rest : List String} {rows : List DebVersionRow} {s : String}

theorem Reader.of_readAll_cons {line : String} (h : r.readAll (line :: text) = .ok r') :
    ∃ next, r.read line = .ok next ∧ next.readAll text = .ok r' := by
  rw [readAll] at h
  cases hline : r.read line with
  | error e =>
    rw [hline] at h
    cases h
  | ok next =>
    rw [hline] at h
    exact ⟨next, rfl, h⟩

theorem Reader.of_readAll_append {a b : List String} (h : r.readAll (a ++ b) = .ok r') :
    ∃ next, r.readAll a = .ok next ∧ next.readAll b = .ok r' := by
  induction a generalizing r with
  | nil => exact ⟨r, rfl, h⟩
  | cons line a ih =>
    obtain ⟨first, hfirst, h⟩ := of_readAll_cons h
    obtain ⟨next, hnext, h⟩ := ih h
    refine ⟨next, ?_, h⟩
    rw [readAll, hfirst]
    exact hnext

def stanzaWeight (group : List String) : ℕ :=
  match ControlParser.start.lines (group.map fun s => stripReturn s.toList) with
  | .ok st => weight st.flush.fields
  | .error _ => 0

def Parses (group : List String) : Prop :=
  ∃ st, ControlParser.start.lines (group.map fun s => stripReturn s.toList) = .ok st

theorem Reader.exists_readAll {st last : ControlParser} {n : ℕ}
    {head : List String} {groups : List (List String)}
    (hsplit : text.splitOnP isBlankLine = head :: groups)
    (hhead : st.lines (head.map fun s => stripReturn s.toList) = .ok last)
    (hgroups : ∀ group ∈ groups, Parses group) :
    ∃ r, Reader.readAll (st, n) text = .ok r ∧ r.2 + weight r.1.flush.fields =
      n + weight last.flush.fields + (groups.map stanzaWeight).sum := by
  induction text generalizing st last n head groups with
  | nil =>
    rw [List.splitOnP_nil] at hsplit
    obtain ⟨rfl, rfl⟩ := List.cons.inj hsplit
    obtain rfl := Except.ok.inj hhead
    exact ⟨(st, n), rfl, rfl⟩
  | cons line text ih =>
    obtain ⟨first, rest, hrest⟩ := List.exists_cons_of_ne_nil
      (List.splitOnP_ne_nil isBlankLine text)
    rw [List.splitOnP_cons_eq_if_modifyHead] at hsplit
    split_ifs at hsplit with hblank
    · obtain ⟨rfl, rfl⟩ := List.cons.inj hsplit
      obtain rfl := Except.ok.inj hhead
      rw [hrest] at hgroups
      obtain ⟨stFirst, hstFirst⟩ := hgroups first List.mem_cons_self
      obtain ⟨r, hr, hsum⟩ := ih (n := n + weight st.flush.fields) hrest hstFirst
        fun group hgroup => hgroups group (List.mem_cons_of_mem first hgroup)
      refine ⟨r, ?_, ?_⟩
      · rw [readAll, read, if_pos hblank]
        exact hr
      grind [stanzaWeight]
    · rw [hrest, List.modifyHead_cons] at hsplit
      obtain ⟨rfl, rfl⟩ := List.cons.inj hsplit
      rw [List.map_cons, ControlParser.lines] at hhead
      cases hline : st.line (stripReturn line.toList) with
      | error e =>
        rw [hline] at hhead
        cases hhead
      | ok next =>
        rw [hline] at hhead
        obtain ⟨r, hr, hsum⟩ := ih (n := n) hrest hhead hgroups
        refine ⟨r, ?_, hsum⟩
        rw [readAll, read, if_neg hblank, hline]
        exact hr

theorem sum_stanzaWeight_filter (groups : List (List String)) :
    ((groups.filter (· ≠ [])).map stanzaWeight).sum = (groups.map stanzaWeight).sum := by
  induction groups with
  | nil => rfl
  | cons group groups ih =>
    by_cases hnil : group = []
    · aesop
    grind

theorem parse_terminated {group : List String} (h : ∀ s ∈ group, '\n' ∉ s.toList) :
    ControlFile.parse (terminated '\n' group) =
      (ControlParser.start.lines (group.map fun s => stripReturn s.toList)).map fun st =>
        ⟨st.flush.fields⟩ := by
  rw [ControlFile.parse, lines_terminated h, ControlParser.start]
  aesop

theorem of_mem_splitOnP {α : Type} {p : α → Bool} {l group : List α} (h : group ∈ l.splitOnP p)
    {a : α} (ha : a ∈ group) : a ∈ l := by
  induction l generalizing group with
  | nil =>
    rw [List.splitOnP_nil, List.mem_singleton] at h
    rw [h] at ha
    exact ha
  | cons b l ih =>
    rw [List.splitOnP_cons_eq_if_modifyHead] at h
    split_ifs at h
    · grind
    · obtain ⟨first, rest, hrest⟩ := List.exists_cons_of_ne_nil (List.splitOnP_ne_nil p l)
      rw [hrest, List.modifyHead_cons, List.mem_cons] at h
      grind

theorem Faithful.exists_readAll (h : Faithful rows) : ∃ r, Reader.readAll (.start, 0)
        ((rows.flatMap fun row => entryTexts row.record).flatMap (pieces '\n') ++ [""]) = .ok r ∧
      r.2 + weight r.1.flush.fields =
        (rows.map fun row => weight (recordFields row.record)).sum := by
  rw [← pieces_terminated, ← buildPackagesIndex_eq]
  rw [Faithful, indexStanzas] at h
  generalize hbody : buildPackagesIndex rows = body at h
  obtain ⟨first, rest, hsplit⟩ := List.exists_cons_of_ne_nil
    (List.splitOnP_ne_nil isBlankLine (pieces '\n' body))
  have hnewline : ∀ group ∈ (pieces '\n' body).splitOnP isBlankLine, ∀ s ∈ group,
      '\n' ∉ s.toList :=
    fun group hgroup s hs => notMem_of_mem_pieces (of_mem_splitOnP hgroup hs)
  rw [List.forall₂_map_left_iff] at h
  have hmem : ∀ group ∈ ((pieces '\n' body).splitOnP isBlankLine).filter (· ≠ []),
      ∀ s ∈ group, '\n' ∉ s.toList :=
    fun group hgroup => hnewline group (List.mem_filter.mp hgroup).1
  -- a stanza is parsed, and weighs what its row does
  have hgroups := ((List.forall₂_and_left _ _).mpr ⟨hmem, h⟩).imp
    (S := fun group row => Parses group ∧ stanzaWeight group = weight (recordFields row.record))
    fun group row hrow => by
      obtain ⟨hline, control, hparse, hperm⟩ := hrow
      rw [parse_terminated hline] at hparse
      rw [Parses, stanzaWeight]
      cases hrun : ControlParser.start.lines (group.map fun s => stripReturn s.toList) with
      | error e =>
        rw [hrun] at hparse
        cases hparse
      | ok st =>
        rw [hrun] at hparse
        obtain rfl := Except.ok.inj hparse
        exact ⟨⟨st, rfl⟩, weight_perm hperm⟩
  obtain ⟨hall, hweights⟩ := (List.forall₂_and_left _ _).mp hgroups
  have hparses : ∀ group ∈ first :: rest, Parses group := by
    intro group hgroup
    by_cases hnil : group = []
    · rw [hnil]
      exact ⟨.start, rfl⟩
    · exact hall group (List.mem_filter.mpr ⟨hsplit ▸ hgroup, decide_eq_true hnil⟩)
  obtain ⟨stFirst, hstFirst⟩ := hparses first List.mem_cons_self
  obtain ⟨r, hr, hsum⟩ := Reader.exists_readAll (n := 0) hsplit hstFirst
    fun group hgroup => hparses group (List.mem_cons_of_mem first hgroup)
  refine ⟨r, hr, ?_⟩
  have hfirst : stanzaWeight first = weight stFirst.flush.fields := by
    rw [stanzaWeight, hstFirst]
  have hmaps : (((pieces '\n' body).splitOnP isBlankLine).filter (· ≠ [])).map stanzaWeight =
      rows.map fun row => weight (recordFields row.record) := by
    rw [← List.forall₂_eq_eq_eq, List.forall₂_map_left_iff, List.forall₂_map_right_iff]
    exact hweights
  rw [hsum, ← hmaps, sum_stanzaWeight_filter, hsplit, List.map_cons, List.sum_cons, hfirst,
    Nat.zero_add]

/-! ### What lines add -/

def Reader.spent (r : Reader) : ℕ := r.2 + r.1.kept

def Reader.held (r : Reader) : ℕ := r.2 + r.1.held

theorem Reader.spent_le_held (r : Reader) : r.spent ≤ r.held :=
  Nat.add_le_add_left r.1.kept_le_held _

/-- Between the two readers at most `n` is kept, and less if something is not clean. -/
structure Adds (r r' : Reader) (n : ℕ) (clean : Prop) : Prop where
  ok : r'.1.Ok
  le : r'.spent ≤ r.spent + n
  clean_of_eq : r'.spent = r.spent + n → clean

theorem Adds.trans {r₁ r₂ r₃ : Reader} {n m : ℕ} {p q : Prop} (h₁ : Adds r₁ r₂ n p)
    (h₂ : Adds r₂ r₃ m q) : Adds r₁ r₃ (n + m) (p ∧ q) := by
  have hle₁ := h₁.le
  have hle₂ := h₂.le
  refine ⟨h₂.ok, by omega, fun heq => ⟨h₁.clean_of_eq (by omega), h₂.clean_of_eq (by omega)⟩⟩

theorem Adds.imp {n : ℕ} {p q : Prop} (h : Adds r r' n p) (himp : p → q) : Adds r r' n q :=
  ⟨h.ok, h.le, fun heq => himp (h.clean_of_eq heq)⟩

theorem Reader.read_le {line : String} (hok : r.1.Ok)
    (h : r.read line = .ok r') : r'.1.Ok ∧ r'.held ≤ r.held + line.toList.length := by
  rw [Reader.read] at h
  split_ifs at h with hblank
  · obtain rfl := Except.ok.inj h
    have hflush := r.1.weight_flush_le
    have hkept := r.1.kept_le_held
    have hstart : ControlParser.start.held = 0 := rfl
    refine ⟨fun _ => rfl, ?_⟩
    rw [Reader.held, Reader.held, hstart]
    dsimp only
    omega
  · cases hline : r.1.line (stripReturn line.toList) with
    | error e =>
      rw [hline] at h
      cases h
    | ok st =>
      rw [hline] at h
      obtain rfl := Except.ok.inj h
      have hnot : isBlank (stripReturn line.toList) = false := by
        rw [isBlank_stripReturn]
        exact Bool.not_eq_true _ ▸ hblank
      obtain ⟨hokSt, hle⟩ := ControlParser.held_le_of_line hok hnot hline
      grind [length_stripReturn_le, Reader.held]

theorem Reader.readAll_le (hok : r.1.Ok) (h : r.readAll text = .ok r') :
    r'.1.Ok ∧ r'.held ≤ r.held + (text.map fun line => line.toList.length).sum := by
  induction text generalizing r with
  | nil =>
    obtain rfl := Except.ok.inj h
    exact ⟨hok, Nat.le_refl _⟩
  | cons line text ih =>
    obtain ⟨next, hnext, h⟩ := of_readAll_cons h
    obtain ⟨hokNext, hle⟩ := read_le hok hnext
    grind

theorem Reader.read_label {label : String} {value : List Char}
    (hlabel : IsLabel label) (hok : r.1.Ok)
    (h : r.read (labelText (label, String.ofList value)) = .ok r') :
    r' = (⟨r.1.flush.fields, some label, (stripReturn value).dropWhile isWhitespace⟩, r.2) := by
  have hblank : isBlankLine (labelText (label, String.ofList value)) = false :=
    isBlank_labelText (label, String.ofList value) hlabel
  have htext : (labelText (label, String.ofList value)).toList =
      label.toList ++ ':' :: ' ' :: value := by
    rw [toList_labelText]
    simp only [String.toList_ofList (l := value)]
  rw [Reader.read, hblank, if_neg Bool.false_ne_true, htext,
    ControlParser.line_label hlabel r.1 hok] at h
  exact (Except.ok.inj h).symm

theorem sum_length_splitOn (l : List Char) :
    ((l.splitOn '\n').map fun line => line.length + 1).sum = l.length + 1 := by
  induction l with
  | nil => rfl
  | cons a l ih =>
    rw [List.splitOn_cons_eq_if_modifyHead]
    split_ifs
    · rw [List.map_cons, List.sum_cons, ih, List.length_nil, List.length_cons]
      omega
    · obtain ⟨first, rest, hrest⟩ := List.exists_cons_of_ne_nil (List.splitOn_ne_nil '\n' l)
      grind [List.modifyHead_cons, List.length_cons]

theorem sum_length_le (l : List String) : (l.map fun line => line.toList.length).sum + l.length =
    (l.map fun line => line.toList.length + 1).sum := by
  induction l with
  | nil => rfl
  | cons line l ih =>
    rw [List.map_cons, List.map_cons, List.sum_cons, List.sum_cons, List.length_cons]
    omega

theorem length_of_pieces {first : String}
    (h : pieces '\n' s = first :: rest) : first.toList.length +
      (rest.map fun line => line.toList.length).sum + rest.length = s.toList.length := by
  have hsum := sum_length_splitOn s.toList
  have hmap : (s.toList.splitOn '\n').map (fun line => line.length + 1) =
      (pieces '\n' s).map fun line => line.toList.length + 1 := by
    rw [pieces, List.map_map]
    exact List.map_congr_left fun line _ => by
      rw [Function.comp_apply, String.toList_ofList]
  have hle := sum_length_le rest
  rw [hmap, h, List.map_cons, List.sum_cons] at hsum
  omega

theorem rest_ne_nil_of_mem {first : String}
    (h : pieces '\n' s = first :: rest) (hmem : '\n' ∈ s.toList) : rest ≠ [] := by
  rintro rfl
  have hjoin := intercalate_pieces '\n' s
  grind [String.intercalate_singleton, notMem_of_mem_pieces, List.mem_cons_self]

theorem pieces_append_of_notMem {sep : Char} {a first : String}
    (ha : sep ∉ a.toList) (hs : pieces sep s = first :: rest) :
    pieces sep (a ++ s) = (a ++ first) :: rest := by
  by_cases hmem : sep ∈ s.toList
  · obtain ⟨x, y, hxy, hx⟩ := List.eq_append_cons_of_mem hmem
    have hsplit : s = String.ofList x ++ (String.ofList [sep] ++ String.ofList y) := by aesop
    have hpieces : ∀ front : String, sep ∉ front.toList →
        pieces sep (front ++ (String.ofList [sep] ++ String.ofList y)) =
          front :: pieces sep (String.ofList y) := by
      intro front hfront
      rw [pieces_append, pieces_eq_singleton hfront]
      rfl
    rw [hsplit, hpieces _ (by rwa [String.toList_ofList])] at hs
    obtain ⟨rfl, rfl⟩ := List.cons.inj hs
    rw [hsplit, ← String.append_assoc, hpieces]
    rw [String.toList_append, String.toList_ofList, List.mem_append, not_or]
    exact ⟨ha, hx⟩
  · rw [pieces_eq_singleton hmem] at hs
    obtain ⟨rfl, rfl⟩ := List.cons.inj hs
    refine pieces_eq_singleton ?_
    rw [String.toList_append, List.mem_append, not_or]
    exact ⟨ha, hmem⟩

theorem length_trim_le (l : List Char) : (trimEnd (l.dropWhile isWhitespace)).length ≤ l.length :=
  (length_trimEnd_le _).trans (length_dropWhile_le l)

theorem trim_eq_of_length
    (h : (trimEnd (s.toList.dropWhile isWhitespace)).length = s.toList.length) :
    trim s = s.toList := by
  have hdrop : s.toList.dropWhile isWhitespace = s.toList := by
    refine (List.dropWhile_suffix isWhitespace).eq_of_length ?_
    have hle := length_dropWhile_le s.toList
    have hle' := length_trimEnd_le (s.toList.dropWhile isWhitespace)
    omega
  have htrim : trimEnd (s.toList.dropWhile isWhitespace) = s.toList.dropWhile isWhitespace := by
    refine (List.rdropWhile_prefix isWhitespace _).eq_of_length ?_
    rw [hdrop] at h ⊢
    exact h
  exact htrim.trans hdrop

theorem Reader.adds_field {field : String × String} (hlabel : IsLabel field.1)
    (hnewline : '\n' ∉ field.1.toList) (hok : r.1.Ok)
    (h : r.readAll (pieces '\n' (labelText field)) = .ok r') :
    Adds r r' field.2.length (CleanText field.2) := by
  obtain ⟨label, value⟩ := field
  obtain ⟨first, rest, hpieces⟩ := List.exists_cons_of_ne_nil (pieces_ne_nil '\n' value)
  have hfront : '\n' ∉ (label ++ ": ").toList := by
    rw [String.toList_append, List.mem_append, not_or]
    exact ⟨hnewline, by decide⟩
  have htext : pieces '\n' (labelText (label, value)) = labelText (label, first) :: rest :=
    pieces_append_of_notMem hfront hpieces
  rw [htext] at h
  obtain ⟨next, hnext, h⟩ := of_readAll_cons h
  have hlabelText : labelText (label, first) = labelText (label, String.ofList first.toList) := by
    rw [String.ofList_toList]
  rw [hlabelText] at hnext
  obtain rfl := read_label hlabel hok hnext
  have hheld := r.1.held_label_le label ((stripReturn first.toList).dropWhile isWhitespace)
  have hkept := r.1.kept_label_le label ((stripReturn first.toList).dropWhile isWhitespace)
  rw [trimEnd_dropWhile_stripReturn] at hkept
  have hlength : value.length = value.toList.length := String.length_toList.symm
  by_cases hmem : '\n' ∈ value.toList
  · -- the line breaks are lost
    obtain ⟨hok', hle⟩ := readAll_le (fun hnone => (Option.some_ne_none _ hnone).elim) h
    have hspent := r'.spent_le_held
    have hstrip := (length_dropWhile_le (stripReturn first.toList)).trans
      (length_stripReturn_le first.toList)
    have hsum := length_of_pieces hpieces
    have hpos := List.length_pos_of_ne_nil (rest_ne_nil_of_mem hpieces hmem)
    have hlt : r'.spent < r.spent + value.length := by
      have hspentEq : r.spent = r.2 + r.1.kept := rfl
      unfold Reader.held at hle hspent
      dsimp only at hle
      omega
    exact ⟨hok', Nat.le_of_lt hlt, fun heq => absurd heq (Nat.ne_of_lt hlt)⟩
  · rw [pieces_eq_singleton hmem] at hpieces
    obtain ⟨rfl, rfl⟩ := List.cons.inj hpieces
    obtain rfl := Except.ok.inj h
    have htrim := length_trim_le value.toList
    refine ⟨fun hnone => (Option.some_ne_none _ hnone).elim, ?_, fun heq => ⟨hmem, ?_⟩⟩
    · rw [Reader.spent, Reader.spent]
      dsimp only
      omega
    grind [Reader.spent, trim_eq_of_length]

theorem Reader.adds_fields {fields : List (String × String)}
    (hlabels : ∀ field ∈ fields, field.1 ∈ labels) (hok : r.1.Ok)
    (h : r.readAll ((fields.map labelText).flatMap (pieces '\n')) = .ok r') :
    Adds r r' (weight fields) (∀ field ∈ fields, CleanText field.2) := by
  induction fields generalizing r with
  | nil =>
    obtain rfl := Except.ok.inj h
    exact ⟨hok, Nat.le_refl _, fun _ field hfield => absurd hfield List.not_mem_nil⟩
  | cons field fields ih =>
    rw [List.map_cons, List.flatMap_cons] at h
    obtain ⟨next, hnext, h⟩ := of_readAll_append h
    have hmem := hlabels field List.mem_cons_self
    have hfield := adds_field (isLabel_of_mem _ hmem) (newline_notMem_of_mem _ hmem) hok hnext
    have hrest := ih (fun other hother => hlabels other (List.mem_cons_of_mem field hother))
      hfield.ok h
    rw [weight_cons]
    exact (hfield.trans hrest).imp fun hclean => List.forall_mem_cons.mpr hclean

theorem Reader.read_detail {line : List Char} (hok : r.1.Ok)
    (h : r.read (detailText line) = .ok r') :
    r'.1.Ok ∧ r'.held ≤ r.held + continuationCost line := by
  by_cases hpoint : detailText line = " ."
  · have hcost : continuationCost line = 1 := by
      unfold detailText at hpoint
      split_ifs at hpoint with hnil
      · rw [List.isEmpty_iff.mp hnil]
        rfl
      · have htext := congrArg String.toList hpoint
        have hline : (" " ++ String.ofList line).toList = ' ' :: line := by simp
        rw [hline] at htext
        rw [(List.cons.inj htext).2]
        rfl
    have hblank : isBlankLine " ." = false := by decide
    have hstrip : stripReturn " .".toList = ' ' :: ['.'] := by decide
    rw [hpoint, Reader.read, hblank, if_neg Bool.false_ne_true, hstrip] at h
    cases hline : r.1.line (' ' :: ['.']) with
    | error e =>
      rw [hline] at h
      cases h
    | ok st =>
      rw [hline] at h
      obtain rfl := Except.ok.inj h
      obtain ⟨hokSt, hle⟩ := ControlParser.held_le_of_continuation (by decide) hline
      have hone : continuationCost ['.'] = 1 := rfl
      refine ⟨hokSt, ?_⟩
      unfold Reader.held
      dsimp only
      omega
  · obtain ⟨hok', hle⟩ := read_le hok h
    unfold detailText at hpoint hle
    split_ifs at hpoint hle with hnil
    · exact absurd rfl hpoint
    · have hline : (" " ++ String.ofList line).toList = ' ' :: line := by simp
      have hcost : continuationCost line = 1 + line.length := by
        refine if_neg ?_
        rintro rfl
        exact hpoint (by decide)
      rw [hline, List.length_cons] at hle
      exact ⟨hok', by omega⟩

theorem Reader.readAll_details {rest : List (List Char)} (hok : r.1.Ok)
    (h : r.readAll (rest.map detailText) = .ok r') :
    r'.1.Ok ∧ r'.held ≤ r.held + (rest.map continuationCost).sum := by
  induction rest generalizing r with
  | nil =>
    obtain rfl := Except.ok.inj h
    exact ⟨hok, Nat.le_refl _⟩
  | cons line rest ih =>
    rw [List.map_cons] at h
    obtain ⟨next, hnext, h⟩ := of_readAll_cons h
    obtain ⟨hokNext, hle⟩ := read_detail hok hnext
    grind

/-- What the lines behind a summary cost: less than their length if one that is not the last ends
with a carriage return, or if the last is a point. -/
theorem sum_continuationCost (l : List Char) :
    ((Pkgly.lines (String.ofList l)).map continuationCost).sum ≤ l.length + 1 ∧
      (((Pkgly.lines (String.ofList l)).map continuationCost).sum = l.length + 1 →
        (∀ line ∈ (l.splitOn '\n').dropLast, line.getLast? ≠ some '\r') ∧
          (l.splitOn '\n').getLast? ≠ some ['.']) := by
  have hlines : Pkgly.lines (String.ofList l) = (l.splitOn '\n').dropLast.map stripReturn ++
      ((l.splitOn '\n').getLast?.filter fun last => !last.isEmpty).toList := by
    rw [Pkgly.lines, String.toList_ofList]
    rfl
  have hsum := sum_length_splitOn l
  have hne := List.splitOn_ne_nil '\n' l
  rw [hlines]
  generalize l.splitOn '\n' = parts at *
  obtain ⟨front, last, rfl⟩ : ∃ front last, parts = front ++ [last] :=
    ⟨parts.dropLast, parts.getLast hne, (List.dropLast_append_getLast hne).symm⟩
  rw [List.dropLast_concat, List.getLast?_concat]
  rw [List.map_append, List.sum_append, List.map_singleton, List.sum_singleton] at hsum
  -- the lines but the last
  have hfront : ((front.map stripReturn).map continuationCost).sum ≤
      (front.map fun line => line.length + 1).sum ∧
      (((front.map stripReturn).map continuationCost).sum =
        (front.map fun line => line.length + 1).sum →
          ∀ line ∈ front, line.getLast? ≠ some '\r') := by
    clear hsum hlines hne
    induction front with
    | nil => exact ⟨Nat.le_refl _, fun _ line hline => absurd hline List.not_mem_nil⟩
    | cons line front ih =>
      obtain ⟨hle, heq⟩ := ih
      have hcost := continuationCost_le (stripReturn line)
      have hstrip := length_stripReturn_le line
      rw [List.map_cons, List.map_cons, List.sum_cons, List.map_cons, List.sum_cons]
      refine ⟨by omega, fun hsum => List.forall_mem_cons.mpr ⟨fun hreturn => ?_, heq (by omega)⟩⟩
      rcases stripReturn_cases line with hline | ⟨hnot, -⟩
      · grind
      · exact hnot hreturn
  have hlast : (((some last).filter fun last => !last.isEmpty).toList.map continuationCost).sum ≤
      last.length + 1 ∧ ((((some last).filter fun last => !last.isEmpty).toList.map
        continuationCost).sum = last.length + 1 → last ≠ ['.']) := by
    cases last with
    | nil => exact ⟨Nat.zero_le _, fun _ => (List.cons_ne_nil _ _).symm⟩
    | cons a last =>
      have hsome : ((some (a :: last)).filter fun last => !last.isEmpty).toList =
          [a :: last] := rfl
      grind [List.map_singleton, continuationCost_le, absurd, continuationCost]
  rw [List.map_append, List.sum_append]
  refine ⟨by omega, fun heq => ⟨hfront.2 (by omega), fun hpoint => ?_⟩⟩
  exact hlast.2 (by omega) (Option.some.inj hpoint)

theorem newline_notMem_descriptionTexts {d : String} (hs : s ∈ descriptionTexts d) :
    '\n' ∉ s.toList := by
  have hlabel : '\n' ∉ "Description".toList := by decide
  unfold descriptionTexts at hs
  by_cases hmem : '\n' ∈ d.toList
  · obtain ⟨x, y, hxy, hx⟩ := List.eq_append_cons_of_mem hmem
    have hsplit : splitOnce ['\n'] d.toList = some (x, y) := by
      rw [hxy]
      exact splitOnce_append hx y
    rw [hsplit] at hs
    rcases List.mem_cons.mp hs with rfl | hs
    · exact newline_notMem_labelText hlabel (by rwa [String.toList_ofList])
    · obtain ⟨line, hline, rfl⟩ := List.mem_map.mp hs
      have hnewline := notMem_of_mem_lines hline
      rw [detailText]
      aesop
  grind [splitOnce_eq_none, newline_notMem_labelText]

theorem getLast?_splitOn_of_suffix {l : List Char} (h : ['\n', '.'] <:+ l) :
    (l.splitOn '\n').getLast? = some ['.'] := by
  obtain ⟨front, rfl⟩ := h
  have hpoint : (['.'] : List Char).splitOn '\n' = [['.']] := by decide
  rw [List.splitOn_append_cons_self, hpoint, List.getLast?_append]
  rfl

theorem head?_of_dropWhile {l : List Char} (h : l.dropWhile isWhitespace = l) (ch : Char)
    (hch : l.head? = some ch) : isWhitespace ch = false := by
  have hnot := List.head?_dropWhile_not isWhitespace l
  rw [h, hch] at hnot
  exact hnot

theorem Reader.adds_description {d : String} (hok : r.1.Ok)
    (h : r.readAll (descriptionTexts d) = .ok r') : Adds r r' d.length (CleanDescription d) := by
  have hlabel : IsLabel "Description" := by decide
  have hlength : d.length = d.toList.length := String.length_toList.symm
  have hspentEq : r.spent = r.2 + r.1.kept := rfl
  unfold descriptionTexts at h
  by_cases hmem : '\n' ∈ d.toList
  · obtain ⟨x, y, hxy, hx⟩ := List.eq_append_cons_of_mem hmem
    have hsplit : splitOnce ['\n'] d.toList = some (x, y) := by
      rw [hxy]
      exact splitOnce_append hx y
    rw [hsplit] at h
    obtain ⟨next, hnext, h⟩ := of_readAll_cons h
    obtain rfl := read_label hlabel hok hnext
    obtain ⟨hok', hle⟩ := readAll_details (fun hnone => (Option.some_ne_none _ hnone).elim) h
    obtain ⟨hcost, hcostEq⟩ := sum_continuationCost y
    have hheld := r.1.held_label_le "Description" ((stripReturn x).dropWhile isWhitespace)
    have hdrop := length_dropWhile_le (stripReturn x)
    have hstrip := length_stripReturn_le x
    have hspent := r'.spent_le_held
    have hd : d.toList.length = x.length + 1 + y.length := by
      rw [hxy, List.length_append, List.length_cons]
      omega
    unfold Reader.held at hle hspent
    dsimp only at hle
    refine ⟨hok', by omega, fun heq => ?_⟩
    obtain ⟨hreturn, hpoint⟩ := hcostEq (by omega)
    have hstripEq : stripReturn x = x ∧ x.getLast? ≠ some '\r' := by
      rcases stripReturn_cases x with hx' | ⟨hnot, hx'⟩
      · grind
      · exact ⟨hx', hnot⟩
    rw [hstripEq.1] at hheld hdrop
    have hstart : x.dropWhile isWhitespace = x :=
      (List.dropWhile_suffix isWhitespace).eq_of_length (by rw [hstripEq.1] at hle; omega)
    have hsplitOn : d.toList.splitOn '\n' = x :: y.splitOn '\n' := by
      rw [hxy, List.splitOn_append_cons_self, List.splitOn_eq_singleton hx]
      rfl
    have hne := List.splitOn_ne_nil '\n' y
    constructor
    · grind [pieces, List.head?_cons, String.toList_ofList, head?_of_dropWhile]
    · intro line hline
      rw [pieces, hsplitOn, ← List.map_dropLast, List.dropLast_cons_of_ne_nil hne] at hline
      obtain ⟨raw, hraw, rfl⟩ := List.mem_map.mp hline
      rw [String.toList_ofList]
      grind
    grind [getLast?_splitOn_of_suffix, List.getLast?_cons_of_ne_nil]
  · rw [splitOnce_eq_none hmem] at h
    have htext : labelText ("Description", d) =
        labelText ("Description", String.ofList d.toList) := by rw [String.ofList_toList]
    rw [htext] at h
    obtain ⟨next, hnext, h⟩ := of_readAll_cons h
    obtain rfl := read_label hlabel hok hnext
    obtain rfl := Except.ok.inj h
    have hkept := r.1.kept_label_le "Description" ((stripReturn d.toList).dropWhile isWhitespace)
    rw [trimEnd_dropWhile_stripReturn] at hkept
    have htrim := length_trim_le d.toList
    refine ⟨fun hnone => (Option.some_ne_none _ hnone).elim, ?_, fun heq => ?_⟩
    · unfold Reader.spent
      dsimp only
      omega
    · unfold Reader.spent at heq
      dsimp only at heq
      have hclean : CleanText d := ⟨hmem, trim_eq_of_length (by omega)⟩
      have hpieces : pieces '\n' d = [d] := pieces_eq_singleton hmem
      constructor
      · intro ch hch
        rw [hpieces, List.head?_cons, Option.bind_some] at hch
        exact head?_of_dropWhile hclean.dropWhile_eq ch hch
      · intro line hline
        rw [hpieces] at hline
        exact absurd hline List.not_mem_nil
      · intro hsuffix
        exact hmem (hsuffix.subset List.mem_cons_self)

theorem weight_append (a b : List (String × String)) : weight (a ++ b) = weight a + weight b := by
  rw [weight, List.map_append, List.sum_append]
  rfl

theorem Reader.adds_blank (h : r.readAll [""] = .ok r') : Adds r r' 0 True := by
  obtain ⟨next, hnext, h⟩ := of_readAll_cons h
  obtain rfl := Except.ok.inj h
  have hblank : isBlankLine "" = true := rfl
  rw [Reader.read, if_pos hblank] at hnext
  obtain rfl := Except.ok.inj hnext
  have hstart : ControlParser.start.kept = 0 := rfl
  have hflush := r.1.weight_flush_le
  refine ⟨fun _ => rfl, ?_, fun _ => trivial⟩
  unfold Reader.spent
  dsimp only
  omega

theorem Reader.adds_entry {record : PackagesRecord} (hok : r.1.Ok)
    (h : r.readAll ((entryTexts record).flatMap (pieces '\n')) = .ok r') :
    Adds r r' (weight (recordFields record)) (CleanRecord record) := by
  have hdescription : (descriptionTexts record.description).flatMap (pieces '\n') =
      descriptionTexts record.description := by
    refine (List.flatMap_congr fun s hs => ?_).trans (List.flatMap_singleton' _)
    exact pieces_eq_singleton (newline_notMem_descriptionTexts hs)
  have hblank : [""].flatMap (pieces '\n') = [""] := by decide
  rw [entryTexts, List.flatMap_append, List.flatMap_append, hdescription, hblank] at h
  obtain ⟨first, hfirst, h⟩ := of_readAll_append h
  obtain ⟨second, hsecond, h⟩ := of_readAll_append h
  have hraw := adds_fields (fun field hfield => mem_labels (List.mem_append_left _ hfield)) hok
    hfirst
  have hend := (adds_description hraw.ok hsecond).trans (adds_blank h)
  have hweight : weight (recordFields record) =
      weight (rawFields record) + (record.description.length + 0) := by
    rw [recordFields, weight_append]
    rfl
  rw [hweight]
  exact (hraw.trans hend).imp fun hclean => ⟨hclean.1, hclean.2.1⟩

theorem Reader.adds_rows (hok : r.1.Ok)
    (h : r.readAll ((rows.flatMap fun row => entryTexts row.record).flatMap (pieces '\n')) =
      .ok r') : Adds r r' (rows.map fun row => weight (recordFields row.record)).sum
      (∀ row ∈ rows, CleanRecord row.record) := by
  induction rows generalizing r with
  | nil =>
    obtain rfl := Except.ok.inj h
    exact ⟨hok, Nat.le_refl _, fun _ row hrow => absurd hrow List.not_mem_nil⟩
  | cons row rows ih =>
    rw [List.flatMap_cons, List.flatMap_append] at h
    obtain ⟨next, hnext, h⟩ := of_readAll_append h
    have hentry := adds_entry hok hnext
    rw [List.map_cons, List.sum_cons]
    exact (hentry.trans (ih hentry.ok h)).imp fun hclean => List.forall_mem_cons.mpr hclean

theorem Faithful.cleanRecord (h : Faithful rows) : ∀ row ∈ rows, CleanRecord row.record := by
  obtain ⟨r, hr, hsum⟩ := h.exists_readAll
  obtain ⟨next, hnext, hr⟩ := Reader.of_readAll_append hr
  have hadds := (Reader.adds_rows (fun _ => rfl) hnext).trans (Reader.adds_blank hr)
  have hstart : Reader.spent (ControlParser.start, 0) = 0 := rfl
  have hflush := r.1.weight_flush_le
  have hle := hadds.le
  have hspent : r.spent = r.2 + r.1.kept := rfl
  exact (hadds.clean_of_eq (by omega)).1

end Pkgly.Deb

namespace Pkgly.Deb

/-! ### Rows of uploads -/

structure DebDigests where
  controlText : Bytes → Option String
  md5 : Bytes → Bytes
  sha1 : Bytes → Bytes
  sha256 : Bytes → Bytes

def DebDigests.format (digests : DebDigests) : DebFormat where
  controlText := digests.controlText
  md5Hex content := Sha256.hexText.hex (digests.md5 content)
  sha1Hex content := Sha256.hexText.hex (digests.sha1 content)
  sha256Hex content := Sha256.hexText.hex (digests.sha256 content)

/-- A row of the catalogue: an upload, and the one that created its project. -/
structure UploadedRow (c : Collation) (format : DebFormat) where
  creator : Upload format
  upload : Upload format
  same_project : c.toLowercase creator.package = c.toLowercase upload.package

def UploadedRow.row {c : Collation} {format : DebFormat} (r : UploadedRow c format) :
    DebVersionRow :=
  ⟨r.creator.package, r.upload.version, r.upload.versionData⟩

structure CleanRow (row : DebVersionRow) : Prop where
  package : CleanText row.projectName
  version : CleanText row.version
  architecture : CleanText row.extra.extra.architecture
  «section» : ∀ v ∈ row.extra.extra.section, CleanText v
  priority : ∀ v ∈ row.extra.extra.priority, CleanText v
  maintainer : ∀ v ∈ row.extra.extra.maintainer, CleanText v
  depends : ∀ v ∈ dependencyDisplay row.extra.extra.depends, CleanText v
  homepage : ∀ v ∈ row.extra.extra.homepage, CleanText v
  filename : CleanText row.extra.extra.filename
  description : CleanDescription row.record.description

theorem cleanText_of_visible {s : String} (h : ∀ ch ∈ s.toList, isWhitespace ch = false) :
    CleanText s := by
  refine ⟨fun hmem => ?_, trimWhile_eq_self (fun ch hch => h ch (List.mem_of_head? hch))
    fun ch hch => h ch (List.mem_of_getLast? hch)⟩
  exact absurd (h '\n' hmem) (by decide)

theorem not_isWhitespace {ch : Char} (hlow : 33 ≤ ch.toNat) (hhigh : ch.toNat < 127) :
    isWhitespace ch = false := by
  unfold isWhitespace
  simp only [Bool.or_eq_false_iff, Bool.and_eq_false_iff, decide_eq_false_iff_not, List.mem_cons,
    List.not_mem_nil, or_false]
  omega

theorem not_isWhitespace_of_isDigit {ch : Char} (h : ch.isDigit = true) :
    isWhitespace ch = false := by
  have hzero : '0'.toNat = 48 := rfl
  have hnine : '9'.toNat = 57 := rfl
  rw [Char.isDigit_iff_toNat] at h
  exact not_isWhitespace (by omega) (by omega)

theorem cleanText_toString (n : ℕ) : CleanText (toString n) := by
  refine cleanText_of_visible fun ch hch => ?_
  rw [Nat.toString_eq_ofList_toDigits, String.toList_ofList] at hch
  exact not_isWhitespace_of_isDigit (Nat.isDigit_of_mem_toDigits (by decide) (by decide) hch)

theorem cleanText_hex (digest : Bytes) : CleanText (Sha256.hexText.hex digest) := by
  refine cleanText_of_visible fun ch hch => ?_
  have hhex := Sha256.hexText.isLowerHex_of_mem digest ch hch
  rw [isLowerHex, Bool.or_eq_true, Bool.and_eq_true, decide_eq_true_iff, decide_eq_true_iff] at hhex
  rcases hhex with hdigit | ⟨hlow, hhigh⟩
  · exact not_isWhitespace_of_isDigit hdigit
  · have hlow : 'a'.toNat ≤ ch.toNat := hlow
    have hhigh : ch.toNat ≤ 'f'.toNat := hhigh
    exact not_isWhitespace (Nat.le_trans (by decide) hlow) (Nat.lt_of_le_of_lt hhigh (by decide))

theorem mem_optionalField {label : String} {value : Option String} {field : String × String} :
    field ∈ optionalField label value ↔ ∃ v ∈ value, (label, v) = field := by
  rw [optionalField, Option.mem_toList, Option.map_eq_some_iff]
  rfl

section
variable {c : Collation} (digests : DebDigests)

theorem digests_of_parse {content : Bytes} {parsed : ParsedPackage}
    (h : parseDebPackage digests.format content = .ok parsed) :
    CleanText parsed.md5 ∧ CleanText parsed.sha1 ∧ CleanText parsed.sha256 ∧
      ∀ {label text : String}, parsed.control.get label = some text → Filed text := by
  rw [parseDebPackage] at h
  split at h
  · cases h
  · split at h
    · cases h
    · rename_i control hcontrol
      obtain rfl := Except.ok.inj h
      exact ⟨cleanText_hex _, cleanText_hex _, cleanText_hex _, fun hget =>
        filed_of_parse hcontrol hget⟩

variable {digests}

theorem forall_mem_rawFields {p : String → Prop} {record : PackagesRecord} :
    (∀ field ∈ rawFields record, p field.2) ↔
      (∀ v ∈ [record.package, record.version, record.architecture], p v) ∧
      (∀ v ∈ record.section, p v) ∧ (∀ v ∈ record.priority, p v) ∧
      (∀ v ∈ record.maintainer, p v) ∧ (∀ v ∈ record.depends, p v) ∧
      (∀ v ∈ record.installedSize.map toString, p v) ∧ (∀ v ∈ record.homepage, p v) ∧
      ∀ v ∈ [record.filename, toString record.size, record.md5, record.sha1, record.sha256],
        p v := by
  have hoptional : ∀ (label : String) (value : Option String),
      (∀ field ∈ optionalField label value, p field.2) ↔ ∀ v ∈ value, p v := by
    intro label value
    constructor
    · exact fun h v hv => h (label, v) (mem_optionalField.mpr ⟨v, hv, rfl⟩)
    · rintro h field hfield
      obtain ⟨v, hv, rfl⟩ := mem_optionalField.mp hfield
      exact h v hv
  simp only [rawFields, List.forall_mem_append, hoptional, List.forall_mem_cons,
    List.not_mem_nil, false_imp_iff, implies_true]

theorem UploadedRow.cleanRecord_iff (r : UploadedRow c digests.format) :
    CleanRecord r.row.record ↔ CleanRow r.row := by
  obtain ⟨hmd5, hsha1, hsha256, -⟩ := digests_of_parse digests r.upload.parsed_content
  constructor
  · rintro ⟨hraw, hdescription⟩
    obtain ⟨hfirst, hsection, hpriority, hmaintainer, hdepends, -, hhomepage, hlast⟩ :=
      forall_mem_rawFields.mp hraw
    simp only [List.forall_mem_cons] at hfirst hlast
    exact ⟨hfirst.1, hfirst.2.1, hfirst.2.2.1, hsection, hpriority, hmaintainer, hdepends,
      hhomepage, hlast.1, hdescription⟩
  · intro h
    have hsize : ∀ v ∈ r.row.record.installedSize.map toString, CleanText v := by
      intro v hv
      obtain ⟨n, -, rfl⟩ := Option.map_eq_some_iff.mp hv
      exact cleanText_toString n
    refine ⟨forall_mem_rawFields.mpr ⟨?_, h.section, h.priority, h.maintainer, h.depends, hsize,
      h.homepage, ?_⟩, h.description⟩
    · simp only [List.forall_mem_cons]
      exact ⟨h.package, h.version, h.architecture, fun v hv => absurd hv List.not_mem_nil⟩
    · simp only [List.forall_mem_cons]
      exact ⟨h.filename, cleanText_toString _, hmd5, hsha1, hsha256,
        fun v hv => absurd hv List.not_mem_nil⟩

theorem UploadedRow.readDescription (r : UploadedRow c digests.format) :
    ReadDescription r.row.record.description := by
  obtain ⟨-, -, -, hfiled⟩ := digests_of_parse digests r.upload.parsed_content
  intro hclean
  cases hget : r.upload.parsed.control.get "Description" with
  | none =>
    have hempty : r.row.record.description = "" := by
      have hmetadata : r.upload.metadata.description = none := hget
      rw [DebVersionRow.record, UploadedRow.row, Upload.versionData]
      dsimp only
      rw [hmetadata]
      rfl
    rw [hempty]
    exact ⟨valueOk_of_line List.not_mem_nil, rfl⟩
  | some text =>
    have htext : r.row.record.description = text := by
      have hmetadata : r.upload.metadata.description = some text := hget
      rw [DebVersionRow.record, UploadedRow.row, Upload.versionData]
      dsimp only
      rw [hmetadata]
      rfl
    obtain ⟨value, hvalue, hfile⟩ := hfiled hget
    have hpoint := hclean.noPoint
    rw [htext, hfile, String.toList_ofList] at hpoint ⊢
    exact ⟨valueOk_trimEnd hvalue hpoint, List.rdropWhile_idempotent isWhitespace value⟩

/-- **The index says what its rows say** iff the fields of every upload are clean. -/
theorem packages_faithful_iff (rows : List (UploadedRow c digests.format)) :
    Faithful (rows.map UploadedRow.row) ↔ ∀ r ∈ rows, CleanRow r.row := by
  constructor
  · intro h r hr
    exact r.cleanRecord_iff.mp (h.cleanRecord _ (List.mem_map_of_mem hr))
  · intro h
    refine faithful_of_clean (fun row hrow => ?_) fun row hrow => ?_
    · obtain ⟨r, -, rfl⟩ := List.mem_map.mp hrow
      exact r.readDescription
    · obtain ⟨r, hr, rfl⟩ := List.mem_map.mp hrow
      exact r.cleanRecord_iff.mpr (h r hr)

end

/-! ### A section with a blank line -/

/-- A control file whose section ends its stanza and begins another. -/
def brokenControl : String :=
  "Package: demo\nVersion: 1.0\nArchitecture: amd64\n" ++
    "Section: web\n .\n Package: other\n Version: 9\n"

def brokenFields : ControlFile :=
  ⟨[("Section", "web\n\nPackage: other\nVersion: 9"), ("Architecture", "amd64"),
    ("Version", "1.0"), ("Package", "demo")]⟩

def brokenDigests : DebDigests where
  controlText _ := some brokenControl
  md5 _ := []
  sha1 _ := []
  sha256 _ := []

theorem parse_brokenControl : ControlFile.parse brokenControl = .ok brokenFields := by decide

def brokenUpload : Upload brokenDigests.format where
  distribution := "stable"
  component := "main"
  architecture := "amd64"
  package := "demo"
  version := "1.0"
  fileName := "demo_1.0_amd64.deb"
  content := []
  parsed := ⟨brokenFields, 0, "", "", ""⟩
  parsed_content := by
    have hcontrol : brokenDigests.format.controlText [] = some brokenControl := rfl
    rw [parseDebPackage, hcontrol]
    dsimp only
    rw [parse_brokenControl]
    rfl

/-- A section with a blank line adds a stanza for another package. -/
theorem not_faithful_section : ¬ ∀ (c : Collation) (digests : DebDigests)
    (rows : List (UploadedRow c digests.format)), Faithful (rows.map UploadedRow.row) := by
  intro h
  have hclean := (h .exact brokenDigests [⟨brokenUpload, brokenUpload, rfl⟩]).cleanRecord _
    List.mem_cons_self
  have hsection := (forall_mem_rawFields.mp hclean.raw).2.1 _ rfl
  exact hsection.1 (by decide)

end Pkgly.Deb
