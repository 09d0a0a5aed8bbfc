import Pkgly.Deb.Equiv.Metadata
import Pkgly.Deb.Packages

/-!
# Stanzas that are read back

The `Packages` index is read stanza by stanza, and a stanza by `ControlFile::parse`; it is
`Faithful` if this gives the fields of its rows.  So it is if the fields, which are written as they
are, are trimmed texts without line breaks, and the description begins in its first column, has no
line that ends with a carriage return and does not end with a line that is a point
(`faithful_of_clean`).
-/

namespace Pkgly.Deb

/-! ### Stanzas -/

def isBlankLine (s : String) : Bool := isBlank s.toList

def indexStanzas (body : String) : List String :=
  (((pieces '\n' body).splitOnP isBlankLine).filter (· ≠ [])).map (terminated '\n')

def optionalField (label : String) (value : Option String) : List (String × String) :=
  (value.map fun value => (label, value)).toList

def rawFields (record : PackagesRecord) : List (String × String) :=
  [("Package", record.package), ("Version", record.version),
    ("Architecture", record.architecture)] ++
  (optionalField "Section" record.section ++ (optionalField "Priority" record.priority ++
  (optionalField "Maintainer" record.maintainer ++ (optionalField "Depends" record.depends ++
  (optionalField "Installed-Size" (record.installedSize.map toString) ++
  (optionalField "Homepage" record.homepage ++
  [("Filename", record.filename), ("Size", toString record.size), ("MD5sum", record.md5),
    ("SHA1", record.sha1), ("SHA256", record.sha256)]))))))

def recordFields (record : PackagesRecord) : List (String × String) :=
  rawFields record ++ [("Description", record.description)]

def Faithful (rows : List DebVersionRow) : Prop :=
  List.Forall₂ (fun stanza row => ∃ control, ControlFile.parse stanza = .ok control ∧
    control.fields.Perm (recordFields row.record)) (indexStanzas (buildPackagesIndex rows)) rows

def labels : List String :=
  ["Package", "Version", "Architecture", "Section", "Priority", "Maintainer", "Depends",
    "Installed-Size", "Homepage", "Filename", "Size", "MD5sum", "SHA1", "SHA256", "Description"]

theorem isLabel_of_mem : ∀ label ∈ labels, IsLabel label := by decide

theorem map_fst_optionalField (label : String) (value : Option String) :
    ((optionalField label value).map Prod.fst).Sublist [label] := by
  cases value with
  | none => exact List.nil_sublist _
  | some value => exact List.Sublist.refl _

theorem sublist_labels (record : PackagesRecord) :
    ((recordFields record).map Prod.fst).Sublist labels := by
  simp only [recordFields, rawFields, List.map_append]
  have hoptional := map_fst_optionalField
  refine List.Sublist.append (show List.Sublist _ labels.dropLast from ?_)
    (List.Sublist.refl ["Description"])
  refine List.Sublist.append (List.Sublist.refl ["Package", "Version", "Architecture"]) ?_
  refine List.Sublist.append (hoptional "Section" _) (List.Sublist.append (hoptional "Priority" _)
    (List.Sublist.append (hoptional "Maintainer" _) (List.Sublist.append (hoptional "Depends" _)
      (List.Sublist.append (hoptional "Installed-Size" _)
        (List.Sublist.append (hoptional "Homepage" _) (List.Sublist.refl _))))))

/-! ### The texts of an entry -/

def labelText (field : String × String) : String := field.1 ++ ": " ++ field.2

def detailText (line : List Char) : String :=
  if line.isEmpty then " ." else " " ++ String.ofList line

def descriptionTexts (description : String) : List String :=
  match splitOnce ['\n'] description.toList with
  | some (summary, rest) =>
    labelText ("Description", String.ofList summary) ::
      (lines (String.ofList rest)).map detailText
  | none => [labelText ("Description", description)]

/-- What is written of a record; the texts of its fields may have line breaks. -/
def entryTexts (record : PackagesRecord) : List String :=
  (rawFields record).map labelText ++ (descriptionTexts record.description ++ [""])

theorem terminated_append (sep : Char) (a b : List String) :
    terminated sep (a ++ b) = terminated sep a ++ terminated sep b := by
  rw [terminated, List.map_append, String.join_append]
  rfl

theorem pushLabelValue_eq (label value : String) :
    pushLabelValue label value = terminated '\n' [labelText (label, value)] := by
  rw [terminated_cons]
  simp [terminated, pushLabelValue, labelText]

theorem pushOptional_eq (label : String) (value : Option String) :
    pushOptional label value = terminated '\n' ((optionalField label value).map labelText) := by
  cases value with
  | none => rfl
  | some value => exact pushLabelValue_eq label value

theorem formatDescription_eq (description : String) :
    formatDescription description = terminated '\n' (descriptionTexts description) := by
  unfold formatDescription descriptionTexts
  cases splitOnce ['\n'] description.toList with
  | none => exact pushLabelValue_eq _ _
  | some cut =>
    have hline : descriptionLine = (fun s => s ++ String.ofList ['\n']) ∘ detailText := by
      funext line
      rw [Function.comp_apply, descriptionLine, detailText]
      split_ifs
      · rfl
      · rfl
    dsimp only
    rw [← List.singleton_append, terminated_append, ← pushLabelValue_eq, terminated, List.map_map,
      hline]

theorem formatPackagesEntry_eq (record : PackagesRecord) :
    formatPackagesEntry record = terminated '\n' (entryTexts record) := by
  have hend : "\n" = terminated '\n' [""] := by decide
  have hfirst : pushLabelValue "Package" record.package ++
      (pushLabelValue "Version" record.version ++
        pushLabelValue "Architecture" record.architecture) =
      terminated '\n' ([("Package", record.package), ("Version", record.version),
        ("Architecture", record.architecture)].map labelText) := by
    rw [pushLabelValue_eq, pushLabelValue_eq, pushLabelValue_eq, ← terminated_append,
      ← terminated_append]
    rfl
  have hlast : pushLabelValue "Filename" record.filename ++
      (pushLabelValue "Size" (toString record.size) ++ (pushLabelValue "MD5sum" record.md5 ++
        (pushLabelValue "SHA1" record.sha1 ++ pushLabelValue "SHA256" record.sha256))) =
      terminated '\n' ([("Filename", record.filename), ("Size", toString record.size),
        ("MD5sum", record.md5), ("SHA1", record.sha1),
        ("SHA256", record.sha256)].map labelText) := by
    rw [pushLabelValue_eq, pushLabelValue_eq, pushLabelValue_eq, pushLabelValue_eq,
      pushLabelValue_eq, ← terminated_append, ← terminated_append, ← terminated_append,
      ← terminated_append]
    rfl
  rw [entryTexts, rawFields]
  simp only [List.map_append, terminated_append, ← hfirst, ← hlast, ← hend, ← pushOptional_eq,
    ← formatDescription_eq, formatPackagesEntry, String.append_assoc]

theorem buildPackagesIndex_eq (rows : List DebVersionRow) :
    buildPackagesIndex rows = terminated '\n' (rows.flatMap fun row => entryTexts row.record) := by
  rw [buildPackagesIndex]
  induction rows with
  | nil => rfl
  | cons row rows ih =>
    rw [List.map_cons, String.join_cons, List.flatMap_cons, terminated_append, ← ih,
      formatPackagesEntry_eq]

/-! ### Clean fields -/

/-- A trimmed text without line breaks. -/
def CleanText (s : String) : Prop := '\n' ∉ s.toList ∧ trim s = s.toList

instance (s : String) : Decidable (CleanText s) := inferInstanceAs (Decidable (_ ∧ _))

/-- A description that begins in its first column, has no line that ends with a carriage return and
does not end with a line that is a point. -/
structure CleanDescription (s : String) : Prop where
  start : ∀ ch, (pieces '\n' s).head?.bind (fun line => line.toList.head?) = some ch →
    isWhitespace ch = false
  noReturn : ∀ line ∈ (pieces '\n' s).dropLast, line.toList.getLast? ≠ some '\r'
  noPoint : ¬ ['\n', '.'] <:+ s.toList

structure CleanRecord (record : PackagesRecord) : Prop where
  raw : ∀ field ∈ rawFields record, CleanText field.2
  description : CleanDescription record.description

variable {s : String} {field : String × String} {rest : List (List Char)} {record : PackagesRecord}

theorem getLast_of_trim (h : trim s = s.toList) (ch : Char)
    (hch : s.toList.getLast? = some ch) : isWhitespace ch = false := by
  have htrim : trimWhile isWhitespace s.toList = s.toList := h
  rw [← htrim] at hch
  exact getLast?_trimWhile hch

theorem CleanText.stripReturn_eq (h : CleanText s) : stripReturn s.toList = s.toList :=
  stripReturn_eq_self fun hlast => by
    have hnot := getLast_of_trim h.2 '\r' hlast
    rw [isWhitespace_return] at hnot
    cases hnot

theorem CleanText.dropWhile_eq (h : CleanText s) : s.toList.dropWhile isWhitespace = s.toList := by
  have htrim : trimWhile isWhitespace s.toList = s.toList := h.2
  grind [dropWhile_eq_self_of_head?, head?_trimWhile]

theorem CleanText.trimEnd_eq (h : CleanText s) : trimEnd s.toList = s.toList :=
  trimEnd_eq_self_iff.mpr (getLast_of_trim h.2)

theorem ControlParser.lines_append (st : ControlParser) (a b : List (List Char)) :
    st.lines (a ++ b) = (st.lines a).bind fun st => st.lines b := by
  induction a generalizing st with
  | nil => rfl
  | cons line a ih =>
    rw [List.cons_append, ControlParser.lines, ControlParser.lines]
    cases st.line line with
    | error e => rfl
    | ok next => exact ih next

theorem toList_labelText (field : String × String) :
    (labelText field).toList = field.1.toList ++ ':' :: ' ' :: field.2.toList := by
  rw [labelText, String.toList_append, String.toList_append, List.append_assoc]
  rfl

theorem ControlParser.line_clean (hlabel : IsLabel field.1)
    (hclean : CleanText field.2) (st : ControlParser) (hok : st.Ok)
    (hnew : field.1 ∉ st.flush.fields.map Prod.fst) :
    ∃ st', st.line (stripReturn (labelText field).toList) = .ok st' ∧ st'.Ok ∧
      st'.flush.fields = field :: st.flush.fields := by
  refine ⟨_, by rw [toList_labelText]; exact st.line_label hlabel hok field.2.toList,
    fun hnone => (Option.some_ne_none _ hnone).elim, ?_⟩
  have hfilter : st.flush.fields.filter (fun other => decide (other.1 ≠ field.1)) =
      st.flush.fields := by aesop
  rw [hclean.stripReturn_eq, hclean.dropWhile_eq, ControlParser.flush]
  dsimp only
  rw [hclean.trimEnd_eq, String.ofList_toList, hfilter]

theorem ControlParser.lines_clean (st : ControlParser) {fields : List (String × String)}
    (hfields : ∀ field ∈ fields, IsLabel field.1 ∧ CleanText field.2) (hok : st.Ok)
    (hnodup : ((fields ++ st.flush.fields).map Prod.fst).Nodup) :
    ∃ st', st.lines (fields.map fun field => stripReturn (labelText field).toList) = .ok st' ∧
      st'.Ok ∧ st'.flush.fields.Perm (fields ++ st.flush.fields) := by
  induction fields generalizing st with
  | nil => exact ⟨st, rfl, hok, List.Perm.refl _⟩
  | cons field fields ih =>
    obtain ⟨hlabel, hclean⟩ := hfields field List.mem_cons_self
    rw [List.cons_append, List.map_cons, List.nodup_cons, List.map_append, List.mem_append,
      not_or] at hnodup
    obtain ⟨next, hnext, hnextOk, hflush⟩ := st.line_clean hlabel hclean hok hnodup.1.2
    have hperm : (fields ++ next.flush.fields).Perm (field :: (fields ++ st.flush.fields)) := by
      rw [hflush]
      exact List.perm_middle
    obtain ⟨st', hst', hok', hfiled⟩ := ih next
      (fun other hother => hfields other (List.mem_cons_of_mem field hother)) hnextOk
      ((hperm.map _).nodup_iff.mpr (List.nodup_cons.mpr
        ⟨by rw [List.map_append, List.mem_append, not_or]; exact hnodup.1,
          by rw [List.map_append]; exact hnodup.2⟩))
    refine ⟨st', ?_, hok', hfiled.trans hperm⟩
    rw [List.map_cons, ControlParser.lines, hnext]
    exact hst'

/-! ### Clean descriptions -/

theorem splitOn_flatMap {summary : List Char} (hsummary : '\n' ∉ summary)
    (hrest : ∀ line ∈ rest, '\n' ∉ line) :
    (summary ++ rest.flatMap fun line => '\n' :: line).splitOn '\n' = summary :: rest := by
  induction rest generalizing summary with
  | nil => rw [List.flatMap_nil, List.append_nil, List.splitOn_eq_singleton hsummary]
  | cons line rest ih =>
    simp_all [List.flatMap_cons, List.cons_append, List.splitOn_append_cons_self,
      List.splitOn_eq_singleton]

theorem ControlParser.lines_details (st : ControlParser) (hrest : ∀ line ∈ rest,
      (line = [] ∨ isBlank line = false ∧ line ≠ ['.']) ∧ line.getLast? ≠ some '\r')
    (hkey : st.currentKey.isNone = false)
    (hvalue : st.currentValue = [] → ∀ line ∈ rest.head?, line = []) :
    st.lines (rest.map fun line => stripReturn (detailText line).toList) =
      .ok { st with currentValue :=
        st.currentValue ++ rest.flatMap fun line => '\n' :: line } := by
  induction rest generalizing st with
  | nil =>
    rw [List.flatMap_nil, List.append_nil]
    rfl
  | cons line rest ih =>
    obtain ⟨hform, hlast⟩ := hrest line List.mem_cons_self
    have hnext : st.line (stripReturn (detailText line).toList) =
        .ok { st with currentValue := st.currentValue ++ '\n' :: line } := by
      rw [detailText]
      rcases hform with rfl | ⟨hblank, hpoint⟩
      · have hstrip : stripReturn (if ([] : List Char).isEmpty then " ."
            else " " ++ String.ofList []).toList = ' ' :: ['.'] := by decide
        rw [hstrip, st.line_continuation (by decide), hkey, if_neg Bool.false_ne_true, addLine,
          if_pos rfl]
      · have hne : line.isEmpty = false := by
          cases line with
          | nil => cases hblank
          | cons => rfl
        have hcurrent : st.currentValue.isEmpty = false := by
          cases hlist : st.currentValue with
          | nil =>
            have hnil := hvalue hlist line rfl
            rw [hnil] at hne
            cases hne
          | cons => rfl
        have hstrip : stripReturn (' ' :: line) = ' ' :: line := by
          refine stripReturn_eq_self ?_
          cases line with
          | nil => cases hne
          | cons a line =>
            rw [List.getLast?_cons_cons]
            exact hlast
        have htext : (" " ++ String.ofList line).toList = ' ' :: line := by simp
        rw [hne, if_neg Bool.false_ne_true, htext, hstrip,
          st.line_continuation (by rw [isBlank_cons_space, hblank]), hkey,
          if_neg Bool.false_ne_true, addLine, if_neg hpoint, hcurrent, if_neg Bool.false_ne_true,
          List.append_assoc]
        rfl
    have hne : st.currentValue ++ '\n' :: line = [] → ∀ other ∈ rest.head?, other = [] :=
      fun hnil => absurd hnil (List.append_ne_nil_of_right_ne_nil _ (List.cons_ne_nil _ _))
    rw [List.map_cons, ControlParser.lines, hnext]
    dsimp only
    rw [ih { st with currentValue := st.currentValue ++ '\n' :: line }
      (fun other hother => hrest other (List.mem_cons_of_mem line hother)) hkey hne,
      List.flatMap_cons, List.append_assoc]

theorem lines_ofList {first : List Char}
    (hlines : ∀ line ∈ first :: rest, '\n' ∉ line ∧ line.getLast? ≠ some '\r')
    (hlast : (first :: rest).getLast? ≠ some []) :
    Pkgly.lines (String.ofList (first ++ rest.flatMap fun line => '\n' :: line)) =
      first :: rest := by
  have hsplit := splitOn_flatMap (hlines first List.mem_cons_self).1
    fun line hline => (hlines line (List.mem_cons_of_mem first hline)).1
  have hstrip : (first :: rest).dropLast.map stripReturn = (first :: rest).dropLast := by
    refine (List.map_congr_left fun line hline => ?_).trans (List.map_id _)
    exact stripReturn_eq_self (hlines line (List.mem_of_mem_dropLast hline)).2
  have hne : (first :: rest) ≠ [] := List.cons_ne_nil first rest
  rw [List.getLast?_eq_some_getLast hne] at hlast
  have hfilter : ((first :: rest).getLast?.filter fun last => !last.isEmpty) =
      some ((first :: rest).getLast hne) := by aesop
  rw [Pkgly.lines, String.toList_ofList, hsplit, hfilter]
  have hdrop : (first :: rest).dropLast.map (fun line =>
      (stripSuffix ['\r'] line).getD line) = (first :: rest).dropLast := hstrip
  rw [hdrop]
  exact List.dropLast_append_getLast hne

structure DescriptionLines (d : String) (summary : List Char) (rest : List (List Char)) : Prop where
  toList_eq : d.toList = summary ++ rest.flatMap fun line => '\n' :: line
  texts : descriptionTexts d =
    labelText ("Description", String.ofList summary) :: rest.map detailText
  newline_notMem : '\n' ∉ summary
  noReturn : summary.getLast? ≠ some '\r'
  start : summary.dropWhile isWhitespace = summary
  details : ∀ line ∈ rest, '\n' ∉ line ∧ (line = [] ∨ isBlank line = false ∧ line ≠ ['.']) ∧
    line.getLast? ≠ some '\r'
  head : summary = [] → ∀ line ∈ rest.head?, line = []

theorem exists_descriptionLines {d : String} (hvalue : ValueOk d.toList)
    (htrim : trimEnd d.toList = d.toList) (hclean : CleanDescription d) :
    ∃ summary rest, DescriptionLines d summary rest := by
  obtain ⟨summary, rest, hd, hsummary, hrest, hhead⟩ := hvalue
  have hpieces : pieces '\n' d = (summary :: rest).map String.ofList := by
    rw [pieces, hd, splitOn_flatMap hsummary fun line hline => (hrest line hline).1]
  have hstart : summary.dropWhile isWhitespace = summary := by
    refine dropWhile_eq_self_of_head? fun ch hch => hclean.start ch ?_
    rw [hpieces, List.map_cons, List.head?_cons, Option.bind_some, String.toList_ofList, hch]
  have hend : ∀ ch, d.toList.getLast? = some ch → isWhitespace ch = false :=
    trimEnd_eq_self_iff.mp htrim
  have hendReturn : d.toList.getLast? ≠ some '\r' := by grind [hnot, isWhitespace_return]
  cases rest with
  | nil =>
    rw [List.flatMap_nil, List.append_nil] at hd
    have hnone : splitOnce ['\n'] d.toList = none := splitOnce_eq_none (hd ▸ hsummary)
    have htexts : descriptionTexts d = [labelText ("Description", String.ofList summary)] := by
      unfold descriptionTexts
      rw [hnone, ← hd, String.ofList_toList]
    exact ⟨summary, [], hd.trans (List.append_nil summary).symm, htexts, hsummary, hd ▸ hendReturn,
      hstart, fun _ hline => absurd hline List.not_mem_nil, fun _ _ hline => absurd hline (by simp)⟩
  | cons first rest =>
    have hsplit : splitOnce ['\n'] d.toList =
        some (summary, first ++ rest.flatMap fun line => '\n' :: line) := by
      rw [hd, List.flatMap_cons, List.cons_append]
      exact splitOnce_append hsummary _
    have hreturn : ∀ line ∈ summary :: (first :: rest).dropLast, line.getLast? ≠ some '\r' := by
      intro line hline
      have hmem : String.ofList line ∈ (pieces '\n' d).dropLast := by grind
      have hnot := hclean.noReturn _ hmem
      rwa [String.toList_ofList] at hnot
    -- the last line of the description ends where the description does
    have hlastLine : ∀ last, (first :: rest).getLast? = some last →
        last ≠ [] ∧ last.getLast? ≠ some '\r' := by
      intro last hlast
      obtain ⟨front, hfront⟩ := List.getLast?_eq_some_iff.mp hlast
      have hdlast : d.toList = (summary ++ front.flatMap fun line => '\n' :: line) ++
          '\n' :: last := by
        rw [hd, hfront, List.flatMap_append, List.append_assoc]
        simp
      rw [hdlast, List.getLast?_append] at hend hendReturn
      cases last with
      | nil =>
        have hnewline := hend '\n' rfl
        exact absurd hnewline (by decide)
      | cons a last =>
        grind
    have hlines : ∀ line ∈ first :: rest, '\n' ∉ line ∧ line.getLast? ≠ some '\r' := by
      intro line hline
      refine ⟨(hrest line hline).1, ?_⟩
      have hsplitLast := List.dropLast_append_getLast (List.cons_ne_nil first rest)
      rw [← hsplitLast, List.mem_append, List.mem_singleton] at hline
      rcases hline with hline | rfl
      · exact hreturn line (List.mem_cons_of_mem summary hline)
      · exact (hlastLine _ (List.getLast?_eq_some_getLast _)).2
    have htexts : descriptionTexts d =
        labelText ("Description", String.ofList summary) :: (first :: rest).map detailText := by
      unfold descriptionTexts
      rw [hsplit]
      dsimp only
      rw [lines_ofList hlines fun hnil => (hlastLine [] hnil).1 rfl]
    exact ⟨summary, first :: rest, hd, htexts, hsummary, hreturn summary List.mem_cons_self, hstart,
      fun line hline => ⟨(hrest line hline).1, (hrest line hline).2, (hlines line hline).2⟩, hhead⟩

section
variable {d : String} {summary : List Char} {rest : List (List Char)}

theorem DescriptionLines.lines_eq (h : DescriptionLines d summary rest) (st : ControlParser)
    (hok : st.Ok) : st.lines ((descriptionTexts d).map fun s => stripReturn s.toList) =
      .ok ⟨st.flush.fields, some "Description", d.toList⟩ := by
  have hdetails := ControlParser.lines_details ⟨st.flush.fields, some "Description", summary⟩
    (fun line hline => (h.details line hline).2) rfl h.head
  rw [← h.toList_eq] at hdetails
  have hlabel : IsLabel "Description" := by decide
  have hfirst := st.line_label hlabel hok summary
  rw [stripReturn_eq_self h.noReturn, h.start] at hfirst
  have htext : (labelText ("Description", String.ofList summary)).toList =
      "Description".toList ++ ':' :: ' ' :: summary := by
    rw [toList_labelText]
    simp only [String.toList_ofList (l := summary)]
  rw [h.texts, List.map_cons, ControlParser.lines, htext, hfirst, List.map_map]
  exact hdetails

end

/-! ### Clean stanzas -/

theorem newline_notMem_of_mem : ∀ label ∈ labels, '\n' ∉ label.toList := by decide

theorem isBlank_labelText (field : String × String) (h : IsLabel field.1) :
    isBlank (labelText field).toList = false := by
  obtain ⟨ch, rest, hhead, hch⟩ := h.head
  rw [toList_labelText, hhead, List.cons_append, isBlank,
    List.dropWhile_cons_of_neg (by rw [hch]; exact Bool.false_ne_true)]
  rfl

theorem newline_notMem_labelText (hlabel : '\n' ∉ field.1.toList)
    (hvalue : '\n' ∉ field.2.toList) : '\n' ∉ (labelText field).toList := by
  grind [toList_labelText, absurd]

def IsStanzaLine (s : String) : Prop := '\n' ∉ s.toList ∧ isBlankLine s = false

theorem DescriptionLines.isStanzaLine {d : String} {summary : List Char}
    (h : DescriptionLines d summary rest) (hs : s ∈ descriptionTexts d) : IsStanzaLine s := by
  rw [h.texts, List.mem_cons, List.mem_map] at hs
  rcases hs with rfl | ⟨line, hline, rfl⟩
  · have hlabel : "Description" ∈ labels := by decide
    refine ⟨newline_notMem_labelText (newline_notMem_of_mem _ hlabel) ?_,
      isBlank_labelText _ (isLabel_of_mem _ hlabel)⟩
    rw [String.toList_ofList]
    exact h.newline_notMem
  · obtain ⟨hnewline, hform, -⟩ := h.details line hline
    rw [detailText, IsStanzaLine]
    rcases hform with rfl | ⟨hblank, -⟩
    · decide
    · have hne : line.isEmpty = false := by
        cases line with
        | nil => cases hblank
        | cons => rfl
      have htext : (" " ++ String.ofList line).toList = ' ' :: line := by simp
      simp [isBlankLine, isBlank_cons_space, hne, htext, hblank, hnewline]

def contentTexts (record : PackagesRecord) : List String :=
  (rawFields record).map labelText ++ descriptionTexts record.description

theorem entryTexts_eq (record : PackagesRecord) :
    entryTexts record = contentTexts record ++ [""] :=
  (List.append_assoc _ _ _).symm

theorem mem_labels (h : field ∈ recordFields record) : field.1 ∈ labels :=
  (sublist_labels record).subset (List.mem_map_of_mem h)

def ReadDescription (d : String) : Prop :=
  CleanDescription d → ValueOk d.toList ∧ trimEnd d.toList = d.toList

theorem CleanRecord.isStanzaLine (h : CleanRecord record)
    (hread : ReadDescription record.description) (hs : s ∈ contentTexts record) :
    IsStanzaLine s := by
  rcases List.mem_append.mp hs with hs | hs
  · obtain ⟨field, hfield, rfl⟩ := List.mem_map.mp hs
    have hlabel := mem_labels (List.mem_append_left _ hfield)
    exact ⟨newline_notMem_labelText (newline_notMem_of_mem _ hlabel) (h.raw field hfield).1,
      isBlank_labelText _ (isLabel_of_mem _ hlabel)⟩
  · obtain ⟨hvalue, htrim⟩ := hread h.description
    obtain ⟨summary, rest, hlines⟩ := exists_descriptionLines hvalue htrim h.description
    exact hlines.isStanzaLine hs

theorem CleanRecord.parse (h : CleanRecord record) (hread : ReadDescription record.description) :
    ∃ control, ControlFile.parse (terminated '\n' (contentTexts record)) = .ok control ∧
      control.fields.Perm (recordFields record) := by
  have hnodup : labels.Nodup := by decide
  have hkeys := (sublist_labels record).nodup hnodup
  obtain ⟨hvalue, htrim⟩ := hread h.description
  obtain ⟨summary, rest, hlines⟩ := exists_descriptionLines hvalue htrim h.description
  have hnil : rawFields record ++ (⟨[], none, []⟩ : ControlParser).flush.fields =
      rawFields record := List.append_nil _
  have hrawKeys : ((rawFields record).map Prod.fst).Nodup := by
    rw [recordFields, List.map_append] at hkeys
    exact hkeys.of_append_left
  rw [← hnil] at hrawKeys
  obtain ⟨st, hst, hok, hperm⟩ := ControlParser.lines_clean ⟨[], none, []⟩
    (fun field hfield => ⟨isLabel_of_mem _ (mem_labels (List.mem_append_left _ hfield)),
      h.raw field hfield⟩) (fun _ => rfl) hrawKeys
  rw [hnil] at hperm
  have hrun : (⟨[], none, []⟩ : ControlParser).lines
      ((contentTexts record).map fun s => stripReturn s.toList) =
        .ok ⟨st.flush.fields, some "Description", record.description.toList⟩ := by
    rw [contentTexts, List.map_append, List.map_map, ControlParser.lines_append]
    have hfirst : (⟨[], none, []⟩ : ControlParser).lines ((rawFields record).map
        ((fun s => stripReturn s.toList) ∘ labelText)) = .ok st := hst
    rw [hfirst]
    exact hlines.lines_eq st hok
  have hnew : "Description" ∉ st.flush.fields.map Prod.fst := by
    intro hmem
    have hmem := (hperm.map Prod.fst).mem_iff.mp hmem
    rw [recordFields, List.map_append] at hkeys
    exact (List.nodup_append.mp hkeys).2.2 _ hmem _ List.mem_cons_self rfl
  have hfilter : st.flush.fields.filter (fun other => decide (other.1 ≠ "Description")) =
      st.flush.fields := by
    refine List.filter_eq_self.mpr fun other hother => decide_eq_true ?_
    rintro heq
    exact hnew (heq ▸ List.mem_map_of_mem hother)
  have hflush : (⟨st.flush.fields, some "Description", record.description.toList⟩ :
      ControlParser).flush.fields = ("Description", record.description) :: st.flush.fields := by
    rw [ControlParser.flush]
    dsimp only
    rw [htrim, String.ofList_toList, hfilter]
  refine ⟨⟨("Description", record.description) :: st.flush.fields⟩, ?_, ?_⟩
  · rw [ControlFile.parse, lines_terminated fun s hs => (h.isStanzaLine hread hs).1, hrun]
    dsimp only
    rw [hflush]
  · exact (hperm.cons _).trans (List.perm_append_singleton _ _).symm

theorem pieces_terminated (parts : List String) :
    pieces '\n' (terminated '\n' parts) = parts.flatMap (pieces '\n') ++ [""] := by
  induction parts with
  | nil => decide
  | cons a parts ih =>
    rw [terminated_cons, pieces_append, ih, List.flatMap_cons, List.append_assoc]

theorem contentTexts_ne_nil (record : PackagesRecord) : contentTexts record ≠ [] :=
  List.append_ne_nil_of_left_ne_nil (List.cons_ne_nil _ _) _

theorem stanzas_of_clean {rows : List DebVersionRow}
    (h : ∀ row ∈ rows, ∀ s ∈ contentTexts row.record, IsStanzaLine s) :
    indexStanzas (buildPackagesIndex rows) =
      rows.map fun row => terminated '\n' (contentTexts row.record) := by
  have hgroups : ((rows.flatMap fun row => entryTexts row.record) ++ [""]).splitOnP isBlankLine =
      (rows.map fun row => contentTexts row.record) ++ [[], []] := by
    induction rows with
    | nil => decide
    | cons row rows ih =>
      have hrow := h row List.mem_cons_self
      have hblank : isBlankLine "" = true := rfl
      rw [List.flatMap_cons, entryTexts_eq, List.append_assoc, List.append_assoc,
        List.singleton_append, List.splitOnP_append_cons _ _ hblank,
        List.splitOnP_eq_singleton fun s hs => (hrow s hs).2,
        ih fun other hother => h other (List.mem_cons_of_mem row hother)]
      rfl
  have hlines : (rows.flatMap fun row => entryTexts row.record).flatMap (pieces '\n') =
      rows.flatMap fun row => entryTexts row.record := by
    refine (List.flatMap_congr fun s hs => ?_).trans (List.flatMap_singleton' _)
    obtain ⟨row, hrow, hs⟩ := List.mem_flatMap.mp hs
    rw [entryTexts_eq, List.mem_append, List.mem_singleton] at hs
    rcases hs with hs | rfl
    · exact pieces_eq_singleton (h row hrow s hs).1
    · decide
  have hfilter : ((rows.map fun row : DebVersionRow => contentTexts row.record) ++
      [[], []]).filter (· ≠ []) = rows.map fun row => contentTexts row.record := by
    rw [List.filter_append]
    have hnil : [([] : List String), []].filter (· ≠ []) = [] := by decide
    rw [hnil, List.append_nil]
    refine List.filter_eq_self.mpr fun texts htexts => decide_eq_true ?_
    obtain ⟨row, -, rfl⟩ := List.mem_map.mp htexts
    exact contentTexts_ne_nil row.record
  rw [indexStanzas, buildPackagesIndex_eq, pieces_terminated, hlines, hgroups, hfilter, List.map_map]
  rfl

theorem faithful_of_clean {rows : List DebVersionRow}
    (hread : ∀ row ∈ rows, ReadDescription row.record.description)
    (hclean : ∀ row ∈ rows, CleanRecord row.record) : Faithful rows := by
  rw [Faithful, stanzas_of_clean fun row hrow s hs =>
    (hclean row hrow).isStanzaLine (hread row hrow) hs]
  refine List.forall₂_map_left_iff.mpr (List.forall₂_same.mpr fun row hrow => ?_)
  exact (hclean row hrow).parse (hread row hrow)

end Pkgly.Deb
