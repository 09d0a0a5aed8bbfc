import Pkgly.Helm.Hosted

/-!
# The archives of charts

The loop over the entries of an archive stops at the first `Chart.yaml`, so that nothing behind it
is checked (`archiveChecked_iff`).
-/

namespace Pkgly.Helm

/-! ### Archives -/

inductive PathComponent
  | rootDir
  | curDir
  | parentDir
  | normal (segment : String)
deriving DecidableEq

/-- `Path::components`: a dot is kept only at the start of a relative path. -/
def pathComponents (path : String) : List PathComponent :=
  let parts := segments '/' path
  let components := (parts.filter (· ≠ ".")).map fun part =>
    if part = ".." then .parentDir else .normal part
  if startsWith "/" path then .rootDir :: components
  else if parts.head? = some "." then .curDir :: components
  else components

/-- An entry of a tarball; its content may be unreadable. -/
structure TarEntry where
  path : String
  isDir : Bool
  content : Except String Bytes

abbrev TarEntries := List (Except String TarEntry)

inductive ChartParseError
  | chartTooLarge (limit : ℕ)
  | missingChartYaml
  | invalidChartYaml (message : String)
  | invalidPath (path : String)
  | tooManyFiles (limit : ℕ)
  | invalidArchive (message : String)
deriving DecidableEq

/-- `validate_entry_path`. -/
def validEntryPath (path : String) : Bool :=
  (pathComponents path).all fun component => component != .rootDir && component != .parentDir

/-- The path is that of a `Chart.yaml`, and none of its components is `charts`. -/
def isChartYaml (path : String) : Bool :=
  match (pathComponents path).getLast? with
  | some (.normal name) => eqIgnoreAsciiCase name "Chart.yaml" &&
      !(pathComponents path).contains (.normal "charts")
  | _ => false

/-- The loop of `parse_chart_archive`. -/
def findChartYaml (maxFileCount : ℕ) : ℕ → TarEntries → Except ChartParseError TarEntry
  | _, [] => .error .missingChartYaml
  | _, .error message :: _ => .error (.invalidArchive message)
  | fileCount, .ok entry :: entries =>
    if !validEntryPath entry.path then .error (.invalidPath entry.path)
    else if entry.isDir then findChartYaml maxFileCount fileCount entries
    else if maxFileCount < fileCount + 1 then .error (.tooManyFiles maxFileCount)
    else if isChartYaml entry.path then .ok entry
    else findChartYaml maxFileCount (fileCount + 1) entries

/-- `RawChartYaml`. -/
structure RawChartYaml where
  apiVersion : String
  name : String
  version : String
  fields : List (String × String)

/-- What the parser of archives is given: gzip and tar, `serde_yaml`, and `Version::parse`. -/
structure ChartLibraries where
  sha : Sha256
  entries : Bytes → Except String TarEntries
  fromSlice : Bytes → Except String RawChartYaml
  parseVersion : String → Except String String

variable (lib : ChartLibraries)

/-- What `parse_chart_archive` makes of a `Chart.yaml`. -/
def chartMetadata (entry : TarEntry) : Except ChartParseError HelmChartMetadata := do
  let content ← entry.content.mapError .invalidArchive
  let raw ← (lib.fromSlice content).mapError .invalidChartYaml
  if raw.apiVersion ≠ "v1" ∧ raw.apiVersion ≠ "v2" then
    throw (.invalidChartYaml ("unsupported apiVersion: " ++ raw.apiVersion))
  else
    let version ← (lib.parseVersion raw.version).mapError fun message =>
      .invalidChartYaml ("invalid version: " ++ message)
    pure ⟨raw.name, version, raw.fields⟩

def parseChartArchive (options : ChartValidationOptions) (bytes : Bytes) :
    Except ChartParseError ParsedChartArchive := do
  if options.maxChartSize < bytes.length then throw (.chartTooLarge options.maxChartSize)
  else
    let entries ← (lib.entries bytes).mapError .invalidArchive
    let entry ← findChartYaml options.maxFileCount 0 entries
    let metadata ← chartMetadata lib entry
    pure ⟨metadata, lib.sha.digest bytes, bytes.length⟩

/-! ### What is looked at -/

def fileCount (entries : TarEntries) : ℕ :=
  entries.countP fun entry => entry.toOption.any fun entry => !entry.isDir

/-- The entries stay within the limit and below the directory that they are unpacked in. -/
structure WithinLimits (maxFileCount : ℕ) (entries : TarEntries) : Prop where
  files : fileCount entries ≤ maxFileCount
  paths : ∀ entry, .ok entry ∈ entries → ∀ component ∈ pathComponents entry.path,
    component ≠ .rootDir ∧ component ≠ .parentDir

/-- The path is `<dir>/Chart.yaml`. -/
def IsTopLevel (entry : TarEntry) : Prop :=
  ∃ dir, pathComponents entry.path = [.normal dir, .normal "Chart.yaml"]

def ArchiveChecked (options : ChartValidationOptions) (bytes : Bytes) : Prop :=
  ∀ parsed, parseChartArchive lib options bytes = .ok parsed →
    ∃ entries, lib.entries bytes = .ok entries ∧ WithinLimits options.maxFileCount entries ∧
      ∃ entry, .ok entry ∈ entries ∧ IsTopLevel entry ∧
        findChartYaml options.maxFileCount 0 entries = .ok entry ∧
        chartMetadata lib entry = .ok parsed.metadata

/-- The loop comes to a `Chart.yaml` with nothing to refuse before it. -/
structure Reaches (maxFileCount count : ℕ) (before : TarEntries) (entry : TarEntry) : Prop where
  earlier : ∀ x ∈ before, ∃ e, x = .ok e ∧ validEntryPath e.path = true ∧
    (e.isDir = true ∨ isChartYaml e.path = false)
  files : count + fileCount before + 1 ≤ maxFileCount
  valid : validEntryPath entry.path = true
  isFile : entry.isDir = false
  isChart : isChartYaml entry.path = true

variable {lib} {maxFileCount count : ℕ} {entries before after : TarEntries} {entry : TarEntry}

theorem fileCount_cons (e : TarEntry) :
    fileCount (.ok e :: entries) = fileCount entries + if e.isDir then 0 else 1 := by
  cases hdir : e.isDir <;> simp [fileCount, Except.toOption, hdir]

theorem fileCount_append (hfile : entry.isDir = false) :
    fileCount (before ++ .ok entry :: after) = fileCount before + 1 + fileCount after := by
  have hcons := @fileCount_cons after entry
  rw [hfile] at hcons
  simp only [fileCount, List.countP_append] at hcons ⊢
  rw [hcons]
  simp only [Bool.false_eq_true, if_false]
  omega

theorem findChartYaml_of_reaches (h : Reaches maxFileCount count before entry) :
    findChartYaml maxFileCount count (before ++ .ok entry :: after) = .ok entry := by
  induction before generalizing count with
  | nil =>
    have hfiles := h.files
    simp only [fileCount, List.countP_nil] at hfiles
    rw [List.nil_append, findChartYaml, h.valid, h.isFile, h.isChart]
    simp only [Bool.not_true, Bool.false_eq_true, if_false, if_true]
    rw [if_neg (by omega)]
  | cons x before ih =>
    obtain ⟨e, rfl, hvalid, hother⟩ := h.earlier x List.mem_cons_self
    have hfiles := h.files
    rw [fileCount_cons] at hfiles
    have hrest : ∀ n, n + fileCount before + 1 ≤ maxFileCount →
        findChartYaml maxFileCount n (before ++ .ok entry :: after) = .ok entry := fun n hn =>
      ih ⟨fun y hy => h.earlier y (List.mem_cons_of_mem _ hy), hn, h.valid, h.isFile, h.isChart⟩
    rw [List.cons_append, findChartYaml, hvalid]
    cases hdir : e.isDir with
    | true =>
      rw [hdir] at hfiles
      simpa using hrest count hfiles
    | false =>
      rw [hdir] at hfiles hother
      have hchart := hother.resolve_left Bool.false_ne_true
      simp only [Bool.false_eq_true, if_false] at hfiles
      simp only [Bool.not_true, Bool.false_eq_true, if_false, hchart]
      rw [if_neg (by omega)]
      exact hrest (count + 1) (by omega)

theorem Reaches.cons {e : TarEntry} (hvalid : validEntryPath e.path = true)
    (hother : e.isDir = true ∨ isChartYaml e.path = false)
    (h : Reaches maxFileCount (count + if e.isDir then 0 else 1) before entry) :
    Reaches maxFileCount count (.ok e :: before) entry where
  earlier := List.forall_mem_cons.mpr ⟨⟨e, rfl, hvalid, hother⟩, h.earlier⟩
  files := by
    have hfiles := h.files
    rw [fileCount_cons]
    omega
  valid := h.valid
  isFile := h.isFile
  isChart := h.isChart

theorem exists_reaches (h : findChartYaml maxFileCount count entries = .ok entry) :
    ∃ before after, entries = before ++ .ok entry :: after ∧
      Reaches maxFileCount count before entry := by
  induction entries generalizing count with
  | nil => cases h
  | cons x entries ih =>
    cases x with
    | error message => cases h
    | ok e =>
      rw [findChartYaml] at h
      split_ifs at h with hvalid hdir hcount hchart
      · obtain ⟨before, after, rfl, hreach⟩ := ih h
        refine ⟨.ok e :: before, after, rfl, .cons (by simpa using hvalid) (.inl hdir) ?_⟩
        rwa [if_pos hdir]
      · cases h
        exact ⟨[], entries, rfl, nofun, Nat.not_lt.mp hcount, by simpa using hvalid,
          by simpa using hdir, hchart⟩
      · obtain ⟨before, after, rfl, hreach⟩ := ih h
        refine ⟨.ok e :: before, after, rfl,
          .cons (by simpa using hvalid) (.inr (by simpa using hchart)) ?_⟩
        rwa [if_neg hdir]

/-! ### The result -/

theorem validEntryPath_iff {path : String} : validEntryPath path = true ↔
    ∀ component ∈ pathComponents path, component ≠ .rootDir ∧ component ≠ .parentDir := by
  simp [validEntryPath]

theorem parseChartArchive_eq_ok_iff {options : ChartValidationOptions} {bytes : Bytes}
    {parsed : ParsedChartArchive} : parseChartArchive lib options bytes = .ok parsed ↔
      bytes.length ≤ options.maxChartSize ∧ ∃ entries entry metadata,
        lib.entries bytes = .ok entries ∧
        findChartYaml options.maxFileCount 0 entries = .ok entry ∧
        chartMetadata lib entry = .ok metadata ∧
        parsed = ⟨metadata, lib.sha.digest bytes, bytes.length⟩ := by
  unfold parseChartArchive
  split_ifs with hsize
  · exact iff_of_false nofun fun h => Nat.not_le.mpr hsize h.1
  · cases hentries : lib.entries bytes with
    | error message => simp [Except.mapError, Bind.bind, Except.bind]
    | ok entries =>
      cases hfind : findChartYaml options.maxFileCount 0 entries with
      | error e => simp [Except.mapError, Bind.bind, Except.bind, hfind]
      | ok entry =>
        cases hmetadata : chartMetadata lib entry with
        | error e => simp [Except.mapError, Bind.bind, Except.bind, hfind, hmetadata]
        | ok metadata =>
          have hsize := Nat.not_lt.mp hsize
          simp [Except.mapError, Bind.bind, Except.bind, Pure.pure, Except.pure, hfind, hmetadata,
            hsize, eq_comm]

/-- An archive that is not refused up to its first `Chart.yaml` is within the limits behind it too,
and this file lies at the top. -/
def RestChecked (lib : ChartLibraries) (options : ChartValidationOptions) (bytes : Bytes) : Prop :=
  ∀ before entry after, lib.entries bytes = .ok (before ++ .ok entry :: after) →
    Reaches options.maxFileCount 0 before entry → bytes.length ≤ options.maxChartSize →
      (∃ metadata, chartMetadata lib entry = .ok metadata) →
        fileCount before + 1 + fileCount after ≤ options.maxFileCount ∧
        (∀ e, .ok e ∈ after → validEntryPath e.path = true) ∧ IsTopLevel entry

theorem archiveChecked_iff (lib : ChartLibraries) (options : ChartValidationOptions)
    (bytes : Bytes) : ArchiveChecked lib options bytes ↔ RestChecked lib options bytes := by
  constructor
  · rintro h before entry after hentries hreach hsize ⟨metadata, hmetadata⟩
    have hfind : findChartYaml _ _ (before ++ .ok entry :: after) = .ok entry :=
      findChartYaml_of_reaches hreach
    obtain ⟨entries, hsame, hlimits, found, -, htop, hfound, -⟩ := h _
      (parseChartArchive_eq_ok_iff.mpr ⟨hsize, _, _, _, hentries, hfind, hmetadata, rfl⟩)
    obtain rfl := Except.ok.inj (hentries.symm.trans hsame)
    obtain rfl := Except.ok.inj (hfind.symm.trans hfound)
    refine ⟨?_, fun e he => validEntryPath_iff.mpr ?_, htop⟩
    · rw [← fileCount_append hreach.isFile]
      exact hlimits.files
    · exact hlimits.paths e (List.mem_append_right _ (List.mem_cons_of_mem _ he))
  · intro h parsed hparsed
    obtain ⟨hsize, entries, entry, metadata, hentries, hfind, hmetadata, rfl⟩ :=
      parseChartArchive_eq_ok_iff.mp hparsed
    obtain ⟨before, after, rfl, hreach⟩ := exists_reaches hfind
    obtain ⟨hfiles, hpaths, htop⟩ := h before entry after hentries hreach hsize ⟨_, hmetadata⟩
    refine ⟨_, hentries, ⟨?_, fun e he => validEntryPath_iff.mp ?_⟩, entry,
      List.mem_append_right _ List.mem_cons_self, htop, hfind, hmetadata⟩
    · rw [fileCount_append hreach.isFile]
      exact hfiles
    · rcases List.mem_append.mp he with he | he
      · obtain ⟨e', heq, hvalid, -⟩ := hreach.earlier _ he
        cases heq
        exact hvalid
      · rcases List.mem_cons.mp he with he | he
        · cases he
          exact hreach.valid
        · exact hpaths e he

def demoLibrary (entries : TarEntries) : ChartLibraries where
  sha := Sha256.hexText
  entries _ := .ok entries
  fromSlice _ := .ok ⟨"v2", "app", "1.0.0", []⟩
  parseVersion version := .ok version

/-- An entry behind the `Chart.yaml` leaves the directory of the chart. -/
theorem not_archiveChecked_behind : ¬ ∀ (lib : ChartLibraries) (options : ChartValidationOptions)
    (bytes : Bytes), ArchiveChecked lib options bytes := by
  intro h
  obtain ⟨entries, hentries, hlimits, -⟩ := h (demoLibrary
    [.ok ⟨"app/Chart.yaml", false, .ok []⟩, .ok ⟨"../evil", false, .ok []⟩]) ⟨1, 1⟩ [] _ rfl
  obtain rfl := Except.ok.inj hentries
  exact absurd hlimits.files (by decide)

end Pkgly.Helm
