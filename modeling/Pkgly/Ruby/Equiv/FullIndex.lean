import Mathlib.Data.Bool.AllAny
import Pkgly.Algorithm.Separated
import Pkgly.Ruby.FullIndex

/-!
# What a quick gemspec keeps

`Keeps` says that the object built for a gem is read back with the dependencies and the constraints
that were recorded, an absent constraint counting as `>= 0`.  This is so if and only if each
constraint is an operator and a version, two words with one space between them, and has no ampersand
(`keeps_iff`): other texts are dropped, cut short or split in two.
-/

namespace Pkgly.Ruby

/-! ### Constraints -/

/-- An operator and a version with one space between them, without an ampersand. -/
def IsConstraint (s : String) : Prop :=
  ∃ op version, IsWord op ∧ IsWord version ∧ s = op ++ " " ++ version ∧ '&' ∉ s.toList

def readConstraints (parts : List String) : List String :=
  (parts.filterMap parseSingleConstraint).map formatConstraint

def orDefault (constraints : List String) : List String :=
  if constraints.isEmpty then [">= 0"] else constraints

theorem isConstraint_default : IsConstraint ">= 0" :=
  ⟨">=", "0", ⟨by decide, List.all_iff_forall_prop.mp (by decide)⟩,
    ⟨by decide, List.all_iff_forall_prop.mp (by decide)⟩, by decide, by decide⟩

theorem orDefault_ne_nil (constraints : List String) : orDefault constraints ≠ [] := by
  unfold orDefault
  split_ifs with h
  · exact List.cons_ne_nil _ _
  · exact fun hnil => h (hnil ▸ rfl)

theorem orDefault_of_ne_nil {constraints : List String} (h : constraints ≠ []) :
    orDefault constraints = constraints := by
  rw [orDefault, if_neg (mt List.isEmpty_iff.mp h)]

theorem parseSingleConstraint_eq (input : String) : parseSingleConstraint input =
    match words input with
    | [single] => if single.toList.head?.any Char.isDigit then some ("=", single) else none
    | op :: version :: _ => some (op, version)
    | [] => none := by
  rw [parseSingleConstraint, words_trim]
  split_ifs with hempty
  · have hwords : words input = [] := by
      rw [← words_trim, hempty]
      decide
    rw [hwords]
  · rfl

theorem formatConstraint_of_isConstraint {s : String} (h : IsConstraint s) :
    (parseSingleConstraint s).map formatConstraint = some s := by
  obtain ⟨op, version, hop, hversion, rfl, -⟩ := h
  have hwords : words (op ++ " " ++ version) = [op, version] := by
    have htext : op ++ " " ++ version = op ++ (String.ofList [' '] ++ version) :=
      String.append_assoc
    rw [htext, words_append hop (by decide), words_of_isWord hversion]
  rw [parseSingleConstraint_eq, hwords]
  rfl

theorem isConstraint_of_parse {s : String} {constraint : String × String} (hs : '&' ∉ s.toList)
    (h : parseSingleConstraint s = some constraint) :
    IsConstraint (formatConstraint constraint) := by
  have hword : ∀ x ∈ words s, IsWord x ∧ '&' ∉ x.toList := fun x hx =>
    ⟨(of_mem_words hx).1, fun hin => hs ((of_mem_words hx).2 _ hin)⟩
  have hmake : ∀ op version : String, IsWord op ∧ '&' ∉ op.toList →
      IsWord version ∧ '&' ∉ version.toList → IsConstraint (formatConstraint (op, version)) := by
    rintro op version ⟨hop, hopfree⟩ ⟨hversion, hversionfree⟩
    refine ⟨op, version, hop, hversion, rfl, ?_⟩
    rw [formatConstraint, String.toList_append, String.toList_append, List.mem_append,
      List.mem_append, not_or, not_or]
    exact ⟨⟨hopfree, by decide⟩, hversionfree⟩
  rw [parseSingleConstraint_eq] at h
  split at h
  · rename_i single hwords
    split_ifs at h with hdigit
    obtain rfl := Option.some.inj h
    refine hmake "=" single ⟨⟨by decide, List.all_iff_forall_prop.mp (by decide)⟩, by decide⟩ ?_
    exact hword single (hwords ▸ List.mem_cons_self)
  · grind
  · cases h

theorem readConstraints_eq_self {parts : List String} (h : ∀ s ∈ parts, IsConstraint s) :
    readConstraints parts = parts := by
  induction parts with
  | nil => rfl
  | cons s parts ih =>
    grind [formatConstraint_of_isConstraint, List.mem_cons_self, readConstraints,
      List.filterMap_cons_some, List.mem_cons_of_mem]

theorem isConstraint_of_mem_readConstraints {parts : List String}
    (h : ∀ s ∈ parts, '&' ∉ s.toList) {s : String} (hs : s ∈ readConstraints parts) :
    IsConstraint s := by
  obtain ⟨constraint, hconstraint, rfl⟩ := List.mem_map.mp hs
  grind [isConstraint_of_parse]

def writtenConstraints (raw : String) : List String :=
  orDefault (readConstraints (pieces '&' raw))

theorem isConstraint_of_mem_written {raw s : String} (h : s ∈ writtenConstraints raw) :
    IsConstraint s := by
  grind [writtenConstraints, orDefault, isConstraint_default, isConstraint_of_mem_readConstraints,
    notMem_of_mem_pieces]

theorem writtenConstraints_ne_nil (raw : String) : writtenConstraints raw ≠ [] :=
  orDefault_ne_nil _

theorem writtenConstraints_intercalate {constraints : List String}
    (h : ∀ s ∈ constraints, IsConstraint s) :
    writtenConstraints (String.intercalate "&" constraints) = orDefault constraints := by
  have hfree : ∀ s ∈ constraints, '&' ∉ s.toList := fun s hs =>
    (h s hs).elim fun _ hop => hop.elim fun _ hversion => hversion.2.2.2
  by_cases hnil : constraints = []
  · rw [hnil]
    decide
  · have hpieces : pieces '&' (String.intercalate "&" constraints) = constraints :=
      pieces_intercalate hfree hnil
    rw [writtenConstraints, hpieces, readConstraints_eq_self h]

/-! ### The object is read back -/

theorem extractPairs_map (constraints : List (String × String)) :
    extractPairs (constraints.map fun constraint =>
      .array [.str constraint.1, gemVersion constraint.2]) =
        some (constraints.map formatConstraint) := by
  have hversion : ∀ version : String, extractGemVersion (gemVersion version) = some version :=
    fun _ => rfl
  induction constraints with
  | nil => rfl
  | cons constraint constraints ih =>
    rw [List.map_cons, extractPairs, ih, hversion]
    rfl

theorem formatConstraint_parseRequirementConstraints (raw : Option String) :
    (parseRequirementConstraints raw).map formatConstraint =
      (raw.map writtenConstraints).getD [">= 0"] := by
  cases raw with
  | none => decide
  | some raw =>
    rw [Option.map_some, Option.getD_some, writtenConstraints, orDefault, readConstraints,
      parseRequirementConstraints, List.isEmpty_map]
    split_ifs
    · decide
    · rfl

theorem extractRequirementConstraints_buildRequirement (raw : Option String) :
    extractRequirementConstraints (buildRequirement raw) =
      some ((raw.map writtenConstraints).getD [">= 0"]) := by
  rw [← formatConstraint_parseRequirementConstraints, ← extractPairs_map]
  rfl

theorem extractRequirement_buildRequirement (raw : Option String) :
    extractRequirement (buildRequirement raw) =
      some (String.intercalate "&" ((raw.map writtenConstraints).getD [">= 0"])) := by
  have hne : (raw.map writtenConstraints).getD [">= 0"] ≠ [] := by
    cases raw with
    | none => exact List.cons_ne_nil _ _
    | some raw => exact writtenConstraints_ne_nil raw
  rw [extractRequirement, extractRequirementConstraints_buildRequirement, Option.bind_some,
    joinConstraints, if_neg (mt List.isEmpty_iff.mp hne)]

theorem extractDependency_buildDependency (dep : RubyDependencyMetadata) :
    extractDependency (buildDependency dep) = some ⟨dep.name,
      writtenConstraints (String.intercalate "&" (readConstraints dep.requirements))⟩ := by
  rw [buildDependency]
  generalize hrequirement : buildRequirement (some (String.intercalate "&"
    ((dep.requirements.filterMap parseSingleConstraint).map formatConstraint))) = requirement
  have hread : extractRequirementConstraints requirement =
      some (writtenConstraints (String.intercalate "&" (readConstraints dep.requirements))) := by
    rw [← hrequirement, extractRequirementConstraints_buildRequirement]
    rfl
  have hfields : extractDependency (.object (some "Gem::Dependency") [("@name", .str dep.name),
      ("@prerelease", .false), ("@requirement", requirement),
      ("@version_requirements", requirement), ("@type", .symbol (some "runtime"))]) =
        some ⟨dep.name, (extractRequirementConstraints requirement).getD []⟩ := rfl
  rw [hfields, hread]
  rfl

theorem extractGemspec_gemspecObject (spec : GemSpecEntry) :
    extractGemspec (gemspecObject spec) = .ok {
      name := spec.name
      version := spec.version
      platform := (some spec.platform).filter (· ≠ "ruby")
      dependencies := spec.dependencies.map fun dep => ⟨dep.name,
        writtenConstraints (String.intercalate "&" (readConstraints dep.requirements))⟩
      requiredRuby :=
        some (String.intercalate "&" ((spec.requiredRuby.map writtenConstraints).getD [">= 0"]))
      requiredRubygems := some (String.intercalate "&"
        ((spec.requiredRubygems.map writtenConstraints).getD [">= 0"])) } := by
  have hdependencies : extractDependencies (spec.dependencies.map buildDependency) =
      spec.dependencies.map fun dep => ⟨dep.name,
        writtenConstraints (String.intercalate "&" (readConstraints dep.requirements))⟩ := by
    rw [extractDependencies, List.filterMap_map]
    have hsome : extractDependency ∘ buildDependency = fun dep => some ⟨dep.name,
        writtenConstraints (String.intercalate "&" (readConstraints dep.requirements))⟩ :=
      funext extractDependency_buildDependency
    rw [hsome, List.filterMap_eq_map']
  rw [← hdependencies, ← extractRequirement_buildRequirement,
    ← extractRequirement_buildRequirement]
  rfl

/-! ### What is kept -/

def dependencyConstraints (dep : RubyDependencyMetadata) : String × List String :=
  (dep.name, orDefault dep.requirements)

def Keeps (spec : ParsedGemSpec) (served : GemSpecEntry) : Prop :=
  ∃ decoded, extractGemspec (gemspecObject served) = .ok decoded ∧
    decoded.dependencies.map dependencyConstraints =
      spec.dependencies.map dependencyConstraints ∧
    decoded.requiredRuby.getD ">= 0" = spec.requiredRuby.getD ">= 0" ∧
    decoded.requiredRubygems.getD ">= 0" = spec.requiredRubygems.getD ">= 0"

theorem writtenConstraints_dependency_iff (requirements : List String) :
    orDefault (writtenConstraints (String.intercalate "&" (readConstraints requirements))) =
        orDefault requirements ↔
      ∀ s ∈ requirements, IsConstraint s := by
  grind [orDefault_of_ne_nil, writtenConstraints_ne_nil, List.ne_nil_of_mem,
    isConstraint_of_mem_written, readConstraints_eq_self, writtenConstraints_intercalate]

theorem intercalate_writtenConstraints_iff (raw : Option String) :
    String.intercalate "&" ((raw.map writtenConstraints).getD [">= 0"]) = raw.getD ">= 0" ↔
      ∀ r ∈ raw, ∀ s ∈ pieces '&' r, IsConstraint s := by
  cases raw with
  | none => exact iff_of_true (by decide) fun r hr => by cases hr
  | some raw =>
    have hjoin : String.intercalate "&" (pieces '&' raw) = raw := intercalate_pieces '&' raw
    have hiff : (∀ r ∈ some raw, ∀ s ∈ pieces '&' r, IsConstraint s) ↔
        ∀ s ∈ pieces '&' raw, IsConstraint s :=
      ⟨fun h => h raw rfl, fun h r hr => Option.some.inj hr ▸ h⟩
    rw [Option.map_some, Option.getD_some, Option.getD_some, hiff]
    constructor
    · intro h s hs
      have hpieces : pieces '&' (String.intercalate "&" (writtenConstraints raw)) =
          writtenConstraints raw := by
        refine pieces_intercalate (fun s hs => ?_) (writtenConstraints_ne_nil raw)
        obtain ⟨_, _, -, -, -, hfree⟩ := isConstraint_of_mem_written hs
        exact hfree
      rw [h] at hpieces
      exact isConstraint_of_mem_written (hpieces ▸ hs)
    grind [writtenConstraints_intercalate, orDefault_of_ne_nil, pieces_ne_nil]

variable (c : Collation) (format : RubyFormat)

/-- **A quick gemspec keeps** the dependencies and the constraints of the gem iff all of them are
constraints. -/
theorem keeps_iff (spec : ParsedGemSpec) (content : Bytes) (file : ParsedGemFileName) :
    Keeps spec (quickGemspec file (gemMetadata c format spec content)) ↔
      (∀ dep ∈ spec.dependencies, ∀ s ∈ dep.requirements, IsConstraint s) ∧
        (∀ raw ∈ spec.requiredRuby, ∀ s ∈ pieces '&' raw, IsConstraint s) ∧
        ∀ raw ∈ spec.requiredRubygems, ∀ s ∈ pieces '&' raw, IsConstraint s := by
  have hdependencies : ((spec.dependencies.map fun dep => RubyDependencyMetadata.mk dep.name
      (writtenConstraints (String.intercalate "&" (readConstraints dep.requirements)))).map
        dependencyConstraints = spec.dependencies.map dependencyConstraints) ↔
      ∀ dep ∈ spec.dependencies, ∀ s ∈ dep.requirements, IsConstraint s := by
    rw [List.map_map, List.map_inj_left]
    refine forall₂_congr fun dep _ => ?_
    rw [← writtenConstraints_dependency_iff]
    exact ⟨fun h => (Prod.mk.inj h).2, fun h => Prod.ext rfl h⟩
  rw [← hdependencies, ← intercalate_writtenConstraints_iff, ← intercalate_writtenConstraints_iff]
  constructor
  · rintro ⟨decoded, hdecoded, hkeeps⟩
    rw [extractGemspec_gemspecObject] at hdecoded
    obtain rfl := Except.ok.inj hdecoded
    exact hkeeps
  · intro h
    exact ⟨_, extractGemspec_gemspecObject _, h⟩

/-! ### A version with a space -/

def demoYaml : YamlValue :=
  .mapping [(.string "name", .string "demo"), (.string "version", .string "1.0.0"),
    (.string "dependencies", .sequence [.mapping [(.string "name", .string "rack"),
      (.string "requirement", .mapping [(.string "requirements",
        .sequence [.sequence [.string ">=", .string "2.0 beta"]])])]])]

def demoYamlText : String :=
  "\nname: demo\nversion: 1.0.0\ndependencies:\n- name: rack\n" ++
    "  requirement:\n    requirements:\n    - - \">=\"\n      - 2.0 beta\n"

def demoGemFormat : GemFormat where
  fromSlice metadata :=
    if metadata = intoBytes ("---" ++ demoYamlText) then .ok demoYaml else .error "unknown"
  fromReader _ := .error "unknown"

def demoParsed : ParsedGemSpec :=
  ⟨"demo", "1.0.0", none, [⟨"rack", [">= 2.0 beta"]⟩], none, none⟩

theorem parseGemspecMetadata_demo :
    parseGemspecMetadata demoGemFormat (intoBytes ("---" ++ demoYamlText)) = .ok demoParsed := by
  have hprefix : (intoBytes "---").isPrefixOf (intoBytes ("---" ++ demoYamlText)) = true := by
    rw [intoBytes_append, List.isPrefixOf_iff_prefix]
    exact List.prefix_append _ _
  have hread : extractYamlGemspec demoYaml = .ok demoParsed := rfl
  rw [parseGemspecMetadata, if_pos hprefix, parseYamlGemspec, demoGemFormat]
  dsimp only
  rw [if_pos rfl]
  exact hread

/-- The end of a version behind a space is dropped. -/
theorem not_keeps_space : ¬ ∀ (gemFormat : GemFormat) (metadata : Bytes) (spec : ParsedGemSpec),
    parseGemspecMetadata gemFormat metadata = .ok spec →
      ∀ (c : Collation) (format : RubyFormat) (content : Bytes) (file : ParsedGemFileName),
        Keeps spec (quickGemspec file (gemMetadata c format spec content)) := by
  intro h
  obtain ⟨decoded, hdecoded, hdependencies, -⟩ := h _ _ _ parseGemspecMetadata_demo .exact
    ⟨fun _ => "", fun _ => "", fun _ => none⟩ [] ⟨"demo", "1.0.0", none⟩
  rw [extractGemspec_gemspecObject] at hdecoded
  obtain rfl := Except.ok.inj hdecoded
  have hkept : orDefault (writtenConstraints (String.intercalate "&"
      (readConstraints [">= 2.0 beta"]))) = orDefault [">= 2.0 beta"] :=
    (Prod.mk.inj (List.cons.inj hdependencies).1).2
  have hconstraint := (writtenConstraints_dependency_iff _).mp hkept _ List.mem_cons_self
  have hread := formatConstraint_of_isConstraint hconstraint
  exact absurd hread (by decide)

end Pkgly.Ruby
