import Mathlib.Data.List.Basic

/-!
# The catalogue of a repository

The rows that the tables `projects` and `project_versions` hold for one repository, and the
statements that the repositories run on them, each one atomic: lookups, insertions that fail on a
unique constraint, and deletions.  The keys of projects are compared without regard to case; what
the database does to their texts is a `Collation`.  New rows are appended, and their ids are taken
from a counter, so that no id is used twice.

Of a version the row keeps the version, the path and `extra`, the data that its repository type
records.
-/

namespace Pkgly

/-- The texts of the database: `ignoreCase` ignores differences in case, and lowering a key makes
no other difference. -/
structure Collation where
  /-- `str::to_lowercase`. -/
  toLowercase : String → String
  /-- `LOWER` on a key. -/
  lowerKey : String → String
  /-- `LOWER` on a path. -/
  lowerPath : String → String
  /-- Equality of keys. -/
  same : String → String → Bool
  same_refl : ∀ a, same a a = true
  same_symm : ∀ a b, same a b = true → same b a = true
  same_trans : ∀ a b c, same a b = true → same b c = true → same a c = true
  same_lowerKey : ∀ a, same (lowerKey a) a = true
  same_toLowercase : ∀ a, same (toLowercase a) a = true

/-- Texts that are compared as they are, being in lower case already. -/
def Collation.exact : Collation where
  toLowercase := id
  lowerKey := id
  lowerPath := id
  same a b := a == b
  same_refl a := beq_self_eq_true a
  same_symm a b h := by rwa [beq_iff_eq, eq_comm, ← beq_iff_eq]
  same_trans a b c h h' := by rw [beq_iff_eq] at *; exact h.trans h'
  same_lowerKey a := beq_self_eq_true a
  same_toLowercase a := beq_self_eq_true a

section Appended

variable {α : Type} {l : List α} {a : α}

theorem forall_mem_concat {P : α → Prop} (h : ∀ b ∈ l, P b) (ha : P a) : ∀ b ∈ l ++ [a], P b :=
  List.forall_mem_append.mpr ⟨h, List.forall_mem_singleton.mpr ha⟩

/-- A symmetric relation of all rows holds after an insertion if the new row is related to all. -/
theorem related_concat {R : α → α → Prop} (hsymm : ∀ b c, R b c → R c b)
    (h : ∀ b ∈ l, ∀ c ∈ l, R b c) (hnew : ∀ b ∈ l, R b a) (ha : R a a) :
    ∀ b ∈ l ++ [a], ∀ c ∈ l ++ [a], R b c :=
  forall_mem_concat (fun b hb => forall_mem_concat (h b hb) (hnew b hb))
    (forall_mem_concat (fun c hc => hsymm _ _ (hnew c hc)) ha)

end Appended

structure DBProject where
  id : ℕ
  key : String
  path : String
deriving DecidableEq

structure DBProjectVersion (ε : Type) where
  id : ℕ
  projectId : ℕ
  version : String
  path : String
  extra : ε
deriving DecidableEq

structure Catalogue (ε : Type) where
  projects : List DBProject
  versions : List (DBProjectVersion ε)
  nextId : ℕ
deriving DecidableEq

namespace Catalogue

variable {ε : Type}

def empty : Catalogue ε := ⟨[], [], 0⟩

def findByProjectKey (c : Collation) (db : Catalogue ε) (key : String) : Option DBProject :=
  db.projects.find? fun p => c.same (c.lowerKey p.key) (c.toLowercase key)

/-- `NewProject::insert`; `none` when a unique constraint fails. -/
def insertProject (c : Collation) (db : Catalogue ε) (key path : String) :
    Option (Catalogue ε × DBProject) :=
  if db.projects.any fun p => c.same p.key key || p.path == path then none
  else
    let project := ⟨db.nextId, key, path⟩
    some ({ db with projects := db.projects ++ [project], nextId := db.nextId + 1 }, project)

def findByVersionAndProject (db : Catalogue ε) (version : String) (projectId : ℕ) :
    Option (DBProjectVersion ε) :=
  db.versions.find? fun v => v.projectId == projectId && v.version == version

/-- `NewVersion::insert` without the row of `package_files`; `none` when the version is too long
for its column, the project is gone, or a unique constraint fails. -/
def insertVersion (c : Collation) (db : Catalogue ε) (projectId : ℕ) (version path : String)
    (extra : ε) : Option (Catalogue ε) :=
  if 255 < version.length || !(db.projects.any fun p => p.id == projectId) ||
      db.versions.any (fun v =>
        v.projectId == projectId && (v.version == version || v.path == path) ||
          c.lowerPath v.path == c.lowerPath path) then none
  else
    some { db with
      versions := db.versions ++ [⟨db.nextId, projectId, version, path, extra⟩]
      nextId := db.nextId + 1 }

/-- `get_all_versions`: the latest first. -/
def getAllVersions (db : Catalogue ε) (projectId : ℕ) : List (DBProjectVersion ε) :=
  (db.versions.filter fun v => v.projectId == projectId).reverse

/-- `DELETE FROM project_versions WHERE id = $1`. -/
def deleteVersion (db : Catalogue ε) (id : ℕ) : Catalogue ε :=
  { db with versions := db.versions.filter fun v => v.id ≠ id }

/-- `SELECT COUNT(*) FROM project_versions WHERE project_id = $1`. -/
def countVersions (db : Catalogue ε) (projectId : ℕ) : ℕ :=
  db.versions.countP fun v => v.projectId == projectId

/-- `DELETE FROM projects WHERE id = $1`, which cascades to the versions. -/
def deleteProject (db : Catalogue ε) (id : ℕ) : Catalogue ε :=
  { db with
    projects := db.projects.filter fun p => p.id ≠ id
    versions := db.versions.filter fun v => v.projectId ≠ id }

/-! ### What the statements find and leave -/

variable {c : Collation} {db db' : Catalogue ε} {key path version : String} {extra : ε}
  {projectId : ℕ}

variable {p : DBProject}

theorem found_key_iff :
    c.same (c.lowerKey p.key) (c.toLowercase key) = true ↔ c.same p.key key = true := by
  have hlower := c.same_lowerKey p.key
  have hkey := c.same_toLowercase key
  constructor
  · intro h
    exact c.same_trans _ _ _ (c.same_trans _ _ _ (c.same_symm _ _ hlower) h) hkey
  · intro h
    exact c.same_trans _ _ _ (c.same_trans _ _ _ hlower h) (c.same_symm _ _ hkey)

theorem of_findByProjectKey (h : db.findByProjectKey c key = some p) :
    p ∈ db.projects ∧ c.same p.key key = true := by
  have hfound := List.find?_some h
  exact ⟨List.mem_of_find?_eq_some h, found_key_iff.mp hfound⟩

theorem exists_findByProjectKey (hp : p ∈ db.projects)
    (h : c.same p.key key = true) : ∃ q, db.findByProjectKey c key = some q := by
  rw [← Option.isSome_iff_exists, findByProjectKey, List.find?_isSome]
  exact ⟨p, hp, found_key_iff.mpr h⟩

theorem of_insertProject (h : db.insertProject c key path = some (db', p)) :
    p = ⟨db.nextId, key, path⟩ ∧
      db' = { db with projects := db.projects ++ [p], nextId := db.nextId + 1 } ∧
      ∀ q ∈ db.projects, c.same q.key key = false := by
  unfold insertProject at h
  grind

theorem unique_of_insertProject (h : db.insertProject c key path = some (db', p))
    (hdb : ∀ p ∈ db.projects, ∀ q ∈ db.projects, c.same p.key q.key = true → p.id = q.id) :
    ∀ p ∈ db'.projects, ∀ q ∈ db'.projects, c.same p.key q.key = true → p.id = q.id := by
  obtain ⟨rfl, rfl, hnew⟩ := of_insertProject h
  refine related_concat (fun p q hpq hsame => (hpq (c.same_symm _ _ hsame)).symm) hdb
    (fun p hp hsame => ?_) fun _ => rfl
  rw [hnew p hp] at hsame
  cases hsame

theorem of_findByVersionAndProject {v : DBProjectVersion ε}
    (h : db.findByVersionAndProject version projectId = some v) :
    v ∈ db.versions ∧ v.projectId = projectId ∧ v.version = version := by
  have hv := List.find?_some h
  rw [Bool.and_eq_true, beq_iff_eq, beq_iff_eq] at hv
  exact ⟨List.mem_of_find?_eq_some h, hv.1, hv.2⟩

theorem of_insertVersion (h : db.insertVersion c projectId version path extra = some db') :
    db' = { db with
      versions := db.versions ++ [⟨db.nextId, projectId, version, path, extra⟩]
      nextId := db.nextId + 1 } ∧
      ∃ p ∈ db.projects, p.id = projectId := by
  unfold insertVersion at h
  grind

theorem ne_of_insertVersion (h : db.insertVersion c projectId version path extra = some db') :
    ∀ v ∈ db.versions, v.projectId = projectId → v.version ≠ version := by
  rintro v hv rfl rfl
  unfold insertVersion at h
  grind

theorem mem_getAllVersions {v : DBProjectVersion ε} :
    v ∈ db.getAllVersions projectId ↔ v ∈ db.versions ∧ v.projectId = projectId := by
  rw [getAllVersions, List.mem_reverse, List.mem_filter, beq_iff_eq]

end Catalogue

end Pkgly
