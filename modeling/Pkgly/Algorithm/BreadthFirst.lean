import Mathlib.Algebra.GroupWithZero.Nat
import Mathlib.Algebra.Order.BigOperators.Group.List
import Mathlib.Algebra.Order.Group.Nat
import Mathlib.Data.List.Induction
import Pkgly.Algorithm.DepthFirst

/-!
# Breadth-first walks of trees

`breadthFirst expand fuel queue` takes the items of a queue in order, puts the children of each at
its end and collects what the items show.  There is no set of visited items: the walk ends because
a rank decreases from an item to its children (`exists_breadthFirst`), and it shows what the items
below those of the queue show, whatever the fuel that was enough (`breadthFirst_unique`).

An item may fail, which ends the walk; `none` is too little fuel.
-/

namespace Pkgly.BreadthFirst

open DepthFirst

variable {α β ε : Type*}

def breadthFirst (expand : α → Except ε (List β × List α)) :
    ℕ → List α → Option (Except ε (List β))
  | 0, _ => none
  | _ + 1, [] => some (.ok [])
  | fuel + 1, a :: queue =>
    match expand a with
    | .error e => some (.error e)
    | .ok (shown, next) =>
      (breadthFirst expand fuel (queue ++ next)).map (Except.map (shown ++ ·))

variable {expand : α → Except ε (List β × List α)}

variable {queue : List α} {children : α → List α}

theorem breadthFirst_mono {fuel fuel' : ℕ} {result : Except ε (List β)}
    (h : breadthFirst expand fuel queue = some result) (hle : fuel ≤ fuel') :
    breadthFirst expand fuel' queue = some result := by
  induction fuel generalizing fuel' queue result with
  | zero => cases h
  | succ fuel ih =>
    obtain ⟨fuel', rfl⟩ : ∃ n, fuel' = n + 1 := ⟨fuel' - 1, by omega⟩
    cases queue with
    | nil => exact h
    | cons a queue =>
      rw [breadthFirst] at h ⊢
      cases hexpand : expand a with
      | error e => rwa [hexpand] at h
      | ok r =>
        aesop

theorem breadthFirst_unique {fuel fuel' : ℕ} {result result' : Except ε (List β)}
    (h : breadthFirst expand fuel queue = some result)
    (h' : breadthFirst expand fuel' queue = some result') : result = result' := by
  grind [breadthFirst_mono, le_max_left, le_max_right, Option.some.inj]

/-! ### The size of a tree -/

/-- The number of items of the trees below those of `queue`, cut off at the depth `height`. -/
def size (children : α → List α) : (height : ℕ) → List α → ℕ
  | 0, _ => 0
  | height + 1, queue => (queue.map fun a => 1 + size children height (children a)).sum

@[simp] theorem size_nil (children : α → List α) (height : ℕ) : size children height [] = 0 := by
  cases height <;> rfl

theorem size_append (children : α → List α) (height : ℕ) (xs ys : List α) :
    size children height (xs ++ ys) = size children height xs + size children height ys := by
  cases height with
  | zero => rfl
  | succ height => rw [size, size, size, List.map_append, List.sum_append]

theorem size_eq {rank : α → ℕ} {height : ℕ}
    (hrank : ∀ a ∈ Below children queue, ∀ c ∈ children a, rank c < rank a)
    (hheight : ∀ a ∈ queue, rank a < height) :
    size children (height + 1) queue = size children height queue := by
  induction height generalizing queue with
  | zero =>
    have hempty : queue = [] :=
      List.eq_nil_iff_forall_not_mem.mpr fun a ha => Nat.not_lt_zero _ (hheight a ha)
    rw [hempty, size_nil, size_nil]
  | succ height ih =>
    rw [size, size]
    refine congrArg List.sum (List.map_congr_left fun a ha => ?_)
    grind [below_children_subset, mem_below_of_mem]

/-- Taking an item from the queue and putting its children there removes one item. -/
theorem size_cons {rank : α → ℕ} {height : ℕ} {a : α}
    (hrank : ∀ b ∈ Below children (a :: queue), ∀ c ∈ children b, rank c < rank b)
    (hheight : ∀ b ∈ a :: queue, rank b < height) :
    size children height (a :: queue) = size children height (queue ++ children a) + 1 := by
  have hchildren : ∀ c ∈ children a, rank c < rank a :=
    hrank a (mem_below_of_mem List.mem_cons_self)
  have hbelow : ∀ b ∈ Below children (children a), ∀ c ∈ children b, rank c < rank b :=
    fun b hb => hrank b (below_children_subset (mem_below_of_mem List.mem_cons_self) hb)
  have hlt : rank a < height := hheight a List.mem_cons_self
  cases height with
  | zero => omega
  | succ height =>
    have hcut : size children (height + 1) (children a) = size children height (children a) := by
      refine size_eq hbelow fun c hc => ?_
      have hchild := hchildren c hc
      omega
    rw [size_append, hcut]
    simp only [size, List.map_cons, List.sum_cons]
    omega

/-! ### The end of a walk -/

/-- A walk of finite trees whose items do not fail ends, and shows what the items below those of
the queue show. -/
theorem exists_breadthFirst {shows : α → List β} {children : α → List α} (rank : α → ℕ)
    {queue : List α}
    (hexpand : ∀ a ∈ Below children queue, expand a = .ok (shows a, children a))
    (hrank : ∀ a ∈ Below children queue, ∀ c ∈ children a, rank c < rank a) :
    ∃ fuel shown, breadthFirst expand fuel queue = some (.ok shown) ∧
      ∀ b, b ∈ shown ↔ ∃ a ∈ Below children queue, b ∈ shows a := by
  -- every rank in the queue is at most the largest one
  obtain ⟨height, hheight⟩ : ∃ height, ∀ a ∈ queue, rank a < height :=
    ⟨(queue.map rank).sum + 1, fun a ha => Nat.lt_succ_of_le
      (List.single_le_sum (fun _ _ => Nat.zero_le _) _ (List.mem_map_of_mem ha))⟩
  induction hsize : size children height queue generalizing queue with
  | zero =>
    cases queue with
    | nil => exact ⟨1, [], rfl, by simp⟩
    | cons a queue =>
      rw [size_cons hrank hheight] at hsize
      omega
  | succ n ih =>
    cases queue with
    | nil =>
      rw [size_nil] at hsize
      omega
    | cons a queue =>
      have hroot : a ∈ Below children (a :: queue) := mem_below_of_mem List.mem_cons_self
      have hsub : ∀ b, b ∈ Below children (queue ++ children a) →
          b ∈ Below children (a :: queue) := by grind [below_children_subset, DepthFirst.Below]
      have hnext : ∀ b ∈ queue ++ children a, rank b < height := by grind
      rw [size_cons hrank hheight] at hsize
      obtain ⟨fuel, shown, hwalk, hshown⟩ := ih (fun b hb => hexpand b (hsub b hb))
        (fun b hb => hrank b (hsub b hb)) hnext (by omega)
      refine ⟨fuel + 1, shows a ++ shown, ?_, fun b => ?_⟩
      · rw [breadthFirst, hexpand a hroot]
        simp only [hwalk, Option.map_some]
        rfl
      · rw [List.mem_append, hshown]
        constructor
        · grind
        · rintro ⟨c, hc, hb⟩
          rcases mem_below_cons.mp hc with hc | hc
          · rcases reaches_iff.mp hc with rfl | hc
            · exact .inl hb
            · exact .inr ⟨c, mem_below_append.mpr (.inr hc), hb⟩
          · exact .inr ⟨c, mem_below_append.mpr (.inl hc), hb⟩

/-! ### The directories of a set of keys -/

variable {ν : Type*}

def IsDirectory (keys : List (List ν)) (dir : List ν) : Prop :=
  ∃ rest, rest ≠ [] ∧ dir ++ rest ∈ keys

theorem IsDirectory.of_append {keys : List (List ν)} {dir names : List ν}
    (h : IsDirectory keys (dir ++ names)) : IsDirectory keys dir := by
  grind [List.append_ne_nil_of_right_ne_nil, List.append_assoc, IsDirectory]

/-- A walk from `root` that goes on to the directories whose names it enters reaches all the
directories with such names only. -/
theorem mem_below_directories_iff {keys : List (List ν)} {root : List ν}
    {enters : ν → Prop} {item : List ν → α}
    (hchildren : ∀ names, (names = [] ∨ IsDirectory keys (root ++ names)) → ∀ c,
      c ∈ children (item names) ↔ ∃ name, enters name ∧
        IsDirectory keys (root ++ (names ++ [name])) ∧ c = item (names ++ [name])) {a : α} :
    a ∈ Below children [item []] ↔ ∃ names, (names = [] ∨ IsDirectory keys (root ++ names)) ∧
      (∀ s ∈ names, enters s) ∧ a = item names := by
  constructor
  · intro h
    refine below_subset (s := {b | ∃ names, (names = [] ∨ IsDirectory keys (root ++ names)) ∧
      (∀ s ∈ names, enters s) ∧ b = item names}) ?_ ?_ h
    · simp
    grind
  · rintro ⟨names, hdir, henters, rfl⟩
    induction names using List.reverseRecOn with
    | nil => exact mem_below_of_mem (List.mem_singleton_self _)
    | append_singleton names name ih =>
      have hparent : names = [] ∨ IsDirectory keys (root ++ names) := by
        refine .inr (@IsDirectory.of_append _ keys _ [name] ?_)
        rw [List.append_assoc]
        exact hdir.resolve_left (List.append_ne_nil_of_right_ne_nil _ (List.cons_ne_nil _ _))
      have hbelow := ih hparent fun s hs => henters s (List.mem_append_left _ hs)
      refine Reaches.below hbelow (.single ?_)
      grind

end Pkgly.BreadthFirst
