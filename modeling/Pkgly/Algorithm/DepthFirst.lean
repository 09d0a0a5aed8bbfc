import Mathlib.Data.List.Nodup
import Mathlib.Data.Set.Insert
import Mathlib.Logic.Relation
import Mathlib.Tactic.Tauto
import Pkgly.Algorithm.Worklist

/-!
# The order of a depth-first walk

`Visit children pending visited order`: taking the pending items one after the other, each with all
that is below it before the next, and skipping the visited ones, enters the items of `order`.  A
`worklist` whose loop ends has walked so (`visit_of_worklist`).

`ParentsFirst keep visited order`: no item of the order comes after a kept child of it.  In an
acyclic graph the order of a walk has the property exactly when the children of every item are
`Apart`: a child that was not reached from the children taken before it shares no kept descendant
with them (`Visit.parentsFirst_iff`).
-/

namespace Pkgly.DepthFirst

variable {α β ε : Type*}

inductive Visit (children : α → List α) : List α → Set α → List α → Prop
  | nil (visited : Set α) : Visit children [] visited []
  | seen {a : α} {pending : List α} {visited : Set α} {order : List α} (hseen : a ∈ visited)
      (rest : Visit children pending visited order) :
      Visit children (a :: pending) visited order
  | enter {a : α} {pending : List α} {visited : Set α} {below beside : List α}
      (hnew : a ∉ visited) (down : Visit children (children a) (insert a visited) below)
      (rest : Visit children pending (insert a visited ∪ {x | x ∈ below}) beside) :
      Visit children (a :: pending) visited (a :: below ++ beside)

variable {children : α → List α}

/-- `b` is `a` or one of its descendants. -/
def Reaches (children : α → List α) : α → α → Prop :=
  Relation.ReflTransGen fun a b => b ∈ children a

def Below (children : α → List α) (xs : List α) : Set α := {b | ∃ a ∈ xs, Reaches children a b}

def Acyclic (children : α → List α) (xs : List α) : Prop :=
  ∀ a ∈ Below children xs, ∀ c ∈ children a, ¬ Reaches children c a

def Finished (children : α → List α) (xs : List α) (visited : Set α) : Prop :=
  ∀ u ∈ visited, u ∈ Below children xs → ∀ w, Reaches children u w → w ∈ visited

variable {b a : α} {xs pending order : List α} {visited : Set α}

@[simp] theorem mem_below_nil : b ∉ Below children [] := by
  rintro ⟨a, ha, -⟩
  exact absurd ha List.not_mem_nil

@[simp] theorem mem_below_cons :
    b ∈ Below children (a :: xs) ↔ Reaches children a b ∨ b ∈ Below children xs := by
  simp [Below]

theorem mem_below_append {ys : List α} :
    b ∈ Below children (xs ++ ys) ↔ b ∈ Below children xs ∨ b ∈ Below children ys := by
  simp [Below, or_and_right, exists_or]

theorem mem_below_of_mem (h : b ∈ xs) : b ∈ Below children xs :=
  ⟨b, h, .refl⟩

theorem Reaches.trans {c : α} (hab : Reaches children a b) (hbc : Reaches children b c) :
    Reaches children a c :=
  Relation.ReflTransGen.trans hab hbc

theorem Reaches.below {c : α} (hb : b ∈ Below children xs)
    (hbc : Reaches children b c) : c ∈ Below children xs := by
  obtain ⟨a, ha, hab⟩ := hb
  exact ⟨a, ha, hab.trans hbc⟩

theorem reaches_iff : Reaches children a b ↔ b = a ∨ b ∈ Below children (children a) := by
  constructor
  · intro h
    rcases Relation.ReflTransGen.cases_head h with rfl | ⟨c, hc, hcb⟩
    · exact .inl rfl
    · exact .inr ⟨c, hc, hcb⟩
  · rintro (rfl | ⟨c, hc, hcb⟩)
    · exact .refl
    · exact .head hc hcb

theorem Acyclic.of_subset {ys : List α} (h : Acyclic children xs)
    (hsub : Below children ys ⊆ Below children xs) : Acyclic children ys :=
  fun a ha => h a (hsub ha)

theorem below_children_subset (ha : a ∈ Below children xs) :
    Below children (children a) ⊆ Below children xs := by
  rintro b ⟨c, hc, hcb⟩
  exact Reaches.below ha (.head hc hcb)

theorem Acyclic.not_below (h : Acyclic children xs)
    (ha : a ∈ Below children xs) : a ∉ Below children (children a) := by
  rintro ⟨c, hc, hca⟩
  exact h a ha c hc hca

theorem acyclic_of_rank (rank : α → ℕ)
    (h : ∀ a ∈ Below children xs, ∀ c ∈ children a, rank c < rank a) : Acyclic children xs := by
  have hle : ∀ a b, Reaches children a b → a ∈ Below children xs → rank b ≤ rank a := by
    intro a b hab
    induction hab with
    | refl => exact fun _ => le_rfl
    | @tail b c hab hbc ih =>
      intro ha
      exact (h b (Reaches.below ha hab) c hbc).le.trans (ih ha)
  intro a ha c hc hca
  have hchild : c ∈ Below children xs := Reaches.below ha (.head hc .refl)
  exact absurd (hle c a hca hchild) (Nat.not_le.mpr (h a ha c hc))

theorem below_subset {s : Set α} (hxs : ∀ a ∈ xs, a ∈ s)
    (hs : ∀ a ∈ s, ∀ c ∈ children a, c ∈ s) : Below children xs ⊆ s := by
  rintro b ⟨a, ha, hab⟩
  induction hab with
  | refl => exact hxs a ha
  | @tail b c _ hbc ih => exact hs b ih c hbc

/-! ### What a walk enters -/

theorem Visit.not_mem (h : Visit children pending visited order) : ∀ b ∈ order, b ∉ visited := by
  induction h with
  | nil visited => exact fun b hb => absurd hb List.not_mem_nil
  | seen hseen rest ih => exact ih
  | enter hnew down rest ihdown ihrest =>
    grind

theorem Visit.nodup (h : Visit children pending visited order) : order.Nodup := by
  induction h with
  | nil visited => exact List.nodup_nil
  | seen hseen rest ih => exact ih
  | @enter a pending visited below beside hnew down rest ihdown ihrest =>
    rw [List.cons_append, List.nodup_cons, List.nodup_append]
    refine ⟨?_, ihdown, ihrest, ?_⟩
    · intro ha
      rcases List.mem_append.mp ha with ha | ha
      · exact down.not_mem a ha (Set.mem_insert _ _)
      · exact rest.not_mem a ha (.inl (Set.mem_insert _ _))
    · rintro b hb _ hb' rfl
      exact rest.not_mem b hb' (.inr hb)

theorem Finished.down
    (h : Finished children (a :: pending) visited) (hacyclic : Acyclic children (a :: pending)) :
    Finished children (children a) (insert a visited) := by
  intro u hu hbelow w huw
  have ha : a ∈ Below children (a :: pending) := mem_below_of_mem List.mem_cons_self
  rcases hu with rfl | hu
  · exact absurd hbelow (hacyclic.not_below ha)
  · exact Set.mem_insert_of_mem _ (h u hu (below_children_subset ha hbelow) w huw)

/-- Once an item was entered and left again, it is visited with its descendants. -/
theorem mem_entered {below : List α}
    (hdown : ∀ c, c ∈ below ↔ c ∈ Below children (children a) ∧ c ∉ insert a visited) (c : α) :
    c ∈ insert a visited ∪ {x | x ∈ below} ↔ c ∈ visited ∨ Reaches children a c := by
  rw [reaches_iff, Set.mem_union, Set.mem_insert_iff]
  grind

theorem Finished.rest {entered : Set α} (h : Finished children (a :: pending) visited)
    (hentered : ∀ c, c ∈ entered ↔ c ∈ visited ∨ Reaches children a c) :
    Finished children pending entered := by
  intro u hu hbelow w huw
  rcases (hentered u).mp hu with hu | hu
  · exact (hentered w).mpr (.inl (h u hu (mem_below_cons.mpr (.inr hbelow)) w huw))
  · exact (hentered w).mpr (.inr (hu.trans huw))

theorem below_subset_cons : Below children xs ⊆ Below children (a :: xs) :=
  fun _ hb => mem_below_cons.mpr (.inr hb)

theorem Finished.seen {a : α} {pending : List α} {visited : Set α}
    (h : Finished children (a :: pending) visited) : Finished children pending visited :=
  fun u hu hbelow => h u hu (below_subset_cons hbelow)

theorem Visit.mem_iff
    (h : Visit children pending visited order) (hacyclic : Acyclic children pending)
    (hfinished : Finished children pending visited) (b : α) :
    b ∈ order ↔ b ∈ Below children pending ∧ b ∉ visited := by
  induction h generalizing b with
  | nil visited => simp
  | @seen a pending visited order hseen rest ih =>
    rw [ih (hacyclic.of_subset below_subset_cons) hfinished.seen, mem_below_cons]
    constructor
    · exact fun ⟨hbelow, hb⟩ => ⟨.inr hbelow, hb⟩
    · rintro ⟨hbelow | hbelow, hb⟩
      · have ha : a ∈ Below children (a :: pending) := mem_below_of_mem List.mem_cons_self
        exact absurd (hfinished a hseen ha b hbelow) hb
      · exact ⟨hbelow, hb⟩
  | @enter a pending visited below beside hnew down rest ihdown ihrest =>
    have ha : a ∈ Below children (a :: pending) := mem_below_of_mem List.mem_cons_self
    have hdown := ihdown (hacyclic.of_subset (below_children_subset ha)) (hfinished.down hacyclic)
    have hentered := mem_entered hdown
    have hrest := ihrest (hacyclic.of_subset below_subset_cons) (hfinished.rest hentered) b
    rw [List.cons_append, List.mem_cons, List.mem_append, hrest, mem_below_cons]
    grind

/-! ### The order of a walk -/

def ParentsFirst (children : α → List α) (keep visited : Set α) (order : List α) : Prop :=
  ∀ l₁ u l₂, order = l₁ ++ u :: l₂ → ∀ c ∈ children u, c ∈ keep → c ∉ visited ∧ c ∉ l₁

/-- An item that is neither visited nor reached from the items before it shares no kept descendant
with them, and none is visited. -/
def Apart (children : α → List α) (keep : Set α) (xs : List α) (visited : Set α) : Prop :=
  ∀ ys x zs, xs = ys ++ x :: zs → x ∉ visited → x ∉ Below children ys →
    ∀ s ∈ keep, Reaches children x s → s ∉ visited ∧ s ∉ Below children ys

def KeepsParents (children : α → List α) (keep : Set α) : Prop :=
  ∀ a c, c ∈ children a → a ∈ keep

theorem KeepsParents.mem {keep : Set α} (h : KeepsParents children keep) {s : α} (hs : s ∈ keep)
    (has : Reaches children a s) : a ∈ keep := by
  rcases Relation.ReflTransGen.cases_head has with rfl | ⟨c, hc, -⟩
  · exact hs
  · exact h a c hc

theorem parentsFirst_cons {keep : Set α} : ParentsFirst children keep visited (a :: order) ↔
      (∀ c ∈ children a, c ∈ keep → c ∉ visited) ∧
        ParentsFirst children keep (insert a visited) order := by
  constructor
  · intro h
    refine ⟨fun c hc hkeep => (h [] a order rfl c hc hkeep).1, ?_⟩
    rintro l₁ u l₂ rfl c hc hkeep
    obtain ⟨hvisited, hl₁⟩ := h (a :: l₁) u l₂ rfl c hc hkeep
    rw [List.mem_cons, not_or] at hl₁
    exact ⟨fun hin => hin.elim hl₁.1 hvisited, hl₁.2⟩
  · rintro ⟨ha, horder⟩ l₁ u l₂ heq c hc hkeep
    cases l₁ with
    | nil =>
      obtain ⟨rfl, -⟩ := List.cons_eq_cons.mp heq
      exact ⟨ha c hc hkeep, List.not_mem_nil⟩
    | cons b l₁ =>
      obtain ⟨rfl, htail⟩ := List.cons_eq_cons.mp heq
      obtain ⟨hvisited, hl₁⟩ := horder l₁ u l₂ htail c hc hkeep
      grind

theorem parentsFirst_append {keep : Set α} {l m : List α} :
    ParentsFirst children keep visited (l ++ m) ↔ ParentsFirst children keep visited l ∧
      ParentsFirst children keep (visited ∪ {x | x ∈ l}) m := by
  induction l generalizing visited with
  | nil =>
    have hempty : visited ∪ {x | x ∈ ([] : List α)} = visited := by simp
    rw [hempty, List.nil_append]
    refine ⟨fun h => ⟨fun l₁ u l₂ heq => ?_, h⟩, And.right⟩
    exact absurd heq (by simp)
  | cons a l ih =>
    have hset : insert a visited ∪ {x | x ∈ l} = visited ∪ {x | x ∈ a :: l} := by grind
    rw [List.cons_append, parentsFirst_cons, parentsFirst_cons, ih, hset, and_assoc]

theorem Apart.head {keep visited : Set α} {a : α} {pending : List α}
    (h : Apart children keep (a :: pending) visited) (hnew : a ∉ visited) {s : α} (hs : s ∈ keep)
    (has : Reaches children a s) : s ∉ visited :=
  (h [] a pending rfl hnew mem_below_nil s hs has).1

theorem Apart.rest {keep entered : Set α} (h : Apart children keep (a :: pending) visited)
    (hentered : ∀ c, c ∈ entered ↔ c ∈ visited ∨ Reaches children a c) :
    Apart children keep pending entered := by
  rintro ys x zs rfl hx hys s hs hxs
  rw [hentered, not_or] at hx ⊢
  have hcons : x ∉ Below children (a :: ys) := fun hin =>
    (mem_below_cons.mp hin).elim hx.2 hys
  obtain ⟨hvisited, hbelow⟩ := h (a :: ys) x zs rfl hx.1 hcons s hs hxs
  rw [mem_below_cons, not_or] at hbelow
  exact ⟨⟨hvisited, hbelow.1⟩, hbelow.2⟩

theorem apart_cons {keep entered : Set α}
    (hentered : ∀ c, c ∈ entered ↔ c ∈ visited ∨ Reaches children a c)
    (hhead : a ∉ visited → ∀ s ∈ keep, Reaches children a s → s ∉ visited)
    (hrest : Apart children keep pending entered) : Apart children keep (a :: pending) visited := by
  intro ys x zs heq hx hys s hs hxs
  cases ys with
  | nil =>
    obtain ⟨rfl, -⟩ := List.cons_eq_cons.mp heq
    exact ⟨hhead hx s hs hxs, mem_below_nil⟩
  | cons b ys =>
    obtain ⟨rfl, rfl⟩ := List.cons_eq_cons.mp heq
    rw [mem_below_cons, not_or] at hys ⊢
    have hx' : x ∉ entered := fun hin => ((hentered x).mp hin).elim hx hys.1
    obtain ⟨hin, hbelow⟩ := hrest ys x zs rfl hx' hys.2 s hs hxs
    rw [hentered, not_or] at hin
    exact ⟨hin.1, hin.2, hbelow⟩

theorem Finished.entered
    (h : Finished children (a :: pending) visited) (hseen : a ∈ visited) (c : α) :
    c ∈ visited ↔ c ∈ visited ∨ Reaches children a c :=
  ⟨.inl, fun hc => hc.elim id (h a hseen (mem_below_of_mem List.mem_cons_self) c)⟩

/-! ### Sharing among siblings -/

variable {keep : Set α}

/-- If nothing kept is shared among the pending items and among the children of every item below
them, parents come first. -/
theorem Visit.parentsFirst
    (h : Visit children pending visited order) (hacyclic : Acyclic children pending)
    (hfinished : Finished children pending visited) (hapart : Apart children keep pending visited)
    (hbelow : ∀ w ∈ Below children pending, Apart children keep (children w) ∅) :
    ParentsFirst children keep visited order := by
  induction h with
  | nil visited => exact fun l₁ u l₂ heq => absurd heq (by simp)
  | @seen a pending visited order hseen rest ih =>
    exact ih (hacyclic.of_subset below_subset_cons) hfinished.seen
      (hapart.rest (hfinished.entered hseen)) fun w hw => hbelow w (below_subset_cons hw)
  | @enter a pending visited below beside hnew down rest ihdown ihrest =>
    have ha : a ∈ Below children (a :: pending) := mem_below_of_mem List.mem_cons_self
    have hdownacyclic := hacyclic.of_subset (below_children_subset ha)
    have hdownfinished := hfinished.down hacyclic
    have hentered := mem_entered (down.mem_iff hdownacyclic hdownfinished)
    rw [List.cons_append, parentsFirst_cons, parentsFirst_append]
    refine ⟨fun c hc hkeep => hapart.head hnew hkeep (.head hc .refl), ihdown hdownacyclic
      hdownfinished ?_ fun w hw => hbelow w (below_children_subset ha hw), ?_⟩
    · -- A kept descendant of a child is below `a`, so that it was not visited before `a`.
      intro ys x zs heq hx hys s hs hxs
      have hxchild : x ∈ children a := heq ▸ List.mem_append_right ys List.mem_cons_self
      have hsbelow : s ∈ Below children (children a) := ⟨x, hxchild, hxs⟩
      refine ⟨?_, (hbelow a ha ys x zs heq (Set.notMem_empty x) hys s hs hxs).2⟩
      rintro (rfl | hs')
      · exact hacyclic.not_below ha hsbelow
      · exact hapart.head hnew hs (reaches_iff.mpr (.inr hsbelow)) hs'
    · exact ihrest (hacyclic.of_subset below_subset_cons) (hfinished.rest hentered)
        (hapart.rest hentered) fun w hw => hbelow w (below_subset_cons hw)

/-- A way from an unvisited item to a visited kept one has an edge that ends in a visited kept
item. -/
theorem Reaches.exists_edge (hparents : KeepsParents children keep) {s : α}
    (has : Reaches children a s) (ha : a ∉ visited) (hs : s ∈ visited) (hkeep : s ∈ keep) :
    ∃ u c, Reaches children a u ∧ u ∉ visited ∧ c ∈ children u ∧ c ∈ visited ∧ c ∈ keep := by
  induction has using Relation.ReflTransGen.head_induction_on with
  | refl => exact absurd hs ha
  | @head a b hab hbs ih =>
    by_cases hb : b ∈ visited
    · exact ⟨a, b, .refl, ha, hab, hb, hparents.mem hkeep hbs⟩
    · obtain ⟨u, c, hbu, hrest⟩ := ih hb
      exact ⟨u, c, .head hab hbu, hrest⟩

theorem Visit.apart (hparents : KeepsParents children keep)
    (h : Visit children pending visited order)
    (hacyclic : Acyclic children pending) (hfinished : Finished children pending visited)
    (hfirst : ParentsFirst children keep visited order) : Apart children keep pending visited ∧
      ∀ w ∈ order, Apart children keep (children w) ∅ := by
  induction h with
  | nil visited =>
    exact ⟨fun ys x zs heq => absurd heq (by simp), fun w hw => absurd hw List.not_mem_nil⟩
  | @seen a pending visited order hseen rest ih =>
    obtain ⟨hapart, hbelow⟩ := ih (hacyclic.of_subset below_subset_cons) hfinished.seen hfirst
    exact ⟨apart_cons (hfinished.entered hseen) (fun hnew => absurd hseen hnew) hapart, hbelow⟩
  | @enter a pending visited below beside hnew down rest ihdown ihrest =>
    have ha : a ∈ Below children (a :: pending) := mem_below_of_mem List.mem_cons_self
    have hdownacyclic := hacyclic.of_subset (below_children_subset ha)
    have hdownfinished := hfinished.down hacyclic
    have hmem := down.mem_iff hdownacyclic hdownfinished
    have hentered := mem_entered hmem
    rw [List.cons_append, parentsFirst_cons, parentsFirst_append] at hfirst
    obtain ⟨hhead, hbelowfirst, hbesidefirst⟩ := hfirst
    obtain ⟨hdownapart, hdownbelow⟩ := ihdown hdownacyclic hdownfinished hbelowfirst
    obtain ⟨hrestapart, hrestbelow⟩ := ihrest (hacyclic.of_subset below_subset_cons)
      (hfinished.rest hentered) hbesidefirst
    refine ⟨apart_cons hentered (fun _ s hs has hsvisited => ?_) hrestapart, fun w hw => ?_⟩
    · -- The edge into the visited items starts at `a` or at an item that was entered below it.
      obtain ⟨u, c, hau, hu, hcu, hc, hckeep⟩ := has.exists_edge hparents hnew hsvisited hs
      rcases reaches_iff.mp hau with rfl | hubelow
      · exact hhead c hcu hckeep hc
      · have hne : u ≠ a := fun heq => hacyclic.not_below ha (heq ▸ hubelow)
        have hin : u ∈ below := (hmem u).mpr ⟨hubelow, fun h => h.elim hne hu⟩
        obtain ⟨l₁, l₂, rfl⟩ := List.append_of_mem hin
        exact (hbelowfirst l₁ u l₂ rfl c hcu hckeep).1 (Set.mem_insert_of_mem _ hc)
    · rw [List.cons_append] at hw
      rcases List.mem_cons.mp hw with rfl | hw
      · intro ys x zs heq _ hys s hs hxs
        have hxchild : x ∈ children w := heq ▸ List.mem_append_right ys List.mem_cons_self
        have hx : x ∉ insert w visited := by
          rintro (rfl | hx)
          · exact hacyclic.not_below ha (mem_below_of_mem hxchild)
          · exact hhead x hxchild (hparents.mem hs hxs) hx
        exact ⟨Set.notMem_empty s, (hdownapart ys x zs heq hx hys s hs hxs).2⟩
      grind

/-- From a root, parents come first exactly when the children of every item are apart. -/
theorem Visit.parentsFirst_iff (hparents : KeepsParents children keep) {root : α}
    (h : Visit children [root] ∅ order) (hacyclic : Acyclic children [root]) :
    ParentsFirst children keep ∅ order ↔
      ∀ w, Reaches children root w → Apart children keep (children w) ∅ := by
  have hfinished : Finished children [root] ∅ := fun u hu => absurd hu (Set.notMem_empty u)
  constructor
  · intro hfirst w hw
    refine (h.apart hparents hacyclic hfinished hfirst).2 w ?_
    exact (h.mem_iff hacyclic hfinished w).mpr
      ⟨mem_below_cons.mpr (.inl hw), Set.notMem_empty w⟩
  · intro hbelow
    refine h.parentsFirst hacyclic hfinished ?_ fun w hw => ?_
    · intro ys x zs heq _ _ s _ _
      have hys : ys = [] := by
        cases ys with
        | nil => rfl
        | cons b ys => simp at heq
      exact ⟨Set.notMem_empty s, hys ▸ mem_below_nil⟩
    · exact hbelow w ((mem_below_cons.mp hw).resolve_right mem_below_nil)

/-! ### The loop of a work list -/

variable [DecidableEq α]

/-- A loop that ends has walked through its stack, every expansion on its way returned, and what it
found is what the entered items yield. -/
theorem visit_of_worklist {expand : α → Option (Except ε (List α × List β))}
    {yield : α → List β}
    (hexpand : ∀ a next more, expand a = some (.ok (next, more)) →
      children a = next.reverse ∧ yield a = more) (fuel : ℕ) :
    ∀ (xs ys visited : List α) (found result : List β),
      worklist expand fuel (xs ++ ys) visited found = some (.ok result) →
      ∃ order fuel', fuel' ≤ fuel ∧ Visit children xs {x | x ∈ visited} order ∧
        (∀ a ∈ order, ∃ next more, expand a = some (.ok (next, more))) ∧
        worklist expand fuel' ys (order.reverse ++ visited) (found ++ order.flatMap yield) =
          some (.ok result) := by
  induction fuel using Nat.strongRecOn with
  | ind fuel ih =>
    intro xs ys visited found result h
    cases xs with
    | nil => exact ⟨[], fuel, le_rfl, .nil _, by simp, by simpa using h⟩
    | cons a xs =>
      cases fuel with
      | zero => simp [worklist] at h
      | succ fuel =>
        rw [List.cons_append, worklist] at h
        by_cases hseen : a ∈ visited
        · rw [if_pos hseen] at h
          obtain ⟨order, fuel', hle, hvisit, hrest⟩ := ih fuel (Nat.lt_succ_self _) xs ys visited
            found result h
          exact ⟨order, fuel', by omega, .seen hseen hvisit, hrest⟩
        · rw [if_neg hseen] at h
          cases ha : expand a with
          | none => simp [ha] at h
          | some r =>
            cases r with
            | error e => simp [ha] at h
            | ok r =>
              obtain ⟨next, more⟩ := r
              obtain ⟨hchildren, hyield⟩ := hexpand a next more ha
              simp only [ha] at h
              rw [← hchildren] at h
              obtain ⟨below, fuel₁, hle₁, hdown, hokbelow, h₁⟩ := ih fuel (Nat.lt_succ_self _)
                (children a) (xs ++ ys) (a :: visited) (found ++ more) result h
              obtain ⟨beside, fuel₂, hle₂, hrest, hokbeside, h₂⟩ := ih fuel₁ (by omega)
                xs ys _ _ result h₁
              have hset : {x | x ∈ a :: visited} = insert a {x | x ∈ visited} := by
                ext x
                simp
              have hset' : {x | x ∈ below.reverse ++ a :: visited} =
                  insert a {x | x ∈ visited} ∪ {x | x ∈ below} := by grind
              rw [hset] at hdown
              rw [hset'] at hrest
              refine ⟨a :: below ++ beside, fuel₂, by omega, .enter hseen hdown hrest, ?_, ?_⟩
              · intro b hb
                rw [List.cons_append] at hb
                rcases List.mem_cons.mp hb with rfl | hb
                · exact ⟨next, more, ha⟩
                · exact (List.mem_append.mp hb).elim (hokbelow b) (hokbeside b)
              · rw [← h₂]
                simp [hyield]

/-- A loop that fails met an item whose expansion fails. -/
theorem exists_error_of_worklist {expand : α → Option (Except ε (List α × List β))} {e : ε}
    {all : List α}
    (hclosed : ∀ a ∈ all, ∀ next more, expand a = some (.ok (next, more)) → ∀ b ∈ next, b ∈ all)
    (fuel : ℕ) : ∀ (pending visited : List α) (found : List β), (∀ a ∈ pending, a ∈ all) →
      worklist expand fuel pending visited found = some (.error e) →
      ∃ a ∈ all, expand a = some (.error e) := by
  induction fuel with
  | zero => exact fun pending visited found _ h => absurd h (by simp [worklist])
  | succ fuel ih =>
    intro pending visited found hpending h
    cases pending with
    | nil => simp [worklist] at h
    | cons a pending =>
      have ha : a ∈ all := hpending a List.mem_cons_self
      have hrest : ∀ b ∈ pending, b ∈ all := fun b hb => hpending b (List.mem_cons_of_mem a hb)
      rw [worklist] at h
      grind

end Pkgly.DepthFirst
