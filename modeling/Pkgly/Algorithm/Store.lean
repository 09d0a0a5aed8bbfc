import Mathlib.Algebra.GroupWithZero.Nat
import Mathlib.Data.List.AList

/-!
# Finite stores

A `Store κ β` is a finite map from keys to values: Mathlib's `AList` with a constant value type,
so that keys are distinct by construction and the entries can be listed.  The operations are
`get`, `put`, `putAll`, `remove`, `removeIf` (drop every key of a decidable set), `filterValues`,
`mapValues` and `mapKeys`; each has one lemma that says what `get` reads afterwards, and no proof
about a store looks below them.
-/

namespace Pkgly

/-- A finite map from `κ` to `β`. -/
abbrev Store (κ β : Type*) := AList fun _ : κ => β

namespace Store

variable {κ β : Type*} [DecidableEq κ]

/-- The value at `k`. -/
def get (s : Store κ β) (k : κ) : Option β := s.lookup k

/-- Set the value at `k`. -/
def put (s : Store κ β) (k : κ) (b : β) : Store κ β := s.insert k b

/-- Set all values of `t`. -/
def putAll (s t : Store κ β) : Store κ β := t ∪ s

/-- Drop the key `k`. -/
def remove (s : Store κ β) (k : κ) : Store κ β := s.erase k

/-- Drop every key that `p` selects. -/
def removeIf (s : Store κ β) (p : κ → Bool) : Store κ β where
  entries := s.entries.filter fun e => !p e.1
  nodupKeys := by
    have h : s.entries.NodupKeys := s.nodupKeys
    rw [List.nodupKeys_iff_pairwise] at h ⊢
    exact h.filter _

/-- Drop every value that `p` does not select. -/
def filterValues (s : Store κ β) (p : β → Bool) : Store κ β where
  entries := s.entries.filter fun e => p e.2
  nodupKeys := by
    have h : s.entries.NodupKeys := s.nodupKeys
    rw [List.nodupKeys_iff_pairwise] at h ⊢
    exact h.filter _

/-- Change every value by `f`. -/
def mapValues {γ : Type*} (s : Store κ β) (f : β → γ) : Store κ γ where
  entries := s.entries.map fun e => ⟨e.1, f e.2⟩
  nodupKeys := by
    have h : s.entries.NodupKeys := s.nodupKeys
    rw [List.nodupKeys_iff_pairwise] at h ⊢
    exact List.pairwise_map.mpr h

/-- Change every key by `f`, which must keep the keys apart. -/
def mapKeys (s : Store κ β) (f : κ → κ) (hf : ∀ k ∈ s.keys, ∀ k' ∈ s.keys, f k = f k' → k = k') :
    Store κ β where
  entries := s.entries.map fun e => ⟨f e.1, e.2⟩
  nodupKeys := by
    have h : s.entries.NodupKeys := s.nodupKeys
    rw [List.nodupKeys_iff_pairwise] at h ⊢
    rw [List.pairwise_map]
    refine List.Pairwise.imp_of_mem (fun {e e'} he he' hne heq => hne ?_) h
    exact hf _ (List.mem_map_of_mem he) _ (List.mem_map_of_mem he') heq

@[simp] theorem get_empty (k : κ) : get (∅ : Store κ β) k = none := AList.lookup_empty k

theorem get_put (s : Store κ β) (k k' : κ) (b : β) :
    (s.put k b).get k' = if k' = k then some b else s.get k' := by
  unfold get put
  split_ifs with h
  · rw [h, AList.lookup_insert]
  · rw [AList.lookup_insert_ne h]

@[simp] theorem get_put_self (s : Store κ β) (k : κ) (b : β) : (s.put k b).get k = some b := by
  rw [get_put, if_pos rfl]

variable {k : κ} {s : Store κ β}

theorem get_put_of_ne (s : Store κ β) {k' : κ} (b : β) (h : k' ≠ k) :
    (s.put k b).get k' = s.get k' := by
  rw [get_put, if_neg h]

/-- What is read after a value has been set was set, or read before at another key. -/
theorem get_put_eq_some {k' : κ} {b c : β} :
    (s.put k b).get k' = some c ↔ k' = k ∧ b = c ∨ k' ≠ k ∧ s.get k' = some c := by
  rw [get_put]
  split_ifs with h
  · simp [h]
  · simp [h]

theorem get_putAll (s t : Store κ β) (k : κ) : (s.putAll t).get k = (t.get k).or (s.get k) := by
  unfold get putAll
  by_cases hk : k ∈ t
  · obtain ⟨b, hb⟩ := Option.isSome_iff_exists.mp (AList.lookup_isSome.mpr hk)
    rw [AList.lookup_union_left hk, hb, Option.some_or]
  · rw [AList.lookup_union_right hk, AList.lookup_eq_none.mpr hk, Option.none_or]

theorem get_remove (s : Store κ β) (k k' : κ) :
    (s.remove k).get k' = if k' = k then none else s.get k' := by
  unfold get remove
  split_ifs with h
  · rw [h, AList.lookup_erase]
  · rw [AList.lookup_erase_ne h]

@[simp] theorem get_remove_self (s : Store κ β) (k : κ) : (s.remove k).get k = none := by
  rw [get_remove, if_pos rfl]

/-- A value is read at a key iff the entry is listed. -/
theorem get_eq_some_iff {b : β} : s.get k = some b ↔ Sigma.mk k b ∈ s.entries :=
  AList.mem_lookup_iff

theorem get_removeIf (s : Store κ β) (p : κ → Bool) (k : κ) :
    (s.removeIf p).get k = if p k then none else s.get k := by
  have key : ∀ b, (s.removeIf p).get k = some b ↔ p k = false ∧ s.get k = some b := by
    intro b
    rw [get_eq_some_iff, get_eq_some_iff, removeIf, List.mem_filter]
    simp [and_comm]
  aesop

theorem get_filterValues (s : Store κ β) (p : β → Bool) (k : κ) :
    (s.filterValues p).get k = (s.get k).filter p := by
  refine Option.ext fun b => ?_
  rw [get_eq_some_iff, filterValues, List.mem_filter, Option.filter_eq_some_iff, get_eq_some_iff]

theorem get_mapValues {γ : Type*} (s : Store κ β) (f : β → γ) (k : κ) :
    (s.mapValues f).get k = (s.get k).map f := by
  refine Option.ext fun c => ?_
  rw [get_eq_some_iff, Option.map_eq_some_iff, mapValues, List.mem_map]
  constructor
  · rintro ⟨⟨k', b⟩, he, heq⟩
    obtain ⟨rfl, rfl⟩ := Sigma.mk.inj heq
    exact ⟨b, get_eq_some_iff.mpr he, rfl⟩
  · rintro ⟨b, hb, rfl⟩
    exact ⟨⟨k, b⟩, get_eq_some_iff.mp hb, rfl⟩

theorem get_mapKeys_eq_some_iff {f : κ → κ} {hf} {b : β} :
    (s.mapKeys f hf).get k = some b ↔ ∃ k', f k' = k ∧ s.get k' = some b := by
  rw [get_eq_some_iff, mapKeys, List.mem_map]
  constructor
  · rintro ⟨⟨k', b'⟩, he, heq⟩
    obtain ⟨hk, rfl⟩ := Sigma.mk.inj heq
    exact ⟨k', hk, get_eq_some_iff.mpr he⟩
  · rintro ⟨k', rfl, hb⟩
    exact ⟨⟨k', b⟩, get_eq_some_iff.mp hb, rfl⟩

omit [DecidableEq κ] in
theorem removeIf_false (s : Store κ β) : s.removeIf (fun _ => false) = s :=
  AList.ext (List.filter_true _)

/-- Setting a key lists the entry in front of the others. -/
theorem entries_put (s : Store κ β) (k : κ) (b : β) :
    (s.put k b).entries = ⟨k, b⟩ :: (s.remove k).entries :=
  rfl

theorem perm_remove {b : β} (h : s.get k = some b) :
    s.entries.Perm (⟨k, b⟩ :: (s.remove k).entries) := by
  have hput : s.entries.Perm (s.put k b).entries := by
    refine (List.perm_ext_iff_of_nodup s.nodupKeys.nodup (s.put k b).nodupKeys.nodup).mpr ?_
    rintro ⟨k', b'⟩
    rw [← get_eq_some_iff, ← get_eq_some_iff, get_put]
    split_ifs with hk
    · rw [hk, h]
    · rfl
  rwa [entries_put] at hput

theorem remove_eq_self (h : s.get k = none) : s.remove k = s := by
  refine AList.ext (List.kerase_of_notMem_keys fun hmem => ?_)
  obtain ⟨b, hb⟩ := List.exists_of_mem_keys hmem
  rw [get_eq_some_iff.mpr hb] at h
  cases h

def total (f : β → ℕ) (s : Store κ β) : ℕ := (s.entries.map fun e => f e.2).sum

theorem total_put (f : β → ℕ) (s : Store κ β) (k : κ) (b : β) :
    (s.put k b).total f = f b + (s.remove k).total f := by
  unfold total
  rw [entries_put, List.map_cons, List.sum_cons]

theorem total_of_get {f : β → ℕ} {b : β} (h : s.get k = some b) :
    s.total f = f b + (s.remove k).total f := by
  unfold total
  rw [((perm_remove h).map _).sum_nat, List.map_cons, List.sum_cons]

/-- The last value set at a key counts. -/
theorem put_put (s : Store κ β) (k : κ) (b c : β) : (s.put k b).put k c = s.put k c :=
  AList.insert_insert s

theorem mem_keys_iff : k ∈ s.keys ↔ ∃ b, s.get k = some b := by
  rw [← AList.mem_keys, ← AList.lookup_isSome, Option.isSome_iff_exists]
  rfl

end Store

end Pkgly
