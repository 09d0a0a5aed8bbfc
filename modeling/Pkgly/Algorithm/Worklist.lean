import Mathlib.Data.List.Basic

/-!
# Work lists

`worklist expand fuel pending visited found` takes one item after the other from a stack, expands
those that were not visited before and pushes what they lead to.  An expansion may fail, which ends
the loop, and it may not return (`none`); `none` also stands for too little fuel.

`worklist_returns`: if every expansion returns and leads only to items of a finite list, enough fuel
gives a result.
-/

namespace Pkgly

variable {α β ε : Type*} [DecidableEq α]

/-- The loop over a stack of pending items, the top of the stack first. -/
def worklist (expand : α → Option (Except ε (List α × List β))) :
    ℕ → List α → List α → List β → Option (Except ε (List β))
  | 0, _, _, _ => none
  | _ + 1, [], _, found => some (.ok found)
  | fuel + 1, a :: pending, visited, found =>
    if a ∈ visited then worklist expand fuel pending visited found
    else
      match expand a with
      | none => none
      | some (.error e) => some (.error e)
      | some (.ok (next, more)) =>
        worklist expand fuel (next.reverse ++ pending) (a :: visited) (found ++ more)

/-- The items of `all` that are not visited yet. -/
def unvisited (all visited : List α) : List α := all.filter (· ∉ visited)

theorem length_unvisited_lt {all visited : List α} {a : α} (ha : a ∈ all) (hnew : a ∉ visited) :
    (unvisited all (a :: visited)).length < (unvisited all visited).length := by
  have hsub : unvisited all (a :: visited) = (unvisited all visited).filter (· ≠ a) := by
    rw [unvisited, unvisited, List.filter_filter]
    congr 1
    funext x
    simp [not_or]
  rw [hsub]
  refine List.length_filter_lt_length_iff_exists.mpr ⟨a, ?_, by simp⟩
  exact List.mem_filter.mpr ⟨ha, by simpa using hnew⟩

/-- A loop whose expansions return and stay in a finite list returns.  The induction is on the
number of unvisited items, and within it on the height of the stack. -/
theorem worklist_returns {expand : α → Option (Except ε (List α × List β))} (all : List α)
    (hreturns : ∀ a ∈ all, expand a ≠ none)
    (hclosed : ∀ a ∈ all, ∀ next more, expand a = some (.ok (next, more)) → ∀ b ∈ next, b ∈ all)
    {pending : List α} (hpending : ∀ a ∈ pending, a ∈ all) (visited : List α) (found : List β) :
    ∃ fuel, worklist expand fuel pending visited found ≠ none := by
  induction hn : (unvisited all visited).length using Nat.strongRecOn
    generalizing pending visited found with
  | ind n ih =>
    induction pending with
    | nil => exact ⟨1, by simp [worklist]⟩
    | cons a pending ihpending =>
      have ha : a ∈ all := hpending a List.mem_cons_self
      have hrest : ∀ b ∈ pending, b ∈ all := fun b hb => hpending b (List.mem_cons_of_mem a hb)
      by_cases hseen : a ∈ visited
      · obtain ⟨fuel, hfuel⟩ := ihpending hrest
        exact ⟨fuel + 1, by rwa [worklist, if_pos hseen]⟩
      · cases hexpand : expand a with
        | none => exact absurd hexpand (hreturns a ha)
        | some r =>
          cases r with
          | error e => exact ⟨1, by simp [worklist, hseen, hexpand]⟩
          | ok r =>
            obtain ⟨next, more⟩ := r
            have hall : ∀ b ∈ next.reverse ++ pending, b ∈ all := by grind
            obtain ⟨fuel, hfuel⟩ := ih _ (hn ▸ length_unvisited_lt ha hseen) hall (a :: visited)
              (found ++ more) rfl
            exact ⟨fuel + 1, by rwa [worklist, if_neg hseen, hexpand]⟩

end Pkgly
