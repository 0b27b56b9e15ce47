import Mathlib.Data.List.Basic

/-!
# Joined lists

Lists joined with a separator between them. The separator may occur in the lists too, so that
different lists can have the same join. `join_eq_iff` says when: their pieces between separators are
the same in a row, and only the places where one list ends and the next begins differ.
`eq_iff_pieces` says that the pieces and their number in each list determine the lists.
-/

namespace SolstoneTmux.Foundations

variable {α : Type} {sep : α} {ls ms : List (List α)}

/-- The lists in a row with a separator between them. -/
def join (sep : α) (ls : List (List α)) : List α := [sep].intercalate ls

theorem join_cons_cons (l m : List α) (ls : List (List α)) :
    join sep (l :: m :: ls) = l ++ sep :: join sep (m :: ls) := by
  simp [join, List.intercalate]

theorem mem_join {a : α} (h : a ∈ join sep ls) : a = sep ∨ ∃ l ∈ ls, a ∈ l := by
  induction ls with
  | nil => simp [join, List.intercalate] at h
  | cons l ls ih =>
    cases ls with
    | nil => exact Or.inr ⟨l, by simp, by simpa [join, List.intercalate] using h⟩
    | cons m ls =>
      rw [join_cons_cons, List.mem_append, List.mem_cons] at h
      rcases h with h | h | h
      · exact Or.inr ⟨l, by simp, h⟩
      · exact Or.inl h
      · obtain hsep | ⟨k, hk, ha⟩ := ih h
        · exact Or.inl hsep
        · exact Or.inr ⟨k, List.mem_cons_of_mem _ hk, ha⟩

variable [DecidableEq α]

/-- The pieces between separators of several lists in a row. -/
def pieces (sep : α) (ls : List (List α)) : List (List α) := ls.flatMap (·.splitOn sep)

/-- How many pieces each of the lists has. -/
def pieceCounts (sep : α) (ls : List (List α)) : List ℕ := ls.map fun l => (l.splitOn sep).length

/-- The pieces of a join are the pieces of the lists. -/
theorem splitOn_join (h : ls ≠ []) : (join sep ls).splitOn sep = pieces sep ls := by
  induction ls with
  | nil => exact absurd rfl h
  | cons l ls ih =>
    cases ls with
    | nil => simp [join, pieces, List.intercalate]
    | cons m ls =>
      rw [join_cons_cons, List.splitOn_append_cons_self, ih (by simp)]
      rfl

/-- Lists without the separator are the pieces of their join. -/
theorem splitOn_join_of_not_mem (h : ls ≠ []) (hsep : ∀ l ∈ ls, sep ∉ l) :
    (join sep ls).splitOn sep = ls := by
  rw [splitOn_join h]
  clear h
  induction ls with
  | nil => rfl
  | cons l ls ih =>
    rw [pieces, List.flatMap_cons, List.splitOn_eq_singleton (hsep l (by simp)),
      List.singleton_append]
    congr 1
    exact ih fun m hm => hsep m (List.mem_cons_of_mem _ hm)

theorem splitOn_injective (sep : α) : Function.Injective (List.splitOn sep) := by
  intro l m h
  have hl : List.intercalate [sep] (l.splitOn sep) = l := List.intercalate_splitOn sep
  rw [← hl, h, List.intercalate_splitOn]

/-- Lists have the same join when their pieces in a row are the same. -/
theorem join_eq_iff (hl : ls ≠ []) (hm : ms ≠ []) :
    join sep ls = join sep ms ↔ pieces sep ls = pieces sep ms := by
  rw [← splitOn_join hl, ← splitOn_join hm]
  exact (splitOn_injective sep).eq_iff.symm

/-- The pieces in a row, cut as they were, are the lists. -/
theorem eq_iff_pieces (sep : α) :
    ls = ms ↔ pieces sep ls = pieces sep ms ∧ pieceCounts sep ls = pieceCounts sep ms := by
  refine ⟨fun h => by rw [h]; exact ⟨rfl, rfl⟩, ?_⟩
  rintro ⟨hpieces, hcounts⟩
  induction ls generalizing ms with
  | nil =>
    cases ms with
    | nil => rfl
    | cons m ms => simp [pieceCounts] at hcounts
  | cons l ls ih =>
    cases ms with
    | nil => simp [pieceCounts] at hcounts
    | cons m ms =>
      simp only [pieceCounts, List.map_cons, List.cons.injEq] at hcounts
      simp only [pieces, List.flatMap_cons] at hpieces
      obtain ⟨hfirst, hrest⟩ := List.append_inj hpieces hcounts.1
      rw [splitOn_injective sep hfirst, ih hrest hcounts.2]

end SolstoneTmux.Foundations
