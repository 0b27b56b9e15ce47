import Mathlib.Data.List.Basic
import Mathlib.Data.List.TakeDrop

/-!
# Terminated lines

A file of lines is a list in which a separator ends each line; what follows the last separator is a
torn line. `splitInclusive` cuts a list after each separator, and `completePart` is the list up to
its last separator.

* `completePart_append_of_not_mem`: a torn line adds nothing to the complete part.
* `completePart_mono`: the complete part of a prefix is a prefix of the complete part.
* `IsLine` is one terminated line; `splitInclusive_flatten` says that a sequence of lines is cut
  into exactly these lines.
-/

namespace SolstoneTmux.Foundations

variable {α : Type} [DecidableEq α] {sep : α}

/-- `slice::split_inclusive`. -/
def splitInclusive (sep : α) : List α → List (List α)
  | [] => []
  | a :: l =>
    if a = sep then [a] :: splitInclusive sep l
    else
      match splitInclusive sep l with
      | [] => [[a]]
      | line :: lines => (a :: line) :: lines

/-- The list up to and including its last separator. -/
def completePart (sep : α) : List α → List α
  | [] => []
  | a :: l => if a = sep ∨ sep ∈ l then a :: completePart sep l else []

@[simp] theorem completePart_nil : completePart sep [] = [] := rfl

theorem completePart_of_not_mem {l : List α} (h : sep ∉ l) : completePart sep l = [] := by
  cases l with
  | nil => rfl
  | cons a l =>
    rw [List.mem_cons, not_or] at h
    rw [completePart, if_neg]
    rintro (ha | hl)
    · exact h.1 ha.symm
    · exact h.2 hl

theorem completePart_append_of_mem {l t : List α} (h : sep ∈ t) :
    completePart sep (l ++ t) = l ++ completePart sep t := by
  induction l with
  | nil => rfl
  | cons a l ih =>
    rw [List.cons_append, completePart, if_pos (.inr (List.mem_append_right l h)), ih,
      List.cons_append]

theorem completePart_append_of_not_mem {l t : List α} (h : sep ∉ t) :
    completePart sep (l ++ t) = completePart sep l := by
  induction l with
  | nil => exact completePart_of_not_mem h
  | cons a l ih =>
    have hmem : sep ∈ l ++ t ↔ sep ∈ l := by simp [h]
    simp only [List.cons_append, completePart, hmem, ih]

theorem completePart_isPrefix (l : List α) : completePart sep l <+: l := by
  induction l with
  | nil => exact List.prefix_rfl
  | cons a l ih =>
    rw [completePart]
    split
    · exact List.prefix_cons_inj a |>.mpr ih
    · exact List.nil_prefix

theorem completePart_mono {l m : List α} (h : l <+: m) :
    completePart sep l <+: completePart sep m := by
  obtain ⟨t, rfl⟩ := h
  by_cases ht : sep ∈ t
  · rw [completePart_append_of_mem ht]
    exact (completePart_isPrefix l).trans (List.prefix_append _ _)
  · exact completePart_append_of_not_mem ht ▸ List.prefix_rfl

/-- A list is complete when nothing follows its last separator. -/
def Complete (sep : α) (l : List α) : Prop := completePart sep l = l

theorem complete_nil : Complete sep [] := rfl

theorem complete_append_sep (l : List α) : Complete sep (l ++ [sep]) := by
  rw [Complete, completePart_append_of_mem (List.mem_singleton_self sep)]
  simp [completePart]

theorem Complete.append {l m : List α} (hl : Complete sep l) (hm : Complete sep m) :
    Complete sep (l ++ m) := by
  by_cases h : sep ∈ m
  · rw [Complete, completePart_append_of_mem h, hm]
  · have hnil : m = [] := by rw [← hm, completePart_of_not_mem h]
    rw [hnil, List.append_nil]
    exact hl

theorem completePart_complete (l : List α) : Complete sep (completePart sep l) := by
  induction l with
  | nil => rfl
  | cons a l ih =>
    rw [completePart]
    split
    · rename_i h
      rw [Complete, completePart, ih, if_pos]
      rcases h with h | h
      · exact .inl h
      · have hmem : sep ∈ completePart sep l := by
          obtain ⟨s, t, rfl⟩ := List.mem_iff_append.mp h
          rw [completePart_append_of_mem List.mem_cons_self]
          simp [completePart]
        exact .inr hmem
    · rfl

/-- Appending to a complete list a part without separator keeps the complete part. -/
theorem Complete.completePart_append {l t : List α} (hl : Complete sep l) (ht : sep ∉ t) :
    completePart sep (l ++ t) = l := by
  rw [completePart_append_of_not_mem ht, hl]

theorem complete_iff_getLast? {l : List α} :
    Complete sep l ↔ l = [] ∨ l.getLast? = some sep := by
  constructor
  · intro h
    rcases List.eq_nil_or_concat l with rfl | ⟨m, a, rfl⟩
    · exact .inl rfl
    · refine .inr ?_
      rw [List.concat_eq_append] at h ⊢
      by_cases ha : a = sep
      · simp [ha]
      · have hnot : sep ∉ [a] := by simpa using Ne.symm ha
        rw [Complete, completePart_append_of_not_mem hnot] at h
        have hlen : (completePart sep m).length ≤ m.length := (completePart_isPrefix m).length_le
        rw [h, List.length_append, List.length_singleton] at hlen
        omega
  · rintro (rfl | h)
    · rfl
    · rcases List.eq_nil_or_concat l with rfl | ⟨m, a, rfl⟩
      · rfl
      · rw [List.concat_eq_append] at h ⊢
        simp only [List.getLast?_append, List.getLast?_singleton, Option.some_or,
          Option.some.injEq] at h
        rw [h]
        exact complete_append_sep m

/-- What ends with a separator lies in the complete part. -/
theorem isPrefix_completePart {l m : List α} (h : l <+: m) (hl : l.getLast? = some sep) :
    l <+: completePart sep m := by
  have hcomplete : completePart sep l = l := complete_iff_getLast?.mpr (.inr hl)
  rw [← hcomplete]
  exact completePart_mono h

/-! ## Cutting into lines -/

/-- One terminated line. -/
def IsLine (sep : α) (l : List α) : Prop := ∃ body, l = body ++ [sep] ∧ sep ∉ body

theorem IsLine.complete {l : List α} (h : IsLine sep l) : Complete sep l := by
  obtain ⟨body, rfl, -⟩ := h
  exact complete_append_sep body

theorem complete_flatten {lines : List (List α)} (h : ∀ l ∈ lines, IsLine sep l) :
    Complete sep lines.flatten := by
  induction lines with
  | nil => rfl
  | cons l lines ih =>
    rw [List.flatten_cons]
    exact (h l List.mem_cons_self).complete.append (ih fun m hm => h m (List.mem_cons_of_mem _ hm))

theorem splitInclusive_line_append {body t : List α} (h : sep ∉ body) :
    splitInclusive sep (body ++ [sep] ++ t) = (body ++ [sep]) :: splitInclusive sep t := by
  induction body with
  | nil => simp [splitInclusive]
  | cons a body ih =>
    rw [List.mem_cons, not_or] at h
    have hcut := ih h.2
    rw [List.append_assoc] at hcut ⊢
    simp only [List.cons_append, List.nil_append] at hcut ⊢
    rw [splitInclusive, if_neg (Ne.symm h.1), hcut]

/-- A sequence of lines followed by a torn one is cut into these lines and the torn one. -/
theorem splitInclusive_flatten_append {lines : List (List α)} (h : ∀ l ∈ lines, IsLine sep l)
    (t : List α) : splitInclusive sep (lines.flatten ++ t) = lines ++ splitInclusive sep t := by
  induction lines with
  | nil => rfl
  | cons l lines ih =>
    obtain ⟨body, rfl, hbody⟩ := h _ List.mem_cons_self
    rw [List.flatten_cons, List.append_assoc, splitInclusive_line_append hbody,
      ih fun m hm => h m (List.mem_cons_of_mem _ hm)]
    rfl

theorem splitInclusive_flatten {lines : List (List α)} (h : ∀ l ∈ lines, IsLine sep l) :
    splitInclusive sep lines.flatten = lines := by
  have := splitInclusive_flatten_append h []
  simpa [splitInclusive] using this

theorem splitInclusive_of_not_mem {l : List α} (h : sep ∉ l) (hne : l ≠ []) :
    splitInclusive sep l = [l] := by
  induction l with
  | nil => exact absurd rfl hne
  | cons a l ih =>
    rw [List.mem_cons, not_or] at h
    rw [splitInclusive, if_neg (Ne.symm h.1)]
    cases l with
    | nil => rfl
    | cons b l => rw [ih h.2 (List.cons_ne_nil b l)]

/-- Every list is a sequence of lines followed by a torn line. -/
theorem exists_lines (sep : α) (l : List α) :
    ∃ (lines : List (List α)) (t : List α), (∀ m ∈ lines, IsLine sep m) ∧ sep ∉ t ∧ l = lines.flatten ++ t := by
  induction l with
  | nil => exact ⟨[], [], by simp, by simp, rfl⟩
  | cons a l ih =>
    obtain ⟨lines, t, hlines, ht, rfl⟩ := ih
    by_cases ha : a = sep
    · refine ⟨[a] :: lines, t, ?_, ht, rfl⟩
      intro m hm
      rcases List.mem_cons.mp hm with rfl | hm
      · exact ⟨[], by simp [ha], by simp⟩
      · exact hlines m hm
    · cases lines with
      | nil =>
        refine ⟨[], a :: t, by simp, ?_, rfl⟩
        simp [Ne.symm ha, ht]
      | cons line lines =>
        refine ⟨(a :: line) :: lines, t, ?_, ht, rfl⟩
        intro m hm
        rcases List.mem_cons.mp hm with rfl | hm
        · obtain ⟨body, rfl, hbody⟩ := hlines line List.mem_cons_self
          exact ⟨a :: body, rfl, by simp [Ne.symm ha, hbody]⟩
        · exact hlines m (List.mem_cons_of_mem _ hm)

omit [DecidableEq α] in
/-- A sequence of lines that is cut anywhere: whole lines, and a torn one that is not whole. -/
theorem exists_cut {lines : List (List α)} (h : ∀ l ∈ lines, IsLine sep l) {k : ℕ}
    (hk : k ≤ lines.flatten.length) :
    ∃ (n : ℕ) (t : List α), n ≤ lines.length ∧ lines.flatten.take k = (lines.take n).flatten ++ t ∧
      sep ∉ t ∧ ∀ m, n < m → m ≤ lines.length → k < (lines.take m).flatten.length := by
  induction lines generalizing k with
  | nil =>
    refine ⟨0, [], Nat.le_refl 0, ?_, List.not_mem_nil, fun m hm hle => ?_⟩
    · rw [List.flatten_nil, List.take_nil]
      rfl
    · rw [List.length_nil] at hle
      omega
  | cons line lines ih =>
    rw [List.flatten_cons, List.length_append] at hk
    by_cases hcut : k < line.length
    · refine ⟨0, line.take k, Nat.zero_le _, ?_, ?_, fun m hm _ => ?_⟩
      · rw [List.flatten_cons, List.take_append_of_le_length (Nat.le_of_lt hcut)]
        rfl
      · obtain ⟨body, rfl, hbody⟩ := h line List.mem_cons_self
        rw [List.length_append, List.length_singleton] at hcut
        rw [List.take_append_of_le_length (Nat.le_of_lt_succ hcut)]
        exact fun hmem => hbody (List.mem_of_mem_take hmem)
      · obtain ⟨m, rfl⟩ : ∃ i, m = i + 1 := ⟨m - 1, by omega⟩
        rw [List.take_succ_cons, List.flatten_cons, List.length_append]
        omega
    · obtain ⟨n, t, hn, htake, ht, hmax⟩ := ih (fun l hl => h l (List.mem_cons_of_mem _ hl))
        (k := k - line.length) (by omega)
      refine ⟨n + 1, t, Nat.succ_le_succ hn, ?_, ht, fun m hm hle => ?_⟩
      · rw [List.flatten_cons, List.take_append, List.take_of_length_le (Nat.le_of_not_lt hcut),
          htake, List.take_succ_cons, List.flatten_cons, List.append_assoc]
      · obtain ⟨m, rfl⟩ : ∃ i, m = i + 1 := ⟨m - 1, by omega⟩
        have := hmax m (Nat.lt_of_succ_lt_succ hm) (Nat.le_of_succ_le_succ hle)
        rw [List.take_succ_cons, List.flatten_cons, List.length_append]
        omega

end SolstoneTmux.Foundations
