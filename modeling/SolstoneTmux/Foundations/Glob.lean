import Mathlib.Data.List.Basic

/-!
# Patterns with stars

A pattern is a list in which a star stands for any run of elements. `Fits star p s` is the language
of the pattern, one rule for the end, a star and another element.

The greedy matcher works on the parts of the pattern between its stars: the first part has to begin
the list, each middle part is looked for at its leftmost place in what remains (`findAfter`), and
the last one has to end it. `gaps_append_singleton` says that the leftmost places lose no match,
because what the later parts need may always be preceded by more (`Gaps.prepend`), and
`fits_iff_parts` that the parts decide.
-/

namespace SolstoneTmux.Foundations

variable {α : Type}

/-- The list comes from the pattern by putting some list in the place of each star. -/
inductive Fits (star : α) : List α → List α → Prop
  | nil : Fits star [] []
  | star (w : List α) {p s : List α} : Fits star p s → Fits star (star :: p) (w ++ s)
  | cons {a : α} {p s : List α} : a ≠ star → Fits star p s → Fits star (a :: p) (a :: s)

/-- The parts follow in this order, each after some gap, and the last one ends the list. -/
def Gaps : List (List α) → List α → Prop
  | [], s => s = []
  | part :: parts, s => ∃ gap rest, s = gap ++ part ++ rest ∧ Gaps parts rest

/-- The first part begins the list and the others follow after gaps. -/
def PartsFit : List (List α) → List α → Prop
  | [], _ => False
  | first :: parts, s => ∃ rest, s = first ++ rest ∧ Gaps parts rest

/-- A gap may be longer. -/
theorem Gaps.prepend {part : List α} {parts : List (List α)} {s : List α}
    (h : Gaps (part :: parts) s) (w : List α) : Gaps (part :: parts) (w ++ s) := by
  obtain ⟨gap, rest, rfl, hrest⟩ := h
  exact ⟨w ++ gap, rest, by simp, hrest⟩

theorem gaps_singleton {last s : List α} : Gaps [last] s ↔ last <:+ s := by
  constructor
  · rintro ⟨gap, rest, rfl, rfl⟩
    exact ⟨gap, by simp⟩
  · rintro ⟨gap, rfl⟩
    exact ⟨gap, [], by simp, rfl⟩

section Search

variable [DecidableEq α]

/-- What follows the leftmost occurrence of a part. -/
def findAfter (part : List α) : List α → Option (List α)
  | [] => if part = [] then some [] else none
  | a :: s =>
    if part.isPrefixOf (a :: s) then some ((a :: s).drop part.length) else findAfter part s

/-- The leftmost occurrence: whatever follows any occurrence ends what follows this one. -/
theorem findAfter_of_occurs (part gap rest : List α) :
    ∃ more, findAfter part (gap ++ part ++ rest) = some (more ++ rest) := by
  induction gap with
  | nil =>
    refine ⟨[], ?_⟩
    cases part with
    | nil => cases rest <;> simp [findAfter]
    | cons a part =>
      have hbegins : (a :: part).isPrefixOf (a :: (part ++ rest)) = true :=
        List.isPrefixOf_iff_prefix.mpr ⟨rest, rfl⟩
      simp only [List.nil_append, List.cons_append, findAfter, if_pos hbegins]
      simp
  | cons a gap ih =>
    rw [List.cons_append, List.cons_append, findAfter]
    split
    · rename_i hbegins
      obtain ⟨t, ht⟩ := List.isPrefixOf_iff_prefix.mp hbegins
      -- the part begins here already, so what follows it is longer than the rest
      have hlength := congrArg List.length ht
      simp only [List.length_append, List.length_cons] at hlength
      have hsuffix : rest <:+ t := by
        have hrest : rest <:+ part ++ t := ⟨a :: (gap ++ part), by rw [ht]; simp⟩
        exact List.suffix_of_suffix_length_le hrest (List.suffix_append part t) (by omega)
      obtain ⟨more, rfl⟩ := hsuffix
      refine ⟨more, ?_⟩
      rw [← ht, List.drop_left]
    · exact ih

theorem findAfter_eq_some {part s t : List α} (h : findAfter part s = some t) :
    ∃ gap, s = gap ++ part ++ t := by
  induction s with
  | nil =>
    rw [findAfter] at h
    split at h
    · rename_i hpart
      rw [← Option.some.inj h, hpart]
      exact ⟨[], rfl⟩
    · simp at h
  | cons a s ih =>
    rw [findAfter] at h
    split at h
    · rename_i hbegins
      obtain ⟨r, hr⟩ := List.isPrefixOf_iff_prefix.mp hbegins
      rw [← hr, List.drop_left] at h
      rw [← hr, Option.some.inj h]
      exact ⟨[], rfl⟩
    · obtain ⟨gap, rfl⟩ := ih h
      exact ⟨a :: gap, rfl⟩

/-- What follows the leftmost occurrences of the parts, one after the other. -/
def findAllAfter : List (List α) → List α → Option (List α)
  | [], s => some s
  | part :: parts, s => (findAfter part s).bind (findAllAfter parts)

/-- The leftmost places of the middle parts lose no match. -/
theorem gaps_append_singleton (middle : List (List α)) (last s : List α) :
    Gaps (middle ++ [last]) s ↔ ∃ rest, findAllAfter middle s = some rest ∧ last <:+ rest := by
  induction middle generalizing s with
  | nil => simp [findAllAfter, gaps_singleton]
  | cons part middle ih =>
    rw [List.cons_append, findAllAfter]
    constructor
    · rintro ⟨gap, rest, rfl, hrest⟩
      obtain ⟨more, hmore⟩ := findAfter_of_occurs part gap rest
      rw [hmore, Option.bind_some, ← ih]
      cases middle with
      | nil => exact hrest.prepend more
      | cons part' middle => exact hrest.prepend more
    · rintro ⟨rest, hfound, hlast⟩
      obtain ⟨t, ht, hrest⟩ := Option.bind_eq_some_iff.mp hfound
      obtain ⟨gap, rfl⟩ := findAfter_eq_some ht
      exact ⟨gap, t, rfl, (ih t).mpr ⟨rest, hrest, hlast⟩⟩

/-! ## Parts of a pattern -/

/-- A pattern fits when its parts between stars do. -/
theorem fits_iff_parts (star : α) (p s : List α) :
    Fits star p s ↔ PartsFit (p.splitOn star) s := by
  induction p generalizing s with
  | nil =>
    rw [List.splitOn_nil]
    constructor
    · rintro ⟨⟩
      exact ⟨[], rfl, rfl⟩
    · rintro ⟨rest, rfl, rfl⟩
      exact .nil
  | cons a p ih =>
    obtain ⟨first, parts, hparts⟩ := List.exists_cons_of_ne_nil (List.splitOn_ne_nil star p)
    rw [hparts] at ih
    rw [List.splitOn_cons_eq_if_modifyHead, hparts]
    by_cases ha : a = star
    · subst ha
      rw [if_pos (beq_self_eq_true a)]
      constructor
      · intro h
        cases h with
        | star w h =>
          obtain ⟨rest, rfl, hrest⟩ := (ih _).mp h
          exact ⟨_, rfl, w, rest, by simp, hrest⟩
        | cons hne => exact absurd rfl hne
      · rintro ⟨-, rfl, gap, rest, rfl, hrest⟩
        rw [List.append_assoc]
        exact .star gap ((ih _).mpr ⟨rest, rfl, hrest⟩)
    · rw [if_neg (by simpa using ha)]
      constructor
      · intro h
        cases h with
        | star => exact absurd rfl ha
        | cons hne h =>
          obtain ⟨rest, rfl, hrest⟩ := (ih _).mp h
          exact ⟨rest, rfl, hrest⟩
      · rintro ⟨rest, rfl, hrest⟩
        exact .cons ha ((ih _).mpr ⟨rest, rfl, hrest⟩)

end Search

end SolstoneTmux.Foundations
