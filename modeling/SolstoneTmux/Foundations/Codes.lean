import Mathlib.Data.List.Basic

/-!
# Texts that are written word for word

A code that writes each letter as a word of its own, which is known by how it begins, can be undone
(`flatMap_injective`). Where a field follows a fixed text that ends with a letter the field does not
have, both can be told apart (`append_inj_of_last`).
-/

namespace SolstoneTmux.Foundations

variable {α β : Type}

/-- A code whose words are known by how they begin. -/
def Readable (code : α → List β) : Prop :=
  ∃ read : List β → Option α, read [] = none ∧ ∀ a rest, read (code a ++ rest) = some a

theorem Readable.ne_nil {code : α → List β} (h : Readable code) (a : α) : code a ≠ [] := by
  obtain ⟨read, hnil, hread⟩ := h
  intro hempty
  have ha := hread a []
  rw [hempty, List.append_nil, hnil] at ha
  cases ha

/-- Two texts of one code are told apart by their words. -/
theorem flatMap_injective {code : α → List β} (h : Readable code) {as bs : List α}
    (heq : as.flatMap code = bs.flatMap code) : as = bs := by
  obtain ⟨read, hnil, hread⟩ := id h
  induction as generalizing bs with
  | nil =>
    cases bs with
    | nil => rfl
    | cons b bs =>
      rw [List.flatMap_nil, List.flatMap_cons] at heq
      exact absurd (List.append_eq_nil_iff.mp heq.symm).1 (h.ne_nil b)
  | cons a as ih =>
    cases bs with
    | nil =>
      rw [List.flatMap_nil, List.flatMap_cons] at heq
      exact absurd (List.append_eq_nil_iff.mp heq).1 (h.ne_nil a)
    | cons b bs =>
      rw [List.flatMap_cons, List.flatMap_cons] at heq
      have hfirst : a = b := by
        have ha := hread a (as.flatMap code)
        rw [heq, hread b] at ha
        exact (Option.some.inj ha).symm
      subst hfirst
      rw [ih (List.append_cancel_left heq)]

theorem mem_of_getLast?_append {c : α} {a w : List α} (hw : w ≠ [])
    (h : (a ++ w).getLast? = some c) : c ∈ w := by
  rw [List.getLast?_append_of_ne_nil _ hw] at h
  exact List.mem_of_getLast? h

/-- A text that ends with a letter, and a field without it. -/
theorem append_inj_of_last {c : α} {a b u v : List α} (ha : a.getLast? = some c)
    (hb : b.getLast? = some c) (hu : c ∉ u) (hv : c ∉ v) (h : a ++ u = b ++ v) :
    a = b ∧ u = v := by
  rcases List.append_eq_append_iff.mp h with ⟨w, hab, huv⟩ | ⟨w, hab, huv⟩
  · by_cases hw : w = []
    · subst hw
      exact ⟨by rw [hab, List.append_nil], huv⟩
    · rw [hab] at hb
      exact absurd (huv ▸ List.mem_append_left _ (mem_of_getLast?_append hw hb)) hu
  · by_cases hw : w = []
    · subst hw
      exact ⟨by rw [hab, List.append_nil], huv.symm⟩
    · rw [hab] at ha
      exact absurd (huv ▸ List.mem_append_left _ (mem_of_getLast?_append hw ha)) hv

end SolstoneTmux.Foundations
