import Mathlib.Data.List.Basic

/-!
# The order of events

Two properties of a log: nothing of a kind comes after an event (`NoneAfter`), and an event is
always preceded by another one (`Preceded`). Each is kept by appending an event that respects it.
-/

namespace SolstoneTmux.Foundations

variable {ε : Type} {log : List ε} {e x : ε} {p q : ε → Prop}

/-- After an event `e`, nothing with `p` comes. -/
def NoneAfter (p : ε → Prop) (e : ε) (log : List ε) : Prop :=
  ∀ earlier later, log = earlier ++ e :: later → ∀ x ∈ later, ¬ p x

/-- Before an event `e`, the event `e'` comes. -/
def Preceded (e' e : ε) (log : List ε) : Prop :=
  ∀ earlier later, log = earlier ++ e :: later → e' ∈ earlier

/-- An event of a longer log is the new one, or an event of the shorter log. -/
theorem eq_append_cons_concat {earlier later : List ε} (h : log ++ [x] = earlier ++ e :: later) :
    (earlier = log ∧ x = e ∧ later = []) ∨
      ∃ rest, later = rest ++ [x] ∧ log = earlier ++ e :: rest := by
  rcases List.eq_nil_or_concat later with rfl | ⟨rest, last, rfl⟩
  · obtain ⟨hlog, hx⟩ := List.append_inj' h rfl
    cases hx
    exact .inl ⟨hlog.symm, rfl, rfl⟩
  · have hsnoc : log ++ [x] = (earlier ++ e :: rest) ++ [last] := by simpa using h
    obtain ⟨hlog, hx⟩ := List.append_inj' hsnoc rfl
    cases hx
    exact .inr ⟨rest, List.concat_eq_append, hlog⟩

theorem noneAfter_nil : NoneAfter p e [] := fun earlier later h => by simp at h

theorem NoneAfter.concat (h : NoneAfter p e log) (hx : e ∈ log → ¬ p x) :
    NoneAfter p e (log ++ [x]) := by
  intro earlier later heq y hy
  rcases eq_append_cons_concat heq with ⟨-, -, rfl⟩ | ⟨rest, rfl, hlog⟩
  · exact absurd hy List.not_mem_nil
  · rcases List.mem_append.mp hy with hy | hy
    · exact h earlier rest hlog y hy
    · rw [List.mem_singleton.mp hy]
      exact hx (by rw [hlog]; simp)

theorem preceded_nil {e' : ε} : Preceded e' e [] := fun earlier later h => by simp at h

theorem Preceded.concat {e' : ε} (h : Preceded e' e log) (hx : x = e → e' ∈ log) :
    Preceded e' e (log ++ [x]) := by
  intro earlier later heq
  rcases eq_append_cons_concat heq with ⟨rfl, hxe, -⟩ | ⟨rest, -, hlog⟩
  · exact hx hxe
  · exact h earlier rest hlog

end SolstoneTmux.Foundations
