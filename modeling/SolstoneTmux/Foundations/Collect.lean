import Mathlib.Logic.Basic
import Mathlib.Data.List.Basic
import Mathlib.Data.List.Nodup

/-!
# Loops that collect

`collect f xs` is a loop over `xs` that appends what `f` gives for each element and stops at the
first error. `collect_eq_ok` says when it ends and with what.
-/

namespace SolstoneTmux.Foundations

variable {α β ε : Type}

/-- What `f` gives for every element, unless it fails for one of them. -/
def collect (f : α → Except ε (List β)) : List α → Except ε (List β)
  | [] => .ok []
  | x :: xs =>
    match f x with
    | .error e => .error e
    | .ok ys => (collect f xs).map (ys ++ ·)

/-- What a step gives when it does not fail. -/
def given : Except ε (List β) → List β
  | .ok ys => ys
  | .error _ => []

/-- The loop ends when no step fails, with all that the steps give. -/
theorem collect_eq_ok {f : α → Except ε (List β)} {xs : List α} {ys : List β} :
    collect f xs = .ok ys ↔
      (∀ x ∈ xs, ∃ zs, f x = .ok zs) ∧ ys = xs.flatMap fun x => given (f x) := by
  induction xs generalizing ys with
  | nil => simp [collect, eq_comm]
  | cons x xs ih =>
    rw [collect, List.forall_mem_cons, List.flatMap_cons]
    cases hx : f x with
    | error e => simp
    | ok zs =>
      cases hxs : collect f xs with
      | error e =>
        refine iff_of_false nofun fun h => ?_
        have := ih.mpr ⟨h.1.2, rfl⟩
        rw [hxs] at this
        cases this
      | ok ws =>
        obtain ⟨hok, hws⟩ := ih.mp hxs
        simp only [Except.map, Except.ok.injEq, given, hws, exists_eq', true_and, eq_comm (a := ys)]
        exact ⟨fun h => ⟨hok, h⟩, And.right⟩

theorem exists_collect_iff {f : α → Except ε (List β)} {xs : List α} :
    (∃ ys, collect f xs = .ok ys) ↔ ∀ x ∈ xs, ∃ zs, f x = .ok zs :=
  ⟨fun ⟨_, h⟩ => (collect_eq_ok.mp h).1, fun h => ⟨_, collect_eq_ok.mpr ⟨h, rfl⟩⟩⟩

theorem mem_collect {f : α → Except ε (List β)} {xs : List α} {ys : List β}
    (h : collect f xs = .ok ys) {y : β} : y ∈ ys ↔ ∃ x ∈ xs, y ∈ given (f x) := by
  rw [(collect_eq_ok.mp h).2, List.mem_flatMap]

/-- Steps that give nothing twice, and no two steps the same thing. -/
theorem nodup_collect {f : α → Except ε (List β)} {xs : List α} {ys : List β}
    (h : collect f xs = .ok ys) (hnodup : ∀ x ∈ xs, (given (f x)).Nodup)
    (hdisjoint : xs.Pairwise fun a b => ∀ y ∈ given (f a), y ∉ given (f b)) : ys.Nodup := by
  rw [(collect_eq_ok.mp h).2, List.nodup_flatMap]
  exact ⟨hnodup, hdisjoint.imp fun hab y hya hyb => hab y hya hyb⟩

end SolstoneTmux.Foundations
