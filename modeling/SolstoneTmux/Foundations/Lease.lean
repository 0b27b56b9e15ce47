import Mathlib.Logic.Basic
import Mathlib.Data.List.Basic

/-!
# Leased values

A value that its owner may change at any time is leased: the holder remembers what it was and what
it has written itself, and tells from the current value whether its own is still in place. Once it
finds another value there it lets go.

`restored_cases` says that the value that is left is the original or one that the owner gave, and
`restored_of_last_edit` that an owner's last value stays when the holder's own was another.
-/

namespace SolstoneTmux.Foundations

/-- A leased value: what it was, what its holder last wrote, what it is, and whether the holder has
not let go. -/
structure Lease (α : Type) where
  original : α
  written : α
  current : α
  held : Bool

/-- What happens to a leased value: its owner changes it, or its holder. -/
inductive LeaseAct (α : Type)
  | edit (value : α)
  | update (value : α)

namespace Lease

variable {α : Type} [DecidableEq α]

/-- A value that was just leased. -/
def taken (original written : α) : Lease α where
  original := original
  written := written
  current := written
  held := true

/-- One change. The holder writes only over its own value, and lets go of any other. -/
def step (l : Lease α) : LeaseAct α → Lease α
  | .edit value => { l with current := value }
  | .update value =>
    if l.held then
      if l.current = l.written then { l with written := value, current := value }
      else { l with held := false }
    else l

/-- A number of changes. -/
def after (l : Lease α) (acts : List (LeaseAct α)) : Lease α := acts.foldl step l

/-- The value once the lease ends. -/
def restored (l : Lease α) : α :=
  if l.held = true ∧ l.current = l.written then l.original else l.current

variable {l : Lease α} {acts : List (LeaseAct α)}

theorem after_append (l : Lease α) (first second : List (LeaseAct α)) :
    l.after (first ++ second) = (l.after first).after second :=
  List.foldl_append

theorem original_step (l : Lease α) (act : LeaseAct α) : (l.step act).original = l.original := by
  cases act with
  | edit value => rfl
  | update value =>
    rw [step]
    split
    · split <;> rfl
    · rfl

theorem original_after (l : Lease α) (acts : List (LeaseAct α)) :
    (l.after acts).original = l.original := by
  induction acts generalizing l with
  | nil => rfl
  | cons act acts ih => exact (ih (l.step act)).trans (original_step l act)

/-- The holder changes the value only to what it has last written. -/
theorem step_update (l : Lease α) (value : α) :
    ((l.step (.update value)).current = l.current ∧
        (l.step (.update value)).written = l.written) ∨
      (l.step (.update value)).current = (l.step (.update value)).written := by
  rw [step]
  split
  · split
    · exact .inr rfl
    · exact .inl ⟨rfl, rfl⟩
  · exact .inl ⟨rfl, rfl⟩

/-- The holder's value is in place, or one of the owner's is. -/
def Owned (given : α → Prop) (l : Lease α) : Prop :=
  (l.held = true ∧ l.current = l.written) ∨ given l.current

theorem Owned.step {given : α → Prop} (h : Owned given l) {act : LeaseAct α}
    (hact : ∀ value, act = .edit value → given value) : Owned given (l.step act) := by
  cases act with
  | edit value => exact .inr (hact value rfl)
  | update value =>
    rw [Lease.step]
    split
    · split
      · rename_i hheld _
        exact .inl ⟨hheld, rfl⟩
      · rename_i hother
        exact .inr (h.resolve_left fun hown => hother hown.2)
    · exact h

theorem Owned.after {given : α → Prop} (h : Owned given l)
    (hacts : ∀ value, .edit value ∈ acts → given value) : Owned given (l.after acts) := by
  induction acts generalizing l with
  | nil => exact h
  | cons act acts ih =>
    exact ih (h.step fun value hact => hacts value (hact ▸ List.mem_cons_self))
      fun value hvalue => hacts value (List.mem_cons_of_mem _ hvalue)

/-- **A lease ends in its original value or in one of the owner's.** -/
theorem restored_cases (original written : α) (acts : List (LeaseAct α)) :
    ((taken original written).after acts).restored = original ∨
      .edit ((taken original written).after acts).restored ∈ acts := by
  have howned : Owned (fun value => .edit value ∈ acts) ((taken original written).after acts) :=
    Owned.after (.inl ⟨rfl, rfl⟩) fun _ h => h
  rw [restored]
  split
  · exact .inl (original_after _ _)
  · rename_i hother
    exact .inr (howned.resolve_left hother)

/-- The owner's value is in place, and the holder does not take it for its own. -/
def Kept (value : α) (l : Lease α) : Prop :=
  l.current = value ∧ (l.held = true → l.written ≠ value)

theorem Kept.step {value : α} (h : Kept value l) {act : LeaseAct α}
    (hact : ∀ other, act ≠ .edit other) : Kept value (l.step act) := by
  cases act with
  | edit other => exact absurd rfl (hact other)
  | update other =>
    rw [Lease.step]
    split
    · rename_i hheld
      rw [if_neg fun hsame => h.2 hheld (hsame.symm.trans h.1)]
      exact ⟨h.1, fun hheld => by cases hheld⟩
    · exact h

theorem Kept.after {value : α} (h : Kept value l) (hacts : ∀ other, .edit other ∉ acts) :
    Kept value (l.after acts) := by
  induction acts generalizing l with
  | nil => exact h
  | cons act acts ih =>
    exact ih (h.step fun other hact => hacts other (hact ▸ List.mem_cons_self))
      fun other hother => hacts other (List.mem_cons_of_mem _ hother)

theorem Kept.restored {value : α} (h : Kept value l) : l.restored = value := by
  rw [Lease.restored, if_neg fun hown => h.2 hown.1 (hown.2.symm.trans h.1)]
  exact h.1

/-- **An owner's last value stays**, when the holder had written another one. -/
theorem restored_of_last_edit {value : α} (h : (l.after acts).written ≠ value)
    {rest : List (LeaseAct α)} (hrest : ∀ other, .edit other ∉ rest) :
    (l.after (acts ++ .edit value :: rest)).restored = value := by
  rw [after_append]
  refine Kept.restored (Kept.after (l := (l.after acts).step (.edit value)) ⟨rfl, fun _ => h⟩ hrest)

end Lease

end SolstoneTmux.Foundations
