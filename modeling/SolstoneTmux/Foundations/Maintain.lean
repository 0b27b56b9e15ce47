import SolstoneTmux.Foundations.Program

/-!
# Programs that maintain an invariant

`Maintains A I p` says that `p` leaves the state in `I` wherever its run ends. It is `endsIn` without
a statement about the answer, and its rules follow the constructors of a program, so that they need
no intermediate assertions. `RaisesIn A E p` says in the same way that `p` raises only errors in `E`.
-/

namespace SolstoneTmux.Foundations.Prog

/-- However a run of the program ends, the invariant holds then. -/
def Maintains {σ τ ε α : Type} (A : τ → Prop) (I : σ → Prop) (p : Prog σ τ ε α) : Prop :=
  ∀ s, I s → wp A p (endsIn I fun _ => I) s

namespace Maintains

section Control

variable {σ τ ε ε' α β : Type} {A : τ → Prop} {I : σ → Prop} {p : Prog σ τ ε α}

theorem done (a : α) : Maintains A I (.done a : Prog σ τ ε α) := fun _ h => h

theorem raise (e : ε) : Maintains A I (.raise e : Prog σ τ ε α) := fun _ h => h

theorem bind {f : α → Prog σ τ ε β} (hp : Maintains A I p) (hf : ∀ a, Maintains A I (f a)) :
    Maintains A I (p.bind f) :=
  fun s h => endsIn_bind (hp s h) fun a s' h' => hf a s' h'

theorem rethrow {f : ε → ε'} (hp : Maintains A I p) : Maintains A I (p.rethrow f) :=
  fun s h => endsIn_rethrow (hp s h)

theorem attempt (hp : Maintains A I p) :
    Maintains A I (p.attempt : Prog σ τ ε' (Except ε α)) := by
  intro s h
  refine endsIn_mono (endsIn_attempt (hp s h)) (fun _ h => h) fun r s' hr => ?_
  cases r with
  | ok a => exact hr
  | error e => exact hr

theorem orRaise {err : ε → ε'} (r : Except ε α) : Maintains A I (orRaise err r : Prog σ τ ε' α) := by
  cases r with
  | ok a => exact done a
  | error e => exact raise _

theorem forEach {f : β → Prog σ τ ε Unit} (bs : List β) (hf : ∀ b ∈ bs, Maintains A I (f b)) :
    Maintains A I (forEach bs f) :=
  fun _ h => endsIn_forEach h fun b hb s' h' => hf b hb s' h'

theorem ite {c : Prop} [Decidable c] {q : Prog σ τ ε α} (hp : Maintains A I p)
    (hq : Maintains A I q) : Maintains A I (if c then p else q) := by
  split
  · exact hp
  · exact hq

/-- The state after a run. -/
theorem run [Inhabited τ] (hp : Maintains A I p) (hA : A default) {ts : List τ}
    (hts : ∀ t ∈ ts, A t) {s : σ} (h : I s) : I (Prog.run ts p s).2 :=
  endsIn_run (hp s h) hA hts

end Control

section Calls

variable {σ ε α : Type} {A : Turn → Prop} {I : σ → Prop}

theorem sys {full : σ → Except IoKind α × σ} {part : ℕ → σ → σ} (hfull : ∀ s, I s → I (full s).2)
    (hpart : ∀ n s, I s → I (part n s)) : Maintains A I (sys full part : Prog σ Turn ε _) :=
  fun s h => (wp_sys full part _ s).mpr
    ⟨fun _ => hfull s h, fun n _ => hpart n s h, fun n _ => hpart n s h, fun _ => h⟩

theorem atomic {full : σ → Except IoKind α × σ} (hfull : ∀ s, I s → I (full s).2) :
    Maintains A I (atomic full : Prog σ Turn ε _) :=
  sys hfull fun _ _ h => h

theorem query (read : σ → Except IoKind α) : Maintains A I (query read : Prog σ Turn ε _) :=
  atomic fun _ h => h

theorem glance (read : σ → α) (unseen : α) : Maintains A I (glance read unseen : Prog σ Turn ε α) :=
  fun _ h => endsIn_glance h h fun _ => h

theorem barrier : Maintains A I (barrier : Prog σ Turn ε _) := query _

end Calls

end Maintains

/-- A program raises only errors of a kind. -/
def RaisesIn {σ τ ε α : Type} (A : τ → Prop) (E : ε → Prop) (p : Prog σ τ ε α) : Prop :=
  ∀ s, wp A p (fun r _ => ∀ e, r = .raised e → E e) s

namespace RaisesIn

section Control

variable {σ τ ε ε' α β : Type} {A : τ → Prop} {E : ε → Prop} {p : Prog σ τ ε α}

theorem done (a : α) : RaisesIn A E (.done a : Prog σ τ ε α) := fun _ _ h => by cases h

theorem raise {e : ε} (h : E e) : RaisesIn A E (.raise e : Prog σ τ ε α) := by
  rintro s e ⟨⟩
  exact h

theorem bind {f : α → Prog σ τ ε β} (hp : RaisesIn A E p) (hf : ∀ a, RaisesIn A E (f a)) :
    RaisesIn A E (p.bind f) := by
  refine fun s => wp_seq (hp s) (fun a s' _ => hf a s') ?_ ?_
  · rintro e s' he e' ⟨⟩
    exact he e rfl
  · rintro s' - e ⟨⟩

/-- An error that is converted is of the kind of the conversion. -/
theorem rethrow {q : Prog σ τ ε' α} {f : ε' → ε} (h : ∀ e, E (f e)) :
    RaisesIn A E (q.rethrow f) := by
  intro s
  rw [wp_rethrow]
  refine wp_of_forall (fun r s' e he => ?_) s
  cases r with
  | done a => cases he
  | raised e' =>
    cases he
    exact h e'
  | killed => cases he

theorem orRaise {err : ε' → ε} (h : ∀ e, E (err e)) (r : Except ε' α) :
    RaisesIn A E (Prog.orRaise err r : Prog σ τ ε α) := by
  cases r with
  | ok a => exact done a
  | error e => exact raise (h e)

theorem ite {c : Prop} [Decidable c] {q : Prog σ τ ε α} (hp : RaisesIn A E p)
    (hq : RaisesIn A E q) : RaisesIn A E (if c then p else q) := by
  split
  · exact hp
  · exact hq

end Control

section Calls

variable {σ ε α : Type} {A : Turn → Prop} {E : ε → Prop}

theorem atomic (full : σ → Except IoKind α × σ) :
    RaisesIn A E (atomic full : Prog σ Turn ε _) := by
  intro s
  exact wp_atomic (by rintro e ⟨⟩) (by rintro - e ⟨⟩) (by rintro - e ⟨⟩)

theorem query (read : σ → Except IoKind α) : RaisesIn A E (query read : Prog σ Turn ε _) :=
  atomic _

theorem barrier : RaisesIn A E (barrier : Prog σ Turn ε _) := query _

end Calls

end RaisesIn

end SolstoneTmux.Foundations.Prog
