import SolstoneTmux.Foundations.Maintain

/-!
# Programs under larger turns

A program that takes its turns out of larger ones (`relay`) can be a part of a program whose other
calls need more from their environment. What it meets under its own turns it meets under these
(`wp_relay`).

`ends K E P` is the postcondition that tells the three ends of a program apart; `endsIn` is the one
that treats errors as interruptions.
-/

namespace SolstoneTmux.Foundations.Prog

variable {σ τ τ' ε α β : Type}

/-- The program whose turns are parts of larger turns. -/
def relay (f : τ' → τ) : Prog σ τ ε α → Prog σ τ' ε α
  | done a => done a
  | raise e => raise e
  | killed => killed
  | act eff next => act (fun t => eff (f t)) fun t s => (next (f t) s).relay f

theorem wp_relay {f : τ' → τ} {A : τ → Prop} {B : τ' → Prop} (hf : ∀ t, B t → A (f t))
    {p : Prog σ τ ε α} {Q : Ended ε α → σ → Prop} {s : σ} (h : wp A p Q s) :
    wp B (p.relay f) Q s := by
  induction p generalizing s with
  | done a => exact h
  | raise e => exact h
  | killed => exact h
  | act eff next ih => exact fun t ht => ih (f t) s (h (f t) (hf t ht))

/-- The postcondition of a program that is killed in `K`, raises in `E` and returns in `P`. -/
def ends (K : σ → Prop) (E : ε → σ → Prop) (P : α → σ → Prop) : Ended ε α → σ → Prop
  | .done a, s => P a s
  | .raised e, s => E e s
  | .killed, s => K s

section Ends

variable {A : τ → Prop} {K : σ → Prop} {E : ε → σ → Prop} {P : α → σ → Prop} {R : β → σ → Prop}
  {s : σ}

theorem ends_bind {p : Prog σ τ ε α} {f : α → Prog σ τ ε β} (h : wp A p (ends K E P) s)
    (hf : ∀ a s', P a s' → wp A (f a) (ends K E R) s') : wp A (p.bind f) (ends K E R) s :=
  wp_seq h hf (fun _ _ h => h) fun _ h => h

theorem ends_mono {K' : σ → Prop} {E' : ε → σ → Prop} {P' : α → σ → Prop} {p : Prog σ τ ε α}
    (h : wp A p (ends K E P) s) (hK : ∀ s', K s' → K' s') (hE : ∀ e s', E e s' → E' e s')
    (hP : ∀ a s', P a s' → P' a s') : wp A p (ends K' E' P') s := by
  refine wp_mono h fun r s' hr => ?_
  cases r with
  | done a => exact hP a s' hr
  | raised e => exact hE e s' hr
  | killed => exact hK s' hr

/-- An invariant that a program maintains holds at each of its ends. -/
theorem Maintains.ends {I : σ → Prop} {p : Prog σ τ ε α} (hp : Maintains A I p) (h : I s) :
    wp A p (Prog.ends I (fun _ => I) fun _ => I) s := by
  refine wp_mono (hp s h) fun r s' hr => ?_
  cases r with
  | done a => exact hr
  | raised e => exact hr
  | killed => exact hr

/-- An invariant that a program maintains holds beside what is known of its ends. -/
theorem Maintains.and_ends {I : σ → Prop} {p : Prog σ τ ε α} (hp : Maintains A I p) (hs : I s)
    (h : wp A p (Prog.ends K E P) s) :
    wp A p (Prog.ends K (fun e s => E e s ∧ I s) fun a s => P a s ∧ I s) s := by
  refine wp_mono (wp_and h (hp s hs)) fun r s' hr => ?_
  cases r with
  | done a => exact hr
  | raised e => exact hr
  | killed => exact hr.1

/-- The errors of a program are returned. -/
theorem ends_attempt {ε' : Type} {E' : ε' → σ → Prop} {p : Prog σ τ ε α}
    (h : wp A p (ends K E P) s) :
    wp A (p.attempt : Prog σ τ ε' (Except ε α)) (ends K E' fun r s => match r with
      | .ok a => P a s
      | .error e => E e s) s := by
  rw [wp_attempt]
  refine wp_mono h fun r s' hr => ?_
  cases r with
  | done a => exact hr
  | raised e => exact hr
  | killed => exact hr

end Ends

end SolstoneTmux.Foundations.Prog
