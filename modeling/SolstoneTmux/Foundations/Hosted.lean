import SolstoneTmux.Foundations.Maintain

/-!
# Programs in a larger system

`hosted` runs a program on a part of a larger state, in the turns of that system: what others do
comes before each call, and a turn of the system is the turn of the call or the end of the process.

`Yields I R p` says that each call of `p` keeps `I`, whatever others did to the state before it, and
that `p` returns only answers in `R`; `wp_hosted` carries it over to the larger state.

Where the larger state has a log that only grows, `Secures A I log K R p` says that `p` keeps the
invariant `I` and the events `K`, and what its answer means for the log at that time. Its rule of
sequencing hands what is known of the first answer to the second program.
-/

namespace SolstoneTmux.Foundations.Prog

variable {σ τ ε ε' ρ ω α β : Type}

/-- A program on the part of a state that `get` reads and `set` replaces, after what others do. -/
def hosted (others : ω → ρ → ρ) (turn : ω → Option τ) (get : ρ → σ) (set : σ → ρ → ρ) :
    Prog σ τ ε α → Prog ρ ω ε α
  | done a => done a
  | raise e => raise e
  | killed => killed
  | act eff next =>
    act
      (fun o r => match turn o with
        | none => others o r
        | some t => set (eff t (get (others o r))) (others o r))
      fun o r => match turn o with
        | none => killed
        | some t => (next t (get (others o r))).hosted others turn get set

/-- Each call keeps an invariant, and the answers are of a kind. -/
def Yields (I : σ → Prop) (R : α → Prop) : Prog σ τ ε α → Prop
  | done a => R a
  | raise _ => True
  | killed => True
  | act eff next => ∀ t s, I s → I (eff t s) ∧ (next t s).Yields I R

namespace Yields

variable {I : σ → Prop} {R R' : α → Prop} {S : β → Prop} {p : Prog σ τ ε α}

theorem mono (hp : Yields I R p) (hR : ∀ a, R a → R' a) : Yields I R' p := by
  induction p with
  | done a => exact hR a hp
  | raise e => trivial
  | killed => trivial
  | act eff next ih => exact fun t s hs => ⟨(hp t s hs).1, ih t s (hp t s hs).2⟩

theorem bind {f : α → Prog σ τ ε β} (hp : Yields I R p) (hf : ∀ a, R a → Yields I S (f a)) :
    Yields I S (p.bind f) := by
  induction p with
  | done a => exact hf a hp
  | raise e => trivial
  | killed => trivial
  | act eff next ih => exact fun t s hs => ⟨(hp t s hs).1, ih t s (hp t s hs).2⟩

theorem attempt {R : Except ε α → Prop} (hp : Yields I (fun a => R (.ok a)) p)
    (herror : ∀ e, R (.error e)) :
    Yields I R (p.attempt : Prog σ τ ε' (Except ε α)) := by
  induction p with
  | done a => exact hp
  | raise e => exact herror e
  | killed => trivial
  | act eff next ih => exact fun t s hs => ⟨(hp t s hs).1, ih t s (hp t s hs).2⟩

theorem orRaise {err : ε → ε'} {r : Except ε α} (h : ∀ a, r = .ok a → R a) :
    Yields I R (orRaise err r : Prog σ τ ε' α) := by
  cases r with
  | ok a => exact h a rfl
  | error e => trivial

theorem shared {others : τ → σ → σ} {f : τ → σ → α × σ} (hothers : ∀ t s, I s → I (others t s))
    (hf : ∀ t s, I s → R (f t s).1 ∧ I (f t s).2) : Yields I R (shared others f : Prog σ τ ε α) :=
  fun t s hs => ⟨(hf t _ (hothers t s hs)).2, (hf t _ (hothers t s hs)).1⟩

theorem atomic {I : σ → Prop} {R : Except IoKind α → Prop} {full : σ → Except IoKind α × σ}
    (hfull : ∀ s, I s → R (full s).1 ∧ I (full s).2) (hfail : R (.error .other)) :
    Yields I R (atomic full : Prog σ Turn ε _) := by
  intro t s hs
  cases t with
  | ok => exact ⟨(hfull s hs).2, (hfull s hs).1⟩
  | fail n => exact ⟨hs, hfail⟩
  | kill n => exact ⟨hs, trivial⟩
  | blind => exact ⟨hs, hfail⟩

theorem query {I : σ → Prop} {R : Except IoKind α → Prop} {read : σ → Except IoKind α}
    (hread : ∀ s, I s → R (read s)) (hfail : R (.error .other)) :
    Yields I R (query read : Prog σ Turn ε _) :=
  atomic (fun s hs => ⟨hread s hs, hs⟩) hfail

end Yields

/-- What each call keeps is kept in the larger state. -/
theorem wp_hosted {A : ω → Prop} {I : σ → Prop} {R : α → Prop} {J : ρ → Prop}
    {others : ω → ρ → ρ} {turn : ω → Option τ} {get : ρ → σ} {set : σ → ρ → ρ}
    {p : Prog σ τ ε α} {r : ρ} (hp : Yields I R p) (hothers : ∀ o r, J r → J (others o r))
    (hget : ∀ r, J r → I (get r)) (hset : ∀ s r, I s → J r → J (set s r)) (h : J r) :
    wp A (p.hosted others turn get set) (endsIn J fun a r => J r ∧ R a) r := by
  induction p generalizing r with
  | done a => exact ⟨h, hp⟩
  | raise e => exact h
  | killed => exact h
  | act eff next ih =>
    rw [hosted]
    intro o _
    have hr := hothers o r h
    cases hturn : turn o with
    | none =>
      simp only [hturn]
      exact hr
    | some t =>
      simp only [hturn]
      obtain ⟨hs, hnext⟩ := hp t _ (hget _ hr)
      exact ih t _ hnext (hset _ _ hs hr)

/-! ## A log that only grows -/

section Log

variable {Ev : Type}

/-- The invariant and the events of the log are kept, and the answer is one that the log of that time
allows. -/
def Secures (A : τ → Prop) (I : σ → Prop) (log : σ → List Ev) (K : List Ev)
    (R : List Ev → α → Prop) (p : Prog σ τ ε α) : Prop :=
  ∀ s, I s → K ⊆ log s →
    wp A p (endsIn (fun s => I s ∧ K ⊆ log s) fun a s => (I s ∧ K ⊆ log s) ∧ R (log s) a) s

namespace Secures

variable {A : τ → Prop} {I : σ → Prop} {log : σ → List Ev} {K : List Ev}
  {R R' : List Ev → α → Prop} {S : List Ev → β → Prop} {p : Prog σ τ ε α}

theorem done {a : α} (h : ∀ L, K ⊆ L → R L a) : Secures A I log K R (.done a : Prog σ τ ε α) :=
  fun _ hs hK => ⟨⟨hs, hK⟩, h _ hK⟩

theorem mono (hp : Secures A I log K R p) (hR : ∀ L a, K ⊆ L → R L a → R' L a) :
    Secures A I log K R' p :=
  fun s hs hK => endsIn_mono (hp s hs hK) (fun _ h => h) fun a _ h => ⟨h.1, hR _ a h.1.2 h.2⟩

theorem bind {f : α → Prog σ τ ε β} (hp : Secures A I log K R p)
    (hf : ∀ a L, K ⊆ L → R L a → Secures A I log L S (f a)) : Secures A I log K S (p.bind f) := by
  intro s hs hK
  refine endsIn_bind (hp s hs hK) fun a s' h => ?_
  have hnext := hf a (log s') h.1.2 h.2 s' h.1.1 (List.Subset.refl _)
  exact endsIn_mono hnext (fun _ h' => ⟨h'.1, List.Subset.trans h.1.2 h'.2⟩)
    fun _ _ h' => ⟨⟨h'.1.1, List.Subset.trans h.1.2 h'.1.2⟩, h'.2⟩

theorem ite {c : Prop} [Decidable c] {q : Prog σ τ ε α} (hp : c → Secures A I log K R p)
    (hq : ¬ c → Secures A I log K R q) : Secures A I log K R (if c then p else q) := by
  split
  · exact hp ‹c›
  · exact hq ‹¬ c›

theorem forEach {f : β → Prog σ τ ε Unit} {bs : List β}
    (hf : ∀ b ∈ bs, ∀ L, K ⊆ L → Secures A I log L (fun _ _ => True) (f b)) :
    Secures A I log K (fun _ _ => True) (forEach bs f) := by
  induction bs generalizing K with
  | nil => exact done fun _ _ => trivial
  | cons b bs ih =>
    refine (hf b List.mem_cons_self K (List.Subset.refl _)).bind fun _ L hL _ => ?_
    exact ih fun b' hb' L' hL' => hf b' (List.mem_cons_of_mem _ hb') L' (List.Subset.trans hL hL')

/-- A whole run keeps the invariant. -/
theorem run [Inhabited τ] (hp : Secures A I log K R p) (hA : A default) {ts : List τ}
    (hts : ∀ t ∈ ts, A t) {s : σ} (hs : I s) (hK : K ⊆ log s) : I (Prog.run ts p s).2 := by
  have hend := wp_run (hp s hs hK) hA hts
  revert hend
  cases (Prog.run ts p s).1 with
  | done a => exact fun h => h.1.1
  | raised e => exact fun h => h.1
  | killed => exact fun h => h.1

end Secures

end Log

end SolstoneTmux.Foundations.Prog
