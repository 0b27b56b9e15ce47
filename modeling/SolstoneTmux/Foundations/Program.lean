import Mathlib.Logic.Basic
import Mathlib.Data.List.Basic

/-!
# Programs whose calls can fail and which can be killed

A program over a state `σ` is a tree of calls. Each call takes a *turn* chosen by the environment,
changes the state and continues; a program ends by returning, by raising an error, or by being
killed. `run ts p s` runs `p` from `s` with the turns `ts`, and with the default turn once these are
used up, so that `run [] p` is the uninterrupted run and `∀ ts, … run ts p s …` speaks about every
failure and every kill.

* `wp A p Q s` says that `Q` holds however `p` ends when it starts in `s` and the environment
  chooses its turns in `A`; `wp_iff` connects it with the runs, `wp_bind` and `wp_mono` are the
  rules of composition, and `wp_and` collects two postconditions.
* `sys` is a call with an effect that may stop halfway, `query` one that only reads, `glance` a look
  whose failure goes unnoticed, and `barrier` a call that neither reads nor writes the modelled
  state; each has its `wp` rule.
* `forEach` runs a program for every element of a list; `wp_forEach` is its invariant rule.
* `endsIn I P` is the postcondition of a program that can stop anywhere in `I` and returns in `P`;
  its rules carry an invariant through a program without naming the runs that end early.
* `zoom` runs a program on a part of a larger state.
* `shared` is a call on a state on which others act before it; `wp_shared` takes a postcondition
  that their actions keep. `among` lets others act before each call of a program on a part of a
  state, and a `Steady` invariant is one that they keep.
-/

namespace SolstoneTmux.Foundations

/-- How a program ends. -/
inductive Ended (ε α : Type)
  | done (a : α)
  | raised (e : ε)
  | killed
  deriving DecidableEq

/-- A program that returns `α` or raises `ε`. `act` is one call: its effect on the state and its
continuation are both read off the state before it. -/
inductive Prog (σ τ ε α : Type)
  | done (a : α)
  | raise (e : ε)
  | killed
  | act (eff : τ → σ → σ) (next : τ → σ → Prog σ τ ε α)

namespace Prog

variable {σ τ ε ε' α β : Type}

/-- Sequencing. -/
def bind : Prog σ τ ε α → (α → Prog σ τ ε β) → Prog σ τ ε β
  | done a, f => f a
  | raise e, _ => raise e
  | killed, _ => killed
  | act eff next, f => act eff fun t s => (next t s).bind f

instance : Monad (Prog σ τ ε) where
  pure := done
  bind := bind

@[simp] theorem pure_eq (a : α) : (pure a : Prog σ τ ε α) = done a := rfl

@[simp] theorem bind_eq (p : Prog σ τ ε α) (f : α → Prog σ τ ε β) : (p >>= f) = p.bind f := rfl

/-- Run `p` and return its error instead of raising it. -/
def attempt : Prog σ τ ε α → Prog σ τ ε' (Except ε α)
  | done a => done (.ok a)
  | raise e => done (.error e)
  | killed => killed
  | act eff next => act eff fun t s => (next t s).attempt

/-- Raise a different error where `p` raises one. -/
def rethrow (f : ε → ε') : Prog σ τ ε α → Prog σ τ ε' α
  | done a => done a
  | raise e => raise (f e)
  | killed => killed
  | act eff next => act eff fun t s => (next t s).rethrow f

/-- Raise the error that a call returned. -/
def orRaise (err : ε → ε') : Except ε α → Prog σ τ ε' α
  | .ok a => done a
  | .error e => raise (err e)

@[simp] theorem orRaise_ok (err : ε → ε') (a : α) :
    (orRaise err (.ok a) : Prog σ τ ε' α) = done a := rfl

@[simp] theorem orRaise_error (err : ε → ε') (e : ε) :
    (orRaise err (.error e) : Prog σ τ ε' α) = raise (err e) := rfl

/-- Run a program for every element in order. -/
def forEach : List β → (β → Prog σ τ ε Unit) → Prog σ τ ε Unit
  | [], _ => done ()
  | b :: bs, f => (f b).bind fun _ => forEach bs f

/-! ## Runs -/

/-- The end of a program whose errors are replaced. -/
def mapRaised (f : ε → ε') : Ended ε α → Ended ε' α
  | .done a => .done a
  | .raised e => .raised (f e)
  | .killed => .killed

/-- The run of a program under the turns `ts`, followed by default turns. -/
def run [Inhabited τ] (ts : List τ) : Prog σ τ ε α → σ → Ended ε α × σ
  | done a, s => (.done a, s)
  | raise e, s => (.raised e, s)
  | killed, s => (.killed, s)
  | act eff next, s => run ts.tail (next (ts.headD default) s) (eff (ts.headD default) s)

/-- `Q` holds of the end of every run of `p` from `s` whose turns are all in `A`. -/
def wp (A : τ → Prop) : Prog σ τ ε α → (Ended ε α → σ → Prop) → σ → Prop
  | done a, Q, s => Q (.done a) s
  | raise e, Q, s => Q (.raised e) s
  | killed, Q, s => Q .killed s
  | act eff next, Q, s => ∀ t, A t → wp A (next t s) Q (eff t s)

/-- What is left of a postcondition after the first program of a sequence. -/
def andThen (A : τ → Prop) (f : α → Prog σ τ ε β) (Q : Ended ε β → σ → Prop) :
    Ended ε α → σ → Prop
  | .done a, s => wp A (f a) Q s
  | .raised e, s => Q (.raised e) s
  | .killed, s => Q .killed s

/-- What is left of a postcondition when errors are returned. -/
def attempted (Q : Ended ε' (Except ε α) → σ → Prop) : Ended ε α → σ → Prop
  | .done a, s => Q (.done (.ok a)) s
  | .raised e, s => Q (.done (.error e)) s
  | .killed, s => Q .killed s

section Rules

variable {A : τ → Prop}

@[simp] theorem andThen_done (f : α → Prog σ τ ε β) (Q : Ended ε β → σ → Prop) (a : α) (s : σ) :
    andThen A f Q (.done a) s = wp A (f a) Q s := rfl

@[simp] theorem andThen_raised (f : α → Prog σ τ ε β) (Q : Ended ε β → σ → Prop) (e : ε) (s : σ) :
    andThen A f Q (.raised e) s = Q (.raised e) s := rfl

@[simp] theorem andThen_killed (f : α → Prog σ τ ε β) (Q : Ended ε β → σ → Prop) (s : σ) :
    andThen A f Q .killed s = Q .killed s := rfl

@[simp] theorem attempted_done (Q : Ended ε' (Except ε α) → σ → Prop) (a : α) (s : σ) :
    attempted Q (.done a) s = Q (.done (.ok a)) s := rfl

@[simp] theorem attempted_raised (Q : Ended ε' (Except ε α) → σ → Prop) (e : ε) (s : σ) :
    attempted Q (.raised e) s = Q (.done (.error e)) s := rfl

@[simp] theorem attempted_killed (Q : Ended ε' (Except ε α) → σ → Prop) (s : σ) :
    attempted Q .killed s = Q .killed s := rfl

@[simp] theorem wp_done (a : α) (Q : Ended ε α → σ → Prop) (s : σ) :
    wp A (done a : Prog σ τ ε α) Q s ↔ Q (.done a) s := Iff.rfl

@[simp] theorem wp_raise (e : ε) (Q : Ended ε α → σ → Prop) (s : σ) :
    wp A (raise e : Prog σ τ ε α) Q s ↔ Q (.raised e) s := Iff.rfl

@[simp] theorem wp_killed (Q : Ended ε α → σ → Prop) (s : σ) :
    wp A (killed : Prog σ τ ε α) Q s ↔ Q .killed s := Iff.rfl

@[simp] theorem wp_bind (p : Prog σ τ ε α) (f : α → Prog σ τ ε β) (Q : Ended ε β → σ → Prop)
    (s : σ) : wp A (p.bind f) Q s ↔ wp A p (andThen A f Q) s := by
  induction p generalizing s with
  | done a => rfl
  | raise e => rfl
  | killed => rfl
  | act eff next ih => exact forall_congr' fun t => imp_congr_right fun _ => ih t s (eff t s)

@[simp] theorem wp_attempt (p : Prog σ τ ε α) (Q : Ended ε' (Except ε α) → σ → Prop) (s : σ) :
    wp A (p.attempt : Prog σ τ ε' (Except ε α)) Q s ↔ wp A p (attempted Q) s := by
  induction p generalizing s with
  | done a => rfl
  | raise e => rfl
  | killed => rfl
  | act eff next ih => exact forall_congr' fun t => imp_congr_right fun _ => ih t s (eff t s)

@[simp] theorem wp_rethrow (f : ε → ε') (p : Prog σ τ ε α) (Q : Ended ε' α → σ → Prop) (s : σ) :
    wp A (p.rethrow f) Q s ↔ wp A p (fun r s => Q (mapRaised f r) s) s := by
  induction p generalizing s with
  | done a => rfl
  | raise e => rfl
  | killed => rfl
  | act eff next ih => exact forall_congr' fun t => imp_congr_right fun _ => ih t s (eff t s)

theorem wp_mono {p : Prog σ τ ε α} {Q Q' : Ended ε α → σ → Prop} {s : σ} (h : wp A p Q s)
    (hQ : ∀ r s', Q r s' → Q' r s') : wp A p Q' s := by
  induction p generalizing s with
  | done a => exact hQ _ _ h
  | raise e => exact hQ _ _ h
  | killed => exact hQ _ _ h
  | act eff next ih => exact fun t ht => ih t s (h t ht)

theorem wp_and {p : Prog σ τ ε α} {Q Q' : Ended ε α → σ → Prop} {s : σ} (h : wp A p Q s)
    (h' : wp A p Q' s) : wp A p (fun r s' => Q r s' ∧ Q' r s') s := by
  induction p generalizing s with
  | done a => exact ⟨h, h'⟩
  | raise e => exact ⟨h, h'⟩
  | killed => exact ⟨h, h'⟩
  | act eff next ih => exact fun t ht => ih t s (h t ht) (h' t ht)

/-- A postcondition that always holds is met by every program. -/
theorem wp_of_forall {p : Prog σ τ ε α} {Q : Ended ε α → σ → Prop} (hQ : ∀ r s, Q r s) (s : σ) :
    wp A p Q s := by
  induction p generalizing s with
  | done a => exact hQ _ _
  | raise e => exact hQ _ _
  | killed => exact hQ _ _
  | act eff next ih => exact fun t _ => ih t s _

/-- The rule of sequencing: the first program's postcondition is a precondition of the second. -/
theorem wp_seq {p : Prog σ τ ε α} {f : α → Prog σ τ ε β} {R : Ended ε α → σ → Prop}
    {Q : Ended ε β → σ → Prop} {s : σ} (h : wp A p R s)
    (hdone : ∀ a s', R (.done a) s' → wp A (f a) Q s')
    (hraised : ∀ e s', R (.raised e) s' → Q (.raised e) s')
    (hkilled : ∀ s', R .killed s' → Q .killed s') : wp A (p.bind f) Q s := by
  rw [wp_bind]
  refine wp_mono h fun r s' hr => ?_
  cases r with
  | done a => exact hdone a s' hr
  | raised e => exact hraised e s' hr
  | killed => exact hkilled s' hr

/-- A first program about which nothing needs to be known. -/
theorem wp_then {p : Prog σ τ ε α} {f : α → Prog σ τ ε β} {Q : Ended ε β → σ → Prop}
    (hdone : ∀ a s, wp A (f a) Q s) (hraised : ∀ e s, Q (.raised e) s) (hkilled : ∀ s, Q .killed s)
    (s : σ) : wp A (p.bind f) Q s :=
  wp_seq (wp_of_forall (fun _ _ => trivial) s) (fun a s _ => hdone a s) (fun e s _ => hraised e s)
    fun s _ => hkilled s

theorem wp_run [Inhabited τ] {p : Prog σ τ ε α} {Q : Ended ε α → σ → Prop} {s : σ}
    (h : wp A p Q s) (hA : A default) {ts : List τ} (hts : ∀ t ∈ ts, A t) :
    Q (run ts p s).1 (run ts p s).2 := by
  induction p generalizing s ts with
  | done a => exact h
  | raise e => exact h
  | killed => exact h
  | act eff next ih =>
    have hhead : A (ts.headD default) := by
      cases ts with
      | nil => exact hA
      | cons t ts => exact hts t List.mem_cons_self
    exact ih _ s (h _ hhead) fun t ht => hts t (List.mem_of_mem_tail ht)

/-- What a run ended in meets the postcondition. -/
theorem wp_run_eq [Inhabited τ] {p : Prog σ τ ε α} {Q : Ended ε α → σ → Prop} {s s' : σ}
    {ts : List τ} {r : Ended ε α} (hrun : run ts p s = (r, s')) (h : wp A p Q s) (hA : A default)
    (hts : ∀ t ∈ ts, A t) : Q r s' := by
  have := wp_run h hA hts
  rwa [hrun] at this

theorem wp_of_run [Inhabited τ] {p : Prog σ τ ε α} {Q : Ended ε α → σ → Prop} {s : σ}
    (h : ∀ ts : List τ, (∀ t ∈ ts, A t) → Q (run ts p s).1 (run ts p s).2) : wp A p Q s := by
  induction p generalizing s with
  | done a => exact h [] (by simp)
  | raise e => exact h [] (by simp)
  | killed => exact h [] (by simp)
  | act eff next ih =>
    intro t ht
    refine ih t s fun ts hts => h (t :: ts) ?_
    simpa [ht] using hts

/-- The weakest precondition speaks about exactly the runs. -/
theorem wp_iff [Inhabited τ] {p : Prog σ τ ε α} {Q : Ended ε α → σ → Prop} {s : σ}
    (hA : A default) :
    wp A p Q s ↔
      ∀ ts : List τ, (∀ t ∈ ts, A t) → Q (run ts p s).1 (run ts p s).2 :=
  ⟨fun h _ hts => wp_run h hA hts, wp_of_run⟩

end Rules

/-! ## Interrupted runs -/

/-- The postcondition that allows a program to stop anywhere in `I` and to return in `P`. -/
def endsIn (I : σ → Prop) (P : α → σ → Prop) : Ended ε α → σ → Prop
  | .done a, s => P a s
  | .raised _, s => I s
  | .killed, s => I s

section EndsIn

variable {A : τ → Prop} {I : σ → Prop} {P : α → σ → Prop} {R : β → σ → Prop} {s : σ}

@[simp] theorem endsIn_done (I : σ → Prop) (P : α → σ → Prop) (a : α) (s : σ) :
    (endsIn I P (.done a : Ended ε α) s) = P a s := rfl

@[simp] theorem endsIn_raised (I : σ → Prop) (P : α → σ → Prop) (e : ε) (s : σ) :
    (endsIn I P (.raised e : Ended ε α) s) = I s := rfl

@[simp] theorem endsIn_killed (I : σ → Prop) (P : α → σ → Prop) (s : σ) :
    (endsIn I P (.killed : Ended ε α) s) = I s := rfl

theorem endsIn_bind {p : Prog σ τ ε α} {f : α → Prog σ τ ε β} (h : wp A p (endsIn I P) s)
    (hf : ∀ a s', P a s' → wp A (f a) (endsIn I R) s') : wp A (p.bind f) (endsIn I R) s :=
  wp_seq h hf (fun _ _ h => h) fun _ h => h

theorem endsIn_mono {J : σ → Prop} {P' : α → σ → Prop} {p : Prog σ τ ε α}
    (h : wp A p (endsIn I P) s) (hI : ∀ s', I s' → J s') (hP : ∀ a s', P a s' → P' a s') :
    wp A p (endsIn J P') s := by
  refine wp_mono h fun r s' hr => ?_
  cases r with
  | done a => exact hP a s' hr
  | raised e => exact hI s' hr
  | killed => exact hI s' hr

theorem endsIn_rethrow {f : ε → ε'} {p : Prog σ τ ε α} (h : wp A p (endsIn I P) s) :
    wp A (p.rethrow f) (endsIn I P) s := by
  rw [wp_rethrow]
  refine wp_mono h fun r s' hr => ?_
  cases r with
  | done a => exact hr
  | raised e => exact hr
  | killed => exact hr

theorem endsIn_attempt {p : Prog σ τ ε α} (h : wp A p (endsIn I P) s) :
    wp A (p.attempt : Prog σ τ ε' (Except ε α)) (endsIn I fun r s => match r with
      | .ok a => P a s
      | .error _ => I s) s := by
  rw [wp_attempt]
  refine wp_mono h fun r s' hr => ?_
  cases r with
  | done a => exact hr
  | raised e => exact hr
  | killed => exact hr

/-- A loop whose rounds all keep an invariant keeps it. -/
theorem endsIn_forEach {f : β → Prog σ τ ε Unit} {bs : List β} (h : I s)
    (hf : ∀ b ∈ bs, ∀ s', I s' → wp A (f b) (endsIn I fun _ => I) s') :
    wp A (forEach bs f) (endsIn I fun _ => I) s := by
  induction bs generalizing s with
  | nil => exact h
  | cons b bs ih =>
    refine endsIn_bind (hf b List.mem_cons_self s h) fun _ s' h' => ?_
    exact ih h' fun b' hb' => hf b' (List.mem_cons_of_mem _ hb')

/-- Keeping an invariant, however a run ends. -/
theorem endsIn_run [Inhabited τ] {p : Prog σ τ ε α} (h : wp A p (endsIn I fun _ => I) s)
    (hA : A default) {ts : List τ} (hts : ∀ t ∈ ts, A t) : I (run ts p s).2 := by
  have hend := wp_run h hA hts
  revert hend
  cases (run ts p s).1 <;> exact id

end EndsIn

/-! ## The uninterrupted run -/

variable [Inhabited τ]

@[simp] theorem run_done (ts : List τ) (a : α) (s : σ) :
    run ts (done a : Prog σ τ ε α) s = (.done a, s) := rfl

@[simp] theorem run_raise (ts : List τ) (e : ε) (s : σ) :
    run ts (raise e : Prog σ τ ε α) s = (.raised e, s) := rfl

@[simp] theorem run_killed (ts : List τ) (s : σ) :
    run ts (killed : Prog σ τ ε α) s = (.killed, s) := rfl

/-- The end of a program whose result is replaced. -/
def mapDone (g : α → β) : Ended ε α → Ended ε β
  | .done a => .done (g a)
  | .raised e => .raised e
  | .killed => .killed

/-- A run of a program that only computes with the result of another. -/
theorem run_bind_done (ts : List τ) (p : Prog σ τ ε α) (g : α → β) (s : σ) :
    run ts (p.bind fun a => done (g a)) s = (mapDone g (run ts p s).1, (run ts p s).2) := by
  induction p generalizing s ts with
  | done a => rfl
  | raise e => rfl
  | killed => rfl
  | act eff next ih => exact ih _ s _ _

/-- The continuation of an uninterrupted run. -/
def quietThen (f : α → Prog σ τ ε β) : Ended ε α × σ → Ended ε β × σ
  | (.done a, s) => run [] (f a) s
  | (.raised e, s) => (.raised e, s)
  | (.killed, s) => (.killed, s)

@[simp] theorem quietThen_done (f : α → Prog σ τ ε β) (a : α) (s : σ) :
    quietThen f (.done a, s) = run [] (f a) s := rfl

@[simp] theorem quietThen_raised (f : α → Prog σ τ ε β) (e : ε) (s : σ) :
    quietThen f (.raised e, s) = (.raised e, s) := rfl

@[simp] theorem quietThen_killed (f : α → Prog σ τ ε β) (s : σ) :
    quietThen f (.killed, s) = (.killed, s) := rfl

/-- Default turns that are given make no difference. -/
theorem run_replicate_default (n : ℕ) (p : Prog σ τ ε α) (s : σ) :
    run (List.replicate n default) p s = run [] p s := by
  induction p generalizing s n with
  | done a => rfl
  | raise e => rfl
  | killed => rfl
  | act eff next ih =>
    cases n with
    | zero => rfl
    | succ n => exact ih default s n (eff default s)

@[simp] theorem run_bind (p : Prog σ τ ε α) (f : α → Prog σ τ ε β) (s : σ) :
    run [] (p.bind f) s = quietThen f (run [] p s) := by
  induction p generalizing s with
  | done a => rfl
  | raise e => rfl
  | killed => rfl
  | act eff next ih => exact ih default s (eff default s)

/-- The end of a program whose errors are returned. -/
def returned : Ended ε α → Ended ε' (Except ε α)
  | .done a => .done (.ok a)
  | .raised e => .done (.error e)
  | .killed => .killed

@[simp] theorem run_attempt (p : Prog σ τ ε α) (s : σ) :
    run [] (p.attempt : Prog σ τ ε' (Except ε α)) s =
      (returned (run [] p s).1, (run [] p s).2) := by
  induction p generalizing s with
  | done a => rfl
  | raise e => rfl
  | killed => rfl
  | act eff next ih => exact ih default s (eff default s)

@[simp] theorem run_rethrow (f : ε → ε') (p : Prog σ τ ε α) (s : σ) :
    run [] (p.rethrow f) s = (mapRaised f (run [] p s).1, (run [] p s).2) := by
  induction p generalizing s with
  | done a => rfl
  | raise e => rfl
  | killed => rfl
  | act eff next ih => exact ih default s (eff default s)

end Prog

/-! ## Calls to an operating system -/

/-- What the environment does at a call: it works, it fails, or the process is killed in it.
A call that writes several bytes has then completed the given number of them. `blind` is a failure
that also reaches the looks at the system whose failure the program does not notice. -/
inductive Turn
  | ok
  | fail (progress : ℕ)
  | kill (progress : ℕ)
  | blind
  deriving DecidableEq, Inhabited

/-- Every turn is possible. -/
def anyTurn : Turn → Prop := fun _ => True

/-- Calls work until the process is killed. -/
def noFailure : Turn → Prop
  | .ok | .kill _ => True
  | _ => False

/-- Every failure is one that the program notices. -/
def noticed : Turn → Prop := fun t => t ≠ .blind

/-- Every call works. -/
def allWork : Turn → Prop := fun t => t = .ok

/-- Some call may fail under these turns. -/
def canFail (A : Turn → Prop) : Prop := (∃ n, A (.fail n)) ∨ A .blind

/-- Some call may be the last one under these turns. -/
def canKill (A : Turn → Prop) : Prop := ∃ n, A (.kill n)

theorem not_canFail_noFailure : ¬ canFail noFailure := by
  rintro (⟨n, h⟩ | h) <;> exact h

theorem not_canFail_allWork : ¬ canFail allWork := by
  rintro (⟨n, h⟩ | h) <;> cases h

theorem not_canKill_allWork : ¬ canKill allWork := by
  rintro ⟨n, h⟩
  cases h

theorem not_blind_noticed : ¬ noticed .blind := fun h => h rfl

theorem noticed_default : noticed default := by
  rintro ⟨⟩

/-- The kinds of error a program distinguishes. -/
inductive IoKind
  | notFound
  | other
  deriving DecidableEq

namespace Prog

variable {σ ε α : Type}

/-- A call. `full` is its result and effect when it works, `part` its effect when it stops after
the given progress; a call that does not work fails with `other`. -/
def sys (full : σ → Except IoKind α × σ) (part : ℕ → σ → σ) :
    Prog σ Turn ε (Except IoKind α) :=
  .act
    (fun t s => match t with
      | .ok => (full s).2
      | .fail n => part n s
      | .kill n => part n s
      | .blind => s)
    (fun t s => match t with
      | .ok => .done (full s).1
      | .fail _ | .blind => .done (.error .other)
      | .kill _ => .killed)

/-- A call whose effect happens entirely or not at all. -/
def atomic (full : σ → Except IoKind α × σ) : Prog σ Turn ε (Except IoKind α) :=
  sys full fun _ s => s

/-- A call that only reads. -/
def query (read : σ → Except IoKind α) : Prog σ Turn ε (Except IoKind α) :=
  atomic fun s => (read s, s)

/-- A look at the state whose failure is not noticed: the program goes on with `unseen`. -/
def glance (read : σ → α) (unseen : α) : Prog σ Turn ε α :=
  .act (fun _ s => s) fun t s => match t with
    | .ok | .fail _ => .done (read s)
    | .blind => .done unseen
    | .kill _ => .killed

/-- A call without effect on the modelled state, such as a flush to the disk. -/
def barrier : Prog σ Turn ε (Except IoKind Unit) := query fun _ => .ok ()

variable {A : Turn → Prop}

theorem wp_sys (full : σ → Except IoKind α × σ) (part : ℕ → σ → σ)
    (Q : Ended ε (Except IoKind α) → σ → Prop) (s : σ) :
    wp A (sys full part) Q s ↔
      (A .ok → Q (.done (full s).1) (full s).2) ∧
        (∀ n, A (.fail n) → Q (.done (.error .other)) (part n s)) ∧
          (∀ n, A (.kill n) → Q .killed (part n s)) ∧
            (A .blind → Q (.done (.error .other)) s) := by
  constructor
  · intro h
    exact ⟨h .ok, fun n => h (.fail n), fun n => h (.kill n), h .blind⟩
  · rintro ⟨hok, hfail, hkill, hblind⟩ t
    cases t with
    | ok => exact hok
    | fail n => exact hfail n
    | kill n => exact hkill n
    | blind => exact hblind

/-- The rule of an atomic call: it happens, it fails, or the process ends before it. -/
theorem wp_atomic {full : σ → Except IoKind α × σ} {Q : Ended ε (Except IoKind α) → σ → Prop}
    {s : σ} (hok : Q (.done (full s).1) (full s).2)
    (hfail : canFail A → Q (.done (.error .other)) s) (hkill : canKill A → Q .killed s) :
    wp A (atomic full) Q s := by
  rw [atomic, wp_sys]
  exact ⟨fun _ => hok, fun n hn => hfail (.inl ⟨n, hn⟩), fun n hn => hkill ⟨n, hn⟩,
    fun hb => hfail (.inr hb)⟩

theorem wp_query {read : σ → Except IoKind α} {Q : Ended ε (Except IoKind α) → σ → Prop} {s : σ}
    (hok : Q (.done (read s)) s) (hfail : canFail A → Q (.done (.error .other)) s)
    (hkill : canKill A → Q .killed s) : wp A (query read) Q s :=
  wp_atomic hok hfail hkill

theorem wp_glance {read : σ → α} {unseen : α} {Q : Ended ε α → σ → Prop} {s : σ}
    (hok : Q (.done (read s)) s) (hblind : A .blind → Q (.done unseen) s)
    (hkill : canKill A → Q .killed s) : wp A (glance read unseen) Q s := by
  intro t ht
  cases t with
  | ok => exact hok
  | fail n => exact hok
  | kill n => exact hkill ⟨n, ht⟩
  | blind => exact hblind ht

section Stops

variable {I : σ → Prop} {P : Except IoKind α → σ → Prop} {s : σ}

/-- A call that may be stopped before its effect. -/
theorem endsIn_atomic {full : σ → Except IoKind α × σ} (hstop : I s)
    (hok : P (full s).1 (full s).2) (hfail : canFail A → P (.error .other) s) :
    wp A (atomic full : Prog σ Turn ε _) (endsIn I P) s :=
  wp_atomic hok hfail fun _ => hstop

theorem endsIn_query {read : σ → Except IoKind α} (hstop : I s) (hok : P (read s) s)
    (hfail : canFail A → P (.error .other) s) :
    wp A (query read : Prog σ Turn ε _) (endsIn I P) s :=
  endsIn_atomic hstop hok hfail

theorem endsIn_glance {read : σ → α} {unseen : α} {P : α → σ → Prop} (hstop : I s)
    (hok : P (read s) s) (hblind : A .blind → P unseen s) :
    wp A (glance read unseen : Prog σ Turn ε α) (endsIn I P) s :=
  wp_glance hok hblind fun _ => hstop

end Stops

@[simp] theorem run_glance (read : σ → α) (unseen : α) (s : σ) :
    run [] (glance read unseen : Prog σ Turn ε α) s = (.done (read s), s) := rfl

@[simp] theorem run_sys (full : σ → Except IoKind α × σ) (part : ℕ → σ → σ) (s : σ) :
    run [] (sys full part : Prog σ Turn ε _) s = (.done (full s).1, (full s).2) := rfl

@[simp] theorem run_atomic (full : σ → Except IoKind α × σ) (s : σ) :
    run [] (atomic full : Prog σ Turn ε _) s = (.done (full s).1, (full s).2) := rfl

@[simp] theorem run_query (read : σ → Except IoKind α) (s : σ) :
    run [] (query read : Prog σ Turn ε _) s = (.done (read s), s) := rfl

@[simp] theorem run_barrier (s : σ) :
    run [] (barrier : Prog σ Turn ε _) s = (.done (.ok ()), s) := rfl

end Prog

/-! ## Loops and parts of a state -/

namespace Prog

variable {σ τ ε α β : Type} {A : τ → Prop}

/-- The invariant rule: an invariant of the rest of the list that one round carries over, and that
every interrupted round leaves in `Q`. -/
theorem wp_forEach {f : β → Prog σ τ ε Unit} {Q : Ended ε Unit → σ → Prop}
    (I : List β → σ → Prop)
    (round : ∀ b bs s, I (b :: bs) s → wp A (f b) (fun r s' => match r with
      | .done _ => I bs s'
      | .raised e => Q (.raised e) s'
      | .killed => Q .killed s') s)
    (stop : ∀ s, I [] s → Q (.done ()) s) {bs : List β} {s : σ} (h : I bs s) :
    wp A (forEach bs f) Q s := by
  induction bs generalizing s with
  | nil => exact stop s h
  | cons b bs ih =>
    refine wp_seq (round b bs s h) ?_ (fun _ _ h => h) (fun _ h => h)
    intro _ s' h'
    exact ih h'

/-- Run a program on the part of a state that `get` reads and `set` replaces. -/
def zoom {ρ : Type} (get : ρ → σ) (set : σ → ρ → ρ) : Prog σ τ ε α → Prog ρ τ ε α
  | done a => done a
  | raise e => raise e
  | killed => killed
  | act eff next => act (fun t r => set (eff t (get r)) r) fun t r => (next t (get r)).zoom get set

/-- The run on a part of a state that has this part. -/
theorem run_zoom [Inhabited τ] {ρ : Type} {get : ρ → σ} {set : σ → ρ → ρ} {r : ρ}
    (hget : ∀ s, get (set s r) = s) (hset : ∀ s s', set s (set s' r) = set s r) (ts : List τ)
    (p : Prog σ τ ε α) (s : σ) :
    run ts (p.zoom get set) (set s r) = ((run ts p s).1, set (run ts p s).2 r) := by
  induction p generalizing s ts with
  | done a => rfl
  | raise e => rfl
  | killed => rfl
  | act eff next ih =>
    simp only [zoom, run, hget, hset]
    exact ih _ _ _ _

/-! ## Calls among others -/

/-- A call on a state that is shared: what others do in a turn comes before it. -/
def shared (others : τ → σ → σ) (f : τ → σ → α × σ) : Prog σ τ ε α :=
  .act (fun t s => (f t (others t s)).2) fun t s => .done (f t (others t s)).1

theorem wp_shared {others : τ → σ → σ} {f : τ → σ → α × σ} {Q : Ended ε α → σ → Prop}
    {P : σ → Prop} {s : σ} (h : P s) (hothers : ∀ t s, P s → P (others t s))
    (hf : ∀ t s, P s → Q (.done (f t s).1) (f t s).2) : wp A (shared others f) Q s :=
  fun t _ => hf t _ (hothers t s h)

section Among

variable {ρ ω ε' : Type}

/-- A program on the part of a state that `get` reads, on which others act before each of its calls.
`set` takes over what a call leaves. -/
def among (others : ω → ρ → ρ) (get : ρ → σ) (set : σ → ρ → ρ) :
    Prog σ τ ε α → Prog ρ (ω × τ) ε α
  | done a => done a
  | raise e => raise e
  | killed => killed
  | act eff next =>
    act (fun t r => set (eff t.2 (get (others t.1 r))) (others t.1 r))
      fun t r => (next t.2 (get (others t.1 r))).among others get set

variable {others : ω → ρ → ρ} {get : ρ → σ} {set : σ → ρ → ρ}

@[simp] theorem among_bind (p : Prog σ τ ε α) (f : α → Prog σ τ ε β) :
    (p.bind f).among others get set =
      (p.among others get set).bind fun a => (f a).among others get set := by
  induction p with
  | done a => rfl
  | raise e => rfl
  | killed => rfl
  | act eff next ih => simp only [bind, among, ih]

@[simp] theorem among_attempt (p : Prog σ τ ε α) :
    (p.attempt : Prog σ τ ε' _).among others get set = (p.among others get set).attempt := by
  induction p with
  | done a => rfl
  | raise e => rfl
  | killed => rfl
  | act eff next ih => simp only [attempt, among, ih]

@[simp] theorem among_rethrow (f : ε → ε') (p : Prog σ τ ε α) :
    (p.rethrow f).among others get set = (p.among others get set).rethrow f := by
  induction p with
  | done a => rfl
  | raise e => rfl
  | killed => rfl
  | act eff next ih => simp only [rethrow, among, ih]

@[simp] theorem among_forEach (bs : List β) (f : β → Prog σ τ ε Unit) :
    (forEach bs f).among others get set = forEach bs fun b => (f b).among others get set := by
  induction bs with
  | nil => rfl
  | cons b bs ih => rw [forEach, among_bind, forEach, ih]

/-- An invariant that others keep, and that a call keeps which changes nothing. -/
structure Steady (others : ω → ρ → ρ) (get : ρ → σ) (set : σ → ρ → ρ) (I : ρ → Prop) : Prop where
  acted : ∀ o r, I r → I (others o r)
  same : ∀ r, I r → I (set (get r) r)

variable {others : ω → ρ → ρ} {get : ρ → σ} {set : σ → ρ → ρ} {I : ρ → Prop} {r : ρ}

theorem endsIn_among_atomic {A : ω × Turn → Prop} {full : σ → Except IoKind α × σ}
    {P : Except IoKind α → ρ → Prop} (hI : Steady others get set I) (h : I r)
    (hfull : ∀ r, I r → P (full (get r)).1 (set (full (get r)).2 r))
    (herr : ∀ r, I r → P (.error .other) r) :
    wp A ((atomic full : Prog σ Turn ε _).among others get set) (endsIn I P) r := by
  rintro ⟨o, t⟩ -
  have hr := hI.acted o r h
  cases t with
  | ok => exact hfull _ hr
  | fail n => exact herr _ (hI.same _ hr)
  | kill n => exact hI.same _ hr
  | blind => exact herr _ (hI.same _ hr)

theorem endsIn_among_query {A : ω × Turn → Prop} {read : σ → Except IoKind α}
    (hI : Steady others get set I) (h : I r) :
    wp A ((query read : Prog σ Turn ε _).among others get set) (endsIn I fun _ => I) r :=
  endsIn_among_atomic hI h hI.same fun _ h => h

theorem endsIn_among_glance {A : ω × Turn → Prop} {read : σ → α} {unseen : α}
    (hI : Steady others get set I) (h : I r) :
    wp A ((glance read unseen : Prog σ Turn ε α).among others get set) (endsIn I fun _ => I) r := by
  rintro ⟨o, t⟩ -
  have hr := hI.same _ (hI.acted o r h)
  cases t <;> exact hr

end Among

end Prog

end SolstoneTmux.Foundations
