import Mathlib.Data.List.Basic

/-!
# Notifications

`Notify` holds at most one permit and the waiters that ask for one: `notifyOne` gives a permit to the
waiter that asked first, or keeps it; `poll` takes a permit or asks for one; `drop` takes a waiter
away, and the permit it was given goes on to the next. A permit that is there stays there until a
waiter takes it (`Signalled`).

`Flagged` is a flag that is raised first and signalled second, and that one consumer takes down
before it waits for a permit. `Flagged.Sound` says that a raised flag is on its way to the consumer,
and every step keeps it: a consumer that waits while no signal is on its way has no flag to miss
(`Sound.lowered`), and it may go away at any time.
-/

namespace SolstoneTmux.Foundations

/-- A stored permit, the waiters that have none, first come first, and those that were given one. -/
structure Notify (ι : Type) where
  permit : Bool
  waiting : List ι
  notified : List ι

namespace Notify

variable {ι : Type} [DecidableEq ι]

/-- No permit and no waiter. -/
def initial : Notify ι := ⟨false, [], []⟩

/-- Give a permit to the first waiter, or keep it. -/
def notifyOne (n : Notify ι) : Notify ι :=
  match n.waiting with
  | [] => { n with permit := true }
  | first :: rest => { n with waiting := rest, notified := first :: n.notified }

/-- A waiter takes its permit or a stored one, or goes on waiting; whether it has one. -/
def poll (n : Notify ι) (waiter : ι) : Bool × Notify ι :=
  if waiter ∈ n.notified then (true, { n with notified := n.notified.erase waiter })
  else if waiter ∈ n.waiting then (false, n)
  else if n.permit then (true, { n with permit := false })
  else (false, { n with waiting := n.waiting ++ [waiter] })

/-- A waiter goes away; a permit that it was given goes on. -/
def drop (n : Notify ι) (waiter : ι) : Notify ι :=
  if waiter ∈ n.notified then { n with notified := n.notified.erase waiter }.notifyOne
  else { n with waiting := n.waiting.erase waiter }

/-- A permit is stored, or given to a waiter that has not taken it. -/
def Signalled (n : Notify ι) : Prop := n.permit = true ∨ n.notified ≠ []

/-- A permit is stored only while nobody waits. -/
def Settled (n : Notify ι) : Prop := n.permit = true → n.waiting = []

/-- How many ask, or were given a permit that they have not taken. -/
def asking (n : Notify ι) : ℕ := n.waiting.length + n.notified.length

variable {n : Notify ι} {waiter : ι}

omit [DecidableEq ι] in
theorem settled_initial : (initial : Notify ι).Settled := nofun

omit [DecidableEq ι] in
theorem signalled_notifyOne (n : Notify ι) : n.notifyOne.Signalled := by
  unfold notifyOne
  split
  · exact .inl rfl
  · exact .inr (List.cons_ne_nil _ _)

omit [DecidableEq ι] in
theorem Settled.notifyOne (h : n.Settled) : n.notifyOne.Settled := by
  unfold Notify.notifyOne
  split
  · rename_i hnone
    exact fun _ => hnone
  · rename_i first rest hsome
    intro hpermit
    rw [h hpermit] at hsome
    cases hsome

theorem Settled.poll (h : n.Settled) (waiter : ι) : (n.poll waiter).2.Settled := by
  unfold Notify.poll
  split
  · exact h
  · split
    · exact h
    · split
      · exact nofun
      · rename_i hpermit
        exact fun hp => absurd hp hpermit

theorem Settled.drop (h : n.Settled) (waiter : ι) : (n.drop waiter).Settled := by
  unfold Notify.drop
  split
  · exact Settled.notifyOne h
  · intro hpermit
    rw [show n.waiting = [] from h hpermit]
    rfl

/-- A poll without success leaves the permits where they are. -/
theorem Signalled.poll (h : n.Signalled) (hpoll : (n.poll waiter).1 = false) :
    (n.poll waiter).2.Signalled := by
  unfold Notify.poll at hpoll ⊢
  split at hpoll
  · cases hpoll
  · rw [if_neg ‹_›]
    split at hpoll
    · rw [if_pos ‹_›]
      exact h
    · rw [if_neg ‹_›]
      split at hpoll
      · cases hpoll
      · rw [if_neg ‹_›]
        exact h

/-- A waiter that goes away takes no permit with it. -/
theorem Signalled.drop (h : n.Signalled) (waiter : ι) : (n.drop waiter).Signalled := by
  unfold Notify.drop
  split
  · exact signalled_notifyOne _
  · exact h

omit [DecidableEq ι] in
theorem asking_notifyOne (n : Notify ι) : n.notifyOne.asking = n.asking := by
  unfold notifyOne
  split
  · rfl
  · rename_i first rest hsome
    simp only [asking, hsome, List.length_cons]
    omega

/-- A poll that takes the permit of a waiter, or asks for one. -/
theorem asking_poll (n : Notify ι) (waiter : ι) :
    (n.poll waiter).2.asking =
      if waiter ∈ n.notified then n.asking - 1
      else if waiter ∈ n.waiting ∨ n.permit = true then n.asking
      else n.asking + 1 := by
  unfold poll
  split
  · rename_i hmem
    have hpos := List.length_pos_of_mem hmem
    simp only [asking, List.length_erase_of_mem hmem]
    omega
  · split
    · rw [if_pos (.inl ‹_›)]
    · split
      · rw [if_pos (.inr ‹_›)]
        rfl
      · rw [if_neg (not_or.mpr ⟨‹_›, ‹_›⟩)]
        simp only [asking, List.length_append, List.length_singleton]
        omega

theorem asking_drop (h : waiter ∈ n.notified ∨ waiter ∈ n.waiting) :
    (n.drop waiter).asking = n.asking - 1 := by
  unfold drop
  split
  · rename_i hmem
    have hpos := List.length_pos_of_mem hmem
    rw [asking_notifyOne]
    simp only [asking, List.length_erase_of_mem hmem]
    omega
  · rename_i hmem
    have hwaits := h.resolve_left hmem
    have hpos := List.length_pos_of_mem hwaits
    simp only [asking, List.length_erase_of_mem hwaits]
    omega

/-- Whether a poll has a permit. -/
theorem poll_ready_iff :
    (n.poll waiter).1 = true ↔
      waiter ∈ n.notified ∨ waiter ∉ n.waiting ∧ n.permit = true := by
  unfold poll
  split
  · simp [*]
  · split
    · simp [*]
    · split <;> simp [*]

end Notify

/-! ## A flag and its notification -/

/-- Where the consumer stands: it does not wait; it has a permit and looks at the flag next; it found
the flag down and asks for a permit next; it waits for its permit. -/
inductive WaitPhase
  | away
  | woken
  | looked
  | waiting
  deriving DecidableEq

/-- A flag, the number of those that raised it and have not signalled yet, and its consumer. -/
structure Flagged where
  flag : Bool
  raising : ℕ
  notify : Notify Unit
  phase : WaitPhase

namespace Flagged

/-- The flag is down and nobody waits. -/
def initial : Flagged := ⟨false, 0, .initial, .away⟩

/-- The first step of raising the flag. -/
def raise (w : Flagged) : Flagged := { w with flag := true, raising := w.raising + 1 }

/-- The second step of raising the flag. -/
def signal (w : Flagged) : Flagged :=
  { w with raising := w.raising - 1, notify := w.notify.notifyOne }

/-- Take the flag down, without waiting for it; whether it was up. -/
def take (w : Flagged) : Bool × Flagged := (w.flag, { w with flag := false })

/-- The consumer looks at the flag; whether it has taken it down. -/
def look (w : Flagged) : Bool × Flagged :=
  if w.flag then (true, { w with flag := false, phase := .away })
  else (false, { w with phase := .looked })

/-- The consumer asks for a permit. -/
def ask (w : Flagged) : Flagged :=
  { w with
    notify := (w.notify.poll ()).2
    phase := if (w.notify.poll ()).1 then .woken else .waiting }

/-- One step of the consumer in its loop; whether it has taken the flag down and is done. -/
def advance (w : Flagged) : Bool × Flagged :=
  match w.phase with
  | .away => w.look
  | .woken => w.look
  | .looked => (false, w.ask)
  | .waiting => (false, w.ask)

/-- The consumer goes away while it waits, or before it has begun. -/
def leave (w : Flagged) : Flagged :=
  match w.phase with
  | .waiting => { w with notify := w.notify.drop (), phase := .away }
  | _ => { w with phase := .away }

/-- A raised flag is on its way to the consumer: someone has still to signal it, a permit is there,
or the consumer looks at it next. -/
structure Sound (w : Flagged) : Prop where
  heard : w.flag = true → 0 < w.raising ∨ w.notify.Signalled ∨ w.phase = .woken
  settled : w.notify.Settled
  asking : w.notify.asking = if w.phase = .waiting then 1 else 0

variable {w : Flagged}

/-- The one waiter is in a list that is not empty. -/
theorem mem_of_length_pos {l : List Unit} (h : 0 < l.length) : () ∈ l :=
  List.exists_mem_of_length_pos h |>.elim fun _ h => h

theorem sound_initial : initial.Sound := ⟨nofun, Notify.settled_initial, rfl⟩

theorem Sound.raise (h : w.Sound) : w.raise.Sound :=
  ⟨fun _ => .inl (Nat.succ_pos _), h.settled, h.asking⟩

theorem Sound.signal (h : w.Sound) : w.signal.Sound :=
  ⟨fun _ => .inr (.inl (Notify.signalled_notifyOne _)), h.settled.notifyOne,
    (Notify.asking_notifyOne _).trans h.asking⟩

theorem Sound.take (h : w.Sound) : w.take.2.Sound := ⟨nofun, h.settled, h.asking⟩

/-- The consumer that asks for a permit has one, or waits for it. -/
theorem Sound.ask (h : w.Sound) (hphase : w.phase = .looked ∨ w.phase = .waiting) :
    w.ask.Sound := by
  have hlengths : w.notify.waiting.length + w.notify.notified.length =
      if w.phase = .waiting then 1 else 0 := h.asking
  have hready : (w.notify.poll ()).1 = true ↔
      () ∈ w.notify.notified ∨ () ∉ w.notify.waiting ∧ w.notify.permit = true :=
    Notify.poll_ready_iff
  unfold Flagged.ask
  refine ⟨fun hflag => ?_, h.settled.poll (), ?_⟩
  · dsimp only at hflag ⊢
    cases hdone : (w.notify.poll ()).1 with
    | true => exact .inr (.inr rfl)
    | false =>
      rcases h.heard hflag with hraising | hsignalled | hwoken
      · exact .inl hraising
      · exact .inr (.inl (hsignalled.poll hdone))
      · rw [hwoken] at hphase
        simp at hphase
  · dsimp only
    rw [Notify.asking_poll, h.asking]
    rcases hphase with hphase | hphase
    · rw [hphase, if_neg (by decide)] at hlengths
      have hnotified : () ∉ w.notify.notified := fun hmem => by
        have hpos := List.length_pos_of_mem hmem
        omega
      have hwaiting : () ∉ w.notify.waiting := fun hmem => by
        have hpos := List.length_pos_of_mem hmem
        omega
      rw [hphase, if_neg hnotified]
      cases hdone : (w.notify.poll ()).1 <;> simp_all
    · rw [hphase, if_pos rfl] at hlengths
      by_cases hmem : () ∈ w.notify.notified
      · have hdone : (w.notify.poll ()).1 = true := hready.mpr (.inl hmem)
        simp [hmem, hdone, hphase]
      · have hnone : w.notify.notified.length = 0 := by
          by_contra hpos
          exact hmem (mem_of_length_pos (Nat.pos_of_ne_zero hpos))
        have hwaits : () ∈ w.notify.waiting := mem_of_length_pos (by omega)
        have hpending : (w.notify.poll ()).1 = false := by
          rw [← Bool.not_eq_true, hready]
          simp [hmem, hwaits]
        simp [hmem, hwaits, hpending, hphase]

theorem Sound.look (h : w.Sound) (hphase : w.phase ≠ .waiting) : w.look.2.Sound := by
  have hasking : w.notify.asking = 0 := by rw [h.asking, if_neg hphase]
  unfold Flagged.look
  split
  · exact ⟨nofun, h.settled, hasking⟩
  · rename_i hflag
    exact ⟨fun hup => absurd hup hflag, h.settled, hasking⟩

theorem Sound.advance (h : w.Sound) : w.advance.2.Sound := by
  unfold Flagged.advance
  cases hphase : w.phase with
  | away => exact h.look (by rw [hphase]; decide)
  | woken => exact h.look (by rw [hphase]; decide)
  | looked => exact h.ask (.inl hphase)
  | waiting => exact h.ask (.inr hphase)

theorem Sound.leave (h : w.Sound) (hphase : w.phase = .away ∨ w.phase = .waiting) :
    w.leave.Sound := by
  unfold Flagged.leave
  rcases hphase with hphase | hphase
  · rw [hphase]
    refine ⟨fun hflag => ?_, h.settled, ?_⟩
    · rcases h.heard hflag with hraising | hsignalled | hwoken
      · exact .inl hraising
      · exact .inr (.inl hsignalled)
      · rw [hphase] at hwoken
        cases hwoken
    · rw [h.asking, hphase]
  · rw [hphase]
    have hasking := h.asking
    rw [hphase, if_pos rfl, Notify.asking] at hasking
    refine ⟨fun hflag => ?_, h.settled.drop (), ?_⟩
    · rcases h.heard hflag with hraising | hsignalled | hwoken
      · exact .inl hraising
      · exact .inr (.inl (hsignalled.drop ()))
      · rw [hphase] at hwoken
        cases hwoken
    · have hthere : () ∈ w.notify.notified ∨ () ∈ w.notify.waiting := by
        by_cases hpos : 0 < w.notify.notified.length
        · exact .inl (mem_of_length_pos hpos)
        · exact .inr (mem_of_length_pos (by omega))
      rw [Notify.asking_drop hthere, Notify.asking]
      simp [hasking]

theorem phase_leave (w : Flagged) : w.leave.phase = .away := by
  unfold leave
  split <;> rfl

theorem phase_look (h : w.look.1 = true) : w.look.2.phase = .away := by
  unfold look at h ⊢
  split at h
  · rw [if_pos ‹_›]
  · cases h

theorem flag_look (h : w.look.1 = false) : w.look.2.flag = w.flag := by
  unfold look at h ⊢
  split at h
  · cases h
  · rw [if_neg ‹_›]

/-- A consumer that is done went away. -/
theorem phase_of_advance (h : w.advance.1 = true) : w.advance.2.phase = .away := by
  unfold advance at h ⊢
  cases hphase : w.phase with
  | away => exact phase_look (by rwa [hphase] at h)
  | woken => exact phase_look (by rwa [hphase] at h)
  | looked => rw [hphase] at h; cases h
  | waiting => rw [hphase] at h; cases h

/-- A consumer that is not done leaves the flag. -/
theorem flag_of_advance (h : w.advance.1 = false) : w.advance.2.flag = w.flag := by
  unfold advance at h ⊢
  cases hphase : w.phase with
  | away => exact flag_look (by rwa [hphase] at h)
  | woken => exact flag_look (by rwa [hphase] at h)
  | looked => rfl
  | waiting => rfl

/-- **No flag is missed**: while the consumer waits, was given no permit, and none is on its way, the
flag is down. -/
theorem Sound.lowered (h : w.Sound) (hphase : w.phase = .waiting) (hraising : w.raising = 0)
    (hnotified : w.notify.notified = []) : w.flag = false := by
  have hasking := h.asking
  rw [hphase, if_pos rfl, Notify.asking, hnotified] at hasking
  rw [← Bool.not_eq_true]
  intro hflag
  rcases h.heard hflag with hpos | hsignalled | hwoken
  · omega
  · rcases hsignalled with hpermit | hsome
    · rw [h.settled hpermit] at hasking
      cases hasking
    · exact hsome hnotified
  · rw [hphase] at hwoken
    cases hwoken

/-- A consumer that waits while the flag is up and nobody has still to signal it has its permit. -/
theorem Sound.woken (h : w.Sound) (hphase : w.phase = .waiting) (hraising : w.raising = 0)
    (hflag : w.flag = true) : w.advance = (false, { w with
      notify := (w.notify.poll ()).2
      phase := .woken }) := by
  have hnotified : 0 < w.notify.notified.length := by
    by_contra hnone
    have hempty : w.notify.notified = [] := List.length_eq_zero_iff.mp (by omega)
    rw [h.lowered hphase hraising hempty] at hflag
    cases hflag
  have hready : (w.notify.poll ()).1 = true :=
    Notify.poll_ready_iff.mpr (.inl (mem_of_length_pos hnotified))
  rw [Flagged.advance, hphase]
  simp only [Flagged.ask, hready, if_true]

end Flagged

end SolstoneTmux.Foundations
