import Mathlib.Data.List.Chain

/-!
# What the status cell shows for sync activity

`ActivityLinger` shows syncing at once and goes back only after the work has stopped for
`syncingLinger`. Its calls are `observe`, with the activity now, and `expire`, from a timer.

* `Phase observed l` relates what was observed to the fields of the linger: nothing yet, working,
  lingering since the first idle observation in a row, or idle. Every call keeps it (`Phase.call`).
* `call_output` says that a call gives an output when it changes what is shown, and then that.
* `linger_shows` is the resulting statement about any calls in any order.
-/

namespace SolstoneTmux

/-- `SyncActivity`. -/
inductive SyncActivity
  | idle
  | working
  deriving DecidableEq

/-- `SYNCING_LINGER`, in nanoseconds. -/
def syncingLinger : ℕ := 1500 * 1000000

/-- `ActivityLinger`; instants are nanoseconds of the monotonic clock. -/
structure ActivityLinger where
  shown : Option SyncActivity
  idleAt : Option ℕ

namespace ActivityLinger

/-- `ActivityLinger::default`. -/
def default : ActivityLinger := ⟨none, none⟩

/-- `ActivityLinger::show`. -/
def present (l : ActivityLinger) (activity : SyncActivity) :
    ActivityLinger × Option SyncActivity :=
  if l.shown ≠ some activity then ({ l with shown := some activity }, some activity) else (l, none)

/-- `ActivityLinger::observe`. -/
def observe (l : ActivityLinger) (activity : SyncActivity) (now : ℕ) :
    ActivityLinger × Option SyncActivity :=
  match activity with
  | .working => { l with idleAt := none }.present .working
  | .idle =>
    if l.shown = some .working then
      -- a report of idle that is already lingering does not move its deadline
      ({ l with idleAt := some (l.idleAt.getD (now + syncingLinger)) }, none)
    else l.present .idle

/-- `ActivityLinger::ends_at`. -/
def endsAt (l : ActivityLinger) : Option ℕ := l.idleAt

/-- `ActivityLinger::expire`. -/
def expire (l : ActivityLinger) (now : ℕ) : ActivityLinger × Option SyncActivity :=
  match l.idleAt with
  | some deadline => if deadline ≤ now then { l with idleAt := none }.present .idle else (l, none)
  | none => (l, none)

end ActivityLinger

/-- A call of `observe` or `expire`, with its time. -/
inductive LingerCall
  | observe (activity : SyncActivity) (now : ℕ)
  | expire (now : ℕ)

namespace LingerCall

/-- When the call is made. -/
def time : LingerCall → ℕ
  | observe _ now => now
  | expire now => now

/-- What the call observes, and when. -/
def observed : LingerCall → List (SyncActivity × ℕ)
  | observe activity now => [(activity, now)]
  | expire _ => []

/-- What the call makes of the linger, and what it returns. -/
def apply (c : LingerCall) (l : ActivityLinger) : ActivityLinger × Option SyncActivity :=
  match c with
  | observe activity now => l.observe activity now
  | expire now => l.expire now

end LingerCall

/-- The linger after the calls, and what they returned in order. -/
def lingerRun (calls : List LingerCall) : ActivityLinger × List SyncActivity :=
  calls.foldl (fun s c => ((c.apply s.1).1, s.2 ++ (c.apply s.1).2.toList)) (.default, [])

/-- What the calls observed, in order. -/
def observations (calls : List LingerCall) : List (SyncActivity × ℕ) :=
  calls.flatMap LingerCall.observed

/-- The last observed activity. -/
def lastObserved (observed : List (SyncActivity × ℕ)) : Option SyncActivity :=
  observed.getLast?.map Prod.fst

/-- Everything from one observation on is idle, and it is the first one: idle since its time. -/
def IdleSince (observed : List (SyncActivity × ℕ)) (since : ℕ) : Prop :=
  ∃ before after, observed = before ++ (.idle, since) :: after ∧
    (∀ o ∈ after, o.1 = .idle) ∧ lastObserved before ≠ some .idle

@[simp] theorem lingerRun_concat (calls : List LingerCall) (c : LingerCall) :
    lingerRun (calls ++ [c]) = ((c.apply (lingerRun calls).1).1,
      (lingerRun calls).2 ++ (c.apply (lingerRun calls).1).2.toList) := by
  simp [lingerRun]

@[simp] theorem observations_concat (calls : List LingerCall) (c : LingerCall) :
    observations (calls ++ [c]) = observations calls ++ c.observed := by
  simp [observations]

@[simp] theorem lastObserved_concat (observed : List (SyncActivity × ℕ)) (o : SyncActivity × ℕ) :
    lastObserved (observed ++ [o]) = some o.1 := by
  simp [lastObserved]

theorem IdleSince.last {observed : List (SyncActivity × ℕ)} {since : ℕ}
    (h : IdleSince observed since) : lastObserved observed = some .idle := by
  obtain ⟨before, after, rfl, hafter, -⟩ := h
  induction after using List.reverseRecOn with
  | nil => simp
  | append_singleton after o _ =>
    rw [← List.cons_append, ← List.append_assoc, lastObserved_concat]
    rw [hafter o (by simp)]

theorem IdleSince.first {observed : List (SyncActivity × ℕ)}
    (h : lastObserved observed ≠ some .idle) (now : ℕ) :
    IdleSince (observed ++ [(.idle, now)]) now :=
  ⟨observed, [], rfl, by simp, h⟩

theorem IdleSince.again {observed : List (SyncActivity × ℕ)} {since : ℕ}
    (h : IdleSince observed since) (now : ℕ) : IdleSince (observed ++ [(.idle, now)]) since := by
  obtain ⟨before, after, rfl, hafter, hbefore⟩ := h
  refine ⟨before, after ++ [(.idle, now)], by simp, ?_, hbefore⟩
  intro o ho
  rcases List.mem_append.mp ho with ho | ho
  · exact hafter o ho
  · rw [List.mem_singleton.mp ho]

/-! ## The phases of the linger -/

/-- What the linger holds after these observations. -/
inductive Phase (observed : List (SyncActivity × ℕ)) : ActivityLinger → Prop
  | unseen : lastObserved observed = none → Phase observed ⟨none, none⟩
  | working : lastObserved observed = some .working → Phase observed ⟨some .working, none⟩
  | lingering (since : ℕ) : IdleSince observed since →
      Phase observed ⟨some .working, some (since + syncingLinger)⟩
  | idle : lastObserved observed = some .idle → Phase observed ⟨some .idle, none⟩

theorem Phase.observe {observed : List (SyncActivity × ℕ)} {l : ActivityLinger}
    (h : Phase observed l) (activity : SyncActivity) (now : ℕ) :
    Phase (observed ++ [(activity, now)]) (l.observe activity now).1 := by
  cases activity with
  | working => cases h <;> exact .working (lastObserved_concat _ _)
  | idle =>
    cases h with
    | unseen => exact .idle (lastObserved_concat _ _)
    | working h => exact .lingering now (IdleSince.first (by simp [h]) now)
    | lingering since h => exact .lingering since (h.again now)
    | idle => exact .idle (lastObserved_concat _ _)

theorem Phase.expire {observed : List (SyncActivity × ℕ)} {l : ActivityLinger}
    (h : Phase observed l) (now : ℕ) : Phase observed (l.expire now).1 := by
  cases h with
  | unseen h => exact .unseen h
  | working h => exact .working h
  | lingering since h =>
    simp only [ActivityLinger.expire]
    split
    · exact .idle h.last
    · exact .lingering since h
  | idle h => exact .idle h

theorem Phase.call {observed : List (SyncActivity × ℕ)} {l : ActivityLinger}
    (h : Phase observed l) (c : LingerCall) : Phase (observed ++ c.observed) (c.apply l).1 := by
  cases c with
  | observe activity now => exact h.observe activity now
  | expire now =>
    rw [LingerCall.observed, List.append_nil]
    exact h.expire now

theorem phase_run (calls : List LingerCall) : Phase (observations calls) (lingerRun calls).1 := by
  induction calls using List.reverseRecOn with
  | nil => exact .unseen rfl
  | append_singleton calls c ih =>
    rw [observations_concat, lingerRun_concat]
    exact ih.call c

/-! ## What is shown -/

theorem Phase.shown_of_working {observed : List (SyncActivity × ℕ)} {l : ActivityLinger}
    (h : Phase observed l) (hlast : lastObserved observed = some .working) :
    l.shown = some .working := by
  cases h with
  | unseen h => simp [h] at hlast
  | working => rfl
  | lingering => rfl
  | idle h => simp [h] at hlast

theorem Phase.endsAt_isSome_iff {observed : List (SyncActivity × ℕ)} {l : ActivityLinger}
    (h : Phase observed l) : l.endsAt.isSome ↔
      l.shown = some .working ∧ lastObserved observed = some .idle := by
  cases h with
  | unseen h => simp [ActivityLinger.endsAt]
  | working h => simp [ActivityLinger.endsAt, h]
  | lingering since h => simp [ActivityLinger.endsAt, h.last]
  | idle h => simp [ActivityLinger.endsAt]

/-- Only the timer ends what is shown as working, and only at the deadline. -/
theorem Phase.goes_idle {observed : List (SyncActivity × ℕ)} {l : ActivityLinger}
    (h : Phase observed l) {c : LingerCall} (hshown : l.shown = some .working)
    (hidle : (c.apply l).1.shown = some .idle) :
    ∃ since, IdleSince (observed ++ c.observed) since ∧ since + syncingLinger ≤ c.time := by
  cases h with
  | unseen => simp at hshown
  | idle => simp at hshown
  | working h =>
    cases c with
    | observe activity now => cases activity <;> simp [LingerCall.apply, ActivityLinger.observe,
        ActivityLinger.present] at hidle
    | expire now => simp [LingerCall.apply, ActivityLinger.expire] at hidle
  | lingering since h =>
    cases c with
    | observe activity now => cases activity <;> simp [LingerCall.apply, ActivityLinger.observe,
        ActivityLinger.present] at hidle
    | expire now =>
      refine ⟨since, by simpa [LingerCall.observed] using h, ?_⟩
      by_contra hlate
      change ¬ since + syncingLinger ≤ now at hlate
      simp [LingerCall.apply, ActivityLinger.expire, hlate] at hidle

/-- A call returns what it newly shows, and nothing when it shows nothing new. -/
def Shows (l l' : ActivityLinger) (output : Option SyncActivity) : Prop :=
  (output = none ∧ l'.shown = l.shown) ∨
    ∃ a, output = some a ∧ l'.shown = some a ∧ l.shown ≠ some a

theorem shows_present (l : ActivityLinger) (a : SyncActivity) :
    Shows l (l.present a).1 (l.present a).2 := by
  unfold ActivityLinger.present
  split
  · rename_i h
    exact Or.inr ⟨a, rfl, rfl, h⟩
  · exact Or.inl ⟨rfl, rfl⟩

theorem shows_call (c : LingerCall) (l : ActivityLinger) : Shows l (c.apply l).1 (c.apply l).2 := by
  cases c with
  | observe activity now =>
    cases activity with
    | working => exact shows_present { l with idleAt := none } .working
    | idle =>
      simp only [LingerCall.apply, ActivityLinger.observe]
      split
      · exact Or.inl ⟨rfl, rfl⟩
      · exact shows_present l .idle
  | expire now =>
    simp only [LingerCall.apply, ActivityLinger.expire]
    split
    · split
      · exact shows_present { l with idleAt := none } .idle
      · exact Or.inl ⟨rfl, rfl⟩
    · exact Or.inl ⟨rfl, rfl⟩

/-- What is shown is the last output, and no output repeats the one before it. -/
theorem outputs_run (calls : List LingerCall) :
    (lingerRun calls).2.getLast? = (lingerRun calls).1.shown ∧
      (lingerRun calls).2.IsChain (· ≠ ·) := by
  induction calls using List.reverseRecOn with
  | nil => exact ⟨rfl, .nil⟩
  | append_singleton calls c ih =>
    obtain ⟨hlast, hchain⟩ := ih
    rw [lingerRun_concat]
    obtain ⟨hnone, hshown⟩ | ⟨a, hsome, hshown, hne⟩ := shows_call c (lingerRun calls).1
    · simp only [hnone, hshown, Option.toList_none, List.append_nil]
      exact ⟨hlast, hchain⟩
    · simp only [hsome, hshown, Option.toList_some]
      refine ⟨by simp, hchain.append (.singleton a) ?_⟩
      rintro x hx y hy rfl
      rw [hlast] at hx
      rw [Option.mem_def, List.head?_singleton, Option.some.injEq] at hy
      rw [Option.mem_def, ← hy] at hx
      exact hne hx

/-- Working is shown whenever it was observed last; it goes idle only after `syncingLinger` of
uninterrupted idleness; a deadline is pending exactly while it lingers; and no output repeats the
one before it. -/
theorem linger_shows (calls : List LingerCall) :
    (lastObserved (observations calls) = some .working →
      (lingerRun calls).1.shown = some .working) ∧
    (∀ c, (lingerRun calls).1.shown = some .working →
      (lingerRun (calls ++ [c])).1.shown = some .idle →
        ∃ since, IdleSince (observations (calls ++ [c])) since ∧
          since + syncingLinger ≤ c.time) ∧
    ((lingerRun calls).1.endsAt.isSome ↔ (lingerRun calls).1.shown = some .working ∧
      lastObserved (observations calls) = some .idle) ∧
    (lingerRun calls).2.IsChain (· ≠ ·) := by
  have hphase := phase_run calls
  refine ⟨hphase.shown_of_working, ?_, hphase.endsAt_isSome_iff, (outputs_run calls).2⟩
  intro c hshown hidle
  rw [observations_concat]
  rw [lingerRun_concat] at hidle
  exact hphase.goes_idle hshown hidle

end SolstoneTmux
