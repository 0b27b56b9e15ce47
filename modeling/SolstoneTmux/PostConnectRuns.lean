import SolstoneTmux.PostConnect

/-!
# Runs of the post-connect coordinator

`Sound` is what holds after any calls, in any order: a lane has started at most two passes in its
burst and runs at most one, it waits for a follow-up only while its first pass runs, and the burst
is active exactly while a lane is in flight (`sound_observe`). A trigger is lost only by a shutdown:
a lane with a pass left starts one at once or has its follow-up pending (`Pending`), and a pending
follow-up starts when the running pass completes (`exists_pass_of_pending`).
-/

namespace SolstoneTmux.PostConnect

/-! ## One lane -/

/-- The state of a lane agrees with its running attempts and with the number of its passes in the
current burst. -/
structure LaneSound (lane : LaneBurst) (attempts : List ℕ) (passes : ℕ) : Prop where
  running : attempts = if lane.inFlight then [lane.attemptId] else []
  count : lane.passCount = passes
  bound : passes ≤ 2
  followUp : lane.followUpRequested = true → lane.inFlight = true ∧ passes < 2

section Lane

variable {lane : LaneBurst} {running : List ℕ} {count : ℕ}

theorem laneSound_initial : LaneSound .initial [] 0 := ⟨rfl, rfl, by decide, by decide⟩

theorem LaneSound.running_of_not_inFlight (h : LaneSound lane running count)
    (hidle : lane.inFlight = false) : running = [] := by
  rw [h.running, hidle]
  rfl

theorem LaneSound.length_running_le (h : LaneSound lane running count) : running.length ≤ 1 := by
  rw [h.running]
  split
  · exact Nat.le_refl 1
  · exact Nat.zero_le 1

theorem LaneSound.running_ne_nil (h : LaneSound lane running count) :
    running ≠ [] ↔ lane.inFlight = true := by
  rw [h.running]
  cases lane.inFlight <;> simp

/-- A lane that starts a pass, where it may. -/
theorem LaneSound.startLane (h : LaneSound lane running count) (counter : ℕ) :
    LaneSound (startLane lane counter).lane
      (running ++ (PostConnect.startLane lane counter).attempt.toList)
      (count + (PostConnect.startLane lane counter).attempt.toList.length) := by
  rw [PostConnect.startLane]
  split
  · simpa using h
  · rename_i hcond
    rw [Bool.or_eq_true, decide_eq_true_eq, not_or, Bool.not_eq_true, h.count] at hcond
    obtain ⟨hidle, hcount⟩ := hcond
    refine ⟨?_, ?_, ?_, ?_⟩
    · rw [h.running_of_not_inFlight hidle]
      rfl
    · exact congrArg (· + 1) h.count
    · exact Nat.lt_of_not_le hcount
    · intro hfollow
      rw [(h.followUp hfollow).1] at hidle
      exact absurd hidle (by decide)

/-- A lane that is asked for its follow-up. -/
theorem LaneSound.requestFollowUp (h : LaneSound lane running count) (counter : ℕ) :
    LaneSound (requestFollowUp lane counter).lane
      (running ++ (PostConnect.requestFollowUp lane counter).attempt.toList)
      (count + (PostConnect.requestFollowUp lane counter).attempt.toList.length) := by
  rw [PostConnect.requestFollowUp]
  split
  · simpa using h
  · rename_i hcount
    rw [h.count] at hcount
    split
    · rename_i hflight
      rw [Option.toList_none, List.append_nil]
      exact ⟨h.running, h.count, h.bound, fun _ => ⟨hflight, Nat.lt_of_not_le hcount⟩⟩
    · exact h.startLane counter

/-- A lane whose attempt completes. -/
theorem LaneSound.completeLane (h : LaneSound lane running count) (alive : Bool) (counter : ℕ) :
    LaneSound (completeLane alive lane counter).lane
      (running.erase lane.attemptId ++
        (PostConnect.completeLane alive lane counter).attempt.toList)
      (count + (PostConnect.completeLane alive lane counter).attempt.toList.length) := by
  have herase : running.erase lane.attemptId = [] := by
    rw [h.running]
    split
    · rw [List.erase_cons_head]
    · rfl
  have hover : LaneSound { lane with inFlight := false, followUpRequested := false }
      (running.erase lane.attemptId) count := ⟨herase, h.count, h.bound, nofun⟩
  rw [PostConnect.completeLane]
  split
  · exact hover.startLane counter
  · simpa using hover

/-- The completion of another attempt ends nothing. -/
theorem LaneSound.erase_of_ne (h : LaneSound lane running count) {attempt : ℕ}
    (hne : lane.attemptId ≠ attempt) : running.erase attempt = running := by
  refine List.erase_of_not_mem fun hmem => ?_
  rw [h.running] at hmem
  split at hmem
  · exact hne (List.mem_singleton.mp hmem).symm
  · exact absurd hmem List.not_mem_nil

theorem LaneSound.forget (h : LaneSound lane running count) :
    LaneSound { lane with followUpRequested := false } running count :=
  ⟨h.running, h.count, h.bound, nofun⟩

end Lane

/-! ### Flags -/

theorem inFlight_startLane_initial (counter : ℕ) :
    (startLane .initial counter).lane.inFlight = true := rfl

theorem inFlight_requestFollowUp {lane : LaneBurst} (h : lane.inFlight = true) (counter : ℕ) :
    (requestFollowUp lane counter).lane.inFlight = true := by
  rw [requestFollowUp, if_pos h]
  split <;> exact h

theorem attempt_completeLane_of_not_alive (lane : LaneBurst) (counter : ℕ) :
    (completeLane false lane counter).attempt = none := by
  rw [completeLane, Bool.and_false]
  rfl

/-! ## One call -/

section Call

variable {c : Coordinator} {b : BurstState} {lane other : Lane}

open Observed

theorem attemptsOf_append (lane : Lane) (xs ys : List Job) :
    attemptsOf lane (xs ++ ys) = attemptsOf lane xs ++ attemptsOf lane ys := by
  rw [attemptsOf, List.filter_append, List.map_append]
  rfl

theorem attemptsOf_jobOf (lane : Lane) (attempt : Option ℕ) :
    attemptsOf lane (jobOf lane attempt) = attempt.toList := by
  cases attempt with
  | none => rfl
  | some attempt => simp [attemptsOf, jobOf]

theorem attemptsOf_jobOf_of_ne (h : other ≠ lane) (attempt : Option ℕ) :
    attemptsOf lane (jobOf other attempt) = [] := by
  cases attempt with
  | none => rfl
  | some attempt => simp [attemptsOf, jobOf, h]

/-- Each lane takes the step that both lanes take. -/
theorem bothLanes_lane (c : Coordinator) (b : BurstState) (f : LaneBurst → ℕ → LaneOutcome)
    (lane : Lane) : ∃ counter,
      (c.bothLanes b f).1.burst.lane lane = (f (b.lane lane) counter).lane ∧
      attemptsOf lane (c.bothLanes b f).2.spawned =
        (f (b.lane lane) counter).attempt.toList := by
  cases lane with
  | metadata =>
    refine ⟨c.attemptCounter, rfl, ?_⟩
    rw [Coordinator.bothLanes, attemptsOf_append, attemptsOf_jobOf,
      attemptsOf_jobOf_of_ne (by decide), List.append_nil]
    rfl
  | access =>
    refine ⟨(f b.metadata c.attemptCounter).counter, rfl, ?_⟩
    rw [Coordinator.bothLanes, attemptsOf_append, attemptsOf_jobOf_of_ne (by decide),
      attemptsOf_jobOf, List.nil_append]
    rfl

theorem lane_opened (b : BurstState) (lane : Lane) : b.opened.lane lane = .initial := by
  cases lane <;> rfl

theorem lane_finishIfQuiescent (b : BurstState) (lane : Lane) :
    (finishIfQuiescent b).1.lane lane = b.lane lane := by
  rw [finishIfQuiescent]
  split
  · cases lane <;> rfl
  · rfl

/-- A burst stays active while a lane is in flight, given that only such a lane waits. -/
theorem active_finishIfQuiescent
    (hwait : ∀ lane, (b.lane lane).followUpRequested = true → (b.lane lane).inFlight = true) :
    (finishIfQuiescent b).1.active = true ↔
      b.active = true ∧ ∃ lane, (b.lane lane).inFlight = true := by
  have hmetadata := hwait .metadata
  have haccess := hwait .access
  rw [finishIfQuiescent]
  split
  · rename_i hquiet
    simp only [Bool.and_eq_true, Bool.not_eq_true'] at hquiet
    refine iff_of_false Bool.false_ne_true ?_
    rintro ⟨-, lane, hlane⟩
    cases lane with
    | metadata => exact absurd (hquiet.1.1.1.symm.trans hlane) Bool.false_ne_true
    | access => exact absurd (hquiet.1.1.2.symm.trans hlane) Bool.false_ne_true
  · rename_i hbusy
    refine ⟨fun hactive => ⟨hactive, ?_⟩, And.left⟩
    by_contra hidle
    have hm : b.metadata.inFlight = false := Bool.eq_false_iff.mpr fun h => hidle ⟨.metadata, h⟩
    have ha : b.access.inFlight = false := Bool.eq_false_iff.mpr fun h => hidle ⟨.access, h⟩
    have hmf : b.metadata.followUpRequested = false :=
      Bool.eq_false_iff.mpr fun h => hidle ⟨.metadata, hmetadata h⟩
    have haf : b.access.followUpRequested = false :=
      Bool.eq_false_iff.mpr fun h => hidle ⟨.access, haccess h⟩
    exact hbusy (by rw [hm, ha, hmf, haf]; rfl)

/-- A completion of an attempt that is not the lane's last one does nothing. -/
theorem step_complete_of_ne {attempt : ℕ} (h : (c.burst.lane lane).attemptId ≠ attempt) :
    c.step (.complete lane attempt) = (c, .none) := by
  cases lane <;> exact if_pos h

theorem step_dial_of_active (h : c.burst.active = true) : c.step .dial = (c, .none) :=
  if_neg (by rw [h]; decide)

theorem step_dial_of_not_active (h : ¬ c.burst.active = true) :
    c.step .dial = c.triggerExternal :=
  if_pos (by rw [Bool.not_eq_true', ← Bool.not_eq_true]; exact h)

/-- What the completion of a lane's last attempt does. -/
structure Completes (c : Coordinator) (completed : Lane) (result : Coordinator × Effects) :
    Prop where
  alive : result.1.alive = c.alive
  lane : result.1.burst.lane completed =
    (completeLane c.alive (c.burst.lane completed) c.attemptCounter).lane
  attempts : attemptsOf completed result.2.spawned =
    (completeLane c.alive (c.burst.lane completed) c.attemptCounter).attempt.toList
  other : ∀ lane, lane ≠ completed → result.1.burst.lane lane = c.burst.lane lane ∧
    attemptsOf lane result.2.spawned = []
  active : ∃ b : BurstState, b.active = c.burst.active ∧ result.1.burst = (finishIfQuiescent b).1

theorem completes_step (c : Coordinator) (lane : Lane) :
    Completes c lane (c.step (.complete lane (c.burst.lane lane).attemptId)) := by
  cases lane with
  | metadata =>
    have hstep : c.step (.complete .metadata (c.burst.lane .metadata).attemptId) = _ :=
      if_neg (not_not_intro rfl)
    rw [hstep]
    refine ⟨rfl, lane_finishIfQuiescent _ _, attemptsOf_jobOf _ _, ?_, _, ?_, rfl⟩
    rotate_left
    · rfl
    intro other hother
    exact ⟨(lane_finishIfQuiescent _ _).trans (by cases other with
      | metadata => exact absurd rfl hother
      | access => rfl), attemptsOf_jobOf_of_ne hother.symm _⟩
  | access =>
    have hstep : c.step (.complete .access (c.burst.lane .access).attemptId) = _ :=
      if_neg (not_not_intro rfl)
    rw [hstep]
    refine ⟨rfl, lane_finishIfQuiescent _ _, attemptsOf_jobOf _ _, ?_, _, ?_, rfl⟩
    rotate_left
    · rfl
    intro other hother
    exact ⟨(lane_finishIfQuiescent _ _).trans (by cases other with
      | metadata => rfl
      | access => exact absurd rfl hother), attemptsOf_jobOf_of_ne hother.symm _⟩

end Call

/-! ## Soundness -/

/-- What holds after any calls. -/
structure Sound (o : Observed) : Prop where
  lane : ∀ lane, LaneSound (o.coordinator.burst.lane lane) (o.running lane)
    (o.passesIn lane o.bursts).length
  active : o.coordinator.burst.active = true ↔
    ∃ lane, (o.coordinator.burst.lane lane).inFlight = true
  bursts : ∀ pass ∈ o.passes, pass.burst ≤ o.bursts
  bound : ∀ lane n, (o.passesIn lane n).length ≤ 2

section Sound

variable {o : Observed} {call : Call}

open Observed

theorem sound_initial : Sound .initial where
  lane := fun lane => by cases lane <;> exact laneSound_initial
  active := by
    refine iff_of_false Bool.false_ne_true ?_
    rintro ⟨lane, hlane⟩
    cases lane <;> exact absurd hlane (by decide)
  bursts := fun pass hpass => absurd hpass List.not_mem_nil
  bound := fun lane n => Nat.zero_le 2

/-- A call adds the passes that it starts to the burst that is then open. -/
theorem length_passesIn_step (o : Observed) (call : Call) (lane : Lane) (n : ℕ) :
    ((o.step call).passesIn lane n).length = (o.passesIn lane n).length +
      if n = (o.step call).bursts then
        (attemptsOf lane (o.coordinator.step call).2.spawned).length
      else 0 := by
  have hadded : ∀ (m : ℕ) (jobs : List Job),
      ((jobs.map fun job => (⟨job.lane, job.attempt, m⟩ : Pass)).filter fun pass =>
        decide (pass.lane = lane ∧ pass.burst = n)).length =
      if n = m then (attemptsOf lane jobs).length else 0 := by
    intro m jobs
    rw [List.filter_map, List.length_map, attemptsOf, List.length_map]
    split
    · rename_i hn
      congr 1
      exact List.filter_congr fun job _ => by simp [hn]
    · rename_i hn
      rw [List.length_eq_zero_iff, List.filter_eq_nil_iff]
      intro job _ hjob
      simp only [Function.comp_apply, decide_eq_true_eq] at hjob
      exact hn hjob.2.symm
  rw [passesIn, passesIn, ← hadded, ← List.length_append, ← List.filter_append]
  rfl

/-- A call that does nothing. -/
theorem step_of_none (hstep : o.coordinator.step call = (o.coordinator, .none))
    (hrunning : ∀ lane, o.stillRunning lane call = o.running lane) : o.step call = o := by
  obtain ⟨c, bursts, passes, running⟩ := o
  have hrun : (fun lane => stillRunning ⟨c, bursts, passes, running⟩ lane call ++
      attemptsOf lane []) = running := by
    funext lane
    rw [hrunning lane]
    exact List.append_nil _
  simp only at hstep
  simp only [Observed.step, hstep, Effects.none, hrun, List.map_nil, List.append_nil,
    Bool.not_and_self, Bool.false_eq_true, if_false]

/-- Soundness after a call follows from that of the lanes and of the activity. -/
theorem Sound.of_lanes (h : Sound o)
    (hlane : ∀ lane, LaneSound ((o.step call).coordinator.burst.lane lane)
      ((o.step call).running lane) ((o.step call).passesIn lane (o.step call).bursts).length)
    (hactive : (o.step call).coordinator.burst.active = true ↔
      ∃ lane, ((o.step call).coordinator.burst.lane lane).inFlight = true) :
    Sound (o.step call) where
  lane := hlane
  active := hactive
  bursts := by
    have hle : o.bursts ≤ (o.step call).bursts := by
      simp only [Observed.step]
      split
      · exact Nat.le_succ _
      · exact Nat.le_refl _
    intro pass hpass
    rcases List.mem_append.mp hpass with hold | hnew
    · exact Nat.le_trans (h.bursts pass hold) hle
    · obtain ⟨job, -, rfl⟩ := List.mem_map.mp hnew
      exact Nat.le_refl _
  bound := by
    intro lane n
    by_cases hn : n = (o.step call).bursts
    · rw [hn]
      exact (hlane lane).bound
    · rw [length_passesIn_step, if_neg hn]
      exact h.bound lane n

/-- Soundness after a call that opens no burst. -/
theorem Sound.of_same_burst (h : Sound o) (hburst : (o.step call).bursts = o.bursts)
    (hlane : ∀ lane, LaneSound (o.coordinator.burst.lane lane) (o.running lane)
        (o.passesIn lane o.bursts).length →
      LaneSound ((o.step call).coordinator.burst.lane lane)
        (o.stillRunning lane call ++ attemptsOf lane (o.coordinator.step call).2.spawned)
        ((o.passesIn lane o.bursts).length +
          (attemptsOf lane (o.coordinator.step call).2.spawned).length))
    (hactive : (o.step call).coordinator.burst.active = true ↔
      ∃ lane, ((o.step call).coordinator.burst.lane lane).inFlight = true) :
    Sound (o.step call) := by
  refine h.of_lanes (fun lane => ?_) hactive
  rw [length_passesIn_step, if_pos rfl, hburst]
  exact hlane lane (h.lane lane)

theorem Sound.running_eq_nil (h : Sound o) (hidle : o.coordinator.burst.active = false)
    (lane : Lane) : o.running lane = [] := by
  refine (h.lane lane).running_of_not_inFlight ?_
  by_contra hflight
  rw [Bool.not_eq_false] at hflight
  exact absurd (hidle.symm.trans (h.active.mpr ⟨lane, hflight⟩)) Bool.false_ne_true

/-- A trigger opens a burst in which both lanes start their first pass. -/
theorem Sound.open (h : Sound o) (hidle : o.coordinator.burst.active = false)
    (hstep : o.coordinator.step call =
      o.coordinator.bothLanes o.coordinator.burst.opened startLane)
    (hrunning : ∀ lane, o.stillRunning lane call = o.running lane) : Sound (o.step call) := by
  have hbursts : (o.step call).bursts = o.bursts + 1 := by
    rw [Observed.step, hstep, hidle]
    rfl
  have hlane := bothLanes_lane o.coordinator o.coordinator.burst.opened startLane
  refine h.of_lanes (fun lane => ?_) (iff_of_true ?_ ⟨.metadata, ?_⟩)
  · obtain ⟨counter, hburst, hattempts⟩ := hlane lane
    have hfresh : o.passesIn lane (o.bursts + 1) = [] := by
      rw [passesIn, List.filter_eq_nil_iff]
      intro pass hpass hin
      rw [decide_eq_true_eq] at hin
      have hle := h.bursts pass hpass
      omega
    rw [length_passesIn_step, if_pos rfl, hbursts, hfresh, List.length_nil]
    simp only [Observed.step, hstep, hrunning, h.running_eq_nil hidle]
    rw [hburst, hattempts, lane_opened]
    exact laneSound_initial.startLane counter
  · rw [Observed.step, hstep]
    rfl
  · rw [Observed.step, hstep]
    exact inFlight_startLane_initial _

/-- A trigger in a burst asks both lanes for their follow-up. -/
theorem Sound.request (h : Sound o) (hactive : o.coordinator.burst.active = true)
    (hstep : o.coordinator.step call =
      o.coordinator.bothLanes o.coordinator.burst requestFollowUp)
    (hrunning : ∀ lane, o.stillRunning lane call = o.running lane) : Sound (o.step call) := by
  have hlane := bothLanes_lane o.coordinator o.coordinator.burst requestFollowUp
  refine h.of_same_burst ?_ (fun lane hsound => ?_) (iff_of_true ?_ ?_)
  · rw [Observed.step, hactive]
    rfl
  · obtain ⟨counter, hburst, hattempts⟩ := hlane lane
    simp only [Observed.step, hstep, hrunning]
    rw [hburst, hattempts]
    exact hsound.requestFollowUp counter
  · rw [Observed.step, hstep]
    exact hactive
  · obtain ⟨lane, hflight⟩ := h.active.mp hactive
    obtain ⟨counter, hburst, -⟩ := hlane lane
    refine ⟨lane, ?_⟩
    simp only [Observed.step, hstep]
    rw [hburst]
    exact inFlight_requestFollowUp hflight counter

/-- The completion of a lane's last attempt. -/
theorem Sound.complete (h : Sound o) (lane : Lane) :
    Sound (o.step (.complete lane (o.coordinator.burst.lane lane).attemptId)) := by
  have hdone := completes_step o.coordinator lane
  generalize hresult : o.coordinator.step
    (.complete lane (o.coordinator.burst.lane lane).attemptId) = result at hdone
  obtain ⟨b, hb, hburst⟩ := hdone.active
  have hlanes : ∀ other, LaneSound (result.1.burst.lane other)
      (o.stillRunning other (.complete lane (o.coordinator.burst.lane lane).attemptId) ++
        attemptsOf other result.2.spawned)
      ((o.passesIn other o.bursts).length + (attemptsOf other result.2.spawned).length) := by
    intro other
    by_cases hother : other = lane
    · subst hother
      rw [hdone.lane, hdone.attempts, stillRunning, if_pos rfl]
      exact (h.lane other).completeLane _ _
    · rw [(hdone.other other hother).1, (hdone.other other hother).2, stillRunning,
        if_neg (Ne.symm hother), List.append_nil]
      exact h.lane other
  have hactive : result.1.burst.active = true ↔
      ∃ lane, (result.1.burst.lane lane).inFlight = true := by
    have hlane : ∀ lane, result.1.burst.lane lane = b.lane lane := by
      intro lane
      rw [hburst, lane_finishIfQuiescent]
    have hfinish : (finishIfQuiescent b).1.active = true ↔ b.active = true ∧
        ∃ lane, (b.lane lane).inFlight = true := by
      refine active_finishIfQuiescent fun lane hwait => ?_
      rw [← hlane] at hwait ⊢
      exact ((hlanes lane).followUp hwait).1
    rw [hburst, hfinish]
    simp only [lane_finishIfQuiescent]
    refine ⟨And.right, fun hflight => ⟨?_, hflight⟩⟩
    obtain ⟨other, hflight⟩ := hflight
    rw [hb, h.active]
    rw [← hlane] at hflight
    by_cases hother : other = lane
    · -- the lane goes on with a follow-up, for which it waited in flight
      subst hother
      refine ⟨other, ?_⟩
      rw [hdone.lane, completeLane] at hflight
      split at hflight
      · rename_i hcond
        rw [Bool.and_eq_true, Bool.and_eq_true] at hcond
        exact ((h.lane other).followUp hcond.1.1).1
      · exact absurd hflight Bool.false_ne_true
    · rw [(hdone.other other hother).1] at hflight
      exact ⟨other, hflight⟩
  have hidle : (!o.coordinator.burst.active && result.1.burst.active) = false := by
    rw [Bool.and_eq_false_iff, Bool.not_eq_false', ← Bool.not_eq_true result.1.burst.active]
    by_cases hopen : o.coordinator.burst.active = true
    · exact .inl hopen
    · right
      rw [hburst]
      refine fun hclosed => hopen ?_
      rw [finishIfQuiescent] at hclosed
      split at hclosed
      · exact absurd hclosed Bool.false_ne_true
      · exact hb.symm.trans hclosed
  refine h.of_same_burst ?_ (fun other _ => ?_) ?_
  · rw [Observed.step, hresult]
    simp only [hidle, Bool.false_eq_true, if_false]
  · simp only [Observed.step, hresult]
    exact hlanes other
  · simp only [Observed.step, hresult]
    exact hactive

theorem Sound.shutdown (h : Sound o) : Sound (o.step .shutdown) := by
  have hlane (lane : Lane) : LaneSound (o.coordinator.shutdown.1.burst.lane lane)
      (o.running lane) (o.passesIn lane o.bursts).length := by
    cases lane with
    | metadata => exact (h.lane .metadata).forget
    | access => exact (h.lane .access).forget
  have hflight (lane : Lane) : (o.coordinator.shutdown.1.burst.lane lane).inFlight =
      (o.coordinator.burst.lane lane).inFlight := by
    cases lane <;> rfl
  refine h.of_same_burst ?_ (fun lane _ => ?_) ?_
  · simp only [Observed.step, Coordinator.step, Coordinator.shutdown, Bool.not_and_self,
      Bool.false_eq_true, if_false]
  · have hrunning : o.stillRunning lane .shutdown ++ attemptsOf lane [] = o.running lane :=
      List.append_nil _
    exact hrunning.symm ▸ hlane lane
  · simp only [Observed.step, Coordinator.step, hflight]
    exact h.active

theorem Sound.trigger (h : Sound o) (hcall : o.coordinator.step call = o.coordinator.triggerExternal)
    (hrunning : ∀ lane, o.stillRunning lane call = o.running lane) : Sound (o.step call) := by
  rw [Coordinator.triggerExternal] at hcall
  split at hcall
  · rw [step_of_none hcall hrunning]
    exact h
  · split at hcall
    · rename_i hidle
      rw [Bool.not_eq_true'] at hidle
      exact h.open hidle hcall hrunning
    · rename_i hbusy
      rw [Bool.not_eq_true', Bool.not_eq_false] at hbusy
      exact h.request hbusy hcall hrunning

theorem Sound.step (h : Sound o) (call : Call) : Sound (o.step call) := by
  cases call with
  | trigger => exact h.trigger rfl fun _ => rfl
  | dial =>
    by_cases hactive : o.coordinator.burst.active = true
    · rw [step_of_none (step_dial_of_active hactive) fun _ => rfl]
      exact h
    · exact h.trigger (step_dial_of_not_active hactive) fun _ => rfl
  | complete lane attempt =>
    by_cases hattempt : (o.coordinator.burst.lane lane).attemptId = attempt
    · rw [← hattempt]
      exact h.complete lane
    · rw [step_of_none (step_complete_of_ne hattempt) fun other => ?_]
      · exact h
      · rw [stillRunning]
        split
        · rename_i hlane
          subst hlane
          exact (h.lane lane).erase_of_ne hattempt
        · rfl
  | shutdown => exact h.shutdown

theorem sound_observe (calls : List Call) : Sound (observe calls) :=
  List.foldlRecOn calls Observed.step sound_initial fun _ h call _ => h.step call

end Sound

/-! ## Triggers and shutdown -/

/-- A pass of a lane was started between two observations. -/
def Starts (lane : Lane) (o o' : Observed) : Prop :=
  ∃ later, o'.passes = o.passes ++ later ∧ ∃ pass ∈ later, pass.lane = lane

/-- A lane runs an attempt after whose completion it will run its follow-up. -/
structure Pending (lane : Lane) (attempt : ℕ) (o : Observed) : Prop where
  alive : o.coordinator.alive = true
  inFlight : (o.coordinator.burst.lane lane).inFlight = true
  followUp : (o.coordinator.burst.lane lane).followUpRequested = true
  attempt : (o.coordinator.burst.lane lane).attemptId = attempt
  count : (o.coordinator.burst.lane lane).passCount < 2

section Trigger

variable {o o' o'' : Observed} {lane : Lane} {call : Call} {attempt : ℕ}

open Observed

theorem exists_passes_step (o : Observed) (call : Call) :
    ∃ started, (o.step call).passes = o.passes ++ started := ⟨_, rfl⟩

theorem exists_passes_foldl (o : Observed) (calls : List Call) :
    ∃ later, (calls.foldl Observed.step o).passes = o.passes ++ later := by
  induction calls generalizing o with
  | nil => exact ⟨[], (List.append_nil _).symm⟩
  | cons call calls ih =>
    obtain ⟨started, hstarted⟩ := exists_passes_step o call
    obtain ⟨later, hlater⟩ := ih (o.step call)
    refine ⟨started ++ later, ?_⟩
    rw [List.foldl_cons, hlater, hstarted, List.append_assoc]

theorem Starts.foldl (h : Starts lane o o') (calls : List Call) :
    Starts lane o (calls.foldl Observed.step o') := by
  obtain ⟨later, hlater, pass, hpass, hlane⟩ := h
  obtain ⟨more, hmore⟩ := exists_passes_foldl o' calls
  refine ⟨later ++ more, ?_, pass, List.mem_append_left _ hpass, hlane⟩
  rw [hmore, hlater, List.append_assoc]

theorem Starts.of_step (h : Starts lane (o.step call) o') : Starts lane o o' := by
  obtain ⟨later, hlater, pass, hpass, hlane⟩ := h
  obtain ⟨started, hstarted⟩ := exists_passes_step o call
  refine ⟨started ++ later, ?_, pass, List.mem_append_right _ hpass, hlane⟩
  rw [hlater, hstarted, List.append_assoc]

/-- A call that spawns a job of a lane starts a pass of it. -/
theorem starts_step (h : attempt ∈ attemptsOf lane (o.coordinator.step call).2.spawned) :
    Starts lane o (o.step call) := by
  obtain ⟨job, hjob, -⟩ := List.mem_map.mp h
  obtain ⟨hmem, hlane⟩ := List.mem_filter.mp hjob
  exact ⟨_, rfl, _, List.mem_map_of_mem hmem, of_decide_eq_true hlane⟩

theorem startLane_of_idle {l : LaneBurst} (hidle : l.inFlight = false) (hcount : l.passCount < 2)
    (counter : ℕ) : ∃ attempt, (startLane l counter).attempt = some attempt := by
  refine ⟨(counter + 1) % 2 ^ 64, ?_⟩
  rw [startLane, if_neg]
  simpa [hidle] using hcount

/-- A trigger starts a pass of each lane that has one left, at once or with the completion of the
running one. -/
theorem Sound.starts_or_pending (h : Sound o) (halive : o.coordinator.alive = true)
    (hleft : ¬ (o.coordinator.burst.active = true ∧ (o.passesIn lane o.bursts).length = 2)) :
    Starts lane o (o.step .trigger) ∨
      ∃ attempt ∈ o.running lane, Pending lane attempt (o.step .trigger) := by
  have hstep : o.coordinator.step .trigger = o.coordinator.triggerExternal := rfl
  rw [Coordinator.triggerExternal, if_neg (by rw [halive]; decide)] at hstep
  by_cases hactive : o.coordinator.burst.active = true
  · rw [if_neg (by rw [hactive]; decide)] at hstep
    obtain ⟨counter, hburst, hattempts⟩ :=
      bothLanes_lane o.coordinator o.coordinator.burst requestFollowUp lane
    have hsound := h.lane lane
    have hcount : (o.coordinator.burst.lane lane).passCount < 2 := by
      rw [hsound.count]
      exact Nat.lt_of_le_of_ne hsound.bound fun htwo => hleft ⟨hactive, htwo⟩
    cases hflight : (o.coordinator.burst.lane lane).inFlight with
    | true =>
      refine .inr ⟨(o.coordinator.burst.lane lane).attemptId, ?_, ?_⟩
      · rw [hsound.running, hflight]
        exact List.mem_singleton_self _
      · rw [requestFollowUp, if_neg (Nat.not_le_of_lt hcount), if_pos hflight] at hburst
        have hlane : (o.step .trigger).coordinator.burst.lane lane =
            { o.coordinator.burst.lane lane with followUpRequested := true } := by
          rw [Observed.step, hstep]
          exact hburst
        refine ⟨?_, ?_, ?_, ?_, ?_⟩
        · rw [Observed.step, hstep]
          exact halive
        · rw [hlane]
          exact hflight
        · rw [hlane]
        · rw [hlane]
        · rw [hlane]
          exact hcount
    | false =>
      obtain ⟨attempt, hattempt⟩ := startLane_of_idle hflight hcount counter
      refine .inl (@starts_step _ _ _ attempt ?_)
      rw [hstep, hattempts, requestFollowUp, if_neg (Nat.not_le_of_lt hcount),
        if_neg (by rw [hflight]; decide), hattempt]
      exact List.mem_singleton_self _
  · rw [if_pos (by rw [Bool.not_eq_true', ← Bool.not_eq_true]; exact hactive)] at hstep
    obtain ⟨counter, -, hattempts⟩ :=
      bothLanes_lane o.coordinator o.coordinator.burst.opened startLane lane
    refine .inl (@starts_step _ _ _ ((counter + 1) % 2 ^ 64) ?_)
    rw [hstep, hattempts, lane_opened]
    exact List.mem_singleton_self _

/-- A pending follow-up starts with the completion of the running attempt, and until then stays
pending whatever is called. -/
theorem Pending.step (h : Sound o) (hpending : Pending lane attempt o) (hcall : call ≠ .shutdown) :
    (call = .complete lane attempt ∧ Starts lane o (o.step call)) ∨
      (call ≠ .complete lane attempt ∧ Pending lane attempt (o.step call)) := by
  have hactive : o.coordinator.burst.active = true := h.active.mpr ⟨lane, hpending.inFlight⟩
  cases call with
  | trigger =>
    refine .inr ⟨nofun, ?_⟩
    have hstep : o.coordinator.step .trigger =
        o.coordinator.bothLanes o.coordinator.burst requestFollowUp := by
      rw [Coordinator.step, Coordinator.triggerExternal, if_neg (by rw [hpending.alive]; decide),
        if_neg (by rw [hactive]; decide)]
    obtain ⟨counter, hburst, -⟩ :=
      bothLanes_lane o.coordinator o.coordinator.burst requestFollowUp lane
    rw [requestFollowUp, if_neg (Nat.not_le_of_lt hpending.count), if_pos hpending.inFlight]
      at hburst
    have hlane : (o.step .trigger).coordinator.burst.lane lane =
        { o.coordinator.burst.lane lane with followUpRequested := true } := by
      rw [Observed.step, hstep]
      exact hburst
    refine ⟨?_, ?_, ?_, ?_, ?_⟩
    · rw [Observed.step, hstep]
      exact hpending.alive
    · rw [hlane]
      exact hpending.inFlight
    · rw [hlane]
    · rw [hlane]
      exact hpending.attempt
    · rw [hlane]
      exact hpending.count
  | dial =>
    rw [step_of_none (step_dial_of_active hactive) fun _ => rfl]
    exact .inr ⟨nofun, hpending⟩
  | complete completed id =>
    by_cases hid : (o.coordinator.burst.lane completed).attemptId = id
    · subst hid
      have hdone := completes_step o.coordinator completed
      by_cases hcompleted : lane = completed
      · subst hcompleted
        left
        refine ⟨by rw [hpending.attempt], ?_⟩
        obtain ⟨next, hnext⟩ := startLane_of_idle
          (l := { o.coordinator.burst.lane lane with inFlight := false, followUpRequested := false })
          rfl hpending.count o.coordinator.attemptCounter
        refine @starts_step _ _ _ next ?_
        rw [hdone.attempts, completeLane, if_pos, hnext]
        · exact List.mem_singleton_self _
        · rw [hpending.followUp, decide_eq_true hpending.count, hpending.alive]
          rfl
      · refine .inr ⟨fun hsame => hcompleted ?_, ?_⟩
        · injection hsame with hlane _
          exact hlane.symm
        have hlane : (o.step (.complete completed
            (o.coordinator.burst.lane completed).attemptId)).coordinator.burst.lane lane =
            o.coordinator.burst.lane lane := (hdone.other lane hcompleted).1
        exact ⟨hdone.alive.trans hpending.alive, hlane ▸ hpending.inFlight,
          hlane ▸ hpending.followUp, hlane ▸ hpending.attempt, hlane ▸ hpending.count⟩
    · rw [step_of_none (step_complete_of_ne hid) fun other => ?_]
      · refine .inr ⟨?_, hpending⟩
        rintro ⟨⟩
        exact hid hpending.attempt
      · rw [stillRunning]
        split
        · rename_i hsame
          subst hsame
          exact (h.lane completed).erase_of_ne hid
        · rfl
  | shutdown => exact absurd rfl hcall

theorem Pending.starts (h : Sound o) (hpending : Pending lane attempt o) (calls : List Call)
    (hshutdown : .shutdown ∉ calls) (hcomplete : .complete lane attempt ∈ calls) :
    Starts lane o (calls.foldl Observed.step o) := by
  induction calls generalizing o with
  | nil => exact absurd hcomplete List.not_mem_nil
  | cons call calls ih =>
    rw [List.mem_cons, not_or] at hshutdown
    rcases Pending.step h hpending (Ne.symm hshutdown.1) with ⟨-, hstarts⟩ | ⟨hother, hnext⟩
    · exact hstarts.foldl calls
    · rcases List.mem_cons.mp hcomplete with hcall | hlater
      · exact absurd hcall.symm hother
      · exact (ih (h.step call) hnext hshutdown.2 hlater).of_step

theorem observe_append (calls later : List Call) :
    observe (calls ++ later) = later.foldl Observed.step (observe calls) :=
  List.foldl_append

theorem alive_bothLanes (c : Coordinator) (b : BurstState) (f : LaneBurst → ℕ → LaneOutcome) :
    (c.bothLanes b f).1.alive = c.alive := rfl

theorem alive_triggerExternal (c : Coordinator) : c.triggerExternal.1.alive = c.alive := by
  rw [Coordinator.triggerExternal]
  split
  · rfl
  · split <;> exact alive_bothLanes _ _ _

/-- Only a shutdown ends the coordinator. -/
theorem alive_step (o : Observed) (hcall : call ≠ .shutdown) :
    (o.step call).coordinator.alive = o.coordinator.alive := by
  cases call with
  | trigger => exact alive_triggerExternal _
  | dial =>
    by_cases hactive : o.coordinator.burst.active = true
    · rw [step_of_none (step_dial_of_active hactive) fun _ => rfl]
    · rw [Observed.step, step_dial_of_not_active hactive]
      exact alive_triggerExternal _
  | complete lane attempt =>
    by_cases hattempt : (o.coordinator.burst.lane lane).attemptId = attempt
    · subst hattempt
      exact (completes_step o.coordinator lane).alive
    · rw [Observed.step, step_complete_of_ne hattempt]
  | shutdown => exact absurd rfl hcall

theorem alive_observe {calls : List Call} (h : .shutdown ∉ calls) :
    (observe calls).coordinator.alive = true :=
  List.foldlRecOn (motive := fun o => o.coordinator.alive = true) calls Observed.step rfl
    fun o halive _ hcall => (alive_step o (ne_of_mem_of_not_mem hcall h)).trans halive

/-- What a shutdown leaves of a coordinator. -/
structure ShutDown (o : Observed) (passes : List Pass) : Prop where
  dead : o.coordinator.alive = false
  passes : o.passes = passes

/-- A coordinator that is shut down starts nothing. -/
theorem ShutDown.step {passes : List Pass} (h : ShutDown o passes) (call : Call) :
    ShutDown (o.step call) passes := by
  have htrigger : o.coordinator.triggerExternal = (o.coordinator, .none) :=
    if_pos (by rw [h.dead]; rfl)
  have hnone (hstep : o.coordinator.step call = (o.coordinator, .none)) :
      ShutDown (o.step call) passes := by
    refine ⟨?_, ?_⟩
    · rw [Observed.step, hstep]
      exact h.dead
    · rw [Observed.step, hstep]
      exact (List.append_nil _).trans h.passes
  cases call with
  | trigger => exact hnone htrigger
  | dial =>
    by_cases hactive : o.coordinator.burst.active = true
    · exact hnone (step_dial_of_active hactive)
    · exact hnone ((step_dial_of_not_active hactive).trans htrigger)
  | complete lane attempt =>
    by_cases hattempt : (o.coordinator.burst.lane lane).attemptId = attempt
    · subst hattempt
      have hdone := completes_step o.coordinator lane
      have hspawned : ∀ other, attemptsOf other (o.coordinator.step
          (.complete lane (o.coordinator.burst.lane lane).attemptId)).2.spawned = [] := by
        intro other
        by_cases hother : other = lane
        · rw [hother, hdone.attempts, h.dead, attempt_completeLane_of_not_alive]
          rfl
        · exact (hdone.other other hother).2
      refine ⟨hdone.alive.trans h.dead, ?_⟩
      have hjobs : (o.coordinator.step
          (.complete lane (o.coordinator.burst.lane lane).attemptId)).2.spawned = [] := by
        refine List.eq_nil_iff_forall_not_mem.mpr fun job hjob => ?_
        have hin := hspawned job.lane
        rw [attemptsOf, List.map_eq_nil_iff, List.filter_eq_nil_iff] at hin
        exact hin job hjob (decide_eq_true rfl)
      rw [Observed.step, hjobs]
      exact (List.append_nil _).trans h.passes
    · exact hnone (step_complete_of_ne hattempt)
  | shutdown => exact ⟨rfl, (List.append_nil _).trans h.passes⟩

theorem passes_after_shutdown (before later : List Call) :
    (observe (before ++ .shutdown :: later)).passes = (observe before).passes := by
  have hended : ShutDown ((observe before).step .shutdown) (observe before).passes :=
    ⟨rfl, List.append_nil _⟩
  rw [observe_append, List.foldl_cons]
  exact (List.foldlRecOn (motive := fun o => ShutDown o (observe before).passes) later Observed.step
    hended fun _ h call _ => h.step call).passes

/-- Bursts are bounded and lose no trigger: whatever is called, in whatever order,
* a lane starts at most two passes in a burst and runs at most one at a time;
* the burst is active exactly while a lane runs a pass;
* a trigger before any shutdown is followed by a pass of each lane that has one left in the burst,
  once the pass that the lane runs has completed;
* a dial notice during a burst starts nothing, and nothing starts after a shutdown. -/
theorem bursts_bounded_without_loss (calls : List Call) :
    (∀ lane n, ((observe calls).passesIn lane n).length ≤ 2) ∧
    (∀ lane, ((observe calls).running lane).length ≤ 1) ∧
    ((observe calls).coordinator.burst.active = true ↔
      ∃ lane, (observe calls).running lane ≠ []) ∧
    (∀ lane later, .shutdown ∉ calls ++ later →
      ¬ ((observe calls).coordinator.burst.active = true ∧
        ((observe calls).passesIn lane (observe calls).bursts).length = 2) →
      (∀ attempt ∈ (observe calls).running lane, .complete lane attempt ∈ later) →
      Starts lane (observe calls) (observe (calls ++ .trigger :: later))) ∧
    ((observe calls).coordinator.burst.active = true →
      (observe (calls ++ [.dial])).passes = (observe calls).passes) ∧
    ∀ later, (observe (calls ++ .shutdown :: later)).passes = (observe calls).passes := by
  have hsound := sound_observe calls
  refine ⟨hsound.bound, fun lane => (hsound.lane lane).length_running_le, ?_, ?_, ?_,
    passes_after_shutdown calls⟩
  · rw [hsound.active]
    exact exists_congr fun lane => (hsound.lane lane).running_ne_nil.symm
  · intro lane later hshutdown hleft hcomplete
    rw [List.mem_append, not_or] at hshutdown
    rw [observe_append, List.foldl_cons]
    rcases hsound.starts_or_pending (alive_observe hshutdown.1) hleft with
      hstarts | ⟨attempt, hrunning, hpending⟩
    · exact hstarts.foldl later
    · exact ((hpending.starts (hsound.step .trigger) later hshutdown.2
        (hcomplete attempt hrunning))).of_step
  · intro hactive
    rw [observe_append, List.foldl_cons, List.foldl_nil]
    exact congrArg Observed.passes (step_of_none (step_dial_of_active hactive) fun _ => rfl)

end Trigger

end SolstoneTmux.PostConnect
