import SolstoneTmux.Sync.Deferral
import SolstoneTmux.Sync.Scheduler

/-!
# Runs of the sync scheduler

What holds of every state that the loop reaches, whatever happens between its steps:

* `Hears`: a segment that was closed is covered by a finished sweep, or a sweep is requested, or the
  flag that says so is on its way. A loop that rests has missed no close (`no_close_missed`).
* `Backs`: a deadline is set exactly while a failure is waited out, and its delay is that of the place
  of the failure in the row of failures (`requests_paced`).
-/

namespace SolstoneTmux.SyncScheduler

open Foundations

variable {s s' : SyncScheduler}

/-! ## Steps of a sweep -/

/-- A step inside a sweep changes nothing of the loop, and goes on with the sweep or ends it. -/
structure Within (seen : ℕ) (s t : SyncScheduler) : Prop where
  now : t.now = s.now
  wake : t.wake = s.wake
  closes : t.closes = s.closes
  covered : t.covered = s.covered
  periodic : t.periodic = s.periodic
  place : (∃ sweep, t.place = .sweeping seen sweep) ∨ (∃ summary, t.place = .ended seen summary) ∨
    t.place = .returned

section Within

variable {seen : ℕ} {pass : UploadPass}

theorem within_endSweep (s : SyncScheduler) (guard : Bool) (summary : SyncSweepSummary)
    (error : SyncOperationError) : Within seen s (s.endSweep seen guard summary error) :=
  ⟨rfl, rfl, rfl, rfl, rfl, .inr (.inl ⟨_, rfl⟩)⟩

theorem within_cancelledSweep (s : SyncScheduler) (candidates : List SegmentCandidate)
    (guard : Bool) : Within seen s ((s.forget candidates).cancelledSweep guard) :=
  ⟨rfl, rfl, rfl, rfl, rfl, .inr (.inr rfl)⟩

theorem within_nextUpload (s : SyncScheduler) (pass : UploadPass) :
    Within seen s (s.nextUpload seen pass) := by
  unfold nextUpload
  dsimp only
  split <;> exact ⟨rfl, rfl, rfl, rfl, rfl, .inl ⟨_, rfl⟩⟩

/-- After an upload comes the next, or the end of the batch. -/
theorem nextUpload_cases (s : SyncScheduler) (seen : ℕ) (pass : UploadPass) :
    s.nextUpload seen pass =
        { s with place := .sweeping seen (.batchEnd { pass with inBatch := pass.inBatch + 1 }) } ∨
      pass.dues ≠ [] ∧ s.nextUpload seen pass =
        { s with
          place := .sweeping seen (.uploading { pass with inBatch := pass.inBatch + 1 }) } := by
  unfold nextUpload
  dsimp only
  split
  · exact .inl rfl
  · rename_i hnot
    rw [not_or, List.isEmpty_iff] at hnot
    exact .inr ⟨hnot.1, rfl⟩

/-- A step after one that changes only what a sweep may. -/
theorem Within.of_eq {t u : SyncScheduler} (h : Within seen t u) (now : t.now = s.now)
    (wake : t.wake = s.wake) (closes : t.closes = s.closes) (covered : t.covered = s.covered)
    (periodic : t.periodic = s.periodic) : Within seen s u :=
  ⟨h.now.trans now, h.wake.trans wake, h.closes.trans closes, h.covered.trans covered,
    h.periodic.trans periodic, h.place⟩

theorem within_acknowledged (s : SyncScheduler) (pass : UploadPass) (receipt ackWritten : Bool) :
    Within seen s (s.acknowledged seen pass receipt ackWritten) := by
  unfold acknowledged
  split
  · exact (within_nextUpload _ _).of_eq rfl rfl rfl rfl rfl
  · exact within_nextUpload _ _

theorem within_uploaded (s : SyncScheduler) (pass : UploadPass) (due : Due)
    (reply : Except SyncOperationError UploadResult) (turn : UploadTurn) :
    Within seen s (s.uploaded seen pass due reply turn) := by
  unfold uploaded
  dsimp only
  cases reply with
  | ok upload =>
    dsimp only
    split
    · exact (within_acknowledged _ _ _ _).of_eq rfl rfl rfl rfl rfl
    · exact (within_nextUpload _ _).of_eq rfl rfl rfl rfl rfl
    · exact (within_nextUpload _ _).of_eq rfl rfl rfl rfl rfl
  | error error =>
    cases error with
    | retainCandidate diagnostic answer => exact (within_nextUpload _ _).of_eq rfl rfl rfl rfl rfl
    | segmentRemoved => exact (within_acknowledged _ _ _ _).of_eq rfl rfl rfl rfl rfl
    | endSweep failure => exact within_endSweep _ _ _ _
    | endSweepDiagnostic failure code => exact within_endSweep _ _ _ _

/-- The second pass after an upload that was answered. -/
structure Continues (facts facts' : SyncFacts) (pass pass' : UploadPass) : Prop where
  now : pass'.now = pass.now
  dues : pass'.dues = pass.dues
  inBatch : pass'.inBatch = pass.inBatch
  working : pass'.working = pass.working
  contacted : pass'.summary.contacted = true
  failure : pass'.summary.failure = pass.summary.failure
  progress : facts'.syncInProgress = facts.syncInProgress
  pending : facts.pendingSegments ≤ facts'.pendingSegments + 1

theorem acknowledged_cases (s : SyncScheduler) (seen : ℕ) {pass : UploadPass}
    (hcontacted : pass.summary.contacted = true) (receipt ackWritten : Bool) :
    ∃ facts pass', s.acknowledged seen pass receipt ackWritten =
        { s with facts := facts }.nextUpload seen pass' ∧ Continues s.facts facts pass pass' := by
  have hless : s.facts.pendingSegments ≤ s.facts.pendingSegments - 1 + 1 := by omega
  unfold acknowledged
  cases ackWritten with
  | true =>
    cases receipt with
    | true => exact ⟨_, _, rfl, rfl, rfl, rfl, rfl, hcontacted, rfl, rfl, hless⟩
    | false => exact ⟨_, _, rfl, rfl, rfl, rfl, rfl, hcontacted, rfl, rfl, hless⟩
  | false => exact ⟨s.facts, _, rfl, rfl, rfl, rfl, rfl, hcontacted, rfl, rfl, Nat.le_succ _⟩

/-- A result of an upload does not end a sweep. -/
theorem exists_upload_result (state : SyncState) (now : ℤ) (due : Due) (upload : UploadResult)
    (turn : UploadTurn) :
    ∃ after,
      state.upload now due { turn with answer := replyAnswer (.ok upload) } = some after := by
  unfold SyncState.upload
  simp only [replyAnswer]
  split <;> exact ⟨_, rfl⟩

/-- An answer ends the sweep, or the pass goes on with what the answer does to the ledger. -/
theorem uploaded_cases (s : SyncScheduler) (seen : ℕ) (pass : UploadPass) (due : Due)
    (reply : Except SyncOperationError UploadResult) (turn : UploadTurn) :
    (∃ error, s.uploaded seen pass due reply turn =
      s.endSweep seen pass.working pass.summary error) ∨
    ∃ state facts pass', s.uploaded seen pass due reply turn =
        { s.answered with state := state, facts := facts }.nextUpload seen pass' ∧
      s.state.upload pass.now due { turn with answer := replyAnswer reply } = some state ∧
      Continues s.facts facts pass pass' := by
  let contacted : UploadPass := { pass with summary := { pass.summary with contacted := true } }
  have hacknowledged : ∀ (state : SyncState) (receipt : Bool),
      s.state.upload pass.now due { turn with answer := replyAnswer reply } = some state →
      s.uploaded seen pass due reply turn =
        ({ s.answered with state := state } : SyncScheduler).acknowledged seen contacted receipt
          turn.ackWritten →
      ∃ state facts pass', s.uploaded seen pass due reply turn =
          { s.answered with state := state, facts := facts }.nextUpload seen pass' ∧
        s.state.upload pass.now due { turn with answer := replyAnswer reply } = some state ∧
        Continues s.facts facts pass pass' := by
    intro state receipt hstate huploaded
    obtain ⟨facts, pass', heq, h⟩ := acknowledged_cases { s.answered with state := state } seen
      (show contacted.summary.contacted = true from rfl) receipt turn.ackWritten
    exact ⟨state, facts, pass', huploaded.trans heq, hstate,
      h.now, h.dues, h.inBatch, h.working, h.contacted, h.failure, h.progress, h.pending⟩
  cases reply with
  | ok upload =>
    obtain ⟨state, hstate⟩ := exists_upload_result s.state pass.now due upload turn
    have hafter : (s.state.upload pass.now due
        { turn with answer := replyAnswer (.ok upload) }).getD s.state = state := by
      rw [hstate]
      rfl
    have hunanswered : s.uploaded seen pass due (.ok upload) turn =
          ({ s.answered with state := state, facts := s.facts } : SyncScheduler).nextUpload seen
            contacted →
        ∃ state facts pass', s.uploaded seen pass due (.ok upload) turn =
            { s.answered with state := state, facts := facts }.nextUpload seen pass' ∧
          s.state.upload pass.now due { turn with answer := replyAnswer (.ok upload) } =
            some state ∧ Continues s.facts facts pass pass' := fun heq =>
      ⟨state, s.facts, contacted, heq, hstate, rfl, rfl, rfl, rfl, rfl, rfl, rfl, Nat.le_succ _⟩
    cases hreceipt : assessReceipt upload due.files with
    | valid files =>
      refine .inr (hacknowledged state true hstate ?_)
      unfold uploaded
      simp only [hreceipt, hafter]
      rfl
    | invalid fault =>
      refine .inr (hunanswered ?_)
      unfold uploaded
      simp only [hreceipt, hafter]
      rfl
    | absent =>
      refine .inr (hunanswered ?_)
      unfold uploaded
      simp only [hreceipt, hafter]
      rfl
  | error error =>
    cases error with
    | retainCandidate diagnostic answer =>
      exact .inr ⟨_, s.facts, _, rfl, rfl, rfl, rfl, rfl, rfl, rfl, rfl, rfl, Nat.le_succ _⟩
    | segmentRemoved => exact .inr (hacknowledged _ false rfl rfl)
    | endSweep failure => exact .inl ⟨.endSweep failure, rfl⟩
    | endSweepDiagnostic failure code => exact .inl ⟨.endSweepDiagnostic failure code, rfl⟩

theorem within_checked (s : SyncScheduler) (summary : SyncSweepSummary)
    (reply : Except SyncOperationError Unit) : Within seen s (s.checked seen summary reply) := by
  cases reply with
  | ok _ => exact ⟨rfl, rfl, rfl, rfl, rfl, .inr (.inl ⟨_, rfl⟩)⟩
  | error error => exact within_endSweep _ _ _ _

theorem within_firstPass (s : SyncScheduler) (visits : List Visit) :
    Within seen s (s.firstPass seen visits) := by
  unfold firstPass
  dsimp only
  split <;> exact ⟨rfl, rfl, rfl, rfl, rfl, .inl ⟨_, rfl⟩⟩

theorem within_poll {sweep : SweepPlace} (hplace : s.place = .sweeping seen sweep) :
    Within seen s s.poll := by
  have stays : Within seen s s := ⟨rfl, rfl, rfl, rfl, rfl, .inl ⟨sweep, hplace⟩⟩
  unfold poll
  rw [hplace]
  cases sweep with
  | uploading pass =>
    dsimp only
    split
    · exact ⟨rfl, rfl, rfl, rfl, rfl, .inr (.inr rfl)⟩
    · split
      · exact stays
      · exact ⟨rfl, rfl, rfl, rfl, rfl, .inl ⟨_, rfl⟩⟩
  | batchEnd pass =>
    dsimp only
    split
    · exact ⟨rfl, rfl, rfl, rfl, rfl, .inr (.inl ⟨_, rfl⟩)⟩
    · split
      · exact ⟨rfl, rfl, rfl, rfl, rfl, .inr (.inr rfl)⟩
      · exact ⟨rfl, rfl, rfl, rfl, rfl, .inl ⟨_, rfl⟩⟩
  | _ => exact stays

/-- A step of the loop, of a sweep, or the end of local removals in a back-off. -/
theorem Own.loop_or_sweep (h : Own s s') :
    s' = s.poll ∨ (∃ seen sweep, s.place = .sweeping seen sweep) ∨
      ∃ deadline candidates, s.place = .finishing deadline ∧
        (s' = (s.forget candidates).locallyFinished deadline ∨
          s.shutdown = true ∧ s' = { s.forget candidates with place := .returned }) := by
  cases h with
  | poll => exact .inl rfl
  | finished deadline candidates hplace => exact .inr (.inr ⟨_, _, hplace, .inl rfl⟩)
  | stopped deadline candidates hplace hshutdown =>
    exact .inr (.inr ⟨_, _, hplace, .inr ⟨hshutdown, rfl⟩⟩)
  | removed seen candidates hplace => exact .inr (.inl ⟨_, _, hplace⟩)
  | scanFailed seen hplace => exact .inr (.inl ⟨_, _, hplace⟩)
  | looked seen visits hnodup hplace => exact .inr (.inl ⟨_, _, hplace⟩)
  | uploaded seen pass due reply turn hplace => exact .inr (.inl ⟨_, _, hplace⟩)
  | checked seen summary reply hplace => exact .inr (.inl ⟨_, _, hplace⟩)
  | cancelled seen sweep candidates hplace => exact .inr (.inl ⟨_, _, hplace⟩)

/-- Every step inside a sweep. -/
theorem Own.within {sweep : SweepPlace} (h : Own s s') (hplace : s.place = .sweeping seen sweep) :
    Within seen s s' := by
  have same : ∀ {n : ℕ} {other : SweepPlace}, s.place = .sweeping n other → n = seen := by
    intro n other hother
    rw [hplace] at hother
    injection hother with hseen
    exact hseen.symm
  cases h with
  | poll => exact within_poll hplace
  | finished deadline candidates hother => rw [hplace] at hother; cases hother
  | stopped deadline candidates hother => rw [hplace] at hother; cases hother
  | removed n candidates hother =>
    exact same hother ▸ ⟨rfl, rfl, rfl, rfl, rfl, .inl ⟨_, rfl⟩⟩
  | scanFailed n hother => exact same hother ▸ (within_endSweep _ _ _ _).of_eq rfl rfl rfl rfl rfl
  | looked n visits hnodup hother => exact same hother ▸ within_firstPass _ _
  | uploaded n pass due reply turn hother => exact same hother ▸ within_uploaded _ _ _ _ _
  | checked n summary reply hother => exact same hother ▸ within_checked _ _ _
  | cancelled n other candidates hother => exact within_cancelledSweep _ _ _

end Within

/-! ## Closed segments -/

/-- The closes after the first `n` have raised the flag. -/
def Unseen (s : SyncScheduler) (n : ℕ) : Prop := n < s.closes → s.wake.flag = true

/-- The consumer of the flag, at a place of the loop. -/
def PhaseAt : LoopPlace → WaitPhase → Prop
  | .waiting _ .begun _, phase => phase = .away ∨ phase = .waiting
  | .waiting _ .listening _, _ => True
  | .waiting _ .unready _, phase => phase = .waiting
  | .waiting _ .parked _, phase => phase = .waiting
  | _, phase => phase = .away

/-- The closes that no finished sweep covers: the flag tells of them, or a sweep is requested, or a
sweep that began after them is under way. -/
def Owed (s : SyncScheduler) : LoopPlace → Prop
  | .top => s.requested = true ∨ s.Unseen s.covered
  | .finishing _ => s.requested = true
  | .waiting (.backingOff _) _ _ => s.requested = true
  | .waiting .resting _ _ => s.Unseen s.covered
  | .sweeping seen _ => seen ≤ s.closes ∧ s.Unseen seen
  | .ended seen _ => seen ≤ s.closes ∧ s.Unseen seen
  | .settling seen _ => seen ≤ s.closes ∧ s.Unseen seen
  | .returned => True
  | .aborted => True

/-- The invariant of the wake-up. -/
structure Hears (s : SyncScheduler) : Prop where
  wake : s.wake.Sound
  phase : PhaseAt s.place s.wake.phase
  covered : s.covered ≤ s.closes
  owed : s.Owed s.place

/-- The end of a wait. -/
theorem Hears.ready {wait : Wait} {branch : Branch} (hwake : s.wake.Sound)
    (hphase : s.wake.phase = .away ∨ s.wake.phase = .waiting) (hcovered : s.covered ≤ s.closes)
    (hwait : wait = .resting ∨ s.requested = true) : (s.ready wait branch).Hears := by
  have hleft := hwake.leave hphase
  cases wait with
  | resting =>
    cases branch <;> exact ⟨hleft, Flagged.phase_leave _, hcovered, .inl rfl⟩
  | backingOff deadline =>
    have hrequested : s.requested = true := hwait.resolve_left nofun
    cases branch <;> exact ⟨hleft, Flagged.phase_leave _, hcovered, .inl hrequested⟩

/-- A step inside a sweep. -/
theorem Hears.within (h : s.Hears) {seen : ℕ} {sweep : SweepPlace}
    (hplace : s.place = .sweeping seen sweep) (hwithin : Within seen s s') : s'.Hears := by
  have hphase := h.phase
  have howed := h.owed
  rw [hplace] at hphase howed
  have hseen : seen ≤ s'.closes ∧ s'.Unseen seen := by
    rw [Unseen, hwithin.closes, hwithin.wake]
    exact howed
  refine ⟨hwithin.wake ▸ h.wake, ?_, by rw [hwithin.closes, hwithin.covered]; exact h.covered, ?_⟩
  · rw [hwithin.wake]
    rcases hwithin.place with ⟨next, hnext⟩ | ⟨summary, hnext⟩ | hnext <;> rw [hnext] <;>
      exact hphase
  · rcases hwithin.place with ⟨next, hnext⟩ | ⟨summary, hnext⟩ | hnext <;> rw [hnext]
    · exact hseen
    · exact hseen
    · trivial

/-- A request or a rest. -/
theorem Hears.requested_or_resting (h : s.Hears) {wait : Wait} {round : WaitRound}
    {watch : Option ℕ} (hplace : s.place = .waiting wait round watch) :
    wait = .resting ∨ s.requested = true := by
  have howed := h.owed
  rw [hplace] at howed
  cases wait with
  | resting => exact .inl rfl
  | backingOff deadline => exact .inr howed

/-- In a wait, a step that goes on with the wait. -/
theorem Hears.goOn (h : s.Hears) {wait : Wait} {round next : WaitRound} {watch watch' : Option ℕ}
    (hplace : s.place = .waiting wait round watch) (hs : s'.place = .waiting wait next watch')
    (hwake : s'.wake.Sound) (hphase : PhaseAt (.waiting wait next watch') s'.wake.phase)
    (hflag : s'.wake.flag = s.wake.flag) (hcloses : s'.closes = s.closes)
    (hcovered : s'.covered = s.covered) (hrequested : s'.requested = s.requested) : s'.Hears := by
  have howed := h.owed
  rw [hplace] at howed
  refine ⟨hwake, hs ▸ hphase, by rw [hcloses, hcovered]; exact h.covered, ?_⟩
  rw [hs]
  cases wait with
  | resting =>
    show s'.covered < s'.closes → s'.wake.flag = true
    rw [hcovered, hcloses, hflag]
    exact howed
  | backingOff deadline =>
    show s'.requested = true
    rw [hrequested]
    exact howed

/-- A poll of the flag. -/
theorem Hears.listen (h : s.Hears) {wait : Wait} {watch : Option ℕ}
    (hplace : s.place = .waiting wait .listening watch) : (s.listen wait watch).Hears := by
  have hwait := h.requested_or_resting hplace
  have hadvance := h.wake.advance
  unfold SyncScheduler.listen
  dsimp only
  split
  · rename_i hclosed
    exact Hears.ready hadvance (.inl (Flagged.phase_of_advance hclosed)) h.covered hwait
  · rename_i hclosed
    have hflag := Flagged.flag_of_advance (Bool.not_eq_true _ ▸ hclosed)
    split
    · rename_i hphase
      exact h.goOn hplace rfl hadvance hphase hflag rfl rfl rfl
    · have hstays : ({ s with wake := (Flagged.advance s.wake).2 } : SyncScheduler).place =
          .waiting wait .listening watch := hplace
      exact h.goOn hplace hstays hadvance trivial hflag rfl rfl rfl

/-- A poll of the sleep watch. -/
theorem Hears.watchSleep (h : s.Hears) {wait : Wait} {watch : Option ℕ}
    (hplace : s.place = .waiting wait .unready watch) : (s.watchSleep wait watch).Hears := by
  have hphase := h.phase
  rw [hplace] at hphase
  unfold SyncScheduler.watchSleep
  split
  · exact h.goOn hplace rfl h.wake hphase rfl rfl rfl rfl
  · split
    · exact Hears.ready h.wake (.inr hphase) h.covered (h.requested_or_resting hplace)
    · exact h.goOn hplace rfl h.wake hphase rfl rfl rfl rfl

/-- A poll of the timers. -/
theorem Hears.expire (h : s.Hears) {wait : Wait} {watch : Option ℕ}
    (hplace : s.place = .waiting wait .unready watch) : (s.expire wait watch).Hears := by
  have hphase := h.phase
  rw [hplace] at hphase
  have hwait := h.requested_or_resting hplace
  unfold SyncScheduler.expire
  split
  · exact Hears.ready h.wake (.inr hphase) h.covered hwait
  · cases wait with
    | resting => exact h.watchSleep hplace
    | backingOff deadline =>
      dsimp only
      split
      · exact Hears.ready h.wake (.inr hphase) h.covered hwait
      · exact h.watchSleep hplace

/-- The end of a sweep. -/
theorem Hears.settle (h : s.Hears) {seen : ℕ} {summary : SyncSweepSummary}
    (hplace : s.place = .settling seen summary) : (s.settle seen summary).Hears := by
  have hphase := h.phase
  have howed := h.owed
  rw [hplace] at hphase howed
  refine ⟨h.wake.take, hphase, ?_, ?_⟩
  · show (if summary.failure.isSome then s.covered else seen) ≤ s.closes
    split
    · exact h.covered
    · exact howed.1
  · show (summary.failure.isSome || s.wake.flag) = true ∨
      ((if summary.failure.isSome then s.covered else seen) < s.closes → false = true)
    cases hfailure : summary.failure.isSome with
    | true => exact .inl rfl
    | false =>
      cases hflag : s.wake.flag with
      | true => exact .inl rfl
      | false =>
        refine .inr fun hseen => ?_
        have hraised := howed.2 hseen
        rw [hflag] at hraised
        exact hraised

theorem Hears.poll (h : s.Hears) : s.poll.Hears := by
  have hphase := h.phase
  have howed := h.owed
  cases hplace : s.place with
  | top =>
    rw [hplace] at hphase howed
    unfold SyncScheduler.poll
    rw [hplace]
    dsimp only
    split
    · rename_i hrequested
      split
      · exact ⟨h.wake, hphase, h.covered, hrequested⟩
      · exact ⟨h.wake, hphase, h.covered, Nat.le_refl _, fun hlt => absurd hlt (Nat.lt_irrefl _)⟩
    · rename_i hrequested
      exact ⟨h.wake, .inl hphase, h.covered, howed.resolve_left hrequested⟩
  | finishing deadline => rwa [SyncScheduler.poll, hplace]
  | waiting wait round watch =>
    rw [hplace] at hphase
    cases round with
    | begun =>
      unfold SyncScheduler.poll
      rw [hplace]
      dsimp only
      split
      · exact ⟨h.wake.leave hphase, Flagged.phase_leave _, h.covered, trivial⟩
      · exact h.goOn hplace rfl h.wake trivial rfl rfl rfl rfl
    | listening =>
      rw [SyncScheduler.poll, hplace]
      exact h.listen hplace
    | unready =>
      rw [SyncScheduler.poll, hplace]
      exact h.expire hplace
    | parked =>
      rw [SyncScheduler.poll, hplace]
      exact h.goOn hplace rfl h.wake (.inr hphase) rfl rfl rfl rfl
  | sweeping seen sweep => exact h.within hplace (within_poll hplace)
  | ended seen summary =>
    rw [hplace] at hphase howed
    rw [SyncScheduler.poll, hplace]
    exact ⟨h.wake, hphase, h.covered, howed⟩
  | settling seen summary =>
    rw [SyncScheduler.poll, hplace]
    exact h.settle hplace
  | returned => rwa [SyncScheduler.poll, hplace]
  | aborted => rwa [SyncScheduler.poll, hplace]

theorem Hears.own (h : s.Hears) (hstep : Own s s') : s'.Hears := by
  rcases hstep.loop_or_sweep with rfl | ⟨seen, sweep, hplace⟩ |
    ⟨deadline, candidates, hplace, rfl | ⟨hshutdown, rfl⟩⟩
  · exact h.poll
  · exact h.within hplace (hstep.within hplace)
  · have hphase := h.phase
    have howed := h.owed
    rw [hplace] at hphase howed
    unfold locallyFinished
    split
    · exact ⟨h.wake, hphase, h.covered, Nat.le_refl _, fun hlt => absurd hlt (Nat.lt_irrefl _)⟩
    · exact ⟨h.wake, .inl hphase, h.covered, howed⟩
  · have hphase := h.phase
    rw [hplace] at hphase
    exact ⟨h.wake, hphase, h.covered, trivial⟩

theorem Hears.outside (h : s.Hears) (hstep : Outside s s') : s'.Hears := by
  cases hstep with
  | passed elapsed wall => exact ⟨h.wake, h.phase, h.covered, h.owed⟩
  | shutdown => exact ⟨h.wake, h.phase, h.covered, h.owed⟩
  | closed close =>
    cases close with
    | removedEmpty => exact ⟨h.wake, h.phase, h.covered, h.owed⟩
    | finalized name =>
      have hphase : PhaseAt s.place (Flagged.raise s.wake).phase := h.phase
      have howed := h.owed
      refine ⟨h.wake.raise, hphase, Nat.le_succ_of_le h.covered, ?_⟩
      show Owed _ s.place
      cases hplace : s.place with
      | top => exact .inr fun _ => rfl
      | finishing deadline => rwa [hplace] at howed
      | waiting wait round watch =>
        cases wait with
        | backingOff deadline => rwa [hplace] at howed
        | resting => exact fun _ => rfl
      | sweeping seen sweep =>
        rw [hplace] at howed
        exact ⟨Nat.le_succ_of_le howed.1, fun _ => rfl⟩
      | ended seen summary =>
        rw [hplace] at howed
        exact ⟨Nat.le_succ_of_le howed.1, fun _ => rfl⟩
      | settling seen summary =>
        rw [hplace] at howed
        exact ⟨Nat.le_succ_of_le howed.1, fun _ => rfl⟩
      | returned => trivial
      | aborted => trivial
  | signalled hraising => exact ⟨h.wake.signal, h.phase, h.covered, h.owed⟩
  | aborted hphase hplace =>
    exact ⟨h.wake.leave hphase, Flagged.phase_leave _, h.covered, trivial⟩

/-- In every state that is reached. -/
theorem Reached.hears {identity : JournalIdentity} {ledger : SegmentCandidate → Option StateRecord}
    (h : Reached identity ledger s) : s.Hears := by
  induction h with
  | start now wall shutdown wake healthWorks closes hwake hphase =>
    exact ⟨hwake, hphase, Nat.zero_le _, .inl rfl⟩
  | step _ hstep ih => exact hstep.elim ih.own ih.outside

/-! ## Requests to the journal -/

/-- The failures in a row, since the last answer; the newest event is the first. -/
def failuresInARow : List (ℕ × SyncEvent) → ℕ
  | [] => 0
  | (_, .answered) :: _ => 0
  | (_, .failed) :: events => failuresInARow events + 1
  | _ :: events => failuresInARow events

/-- The delay after a failure that follows a number of failures in a row. -/
def delayAfter : ℕ → ℕ
  | 0 => 5 * second
  | 1 => 30 * second
  | 2 => 120 * second
  | _ => 300 * second

/-- Before this time no request begins: a failure is followed by its delay, until the journal
answers or the machine wakes. -/
def notBefore : List (ℕ × SyncEvent) → ℕ
  | [] => 0
  | (t, .failed) :: events => t + delayAfter (failuresInARow events)
  | (_, .asked) :: events => notBefore events
  | _ => 0

/-- No request began too early. -/
def Paced : List (ℕ × SyncEvent) → Prop
  | [] => True
  | (t, .asked) :: events => notBefore events ≤ t ∧ Paced events
  | _ :: events => Paced events

/-- The index of a delay counts failures in a row. -/
def Counts (backoff : Backoff) (failures : ℕ) : Prop := backoff.nextDelay.val = min failures 3

theorem Counts.failedOperation {backoff : Backoff} {failures : ℕ} (h : Counts backoff failures)
    (now : ℕ) : Counts (backoff.failedOperation now) (failures + 1) := by
  show min (backoff.nextDelay.val + 1) 3 = min (failures + 1) 3
  rw [h]
  omega

theorem Counts.retryDelays {backoff : Backoff} {failures : ℕ} (h : Counts backoff failures) :
    SolstoneTmux.retryDelays backoff.nextDelay = delayAfter failures := by
  have hindex : ∀ n : Fin 4, backoff.nextDelay.val = n.val → backoff.nextDelay = n :=
    fun n hn => Fin.ext hn
  rcases failures with _ | _ | _ | failures
  · rw [hindex 0 h, SolstoneTmux.retryDelays, delayAfter]
  · rw [hindex 1 h, SolstoneTmux.retryDelays, delayAfter]
  · rw [hindex 2 h, SolstoneTmux.retryDelays, delayAfter]
  · rw [hindex 3 (h.trans (by show min _ 3 = 3; omega)), SolstoneTmux.retryDelays, delayAfter]
    · omega
    · omega
    · omega

/-- The summary of a sweep so far. -/
def sweepSummary : SweepPlace → SyncSweepSummary
  | .finishing => .empty
  | .looking => .empty
  | .uploading pass => pass.summary
  | .asking pass _ => pass.summary
  | .batchEnd pass => pass.summary
  | .checking summary => summary

/-- The deadline at a place of the loop: there is one exactly while a failure is waited out. -/
def Timed (requested : Bool) (backoff : Backoff) : LoopPlace → Prop
  | .top => requested = false → backoff.deadline = none
  | .finishing deadline => backoff.deadline = some deadline
  | .waiting (.backingOff deadline) _ _ => backoff.deadline = some deadline
  | .waiting .resting _ _ => backoff.deadline = none
  | .sweeping _ sweep => backoff.deadline = none ∧ (sweepSummary sweep).failure = none
  | .ended _ summary => backoff.deadline.isSome = summary.failure.isSome
  | .settling _ summary => backoff.deadline.isSome = summary.failure.isSome
  | .returned => True
  | .aborted => True

/-- The invariant of the back-off. -/
structure Backs (s : SyncScheduler) : Prop where
  counts : Counts s.backoff (failuresInARow s.events)
  free : s.backoff.deadline = none → notBefore s.events ≤ s.now
  held : ∀ deadline, s.backoff.deadline = some deadline → notBefore s.events ≤ deadline
  paced : Paced s.events
  deadline : Timed s.requested s.backoff s.place

/-- The place changes, and nothing of the back-off. -/
theorem Backs.move (h : s.Backs) (hbackoff : s'.backoff = s.backoff)
    (hevents : s'.events = s.events) (hnow : s.now ≤ s'.now)
    (hdeadline : Timed s'.requested s'.backoff s'.place) : s'.Backs := by
  refine ⟨?_, fun hnone => ?_, ?_, ?_, hdeadline⟩
  · rw [hbackoff, hevents]
    exact h.counts
  · rw [hevents]
    exact (h.free (hbackoff ▸ hnone)).trans hnow
  · rw [hbackoff, hevents]
    exact h.held
  · rw [hevents]
    exact h.paced

/-- The deadline is reached, or the machine woke. -/
theorem Backs.lift (h : s.Backs) (hbackoff : s'.backoff = s.backoff.deadlineReached)
    (hevents : s'.events = s.events ∧ notBefore s.events ≤ s'.now ∨
      s'.events = (s.now, .woke) :: s.events)
    (hdeadline : Timed s'.requested s'.backoff s'.place) : s'.Backs := by
  have hnone : s'.backoff.deadline = none := by rw [hbackoff]; rfl
  have hsome : ∀ deadline, s'.backoff.deadline = some deadline → False := by
    intro deadline hdeadline
    rw [hnone] at hdeadline
    cases hdeadline
  rcases hevents with ⟨hevents, hnow⟩ | hevents
  · refine ⟨?_, fun _ => ?_, fun deadline hd => (hsome deadline hd).elim, ?_, hdeadline⟩
    · rw [hbackoff, hevents]
      exact h.counts
    · rw [hevents]
      exact hnow
    · rw [hevents]
      exact h.paced
  · refine ⟨?_, fun _ => ?_, fun deadline hd => (hsome deadline hd).elim, ?_, hdeadline⟩
    · rw [hbackoff, hevents]
      exact h.counts
    · rw [hevents]
      exact Nat.zero_le _
    · rw [hevents]
      exact h.paced

/-- A request begins. -/
theorem Backs.asked (h : s.Backs) (hnone : s.backoff.deadline = none)
    (hbackoff : s'.backoff = s.backoff) (hevents : s'.events = (s.now, .asked) :: s.events)
    (hnow : s'.now = s.now) (hdeadline : Timed s'.requested s'.backoff s'.place) : s'.Backs := by
  refine ⟨?_, fun _ => ?_, fun deadline hd => ?_, ?_, hdeadline⟩
  · rw [hbackoff, hevents]
    exact h.counts
  · rw [hevents, hnow]
    exact h.free hnone
  · rw [hbackoff, hnone] at hd
    cases hd
  · rw [hevents]
    exact ⟨h.free hnone, h.paced⟩

/-- A request is answered. -/
theorem Backs.answered (h : s.Backs) (hbackoff : s'.backoff = s.backoff.successfulOperation)
    (hevents : s'.events = (s.now, .answered) :: s.events)
    (hdeadline : Timed s'.requested s'.backoff s'.place) : s'.Backs := by
  refine ⟨?_, fun _ => ?_, fun deadline hd => ?_, ?_, hdeadline⟩
  · rw [hbackoff, hevents]
    rfl
  · rw [hevents]
    exact Nat.zero_le _
  · rw [hbackoff] at hd
    cases hd
  · rw [hevents]
    exact h.paced

/-- A sweep fails. -/
theorem Backs.failed (h : s.Backs) (hbackoff : s'.backoff = s.backoff.failedOperation s.now)
    (hevents : s'.events = (s.now, .failed) :: s.events)
    (hdeadline : Timed s'.requested s'.backoff s'.place) : s'.Backs := by
  refine ⟨?_, fun hnone => ?_, fun deadline hd => ?_, ?_, hdeadline⟩
  · rw [hbackoff, hevents]
    exact h.counts.failedOperation _
  · rw [hbackoff] at hnone
    cases hnone
  · rw [hbackoff] at hd
    obtain rfl := Option.some.inj hd
    rw [hevents, h.counts.retryDelays, notBefore]
  · rw [hevents]
    exact h.paced

theorem Backs.endSweep (h : s.Backs) (seen : ℕ) (guard : Bool) (summary : SyncSweepSummary)
    (error : SyncOperationError) : (s.endSweep seen guard summary error).Backs := by
  refine h.failed rfl rfl ?_
  cases error <;> rfl

/-- A step inside a sweep. -/
theorem Backs.sweep (h : s.Backs) {seen : ℕ} {sweep : SweepPlace}
    (hplace : s.place = .sweeping seen sweep) (hstep : Own s s') : s'.Backs := by
  have hdeadline := h.deadline
  rw [hplace] at hdeadline
  obtain ⟨hnone, hclean⟩ := hdeadline
  have ended : ∀ {summary : SyncSweepSummary}, summary.failure = none →
      s.backoff.deadline.isSome = summary.failure.isSome := by
    intro summary hfailure
    rw [hnone, hfailure]
    rfl
  cases hstep with
  | poll =>
    unfold SyncScheduler.poll
    rw [hplace]
    cases sweep with
    | uploading pass =>
      dsimp only
      split
      · exact h.move rfl rfl (Nat.le_refl _) trivial
      · split
        · exact h
        · exact h.asked hnone rfl rfl rfl ⟨hnone, hclean⟩
    | batchEnd pass =>
      dsimp only
      split
      · exact h.move rfl rfl (Nat.le_refl _) (ended hclean)
      · split
        · exact h.move rfl rfl (Nat.le_refl _) trivial
        · exact h.move rfl rfl (Nat.le_refl _) ⟨hnone, hclean⟩
    | _ => exact h
  | finished deadline candidates hother => rw [hplace] at hother; cases hother
  | stopped deadline candidates hother => rw [hplace] at hother; cases hother
  | removed n candidates hother => exact h.move rfl rfl (Nat.le_refl _) ⟨hnone, rfl⟩
  | scanFailed n hother => exact h.failed rfl rfl rfl
  | looked n visits hnodup hother =>
    unfold firstPass
    dsimp only
    split
    · exact h.asked hnone rfl rfl rfl ⟨hnone, rfl⟩
    · exact h.move rfl rfl (Nat.le_refl _) ⟨hnone, rfl⟩
  | uploaded n pass due reply turn hother =>
    rw [hplace] at hother
    injection hother with hseen hsweep
    subst hsweep
    rcases uploaded_cases s n pass due reply turn with ⟨error, heq⟩ |
      ⟨state, facts, pass', heq, hstate, hcontinues⟩
    · rw [heq]
      exact h.endSweep _ _ _ _
    · have hfailure : pass'.summary.failure = none := hcontinues.failure.trans hclean
      rw [heq]
      rcases nextUpload_cases { s.answered with state := state, facts := facts } n pass' with
        heq | ⟨-, heq⟩
      · rw [heq]
        exact h.answered rfl rfl ⟨rfl, hfailure⟩
      · rw [heq]
        exact h.answered rfl rfl ⟨rfl, hfailure⟩
  | checked n summary reply hother =>
    rw [hplace] at hother
    injection hother with hseen hsweep
    subst hsweep
    cases reply with
    | error error => exact h.endSweep _ _ _ _
    | ok _ =>
      refine h.answered rfl rfl ?_
      show (Backoff.successfulOperation s.backoff).deadline.isSome = summary.failure.isSome
      rw [show summary.failure = none from hclean]
      rfl
  | cancelled n other candidates hother => exact h.move rfl rfl (Nat.le_refl _) trivial

/-- The end of a wait. -/
theorem Backs.ready (h : s.Backs) {wait : Wait} {branch : Branch}
    (hwait : Timed s.requested s.backoff (.waiting wait .unready none))
    (hrequested : wait = .resting ∨ s.requested = true)
    (hbranch : branch = .deadline → s.backoff.deadline.all (· ≤ s.now)) :
    (s.ready wait branch).Backs := by
  cases wait with
  | resting =>
    cases branch with
    | slept =>
      have hbackoff : s.backoff = s.backoff.deadlineReached := by
        rw [Backoff.deadlineReached, ← show s.backoff.deadline = none from hwait]
      exact h.lift hbackoff (.inr rfl) nofun
    | _ => exact h.move rfl rfl (Nat.le_refl _) nofun
  | backingOff deadline =>
    have hsome : s.backoff.deadline = some deadline := hwait
    have hup : s.requested = true := hrequested.resolve_left nofun
    have htop : s.requested = false → s.backoff.deadline = none := by
      intro hdown
      rw [hup] at hdown
      cases hdown
    cases branch with
    | closed => exact h.move rfl rfl (Nat.le_refl _) htop
    | ticked => exact h.move rfl rfl (Nat.le_refl _) htop
    | deadline =>
      have hle := hbranch rfl
      rw [hsome] at hle
      exact h.lift rfl (.inl ⟨rfl, (h.held deadline hsome).trans (of_decide_eq_true hle)⟩)
        fun _ => rfl
    | slept => exact h.lift rfl (.inr rfl) fun _ => rfl

theorem Backs.watchSleep (h : s.Backs) {wait : Wait} {watch : Option ℕ}
    (hplace : s.place = .waiting wait .unready watch)
    (hrequested : wait = .resting ∨ s.requested = true) : (s.watchSleep wait watch).Backs := by
  have hdeadline := h.deadline
  rw [hplace] at hdeadline
  have hwait : ∀ round watch, Timed s.requested s.backoff (.waiting wait round watch) := by
    intro round watch
    cases wait <;> exact hdeadline
  unfold SyncScheduler.watchSleep
  split
  · exact h.move rfl rfl (Nat.le_refl _) (hwait _ _)
  · split
    · have hsampled : Backs { s with sleepWatch := s.clocks } :=
        h.move rfl rfl (Nat.le_refl _) h.deadline
      exact hsampled.ready (hwait _ _) hrequested nofun
    · exact h.move rfl rfl (Nat.le_refl _) (hwait _ _)

theorem Backs.listen (h : s.Backs) {wait : Wait} {watch : Option ℕ}
    (hplace : s.place = .waiting wait .listening watch)
    (hrequested : wait = .resting ∨ s.requested = true) : (s.listen wait watch).Backs := by
  have hdeadline := h.deadline
  rw [hplace] at hdeadline
  have hwait : ∀ round watch, Timed s.requested s.backoff (.waiting wait round watch) := by
    intro round watch
    cases wait <;> exact hdeadline
  have heard : Backs { s with wake := (Flagged.advance s.wake).2 } :=
    h.move rfl rfl (Nat.le_refl _) h.deadline
  unfold SyncScheduler.listen
  dsimp only
  split
  · exact heard.ready (hwait _ _) hrequested nofun
  · split
    · exact h.move rfl rfl (Nat.le_refl _) (hwait _ _)
    · exact heard

theorem Backs.tick (h : s.Backs) (periodic : ℕ) : Backs { s with periodic := periodic } :=
  h.move rfl rfl (Nat.le_refl _) h.deadline

theorem Backs.expire (h : s.Backs) {wait : Wait} {watch : Option ℕ}
    (hplace : s.place = .waiting wait .unready watch)
    (hrequested : wait = .resting ∨ s.requested = true) : (s.expire wait watch).Backs := by
  have hdeadline := h.deadline
  rw [hplace] at hdeadline
  have hwait : ∀ round watch, Timed s.requested s.backoff (.waiting wait round watch) := by
    intro round watch
    cases wait <;> exact hdeadline
  unfold SyncScheduler.expire
  split
  · exact (h.tick _).ready (hwait _ _) hrequested nofun
  · cases wait with
    | resting =>
      dsimp only
      exact h.watchSleep hplace hrequested
    | backingOff deadline =>
      dsimp only
      split
      · refine h.ready (hwait _ _) hrequested fun _ => ?_
        rw [show s.backoff.deadline = some deadline from hdeadline]
        exact decide_eq_true ‹_›
      · exact h.watchSleep hplace hrequested

theorem Backs.poll (h : s.Backs) (hears : s.Hears) : s.poll.Backs := by
  have hdeadline := h.deadline
  cases hplace : s.place with
  | top =>
    rw [hplace] at hdeadline
    unfold SyncScheduler.poll
    rw [hplace]
    dsimp only
    split
    · split
      · exact h.move rfl rfl (Nat.le_refl _) ‹_›
      · exact h.move rfl rfl (Nat.le_refl _) ⟨‹_›, rfl⟩
    · exact h.move rfl rfl (Nat.le_refl _) (hdeadline (Bool.not_eq_true _ ▸ ‹_›))
  | finishing deadline => rwa [SyncScheduler.poll, hplace]
  | waiting wait round watch =>
    rw [hplace] at hdeadline
    have hrequested := hears.requested_or_resting hplace
    have hwait : ∀ round watch, Timed s.requested s.backoff (.waiting wait round watch) := by
      intro round watch
      cases wait <;> exact hdeadline
    cases round with
    | begun =>
      unfold SyncScheduler.poll
      rw [hplace]
      dsimp only
      split
      · exact h.move rfl rfl (Nat.le_refl _) trivial
      · exact h.move rfl rfl (Nat.le_refl _) (hwait _ _)
    | listening =>
      rw [SyncScheduler.poll, hplace]
      exact h.listen hplace hrequested
    | unready =>
      rw [SyncScheduler.poll, hplace]
      exact h.expire hplace hrequested
    | parked =>
      rw [SyncScheduler.poll, hplace]
      exact h.move rfl rfl (Nat.le_refl _) (hwait _ _)
  | sweeping seen sweep => exact h.sweep hplace .poll
  | ended seen summary =>
    rw [hplace] at hdeadline
    rw [SyncScheduler.poll, hplace]
    exact h.move rfl rfl (Nat.le_refl _) hdeadline
  | settling seen summary =>
    rw [hplace] at hdeadline
    rw [SyncScheduler.poll, hplace]
    refine h.move rfl rfl (Nat.le_refl _) ?_
    show (summary.failure.isSome || s.wake.flag) = false → s.backoff.deadline = none
    intro hdown
    rw [Bool.or_eq_false_iff] at hdown
    have hnone : s.backoff.deadline.isSome = false := hdeadline.trans hdown.1
    rwa [Option.isSome_eq_false_iff, Option.isNone_iff_eq_none] at hnone
  | returned => rwa [SyncScheduler.poll, hplace]
  | aborted => rwa [SyncScheduler.poll, hplace]

theorem Backs.own (h : s.Backs) (hears : s.Hears) (hstep : Own s s') : s'.Backs := by
  rcases hstep.loop_or_sweep with rfl | ⟨seen, sweep, hplace⟩ |
    ⟨deadline, candidates, hplace, rfl | ⟨hshutdown, rfl⟩⟩
  · exact h.poll hears
  · exact h.sweep hplace hstep
  · have hdeadline := h.deadline
    rw [hplace] at hdeadline
    unfold locallyFinished
    split
    · rename_i hle
      exact h.lift rfl (.inl ⟨rfl, (h.held deadline hdeadline).trans hle⟩) ⟨rfl, rfl⟩
    · exact h.move rfl rfl (Nat.le_refl _) hdeadline
  · exact h.move rfl rfl (Nat.le_refl _) trivial

theorem Backs.outside (h : s.Backs) (hstep : Outside s s') : s'.Backs := by
  have hdeadline := h.deadline
  cases hstep with
  | passed elapsed wall => exact h.move rfl rfl (Nat.le_add_right _ _) hdeadline
  | shutdown => exact h.move rfl rfl (Nat.le_refl _) hdeadline
  | closed close => exact h.move rfl rfl (Nat.le_refl _) hdeadline
  | signalled hraising => exact h.move rfl rfl (Nat.le_refl _) hdeadline
  | aborted hphase hplace => exact h.move rfl rfl (Nat.le_refl _) trivial

section Reached

variable {identity : JournalIdentity} {ledger : SegmentCandidate → Option StateRecord}

theorem Reached.backs (h : Reached identity ledger s) : s.Backs := by
  induction h with
  | start now wall shutdown wake healthWorks closes hwake hphase =>
    exact ⟨rfl, fun _ => Nat.zero_le _, nofun, trivial, nofun⟩
  | step hreached hstep ih => exact hstep.elim (ih.own hreached.hears) ih.outside

/-- **No request begins too early**: after a failure the scheduler asks nothing of the journal
before the delay of its place in the row of failures is over, unless the machine woke. -/
theorem requests_paced (h : Reached identity ledger s) : Paced s.events := h.backs.paced

/-- A number of polls. -/
theorem Reached.polls (h : Reached identity ledger s) (n : ℕ) :
    Reached identity ledger (SyncScheduler.poll^[n] s) := by
  induction n generalizing s with
  | zero => exact h
  | succ n ih => exact ih (h.step (.inl .poll))

end Reached

/-- A scheduler that has just started. -/
def someScheduler : SyncScheduler :=
  start soleJournal (fun _ => none) 0 0 false .initial (fun _ => true) 0

theorem reached_someScheduler : Reached soleJournal (fun _ => none) someScheduler :=
  .start 0 0 false _ _ 0 Flagged.sound_initial rfl

/-- A loop that begins a sweep, as far as its first request. -/
def beginSweep (s : SyncScheduler) (visits : List Visit) : SyncScheduler :=
  ({ s.poll.forget [] with place := .sweeping s.closes .looking }.firstPass s.closes visits).poll

theorem Reached.beginSweep {identity : JournalIdentity}
    {ledger : SegmentCandidate → Option StateRecord} (h : Reached identity ledger s)
    (visits : List Visit) (hnodup : (visits.map Visit.candidate).Nodup)
    (hplace : s.poll.place = .sweeping s.closes .finishing) :
    Reached identity ledger (s.beginSweep visits) :=
  (((h.step (.inl .poll)).step (.inl (.removed s.closes [] hplace))).step
    (.inl (.looked s.closes visits hnodup rfl))).step (.inl .poll)

/-- The journal does not answer, and is asked again five seconds later. -/
theorem requests_paced_after_failure : ∃ s : SyncScheduler,
    s.events = [(5 * second, .asked), (0, .failed), (0, .asked)] ∧ Paced s.events := by
  let failed := (someScheduler.beginSweep []).checked 0
    { SyncSweepSummary.empty with diagnostic := passDiagnostic [] } (.error (.endSweep .direct))
  let later : SyncScheduler := { SyncScheduler.poll^[3] failed with now := 0 + 5 * second, wall := 0 }
  have hfailed : Reached soleJournal (fun _ => none) failed :=
    (reached_someScheduler.beginSweep [] List.nodup_nil rfl).step (.inl (.checked 0 _ _ rfl))
  have hlater : Reached soleJournal (fun _ => none) later :=
    (hfailed.polls 3).step (.inr (.passed (5 * second) 0))
  have hagain := hlater.step (.inl (.finished (5 * second) [] rfl))
  have hasked := (hagain.step (.inl (.removed 0 [] rfl))).step
    (.inl (.looked 0 [] List.nodup_nil rfl))
  exact ⟨_, rfl, requests_paced hasked⟩

/-- A loop that is parked while the flag is up, and rests, sweeps five polls later. -/
theorem sweeps_next (hears : s.Hears) (backs : s.Backs) {watch : Option ℕ}
    (hplace : s.place = .waiting .resting .parked watch) (hraising : s.wake.raising = 0)
    (hflag : s.wake.flag = true) (hshutdown : s.shutdown = false) :
    (SyncScheduler.poll^[5] s).place = .sweeping s.closes .finishing := by
  have hphase := hears.phase
  have hdeadline := backs.deadline
  rw [hplace] at hphase hdeadline
  let given : SyncWake := { s.wake with notify := (s.wake.notify.poll ()).2, phase := .woken }
  have hwoken : Flagged.advance s.wake = (false, given) := hears.wake.woken hphase hraising hflag
  have hlooks : Flagged.advance given = (true, { given with flag := false, phase := .away }) := by
    show Flagged.look given = _
    rw [Flagged.look, if_pos hflag]
  have hbegun : s.poll = { s with place := .waiting .resting .begun watch } := by
    rw [SyncScheduler.poll, hplace]
  have hlistening : SyncScheduler.poll { s with place := .waiting .resting .begun watch } =
      { s with place := .waiting .resting .listening watch } := by
    rw [SyncScheduler.poll]
    simp only [hshutdown, Bool.false_eq_true, if_false]
  have hgiven : SyncScheduler.poll { s with place := .waiting .resting .listening watch } =
      { s with wake := given, place := .waiting .resting .listening watch } := by
    rw [SyncScheduler.poll]
    simp only [SyncScheduler.listen, hwoken, given, Bool.false_eq_true, if_false, reduceCtorEq]
  have htop : SyncScheduler.poll
        { s with wake := given, place := .waiting .resting .listening watch } =
      { s with
        wake := { given with flag := false, phase := .away }
        requested := true
        place := .top } := by
    rw [SyncScheduler.poll]
    simp only [SyncScheduler.listen, hlooks, SyncScheduler.ready, Flagged.leave, if_true]
  rw [show (5 : ℕ) = 4 + 1 from rfl, Function.iterate_add_apply, Function.iterate_one, hbegun]
  show (SyncScheduler.poll (SyncScheduler.poll (SyncScheduler.poll (SyncScheduler.poll
    { s with place := .waiting .resting .begun watch })))).place = _
  rw [hlistening, hgiven, htop, SyncScheduler.poll]
  simp only [if_true, show s.backoff.deadline = none from hdeadline]

section Reached

variable {identity : JournalIdentity} {ledger : SegmentCandidate → Option StateRecord}

/-- **No close is missed.** A loop that rests while no close is half reported either was given a
permit to look at the flag, or a finished sweep that began after them covers all closes. While one is
not covered, the next round of the loop ends with a sweep. -/
theorem no_close_missed (h : Reached identity ledger s) {watch : Option ℕ}
    (hplace : s.place = .waiting .resting .parked watch) (hraising : s.wake.raising = 0) :
    (s.wake.notify.notified = [] → s.covered = s.closes) ∧
      (s.covered < s.closes → s.shutdown = false →
        (SyncScheduler.poll^[5] s).place = .sweeping s.closes .finishing) := by
  have hphase := h.hears.phase
  have howed := h.hears.owed
  rw [hplace] at hphase howed
  constructor
  · intro hnotified
    have hlowered := h.hears.wake.lowered hphase hraising hnotified
    by_contra hne
    have hraised := howed (Nat.lt_of_le_of_ne h.hears.covered hne)
    rw [hlowered] at hraised
    cases hraised
  · exact fun hlt hshutdown => sweeps_next h.hears h.backs hplace hraising (howed hlt) hshutdown

end Reached

/-- The loop after its first sweep, which found nothing. -/
def someRest : SyncScheduler :=
  SyncScheduler.poll^[7] ((someScheduler.beginSweep []).checked 0
    { SyncSweepSummary.empty with diagnostic := passDiagnostic [] } (.ok ()))

theorem reached_someRest : Reached soleJournal (fun _ => none) someRest :=
  ((reached_someScheduler.beginSweep [] List.nodup_nil rfl).step
    (.inl (.checked 0 _ _ rfl))).polls 7

theorem place_someRest : someRest.place = .waiting .resting .parked (some (5 * second)) := rfl

/-- A segment is closed while the loop rests. -/
theorem no_close_missed_at_rest : ∃ s : SyncScheduler, s.covered < s.closes ∧
    (SyncScheduler.poll^[5] s).place = .sweeping s.closes .finishing := by
  have hclosed := reached_someRest.step (.inr (.closed (.finalized "120000_300".toList)))
  have hsignalled := hclosed.step (.inr (.signalled Nat.one_pos))
  exact ⟨_, Nat.one_pos, (no_close_missed hsignalled place_someRest rfl).2 Nat.one_pos rfl⟩

end SolstoneTmux.SyncScheduler
