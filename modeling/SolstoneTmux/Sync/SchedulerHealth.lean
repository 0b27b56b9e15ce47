import SolstoneTmux.Sync.SchedulerRuns

/-!
# What the sync scheduler shows

The scheduler shows its work in two places: the activity that the status cell follows, and the health
file. `Honest` is what they show at every place of the loop, and every step keeps it
(`shows_truly`).
-/

namespace SolstoneTmux.SyncScheduler

open Foundations

variable {s s' : SyncScheduler}

/-- Nothing shows work. -/
structure Quiet (activity : SyncActivity) (facts : SyncFacts) (report : Option (ℕ × SyncFacts)) :
    Prop where
  activity : activity = .idle
  facts : facts.syncInProgress = false
  report : ∀ t f, report = some (t, f) → f.syncInProgress = false

/-- The periodic timer is due at most an interval after the last report. -/
def Fresh (report : Option (ℕ × SyncFacts)) (periodic : ℕ) : Prop :=
  ∃ t f, report = some (t, f) ∧ periodic ≤ t + periodicSyncInterval

/-- The activity while a guard may be held. -/
def activityOf (guard : Bool) : SyncActivity := if guard then .working else .idle

/-- What is shown in a sweep. -/
def HonestSweep (activity : SyncActivity) (facts : SyncFacts) (report : Option (ℕ × SyncFacts)) :
    SweepPlace → Prop
  | .finishing => Quiet activity facts report
  | .looking => Quiet activity facts report
  | .checking _ => Quiet activity facts report
  | .uploading pass =>
    activity = activityOf pass.working ∧ pass.dues ≠ [] ∧
      pass.dues.length ≤ facts.pendingSegments
  | .asking pass _ =>
    activity = .working ∧ pass.working = true ∧ pass.dues.length < facts.pendingSegments
  | .batchEnd pass =>
    activity = .working ∧ pass.working = true ∧ pass.summary.contacted = true ∧
      pass.dues.length ≤ facts.pendingSegments

/-- What is shown at a place of the loop. -/
def HonestAt (s : SyncScheduler) : LoopPlace → Prop
  | .top => Quiet s.activity s.facts s.health.report ∧
      (Fresh s.health.report s.periodic ∨ s.requested = true ∧ s.backoff.deadline = none)
  | .finishing _ => Quiet s.activity s.facts s.health.report ∧ Fresh s.health.report s.periodic
  | .waiting _ _ _ => Quiet s.activity s.facts s.health.report ∧ Fresh s.health.report s.periodic
  | .sweeping _ sweep => HonestSweep s.activity s.facts s.health.report sweep
  | .ended _ summary => s.activity = .idle ∧ (summary.failure = none → summary.contacted = true)
  | .settling _ _ => Quiet s.activity s.facts s.health.report ∧ Fresh s.health.report s.periodic
  | .returned => Quiet s.activity s.facts s.health.report
  | .aborted => s.activity = .idle

/-- The invariant of what is shown. -/
structure Honest (s : SyncScheduler) : Prop where
  periodic : s.periodic ≤ s.now + periodicSyncInterval
  shows : s.HonestAt s.place

theorem nextTick_le {due now period : ℕ} (h : due ≤ now) : nextTick due now period ≤ now + period := by
  unfold nextTick
  split <;> omega

/-- The uploads that are due are among the candidates without an acknowledgement. -/
theorem length_uploadDue_le (now : ℤ) (state : SyncState) (visits : List Visit) :
    (state.uploadDue now visits).length ≤ nonAcked visits := by
  induction visits with
  | nil => exact Nat.zero_le _
  | cons visit visits ih =>
    obtain ⟨candidate, sight⟩ := visit
    cases sight with
    | pending files =>
      rw [SyncState.uploadDue]
      simp only [nonAcked, List.filter_cons_of_pos, List.length_cons] at ih ⊢
      split
      · exact Nat.le_succ_of_le ih
      · exact Nat.succ_le_succ ih
    | unusable => exact Nat.le_succ_of_le ih
    | gone => exact ih
    | acknowledged => exact ih

/-- A guard that is dropped leaves no activity. -/
theorem idle_of_dropGuard {guard : Bool} (h : s.activity = activityOf guard) :
    (s.dropGuard guard).activity = .idle := by
  unfold dropGuard
  rw [h]
  cases guard <;> rfl

/-- A report of facts that show no work. -/
theorem quiet_of_report {activity : SyncActivity} {facts : SyncFacts} {now : ℕ}
    (hactivity : activity = .idle) (hfacts : facts.syncInProgress = false) :
    Quiet activity facts (some (now, facts)) := by
  refine ⟨hactivity, hfacts, fun t f heq => ?_⟩
  cases heq
  exact hfacts

/-- A sweep holds its guard while its activity shows. -/
theorem HonestSweep.eq_activityOf {activity : SyncActivity} {facts : SyncFacts}
    {report : Option (ℕ × SyncFacts)} {sweep : SweepPlace}
    (h : HonestSweep activity facts report sweep) : activity = activityOf (guarded sweep) := by
  cases sweep with
  | finishing => exact Quiet.activity h
  | looking => exact Quiet.activity h
  | checking summary => exact Quiet.activity h
  | uploading pass => exact h.1
  | asking pass due =>
    rw [guarded, h.2.1]
    exact h.1
  | batchEnd pass =>
    rw [guarded, h.2.1]
    exact h.1

theorem honestAt_cancelledSweep {guard : Bool} (h : s.activity = activityOf guard)
    (hperiodic : s.periodic ≤ s.now + periodicSyncInterval) : (s.cancelledSweep guard).Honest :=
  ⟨hperiodic, quiet_of_report (idle_of_dropGuard h) rfl⟩

theorem honest_endSweep {guard : Bool} (h : s.activity = activityOf guard)
    (hperiodic : s.periodic ≤ s.now + periodicSyncInterval) (seen : ℕ) (summary : SyncSweepSummary)
    (error : SyncOperationError) : (s.endSweep seen guard summary error).Honest := by
  refine ⟨hperiodic, idle_of_dropGuard h, ?_⟩
  cases error <;> exact nofun

/-- The next upload, after one that was answered. -/
theorem honest_nextUpload {pass : UploadPass} (hperiodic : s.periodic ≤ s.now + periodicSyncInterval)
    (hactivity : s.activity = .working) (hworking : pass.working = true)
    (hcontacted : pass.summary.contacted = true)
    (hpending : pass.dues.length ≤ s.facts.pendingSegments) (seen : ℕ) :
    (s.nextUpload seen pass).Honest := by
  rcases nextUpload_cases s seen pass with heq | ⟨hdues, heq⟩
  · rw [heq]
    exact ⟨hperiodic, hactivity, hworking, hcontacted, hpending⟩
  · rw [heq]
    refine ⟨hperiodic, ?_, hdues, hpending⟩
    show s.activity = activityOf pass.working
    rw [hactivity, hworking]
    rfl

/-- A step inside a sweep. -/
theorem Honest.sweep (h : s.Honest) {seen : ℕ} {sweep : SweepPlace}
    (hplace : s.place = .sweeping seen sweep) (hstep : Own s s') : s'.Honest := by
  have hshows : HonestSweep s.activity s.facts s.health.report sweep := by
    have hshows := h.shows
    rwa [hplace] at hshows
  have hactivity := hshows.eq_activityOf
  cases hstep with
  | poll =>
    unfold SyncScheduler.poll
    rw [hplace]
    cases sweep with
    | uploading pass =>
      dsimp only
      obtain ⟨-, hdues, hpending⟩ := hshows
      split
      · exact honestAt_cancelledSweep hactivity h.periodic
      · split
        · exact h
        · rename_i due dues heq
          refine ⟨h.periodic, rfl, rfl, ?_⟩
          rw [heq] at hpending
          exact hpending
    | batchEnd pass =>
      dsimp only
      obtain ⟨hworks, hworking, hcontacted, hpending⟩ := hshows
      split
      · exact ⟨h.periodic, idle_of_dropGuard hactivity, fun _ => hcontacted⟩
      · rename_i hdues
        split
        · exact honestAt_cancelledSweep hactivity h.periodic
        · exact ⟨h.periodic, hactivity, fun hnil => hdues (List.isEmpty_iff.mpr hnil), hpending⟩
    | _ => exact h
  | finished deadline candidates hother => rw [hplace] at hother; cases hother
  | stopped deadline candidates hother => rw [hplace] at hother; cases hother
  | removed n candidates hother =>
    rw [hplace] at hother
    injection hother with hseen hsweep
    subst hsweep
    exact ⟨h.periodic, hshows⟩
  | scanFailed n hother =>
    rw [hplace] at hother
    injection hother with hseen hsweep
    subst hsweep
    exact ⟨h.periodic, hactivity, nofun⟩
  | looked n visits hnodup hother =>
    rw [hplace] at hother
    injection hother with hseen hsweep
    subst hsweep
    have hquiet : Quiet s.activity s.facts s.health.report := hshows
    have hlength := length_uploadDue_le s.unixNow s.state visits
    unfold firstPass
    dsimp only
    split
    · exact ⟨h.periodic, hquiet.activity, hquiet.facts, hquiet.report⟩
    · rename_i due dues heq
      rw [heq] at hlength
      exact ⟨h.periodic, hquiet.activity, List.cons_ne_nil _ _, hlength⟩
  | uploaded n pass due reply turn hother =>
    rw [hplace] at hother
    injection hother with hseen hsweep
    subst hsweep
    obtain ⟨hworks, hworking, hpending⟩ := hshows
    rcases uploaded_cases s n pass due reply turn with ⟨error, heq⟩ |
      ⟨state, facts, pass', heq, hstate, hcontinues⟩
    · rw [heq]
      exact honest_endSweep hactivity h.periodic _ _ _
    · rw [heq]
      apply honest_nextUpload
      · exact h.periodic
      · exact hworks
      · exact hcontinues.working.trans hworking
      · exact hcontinues.contacted
      have hless := hcontinues.pending
      rw [hcontinues.dues]
      show pass.dues.length ≤ facts.pendingSegments
      omega
  | checked n summary reply hother =>
    rw [hplace] at hother
    injection hother with hseen hsweep
    subst hsweep
    cases reply with
    | ok _ => exact ⟨h.periodic, hactivity, fun _ => rfl⟩
    | error error => exact honest_endSweep hactivity h.periodic _ _ _
  | cancelled n other candidates hother hlooks =>
    rw [hplace] at hother
    injection hother with hseen hsweep
    subst hsweep
    exact honestAt_cancelledSweep hactivity h.periodic

/-- The end of a wait, without a tick. -/
theorem Honest.ready (h : s.Honest) {wait : Wait} {branch : Branch}
    (hquiet : Quiet s.activity s.facts s.health.report) (hfresh : Fresh s.health.report s.periodic)
    (hbranch : branch ≠ .ticked) : (s.ready wait branch).Honest := by
  cases wait with
  | resting =>
    cases branch <;>
      exact ⟨h.periodic, ⟨hquiet.activity, hquiet.facts, hquiet.report⟩, .inl hfresh⟩
  | backingOff deadline =>
    cases branch with
    | ticked => exact absurd rfl hbranch
    | _ => exact ⟨h.periodic, ⟨hquiet.activity, hquiet.facts, hquiet.report⟩, .inl hfresh⟩

/-- The end of a wait with a tick. -/
theorem Honest.ticked {wait : Wait} (hquiet : Quiet s.activity s.facts s.health.report)
    (hperiodic : s.periodic ≤ s.now + periodicSyncInterval)
    (hwait : Timed s.requested s.backoff (.waiting wait .unready none)) :
    (s.ready wait .ticked).Honest := by
  cases wait with
  | resting => exact ⟨hperiodic, hquiet, .inr ⟨rfl, hwait⟩⟩
  | backingOff deadline =>
    exact ⟨hperiodic, quiet_of_report hquiet.activity hquiet.facts, .inl ⟨_, _, rfl, hperiodic⟩⟩

theorem Honest.watchSleep (h : s.Honest) {wait : Wait} {watch : Option ℕ}
    (hquiet : Quiet s.activity s.facts s.health.report)
    (hfresh : Fresh s.health.report s.periodic) : (s.watchSleep wait watch).Honest := by
  unfold SyncScheduler.watchSleep
  split
  · exact ⟨h.periodic, hquiet, hfresh⟩
  · split
    · have hsampled : Honest { s with sleepWatch := s.clocks } := ⟨h.periodic, h.shows⟩
      exact hsampled.ready hquiet hfresh fun hne => by cases hne
    · exact ⟨h.periodic, hquiet, hfresh⟩

theorem Honest.expire (h : s.Honest) {wait : Wait} {watch : Option ℕ}
    (hquiet : Quiet s.activity s.facts s.health.report) (hfresh : Fresh s.health.report s.periodic)
    (hwait : Timed s.requested s.backoff (.waiting wait .unready none)) :
    (s.expire wait watch).Honest := by
  unfold SyncScheduler.expire
  split
  · have hnext : nextTick s.periodic s.now periodicSyncInterval ≤ s.now + periodicSyncInterval :=
      nextTick_le ‹_›
    generalize nextTick s.periodic s.now periodicSyncInterval = next at hnext ⊢
    apply Honest.ticked
    · exact hquiet
    · exact hnext
    · exact hwait
  · cases wait with
    | resting =>
      dsimp only
      exact h.watchSleep hquiet hfresh
    | backingOff deadline =>
      dsimp only
      split
      · exact h.ready hquiet hfresh fun hne => by cases hne
      · exact h.watchSleep hquiet hfresh

theorem Honest.poll (h : s.Honest) (backs : s.Backs) : s.poll.Honest := by
  have hshows := h.shows
  have hdeadline := backs.deadline
  cases hplace : s.place with
  | top =>
    rw [hplace] at hshows
    obtain ⟨hquiet, hfresh⟩ := hshows
    unfold SyncScheduler.poll
    rw [hplace]
    dsimp only
    split
    · split
      · rename_i deadline hsome
        refine ⟨h.periodic, hquiet, hfresh.resolve_right fun hnone => ?_⟩
        rw [hnone.2] at hsome
        cases hsome
      · exact ⟨h.periodic, hquiet⟩
    · rename_i hrequested
      exact ⟨h.periodic, hquiet, hfresh.resolve_right fun hnone => hrequested hnone.1⟩
  | finishing deadline => rwa [SyncScheduler.poll, hplace]
  | waiting wait round watch =>
    rw [hplace] at hshows hdeadline
    obtain ⟨hquiet, hfresh⟩ := hshows
    have hwait : Timed s.requested s.backoff (.waiting wait .unready none) := by
      cases wait <;> exact hdeadline
    cases round with
    | begun =>
      unfold SyncScheduler.poll
      rw [hplace]
      dsimp only
      split
      · exact ⟨h.periodic, hquiet⟩
      · exact ⟨h.periodic, hquiet, hfresh⟩
    | listening =>
      rw [SyncScheduler.poll, hplace]
      show (s.listen wait watch).Honest
      unfold SyncScheduler.listen
      dsimp only
      have heard : Honest { s with wake := (Flagged.advance s.wake).2 } := ⟨h.periodic, h.shows⟩
      split
      · exact heard.ready hquiet hfresh fun hne => by cases hne
      · split
        · exact ⟨h.periodic, hquiet, hfresh⟩
        · exact heard
    | unready =>
      rw [SyncScheduler.poll, hplace]
      exact h.expire hquiet hfresh hwait
    | parked =>
      rw [SyncScheduler.poll, hplace]
      exact ⟨h.periodic, hquiet, hfresh⟩
  | sweeping seen sweep => exact h.sweep hplace .poll
  | ended seen summary =>
    rw [hplace] at hshows
    rw [SyncScheduler.poll, hplace]
    exact ⟨h.periodic, quiet_of_report hshows.1 rfl, _, _, rfl, h.periodic⟩
  | settling seen summary =>
    rw [hplace] at hshows
    rw [SyncScheduler.poll, hplace]
    exact ⟨h.periodic, hshows.1, .inl hshows.2⟩
  | returned => rwa [SyncScheduler.poll, hplace]
  | aborted => rwa [SyncScheduler.poll, hplace]

theorem Honest.own (h : s.Honest) (backs : s.Backs) (hstep : Own s s') : s'.Honest := by
  rcases hstep.loop_or_sweep with rfl | ⟨seen, sweep, hplace⟩ |
    ⟨deadline, candidates, hplace, rfl | ⟨hshutdown, rfl⟩⟩
  · exact h.poll backs
  · exact h.sweep hplace hstep
  · have hshows := h.shows
    rw [hplace] at hshows
    unfold locallyFinished
    split
    · exact ⟨h.periodic, hshows.1⟩
    · exact ⟨h.periodic, hshows⟩
  · have hshows := h.shows
    rw [hplace] at hshows
    exact ⟨h.periodic, hshows.1⟩

/-- The activity is that of the guard. -/
theorem Honest.eq_activityOf (h : s.Honest) : s.activity = activityOf (loopGuarded s.place) := by
  have hshows := h.shows
  cases hplace : s.place with
  | sweeping seen sweep =>
    rw [hplace] at hshows
    exact HonestSweep.eq_activityOf hshows
  | ended seen summary =>
    rw [hplace] at hshows
    exact hshows.1
  | aborted =>
    rw [hplace] at hshows
    exact hshows
  | top =>
    rw [hplace] at hshows
    exact hshows.1.activity
  | finishing deadline =>
    rw [hplace] at hshows
    exact hshows.1.activity
  | waiting wait round watch =>
    rw [hplace] at hshows
    exact hshows.1.activity
  | settling seen summary =>
    rw [hplace] at hshows
    exact hshows.1.activity
  | returned =>
    rw [hplace] at hshows
    exact Quiet.activity hshows

theorem Honest.outside (h : s.Honest) (hstep : Outside s s') : s'.Honest := by
  cases hstep with
  | passed elapsed wall =>
    have hlater : s.now + periodicSyncInterval ≤ s.now + elapsed + periodicSyncInterval := by omega
    exact ⟨h.periodic.trans hlater, h.shows⟩
  | shutdown => exact ⟨h.periodic, h.shows⟩
  | closed close => exact ⟨h.periodic, h.shows⟩
  | signalled hraising => exact ⟨h.periodic, h.shows⟩
  | aborted hphase hplace => exact ⟨h.periodic, idle_of_dropGuard h.eq_activityOf⟩

section Reached

variable {identity : JournalIdentity} {ledger : SegmentCandidate → Option StateRecord}

theorem Reached.honest (h : Reached identity ledger s) : s.Honest := by
  induction h with
  | start now wall shutdown wake healthWorks closes hwake hphase =>
    refine ⟨Nat.le_refl _, ⟨rfl, rfl, fun t f hnone => ?_⟩, .inr ⟨rfl, rfl⟩⟩
    cases hnone
  | step hreached hstep ih => exact hstep.elim (ih.own hreached.backs) ih.outside

/-- A sweep has uploads to do. -/
def Uploads : LoopPlace → Prop
  | .sweeping _ (.uploading _) => True
  | .sweeping _ (.asking _ _) => True
  | .sweeping _ (.batchEnd _) => True
  | _ => False

/-- The health file may be behind the loop: the outcome of a sweep that is over is not written yet,
the task was aborted, or the last write failed. -/
def Behind (s : SyncScheduler) : Prop :=
  (∃ seen summary, s.place = .ended seen summary) ∨ s.place = .aborted ∨ s.health.worked = false

/-- What the scheduler shows is so: activity while uploads are tried; a running sync in the health
file only while a sweep has uploads to do, or in a file that is behind; at least as many pending
segments as uploads that are left; a report no older than an interval at the next tick while it
waits, which the file holds if its write worked; and a sweep without failure only after an answer. -/
structure ShowsTruly (s : SyncScheduler) : Prop where
  activity : s.activity = .working ↔ loopGuarded s.place = true
  syncing : ∀ t f, s.health.held = some (t, f) → f.syncInProgress = true →
    Uploads s.place ∨ s.Behind
  pending : ∀ seen pass due, s.place = .sweeping seen (.asking pass due) →
    pass.dues.length < s.facts.pendingSegments
  tried : ∀ wait round watch, s.place = .waiting wait round watch →
    Fresh s.health.report s.periodic
  fresh : ∀ wait round watch, s.place = .waiting wait round watch → s.health.worked = true →
    Fresh s.health.held s.periodic
  answered : ∀ seen summary, s.place = .ended seen summary →
    summary.failure.isSome = true ∨ summary.contacted = true

/-- A report of a running sync, at every place. -/
theorem Honest.syncing (h : s.Honest) {t : ℕ} {f : SyncFacts}
    (hreport : s.health.report = some (t, f)) (hsyncing : f.syncInProgress = true) :
    Uploads s.place ∨ (∃ seen summary, s.place = .ended seen summary) ∨ s.place = .aborted := by
  have hshows := h.shows
  have quiet : ¬ Quiet s.activity s.facts s.health.report := by
    intro hquiet
    rw [hquiet.report t f hreport] at hsyncing
    cases hsyncing
  cases hplace : s.place with
  | sweeping seen sweep =>
    rw [hplace] at hshows
    cases sweep with
    | finishing => exact absurd hshows quiet
    | looking => exact absurd hshows quiet
    | checking summary => exact absurd hshows quiet
    | _ => exact .inl trivial
  | ended seen summary => exact .inr (.inl ⟨seen, summary, rfl⟩)
  | aborted => exact .inr (.inr rfl)
  | returned =>
    rw [hplace] at hshows
    exact absurd hshows quiet
  | _ =>
    rw [hplace] at hshows
    exact absurd hshows.1 quiet

/-- **What is shown is so**, in every state that is reached. -/
theorem shows_truly (h : Reached identity ledger s) : s.ShowsTruly := by
  have hshows := h.honest.shows
  have htried (wait : Wait) (round : WaitRound) (watch : Option ℕ)
      (hplace : s.place = .waiting wait round watch) : Fresh s.health.report s.periodic := by
    rw [hplace] at hshows
    exact hshows.2
  refine ⟨?_, fun t f hheld hsyncing => ?_, fun seen pass due hplace => ?_, htried,
    fun wait round watch hplace hworked => ?_, fun seen summary hplace => ?_⟩
  · rw [h.honest.eq_activityOf]
    cases loopGuarded s.place <;> decide
  · cases hworked : s.health.worked with
    | false => exact .inr (.inr (.inr hworked))
    | true =>
      rw [s.health.held_of_worked hworked] at hheld
      rcases h.honest.syncing hheld hsyncing with huploads | hended | haborted
      · exact .inl huploads
      · exact .inr (.inl hended)
      · exact .inr (.inr (.inl haborted))
  · rw [hplace] at hshows
    exact hshows.2.2
  · rw [s.health.held_of_worked hworked]
    exact htried wait round watch hplace
  · rw [hplace] at hshows
    cases hfailure : summary.failure with
    | some failure => exact .inl rfl
    | none => exact .inr (hshows.2 hfailure)

end Reached

/-- A loop whose first health write works, and no other. -/
def firstWritten : SyncScheduler :=
  start soleJournal (fun _ => none) 0 0 false .initial (fun n => n == 0) 0

/-- An upload that is tried, and a loop at rest whose file still says that a sync is running, since
no write after the first one worked. -/
theorem shows_truly_unwritten : ∃ uploading resting : SyncScheduler,
    uploading.activity = .working ∧ uploading.ShowsTruly ∧
      (∃ round watch, resting.place = .waiting .resting round watch) ∧
      (resting.health.held.any fun report => report.2.syncInProgress) = true ∧
      resting.ShowsTruly := by
  have hstart : Reached soleJournal (fun _ => none) firstWritten :=
    .start 0 0 false _ _ 0 Flagged.sound_initial rfl
  have huploading := hstart.beginSweep [⟨soleCandidate, .pending []⟩]
    (List.nodup_singleton soleCandidate) rfl
  have hanswered := huploading.step (.inl (.uploaded 0 _ _
    (.error (.retainCandidate .journalUnavailable [])) ⟨.retain [], .done, true, .done, true⟩ rfl))
  exact ⟨_, _, rfl, shows_truly huploading, ⟨_, _, rfl⟩, rfl, shows_truly (hanswered.polls 4)⟩

end SolstoneTmux.SyncScheduler
