import SolstoneTmux.Sync.SchedulerRuns

/-!
# The ledger of the sync scheduler

The loop makes its sweeps step by step, and anything may happen between the steps: a sweep is cancelled
between two uploads, or ends with one. `SyncState.step` makes a sweep at once. `ledger_follows` says
that every state of the loop has the ledger of a run of such steps, so what holds after those runs
holds of the loop, and that an upload begins only when its schedule has come, with the state that the
ledger has then.
-/

namespace SolstoneTmux.SyncScheduler

variable {s s' : SyncScheduler} {origin : JournalIdentity}

/-- A state of the ledger after some steps. -/
def After (origin : JournalIdentity) (state : SyncState) : Prop :=
  ∃ steps, state = SyncState.after origin steps

/-- A second pass with uploads left: the sweep so far ends in this state, and with more turns it goes
on from here. -/
structure Pass (origin : JournalIdentity) (now : ℤ) (state : SyncState) (dues : List Due) : Prop where
  nodup : (dues.map Due.candidate).Nodup
  attempted : ∀ due ∈ dues, Attempted now state due
  resumes : ∃ steps visits turns, ∃ hnodup : (visits.map Visit.candidate).Nodup, ∀ more,
    (SyncState.after origin steps).sweep ⟨now, visits, turns ++ more, hnodup⟩ =
      SyncState.uploadAll now state dues more

/-- The ledger at a place of the loop. -/
def LedgerAt (origin : JournalIdentity) (state : SyncState) : LoopPlace → Prop
  | .sweeping _ (.uploading pass) => Pass origin pass.now state pass.dues
  | .sweeping _ (.asking pass due) => Pass origin pass.now state (due :: pass.dues)
  | .sweeping _ (.batchEnd pass) => Pass origin pass.now state pass.dues
  | _ => After origin state

theorem After.step {state : SyncState} (h : After origin state) (step : SyncState.Step) :
    After origin (state.step step) := by
  obtain ⟨steps, rfl⟩ := h
  refine ⟨steps ++ [step], ?_⟩
  rw [SyncState.after, SyncState.after, List.foldl_append]
  rfl

theorem After.forget {state : SyncState} (h : After origin state)
    (candidates : List SegmentCandidate) :
    After origin (candidates.foldl (fun state candidate => state.step (.forget candidate)) state) := by
  induction candidates generalizing state with
  | nil => exact h
  | cons candidate candidates ih => exact ih (h.step _)

theorem uploadAll_nil (now : ℤ) (state : SyncState) (dues : List Due) :
    SyncState.uploadAll now state dues [] = state := by
  cases dues <;> rfl

/-- A sweep that stops here is a whole one with fewer turns. -/
theorem Pass.after {now : ℤ} {state : SyncState} {dues : List Due} (h : Pass origin now state dues) :
    After origin state := by
  obtain ⟨steps, visits, turns, hnodup, hresumes⟩ := h.resumes
  have hstops := hresumes []
  rw [List.append_nil, uploadAll_nil] at hstops
  rw [← hstops]
  exact After.step ⟨steps, rfl⟩ (.sweep ⟨now, visits, turns, hnodup⟩)

/-- The first pass. -/
theorem After.pass {state : SyncState} (h : After origin state) (now : ℤ) {visits : List Visit}
    (hnodup : (visits.map Visit.candidate).Nodup) :
    Pass origin now state (state.uploadDue now visits) := by
  obtain ⟨steps, rfl⟩ := h
  exact ⟨hnodup.sublist (uploadDue_sublist _ now visits), fun _ => attempted_of_mem_uploadDue,
    steps, visits, [], hnodup, fun _ => rfl⟩

/-- An upload that was answered. -/
theorem Pass.uploaded {now : ℤ} {state state' : SyncState} {due : Due} {dues : List Due}
    (h : Pass origin now state (due :: dues)) {turn : UploadTurn}
    (hupload : state.upload now due turn = some state') : Pass origin now state' dues := by
  have hnodup := h.nodup
  rw [List.map_cons, List.nodup_cons] at hnodup
  refine ⟨hnodup.2, fun other hother => ?_, ?_⟩
  · have hne : other.candidate ≠ due.candidate := fun heq =>
      hnodup.1 (heq ▸ List.mem_map_of_mem hother)
    exact (sameCandidate_upload hupload hne).attempted
      (h.attempted other (List.mem_cons_of_mem _ hother))
  · obtain ⟨steps, visits, turns, hvisits, hresumes⟩ := h.resumes
    refine ⟨steps, visits, turns ++ [turn], hvisits, fun more => ?_⟩
    have hnext := hresumes (turn :: more)
    rw [SyncState.uploadAll, hupload] at hnext
    simpa using hnext

/-- The ledger at any place. -/
theorem After.of_ledgerAt {state : SyncState} {place : LoopPlace}
    (h : LedgerAt origin state place) : After origin state := by
  cases place with
  | sweeping seen sweep =>
    cases sweep with
    | uploading pass => exact Pass.after h
    | asking pass due => exact Pass.after h
    | batchEnd pass => exact Pass.after h
    | _ => exact h
  | _ => exact h

theorem ledgerAt_sweep (h : LedgerAt origin s.state s.place) {seen : ℕ} {sweep : SweepPlace}
    (hplace : s.place = .sweeping seen sweep) (hstep : Own s s') :
    LedgerAt origin s'.state s'.place := by
  have hafter := After.of_ledgerAt h
  rw [hplace] at h
  cases hstep with
  | poll =>
    unfold poll
    rw [hplace]
    cases sweep with
    | uploading pass =>
      dsimp only
      split
      · exact hafter
      · split
        · rw [hplace]
          exact h
        · rename_i due dues hdues
          show Pass origin pass.now s.state (due :: dues)
          rw [← hdues]
          exact h
    | batchEnd pass =>
      dsimp only
      split
      · exact hafter
      · split
        · exact hafter
        · exact h
    | _ =>
      dsimp only
      rw [hplace]
      exact h
  | finished deadline candidates hother => rw [hplace] at hother; cases hother
  | stopped deadline candidates hother => rw [hplace] at hother; cases hother
  | removed n candidates hother => exact hafter.forget candidates
  | scanFailed n hother => exact hafter
  | looked n visits hnodup hother =>
    have hpass := hafter.pass s.unixNow hnodup
    unfold firstPass
    dsimp only
    split
    · exact hafter
    · rename_i due dues hdues
      rw [hdues] at hpass
      exact hpass
  | uploaded n pass due reply turn hother =>
    rw [hplace] at hother
    injection hother with hseen hsweep
    subst hsweep
    rcases uploaded_cases s n pass due reply turn with ⟨error, heq⟩ |
      ⟨state, facts, pass', heq, hstate, hcontinues⟩
    · rw [heq]
      exact hafter
    · have hpass : Pass origin pass'.now state pass'.dues := by
        rw [hcontinues.now, hcontinues.dues]
        exact Pass.uploaded h hstate
      rw [heq]
      rcases nextUpload_cases { s.answered with state := state, facts := facts } n pass' with
        heq | ⟨-, heq⟩
      · rw [heq]
        exact hpass
      · rw [heq]
        exact hpass
  | checked n summary reply hother => cases reply <;> exact hafter
  | cancelled n other candidates hother => exact hafter.forget candidates

/-- No upload is under way. -/
def NoPass : LoopPlace → Prop
  | .sweeping _ sweep => sweep = .finishing
  | _ => True

theorem After.ledgerAt {state : SyncState} (h : After origin state) {place : LoopPlace}
    (hplace : NoPass place) : LedgerAt origin state place := by
  cases place with
  | sweeping seen sweep =>
    obtain rfl : sweep = .finishing := hplace
    exact h
  | _ => exact h

/-- The end of a wait changes no ledger. -/
theorem state_ready (s : SyncScheduler) (wait : Wait) (branch : Branch) :
    (s.ready wait branch).state = s.state ∧ NoPass (s.ready wait branch).place := by
  cases wait <;> cases branch <;> exact ⟨rfl, trivial⟩

theorem state_watchSleep (s : SyncScheduler) (wait : Wait) (watch : Option ℕ) :
    (s.watchSleep wait watch).state = s.state ∧ NoPass (s.watchSleep wait watch).place := by
  unfold watchSleep
  split
  · exact ⟨rfl, trivial⟩
  · split
    · exact state_ready _ _ _
    · exact ⟨rfl, trivial⟩

/-- A poll outside sweeps changes no ledger. -/
theorem state_poll (hplace : ∀ seen sweep, s.place ≠ .sweeping seen sweep) :
    s.poll.state = s.state ∧ NoPass s.poll.place := by
  have stays : ∀ place, s.place = place → (∀ seen sweep, place ≠ .sweeping seen sweep) →
      NoPass place := by
    rintro (_ | _ | _ | ⟨seen, sweep⟩ | _ | _ | _ | _) _ hnot
    case sweeping => exact absurd rfl (hnot seen sweep)
    all_goals trivial
  unfold poll
  split
  · split
    · split
      · exact ⟨rfl, trivial⟩
      · exact ⟨rfl, rfl⟩
    · exact ⟨rfl, trivial⟩
  · split <;> exact ⟨rfl, trivial⟩
  · unfold listen
    dsimp only
    split
    · exact state_ready _ _ _
    · split
      · exact ⟨rfl, trivial⟩
      · exact ⟨rfl, stays _ rfl hplace⟩
  · unfold expire
    split
    · exact state_ready _ _ _
    · split
      · split
        · exact state_ready _ _ _
        · exact state_watchSleep _ _ _
      · exact state_watchSleep _ _ _
  · exact ⟨rfl, trivial⟩
  · rename_i seen pass heq
    exact absurd heq (hplace _ _)
  · rename_i seen pass heq
    exact absurd heq (hplace _ _)
  · exact ⟨rfl, trivial⟩
  · exact ⟨rfl, trivial⟩
  · exact ⟨rfl, stays _ rfl hplace⟩

theorem ledgerAt_own (h : LedgerAt origin s.state s.place) (hstep : Own s s') :
    LedgerAt origin s'.state s'.place := by
  by_cases hsweep : ∃ seen sweep, s.place = .sweeping seen sweep
  · obtain ⟨seen, sweep, hplace⟩ := hsweep
    exact ledgerAt_sweep h hplace hstep
  · have hafter := After.of_ledgerAt h
    rcases hstep.loop_or_sweep with rfl | hother |
      ⟨deadline, candidates, hplace, rfl | ⟨hshutdown, rfl⟩⟩
    · obtain ⟨hstate, hplace⟩ := state_poll fun seen sweep heq => hsweep ⟨seen, sweep, heq⟩
      rw [hstate]
      exact hafter.ledgerAt hplace
    · exact absurd hother hsweep
    · unfold locallyFinished
      split
      · exact hafter.forget candidates
      · exact hafter.forget candidates
    · exact hafter.forget candidates

theorem ledgerAt_outside (h : LedgerAt origin s.state s.place) (hstep : Outside s s') :
    LedgerAt origin s'.state s'.place := by
  cases hstep with
  | aborted hphase hplace => exact After.of_ledgerAt h
  | _ => exact h

/-- **The loop follows the schedule.** The ledger of every state that the loop reaches is that of a run
of whole sweeps, and an upload begins only when its schedule has come, with the state that the ledger
holds for it. -/
theorem ledger_follows {identity : JournalIdentity} {steps : List SyncState.Step}
    (h : Reached identity (SyncState.after origin steps).ledger s) :
    (∃ steps, s.state = SyncState.after origin steps) ∧
      ∀ seen pass due, s.place = .sweeping seen (.asking pass due) →
        due.state = s.state.readStateRecord due.candidate ∧
          s.state.nextAttempt pass.now due.candidate ≤ pass.now := by
  have hledger : LedgerAt origin s.state s.place := by
    induction h with
    | start now wall shutdown wake healthWorks closes hwake hphase =>
      exact After.step ⟨steps, rfl⟩ (.restart identity)
    | step _ hstep ih => exact hstep.elim (ledgerAt_own ih) (ledgerAt_outside ih)
  refine ⟨After.of_ledgerAt hledger, fun seen pass due hplace => ?_⟩
  rw [hplace] at hledger
  exact hledger.attempted due List.mem_cons_self

/-- A candidate that the journal keeps for later is uploaded again when its hour is over. -/
theorem ledger_follows_retained_upload : ∃ s : SyncScheduler, ∃ steps seen pass due,
    s.place = .sweeping seen (.asking pass due) ∧
      due.state.nextAttemptUnix = some 3600 ∧
      s.state = SyncState.after soleJournal steps ∧
      due.state = s.state.readStateRecord due.candidate ∧
      s.state.nextAttempt pass.now due.candidate ≤ pass.now := by
  have hasking := reached_someScheduler.beginSweep [⟨soleCandidate, .pending []⟩]
    (List.nodup_singleton soleCandidate) rfl
  have hretained := hasking.step (.inl (.uploaded 0 _ _
    (.error (.retainCandidate .journalUnavailable [])) ⟨.retain [], .done, true, .done, true⟩ rfl))
  have hlater := (hretained.polls 4).step
    (.inr (.passed (3600 * second) (3600 * second)))
  have hagain : Reached soleJournal (SyncState.after soleJournal []).ledger _ :=
    (hlater.polls 4).beginSweep [⟨soleCandidate, .pending []⟩]
      (List.nodup_singleton soleCandidate) rfl
  obtain ⟨⟨steps, hsteps⟩, hdue⟩ := ledger_follows hagain
  exact ⟨_, steps, _, _, _, rfl, rfl, hsteps, hdue _ _ _ rfl⟩

end SolstoneTmux.SyncScheduler
