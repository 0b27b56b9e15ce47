import Mathlib.Data.List.Induction
import SolstoneTmux.Sync.Sweep

/-!
# How long a candidate is left out

A scheduler holds up to two schedules for a candidate: the one in the ledger, which each sweep cuts
to one interval ahead of its own wall time, and a floor in memory, which is not cut. Neither is
forgotten when the clock is set back: a floor is then too far ahead at once, and a schedule of the
ledger is cut anew by each sweep, until the clock has come to it again.

`deferral_bounded_iff` says of every state that a run reaches, and every wall time, that a candidate
is left out for at most a day and at most the interval recorded last, and not again after this
interval, exactly when no schedule that is held was set at a later wall time (`SetBefore`).

`Scheduled` is the invariant of runs: of two schedules that are held one had passed when the other
was set, or they are one.
-/

namespace SolstoneTmux

open Foundations

/-! ## Schedules that are held -/

namespace Schedule

/-- The next attempt that the schedules set, the one in the ledger and the floor. -/
def next (now : ℤ) : Option Schedule → Option Schedule → ℤ
  | some stored, some floor => max (min stored.due (now + stored.interval)) floor.due
  | some stored, none => min stored.due (now + stored.interval)
  | none, some floor => floor.due
  | none, none => 0

/-- The interval of the schedule that was set last; without any it is an hour, as the source reads a
record without one. -/
def lastInterval : Option Schedule → Option Schedule → ℕ
  | some stored, some floor =>
    if stored.setAt < floor.setAt then floor.interval else stored.interval
  | some stored, none => stored.interval
  | none, some floor => floor.interval
  | none, none => 3600

/-- The schedules were set at or before a wall time. Without any the next attempt is the beginning
of Unix time, and this is at most an hour ahead. -/
def SetBefore (now : ℤ) (stored floor : Option Schedule) : Prop :=
  (∀ schedule ∈ stored, schedule.setAt ≤ now) ∧ (∀ schedule ∈ floor, schedule.setAt ≤ now) ∧
    (stored = none → floor = none → -3600 ≤ now)

end Schedule

namespace SyncState

/-- The schedule that the ledger holds for a candidate under this journal: a record has its next
attempt and its interval. -/
def storedSchedule (s : SyncState) (candidate : SegmentCandidate) : Option Schedule :=
  let state := s.readStateRecord candidate
  let interval := state.nextAttemptIntervalSeconds.getD 3600
  state.nextAttemptUnix.map fun stored => ⟨stored - interval, interval⟩

/-- The interval recorded last for a candidate. -/
def lastInterval (s : SyncState) (candidate : SegmentCandidate) : ℕ :=
  Schedule.lastInterval (s.storedSchedule candidate) (s.floors candidate)

/-- Sweeps that all leave a candidate out. -/
def LeaveOut (candidate : SegmentCandidate) : SyncState → List SweepInput → Prop
  | _, [] => True
  | s, input :: inputs =>
    input.now < s.nextAttempt input.now candidate ∧ LeaveOut candidate (s.sweep input) inputs

/-- A candidate that is left out at a wall time has its next attempt at most a day and at most the
interval recorded last ahead; and however many sweeps have left it out, it is not left out when the
clock shows that this interval has passed. -/
def DeferralBounded (s : SyncState) (now : ℤ) (candidate : SegmentCandidate) : Prop :=
  now < s.nextAttempt now candidate →
    s.nextAttempt now candidate ≤ now + 86400 ∧
    s.nextAttempt now candidate ≤ now + s.lastInterval candidate ∧
    ∀ inputs, LeaveOut candidate s inputs → ∀ later, now + s.lastInterval candidate ≤ later →
      (inputs.foldl sweep s).nextAttempt later candidate ≤ later

/-- The clock is not set back behind a schedule that is held for a candidate. -/
def SetBefore (s : SyncState) (now : ℤ) (candidate : SegmentCandidate) : Prop :=
  Schedule.SetBefore now (s.storedSchedule candidate) (s.floors candidate)

end SyncState

/-- The intervals that the program sets. -/
def IsRetryInterval (interval : ℕ) : Prop := interval = 3600 ∨ interval = 86400

theorem isRetryInterval_retryInterval (count : ℕ) : IsRetryInterval (retryInterval count) := by
  rw [retryInterval]
  split
  · exact .inr rfl
  · exact .inl rfl

namespace Schedule

variable {now : ℤ} {stored floor : Option Schedule}

/-- Two schedules that are held: they are one, or one had passed when the other was set. -/
def Apart (stored floor : Option Schedule) : Prop :=
  ∀ a ∈ stored, ∀ b ∈ floor, a = b ∨ b.due ≤ a.setAt ∨ a.due ≤ b.setAt

theorem stored_le_next {a : Schedule} (ha : stored = some a) :
    min a.due (now + a.interval) ≤ next now stored floor := by
  subst ha
  cases floor with
  | none => exact le_refl _
  | some b => exact le_max_left _ _

theorem floor_le_next {b : Schedule} (hb : floor = some b) : b.due ≤ next now stored floor := by
  subst hb
  cases stored with
  | none => exact le_refl _
  | some a => exact le_max_right _ _

/-- What is left out is left out for at most the interval set last, and not after it. -/
def Bounded (now : ℤ) (stored floor : Option Schedule) : Prop :=
  now < next now stored floor →
    next now stored floor ≤ now + lastInterval stored floor ∧
    ∀ later, now + lastInterval stored floor ≤ later → next later stored floor ≤ later

theorem bounded_iff (hstored : ∀ a ∈ stored, IsRetryInterval a.interval)
    (hfloor : ∀ b ∈ floor, IsRetryInterval b.interval) (hapart : Apart stored floor) :
    Bounded now stored floor ↔ SetBefore now stored floor := by
  unfold Bounded SetBefore
  cases stored with
  | none =>
    cases floor with
    | none =>
      simp only [next, lastInterval, Option.not_mem_none, false_implies, implies_true, true_and,
        true_implies]
      constructor
      · intro h
        by_contra hfar
        have := (h (by omega)).1
        omega
      · intro h hnow
        exact ⟨by omega, fun later hlater => by omega⟩
    | some b =>
      have hb := hfloor b rfl
      simp only [next, lastInterval, Option.not_mem_none, Option.mem_some_iff, forall_eq', due,
        reduceCtorEq, false_implies, implies_true, and_true, true_and]
      unfold IsRetryInterval at hb
      constructor
      · intro h
        by_contra hfar
        have := (h (by omega)).1
        omega
      · intro h hnow
        exact ⟨by omega, fun later hlater => by omega⟩
  | some a =>
    have ha := hstored a rfl
    unfold IsRetryInterval at ha
    cases floor with
    | none =>
      simp only [next, lastInterval, Option.not_mem_none, Option.mem_some_iff, forall_eq', due,
        reduceCtorEq, false_implies, implies_true, and_true]
      constructor
      · intro h
        by_contra hfar
        have := (h (by omega)).2 (now + a.interval) (le_refl _)
        omega
      · intro h hnow
        exact ⟨by omega, fun later hlater => by omega⟩
    | some b =>
      have hb := hfloor b rfl
      unfold IsRetryInterval at hb
      have hab : (a.setAt = b.setAt ∧ a.interval = b.interval) ∨ b.due ≤ a.setAt ∨
          a.due ≤ b.setAt := (hapart a rfl b rfl).imp_left (by rintro rfl; exact ⟨rfl, rfl⟩)
      simp only [next, lastInterval, Option.mem_some_iff, forall_eq', due,
        reduceCtorEq, false_implies, and_true] at hab ⊢
      split
      · constructor
        · intro h
          by_contra hfar
          have := (h (by omega)).1
          omega
        · intro h hnow
          exact ⟨by omega, fun later hlater => by omega⟩
      · constructor
        · intro h
          by_contra hfar
          have := (h (by omega)).2 (now + a.interval) (le_refl _)
          omega
        · intro h hnow
          exact ⟨by omega, fun later hlater => by omega⟩

theorem isRetryInterval_lastInterval (hstored : ∀ a ∈ stored, IsRetryInterval a.interval)
    (hfloor : ∀ b ∈ floor, IsRetryInterval b.interval) :
    IsRetryInterval (lastInterval stored floor) := by
  cases stored with
  | none =>
    cases floor with
    | none => exact .inl rfl
    | some b => exact hfloor b rfl
  | some a =>
    cases floor with
    | none => exact hstored a rfl
    | some b =>
      rw [lastInterval]
      split
      · exact hfloor b rfl
      · exact hstored a rfl

end Schedule

/-! ## The invariant -/

/-- What holds of every candidate after a run. -/
structure CandidateScheduled (s : SyncState) (candidate : SegmentCandidate) : Prop where
  interval : ∀ record, s.ledger candidate = some record →
    (record.nextAttemptUnix = none ∧ record.nextAttemptIntervalSeconds = none) ∨
      ∃ interval, record.nextAttemptIntervalSeconds = some interval ∧ IsRetryInterval interval
  floor : ∀ floor ∈ s.floors candidate, IsRetryInterval floor.interval
  apart : Schedule.Apart (s.storedSchedule candidate) (s.floors candidate)

/-- The invariant of runs. -/
def Scheduled (s : SyncState) : Prop := ∀ candidate, CandidateScheduled s candidate

section Candidate

variable {s : SyncState} {candidate : SegmentCandidate} {now : ℤ}

/-- What is read of the ledger: its record, or nothing. -/
theorem readStateRecord_cases (s : SyncState) (candidate : SegmentCandidate) :
    (s.ledger candidate = some (s.readStateRecord candidate) ∧
      (s.readStateRecord candidate).journal = some s.identity) ∨
    ((s.readStateRecord candidate).nextAttemptUnix = none ∧
      (s.readStateRecord candidate).nextAttemptIntervalSeconds = none ∧
      ∀ record, s.ledger candidate = some record → record.journal ≠ some s.identity) := by
  rw [SyncState.readStateRecord]
  dsimp only
  split
  · rename_i hjournal
    refine .inr ⟨rfl, rfl, fun record hrecord => ?_⟩
    rwa [hrecord] at hjournal
  · rename_i hjournal
    rw [not_not] at hjournal
    cases hrecord : s.ledger candidate with
    | none =>
      rw [hrecord] at hjournal
      cases hjournal
    | some record =>
      rw [hrecord] at hjournal
      exact .inl ⟨rfl, hjournal⟩

theorem journal_readStateRecord (s : SyncState) (candidate : SegmentCandidate) :
    (s.readStateRecord candidate).journal = some s.identity := by
  rw [SyncState.readStateRecord]
  dsimp only
  split
  · rfl
  · rename_i hjournal
    exact not_not.mp hjournal

/-- The next attempt is that of the schedules that are held. -/
theorem nextAttempt_eq (s : SyncState) (now : ℤ) (candidate : SegmentCandidate) :
    s.nextAttempt now candidate =
      Schedule.next now (s.storedSchedule candidate) (s.floors candidate) := by
  unfold SyncState.nextAttempt SyncState.diskNextAttempt SyncState.storedSchedule
  dsimp only
  cases (s.readStateRecord candidate).nextAttemptUnix with
  | none => cases s.floors candidate <;> rfl
  | some stored => cases s.floors candidate <;> simp [Schedule.next, Schedule.due]

/-- The stored schedule is that of a record of this journal. -/
theorem storedSchedule_eq_some {schedule : Schedule}
    (h : s.storedSchedule candidate = some schedule) : ∃ record,
      s.ledger candidate = some record ∧ record.nextAttemptUnix = some schedule.due ∧
        schedule.interval = record.nextAttemptIntervalSeconds.getD 3600 := by
  obtain ⟨stored, hstored, rfl⟩ := Option.map_eq_some_iff.mp h
  rcases readStateRecord_cases s candidate with ⟨hledger, -⟩ | ⟨hnone, -, -⟩
  · refine ⟨_, hledger, ?_, rfl⟩
    rw [hstored, Schedule.due, sub_add_cancel]
  · rw [hnone] at hstored
    cases hstored

theorem CandidateScheduled.stored (h : CandidateScheduled s candidate) :
    ∀ schedule ∈ s.storedSchedule candidate, IsRetryInterval schedule.interval := by
  intro schedule hschedule
  obtain ⟨record, hrecord, hnext, hinterval⟩ := storedSchedule_eq_some hschedule
  rw [hinterval]
  rcases h.interval record hrecord with ⟨hnone, -⟩ | ⟨interval, hsome, hretry⟩
  · rw [hnone] at hnext
    cases hnext
  · rwa [hsome]

/-- When a next attempt has come, so have the floor and the stored schedule. -/
theorem le_of_nextAttempt_le (h : CandidateScheduled s candidate)
    (hdue : s.nextAttempt now candidate ≤ now) :
    (∀ floor ∈ s.floors candidate, floor.due ≤ now) ∧
      ∀ schedule ∈ s.storedSchedule candidate, schedule.due ≤ now := by
  have hstored := h.stored
  rw [nextAttempt_eq] at hdue
  cases hs : s.storedSchedule candidate with
  | none =>
    cases hf : s.floors candidate with
    | none => exact ⟨nofun, nofun⟩
    | some floor =>
      rw [hs, hf] at hdue
      exact ⟨by rintro _ ⟨rfl⟩; exact hdue, nofun⟩
  | some schedule =>
    have hretry := hstored schedule hs
    cases hf : s.floors candidate with
    | none =>
      rw [hs, hf, Schedule.next] at hdue
      refine ⟨nofun, ?_⟩
      rintro _ ⟨rfl⟩
      rcases hretry with heq | heq <;> omega
    | some floor =>
      rw [hs, hf, Schedule.next] at hdue
      refine ⟨?_, ?_⟩
      · rintro _ ⟨rfl⟩
        omega
      · rintro _ ⟨rfl⟩
        rcases hretry with heq | heq <;> omega

end Candidate

/-! ## Every step keeps it -/

section Steps

variable {s : SyncState} {candidate : SegmentCandidate} {now : ℤ} {due : Due} {turn : UploadTurn}

/-- A candidate's upload is due at a wall time: its state was read, and its schedules have come. -/
def Attempted (now : ℤ) (s : SyncState) (due : Due) : Prop :=
  due.state = s.readStateRecord due.candidate ∧ s.nextAttempt now due.candidate ≤ now

/-- Nothing of a candidate is changed. -/
structure SameCandidate (s s' : SyncState) (candidate : SegmentCandidate) : Prop where
  identity : s'.identity = s.identity
  floors : s'.floors candidate = s.floors candidate
  ledger : s'.ledger candidate = s.ledger candidate
  recorded : s'.recorded candidate = s.recorded candidate

theorem SameCandidate.readStateRecord {s' : SyncState} (h : SameCandidate s s' candidate) :
    s'.readStateRecord candidate = s.readStateRecord candidate := by
  rw [SyncState.readStateRecord, SyncState.readStateRecord, h.identity, h.ledger]

theorem SameCandidate.storedSchedule {s' : SyncState} (h : SameCandidate s s' candidate) :
    s'.storedSchedule candidate = s.storedSchedule candidate := by
  rw [SyncState.storedSchedule, SyncState.storedSchedule, h.readStateRecord]

theorem SameCandidate.scheduled {s' : SyncState} (h : SameCandidate s s' candidate)
    (hs : CandidateScheduled s candidate) : CandidateScheduled s' candidate := by
  refine ⟨?_, ?_, ?_⟩
  · rw [h.ledger]
    exact hs.interval
  · rw [h.floors]
    exact hs.floor
  · rw [h.floors, h.storedSchedule]
    exact hs.apart

theorem SameCandidate.refl (s : SyncState) (candidate : SegmentCandidate) :
    SameCandidate s s candidate := ⟨rfl, rfl, rfl, rfl⟩

theorem SameCandidate.trans {s' s'' : SyncState} (h : SameCandidate s s' candidate)
    (h' : SameCandidate s' s'' candidate) : SameCandidate s s'' candidate :=
  ⟨h'.identity.trans h.identity, h'.floors.trans h.floors, h'.ledger.trans h.ledger,
    h'.recorded.trans h.recorded⟩

theorem SameCandidate.nextAttempt {s' : SyncState} (h : SameCandidate s s' candidate) :
    s'.nextAttempt now candidate = s.nextAttempt now candidate := by
  rw [SyncState.nextAttempt, SyncState.nextAttempt, h.readStateRecord, h.floors]

theorem SameCandidate.attempted {s' : SyncState} (h : SameCandidate s s' due.candidate)
    (hs : Attempted now s due) : Attempted now s' due :=
  ⟨hs.1.trans h.readStateRecord.symm, h.nextAttempt.trans_le hs.2⟩

theorem sameCandidate_setSchedule (s : SyncState) (due : Due) (answer : Str) (count : ℕ)
    (schedule : Schedule) (write : Write) (hne : candidate ≠ due.candidate) :
    SameCandidate s (s.setSchedule due answer count schedule write) candidate := by
  cases write <;>
    exact ⟨rfl, by simp [SyncState.setSchedule, SyncState.writeStateRecord, hne],
      by simp [SyncState.setSchedule, SyncState.writeStateRecord, hne],
      by simp [SyncState.setSchedule, SyncState.writeStateRecord, hne]⟩

theorem sameCandidate_acknowledge (s : SyncState) {acknowledged : SegmentCandidate}
    (turn : UploadTurn) (hne : candidate ≠ acknowledged) :
    SameCandidate s (s.acknowledge acknowledged turn) candidate := by
  rw [SyncState.acknowledge]
  split
  · exact ⟨rfl, rfl, rfl, rfl⟩
  · cases turn.stateCleared <;> cases turn.deleted <;>
      exact ⟨rfl, by simp [SyncState.writeStateRecord, hne],
        by simp [SyncState.writeStateRecord, hne], by simp [SyncState.writeStateRecord, hne]⟩

/-- A schedule that is written is the stored one. -/
theorem storedSchedule_of_written {record : StateRecord} {schedule : Schedule}
    (hledger : s.ledger candidate = some record) (hjournal : record.journal = some s.identity)
    (hnext : record.nextAttemptUnix = some schedule.due)
    (hinterval : record.nextAttemptIntervalSeconds = some schedule.interval) :
    s.storedSchedule candidate = some schedule := by
  have hread : s.readStateRecord candidate = record := by
    rw [SyncState.readStateRecord, hledger]
    exact if_neg (not_not.mpr hjournal)
  rw [SyncState.storedSchedule, hread, hnext, hinterval, Option.map_some, Option.getD_some,
    Schedule.due, add_sub_cancel_right]

theorem storedSchedule_setSchedule (hjournal : due.state.journal = some s.identity) (answer : Str)
    (count : ℕ) (schedule : Schedule) {write : Write} (hwrite : write ≠ .failed) :
    (s.setSchedule due answer count schedule write).storedSchedule due.candidate =
      some schedule := by
  have hledger : (s.setSchedule due answer count schedule write).ledger due.candidate =
      some (due.state.scheduled answer count schedule) := by
    cases write with
    | failed => exact absurd rfl hwrite
    | done => exact Function.update_self _ _ _
    | landed => exact Function.update_self _ _ _
  have hidentity : (s.setSchedule due answer count schedule write).identity = s.identity := by
    cases write <;> rfl
  exact storedSchedule_of_written hledger (hjournal.trans (congrArg some hidentity.symm)) rfl rfl

theorem floors_setSchedule (s : SyncState) (due : Due) (answer : Str) (count : ℕ)
    (schedule : Schedule) (write : Write) :
    (s.setSchedule due answer count schedule write).floors due.candidate =
      if write = .done then s.floors due.candidate else some schedule := by
  unfold SyncState.setSchedule
  cases write with
  | done => rfl
  | failed => exact Function.update_self _ _ _
  | landed => exact Function.update_self _ _ _

/-- A schedule set by an attempt that was due. -/
theorem candidateScheduled_setSchedule (h : CandidateScheduled s due.candidate)
    (hattempted : Attempted now s due) (answer : Str) (count : ℕ) {schedule : Schedule}
    (hnow : schedule.setAt = now) (hretry : IsRetryInterval schedule.interval) (write : Write) :
    CandidateScheduled (s.setSchedule due answer count schedule write) due.candidate := by
  obtain ⟨hfloors, hstored⟩ := le_of_nextAttempt_le h hattempted.2
  have hjournal : due.state.journal = some s.identity := by
    rw [hattempted.1, journal_readStateRecord]
  -- A failed write leaves the record that was there, another one puts the new schedule there.
  have hledger : ∀ record,
      (s.setSchedule due answer count schedule write).ledger due.candidate = some record →
      (write = .failed ∧ s.ledger due.candidate = some record) ∨
        record = due.state.scheduled answer count schedule := by
    intro record hrecord
    cases write with
    | failed => exact .inl ⟨rfl, hrecord⟩
    | done => exact .inr (Option.some.inj (hrecord.symm.trans (Function.update_self _ _ _)))
    | landed => exact .inr (Option.some.inj (hrecord.symm.trans (Function.update_self _ _ _)))
  have hwritten := @storedSchedule_setSchedule s due hjournal answer count schedule
  refine ⟨fun record hrecord => ?_, fun floor hset => ?_, fun a ha b hb => ?_⟩
  · rcases hledger record hrecord with ⟨-, hold⟩ | rfl
    · exact h.interval record hold
    · exact .inr ⟨schedule.interval, rfl, hretry⟩
  · rw [floors_setSchedule] at hset
    split at hset
    · exact h.floor floor hset
    · obtain rfl := Option.some.inj hset
      exact hretry
  · rw [floors_setSchedule] at hb
    cases write with
    | done =>
      rw [hwritten (by decide)] at ha
      obtain rfl := Option.some.inj ha
      rw [hnow]
      exact .inr (.inl (hfloors b hb))
    | landed =>
      rw [hwritten (by decide)] at ha
      obtain rfl := Option.some.inj ha
      exact .inl (Option.some.inj hb)
    | failed =>
      obtain rfl := Option.some.inj hb
      rw [hnow]
      exact .inr (.inr (hstored a ha))

theorem candidateScheduled_acknowledge (h : CandidateScheduled s candidate) (turn : UploadTurn) :
    CandidateScheduled (s.acknowledge candidate turn) candidate := by
  rw [SyncState.acknowledge]
  split
  · exact h
  · refine ⟨fun record hrecord => ?_, fun floor hfloor => ?_, fun a _ b hb => ?_⟩
    · have hor : record = .default ∨ s.ledger candidate = some record := by
        dsimp only at hrecord
        split at hrecord
        · rw [Function.update_self] at hrecord
          cases hrecord
        · cases hcleared : turn.stateCleared with
          | failed =>
            rw [hcleared] at hrecord
            exact .inr hrecord
          | done =>
            rw [hcleared] at hrecord
            exact .inl (Option.some.inj (hrecord.symm.trans (Function.update_self _ _ _)))
          | landed =>
            rw [hcleared] at hrecord
            exact .inl (Option.some.inj (hrecord.symm.trans (Function.update_self _ _ _)))
      rcases hor with rfl | hledger
      · exact .inl ⟨rfl, rfl⟩
      · exact h.interval record hledger
    · simp at hfloor
    · simp at hb

/-- One upload sets a schedule, or acknowledges the candidate. -/
theorem upload_cases {s' : SyncState} (h : s.upload now due turn = some s') :
    (∃ answer count interval, IsRetryInterval interval ∧
      s' = s.setSchedule due answer count ⟨now, interval⟩ turn.stateWrite) ∨
    s' = s.acknowledge due.candidate turn := by
  have hanswered (answer : Str) : ∃ answer' count interval, IsRetryInterval interval ∧
      s.answered now due answer turn.stateWrite =
        s.setSchedule due answer' count ⟨now, interval⟩ turn.stateWrite :=
    ⟨answer, _, _, isRetryInterval_retryInterval _, rfl⟩
  unfold SyncState.upload at h
  split at h
  · cases h
  · cases h
    exact .inr rfl
  · cases h
    exact .inl (hanswered _)
  · split at h
    · cases h
      exact .inr rfl
    · cases h
      exact .inl (hanswered _)
    · cases h
      exact .inl ⟨_, _, _, .inr rfl, rfl⟩
    · cases h
      exact .inl (hanswered _)

/-- One upload changes nothing of the other candidates. -/
theorem sameCandidate_upload {s' : SyncState} (h : s.upload now due turn = some s')
    (hne : candidate ≠ due.candidate) : SameCandidate s s' candidate := by
  obtain ⟨answer, count, interval, -, rfl⟩ | rfl := upload_cases h
  · exact sameCandidate_setSchedule s due answer count _ _ hne
  · exact sameCandidate_acknowledge s turn hne

theorem sameCandidate_uploadAll {dues : List Due} (hnot : candidate ∉ dues.map Due.candidate)
    (turns : List UploadTurn) :
    SameCandidate s (SyncState.uploadAll now s dues turns) candidate := by
  induction dues generalizing s turns with
  | nil => exact .refl s candidate
  | cons first dues ih =>
    cases turns with
    | nil => exact .refl s candidate
    | cons head turns =>
      rw [List.map_cons, List.mem_cons, not_or] at hnot
      rw [SyncState.uploadAll]
      cases hupload : s.upload now first head with
      | none => exact .refl s candidate
      | some s' => exact (sameCandidate_upload hupload hnot.1).trans (ih hnot.2 turns)

/-- One upload keeps the invariant. -/
theorem scheduled_upload {s' : SyncState} (h : Scheduled s) (hattempted : Attempted now s due)
    (hs' : s.upload now due turn = some s') : Scheduled s' := by
  intro candidate
  by_cases hne : candidate = due.candidate
  · subst hne
    obtain ⟨answer, count, interval, hretry, rfl⟩ | rfl := upload_cases hs'
    · exact candidateScheduled_setSchedule (h _) hattempted answer count rfl hretry _
    · exact candidateScheduled_acknowledge (h _) turn
  · exact (sameCandidate_upload hs' hne).scheduled (h candidate)

theorem attempted_of_mem_uploadDue {visits : List Visit} (h : due ∈ s.uploadDue now visits) :
    Attempted now s due := by
  induction visits with
  | nil => cases h
  | cons visit visits ih =>
    obtain ⟨candidate, sight⟩ := visit
    cases sight with
    | gone => exact ih h
    | unusable => exact ih h
    | acknowledged => exact ih h
    | pending files =>
      rw [SyncState.uploadDue] at h
      split at h
      · exact ih h
      · rename_i hdue
        rcases List.mem_cons.mp h with rfl | h
        · exact ⟨rfl, not_lt.mp hdue⟩
        · exact ih h

theorem uploadDue_sublist (s : SyncState) (now : ℤ) (visits : List Visit) :
    ((s.uploadDue now visits).map Due.candidate).Sublist (visits.map Visit.candidate) := by
  induction visits with
  | nil => exact .slnil
  | cons visit visits ih =>
    obtain ⟨candidate, sight⟩ := visit
    cases sight with
    | gone => exact ih.cons _
    | unusable => exact ih.cons _
    | acknowledged => exact ih.cons _
    | pending files =>
      rw [SyncState.uploadDue]
      split
      · exact ih.cons _
      · exact ih.cons_cons _

theorem scheduled_uploadAll {dues : List Due} (hdues : (dues.map Due.candidate).Nodup)
    (hattempted : ∀ due ∈ dues, Attempted now s due) (h : Scheduled s) (turns : List UploadTurn) :
    Scheduled (SyncState.uploadAll now s dues turns) := by
  induction dues generalizing s turns with
  | nil => exact h
  | cons due dues ih =>
    cases turns with
    | nil => exact h
    | cons turn turns =>
      rw [SyncState.uploadAll]
      cases hupload : s.upload now due turn with
      | none => exact h
      | some s' =>
        have hs' := scheduled_upload h (hattempted due List.mem_cons_self) hupload
        rw [List.map_cons, List.nodup_cons] at hdues
        refine ih hdues.2 (fun other hother => ?_) hs' turns
        have hne : other.candidate ≠ due.candidate := fun heq =>
          hdues.1 (heq ▸ List.mem_map_of_mem hother)
        exact (sameCandidate_upload hupload hne).attempted
          (hattempted other (List.mem_cons_of_mem _ hother))

theorem scheduled_step (h : Scheduled s) (step : SyncState.Step) : Scheduled (s.step step) := by
  cases step with
  | sweep input =>
    exact scheduled_uploadAll (input.nodup.sublist (uploadDue_sublist s input.now input.visits))
      (fun _ => attempted_of_mem_uploadDue) h input.turns
  | forget forgotten =>
    intro candidate
    by_cases hne : candidate = forgotten
    · subst hne
      have hnone : (s.step (.forget candidate)).ledger candidate = none := Function.update_self _ _ _
      refine ⟨fun record hrecord => ?_, (h candidate).floor, fun a ha => ?_⟩
      · rw [hnone] at hrecord
        cases hrecord
      · obtain ⟨record, hrecord, -⟩ := storedSchedule_eq_some ha
        rw [hnone] at hrecord
        cases hrecord
    · have hsame : SameCandidate s (s.step (.forget forgotten)) candidate :=
        ⟨rfl, rfl, Function.update_of_ne hne _ _, rfl⟩
      exact hsame.scheduled (h candidate)
  | restart identity =>
    exact fun candidate => ⟨(h candidate).interval, nofun, nofun⟩

/-- A sweep that leaves a candidate out changes nothing of it. -/
theorem sameCandidate_sweep {input : SweepInput}
    (h : input.now < s.nextAttempt input.now candidate) :
    SameCandidate s (s.sweep input) candidate := by
  refine sameCandidate_uploadAll (fun hmem => ?_) input.turns
  obtain ⟨due, hdue, rfl⟩ := List.mem_map.mp hmem
  exact absurd (attempted_of_mem_uploadDue hdue).2 (not_le.mpr h)

theorem sameCandidate_of_leaveOut {inputs : List SweepInput}
    (h : SyncState.LeaveOut candidate s inputs) :
    SameCandidate s (inputs.foldl SyncState.sweep s) candidate := by
  induction inputs generalizing s with
  | nil => exact .refl s candidate
  | cons input inputs ih => exact (sameCandidate_sweep h.1).trans (ih h.2)

/-- A candidate is left out for at most the interval recorded last exactly when the clock is not set
back behind its schedules. -/
theorem deferralBounded_iff (h : CandidateScheduled s candidate) :
    s.DeferralBounded now candidate ↔ s.SetBefore now candidate := by
  have hday : (s.lastInterval candidate : ℤ) ≤ 86400 := by
    rcases Schedule.isRetryInterval_lastInterval h.stored h.floor with heq | heq <;>
      rw [SyncState.lastInterval, heq] <;> decide
  rw [SyncState.SetBefore, ← Schedule.bounded_iff h.stored h.floor h.apart]
  constructor
  · intro hbounded hnow
    rw [← nextAttempt_eq] at hnow ⊢
    refine ⟨(hbounded hnow).2.1, fun later hlater => ?_⟩
    rw [← nextAttempt_eq]
    exact (hbounded hnow).2.2 [] trivial later hlater
  · intro hbounded hnow
    rw [nextAttempt_eq] at hnow
    obtain ⟨hinterval, hlater⟩ := hbounded hnow
    have hnext : s.nextAttempt now candidate ≤ now + s.lastInterval candidate := by
      rw [nextAttempt_eq]
      exact hinterval
    refine ⟨by omega, hnext, fun inputs hout later hle => ?_⟩
    rw [(sameCandidate_of_leaveOut hout).nextAttempt, nextAttempt_eq]
    exact hlater later hle

end Steps

theorem scheduled_after (identity : JournalIdentity) (steps : List SyncState.Step) :
    Scheduled (SyncState.after identity steps) := by
  induction steps using List.reverseRecOn with
  | nil => exact fun candidate => ⟨nofun, nofun, nofun⟩
  | append_singleton steps step ih =>
    rw [SyncState.after, List.foldl_append]
    exact scheduled_step ih step

/-- After every run and at every wall time, a candidate that is left out is left out for at most a
day and at most the interval recorded last, and not after it, exactly when the clock is not set back
behind a schedule that is held for it; and a record of another journal makes no difference. -/
theorem deferral_bounded_iff (identity : JournalIdentity) (steps : List SyncState.Step) (now : ℤ)
    (candidate : SegmentCandidate) :
    ((SyncState.after identity steps).DeferralBounded now candidate ↔
      (SyncState.after identity steps).SetBefore now candidate) ∧
    ∀ record, (SyncState.after identity steps).ledger candidate = some record →
      record.journal ≠ some (SyncState.after identity steps).identity →
        (SyncState.after identity steps).nextAttempt now candidate =
          ((SyncState.after identity steps).step (.forget candidate)).nextAttempt now candidate := by
  refine ⟨deferralBounded_iff (scheduled_after identity steps candidate),
    fun record hrecord hjournal => ?_⟩
  have hforeign : (SyncState.after identity steps).readStateRecord candidate =
      ((SyncState.after identity steps).step (.forget candidate)).readStateRecord candidate := by
    have hnone : ((SyncState.after identity steps).step (.forget candidate)).ledger candidate = none :=
      Function.update_self _ _ _
    rw [SyncState.readStateRecord, SyncState.readStateRecord, hrecord, hnone]
    dsimp only [Option.getD_some, Option.getD_none]
    rw [if_pos hjournal, if_pos nofun]
    rfl
  rw [SyncState.nextAttempt, SyncState.nextAttempt, hforeign]
  rfl

/-! ## A clock that is set back -/

/-- A journal. -/
def soleJournal : JournalIdentity := ⟨[], [], []⟩

/-- A candidate. -/
def soleCandidate : SegmentCandidate := ⟨"20260701".toList, "s".toList, "120000_300".toList⟩

/-- A sweep of the candidate at a wall time; the journal keeps it for later. -/
def retainedSweep (now : ℤ) (stateWrite : Write) : SweepInput where
  now := now
  visits := [⟨soleCandidate, .pending []⟩]
  turns := [⟨.retain "busy".toList, stateWrite, true, .done, false⟩]
  nodup := by decide

/-- The clock is ten days ahead in a first sweep and then set right. A floor of this sweep is ten
days ahead; a written schedule is cut to an hour, but a day later the candidate is still left
out. -/
theorem schedule_outlives_clock :
    ¬ (SyncState.after soleJournal [.sweep (retainedSweep 1780864000 .failed)]).DeferralBounded
        1780000000 soleCandidate ∧
      ¬ (SyncState.after soleJournal [.sweep (retainedSweep 1780864000 .done)]).DeferralBounded
        1780000000 soleCandidate := by
  have hfloor : (SyncState.after soleJournal
      [.sweep (retainedSweep 1780864000 .failed)]).nextAttempt 1780000000 soleCandidate =
        1780867600 := by decide
  have hnow : (SyncState.after soleJournal
      [.sweep (retainedSweep 1780864000 .done)]).nextAttempt 1780000000 soleCandidate =
        1780003600 := by decide
  have hnext : ((SyncState.after soleJournal
      [.sweep (retainedSweep 1780864000 .done)]).sweep (retainedSweep 1780000000 .done)).nextAttempt
        1780086400 soleCandidate = 1780090000 := by decide
  have hinterval : (SyncState.after soleJournal
      [.sweep (retainedSweep 1780864000 .done)]).lastInterval soleCandidate = 3600 := by decide
  constructor
  · rw [SyncState.DeferralBounded, hfloor]
    omega
  · intro h
    have hlate := (h (by rw [hnow]; decide)).2.2 [retainedSweep 1780000000 .done]
      ⟨by rw [show (retainedSweep 1780000000 .done).now = 1780000000 from rfl, hnow]; decide,
        trivial⟩ 1780086400 (by rw [hinterval]; decide)
    rw [List.foldl_cons, List.foldl_nil, hnext] at hlate
    omega

end SolstoneTmux
