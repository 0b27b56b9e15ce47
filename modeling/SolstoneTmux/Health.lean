import Mathlib.Data.Int.Order.Basic
import Mathlib.Order.Lattice
import SolstoneTmux.Foundations.Text

/-!
# Health snapshots

The uploader writes what it knows about the link to the journal into a snapshot, with the state that
its rule gives at that time (`SyncFacts.stateAt`). `solstone-tmux status` reads the snapshot later
and lets live states end by a rule of its own (`stateNow`), on the fields that the snapshot keeps.

`snapshot_holds_iff` compares the two rules. They agree on connected and syncing. The instant since
which the journal has not been reached is not in the snapshot, so connecting lasts again from the
writing on: the reader may show it after it has ended.
-/

namespace SolstoneTmux

open Foundations

/-! ## Facts -/

/-- `DiagnosticCode`. -/
inductive DiagnosticCode
  | setupInputInvalid
  | setupUnavailable
  | pairingFailed
  | privateStateInvalid
  | privateStateIo
  | healthSnapshotIo
  | bridgeUnavailable
  | journalUnavailable
  | journalTimeout
  | journalResponseTooLarge
  | journalContractInvalid
  | configuredStreamMismatch
  | localSegmentInvalid
  | requestTooLarge
  | journalRejected
  | journalRevoked
  | syncTaskExited
  | syncTaskPanicked
  | syncTaskCancelled
  | syncTaskTimedOut
  | indicatorUpdateFailed
  deriving DecidableEq

/-- `HealthState`. -/
inductive HealthState
  | unpaired
  | held
  | connected
  | syncing
  | connecting
  | offline
  | updateNeeded
  | revoked
  deriving DecidableEq

/-- `i64::saturating_sub`. -/
def saturatingSub (a b : ℤ) : ℤ := max (-2 ^ 63) (min (2 ^ 63 - 1) (a - b))

theorem saturatingSub_mono {t t' : ℤ} (h : t ≤ t') (b : ℤ) :
    saturatingSub t b ≤ saturatingSub t' b := by
  unfold saturatingSub
  omega

/-- `CONNECTED_LEASE_SECONDS`: the interval of periodic sweeps, the timeout of a status check and one
second. -/
def connectedLeaseSeconds : ℤ := 60 + 5 + 1

/-- `OFFLINE_AFTER_SECONDS`. -/
def offlineAfterSeconds : ℤ := 30

/-- `within_lease`. -/
def withinLease (contact now : ℤ) : Bool := saturatingSub now contact ≤ connectedLeaseSeconds

/-- `SyncFacts`. -/
structure SyncFacts where
  paired : Bool
  held : Bool
  syncInProgress : Bool
  pendingSegments : ℕ
  lastSuccessfulContact : Option ℤ
  lastSuccessfulSync : Option ℤ
  recentErrorCount : ℕ
  lastErrorCode : Option DiagnosticCode
  episodeStarted : Option ℤ
  deriving DecidableEq

namespace SyncFacts

/-- `SyncFacts::successful_contact`. -/
def successfulContact (facts : SyncFacts) (now : ℤ) : SyncFacts :=
  { facts with lastSuccessfulContact := some now, recentErrorCount := 0, lastErrorCode := none }

/-- `SyncFacts::successful_sync`. -/
def successfulSync (facts : SyncFacts) (now : ℤ) : SyncFacts :=
  { facts.successfulContact now with lastSuccessfulSync := some now }

/-- `SyncFacts::failed`. -/
def failed (facts : SyncFacts) (code : DiagnosticCode) : SyncFacts :=
  { facts with
    recentErrorCount := min (facts.recentErrorCount + 1) (2 ^ 32 - 1)
    lastErrorCode := some code }

/-- The journal answered within the lease, and nothing but a timeout went wrong since. -/
def linkUp (facts : SyncFacts) (now : ℤ) : Bool :=
  facts.paired && facts.lastSuccessfulContact.any (withinLease · now) &&
    facts.lastErrorCode ∈ [none, some .journalTimeout]

/-- The failures that show as `update_needed`. -/
def needsUpdate : DiagnosticCode → Bool
  | .journalContractInvalid | .configuredStreamMismatch | .privateStateInvalid | .privateStateIo
  | .healthSnapshotIo => true
  | _ => false

/-- The later of the journal's last answer and the start of the current attempt to reach it. -/
def unreachedSince (facts : SyncFacts) : Option ℤ :=
  match facts.lastSuccessfulContact, facts.episodeStarted with
  | some contact, some episode => some (max contact episode)
  | some contact, none => some contact
  | none, episode => episode

/-- `SyncFacts::state_at`. -/
def stateAt (facts : SyncFacts) (now : ℤ) : HealthState :=
  if facts.linkUp now && facts.syncInProgress then .syncing
  else if facts.lastErrorCode.any needsUpdate then .updateNeeded
  else if facts.held then .held
  else if !facts.paired then .unpaired
  else if facts.lastErrorCode = some .journalRevoked then .revoked
  else if facts.linkUp now then .connected
  else match facts.unreachedSince with
    | some since => if saturatingSub now since < offlineAfterSeconds then .connecting else .offline
    | none => .offline

end SyncFacts

/-! ## Snapshots -/

/-- `HEALTH_SCHEMA_VERSION`. -/
def healthSchemaVersion : ℕ := 1

/-- `RunIdentity`. -/
structure RunIdentity where
  runId : Str
  lockInode : ℕ
  deriving DecidableEq

/-- `HealthSnapshot`. -/
structure HealthSnapshot where
  schemaVersion : ℕ
  runId : Str
  lockInode : ℕ
  updatedAt : ℤ
  state : HealthState
  paired : Bool
  syncInProgress : Bool
  pendingSegments : ℕ
  lastSuccessfulContact : Option ℤ
  lastSuccessfulSync : Option ℤ
  recentErrorCount : ℕ
  lastErrorCode : Option DiagnosticCode
  deriving DecidableEq

/-- The snapshot that `HealthWriter::write` stores. -/
def SyncFacts.snapshot (facts : SyncFacts) (identity : RunIdentity) (now : ℤ) : HealthSnapshot where
  schemaVersion := healthSchemaVersion
  runId := identity.runId
  lockInode := identity.lockInode
  updatedAt := now
  state := facts.stateAt now
  paired := facts.paired
  syncInProgress := facts.syncInProgress
  pendingSegments := facts.pendingSegments
  lastSuccessfulContact := facts.lastSuccessfulContact
  lastSuccessfulSync := facts.lastSuccessfulSync
  recentErrorCount := facts.recentErrorCount
  lastErrorCode := facts.lastErrorCode

/-- `state_now`. -/
def stateNow (snapshot : HealthSnapshot) (now : ℤ) : HealthState :=
  match snapshot.state with
  | .connected | .syncing =>
    if snapshot.lastSuccessfulContact.any (withinLease · now) then snapshot.state else .offline
  | .connecting =>
    if offlineAfterSeconds ≤ saturatingSub now snapshot.updatedAt then .offline else .connecting
  | state => state

/-- `valid_snapshot`. -/
def validSnapshot (snapshot : HealthSnapshot) : Bool :=
  snapshot.schemaVersion = healthSchemaVersion && (utf8 snapshot.runId).length = 32 &&
    snapshot.runId.all isHexDigit &&
    match snapshot.state with
    | .unpaired => !snapshot.paired && !snapshot.syncInProgress
    | .held => snapshot.paired && !snapshot.syncInProgress
    | .syncing =>
      snapshot.paired && snapshot.syncInProgress && snapshot.lastSuccessfulContact.isSome
    | .connected =>
      snapshot.paired && !snapshot.syncInProgress && snapshot.lastSuccessfulContact.isSome &&
        snapshot.lastErrorCode ∈ [none, some .journalTimeout]
    | .updateNeeded => true
    | .connecting | .offline | .revoked => snapshot.paired

/-- `ExistingLock`. -/
inductive ExistingLock
  | locked (identity : RunIdentity)
  | unlocked (identity : RunIdentity)
  | missingOrInvalid

/-- `StatusHealth`. -/
inductive StatusHealth
  | unknown
  | stale
  | live (state : HealthState)
  deriving DecidableEq

/-- `read_status_health`, of what the snapshot file holds if it can be read, and of the instance
lock. The sum of a time and the tolerance is an `i64`. -/
def readStatusHealth (file : Option HealthSnapshot) (lock : ExistingLock) (now : ℤ) :
    StatusHealth :=
  match file with
  | none => .unknown
  | some snapshot =>
    if !validSnapshot snapshot then .unknown
    else match lock with
      | .missingOrInvalid => .unknown
      | .unlocked _ => .stale
      | .locked identity =>
        if snapshot.runId ≠ identity.runId || snapshot.lockInode ≠ identity.lockInode ||
            Int.bmod (now + 60) (2 ^ 64) < snapshot.updatedAt ||
            180 < saturatingSub now snapshot.updatedAt then
          .stale
        else .live (stateNow snapshot now)

/-! ## Agreement of the two rules -/

namespace SyncFacts

variable {facts : SyncFacts} {t t' : ℤ}

/-- An answer that is within the lease was within it before. -/
theorem withinLease_of_le {contact : ℤ} (hle : t ≤ t') (h : withinLease contact t' = true) :
    withinLease contact t = true := by
  simp only [withinLease, decide_eq_true_eq] at h ⊢
  exact (saturatingSub_mono hle contact).trans h

theorem linkUp_of_le (hle : t ≤ t') (h : facts.linkUp t' = true) : facts.linkUp t = true := by
  simp only [linkUp, Bool.and_eq_true, Option.any_eq_true] at h ⊢
  obtain ⟨⟨hpaired, contact, hcontact, hlease⟩, hcode⟩ := h
  exact ⟨⟨hpaired, contact, hcontact, withinLease_of_le hle hlease⟩, hcode⟩

/-- The journal is being tried: the device is paired, nothing holds it back, and the link is not
up. -/
structure Reaching (facts : SyncFacts) (now : ℤ) : Prop where
  paired : facts.paired = true
  notHeld : facts.held = false
  notUpdate : facts.lastErrorCode.any needsUpdate = false
  notRevoked : facts.lastErrorCode ≠ some .journalRevoked
  notUp : facts.linkUp now = false

theorem Reaching.later (h : facts.Reaching t) (hle : t ≤ t') : facts.Reaching t' :=
  ⟨h.paired, h.notHeld, h.notUpdate, h.notRevoked, by
    by_contra hup
    rw [Bool.not_eq_false] at hup
    exact absurd (linkUp_of_le hle hup) (by rw [h.notUp]; decide)⟩

/-- Connecting is the state of a device that tries for less than the time after which it is
offline. -/
theorem stateAt_eq_connecting_iff :
    facts.stateAt t = .connecting ↔ facts.Reaching t ∧
      ∃ since, facts.unreachedSince = some since ∧
        saturatingSub t since < offlineAfterSeconds := by
  constructor
  · intro h
    unfold stateAt at h
    split at h
    · cases h
    split at h
    · cases h
    split at h
    · cases h
    split at h
    · cases h
    split at h
    · cases h
    split at h
    · cases h
    rename_i hupdate hheld hpaired hrevoked hup
    refine ⟨⟨by simpa using hpaired, by simpa using hheld, by simpa using hupdate, hrevoked,
      by simpa using hup⟩, ?_⟩
    split at h
    · rename_i since hsince
      split at h
      · rename_i hshort
        exact ⟨since, hsince, hshort⟩
      · cases h
    · cases h
  · rintro ⟨hreach, since, hsince, hshort⟩
    simp [stateAt, hreach.paired, hreach.notHeld, hreach.notUpdate, hreach.notRevoked,
      hreach.notUp, hsince, hshort]

/-- With the link up, the state is that of the flags. -/
theorem stateAt_of_linkUp (h : facts.linkUp t = true) (h' : facts.linkUp t' = true) :
    facts.stateAt t = facts.stateAt t' := by
  simp [stateAt, h, h']

/-- Connected and syncing are states of a link that is up. -/
theorem linkUp_of_stateAt (h : facts.stateAt t = .connected ∨ facts.stateAt t = .syncing) :
    facts.linkUp t = true := by
  by_contra hup
  rw [Bool.not_eq_true] at hup
  have hstate : ∀ state ∈ [HealthState.connected, .syncing], facts.stateAt t ≠ state := by
    intro state hstate
    unfold stateAt
    simp only [hup, Bool.false_and, Bool.false_eq_true, if_false]
    simp only [List.mem_cons, List.not_mem_nil, or_false] at hstate
    rcases hstate with rfl | rfl <;> (repeat' split) <;> simp
  rcases h with h | h
  · exact hstate _ (by simp) h
  · exact hstate _ (by simp) h

/-- A link that was up is up as long as its last answer is within the lease. -/
theorem linkUp_of_withinLease (h : facts.linkUp t = true)
    (hlease : facts.lastSuccessfulContact.any (withinLease · t') = true) :
    facts.linkUp t' = true := by
  simp only [linkUp, Bool.and_eq_true] at h ⊢
  exact ⟨⟨h.1.1, hlease⟩, h.2⟩

end SyncFacts

/-- The live states. -/
def HealthState.isLive : HealthState → Bool
  | .connected | .syncing | .connecting => true
  | _ => false

/-- A live state that is shown is the state by the writer's rule. -/
def HoldsWhenRead (facts : SyncFacts) (identity : RunIdentity) (written read : ℤ) : Prop :=
  (stateNow (facts.snapshot identity written) read).isLive = true →
    facts.stateAt read = stateNow (facts.snapshot identity written) read

/-- The attempt to reach the journal is short when the snapshot is written and is over when it is
read, and the snapshot itself is young. -/
def EndsUnnoticed (facts : SyncFacts) (written read : ℤ) : Prop :=
  facts.Reaching written ∧ ∃ since, facts.unreachedSince = some since ∧
    saturatingSub written since < offlineAfterSeconds ∧
    offlineAfterSeconds ≤ saturatingSub read since ∧
    saturatingSub read written < offlineAfterSeconds

/-- A live link that is shown is the state by the writer's rule. -/
theorem holdsWhenRead_of_linkUp {facts : SyncFacts} {identity : RunIdentity} {written read : ℤ}
    (h : facts.stateAt written = .connected ∨ facts.stateAt written = .syncing) :
    HoldsWhenRead facts identity written read := by
  intro hlive
  have hup := SyncFacts.linkUp_of_stateAt h
  have hshown : stateNow (facts.snapshot identity written) read =
      if facts.lastSuccessfulContact.any (withinLease · read) then facts.stateAt written
      else .offline := by
    rcases h with h | h <;> simp only [stateNow, SyncFacts.snapshot, h]
  rw [hshown] at hlive ⊢
  split at hlive
  · rename_i hlease
    rw [if_pos hlease]
    exact SyncFacts.stateAt_of_linkUp (SyncFacts.linkUp_of_withinLease hup hlease) hup
  · cases hlive

/-- A young snapshot of an attempt to reach the journal shows that attempt. -/
theorem stateNow_of_connecting {facts : SyncFacts} (identity : RunIdentity) {written : ℤ}
    (h : facts.stateAt written = .connecting) (read : ℤ) :
    stateNow (facts.snapshot identity written) read =
      if offlineAfterSeconds ≤ saturatingSub read written then .offline else .connecting := by
  simp only [stateNow, SyncFacts.snapshot, h]

/-- What a snapshot shows as live still holds when it is read, except where an attempt to reach the
journal ends while its snapshot is young. -/
theorem snapshot_holds_iff (facts : SyncFacts) (identity : RunIdentity) (written read : ℤ)
    (hle : written ≤ read) :
    HoldsWhenRead facts identity written read ↔ ¬ EndsUnnoticed facts written read := by
  constructor
  · rintro hholds ⟨hreach, since, hsince, hshort, hlong, hyoung⟩
    have hstate := SyncFacts.stateAt_eq_connecting_iff.mpr ⟨hreach, since, hsince, hshort⟩
    have hshown := stateNow_of_connecting identity hstate read
    rw [if_neg (not_le_of_gt hyoung)] at hshown
    rw [HoldsWhenRead, hshown] at hholds
    obtain ⟨-, since', hsince', hstill⟩ := SyncFacts.stateAt_eq_connecting_iff.mp (hholds rfl)
    rw [hsince] at hsince'
    cases hsince'
    exact absurd hstill (not_lt_of_ge hlong)
  · intro hends
    cases hstate : facts.stateAt written with
    | connected => exact holdsWhenRead_of_linkUp (.inl hstate)
    | syncing => exact holdsWhenRead_of_linkUp (.inr hstate)
    | connecting =>
      intro hlive
      obtain ⟨hreach, since, hsince, hshort⟩ := SyncFacts.stateAt_eq_connecting_iff.mp hstate
      rw [stateNow_of_connecting identity hstate read] at hlive ⊢
      split at hlive
      · cases hlive
      · rename_i hyoung
        rw [if_neg hyoung, SyncFacts.stateAt_eq_connecting_iff]
        refine ⟨hreach.later hle, since, hsince, ?_⟩
        by_contra hlong
        exact hends ⟨hreach, since, hsince, hshort, not_lt.mp hlong, not_le.mp hyoung⟩
    | unpaired | held | offline | updateNeeded | revoked =>
      intro hlive
      simp only [stateNow, SyncFacts.snapshot, hstate] at hlive
      cases hlive

/-- A device that began to try the journal at 100 and did not reach it. -/
def unreachedSinceStart : SyncFacts where
  paired := true
  held := false
  syncInProgress := false
  pendingSegments := 0
  lastSuccessfulContact := none
  lastSuccessfulSync := none
  recentErrorCount := 1
  lastErrorCode := some .journalUnavailable
  episodeStarted := some 100

/-- The identity of a run. -/
def someRun : RunIdentity := ⟨"0123456789abcdef0123456789abcdef".toList, 7⟩

/-- A snapshot of the 20th second, read 20 seconds later, says connecting. By the writer's rule the
device has been offline for 10 seconds then. -/
theorem connecting_outlives_attempt :
    readStatusHealth (some (unreachedSinceStart.snapshot someRun 120)) (.locked someRun) 140 =
        .live .connecting ∧
      unreachedSinceStart.stateAt 140 = .offline ∧
        ¬ HoldsWhenRead unreachedSinceStart someRun 120 140 := by
  have hstate : unreachedSinceStart.stateAt 140 = .offline := by decide
  have hshown : stateNow (unreachedSinceStart.snapshot someRun 120) 140 = .connecting := by decide
  refine ⟨by decide, hstate, fun hholds => ?_⟩
  rw [HoldsWhenRead, hshown, hstate] at hholds
  cases hholds rfl

/-- Read 9 seconds after the writing, the same snapshot still holds. -/
theorem snapshot_holds_young : HoldsWhenRead unreachedSinceStart someRun 120 129 :=
  (snapshot_holds_iff unreachedSinceStart someRun 120 129 (by decide)).mpr fun h => by
    obtain ⟨-, since, hsince, -, hlong, -⟩ := h
    cases hsince
    exact absurd hlong (by decide)

end SolstoneTmux
