import Mathlib.Algebra.Group.Nat.Defs
import Mathlib.Data.List.Basic
import Mathlib.Tactic.Common

/-!
# The post-connect coordinator

After a connection two optional lanes of work run, `metadata` and `access`. A `BurstState` is shared
by both: a lane runs a first pass and at most one coalesced follow-up in it. `Coordinator.step` is
one call of a method of the coordinator, and answers with the jobs that the call spawns.
-/

namespace SolstoneTmux.PostConnect

/-- The two lanes of a burst. -/
inductive Lane
  | metadata
  | access
  deriving DecidableEq

/-- `LaneBurst`. -/
structure LaneBurst where
  passCount : ℕ
  inFlight : Bool
  followUpRequested : Bool
  attemptId : ℕ
  deriving DecidableEq

/-- `LaneBurst::default`. -/
def LaneBurst.initial : LaneBurst where
  passCount := 0
  inFlight := false
  followUpRequested := false
  attemptId := 0

/-- `BurstState`. -/
structure BurstState where
  active : Bool
  burstId : ℕ
  metadata : LaneBurst
  access : LaneBurst
  deferredMetadata : Bool
  deriving DecidableEq

namespace BurstState

/-- `BurstState::default`. -/
def initial : BurstState where
  active := false
  burstId := 0
  metadata := .initial
  access := .initial
  deferredMetadata := false

/-- The state of a lane. -/
def lane (b : BurstState) : Lane → LaneBurst
  | .metadata => b.metadata
  | .access => b.access

/-- The burst that is opened after this one. -/
def opened (b : BurstState) : BurstState where
  active := true
  burstId := (b.burstId + 1) % 2 ^ 64
  metadata := .initial
  access := .initial
  deferredMetadata := false

end BurstState

/-- `PostConnectCoordinator`, as far as the bursts go. -/
structure Coordinator where
  alive : Bool
  attemptCounter : ℕ
  burst : BurstState
  deriving DecidableEq

/-- `PostConnectCoordinator::new`. -/
def Coordinator.new : Coordinator where
  alive := true
  attemptCounter := 0
  burst := .initial

/-! ## Lanes -/

/-- A lane after a call, the attempt counter, and the attempt that starts. -/
structure LaneOutcome where
  lane : LaneBurst
  counter : ℕ
  attempt : Option ℕ

/-- `start_lane`. -/
def startLane (lane : LaneBurst) (counter : ℕ) : LaneOutcome :=
  if lane.inFlight || 2 ≤ lane.passCount then ⟨lane, counter, none⟩
  else
    let attempt := (counter + 1) % 2 ^ 64
    { lane := { lane with passCount := lane.passCount + 1, inFlight := true, attemptId := attempt }
      counter := attempt
      attempt := some attempt }

/-- `request_follow_up`. -/
def requestFollowUp (lane : LaneBurst) (counter : ℕ) : LaneOutcome :=
  if 2 ≤ lane.passCount then ⟨lane, counter, none⟩
  else if lane.inFlight then ⟨{ lane with followUpRequested := true }, counter, none⟩
  else startLane lane counter

/-- A lane whose attempt is over. -/
def completeLane (alive : Bool) (lane : LaneBurst) (counter : ℕ) : LaneOutcome :=
  let finished := { lane with inFlight := false, followUpRequested := false }
  if lane.followUpRequested && lane.passCount < 2 && alive then startLane finished counter
  else ⟨finished, counter, none⟩

/-! ## Calls -/

/-- A job that a call spawns: `spawn_metadata_job` or `spawn_relay_access_job`. -/
structure Job where
  lane : Lane
  attempt : ℕ
  deriving DecidableEq

/-- What a call does besides changing the coordinator. -/
structure Effects where
  spawned : List Job
  quiesced : Bool

/-- A call that does nothing. -/
def Effects.none : Effects := ⟨[], false⟩

/-- The job of an attempt that starts. -/
def jobOf (lane : Lane) (attempt : Option ℕ) : List Job := (attempt.map (⟨lane, ·⟩)).toList

/-- `finish_if_quiescent`. -/
def finishIfQuiescent (b : BurstState) : BurstState × Bool :=
  if !b.metadata.inFlight && !b.access.inFlight && !b.metadata.followUpRequested &&
      !b.access.followUpRequested then
    ({ b with active := false }, true)
  else (b, false)

namespace Coordinator

/-- Both lanes take the same step, `metadata` first. -/
def bothLanes (c : Coordinator) (b : BurstState) (f : LaneBurst → ℕ → LaneOutcome) :
    Coordinator × Effects :=
  let metadata := f b.metadata c.attemptCounter
  let access := f b.access metadata.counter
  ({ c with
      attemptCounter := access.counter
      burst := { b with metadata := metadata.lane, access := access.lane } },
    ⟨jobOf .metadata metadata.attempt ++ jobOf .access access.attempt, false⟩)

/-- `trigger_external`. -/
def triggerExternal (c : Coordinator) : Coordinator × Effects :=
  if !c.alive then (c, .none)
  else if !c.burst.active then c.bothLanes c.burst.opened startLane
  else c.bothLanes c.burst requestFollowUp

/-- `note_successful_dial`. -/
def noteSuccessfulDial (c : Coordinator) : Coordinator × Effects :=
  if !c.burst.active then c.triggerExternal else (c, .none)

/-- `on_metadata_complete`. -/
def onMetadataComplete (c : Coordinator) (attemptId : ℕ) : Coordinator × Effects :=
  let lane := c.burst.metadata
  if lane.attemptId ≠ attemptId then (c, .none)
  else
    let deferred := lane.followUpRequested && 2 ≤ lane.passCount
    let next := completeLane c.alive lane c.attemptCounter
    let finished := finishIfQuiescent { c.burst with
      metadata := next.lane
      deferredMetadata := deferred || c.burst.deferredMetadata }
    ({ c with attemptCounter := next.counter, burst := finished.1 },
      ⟨jobOf .metadata next.attempt, finished.2⟩)

/-- `on_access_complete`. -/
def onAccessComplete (c : Coordinator) (attemptId : ℕ) : Coordinator × Effects :=
  let lane := c.burst.access
  if lane.attemptId ≠ attemptId then (c, .none)
  else
    let next := completeLane c.alive lane c.attemptCounter
    let finished := finishIfQuiescent { c.burst with access := next.lane }
    ({ c with attemptCounter := next.counter, burst := finished.1 },
      ⟨jobOf .access next.attempt, finished.2⟩)

/-- `shutdown`. -/
def shutdown (c : Coordinator) : Coordinator × Effects :=
  ({ c with
      alive := false
      burst := { c.burst with
        metadata := { c.burst.metadata with followUpRequested := false }
        access := { c.burst.access with followUpRequested := false } } }, .none)

end Coordinator

/-- A call of a method. -/
inductive Call
  | trigger
  | dial
  | complete (lane : Lane) (attempt : ℕ)
  | shutdown
  deriving DecidableEq

/-- One call. -/
def Coordinator.step (c : Coordinator) : Call → Coordinator × Effects
  | .trigger => c.triggerExternal
  | .dial => c.noteSuccessfulDial
  | .complete .metadata attempt => c.onMetadataComplete attempt
  | .complete .access attempt => c.onAccessComplete attempt
  | .shutdown => c.shutdown

/-! ## Runs -/

/-- A pass that was started, with the number of the burst that it was started in. -/
structure Pass where
  lane : Lane
  attempt : ℕ
  burst : ℕ
  deriving DecidableEq

/-- A coordinator with what can be seen of its run from outside: the bursts that were opened, the
passes that were started, and for each lane the attempts that have not completed. -/
structure Observed where
  coordinator : Coordinator
  bursts : ℕ
  passes : List Pass
  running : Lane → List ℕ

namespace Observed

/-- Before any call. -/
def initial : Observed := ⟨.new, 0, [], fun _ => []⟩

/-- The attempts that a call leaves running: a completion ends one of them. -/
def stillRunning (o : Observed) (lane : Lane) : Call → List ℕ
  | .complete completed attempt =>
    if completed = lane then (o.running lane).erase attempt else o.running lane
  | _ => o.running lane

/-- The attempts of one lane that are spawned. -/
def attemptsOf (lane : Lane) (jobs : List Job) : List ℕ :=
  (jobs.filter (·.lane = lane)).map Job.attempt

/-- One call, observed. -/
def step (o : Observed) (call : Call) : Observed :=
  let result := o.coordinator.step call
  let bursts := if !o.coordinator.burst.active && result.1.burst.active then o.bursts + 1
    else o.bursts
  { coordinator := result.1
    bursts := bursts
    passes := o.passes ++ result.2.spawned.map fun job => ⟨job.lane, job.attempt, bursts⟩
    running := fun lane => o.stillRunning lane call ++ attemptsOf lane result.2.spawned }

/-- The passes of a lane in one burst. -/
def passesIn (o : Observed) (lane : Lane) (burst : ℕ) : List Pass :=
  o.passes.filter fun pass => pass.lane = lane ∧ pass.burst = burst

end Observed

/-- A run of calls, observed from the start. -/
def observe (calls : List Call) : Observed := calls.foldl Observed.step .initial

end SolstoneTmux.PostConnect
