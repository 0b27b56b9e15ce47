import Mathlib.Logic.Relation
import Mathlib.Logic.Function.Basic
import SolstoneTmux.Foundations.Events

/-!
# Removals and the end of the program

The sync task removes segments that were acknowledged. A removal takes a permit of the retention
fence, which its blocking worker keeps: the worker goes on when the sync task is aborted. Before the
program gives the instance lock back, `close_and_drain` closes the fence and waits for the permit.

`Supervision.Step` is one step of the sync task, its workers, the observer or the supervisor. The
end of the sync task (`endSync`) may come at any point, as a panic or an abort makes it; so may the
deadline of `stop_sync_with_deadline`. `retention_ends` says of every run that no file is
changed after the fence is drained, that it is drained before the instance lock is dropped, and that
the observer's last segment is closed after the end of the sync task.
-/

namespace SolstoneTmux

open Foundations

/-! ## The parties -/

/-- A blocking worker of a removal. -/
inductive WorkerState
  | unspawned
  | queued
  | running
  | ended
  deriving DecidableEq

/-- The worker has its permit. -/
def WorkerState.Live (state : WorkerState) : Prop := state = queued ∨ state = running

/-- Where the sync task stands. -/
inductive SyncPlace
  /-- Between two removals. -/
  | between
  /-- In `begin_irreversible`, before the lock. -/
  | locking
  /-- With the lock, before the permit. -/
  | permitting
  /-- With the permit, before the worker is spawned. -/
  | holding
  | joining (worker : ℕ)
  | ended
  deriving DecidableEq

/-- Where the observer stands. -/
inductive ObserverPlace
  | polling
  /-- The shutdown is requested, and its release awaited. -/
  | requested
  /-- The last segment is being closed. -/
  | finalizing
  | exited
  deriving DecidableEq

/-- `SupervisionTrigger`. -/
inductive SupervisionTrigger
  | observer
  | sync
  | observerShutdown
  deriving DecidableEq

/-- Where the supervisor stands. -/
inductive SupervisorPlace
  | watching
  /-- In `stop_sync_with_deadline`, before the deadline. -/
  | stopping (trigger : SupervisionTrigger)
  /-- After it. -/
  | aborting (trigger : SupervisionTrigger)
  | joiningObserver
  /-- In `close_and_drain`, before the lock. -/
  | closing
  /-- With the lock, before the permit. -/
  | draining
  | drained
  /-- The instance lock is dropped. -/
  | finished
  deriving DecidableEq

/-- What is seen of a run. -/
inductive SupervisionEvent
  /-- A worker unlinks or restores a file or a directory. -/
  | fileChanged (worker : ℕ)
  | syncEnded
  | finalizeStarted
  | drained
  | instanceLockDropped
  deriving DecidableEq

/-- The retention fence, the parties, and what was seen of them. -/
structure Supervision where
  accepting : Bool
  lockFree : Bool
  permitFree : Bool
  sync : SyncPlace
  workers : ℕ → WorkerState
  spawned : ℕ
  observer : ObserverPlace
  released : Bool
  supervisor : SupervisorPlace
  log : List SupervisionEvent

namespace Supervision

/-- The start of a run. -/
def start : Supervision where
  accepting := true
  lockFree := true
  permitFree := true
  sync := .between
  workers := fun _ => .unspawned
  spawned := 0
  observer := .polling
  released := false
  supervisor := .watching
  log := []

/-- After `stop_sync_with_deadline` the observer is released, and awaited unless it has exited. -/
def afterStop : SupervisionTrigger → SupervisorPlace
  | .observer => .closing
  | _ => .joiningObserver

/-! ## The steps -/

/-- One step. -/
inductive Step (w : Supervision) : Supervision → Prop
  /-- A removal begins. -/
  | beginRemoval (hsync : w.sync = .between) : Step w { w with sync := .locking }
  /-- The fence is closed. -/
  | refuse (hsync : w.sync = .locking) (hlock : w.lockFree = true) (hclosed : w.accepting = false) :
    Step w { w with sync := .between }
  | takeLock (hsync : w.sync = .locking) (hlock : w.lockFree = true)
    (haccepting : w.accepting = true) :
    Step w { w with sync := .permitting, lockFree := false }
  /-- The permit is taken, and `begin_irreversible` gives the lock back. -/
  | takePermit (hsync : w.sync = .permitting) (hpermit : w.permitFree = true) :
    Step w { w with sync := .holding, lockFree := true, permitFree := false }
  | spawnWorker (hsync : w.sync = .holding) :
    Step w { w with
      sync := .joining w.spawned
      workers := Function.update w.workers w.spawned .queued
      spawned := w.spawned + 1 }
  | joinWorker (worker : ℕ) (hsync : w.sync = .joining worker)
    (hworker : w.workers worker = .ended) : Step w { w with sync := .between }
  /-- The sync task returns, panics or is aborted: what it holds is given back. -/
  | endSync (hsync : w.sync ≠ .ended) :
    Step w { w with
      sync := .ended
      lockFree := w.lockFree || w.sync = .permitting
      permitFree := w.permitFree || w.sync = .holding
      log := w.log ++ [.syncEnded] }
  | startWorker (worker : ℕ) (hworker : w.workers worker = .queued) :
    Step w { w with workers := Function.update w.workers worker .running }
  | changeFile (worker : ℕ) (hworker : w.workers worker = .running) :
    Step w { w with log := w.log ++ [.fileChanged worker] }
  /-- The worker returns or panics, and its permit is dropped. -/
  | endWorker (worker : ℕ) (hworker : w.workers worker = .running) :
    Step w { w with
      workers := Function.update w.workers worker .ended
      permitFree := true }
  | requestShutdown (hobserver : w.observer = .polling) : Step w { w with observer := .requested }
  | startFinalize (hobserver : w.observer = .requested) (hreleased : w.released = true) :
    Step w { w with observer := .finalizing, log := w.log ++ [.finalizeStarted] }
  /-- A failed poll ends the observer without a last segment. -/
  | exitObserver (hobserver : w.observer = .polling ∨ w.observer = .finalizing) :
    Step w { w with observer := .exited }
  | seeObserver (hsupervisor : w.supervisor = .watching) (hobserver : w.observer = .exited) :
    Step w { w with supervisor := .stopping .observer }
  | seeRequest (hsupervisor : w.supervisor = .watching) (hobserver : w.observer = .requested) :
    Step w { w with supervisor := .stopping .observerShutdown }
  | seeSync (hsupervisor : w.supervisor = .watching) (hsync : w.sync = .ended) :
    Step w { w with supervisor := afterStop .sync, released := true }
  | reachDeadline (trigger : SupervisionTrigger) (hsupervisor : w.supervisor = .stopping trigger) :
    Step w { w with supervisor := .aborting trigger }
  | syncStopped (trigger : SupervisionTrigger)
    (hsupervisor : w.supervisor = .stopping trigger ∨ w.supervisor = .aborting trigger)
    (hsync : w.sync = .ended) :
    Step w { w with supervisor := afterStop trigger, released := true }
  | observerJoined (hsupervisor : w.supervisor = .joiningObserver)
    (hobserver : w.observer = .exited) : Step w { w with supervisor := .closing }
  | closeFence (hsupervisor : w.supervisor = .closing) (hlock : w.lockFree = true) :
    Step w { w with supervisor := .draining, lockFree := false, accepting := false }
  /-- The permit is taken, and given back with the lock as `close_and_drain` returns. -/
  | drainFence (hsupervisor : w.supervisor = .draining) (hpermit : w.permitFree = true) :
    Step w { w with supervisor := .drained, lockFree := true, log := w.log ++ [.drained] }
  | dropInstanceLock (hsupervisor : w.supervisor = .drained) :
    Step w { w with supervisor := .finished, log := w.log ++ [.instanceLockDropped] }

/-- What a run can reach. -/
def Reachable (w : Supervision) : Prop := Relation.ReflTransGen Step start w

/-! ## The invariant -/

/-- The supervisor is past `stop_sync_with_deadline`. -/
def PastStop : SupervisorPlace → Prop
  | .watching | .stopping _ | .aborting _ => False
  | _ => True

/-- `close_and_drain` has returned. -/
def PastDrain : SupervisorPlace → Prop
  | .drained | .finished => True
  | _ => False

/-- An event that changes a file. -/
def IsChange (e : SupervisionEvent) : Prop := ∃ worker, e = .fileChanged worker

/-- The invariant: one party has the permit at most, and it is free when none has it; the supervisor
goes on when the sync task has ended, and drops the lock when no worker is left. -/
structure Sound (w : Supervision) : Prop where
  permit : w.permitFree = true ↔ w.sync ≠ .holding ∧ ∀ worker, ¬ (w.workers worker).Live
  unique : ∀ i j, (w.workers i).Live → (w.workers j).Live → i = j
  holding : w.sync = .holding → ∀ worker, ¬ (w.workers worker).Live
  stopped : PastStop w.supervisor → w.sync = .ended
  released : w.released = true → w.sync = .ended
  drained : PastDrain w.supervisor → ∀ worker, ¬ (w.workers worker).Live
  ended_mem : w.sync = .ended → .syncEnded ∈ w.log
  drained_mem : .drained ∈ w.log ↔ PastDrain w.supervisor
  finalize : Preceded .syncEnded .finalizeStarted w.log
  changes : NoneAfter IsChange .drained w.log
  lock : Preceded .drained .instanceLockDropped w.log

theorem sound_start : start.Sound where
  permit := ⟨fun _ => ⟨nofun, fun _ => nofun⟩, fun _ => rfl⟩
  unique := nofun
  holding := nofun
  stopped := nofun
  released := nofun
  drained := nofun
  ended_mem := nofun
  drained_mem := ⟨nofun, nofun⟩
  finalize := preceded_nil
  changes := noneAfter_nil
  lock := preceded_nil

section Workers

variable {workers : ℕ → WorkerState} {worker : ℕ} {state : WorkerState}

theorem live_update_of_live (h : (workers worker).Live) (i : ℕ)
    (hi : (Function.update workers worker state i).Live) : (workers i).Live := by
  by_cases heq : i = worker
  · rwa [heq]
  · rwa [Function.update_of_ne heq] at hi

theorem not_live_update_ended (hunique : ∀ i j, (workers i).Live → (workers j).Live → i = j)
    (h : (workers worker).Live) (i : ℕ) : ¬ (Function.update workers worker .ended i).Live := by
  intro hi
  by_cases heq : i = worker
  · rw [heq, Function.update_self] at hi
    exact nomatch hi
  · rw [Function.update_of_ne heq] at hi
    exact heq (hunique i worker hi h)

end Workers

section Steps

variable {w w' : Supervision}

/-- The sync task goes on without the permit. -/
theorem Sound.goOn (h : w.Sound) {last : SyncPlace} (hsync : w.sync = last) (place : SyncPlace)
    (hlast : last ≠ .holding ∧ last ≠ .ended) (hto : place ≠ .holding ∧ place ≠ .ended)
    (lockFree : Bool) : { w with sync := place, lockFree := lockFree }.Sound := by
  rw [← hsync] at hlast
  exact { h with
    permit := ⟨fun hp => ⟨hto.1, (h.permit.mp hp).2⟩, fun hp => h.permit.mpr ⟨hlast.1, hp.2⟩⟩
    holding := fun heq => absurd heq hto.1
    stopped := fun hs => absurd (h.stopped hs) hlast.2
    released := fun hr => absurd (h.released hr) hlast.2
    ended_mem := fun heq => absurd heq hto.2 }

/-- The supervisor goes on, before the fence is drained. -/
theorem Sound.supervise (h : w.Sound) {place : SupervisorPlace} {released lockFree accepting : Bool}
    (hstopped : PastStop place → w.sync = .ended) (hreleased : released = true → w.sync = .ended)
    (hfrom : ¬ PastDrain w.supervisor) (hto : ¬ PastDrain place) :
    { w with
      supervisor := place, released := released, lockFree := lockFree
      accepting := accepting }.Sound :=
  { h with
    stopped := hstopped
    released := hreleased
    drained := fun hd => absurd hd hto
    drained_mem := ⟨fun hmem => absurd (h.drained_mem.mp hmem) hfrom, fun hd => absurd hd hto⟩ }

theorem not_pastDrain_afterStop (trigger : SupervisionTrigger) :
    ¬ PastDrain (afterStop trigger) := by
  cases trigger <;> exact id

theorem PastDrain.pastStop {place : SupervisorPlace} (h : PastDrain place) : PastStop place := by
  cases place <;> first | exact trivial | exact h

/-- Every step keeps the invariant. -/
theorem Sound.step (h : w.Sound) (hstep : Step w w') : w'.Sound := by
  have hmem {x : SupervisionEvent} (hx : x ≠ .drained) :
      .drained ∈ w.log ++ [x] ↔ PastDrain w.supervisor := by
    rw [List.mem_append, List.mem_singleton, h.drained_mem]
    exact or_iff_left hx.symm
  have hended (x : SupervisionEvent) (hsync : w.sync = .ended) : .syncEnded ∈ w.log ++ [x] :=
    List.mem_append_left _ (h.ended_mem hsync)
  cases hstep with
  | beginRemoval hsync => exact h.goOn hsync .locking ⟨nofun, nofun⟩ ⟨nofun, nofun⟩ w.lockFree
  | refuse hsync hlock hclosed =>
    exact h.goOn hsync .between ⟨nofun, nofun⟩ ⟨nofun, nofun⟩ w.lockFree
  | takeLock hsync hlock haccepting =>
    exact h.goOn hsync .permitting ⟨nofun, nofun⟩ ⟨nofun, nofun⟩ false
  | joinWorker worker hsync hworker =>
    exact h.goOn hsync .between ⟨nofun, nofun⟩ ⟨nofun, nofun⟩ w.lockFree
  | takePermit hsync hpermit =>
    have hnot : w.sync ≠ .ended := by
      rw [hsync]
      nofun
    exact { h with
      permit := ⟨nofun, fun hp => absurd rfl hp.1⟩
      holding := fun _ => (h.permit.mp hpermit).2
      stopped := fun hs => absurd (h.stopped hs) hnot
      released := fun hr => absurd (h.released hr) hnot
      ended_mem := nofun }
  | spawnWorker hsync =>
    have hnot : w.sync ≠ .ended := by
      rw [hsync]
      nofun
    have hnew : (Function.update w.workers w.spawned .queued w.spawned).Live := by
      rw [Function.update_self]
      exact .inl rfl
    have honly (i : ℕ) (hi : (Function.update w.workers w.spawned .queued i).Live) :
        i = w.spawned := by
      by_contra hne
      rw [Function.update_of_ne hne] at hi
      exact h.holding hsync i hi
    exact { h with
      permit := ⟨fun hp => absurd hsync (h.permit.mp hp).1, fun hp => absurd hnew (hp.2 w.spawned)⟩
      unique := fun i j hi hj => (honly i hi).trans (honly j hj).symm
      holding := nofun
      stopped := fun hs => absurd (h.stopped hs) hnot
      released := fun hr => absurd (h.released hr) hnot
      drained := fun hd => absurd (h.stopped hd.pastStop) hnot
      ended_mem := nofun }
  | endSync hsync =>
    refine { h with
      permit := ?_
      holding := nofun
      stopped := fun _ => rfl
      released := fun _ => rfl
      ended_mem := fun _ => by simp
      drained_mem := hmem nofun
      finalize := h.finalize.concat nofun
      changes := h.changes.concat fun _ => nofun
      lock := h.lock.concat nofun }
    rw [Bool.or_eq_true, decide_eq_true_eq]
    constructor
    · rintro (hp | hholding)
      · exact ⟨nofun, (h.permit.mp hp).2⟩
      · exact ⟨nofun, h.holding hholding⟩
    · rintro ⟨-, hnone⟩
      by_cases hholding : w.sync = .holding
      · exact .inr hholding
      · exact .inl (h.permit.mpr ⟨hholding, hnone⟩)
  | startWorker worker hworker =>
    have hlive : (w.workers worker).Live := .inl hworker
    have hnew : (Function.update w.workers worker .running worker).Live := by
      rw [Function.update_self]
      exact .inr rfl
    exact { h with
      permit := ⟨fun hp => absurd hlive ((h.permit.mp hp).2 worker),
        fun hp => absurd hnew (hp.2 worker)⟩
      unique := fun i j hi hj =>
        h.unique i j (live_update_of_live hlive i hi) (live_update_of_live hlive j hj)
      holding := fun hholding => absurd hlive (h.holding hholding worker)
      drained := fun hd => absurd hlive (h.drained hd worker) }
  | changeFile worker hworker =>
    exact { h with
      ended_mem := hended _
      drained_mem := hmem nofun
      finalize := h.finalize.concat nofun
      changes := h.changes.concat fun hd =>
        absurd (.inr hworker) (h.drained (h.drained_mem.mp hd) worker)
      lock := h.lock.concat nofun }
  | endWorker worker hworker =>
    have hlive : (w.workers worker).Live := .inr hworker
    have hnone := not_live_update_ended h.unique hlive
    have hholding : w.sync ≠ .holding := fun heq => h.holding heq worker hlive
    exact { h with
      permit := ⟨fun _ => ⟨hholding, hnone⟩, fun _ => rfl⟩
      unique := fun i _ hi => absurd hi (hnone i)
      holding := fun _ => hnone
      drained := fun _ => hnone }
  | requestShutdown hobserver => exact { h with }
  | startFinalize hobserver hreleased =>
    exact { h with
      ended_mem := hended _
      drained_mem := hmem nofun
      finalize := h.finalize.concat fun _ => h.ended_mem (h.released hreleased)
      changes := h.changes.concat fun _ => nofun
      lock := h.lock.concat nofun }
  | exitObserver hobserver => exact { h with }
  | seeObserver hsupervisor hobserver =>
    exact h.supervise nofun h.released (by rw [hsupervisor]; exact id) id
  | seeRequest hsupervisor hobserver =>
    exact h.supervise nofun h.released (by rw [hsupervisor]; exact id) id
  | seeSync hsupervisor hsync =>
    exact h.supervise (fun _ => hsync) (fun _ => hsync) (by rw [hsupervisor]; exact id)
      (not_pastDrain_afterStop _)
  | reachDeadline trigger hsupervisor =>
    exact h.supervise nofun h.released (by rw [hsupervisor]; exact id) id
  | syncStopped trigger hsupervisor hsync =>
    refine h.supervise (fun _ => hsync) (fun _ => hsync) ?_ (not_pastDrain_afterStop _)
    rcases hsupervisor with hsupervisor | hsupervisor <;> rw [hsupervisor] <;> exact id
  | observerJoined hsupervisor hobserver =>
    exact h.supervise (fun _ => h.stopped (by rw [hsupervisor]; trivial)) h.released
      (by rw [hsupervisor]; exact id) id
  | closeFence hsupervisor hlock =>
    exact h.supervise (fun _ => h.stopped (by rw [hsupervisor]; trivial)) h.released
      (by rw [hsupervisor]; exact id) id
  | drainFence hsupervisor hpermit =>
    have hstopped : w.sync = .ended := h.stopped (by rw [hsupervisor]; trivial)
    exact { h with
      stopped := fun _ => hstopped
      drained := fun _ => (h.permit.mp hpermit).2
      ended_mem := hended _
      drained_mem := ⟨fun _ => trivial, fun _ => by simp⟩
      finalize := h.finalize.concat nofun
      changes := h.changes.concat fun _ => nofun
      lock := h.lock.concat nofun }
  | dropInstanceLock hsupervisor =>
    have hdrained : PastDrain w.supervisor := by
      rw [hsupervisor]
      trivial
    exact { h with
      stopped := fun _ => h.stopped hdrained.pastStop
      drained := fun _ => h.drained hdrained
      ended_mem := hended _
      drained_mem := ⟨fun _ => trivial, fun _ => List.mem_append_left _ (h.drained_mem.mpr hdrained)⟩
      finalize := h.finalize.concat nofun
      changes := h.changes.concat fun _ => nofun
      lock := h.lock.concat fun _ => h.drained_mem.mpr hdrained }

theorem Reachable.sound (h : w.Reachable) : w.Sound := by
  induction h with
  | refl => exact sound_start
  | tail _ hstep ih => exact ih.step hstep

end Steps

/-! ## The end of a run -/

/-- No file is changed after the fence is drained, which is before the instance lock is dropped; the
last segment is closed after the end of the sync task; and the fence waits for the live worker, and
for nothing else. -/
structure RetentionEnds (w : Supervision) : Prop where
  afterDrain : NoneAfter IsChange .drained w.log
  drainedFirst : Preceded .drained .instanceLockDropped w.log
  afterLock : NoneAfter IsChange .instanceLockDropped w.log
  finalize : Preceded .syncEnded .finalizeStarted w.log
  waits : w.supervisor = .draining →
    (w.permitFree = true ↔ ∀ worker, ¬ (w.workers worker).Live)

/-- **No removal outlives the instance lock.** -/
theorem retention_ends {w : Supervision} (h : w.Reachable) : w.RetentionEnds where
  afterDrain := h.sound.changes
  drainedFirst := h.sound.lock
  afterLock := by
    intro earlier later heq x hx
    -- The fence was drained before the lock was dropped, so the change comes after that too.
    obtain ⟨before, between, hbefore⟩ := List.append_of_mem (h.sound.lock earlier later heq)
    refine h.sound.changes before (between ++ .instanceLockDropped :: later) ?_ x ?_
    · rw [heq, hbefore, List.append_assoc, List.cons_append]
    · exact List.mem_append_right _ (List.mem_cons_of_mem _ hx)
  finalize := h.sound.finalize
  waits := fun hdraining => by
    have hsync : w.sync = .ended := h.sound.stopped (by rw [hdraining]; trivial)
    exact h.sound.permit.trans (and_iff_right (by rw [hsync]; nofun))

/-- A removal is under way when the shutdown is requested, and the sync task does not stop: its
worker goes on while the last segment is closed, and the fence waits for it. -/
theorem retention_ends_aborted : ∃ w : Supervision,
    w.log = [.fileChanged 0, .syncEnded, .finalizeStarted, .fileChanged 0, .drained,
      .instanceLockDropped] ∧ w.RetentionEnds := by
  have hremoving : Reachable _ := (((((Relation.ReflTransGen.refl.tail
    (.beginRemoval rfl)).tail (.takeLock rfl rfl rfl)).tail (.takePermit rfl rfl)).tail
    (.spawnWorker rfl)).tail (.startWorker 0 rfl)).tail (.changeFile 0 rfl)
  have haborted : Reachable _ := ((((Relation.ReflTransGen.tail hremoving
    (.requestShutdown rfl)).tail (.seeRequest rfl rfl)).tail
    (.reachDeadline .observerShutdown rfl)).tail (.endSync nofun)).tail
    (.syncStopped .observerShutdown (.inr rfl) rfl)
  have hclosed : Reachable _ := (((((Relation.ReflTransGen.tail haborted
    (.startFinalize rfl rfl)).tail (.changeFile 0 rfl)).tail (.exitObserver (.inr rfl))).tail
    (.observerJoined rfl rfl)).tail (.closeFence rfl rfl)).tail (.endWorker 0 rfl)
  have hdropped : Reachable _ :=
    (Relation.ReflTransGen.tail hclosed (.drainFence rfl rfl)).tail (.dropInstanceLock rfl)
  exact ⟨_, rfl, retention_ends hdropped⟩

end Supervision

end SolstoneTmux
