import Mathlib.Algebra.BigOperators.Group.Multiset.Basic
import Mathlib.Algebra.Order.BigOperators.Group.Multiset
import Mathlib.Algebra.Group.Action.Defs
import Mathlib.Algebra.Order.Group.Nat
import Mathlib.Logic.Relation

/-!
# Staging of upload bodies

File producers share one stage that counts the chunks read and not yet sent, so that all uploads
together hold a bounded number of them. A reservation of the stage is taken before a chunk is read
and moves with the chunk from the producer through its channel to the request body.

* `Accounts s live` says that the stage counts the live reservations and their bytes. It has one
  rule an operation (`Accounts.reserve`, `Accounts.recordBytes`, `Accounts.drop`).
* `FileStep` is a step of one file's producer, channel and body, with every exit path, and
  `StageStep` a step of the stage with any number of files. Unlocking the stage and notifying a
  waiter are two steps, as in the source.
* `StageStep.accounted` keeps the accounts over every step, and `staging_accounts` reads them off.
-/

namespace SolstoneTmux

/-! ## The stage -/

/-- `UploadStageState`, with the high-water mark beside it. -/
structure UploadStage where
  chunks : ℕ
  bytes : ℕ
  highWaterBytes : ℕ
  deriving DecidableEq

/-- `UploadReservation`, without the handle of the stage. -/
structure UploadReservation where
  bytes : ℕ
  deriving DecidableEq

namespace UploadStage

/-- `UploadStage::default`. -/
def default : UploadStage := ⟨0, 0, 0⟩

/-- `UploadStage::reserve` with the lock held; `none` is the branch that waits. -/
def reserve (capacity : ℕ) (s : UploadStage) : Option (UploadStage × UploadReservation) :=
  if s.chunks ≥ capacity then none else some ({ s with chunks := s.chunks + 1 }, ⟨0⟩)

/-- `UploadReservation::record_bytes`. -/
def recordBytes (s : UploadStage) (bytes : ℕ) : UploadStage × UploadReservation :=
  ({ s with
      bytes := s.bytes + bytes
      highWaterBytes := max s.highWaterBytes (s.bytes + bytes) }, ⟨bytes⟩)

/-- `UploadReservation::drop` with the lock held; `none` is a subtraction that underflows. -/
def drop (s : UploadStage) (r : UploadReservation) : Option UploadStage :=
  if 1 ≤ s.chunks ∧ r.bytes ≤ s.bytes then
    some { s with chunks := s.chunks - 1, bytes := s.bytes - r.bytes }
  else none

variable {capacity : ℕ} {s s' : UploadStage} {r : UploadReservation}

theorem reserve_eq_some : s.reserve capacity = some (s', r) ↔
    s.chunks < capacity ∧ s' = { s with chunks := s.chunks + 1 } ∧ r = ⟨0⟩ := by
  unfold reserve
  split
  · rename_i hfull
    simp only [reduceCtorEq, false_iff, not_and]
    omega
  · rename_i hfree
    simp only [Option.some.injEq, Prod.mk.injEq, eq_comm (b := s'), eq_comm (b := r)]
    exact ⟨fun h => ⟨Nat.lt_of_not_le hfree, h⟩, fun h => h.2⟩

theorem reserve_eq_none : s.reserve capacity = none ↔ capacity ≤ s.chunks := by
  unfold reserve
  split
  · simpa
  · rename_i hfree
    simpa using Nat.lt_of_not_le hfree

theorem drop_eq_some : s.drop r = some s' ↔ 1 ≤ s.chunks ∧ r.bytes ≤ s.bytes ∧
    s' = { s with chunks := s.chunks - 1, bytes := s.bytes - r.bytes } := by
  unfold drop
  split
  · rename_i hroom
    simp only [Option.some.injEq, eq_comm (b := s')]
    exact ⟨fun h => ⟨hroom.1, hroom.2, h⟩, fun h => h.2.2⟩
  · rename_i hroom
    simp only [reduceCtorEq, false_iff]
    exact fun h => hroom ⟨h.1, h.2.1⟩

end UploadStage

/-- The stage counts these reservations and their bytes. -/
structure Accounts (s : UploadStage) (live : Multiset UploadReservation) : Prop where
  chunks : s.chunks = live.card
  bytes : s.bytes = (live.map UploadReservation.bytes).sum

namespace Accounts

variable {s s' : UploadStage} {live : Multiset UploadReservation} {r : UploadReservation}
  {capacity : ℕ}

theorem reserve (h : Accounts s live) (hs : s.reserve capacity = some (s', r)) :
    Accounts s' (r ::ₘ live) := by
  obtain ⟨-, rfl, rfl⟩ := UploadStage.reserve_eq_some.mp hs
  refine ⟨?_, ?_⟩
  · simp [h.chunks]
  · simp [h.bytes]

theorem recordBytes (h : Accounts s (r ::ₘ live)) (hr : r.bytes = 0) (n : ℕ) :
    Accounts (s.recordBytes n).1 ((s.recordBytes n).2 ::ₘ live) := by
  refine ⟨?_, ?_⟩
  · simp [UploadStage.recordBytes, h.chunks]
  · simp [UploadStage.recordBytes, h.bytes, hr, Nat.add_comm]

theorem drop (h : Accounts s (r ::ₘ live)) (hs : s.drop r = some s') : Accounts s' live := by
  obtain ⟨-, -, rfl⟩ := UploadStage.drop_eq_some.mp hs
  refine ⟨?_, ?_⟩
  · simp [h.chunks]
  · simp [h.bytes]

/-- The drop of a live reservation does not underflow. -/
theorem drop_isSome (h : Accounts s live) (hr : r ∈ live) : ∃ s', s.drop r = some s' := by
  obtain ⟨rest, rfl⟩ := Multiset.exists_cons_of_mem hr
  have hchunks : 1 ≤ s.chunks := by simp [h.chunks]
  have hbytes : r.bytes ≤ s.bytes := by simp [h.bytes]
  exact ⟨_, UploadStage.drop_eq_some.mpr ⟨hchunks, hbytes, rfl⟩⟩

end Accounts

/-! ## One file -/

/-- Where `spawn_file_producer` is. -/
inductive Producer
  /-- In `ProducerStart::wait`. -/
  | starting
  /-- About to look at the stage, from the loop of the producer. -/
  | reserving
  /-- In `Condvar::wait` of the stage. -/
  | asleep
  /-- Back from `Condvar::wait`, about to look at the stage again. -/
  | woken
  /-- Reading the file. -/
  | reading (reservation : UploadReservation)
  /-- Sending a chunk. -/
  | sending (reservation : UploadReservation)
  /-- Sending the error of a read, with the reservation still held. -/
  | failing (reservation : UploadReservation)
  /-- Returning; the reservation goes with it. -/
  | leaving (reservation : UploadReservation)
  | ended

namespace Producer

/-- The reservation that the producer holds. -/
def live : Producer → Multiset UploadReservation
  | reading r => {r}
  | sending r => {r}
  | failing r => {r}
  | leaving r => {r}
  | _ => 0

/-- The producer is inside `UploadStage::reserve`. -/
def inReserve : Producer → Bool
  | reserving => true
  | asleep => true
  | woken => true
  | _ => false

end Producer

/-- The upload of one file: its producer, its channel and its `FileChunkStream`. A message of the
channel is a staged chunk or the error of a read. -/
structure FileUpload where
  producer : Producer
  started : Bool
  queue : List (Option UploadReservation)
  receiving : Bool
  active : Option UploadReservation

namespace FileUpload

/-- The upload as `ingest_upload` builds it. -/
def new : FileUpload := ⟨.starting, false, [], true, none⟩

/-- The reservations in the channel. -/
def queued (queue : List (Option UploadReservation)) : Multiset UploadReservation :=
  (queue.filterMap id : List UploadReservation)

/-- The live reservations of the file. -/
def live (u : FileUpload) : Multiset UploadReservation :=
  u.producer.live + queued u.queue + (u.active.toList : List UploadReservation)

@[simp] theorem queued_nil : queued [] = 0 := rfl

@[simp] theorem queued_some (r : UploadReservation) (queue : List (Option UploadReservation)) :
    queued (some r :: queue) = r ::ₘ queued queue := rfl

@[simp] theorem queued_none (queue : List (Option UploadReservation)) :
    queued (none :: queue) = queued queue := rfl

@[simp] theorem queued_append (q q' : List (Option UploadReservation)) :
    queued (q ++ q') = queued q + queued q' := by
  simp [queued]

/-- Whether the producer sleeps. -/
def isAsleep (u : FileUpload) : Bool :=
  match u.producer with
  | .asleep => true
  | _ => false

/-- Whether the producer was woken and has not looked at the stage yet. -/
def isWoken (u : FileUpload) : Bool :=
  match u.producer with
  | .woken => true
  | _ => false

end FileUpload

open FileUpload UploadStage

section Steps

variable (capacity chunkSize : ℕ)

/-- One step of a file's producer, channel or body. The number counts the notifications that the
step still owes: a drop unlocks the stage before it notifies. -/
inductive FileStep : UploadStage → FileUpload → UploadStage → FileUpload → ℕ → Prop
  | release (s u) : FileStep s u s { u with started := true } 0
  | start {s u} : u.producer = .starting → u.started →
      FileStep s u s { u with producer := .reserving } 0
  | reserve {s s' u r} : u.producer = .reserving ∨ u.producer = .woken →
      s.reserve capacity = some (s', r) → FileStep s u s' { u with producer := .reading r } 0
  | wait {s u} : u.producer = .reserving ∨ u.producer = .woken → s.reserve capacity = none →
      FileStep s u s { u with producer := .asleep } 0
  | spuriousWake {s u} : u.producer = .asleep → FileStep s u s { u with producer := .woken } 0
  | read {s u r} (count : ℕ) : u.producer = .reading r → 0 < count → count ≤ chunkSize →
      FileStep s u (s.recordBytes count).1
        { u with producer := .sending (s.recordBytes count).2 } 0
  | readEnd {s u r} : u.producer = .reading r →
      FileStep s u s { u with producer := .leaving r } 0
  | readError {s u r} : u.producer = .reading r →
      FileStep s u s { u with producer := .failing r } 0
  | sent {s u r} : u.producer = .sending r → u.receiving → u.queue.length < capacity →
      FileStep s u s { u with producer := .reserving, queue := u.queue ++ [some r] } 0
  | sentError {s u r} : u.producer = .failing r → u.receiving → u.queue.length < capacity →
      FileStep s u s { u with producer := .leaving r, queue := u.queue ++ [none] } 0
  | refused {s u r} : u.producer = .sending r ∨ u.producer = .failing r → ¬ u.receiving →
      FileStep s u s { u with producer := .leaving r } 0
  | leave {s s' u r} : u.producer = .leaving r → s.drop r = some s' →
      FileStep s u s' { u with producer := .ended } 1
  | finishActive {s s' u r} : u.active = some r → s.drop r = some s' →
      FileStep s u s' { u with active := none } 1
  | receive {s u r queue} : u.receiving → u.active = none → u.queue = some r :: queue →
      FileStep s u s { u with queue := queue, active := some r } 0
  | receiveError {s u queue} : u.receiving → u.active = none → u.queue = none :: queue →
      FileStep s u s { u with queue := queue } 0
  | close (s u) : FileStep s u s { u with started := true, receiving := false } 0
  | drain {s s' u r queue} : ¬ u.receiving → u.queue = some r :: queue → s.drop r = some s' →
      FileStep s u s' { u with queue := queue } 1
  | drainError {s u queue} : ¬ u.receiving → u.queue = none :: queue →
      FileStep s u s { u with queue := queue } 0

end Steps

/-- The stage and the files of all uploads that share it, with the notifications owed by drops that
have unlocked the stage and not notified yet. -/
structure Staging where
  stage : UploadStage
  uploads : List FileUpload
  notices : ℕ

namespace Staging

/-- The stage of a new client. -/
def start : Staging := ⟨.default, [], 0⟩

/-- The live reservations, wherever they are. -/
def live (S : Staging) : Multiset UploadReservation := (S.uploads.map FileUpload.live).sum

/-- How many producers sleep. -/
def asleep (S : Staging) : ℕ := S.uploads.countP FileUpload.isAsleep

/-- How many producers were woken and have not looked at the stage yet. -/
def woken (S : Staging) : ℕ := S.uploads.countP FileUpload.isWoken

end Staging

/-- One step of a stage with the files that share it. -/
inductive StageStep (capacity chunkSize : ℕ) : Staging → Staging → Prop
  | upload (s us n) : StageStep capacity chunkSize ⟨s, us, n⟩ ⟨s, us ++ [.new], n⟩
  | file (before after : List FileUpload) {s s' u u' n k} : FileStep capacity chunkSize s u s' u' k →
      StageStep capacity chunkSize ⟨s, before ++ u :: after, n⟩ ⟨s', before ++ u' :: after, n + k⟩
  | notify {s before u after n} : u.producer = .asleep →
      StageStep capacity chunkSize ⟨s, before ++ u :: after, n + 1⟩
        ⟨s, before ++ { u with producer := .woken } :: after, n⟩
  | notifyNobody {s us n} : (∀ u ∈ us, u.producer ≠ .asleep) →
      StageStep capacity chunkSize ⟨s, us, n + 1⟩ ⟨s, us, n⟩

/-- The states of a run. -/
def StageReaches (capacity chunkSize : ℕ) (S : Staging) : Prop :=
  Relation.ReflTransGen (StageStep capacity chunkSize) .start S

/-! ## The operations, wherever the reservations are -/

section Accounting

variable {capacity chunkSize : ℕ} {s s' : UploadStage} {live live' : Multiset UploadReservation}
  {k : ℕ}

/-- An operation on the stage and the live reservations, and the notifications it owes. -/
inductive StageOp (capacity chunkSize : ℕ) (s : UploadStage) (live : Multiset UploadReservation) :
    UploadStage → Multiset UploadReservation → ℕ → Prop
  | same : StageOp capacity chunkSize s live s live 0
  | reserve {s' r} : s.reserve capacity = some (s', r) →
      StageOp capacity chunkSize s live s' (r ::ₘ live) 0
  | recordBytes {r rest} (count : ℕ) : live = r ::ₘ rest → r.bytes = 0 → count ≤ chunkSize →
      StageOp capacity chunkSize s live (s.recordBytes count).1
        ((s.recordBytes count).2 ::ₘ rest) 0
  | drop {s' r rest} : live = r ::ₘ rest → s.drop r = some s' →
      StageOp capacity chunkSize s live s' rest 1

/-- What the stage keeps about the live reservations. -/
structure StageBounded (capacity chunkSize : ℕ) (s : UploadStage) (live : Multiset UploadReservation) :
    Prop where
  accounts : Accounts s live
  le : s.chunks ≤ capacity
  small : ∀ r ∈ live, r.bytes ≤ chunkSize
  highWater : s.highWaterBytes ≤ capacity * chunkSize

theorem StageOp.frame (h : StageOp capacity chunkSize s live s' live' k)
    (rest : Multiset UploadReservation) :
    StageOp capacity chunkSize s (live + rest) s' (live' + rest) k := by
  cases h with
  | same => exact .same
  | reserve hs =>
    rw [Multiset.cons_add]
    exact .reserve hs
  | recordBytes count hlive hr hcount =>
    rw [Multiset.cons_add, hlive, Multiset.cons_add]
    exact .recordBytes count rfl hr hcount
  | drop hlive hs =>
    rw [hlive, Multiset.cons_add]
    exact .drop rfl hs

/-- Chunks within the capacity hold no more bytes than as many full ones. -/
theorem Accounts.bytes_le (h : Accounts s live) (hle : s.chunks ≤ capacity)
    (hsmall : ∀ r ∈ live, r.bytes ≤ chunkSize) : s.bytes ≤ capacity * chunkSize := by
  have hsum : (live.map UploadReservation.bytes).sum ≤ live.card • chunkSize := by
    have hle := Multiset.sum_le_card_nsmul (live.map UploadReservation.bytes) chunkSize (by
      intro n hn
      obtain ⟨r, hr, rfl⟩ := Multiset.mem_map.mp hn
      exact hsmall r hr)
    rwa [Multiset.card_map] at hle
  rw [smul_eq_mul, ← h.bytes, ← h.chunks] at hsum
  exact hsum.trans (Nat.mul_le_mul_right _ hle)

theorem StageOp.bounded (h : StageOp capacity chunkSize s live s' live' k)
    (hs : StageBounded capacity chunkSize s live) : StageBounded capacity chunkSize s' live' := by
  cases h with
  | same => exact hs
  | @reserve _ r hreserve =>
    have haccounts := hs.accounts.reserve hreserve
    obtain ⟨hfree, rfl, rfl⟩ := reserve_eq_some.mp hreserve
    refine ⟨haccounts, hfree, ?_, hs.highWater⟩
    intro r' hr'
    rcases Multiset.mem_cons.mp hr' with rfl | hr'
    · exact Nat.zero_le _
    · exact hs.small r' hr'
  | @recordBytes r rest count hlive hr hcount =>
    subst hlive
    have haccounts := hs.accounts.recordBytes hr count
    have hsmall : ∀ r' ∈ (s.recordBytes count).2 ::ₘ rest, r'.bytes ≤ chunkSize := by
      intro r' hr'
      rcases Multiset.mem_cons.mp hr' with rfl | hr'
      · exact hcount
      · exact hs.small r' (Multiset.mem_cons_of_mem hr')
    -- the new mark is the larger of the old one and the bytes that the stage holds now
    exact ⟨haccounts, hs.le, hsmall, max_le hs.highWater (haccounts.bytes_le hs.le hsmall)⟩
  | @drop _ r rest hlive hdrop =>
    subst hlive
    have haccounts := hs.accounts.drop hdrop
    obtain ⟨-, -, rfl⟩ := drop_eq_some.mp hdrop
    refine ⟨haccounts, (Nat.sub_le _ _).trans hs.le, ?_, hs.highWater⟩
    exact fun r' hr' => hs.small r' (Multiset.mem_cons_of_mem hr')

end Accounting

/-! ## Runs -/

/-- A reservation that its producer reads a chunk for has no bytes recorded. -/
def FileUpload.Fresh (u : FileUpload) : Prop := ∀ r, u.producer = .reading r → r.bytes = 0

section Runs

variable {capacity chunkSize : ℕ} {s s' : UploadStage} {u u' : FileUpload} {k : ℕ}

theorem live_of_producer {p : Producer} (h : u.producer = p) :
    u.live = p.live + queued u.queue + (u.active.toList : List UploadReservation) := by
  rw [FileUpload.live, h]

/-- What a step of one file does to the stage and to the reservations of the file. -/
theorem FileStep.op (h : FileStep capacity chunkSize s u s' u' k) (hfresh : u.Fresh) :
    StageOp capacity chunkSize s u.live s' u'.live k := by
  cases h with
  | release => exact .same
  | start hp hstarted =>
    rw [live_of_producer hp]
    exact .same
  | reserve hp hreserve =>
    have hlive : u.live = queued u.queue + (u.active.toList : List UploadReservation) := by
      rcases hp with hp | hp <;> simp [live_of_producer hp, Producer.live]
    have hop : StageOp capacity chunkSize s u.live s' (_ ::ₘ u.live) 0 := .reserve hreserve
    rw [hlive] at hop ⊢
    simpa [FileUpload.live, Producer.live] using hop
  | wait hp hfull =>
    have hlive : u.live = { u with producer := .asleep }.live := by
      rcases hp with hp | hp <;> simp [FileUpload.live, hp, Producer.live]
    rw [← hlive]
    exact .same
  | spuriousWake hp =>
    rw [live_of_producer hp]
    exact .same
  | read count hp hpos hcount =>
    rw [live_of_producer hp, live_of_producer (p := .sending _) rfl]
    simp only [Producer.live, Multiset.singleton_add, Multiset.cons_add]
    exact .recordBytes count rfl (hfresh _ hp) hcount
  | readEnd hp =>
    rw [live_of_producer hp]
    exact .same
  | readError hp =>
    rw [live_of_producer hp]
    exact .same
  | sent hp hreceiving hroom =>
    rw [live_of_producer hp]
    simpa [FileUpload.live, Producer.live, add_comm, add_left_comm] using StageOp.same
  | sentError hp hreceiving hroom =>
    rw [live_of_producer hp]
    simpa [FileUpload.live, Producer.live] using StageOp.same
  | refused hp hclosed =>
    rcases hp with hp | hp <;> (rw [live_of_producer hp]; exact .same)
  | leave hp hdrop =>
    rw [live_of_producer hp, live_of_producer (p := .ended) rfl]
    simp only [Producer.live, zero_add, Multiset.singleton_add, Multiset.cons_add]
    exact .drop rfl hdrop
  | finishActive hactive hdrop =>
    refine .drop ?_ hdrop
    simp only [FileUpload.live, hactive, Option.toList_some, Option.toList_none,
      Multiset.coe_singleton, Multiset.coe_nil, add_zero]
    rw [add_comm, Multiset.singleton_add]
  | receive hreceiving hactive hqueue =>
    simpa [FileUpload.live, hactive, hqueue, add_comm, add_left_comm] using StageOp.same
  | receiveError hreceiving hactive hqueue =>
    simpa [FileUpload.live, hqueue] using StageOp.same
  | close => exact .same
  | drain hclosed hqueue hdrop =>
    refine .drop ?_ hdrop
    simp [FileUpload.live, hqueue]
  | drainError hclosed hqueue =>
    simpa [FileUpload.live, hqueue] using StageOp.same

theorem FileStep.fresh (h : FileStep capacity chunkSize s u s' u' k) (hfresh : u.Fresh) :
    u'.Fresh := by
  have hother : ∀ (v : FileUpload), (∀ r, v.producer ≠ .reading r) → v.Fresh :=
    fun v hv r hr => absurd hr (hv r)
  cases h with
  | release => exact hfresh
  | reserve hp hreserve =>
    obtain ⟨-, -, rfl⟩ := reserve_eq_some.mp hreserve
    intro r hr
    cases hr
    rfl
  | finishActive => exact hfresh
  | receive => exact hfresh
  | receiveError => exact hfresh
  | close => exact hfresh
  | drain => exact hfresh
  | drainError => exact hfresh
  | _ => exact hother _ (by simp)

/-- A step sends a producer to sleep only at a full stage, and a woken one looks at the stage. -/
theorem FileStep.awake (h : FileStep capacity chunkSize s u s' u' k) :
    capacity ≤ s'.chunks ∨
      (u'.isAsleep → u.isAsleep) ∧
        s.chunks + u.isWoken.toNat ≤ s'.chunks + u'.isWoken.toNat + k := by
  cases h with
  | wait hp hfull => exact Or.inl (reserve_eq_none.mp hfull)
  | reserve hp hreserve =>
    obtain ⟨-, rfl, -⟩ := reserve_eq_some.mp hreserve
    refine Or.inr ⟨by simp [isAsleep], ?_⟩
    have hone := u.isWoken.toNat_le
    change s.chunks + u.isWoken.toNat ≤ s.chunks + 1 + 0 + 0
    omega
  | spuriousWake hp => exact Or.inr ⟨by simp [isAsleep], by simp [isWoken, hp]⟩
  | leave hp hdrop =>
    obtain ⟨hone, -, rfl⟩ := drop_eq_some.mp hdrop
    refine Or.inr ⟨by simp [isAsleep], ?_⟩
    simp only [isWoken, hp, Bool.toNat_false]
    omega
  | finishActive hactive hdrop =>
    obtain ⟨hone, -, rfl⟩ := drop_eq_some.mp hdrop
    refine Or.inr ⟨id, ?_⟩
    change s.chunks + u.isWoken.toNat ≤ s.chunks - 1 + u.isWoken.toNat + 1
    omega
  | drain hclosed hqueue hdrop =>
    obtain ⟨hone, -, rfl⟩ := drop_eq_some.mp hdrop
    refine Or.inr ⟨id, ?_⟩
    change s.chunks + u.isWoken.toNat ≤ s.chunks - 1 + u.isWoken.toNat + 1
    omega
  | read count hp => exact Or.inr ⟨by simp [isAsleep], by simp [isWoken, hp, recordBytes]⟩
  | start hp => exact Or.inr ⟨by simp [isAsleep], by simp [isWoken, hp]⟩
  | readEnd hp => exact Or.inr ⟨by simp [isAsleep], by simp [isWoken, hp]⟩
  | readError hp => exact Or.inr ⟨by simp [isAsleep], by simp [isWoken, hp]⟩
  | sent hp => exact Or.inr ⟨by simp [isAsleep], by simp [isWoken, hp]⟩
  | sentError hp => exact Or.inr ⟨by simp [isAsleep], by simp [isWoken, hp]⟩
  | refused hp =>
    rcases hp with hp | hp <;> exact Or.inr ⟨by simp [isAsleep], by simp [isWoken, hp]⟩
  | release => exact Or.inr ⟨id, Nat.le_refl _⟩
  | receive => exact Or.inr ⟨id, Nat.le_refl _⟩
  | receiveError => exact Or.inr ⟨id, Nat.le_refl _⟩
  | close => exact Or.inr ⟨id, Nat.le_refl _⟩
  | drainError => exact Or.inr ⟨id, Nat.le_refl _⟩

/-- What a run keeps. -/
structure Accounted (capacity chunkSize : ℕ) (S : Staging) : Prop where
  bounded : StageBounded capacity chunkSize S.stage S.live
  fresh : ∀ u ∈ S.uploads, u.Fresh
  /-- While a producer sleeps, enough others are awake, or about to be, to fill the stage. -/
  awake : 0 < S.asleep → capacity ≤ S.stage.chunks + S.woken + S.notices

theorem accounted_start : Accounted capacity chunkSize .start := by
  refine ⟨⟨⟨rfl, rfl⟩, Nat.zero_le _, ?_, Nat.zero_le _⟩, ?_, ?_⟩
  · simp [Staging.live, Staging.start]
  · simp [Staging.start]
  · simp [Staging.asleep, Staging.start]

theorem live_middle (before after : List FileUpload) (u : FileUpload) (s : UploadStage) (n : ℕ) :
    Staging.live ⟨s, before ++ u :: after, n⟩ =
      u.live + ((before.map FileUpload.live).sum + (after.map FileUpload.live).sum) := by
  simp [Staging.live, add_left_comm]

theorem countP_middle {α : Type} (p : α → Bool) (before after : List α) (a : α) :
    (before ++ a :: after).countP p = (p a).toNat + (before ++ after).countP p := by
  rw [List.countP_append, List.countP_cons, List.countP_append]
  cases h : p a with
  | false => simp
  | true =>
    simp only [if_true, Bool.toNat_true]
    omega

theorem StageStep.accounted {S S' : Staging} (h : StageStep capacity chunkSize S S')
    (hS : Accounted capacity chunkSize S) : Accounted capacity chunkSize S' := by
  cases h with
  | upload s us n =>
    have hlive : Staging.live ⟨s, us ++ [.new], n⟩ = Staging.live ⟨s, us, n⟩ := by
      simp [Staging.live, FileUpload.live, FileUpload.new, Producer.live]
    refine ⟨?_, ?_, ?_⟩
    · rw [hlive]
      exact hS.bounded
    · intro u hu
      rcases List.mem_append.mp hu with hu | hu
      · exact hS.fresh u hu
      · rw [List.mem_singleton.mp hu]
        intro r hr
        cases hr
    · have hawake := hS.awake
      simpa [Staging.asleep, Staging.woken, isAsleep, isWoken, FileUpload.new] using hawake
  | @file before after s s' u u' n k hstep =>
    have hfresh := hS.fresh u (by simp)
    refine ⟨?_, ?_, ?_⟩
    · have hbounded := hS.bounded
      rw [live_middle] at hbounded ⊢
      exact ((hstep.op hfresh).frame _).bounded hbounded
    · intro v hv
      rw [List.mem_append, List.mem_cons] at hv
      rcases hv with hv | rfl | hv
      · exact hS.fresh v (by simp [hv])
      · exact hstep.fresh hfresh
      · exact hS.fresh v (by simp [hv])
    · intro hasleep
      have hawake := hS.awake
      simp only [Staging.asleep, Staging.woken, countP_middle] at hasleep hawake ⊢
      rcases hstep.awake with hfull | ⟨hsleeps, hle⟩
      · exact hfull.trans (Nat.le_trans (Nat.le_add_right _ _) (Nat.le_add_right _ _))
      · have hbefore : u'.isAsleep.toNat ≤ u.isAsleep.toNat := Bool.toNat_le_toNat hsleeps
        have := hawake (by omega)
        omega
  | @notify s before u after n hp =>
    have hlive : ({ u with producer := .woken } : FileUpload).live = u.live := by
      rw [live_of_producer hp]
      rfl
    refine ⟨?_, ?_, ?_⟩
    · have hbounded := hS.bounded
      rw [live_middle] at hbounded ⊢
      rwa [hlive]
    · intro v hv
      rw [List.mem_append, List.mem_cons] at hv
      rcases hv with hv | rfl | hv
      · exact hS.fresh v (by simp [hv])
      · intro r hr
        cases hr
      · exact hS.fresh v (by simp [hv])
    · intro hasleep
      have hawake := hS.awake
      simp only [Staging.asleep, Staging.woken, countP_middle] at hasleep hawake ⊢
      simp only [isAsleep, isWoken, hp, Bool.toNat_true, Bool.toNat_false] at hasleep hawake ⊢
      have := hawake (by omega)
      omega
  | @notifyNobody s us n hnone =>
    refine ⟨hS.bounded, hS.fresh, ?_⟩
    intro hasleep
    obtain ⟨u, hu, hsleeps⟩ := List.countP_pos_iff.mp hasleep
    refine absurd ?_ (hnone u hu)
    cases hp : u.producer <;> simp [isAsleep, hp] at hsleeps ⊢

theorem StageReaches.accounted {S : Staging} (h : StageReaches capacity chunkSize S) :
    Accounted capacity chunkSize S := by
  induction h with
  | refl => exact accounted_start
  | tail _ hstep ih => exact hstep.accounted ih

/-- The stage counts the live reservations and their bytes, within its capacity; no drop of a live
reservation underflows, and each makes room. A producer that `reserve` makes wait waits for some
live reservation; while a producer sleeps, a reservation is live or another producer was notified
of room. -/
theorem staging_accounts {S : Staging} (hcapacity : 1 ≤ capacity)
    (h : StageReaches capacity chunkSize S) :
    S.stage.chunks = S.live.card ∧ S.stage.chunks ≤ capacity ∧
      S.stage.bytes = (S.live.map UploadReservation.bytes).sum ∧
      (∀ r ∈ S.live, ∃ s', S.stage.drop r = some s' ∧ s'.reserve capacity ≠ none) ∧
      (∀ u ∈ S.uploads, u.producer.inReserve → S.stage.reserve capacity = none → S.live ≠ 0) ∧
      (0 < S.asleep → S.live ≠ 0 ∨ 0 < S.woken + S.notices) := by
  have hS := h.accounted
  have hchunks := hS.bounded.accounts.chunks
  refine ⟨hchunks, hS.bounded.le, hS.bounded.accounts.bytes, ?_, ?_, ?_⟩
  · intro r hr
    obtain ⟨s', hs'⟩ := hS.bounded.accounts.drop_isSome hr
    refine ⟨s', hs', fun hfull => ?_⟩
    rw [reserve_eq_none] at hfull
    obtain ⟨hone, -, rfl⟩ := drop_eq_some.mp hs'
    have := hS.bounded.le
    simp only at hfull
    omega
  · intro u _ _ hfull hzero
    rw [reserve_eq_none, hchunks, hzero, Multiset.card_zero] at hfull
    omega
  · intro hasleep
    have hawake := hS.awake hasleep
    by_contra hnone
    rw [not_or, not_not] at hnone
    rw [hchunks, hnone.1, Multiset.card_zero] at hawake
    omega

/-- `JournalClient::upload_stage_high_water_bytes` stays within the stage's full chunks. -/
theorem upload_stage_high_water_bytes_le {S : Staging} (h : StageReaches capacity chunkSize S) :
    S.stage.highWaterBytes ≤ capacity * chunkSize :=
  h.accounted.bounded.highWater

/-- One producer holds the only place and another sleeps. -/
def oneSleeps : Staging :=
  ⟨⟨1, 0, 0⟩, [⟨.reading ⟨0⟩, true, [], true, none⟩, ⟨.asleep, true, [], true, none⟩], 0⟩

theorem reaches_oneSleeps (chunkSize : ℕ) : StageReaches 1 chunkSize oneSleeps := by
  have hfirst : StageReaches 1 chunkSize
      ⟨⟨1, 0, 0⟩, [⟨.reading ⟨0⟩, true, [], true, none⟩], 0⟩ :=
    ((((Relation.ReflTransGen.refl.tail (.upload .default [] 0)).tail
      (.file [] [] (.release _ _))).tail
      (.file [] [] (.start rfl rfl))).tail
      (.file [] [] (.reserve (Or.inl rfl) rfl)))
  exact (((hfirst.tail (.upload _ _ _)).tail
    (.file [_] [] (.release _ _))).tail
    (.file [_] [] (.start rfl rfl))).tail
    (.file [_] [] (.wait (Or.inl rfl) rfl))

theorem staging_accounts_oneSleeps : StageReaches 1 16 oneSleeps ∧ oneSleeps.live ≠ 0 := by
  have hreaches := reaches_oneSleeps 16
  obtain ⟨-, -, -, -, -, hasleep⟩ := staging_accounts (Nat.le_refl 1) hreaches
  exact ⟨hreaches, (hasleep (by decide)).resolve_right (by decide)⟩

end Runs

end SolstoneTmux
