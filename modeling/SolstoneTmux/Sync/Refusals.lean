import SolstoneTmux.Sync.Deferral
import SolstoneTmux.Sync.JournalError

/-!
# Refused uploads in a sweep

A refusal of one request (`UploadReply.RequestOnly`) should retain its candidate, and the sweep
should go on; only what concerns the device or the way to the journal (`UploadReply.DeviceWide`)
should end it (`SweepGoesOn`). Four reasons, and the errors found before a request is sent, are
retained (`UploadReply.Retained`). The others fall into the last arm of `map_journal_error`, which
ends the sweep: `sweep_goes_on_iff` says that the sweep goes on exactly when no reply before the
first device-wide one is of these.
-/

namespace SolstoneTmux

open Foundations

/-! ## Replies -/

/-- The reasons that concern one request: those that are parsed, then those of the ingest
authority, which are not. -/
def requestReasons : List Str :=
  ["invalid_day".toList, "invalid_segment_or_stream".toList, "missing_required_field".toList,
    "content_conflict".toList, "ingest_contract_invalid".toList, "ingest_no_files".toList,
    "ingest_sidecar_conflict".toList,
    "field_missing".toList, "envelope_invalid".toList, "day_invalid".toList,
    "segment_invalid".toList, "multipart_malformed".toList, "multipart_part_too_large".toList]

/-- The reasons whose refusals are retained. -/
def retainedReasons : List Str :=
  ["content_conflict".toList, "ingest_contract_invalid".toList, "ingest_no_files".toList,
    "ingest_sidecar_conflict".toList]

/-- The errors of a request that concern it alone. -/
def requestDiagnostics : List DiagnosticCode := [.requestTooLarge, .localSegmentInvalid]

section Replies

variable (errorFromSlice : Bytes → Option ErrorResponse)
  (uploadFromSlice : Bytes → Option UploadResponse) {StopReason : Type}

namespace UploadReply

/-- A body gives one of some reasons. -/
def GivesReason (reasons : List Str) (body : Bytes) : Prop :=
  ∃ response, errorFromSlice body = some response ∧ response.reasonCode ∈ reasons

/-- A reply that refuses one request: by its reason, because the request is too large, or before it
is sent. -/
def RequestOnly : UploadReply → Prop
  | .response status body =>
    (400 ≤ status ∧ status ≤ 499) ∧ (GivesReason errorFromSlice requestReasons body ∨
      (status = 413 ∧ reasonOf errorFromSlice body = none))
  | .error diagnostic => diagnostic ∈ requestDiagnostics

/-- A reply whose refusal is retained. -/
def Retained : UploadReply → Prop
  | .response _ body => GivesReason errorFromSlice retainedReasons body
  | .error diagnostic => diagnostic ∈ requestDiagnostics

/-- A reply that is neither a result, nor the removal of the segment, nor a refusal of the request
alone. -/
def DeviceWide : UploadReply → Prop
  | .response status body =>
    if status = 200 then decodeUploadResponse uploadFromSlice body = none
    else ¬ (RequestOnly errorFromSlice (.response status body) ∨
      GivesReason errorFromSlice ["segment_removed".toList] body)
  | .error diagnostic => diagnostic ∉ requestDiagnostics

end UploadReply

variable {errorFromSlice uploadFromSlice} {status : ℕ} {body : Bytes} {stop : Option StopReason}
  {reply : UploadReply}

/-- A refusal whose reason is not recognized, or is one of those in the last arm. -/
theorem uploadAnswer_unrecognized (hstatus : 400 ≤ status ∧ status ≤ 499)
    (hreason : ∀ reason ∈ reasonOf errorFromSlice body,
      reason ∈ [JournalReasonCode.invalidDay, .invalidSegmentOrStream, .missingRequiredField]) :
    uploadAnswer errorFromSlice uploadFromSlice stop (.response status body) = .endSweep := by
  have hclass : statusClassOf status = .client := if_pos hstatus
  have hne : status ≠ 200 := by omega
  have hdiagnostic : (classifyErrorResponse errorFromSlice status body).diagnostic =
      .journalRejected := if_neg fun h => by
    rw [hclass] at h
    cases h.2
  rw [uploadAnswer, ingestUpload, if_pos hne]
  simp only
  rw [mapBridgeError, hdiagnostic, if_neg (by simp), mapJournalError, hdiagnostic]
  simp only [classifyErrorResponse]
  cases hcode : reasonOf errorFromSlice body with
  | none => rfl
  | some reason =>
    have hmem := hreason reason hcode
    simp only [List.mem_cons, List.not_mem_nil, or_false] at hmem
    rcases hmem with rfl | rfl | rfl <;> rfl

/-- The answer to a refusal with a recognized reason. -/
theorem uploadAnswer_recognized {reason : JournalReasonCode} (hne : status ≠ 200)
    (hcode : reasonOf errorFromSlice body = some reason) :
    uploadAnswer errorFromSlice uploadFromSlice stop (.response status body) =
      (mapJournalError ⟨.journalRejected, some (statusClassOf status), some reason,
        some status⟩).answer := by
  have herror : classifyErrorResponse errorFromSlice status body =
      ⟨.journalRejected, some (statusClassOf status), some reason, some status⟩ := by
    rw [classifyErrorResponse, hcode, if_neg fun h => nomatch h.1]
  rw [uploadAnswer, ingestUpload, if_pos hne, herror]
  simp only
  rw [mapBridgeError, if_neg fun h => nomatch h.1]

theorem reasonOf_of_givesReason {reasons : List Str}
    (h : UploadReply.GivesReason errorFromSlice reasons body) :
    ∃ text ∈ reasons, reasonOf errorFromSlice body = JournalReasonCode.parse text := by
  obtain ⟨response, hresponse, hmem⟩ := h
  exact ⟨response.reasonCode, hmem, by rw [reasonOf, hresponse]; rfl⟩

/-- A refusal of one request that is not retained ends the sweep. -/
theorem uploadAnswer_endSweep (hrequest : reply.RequestOnly errorFromSlice)
    (hretained : ¬ reply.Retained errorFromSlice) :
    uploadAnswer errorFromSlice uploadFromSlice stop reply = .endSweep := by
  cases reply with
  | error diagnostic => exact absurd hrequest hretained
  | response status body =>
    obtain ⟨hstatus, hgives | ⟨-, hnone⟩⟩ := hrequest
    · refine uploadAnswer_unrecognized hstatus fun reason hreason => ?_
      obtain ⟨response, hresponse, hmem⟩ := hgives
      have hparse : JournalReasonCode.parse response.reasonCode = some reason := by
        rw [← hreason, reasonOf, hresponse]
        rfl
      have hnot : response.reasonCode ∉ retainedReasons := fun hin =>
        hretained ⟨response, hresponse, hin⟩
      have hall : ∀ text ∈ requestReasons, text ∉ retainedReasons →
          ∀ reason ∈ JournalReasonCode.parse text,
            reason ∈ [JournalReasonCode.invalidDay, .invalidSegmentOrStream,
              .missingRequiredField] := by
        decide
      exact hall _ hmem hnot reason hparse
    · exact uploadAnswer_unrecognized hstatus (by simp [hnone])

/-- A refusal that is retained. -/
theorem uploadAnswer_retain (hrequest : reply.RequestOnly errorFromSlice)
    (hretained : reply.Retained errorFromSlice) :
    ∃ answer, uploadAnswer errorFromSlice uploadFromSlice stop reply = .retain answer := by
  cases reply with
  | error diagnostic =>
    rcases List.mem_cons.mp hretained with rfl | hmem
    · exact ⟨_, rfl⟩
    · obtain rfl := List.mem_singleton.mp hmem
      exact ⟨_, rfl⟩
  | response status body =>
    have hne : status ≠ 200 := by
      have := hrequest.1
      omega
    obtain ⟨text, hmem, hcode⟩ := reasonOf_of_givesReason hretained
    simp only [retainedReasons, List.mem_cons, List.not_mem_nil, or_false] at hmem
    rcases hmem with rfl | rfl | rfl | rfl <;>
      exact ⟨_, uploadAnswer_recognized hne hcode⟩

/-- What is neither a refusal nor device-wide does not end the sweep. -/
theorem uploadAnswer_ne_endSweep (hrequest : ¬ reply.RequestOnly errorFromSlice)
    (hdevice : ¬ reply.DeviceWide errorFromSlice uploadFromSlice) :
    uploadAnswer errorFromSlice uploadFromSlice stop reply ≠ .endSweep := by
  cases reply with
  | error diagnostic => exact absurd hrequest hdevice
  | response status body =>
    rw [UploadReply.DeviceWide] at hdevice
    split at hdevice
    · rename_i hok
      obtain ⟨upload, hupload⟩ := Option.ne_none_iff_exists'.mp hdevice
      rw [uploadAnswer, ingestUpload, if_neg (not_not.mpr hok), hupload]
      nofun
    · rename_i hne
      have hremoved := (not_not.mp hdevice).resolve_left hrequest
      obtain ⟨text, hmem, hcode⟩ := reasonOf_of_givesReason hremoved
      obtain rfl := List.mem_singleton.mp hmem
      rw [uploadAnswer_recognized hne (hcode.trans (JournalReasonCode.parse_wireStr .segmentRemoved))]
      nofun

end Replies

/-! ## A sweep of refusals -/

/-- One upload of a sweep: whether the bridge stopped, the reply, and how the writes that follow
end. -/
structure Exchange (StopReason : Type) where
  stop : Option StopReason
  reply : UploadReply
  stateWrite : Write
  ackWritten : Bool
  stateCleared : Write
  deleted : Bool

section Sweeps

variable (errorFromSlice : Bytes → Option ErrorResponse)
  (uploadFromSlice : Bytes → Option UploadResponse) {StopReason : Type}

/-- An upload as the loop of the sweep sees it. -/
def Exchange.turn (exchange : Exchange StopReason) : UploadTurn where
  answer := uploadAnswer errorFromSlice uploadFromSlice exchange.stop exchange.reply
  stateWrite := exchange.stateWrite
  ackWritten := exchange.ackWritten
  stateCleared := exchange.stateCleared
  deleted := exchange.deleted

/-- The input of a sweep, with what comes back of every upload until it is cancelled. -/
structure ExchangedSweep (StopReason : Type) where
  now : ℤ
  visits : List Visit
  exchanges : List (Exchange StopReason)
  nodup : (visits.map Visit.candidate).Nodup

/-- The sweep as its loop sees it. -/
def ExchangedSweep.input (sweep : ExchangedSweep StopReason) : SweepInput where
  now := sweep.now
  visits := sweep.visits
  turns := sweep.exchanges.map (Exchange.turn errorFromSlice uploadFromSlice)
  nodup := sweep.nodup

namespace SyncState

/-- The candidates that the second pass of a sweep attempts. -/
def attempts (now : ℤ) : SyncState → List Due → List UploadTurn → List SegmentCandidate
  | s, due :: dues, turn :: turns =>
    due.candidate ::
      match s.upload now due turn with
      | none => []
      | some s => attempts now s dues turns
  | _, _, _ => []

/-- A candidate is kept for a later attempt, at a schedule that was set at a wall time. -/
def Rescheduled (s : SyncState) (now : ℤ) (candidate : SegmentCandidate) : Prop :=
  (∃ interval, IsRetryInterval interval ∧ s.recorded candidate = some ⟨now, interval⟩) ∧
    now < s.nextAttempt now candidate

end SyncState

/-- Every due candidate is attempted unless a device-wide reply came before it, and it is kept for a
later attempt when its reply refuses the request. -/
def SweepGoesOn (s : SyncState) (sweep : ExchangedSweep StopReason) : Prop :=
  ∀ n due exchange, (s.uploadDue sweep.now sweep.visits)[n]? = some due →
    sweep.exchanges[n]? = some exchange →
    (∀ earlier ∈ sweep.exchanges.take n,
      ¬ earlier.reply.DeviceWide errorFromSlice uploadFromSlice) →
    due.candidate ∈ s.attempts sweep.now (s.uploadDue sweep.now sweep.visits)
        (sweep.input errorFromSlice uploadFromSlice).turns ∧
      (exchange.reply.RequestOnly errorFromSlice →
        (s.sweep (sweep.input errorFromSlice uploadFromSlice)).Rescheduled sweep.now due.candidate)

/-- Every refusal of one request that a due candidate draws before the first device-wide reply is
one of those that are retained. -/
def RefusalsRetained (s : SyncState) (sweep : ExchangedSweep StopReason) : Prop :=
  ∀ n due exchange, (s.uploadDue sweep.now sweep.visits)[n]? = some due →
    sweep.exchanges[n]? = some exchange →
    (∀ earlier ∈ sweep.exchanges.take n,
      ¬ earlier.reply.DeviceWide errorFromSlice uploadFromSlice) →
    exchange.reply.RequestOnly errorFromSlice → exchange.reply.Retained errorFromSlice

end Sweeps

/-! ## What a sweep does to one candidate -/

section Uploads

variable {s : SyncState} {now : ℤ} {due : Due} {turn : UploadTurn}

theorem upload_eq_none_iff : s.upload now due turn = none ↔ turn.answer = .endSweep := by
  unfold SyncState.upload
  cases turn.answer with
  | endSweep => simp
  | removed => simp
  | retain answer => simp
  | result result =>
    simp only [reduceCtorEq, iff_false]
    split <;> nofun

/-- While no answer ends a sweep, it attempts. -/
theorem mem_attempts {dues : List Due} {turns : List UploadTurn} {n : ℕ}
    (hdue : dues[n]? = some due) (hturn : turns[n]? = some turn)
    (hearlier : ∀ earlier ∈ turns.take n, earlier.answer ≠ .endSweep) :
    due.candidate ∈ s.attempts now dues turns := by
  induction n generalizing s dues turns with
  | zero =>
    obtain ⟨dues, rfl⟩ : ∃ rest, dues = due :: rest := by
      cases dues with
      | nil => cases hdue
      | cons first rest => exact ⟨rest, by cases hdue; rfl⟩
    cases turns with
    | nil => cases hturn
    | cons first rest => exact List.mem_cons_self
  | succ n ih =>
    cases dues with
    | nil => cases hdue
    | cons first dues =>
      cases turns with
      | nil => cases hturn
      | cons head turns =>
        rw [List.take_succ_cons, List.forall_mem_cons] at hearlier
        obtain ⟨s', hs'⟩ : ∃ s', s.upload now first head = some s' :=
          Option.ne_none_iff_exists'.mp fun h => hearlier.1 (upload_eq_none_iff.mp h)
        rw [SyncState.attempts, hs']
        exact List.mem_cons_of_mem _ (ih hdue hturn hearlier.2)

/-- What a sweep does to one due candidate: nothing before its upload, the upload unless an answer
ended the sweep, and nothing after. -/
theorem uploadAll_getElem? {dues : List Due} {turns : List UploadTurn} {n : ℕ}
    (hnodup : (dues.map Due.candidate).Nodup) (hdue : dues[n]? = some due)
    (hturn : turns[n]? = some turn) :
    (SameCandidate s (SyncState.uploadAll now s dues turns) due.candidate ∧
      ∃ ended ∈ turns.take (n + 1), ended.answer = .endSweep) ∨
    ∃ s' s'', SameCandidate s s' due.candidate ∧ s'.upload now due turn = some s'' ∧
      SameCandidate s'' (SyncState.uploadAll now s dues turns) due.candidate := by
  induction n generalizing s dues turns with
  | zero =>
    cases dues with
    | nil => cases hdue
    | cons first dues =>
      cases turns with
      | nil => cases hturn
      | cons head turns =>
        cases hdue
        cases hturn
        rw [List.map_cons, List.nodup_cons] at hnodup
        rw [SyncState.uploadAll]
        cases hupload : s.upload now due turn with
        | none =>
          exact .inl ⟨.refl s _, turn, List.mem_cons_self, upload_eq_none_iff.mp hupload⟩
        | some s' =>
          exact .inr ⟨s, s', .refl s _, hupload, sameCandidate_uploadAll hnodup.1 turns⟩
  | succ n ih =>
    cases dues with
    | nil => cases hdue
    | cons first dues =>
      cases turns with
      | nil => cases hturn
      | cons head turns =>
        rw [List.map_cons, List.nodup_cons] at hnodup
        have hne : due.candidate ≠ first.candidate := fun heq =>
          hnodup.1 (heq ▸ List.mem_map_of_mem (List.mem_of_getElem? hdue))
        rw [SyncState.uploadAll]
        cases hupload : s.upload now first head with
        | none =>
          exact .inl ⟨.refl s _, head, List.mem_cons_self, upload_eq_none_iff.mp hupload⟩
        | some s' =>
          have hsame := sameCandidate_upload hupload hne
          obtain ⟨hrest, ended, hended, hanswer⟩ | ⟨s₁, s₂, hbefore, hat, hafter⟩ :=
            @ih s' dues turns hnodup.2 hdue hturn
          · exact .inl ⟨hsame.trans hrest, ended, List.mem_cons_of_mem _ hended, hanswer⟩
          · exact .inr ⟨s₁, s₂, hsame.trans hbefore, hat, hafter⟩

/-- A schedule that is set leaves its candidate out from now on. -/
theorem rescheduled_setSchedule (hjournal : due.state.journal = some s.identity) {interval : ℕ}
    (hretry : IsRetryInterval interval) (answer : Str) (count : ℕ) (write : Write) :
    (s.setSchedule due answer count ⟨now, interval⟩ write).Rescheduled now due.candidate := by
  have hdue : now < (⟨now, interval⟩ : Schedule).due := by
    rw [Schedule.due]
    rcases hretry with rfl | rfl <;> simp
  refine ⟨⟨interval, hretry, Function.update_self _ _ _⟩, ?_⟩
  rw [nextAttempt_eq]
  by_cases hfailed : write = .failed
  · refine hdue.trans_le (Schedule.floor_le_next ?_)
    rw [floors_setSchedule, hfailed]
    rfl
  · exact (lt_min hdue hdue).trans_le
      (Schedule.stored_le_next (storedSchedule_setSchedule hjournal answer count _ hfailed))

end Uploads

/-! ## When a sweep goes on -/

section Goes

variable {errorFromSlice : Bytes → Option ErrorResponse}
  {uploadFromSlice : Bytes → Option UploadResponse} {StopReason : Type} {s : SyncState}
  {sweep : ExchangedSweep StopReason}

/-- While every reply is retained that refuses one request, and none is device-wide, the sweep does
not end. -/
theorem answer_ne_endSweep {dues : List Due} {exchanges : List (Exchange StopReason)} {n : ℕ}
    (hlength : n ≤ dues.length)
    (hretained : ∀ n due exchange, dues[n]? = some due → exchanges[n]? = some exchange →
      (∀ earlier ∈ exchanges.take n,
        ¬ earlier.reply.DeviceWide errorFromSlice uploadFromSlice) →
      exchange.reply.RequestOnly errorFromSlice → exchange.reply.Retained errorFromSlice)
    (hdevice : ∀ earlier ∈ exchanges.take n,
      ¬ earlier.reply.DeviceWide errorFromSlice uploadFromSlice) :
    ∀ turn ∈ (exchanges.map (Exchange.turn errorFromSlice uploadFromSlice)).take n,
      turn.answer ≠ .endSweep := by
  intro turn hturn
  rw [← List.map_take] at hturn
  obtain ⟨exchange, hexchange, rfl⟩ := List.mem_map.mp hturn
  obtain ⟨i, hi⟩ := List.mem_iff_getElem?.mp hexchange
  have hlt : i < n := by
    by_contra hge
    rw [List.getElem?_take_eq_none (by omega)] at hi
    cases hi
  rw [List.getElem?_take_of_lt hlt] at hi
  have hbefore : ∀ earlier ∈ exchanges.take i,
      ¬ earlier.reply.DeviceWide errorFromSlice uploadFromSlice := fun earlier hearlier =>
    hdevice earlier ((List.take_subset_take_left _ hlt.le) hearlier)
  by_cases hrequest : exchange.reply.RequestOnly errorFromSlice
  · obtain ⟨answer, hanswer⟩ := uploadAnswer_retain hrequest
      (hretained i _ exchange (List.getElem?_eq_getElem (by omega)) hi hbefore hrequest)
    intro hends
    cases hanswer.symm.trans hends
  · exact uploadAnswer_ne_endSweep hrequest (hdevice exchange hexchange)

/-- **A sweep goes on past refused requests exactly when they are retained.** -/
theorem sweep_goes_on_iff (errorFromSlice : Bytes → Option ErrorResponse)
    (uploadFromSlice : Bytes → Option UploadResponse) {StopReason : Type} (s : SyncState)
    (sweep : ExchangedSweep StopReason) :
    SweepGoesOn errorFromSlice uploadFromSlice s sweep ↔
      RefusalsRetained errorFromSlice uploadFromSlice s sweep := by
  have hnodup : ((s.uploadDue sweep.now sweep.visits).map Due.candidate).Nodup :=
    sweep.nodup.sublist (uploadDue_sublist s sweep.now sweep.visits)
  constructor
  · intro h n due exchange hdue hexchange hdevice hrequest
    by_contra hnot
    have hscheduled := ((h n due exchange hdue hexchange hdevice).2 hrequest).2
    have hattempted := attempted_of_mem_uploadDue (List.mem_of_getElem? hdue)
    have hturn : (sweep.input errorFromSlice uploadFromSlice).turns[n]? =
        some (exchange.turn errorFromSlice uploadFromSlice) := by
      rw [ExchangedSweep.input, List.getElem?_map, hexchange]
      rfl
    obtain ⟨hsame, -⟩ | ⟨s', s'', -, hupload, -⟩ :=
      @uploadAll_getElem? s sweep.now due _ _ _ n hnodup hdue hturn
    · -- The sweep ended at this candidate or before: its schedule is the one that had come.
      exact absurd (hsame.nextAttempt.trans_le hattempted.2) (not_le.mpr hscheduled)
    · have hends : (exchange.turn errorFromSlice uploadFromSlice).answer = .endSweep :=
        uploadAnswer_endSweep hrequest hnot
      rw [upload_eq_none_iff.mpr hends] at hupload
      cases hupload
  · intro h n due exchange hdue hexchange hdevice
    have hturn : (sweep.input errorFromSlice uploadFromSlice).turns[n]? =
        some (exchange.turn errorFromSlice uploadFromSlice) := by
      rw [ExchangedSweep.input, List.getElem?_map, hexchange]
      rfl
    have hlength := (List.getElem?_eq_some_iff.mp hdue).1
    have hearlier := answer_ne_endSweep hlength.le h hdevice
    refine ⟨mem_attempts hdue hturn hearlier, fun hrequest => ?_⟩
    obtain ⟨answer, hanswer⟩ : ∃ answer,
        (exchange.turn errorFromSlice uploadFromSlice).answer = .retain answer :=
      uploadAnswer_retain hrequest (h n due exchange hdue hexchange hdevice hrequest)
    have hattempted := attempted_of_mem_uploadDue (List.mem_of_getElem? hdue)
    obtain ⟨-, ended, hended, hend⟩ | ⟨s', s'', hbefore, hupload, hafter⟩ :=
      @uploadAll_getElem? s sweep.now due _ _ _ n hnodup hdue hturn
    · rw [List.take_add_one, hturn, List.mem_append] at hended
      rcases hended with hended | hended
      · exact absurd hend (hearlier ended hended)
      · obtain rfl := List.mem_singleton.mp hended
        rw [hanswer] at hend
        cases hend
    · have hset : s'' = s'.answered sweep.now due answer exchange.stateWrite := by
        rw [SyncState.upload, hanswer] at hupload
        exact (Option.some.inj hupload).symm
      have hjournal : due.state.journal = some s'.identity := by
        rw [hattempted.1, journal_readStateRecord, hbefore.identity]
      have hrescheduled : s''.Rescheduled sweep.now due.candidate :=
        hset ▸ rescheduled_setSchedule hjournal
          (isRetryInterval_retryInterval (countAnswer due.state answer)) answer
          (countAnswer due.state answer) exchange.stateWrite
      obtain ⟨⟨interval, hretry, hrecorded⟩, hnext⟩ := hrescheduled
      exact ⟨⟨interval, hretry, hafter.recorded.trans hrecorded⟩,
        hnext.trans_eq hafter.nextAttempt.symm⟩

end Goes

/-! ## A refused day -/

/-- A refusal for its day, as the journal writes it. -/
def dayRefusal : UploadReply :=
  .response 400
    (utf8 "\x7b\"error\":\"Bad day\",\"reason_code\":\"invalid_day\",\"detail\":\"\"\x7d".toList)

/-- Two candidates are due, and the newer one is refused for its day. -/
def daySweep : ExchangedSweep Unit where
  now := 1780000000
  visits := [⟨soleCandidate, .pending []⟩,
    ⟨{ soleCandidate with day := "20260630".toList }, .pending []⟩]
  exchanges := [⟨none, dayRefusal, .done, true, .done, false⟩,
    ⟨none, .response 200 [], .done, true, .done, false⟩]
  nodup := by decide

theorem refused_day_blocks :
    ¬ SweepGoesOn (fun _ => some ⟨"invalid_day".toList⟩) (fun _ => some ⟨.ok, none, none, none⟩)
        (.start soleJournal fun _ => none) daySweep ∧
      (SyncState.start soleJournal fun _ => none).attempts daySweep.now
        ((SyncState.start soleJournal fun _ => none).uploadDue daySweep.now daySweep.visits)
        (daySweep.input (fun _ => some ⟨"invalid_day".toList⟩)
          fun _ => some ⟨.ok, none, none, none⟩).turns = [soleCandidate] := by
  have hattempts : (SyncState.start soleJournal fun _ => none).attempts daySweep.now
      ((SyncState.start soleJournal fun _ => none).uploadDue daySweep.now daySweep.visits)
      (daySweep.input (fun _ => some ⟨"invalid_day".toList⟩)
        fun _ => some ⟨.ok, none, none, none⟩).turns = [soleCandidate] := by
    decide
  refine ⟨fun h => ?_, hattempts⟩
  have hrequest : dayRefusal.RequestOnly fun _ => some ⟨"invalid_day".toList⟩ :=
    ⟨by decide, .inl ⟨_, rfl, by decide⟩⟩
  have hnext := ((h 0 _ _ rfl rfl (by simp)).2 hrequest).2
  revert hnext
  decide

end SolstoneTmux
