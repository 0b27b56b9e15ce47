import SolstoneTmux.Pairing.Answer

/-!
# The ceremonies

`setup`, `confirm` and the start of the uploader, as programs over the private files, and runs of
them one after another. What `setup` checks before it looks at the files, its pairing link and the
ceremony with the journal are its input, and so is what the owner types. `retire_credential` speaks to the
journal alone and is left out, as is the cached journal version that `setup` clears.

Once a pairing is confirmed, the uploader's session changes its credential as `CredentialStore` does:
it replaces the endpoints and the relay access of the credential it began with.
-/

namespace SolstoneTmux

open Foundations Foundations.Prog

/-! ## Inputs -/

/-- `MarkOption`. -/
inductive MarkOption
  | absent
  | missingValue
  | repeated
  | value (words : Str)

/-- `TerminalDecision`. -/
inductive TerminalDecision
  | yes
  | no
  | walkedAway
  deriving DecidableEq

/-- The input of `setup_with_pairer`: what ends it before it looks at the files, the option, what
the owner does at the terminal if there is one, and what reading the link and pairing give. -/
structure SetupInput where
  unavailable : Option DiagnosticCode
  mark : MarkOption
  terminal : Option TerminalDecision
  paired : Except DiagnosticCode Credential

/-- The input of `confirm`. -/
structure ConfirmInput where
  unavailable : Option DiagnosticCode
  mark : MarkOption
  terminal : Option TerminalDecision

/-- A change that a session makes to its credential. -/
structure SessionUpdate where
  endpoints : List EndpointAddr
  relayOrigin : Option Str
  deviceToken : Option Str
  deviceTokenExpiresAt : Option ℤ

/-- The credential after a session's change. -/
def Credential.updated (credential : Credential) (update : SessionUpdate) : Credential :=
  { credential with
    endpoints := update.endpoints
    relayOrigin := update.relayOrigin
    deviceToken := update.deviceToken
    deviceTokenExpiresAt := update.deviceTokenExpiresAt }

/-- The checks of the option: the words to compare, or none when the owner is asked. -/
def markWords : MarkOption → Except Outcome (Option Str)
  | .missingValue | .repeated => .error (.usage MARK_USAGE)
  | .value words =>
    if (splitMarkWords words).length ≠ 2 then .error (.usage MARK_USAGE) else .ok (some words)
  | .absent => .ok none

/-- What the owner is asked with: the words, or a terminal. -/
def seatOf (noTerminal : String) (words : Option Str) (terminal : Option TerminalDecision) :
    Except Outcome (Str ⊕ TerminalDecision) :=
  match words, terminal with
  | some words, _ => .ok (.inl words)
  | none, some decision => .ok (.inr decision)
  | none, none => .error (.owner 1 [noTerminal])

section Ceremonies

variable (sha256 : Bytes → Bytes) (pinnedCaJid : List Str → Bytes → Option Str)
  (markFromJid : Str → Option Mark) (toLowercase : Str → Str)

/-! ## Settling and recording -/

/-- `grandfather_or_settle`. -/
def grandfatherOrSettle : Ceremony (Except DiagnosticCode Unit) :=
  (inspect fun s => readAnswerFile s.answer).bind fun
    | .ok (some _) | .error _ => done (.ok ())
    | .ok none =>
      (inspect fun s => loadCredential s.credentials).bind fun
        | .ok (some credential) =>
          if credential.clientCertPem.isEmpty then settleAnswerFile none []
          else
            settleAnswerFile (some credential) (pairingGenerationHex sha256 credential.clientCertPem)
        | .ok none | .error .privateStateInvalid => settleAnswerFile none []
        | .error code => done (.error code)

/-- `grandfather_or_settle` under the answer lock, for the ceremonies that stop when it fails. -/
def settleFirst : Ceremony Unit :=
  acquireAnswerLock.bind fun lock =>
  (orDiagnostic lock).bind fun _ =>
  (grandfatherOrSettle sha256).bind orDiagnostic

/-- `record_confirmation`. -/
def recordConfirmation (credential : Credential) (generation : Str) :
    Ceremony (Except DiagnosticCode Unit) :=
  match caJid pinnedCaJid credential with
  | some jid =>
    if jid ≠ credential.instanceId then
      (persistCredential { credential with instanceId := jid }).bind fun
        | .error code => done (.error code)
        | .ok _ => writeAnswerFile generation
    else writeAnswerFile generation
  | none =>
    (writePrivate (fun s => isNotRegular s.unverified) fun s =>
      { s with unverified := some (.value generation) }).bind fun
      | .error _ => done (.error .privateStateIo)
      | .ok _ => writeAnswerFile generation

/-- The confirmation of the stored credential, if there is one. -/
def storedIsConfirmed (s : PrivateState) : Bool :=
  match loadCredential s.credentials with
  | .ok (some existing) => isPairingConfirmed sha256 pinnedCaJid s existing
  | _ => false

/-- `existing_pairing_confirmed`. -/
def existingPairingConfirmed : Ceremony Bool :=
  acquireAnswerLock.bind fun
    | .error _ => done false
    | .ok _ => inspect (storedIsConfirmed sha256 pinnedCaJid)

/-! ## Setup -/

/-- What `setup` does when the owner accepted the mark. -/
def acceptPairing (credential : Credential) : Ceremony Outcome :=
  acquireAnswerLock.bind fun lock =>
  (orDiagnostic lock).bind fun _ =>
  (persistCredential credential).bind fun persisted =>
  (orDiagnostic persisted).bind fun _ =>
  (recordConfirmation pinnedCaJid credential
    (pairingGenerationHex sha256 credential.clientCertPem)).bind fun
    | .error _ => done (.owner 5 [HELD, RUN_LINE])
    | .ok _ => done (.owner 0 [PAIRED])

/-- What `setup` does when the owner walked away. -/
def keepHeld (credential : Credential) : Ceremony Outcome :=
  acquireAnswerLock.bind fun lock =>
  (orDiagnostic lock).bind fun _ =>
  (inspect (storedIsConfirmed sha256 pinnedCaJid)).bind fun confirmed =>
  if confirmed then done (.owner 1 [PAIRING_KEPT_STOPPED])
  else
    (persistCredential credential).bind fun persisted =>
    (orDiagnostic persisted).bind fun _ => done (.owner 5 [HELD, RUN_LINE])

/-- What `setup` says when the words did not match. -/
def mismatchedWords (identified replacing : Bool) : Outcome :=
  if replacing then .owner 1 [if identified then MARK_WORDS_WRONG else COULDNT_VERIFY, PAIRING_KEPT]
  else if !identified then .owner 1 [COULDNT_VERIFY, MARK_UNVERIFIABLE_SETUP]
  else .owner 1 [NOT_PAIRED, MARK_MISMATCH]

/-- What `setup` says when the owner said no. -/
def declinedMark (identified replacing : Bool) : Outcome :=
  if replacing then .owner 1 [if identified then PAIRING_KEPT else PAIRING_KEPT_STOPPED]
  else if identified then .owner 1 [NOT_PAIRED, MISMATCH_BODY]
  else .owner 1 [CANCEL]

/-- `setup_with_pairer` once it is paired. -/
def judgePairing (credential : Credential) (seat : Str ⊕ TerminalDecision) : Ceremony Outcome :=
  let shown := markJid pinnedCaJid credential
  let identified := (formatSpokenMark markFromJid shown).isSome
  match seat with
  | .inl words =>
    match evaluateMarkWords markFromJid toLowercase words shown with
    | .usage => done (.usage MARK_USAGE)
    | .matched =>
      (answering credential true).bind fun _ => acceptPairing sha256 pinnedCaJid credential
    | .mismatch =>
      (answering credential false).bind fun _ =>
      (existingPairingConfirmed sha256 pinnedCaJid).bind fun replacing =>
      done (mismatchedWords identified replacing)
  | .inr .yes => (answering credential true).bind fun _ => acceptPairing sha256 pinnedCaJid credential
  | .inr .no =>
    (answering credential false).bind fun _ =>
    (existingPairingConfirmed sha256 pinnedCaJid).bind fun replacing =>
    done (declinedMark identified replacing)
  | .inr .walkedAway =>
    (answering credential false).bind fun _ => keepHeld sha256 pinnedCaJid credential

/-- `setup_with_pairer`. -/
def setup (input : SetupInput) : Ceremony Outcome :=
  match input.unavailable with
  | some code => done (.diagnostic code)
  | none =>
    (orRaise id (markWords input.mark)).bind fun words =>
    (orRaise id (seatOf SETUP_NO_TERMINAL words input.terminal)).bind fun seat =>
    (settleFirst sha256).bind fun _ =>
    (orDiagnostic input.paired).bind fun credential =>
    judgePairing sha256 pinnedCaJid markFromJid toLowercase credential seat

/-! ## Confirmation -/

/-- The stored credential, if it is still the one that was shown. -/
def loadShown (displayed : Str) : Ceremony Credential :=
  acquireAnswerLock.bind fun lock =>
  (orDiagnostic lock).bind fun _ =>
  (inspect fun s => loadCredential s.credentials).bind fun
    | .ok (some current) =>
      if pairingGenerationHex sha256 current.clientCertPem ≠ displayed then
        raise (.diagnostic .privateStateIo)
      else done current
    | _ => raise (.diagnostic .privateStateIo)

/-- What `confirm` does when the owner accepted the mark. -/
def confirmShown (displayed : Str) : Ceremony Outcome :=
  (loadShown sha256 displayed).bind fun current =>
  (recordConfirmation pinnedCaJid current displayed).bind fun recorded =>
  (orDiagnostic recorded).bind fun _ => done (.owner 0 [PAIRED])

/-- What `confirm` does when the owner did not accept the mark. -/
def deleteShown (displayed : Str) (lines : List String) : Ceremony Outcome :=
  (loadShown sha256 displayed).bind fun _ =>
  deleteCredentialFile.bind fun deleted =>
  (orDiagnostic deleted).bind fun _ => done (.owner 1 lines)

/-- `confirm` about a stored credential that is not confirmed. -/
def judgeStored (saved : Credential) (seat : Str ⊕ TerminalDecision) : Ceremony Outcome :=
  let displayed := pairingGenerationHex sha256 saved.clientCertPem
  let shown := markJid pinnedCaJid saved
  let identified := (formatSpokenMark markFromJid shown).isSome
  match seat with
  | .inl words =>
    match evaluateMarkWords markFromJid toLowercase words shown with
    | .usage => done (.usage MARK_USAGE)
    | .matched =>
      (answering saved true).bind fun _ => confirmShown sha256 pinnedCaJid displayed
    | .mismatch =>
      (answering saved false).bind fun _ =>
      if !identified then done (.owner 5 [MARK_UNVERIFIABLE_CONFIRM])
      else deleteShown sha256 displayed [NOT_PAIRED, CONFIRM_MARK_MISMATCH]
  | .inr .yes => (answering saved true).bind fun _ => confirmShown sha256 pinnedCaJid displayed
  | .inr .no =>
    (answering saved false).bind fun _ =>
    deleteShown sha256 displayed
      (if identified then [NOT_PAIRED, CONFIRM_MISMATCH_BODY] else [CONFIRM_CANCEL])
  | .inr .walkedAway =>
    (answering saved false).bind fun _ => done (.owner 5 [HELD, RUN_LINE])

/-- `confirm`. -/
def confirm (input : ConfirmInput) : Ceremony Outcome :=
  (orRaise id (markWords input.mark)).bind fun words =>
  match input.unavailable with
  | some code => done (.diagnostic code)
  | none =>
    (settleFirst sha256).bind fun _ =>
    (inspect fun s => loadCredential s.credentials).bind fun loaded =>
    (orDiagnostic loaded).bind fun
      | none => done (.owner 1 [CONFIRM_UNPAIRED])
      | some saved =>
        (inspect fun s => isPairingConfirmed sha256 pinnedCaJid s saved).bind fun confirmed =>
        if confirmed then done (.owner 0 [CONFIRM_DONE])
        else
          (orRaise id (seatOf CONFIRM_NO_TERMINAL words input.terminal)).bind fun seat =>
          judgeStored sha256 pinnedCaJid markFromJid toLowercase saved seat

/-! ## The uploader -/

/-- `SyncTask::run`: it settles the answer file if it can, and begins a session once the stored
credential is confirmed. -/
def syncTask (updates : List SessionUpdate) : Ceremony Unit :=
  acquireAnswerLock.bind fun lock =>
  ((match lock with
    | .ok _ => grandfatherOrSettle sha256
    | .error code => done (.error code) : Ceremony (Except DiagnosticCode Unit))).bind fun _ =>
  (inspect fun s => loadCredential s.credentials).bind fun loaded =>
  (orDiagnostic loaded).bind fun
    | none => done ()
    | some credential =>
      (inspect fun s => isPairingConfirmed sha256 pinnedCaJid s credential).bind fun confirmed =>
      if !confirmed then done ()
      else
        forEach updates fun update =>
          (persistCredential (credential.updated update)).bind fun _ => done ()

/-! ## Runs -/

/-- One run of the program, with what happens to its calls. -/
inductive PairingRun
  | setup (input : SetupInput) (ts : List Turn)
  | confirm (input : ConfirmInput) (ts : List Turn)
  | syncTask (updates : List SessionUpdate) (ts : List Turn)

/-- The files after a run. -/
def PairingRun.apply (s : PrivateState) : PairingRun → PrivateState
  | .setup input ts =>
    (run ts (SolstoneTmux.setup sha256 pinnedCaJid markFromJid toLowercase input) s).2
  | .confirm input ts =>
    (run ts (SolstoneTmux.confirm sha256 pinnedCaJid markFromJid toLowercase input) s).2
  | .syncTask updates ts => (run ts (SolstoneTmux.syncTask sha256 pinnedCaJid updates) s).2

/-- The files after several runs. -/
def afterCeremonies (s : PrivateState) (runs : List PairingRun) : PrivateState :=
  runs.foldl (PairingRun.apply sha256 pinnedCaJid markFromJid toLowercase) s

end Ceremonies

/-- The files before any answer file was settled. -/
def unsettled (credentials : Option (PrivateFile Credential)) (unverified : Option (PrivateFile Str)) :
    PrivateState :=
  ⟨none, credentials, unverified, [], none⟩

end SolstoneTmux
