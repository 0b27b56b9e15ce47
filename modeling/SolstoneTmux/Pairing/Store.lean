import SolstoneTmux.Foundations.Text
import SolstoneTmux.Sync.Sweep

/-!
# The credential store

`CredentialStore` holds the credential that the running program uses. Token refreshes, relay access
and endpoint lists change it through an owner queue: one task at a time claims its change under the
store's lock, writes the credential's file without the lock, and then takes the lock again to
publish what it wrote. Capturing an access attempt, shutting down and dialling happen in between.

`Session.step` is one such step; a step that is not due does nothing. Of a `TransportClient` only
the credential and the hook it was built with are kept, whether building it works is an input, and
so is whether an attempt's deadline has passed. A write of the file ends as `Write` says, and others
leave the file alone. `Session.installed` is beside the program: every transport the opener was
given.
-/

namespace SolstoneTmux

open Foundations

/-! ## Credentials -/

/-- `EndpointAddr`. -/
structure EndpointAddr where
  host : Str
  port : ℕ
  deriving DecidableEq

/-- `Credential`. The fields that are only carried along are one. -/
structure Credential where
  clientCertPem : Str
  caChainPem : List Str
  caFpPrefix : Bytes
  instanceId : Str
  endpoints : List EndpointAddr
  relayOrigin : Option Str
  deviceToken : Option Str
  deviceTokenExpiresAt : Option ℤ
  carried : Str
  deriving DecidableEq

/-- The credential with a device token. -/
def Credential.withToken (c : Credential) (token : Str) (expiresAt : ℤ) : Credential :=
  { c with deviceToken := some token, deviceTokenExpiresAt := some expiresAt }

/-- The credential without relay access. -/
def Credential.direct (c : Credential) : Credential :=
  { c with relayOrigin := none, deviceToken := none, deviceTokenExpiresAt := none }

/-- The fields by which an uncertain write is judged. -/
def Credential.matchesLoaded (updated loaded : Credential) : Bool :=
  loaded.relayOrigin = updated.relayOrigin && loaded.deviceToken = updated.deviceToken &&
    loaded.deviceTokenExpiresAt = updated.deviceTokenExpiresAt &&
    loaded.clientCertPem = updated.clientCertPem && loaded.endpoints = updated.endpoints

section Merge

variable {Ip : Type} [DecidableEq Ip] (parse : Str → Option Ip) (toText : Ip → Str)

/-- The first loop of `merge_dial_endpoints`. -/
def mergeListed : List (Ip × ℕ) → List EndpointAddr → List (Ip × ℕ) × List EndpointAddr
  | seen, [] => (seen, [])
  | seen, endpoint :: rest =>
    match parse endpoint.host with
    | none => mergeListed seen rest
    | some ip =>
      if (ip, endpoint.port) ∈ seen then mergeListed seen rest
      else
        let (seen, merged) := mergeListed ((ip, endpoint.port) :: seen) rest
        (seen, ⟨toText ip, endpoint.port⟩ :: merged)

/-- The second loop of `merge_dial_endpoints`, which adds at most two stored endpoints. -/
def mergeStored : ℕ → List (Ip × ℕ) → List EndpointAddr → List EndpointAddr
  | 0, _, _ => []
  | _, _, [] => []
  | left + 1, seen, endpoint :: rest =>
    match parse endpoint.host with
    | none => endpoint :: mergeStored left seen rest
    | some ip =>
      if (ip, endpoint.port) ∈ seen then mergeStored (left + 1) seen rest
      else endpoint :: mergeStored left ((ip, endpoint.port) :: seen) rest

/-- `merge_dial_endpoints`. -/
def mergeDialEndpoints (listed stored : List EndpointAddr) : List EndpointAddr :=
  let (seen, merged) := mergeListed parse toText [] listed
  merged ++ mergeStored parse 2 seen stored

end Merge

/-! ## The store -/

/-- `TokenUpdate`. -/
structure TokenUpdate where
  id : UInt64
  expectedMutationGen : UInt64
  deriving DecidableEq

/-- `CredentialPersistenceIssue`. -/
inductive CredentialPersistenceIssue
  | failed
  | uncertain
  deriving DecidableEq

/-- `AccessAttempt`, without its deadline. -/
structure AccessAttempt where
  pairingGeneration : Bytes
  laneAttemptId : UInt64
  ownerAttemptId : UInt64
  accessRevision : UInt64
  relayOrigin : Option Str
  deviceToken : Option Str
  deriving DecidableEq

/-- `CredentialStore` with its state. -/
structure CredentialStore where
  pairingGeneration : Bytes
  credential : Credential
  mutationGeneration : UInt64
  pending : Option TokenUpdate
  durableClearPendingGen : Option UInt64
  shutdown : Bool
  currentAccessAttemptId : UInt64
  persistenceIssue : Option CredentialPersistenceIssue
  nextPendingId : UInt64
  nextAccessAttemptId : UInt64

namespace CredentialStore

/-- `CredentialStore::new`. -/
def new (credential : Credential) (pairingGeneration : Bytes) : CredentialStore :=
  ⟨pairingGeneration, credential, 0, none, none, false, 0, none, 0, 0⟩

/-- `capture_access_attempt_until`. -/
def captureAccessAttempt (s : CredentialStore) (laneAttemptId : UInt64) :
    AccessAttempt × CredentialStore :=
  let ownerAttemptId := s.nextAccessAttemptId + 1
  (⟨s.pairingGeneration, laneAttemptId, ownerAttemptId, s.mutationGeneration,
      s.credential.relayOrigin, s.credential.deviceToken⟩,
    { s with nextAccessAttemptId := ownerAttemptId, currentAccessAttemptId := ownerAttemptId })

/-- `access_attempt_is_current`. -/
def accessAttemptIsCurrent (s : CredentialStore) (attempt : AccessAttempt) (inTime : Bool) : Bool :=
  inTime && attempt.pairingGeneration = s.pairingGeneration && attempt.laneAttemptId ≠ 0 &&
    s.currentAccessAttemptId = attempt.ownerAttemptId && !s.shutdown &&
    s.mutationGeneration = attempt.accessRevision &&
    s.credential.relayOrigin = attempt.relayOrigin &&
    s.credential.deviceToken = attempt.deviceToken

/-- The store with a pending update of its current id. -/
def withPending (s : CredentialStore) (revision : UInt64) : CredentialStore :=
  { s with
    nextPendingId := s.nextPendingId + 1
    pending := some ⟨s.nextPendingId + 1, revision⟩ }

end CredentialStore

/-! ## The opener -/

/-- `TransportClient`: the credential it was built from and the revision of its token hook. -/
structure Transport where
  credential : Credential
  hookRevision : UInt64
  deriving DecidableEq

/-- `OpenerMode`. -/
inductive OpenerMode
  | transport (transport : Transport) (credential : Credential) (accessRevision : UInt64)
  | disabled (credential : Credential) (accessRevision : UInt64)

/-- `PrivateLinkOpener`. -/
structure PrivateLinkOpener where
  incarnation : UInt64
  retired : Bool
  mode : OpenerMode

namespace PrivateLinkOpener

/-- `PrivateLinkOpener::new`. -/
def new (transport : Transport) (credential : Credential) : PrivateLinkOpener :=
  ⟨0, false, .transport transport credential 0⟩

/-- An opener in another mode, unless it is retired. -/
def install (o : PrivateLinkOpener) (mode : OpenerMode) : PrivateLinkOpener :=
  if o.retired then o else { o with incarnation := o.incarnation + 1, mode := mode }

/-- `retire`. -/
def retire (o : PrivateLinkOpener) : PrivateLinkOpener :=
  { o with retired := true, incarnation := o.incarnation + 1 }

/-- `live_dial_credential`. -/
def liveDialCredential (o : PrivateLinkOpener) : Credential :=
  match o.mode with
  | .transport _ credential _ | .disabled credential _ => credential

end PrivateLinkOpener

/-- A dial on its way: the incarnation and the transport it began with. -/
structure Dial where
  incarnation : UInt64
  transport : Transport

/-! ## The owner queue -/

/-- An action of the owner queue. -/
inductive Job
  | tokenRefresh (expectedMutationGen : UInt64) (token : Str) (expiresAt : ℤ)
  | ready (attempt : AccessAttempt) (relayOrigin deviceToken : Str) (expiresAt : ℤ)
  | dialEndpoints (endpoints : List EndpointAddr)
  | disable (attempt : AccessAttempt)
  | persistPending

/-- What a write of the credential belongs to, with what its action keeps. -/
inductive Work
  | tokenRefresh
  | ready (attempt : AccessAttempt) (transport : Transport) (revision : UInt64)
  | dialEndpoints (transport : Transport) (generation : UInt64)
  | disable (revision : UInt64)
  | persistPending

/-- Where the owner task stands. -/
inductive Stage
  | idle
  | disabling (direct : Credential) (revision : UInt64)
  | disabled (direct : Credential) (revision : UInt64)
  | writing (work : Work) (credential : Credential)
  | wrote (work : Work) (credential : Credential) (persisted : Bool)

/-- The store, its file, the opener, the owner queue and the dials. -/
structure Session where
  store : CredentialStore
  disk : Credential
  opener : PrivateLinkOpener
  queue : List Job
  stage : Stage
  dials : List Dial
  carriers : List Dial
  installed : List Transport

namespace Session

/-- A session that begins: the opener has the transport that the bridge was started with. -/
def start (credential : Credential) (pairingGeneration : Bytes) : Session where
  store := .new credential pairingGeneration
  disk := credential
  opener := .new ⟨credential, 0⟩ credential
  queue := []
  stage := .idle
  dials := []
  carriers := []
  installed := [⟨credential, 0⟩]

/-- `install_transport`. -/
def installTransport (w : Session) (transport : Transport) (credential : Credential)
    (accessRevision : UInt64) : Session :=
  { w with
    opener := w.opener.install (.transport transport credential accessRevision)
    installed := transport :: w.installed }

/-- `install_disabled`. -/
def installDisabled (w : Session) (credential : Credential) (accessRevision : UInt64) : Session :=
  { w with opener := w.opener.install (.disabled credential accessRevision) }

/-! ### Claims -/

/-- The first part of `enqueue_token_refresh`. -/
def claimTokenRefresh (w : Session) (expectedMutationGen : UInt64) (token : Str) (expiresAt : ℤ) :
    Session :=
  if w.store.shutdown || w.store.mutationGeneration ≠ expectedMutationGen then w
  else
    let credential := w.store.credential.withToken token expiresAt
    { w with
      store := { w.store with credential := credential }.withPending expectedMutationGen
      stage := .writing .tokenRefresh credential }

/-- The first part of `submit_ready`. -/
def claimReady (w : Session) (attempt : AccessAttempt) (relayOrigin deviceToken : Str)
    (expiresAt : ℤ) (inTime built : Bool) : Session :=
  if !w.store.accessAttemptIsCurrent attempt inTime then w
  else
    let updated :=
      { w.store.credential with relayOrigin := some relayOrigin }.withToken deviceToken expiresAt
    let nextRevision := w.store.mutationGeneration + 1
    if !built then w
    else { w with stage := .writing (.ready attempt ⟨updated, nextRevision⟩ nextRevision) updated }

/-- The first part of `submit_disable`. -/
def claimDisable (w : Session) (attempt : AccessAttempt) (inTime : Bool) : Session :=
  if !w.store.accessAttemptIsCurrent attempt inTime then w
  else
    let direct := w.store.credential.direct
    let revision := w.store.mutationGeneration + 1
    { w with
      store :=
        { w.store with
          credential := direct
          pending := none
          mutationGeneration := revision
          durableClearPendingGen := some revision }
      stage := .disabling direct revision }

/-- The first part of `persist_pending_unordered`. -/
def claimPending (w : Session) : Session :=
  let s := w.store
  if (s.pending.any fun pending => pending.expectedMutationGen = s.mutationGeneration) ||
      s.durableClearPendingGen = some s.mutationGeneration then
    { w with stage := .writing .persistPending s.credential }
  else w

section Step

variable {Ip : Type} [DecidableEq Ip] (parse : Str → Option Ip) (toText : Ip → Str)
  (pairingGeneration : Str → Bytes)

/-- The first part of `submit_dial_endpoints`. -/
def claimDialEndpoints (w : Session) (endpoints : List EndpointAddr) (built : Bool) : Session :=
  if w.store.shutdown ||
      pairingGeneration w.store.credential.clientCertPem ≠ w.store.pairingGeneration then w
  else
    let merged := mergeDialEndpoints parse toText endpoints w.store.credential.endpoints
    if merged.isEmpty || merged = w.store.credential.endpoints then w
    else
      let updated := { w.store.credential with endpoints := merged }
      let generation := w.store.mutationGeneration
      if !built then w
      else { w with stage := .writing (.dialEndpoints ⟨updated, generation⟩ generation) updated }

/-- The owner task begins its next action. -/
def claim (w : Session) (inTime built : Bool) : Job → Session
  | .tokenRefresh expected token expiresAt => w.claimTokenRefresh expected token expiresAt
  | .ready attempt origin token expiresAt => w.claimReady attempt origin token expiresAt inTime built
  | .dialEndpoints endpoints =>
    w.claimDialEndpoints parse toText pairingGeneration endpoints built
  | .disable attempt => w.claimDisable attempt inTime
  | .persistPending => w.claimPending

/-! ### Publications -/

/-- `record_persistence_issue`. -/
def recordPersistenceIssue (w : Session) (issue : CredentialPersistenceIssue) : Session :=
  { w with store := { w.store with persistenceIssue := some issue } }

/-- The last part of `enqueue_token_refresh`. -/
def finishTokenRefresh (w : Session) (persisted : Bool) : Session :=
  if persisted then { w with store := { w.store with pending := none, persistenceIssue := none } }
  else w.recordPersistenceIssue .failed

/-- The last part of `submit_ready`, after the write; `loads` says whether the file could be read. -/
def finishReady (w : Session) (transport : Transport) (revision : UInt64) (updated : Credential)
    (persisted loads : Bool) : Session :=
  if !persisted && !(loads && updated.matchesLoaded w.disk) then w.recordPersistenceIssue .failed
  else
    let store :=
      { w.store with
        credential := updated
        mutationGeneration := revision
        durableClearPendingGen := none }
    let store :=
      if persisted then { store with pending := none, persistenceIssue := none }
      else { store.withPending revision with persistenceIssue := some .uncertain }
    { w with store := store }.installTransport transport updated revision

/-- The last part of `submit_dial_endpoints`. -/
def finishDialEndpoints (w : Session) (transport : Transport) (generation : UInt64)
    (updated : Credential) (persisted loads : Bool) : Session :=
  if !persisted && !(loads && updated.matchesLoaded w.disk) then w
  else
    { w with store := { w.store with credential := updated } }.installTransport transport updated
      generation

/-- The last part of `submit_disable`. -/
def finishDisable (w : Session) (revision : UInt64) (persisted : Bool) : Session :=
  if !persisted then w.recordPersistenceIssue .failed
  else if w.store.mutationGeneration = revision &&
      w.store.durableClearPendingGen = some revision then
    { w with store := { w.store with durableClearPendingGen := none, persistenceIssue := none } }
  else w

/-- The last part of `persist_pending_unordered`. -/
def finishPending (w : Session) (persisted : Bool) : Session :=
  if persisted then
    { w with
      store :=
        { w.store with
          pending := none
          durableClearPendingGen := none
          persistenceIssue := none } }
  else w.recordPersistenceIssue (w.store.persistenceIssue.getD .failed)

/-- The owner task publishes what it wrote. -/
def publish (w : Session) (credential : Credential) (persisted loads : Bool) : Work → Session
  | .tokenRefresh => w.finishTokenRefresh persisted
  | .ready _ transport revision => w.finishReady transport revision credential persisted loads
  | .dialEndpoints transport generation =>
    w.finishDialEndpoints transport generation credential persisted loads
  | .disable revision => w.finishDisable revision persisted
  | .persistPending => w.finishPending persisted

/-! ### Steps -/

/-- What happens: an access attempt is captured, the session is invalidated or the opener retired, a
job is queued, the owner task goes on, or a dial begins or ends. -/
inductive Act
  | capture (laneAttemptId : UInt64)
  | invalidate
  | retire
  | enqueue (job : Job)
  | claim (inTime built : Bool)
  | disableOpener
  | openDirect (built : Bool)
  | write (outcome : Write)
  | publish (loads : Bool)
  | dial
  | dialed (index : ℕ) (worked : Bool)

/-- The middle of `submit_disable`: a transport without relay access, where there is an endpoint. -/
def openDirect (w : Session) (direct : Credential) (revision : UInt64) (built : Bool) : Session :=
  if direct.endpoints.isEmpty then { w with stage := .writing (.disable revision) direct }
  else if !built then { w with stage := .idle }
  else
    { w.installTransport ⟨direct, revision⟩ direct revision with
      stage := .writing (.disable revision) direct }

/-- `persist_credential`. -/
def writeDisk (w : Session) (credential : Credential) : Write → Session
  | .failed => w
  | _ => { w with disk := credential }

/-- The start of `dial_carrier`. -/
def beginDial (w : Session) : Session :=
  if w.opener.retired then w
  else
    match w.opener.mode with
    | .transport transport _ _ => { w with dials := w.dials ++ [⟨w.opener.incarnation, transport⟩] }
    | .disabled _ _ => w

/-- The end of `dial_carrier`: a carrier is returned if the opener is still the same. -/
def endDial (w : Session) (index : ℕ) (worked : Bool) : Session :=
  match w.dials[index]? with
  | none => w
  | some dial =>
    let w := { w with dials := w.dials.eraseIdx index }
    if worked && !w.opener.retired && w.opener.incarnation = dial.incarnation then
      { w with carriers := w.carriers ++ [dial] }
    else w

/-- One step. -/
def step (w : Session) : Act → Session
  | .capture lane => { w with store := (w.store.captureAccessAttempt lane).2 }
  | .invalidate => { w with store := { w.store with shutdown := true } }
  | .retire => { w with opener := w.opener.retire }
  | .enqueue job => { w with queue := w.queue ++ [job] }
  | .claim inTime built =>
    match w.stage, w.queue with
    | .idle, job :: queue =>
      { w with queue := queue }.claim parse toText pairingGeneration inTime built job
    | _, _ => w
  | .disableOpener =>
    match w.stage with
    | .disabling direct revision =>
      { w.installDisabled direct revision with stage := .disabled direct revision }
    | _ => w
  | .openDirect built =>
    match w.stage with
    | .disabled direct revision => w.openDirect direct revision built
    | _ => w
  | .write outcome =>
    match w.stage with
    | .writing work credential =>
      { w.writeDisk credential outcome with
        stage := .wrote work credential (outcome = .done) }
    | _ => w
  | .publish loads =>
    match w.stage with
    | .wrote work credential persisted =>
      { w with stage := .idle }.publish credential persisted loads work
    | _ => w
  | .dial => w.beginDial
  | .dialed index worked => w.endDial index worked

/-- A run from the start. -/
def after (credential : Credential) (generation : Bytes) (acts : List Act) : Session :=
  acts.foldl (step parse toText pairingGeneration) (start credential generation)

end Step

end Session

end SolstoneTmux
