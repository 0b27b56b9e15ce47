import SolstoneTmux.Pairing.Store

/-!
# The store and its file

`disk_agrees`: whenever the owner task is idle and nothing is marked as not yet written, the file
holds the store's credential, whatever was queued and however the writes ended.

`Session.Consistent` is the invariant. While an action is under way it says what its last part
relies on: the credential being written, and that the store's marks still tell of it.
-/

namespace SolstoneTmux

open Foundations

namespace Session

/-! ## The invariant -/

/-- Where nothing is marked, the file holds the store's credential. -/
def Agrees (w : Session) : Prop :=
  w.store.pending = none → w.store.durableClearPendingGen = none → w.disk = w.store.credential

/-- Some change is marked as not yet written. -/
def Marked (w : Session) : Prop :=
  w.store.pending ≠ none ∨ w.store.durableClearPendingGen ≠ none

/-- What holds before a credential is written. -/
def BeforeWrite (w : Session) (credential : Credential) : Work → Prop
  | .tokenRefresh | .persistPending => w.store.credential = credential ∧ w.Marked
  | .disable _ => w.store.credential = credential ∧ w.store.durableClearPendingGen ≠ none
  | .ready _ _ _ => w.Agrees
  | .dialEndpoints _ _ => w.Agrees ∧ credential.endpoints ≠ w.store.credential.endpoints

/-- What holds after the write. An action that publishes only now may find the file changed. -/
def AfterWrite (w : Session) (credential : Credential) (persisted : Bool) (work : Work) : Prop :=
  (persisted = true → w.disk = credential) ∧
    match work with
    | .ready _ _ _ | .dialEndpoints _ _ =>
      w.disk = credential ∨ w.BeforeWrite credential work
    | _ => w.BeforeWrite credential work

/-- The invariant, by the stage of the owner task. -/
def ConsistentAt (w : Session) : Stage → Prop
  | .idle => w.Agrees
  | .disabling direct _ | .disabled direct _ =>
    w.store.credential = direct ∧ w.store.durableClearPendingGen ≠ none
  | .writing work credential => w.BeforeWrite credential work
  | .wrote work credential persisted => w.AfterWrite credential persisted work

/-- The invariant. -/
def Consistent (w : Session) : Prop := w.ConsistentAt w.stage

theorem not_agrees_of_marked {w : Session} (h : w.Marked) : w.Agrees := by
  intro hp hc
  rcases h with h | h
  · exact absurd hp h
  · exact absurd hc h

/-- The invariant is about the file, the credential and the marks. -/
theorem Consistent.of_eq {w w' : Session} (h : w.Consistent) (hstage : w'.stage = w.stage)
    (hdisk : w'.disk = w.disk) (hcredential : w'.store.credential = w.store.credential)
    (hpending : w'.store.pending = w.store.pending)
    (hclear : w'.store.durableClearPendingGen = w.store.durableClearPendingGen) :
    w'.Consistent := by
  unfold Consistent at h ⊢
  rw [hstage]
  cases hs : w.stage with
  | idle =>
    rw [hs] at h
    simpa only [ConsistentAt, Agrees, hdisk, hcredential, hpending, hclear] using h
  | disabling direct revision =>
    rw [hs] at h
    simpa only [ConsistentAt, hcredential, hclear] using h
  | disabled direct revision =>
    rw [hs] at h
    simpa only [ConsistentAt, hcredential, hclear] using h
  | writing work credential =>
    rw [hs] at h
    cases work <;>
      simpa only [ConsistentAt, BeforeWrite, Marked, Agrees, hdisk, hcredential, hpending, hclear]
        using h
  | wrote work credential persisted =>
    rw [hs] at h
    cases work <;>
      simpa only [ConsistentAt, AfterWrite, BeforeWrite, Marked, Agrees, hdisk, hcredential,
        hpending, hclear] using h

/-! ## Claims -/

section Claims

variable {w : Session}

theorem consistent_claimTokenRefresh (h : w.Agrees) (hidle : w.stage = .idle)
    (expected : UInt64) (token : Str) (expiresAt : ℤ) :
    (w.claimTokenRefresh expected token expiresAt).Consistent := by
  unfold claimTokenRefresh
  split
  · rw [Consistent, hidle]
    exact h
  · exact ⟨rfl, .inl nofun⟩

theorem consistent_claimReady (h : w.Agrees) (hidle : w.stage = .idle) (attempt : AccessAttempt)
    (origin token : Str) (expiresAt : ℤ) (inTime built : Bool) :
    (w.claimReady attempt origin token expiresAt inTime built).Consistent := by
  have hw : w.Consistent := by
    rw [Consistent, hidle]
    exact h
  unfold claimReady
  split
  · exact hw
  · dsimp only
    split
    · exact hw
    · exact h

theorem consistent_claimDisable (h : w.Agrees) (hidle : w.stage = .idle) (attempt : AccessAttempt)
    (inTime : Bool) : (w.claimDisable attempt inTime).Consistent := by
  unfold claimDisable
  split
  · rw [Consistent, hidle]
    exact h
  · exact ⟨rfl, nofun⟩

theorem consistent_claimPending (h : w.Agrees) (hidle : w.stage = .idle) :
    w.claimPending.Consistent := by
  unfold claimPending
  dsimp only
  split
  · rename_i hmarked
    refine ⟨rfl, ?_⟩
    rcases Bool.or_eq_true_iff.mp hmarked with hp | hc
    · refine .inl fun hnone => ?_
      rw [hnone] at hp
      cases hp
    · refine .inr fun hnone => ?_
      rw [hnone] at hc
      cases of_decide_eq_true hc
  · rw [Consistent, hidle]
    exact h

variable {Ip : Type} [DecidableEq Ip] (parse : Str → Option Ip) (toText : Ip → Str)
  (pairingGeneration : Str → Bytes)

theorem consistent_claimDialEndpoints (h : w.Agrees) (hidle : w.stage = .idle)
    (endpoints : List EndpointAddr) (built : Bool) :
    (w.claimDialEndpoints parse toText pairingGeneration endpoints built).Consistent := by
  have hw : w.Consistent := by
    rw [Consistent, hidle]
    exact h
  unfold claimDialEndpoints
  split
  · exact hw
  · dsimp only
    split
    · exact hw
    · rename_i hchanged
      split
      · exact hw
      · refine ⟨h, fun hsame => hchanged ?_⟩
        rw [Bool.or_eq_true_iff]
        exact .inr (decide_eq_true hsame)

theorem consistent_claim (h : w.Agrees) (hidle : w.stage = .idle) (inTime built : Bool) (job : Job) :
    (w.claim parse toText pairingGeneration inTime built job).Consistent := by
  cases job with
  | tokenRefresh expected token expiresAt => exact consistent_claimTokenRefresh h hidle _ _ _
  | ready attempt origin token expiresAt => exact consistent_claimReady h hidle _ _ _ _ _ _
  | dialEndpoints endpoints => exact consistent_claimDialEndpoints _ _ _ h hidle _ _
  | disable attempt => exact consistent_claimDisable h hidle _ _
  | persistPending => exact consistent_claimPending h hidle

end Claims

/-! ## Writes -/

theorem afterWrite_writeDisk {w : Session} {work : Work} {credential : Credential}
    (h : w.BeforeWrite credential work) (outcome : Write) :
    (w.writeDisk credential outcome).AfterWrite credential (outcome = .done) work := by
  cases outcome with
  | failed => cases work <;> first | exact ⟨nofun, h⟩ | exact ⟨nofun, .inr h⟩
  | done => cases work <;> first | exact ⟨fun _ => rfl, .inl rfl⟩ | exact ⟨fun _ => rfl, h⟩
  | landed => cases work <;> first | exact ⟨nofun, .inl rfl⟩ | exact ⟨nofun, h⟩

/-! ## Publications -/

section Publish

variable {w : Session} {credential : Credential} {persisted : Bool}

theorem matchesLoaded_self (c : Credential) : c.matchesLoaded c = true := by
  simp [Credential.matchesLoaded]

theorem agrees_finishTokenRefresh (h : w.AfterWrite credential persisted .tokenRefresh) :
    (w.finishTokenRefresh persisted).Agrees := by
  obtain ⟨hdisk, hcredential, hmarked⟩ := h
  cases persisted with
  | true => exact fun _ _ => (hdisk rfl).trans hcredential.symm
  | false => exact not_agrees_of_marked hmarked

theorem agrees_finishReady {attempt : AccessAttempt} {transport : Transport} {revision : UInt64}
    (h : w.AfterWrite credential persisted (.ready attempt transport revision)) :
    (w.finishReady transport revision credential persisted true).Agrees := by
  obtain ⟨hdisk, hbefore⟩ := h
  unfold finishReady
  split
  · rename_i hunmatched
    simp only [Bool.true_and, Bool.and_eq_true, Bool.not_eq_true'] at hunmatched
    rcases hbefore with hsame | hagrees
    · rw [hsame, matchesLoaded_self] at hunmatched
      cases hunmatched.2
    · exact hagrees
  · cases persisted with
    | true => exact fun _ _ => hdisk rfl
    | false => exact not_agrees_of_marked (.inl nofun)

theorem agrees_finishDialEndpoints {transport : Transport} {generation : UInt64}
    (h : w.AfterWrite credential persisted (.dialEndpoints transport generation)) :
    (w.finishDialEndpoints transport generation credential persisted true).Agrees := by
  obtain ⟨hdisk, hbefore⟩ := h
  unfold finishDialEndpoints
  split
  · rename_i hunmatched
    simp only [Bool.true_and, Bool.and_eq_true, Bool.not_eq_true'] at hunmatched
    rcases hbefore with hsame | hagrees
    · rw [hsame, matchesLoaded_self] at hunmatched
      cases hunmatched.2
    · exact hagrees.1
  · rename_i hmatched
    intro hp hc
    rcases hbefore with hsame | ⟨hagrees, hendpoints⟩
    · exact hsame
    · -- a file with the new endpoints is not the one that agreed with the store
      have hold : w.disk = w.store.credential := hagrees hp hc
      have hmatches : persisted = true ∨ credential.matchesLoaded w.disk = true := by
        cases persisted <;> simp_all
      rcases hmatches with hpersisted | hmatches
      · exact hdisk hpersisted
      · simp only [Credential.matchesLoaded, hold, Bool.and_eq_true, decide_eq_true_eq] at hmatches
        exact absurd hmatches.2.symm hendpoints

theorem agrees_finishDisable {revision : UInt64}
    (h : w.AfterWrite credential persisted (.disable revision)) :
    (w.finishDisable revision persisted).Agrees := by
  obtain ⟨hdisk, hcredential, hclear⟩ := h
  have hmarked : w.Agrees := not_agrees_of_marked (.inr hclear)
  unfold finishDisable
  cases persisted with
  | false => exact hmarked
  | true =>
    rw [Bool.not_true, if_neg Bool.false_ne_true]
    split
    · exact fun _ _ => (hdisk rfl).trans hcredential.symm
    · exact hmarked

theorem agrees_finishPending (h : w.AfterWrite credential persisted .persistPending) :
    (w.finishPending persisted).Agrees := by
  obtain ⟨hdisk, hcredential, hmarked⟩ := h
  cases persisted with
  | true => exact fun _ _ => (hdisk rfl).trans hcredential.symm
  | false => exact not_agrees_of_marked hmarked

theorem agrees_publish {work : Work} (h : w.AfterWrite credential persisted work) :
    (w.publish credential persisted true work).Agrees := by
  cases work with
  | tokenRefresh => exact agrees_finishTokenRefresh h
  | ready attempt transport revision => exact agrees_finishReady h
  | dialEndpoints transport generation => exact agrees_finishDialEndpoints h
  | disable revision => exact agrees_finishDisable h
  | persistPending => exact agrees_finishPending h

/-- Publishing leaves the owner task where it is. -/
theorem publish_stage (w : Session) (credential : Credential) (persisted loads : Bool)
    (work : Work) : (w.publish credential persisted loads work).stage = w.stage := by
  cases work with
  | tokenRefresh =>
    simp only [publish, finishTokenRefresh, recordPersistenceIssue]
    split <;> rfl
  | ready attempt transport revision =>
    simp only [publish, finishReady, recordPersistenceIssue, installTransport]
    split <;> rfl
  | dialEndpoints transport generation =>
    simp only [publish, finishDialEndpoints, installTransport]
    split <;> rfl
  | disable revision =>
    simp only [publish, finishDisable, recordPersistenceIssue]
    split
    · rfl
    · split <;> rfl
  | persistPending =>
    simp only [publish, finishPending, recordPersistenceIssue]
    split <;> rfl

end Publish

/-! ## Runs -/

section Runs

variable {Ip : Type} [DecidableEq Ip] {parse : Str → Option Ip} {toText : Ip → Str}
  {pairingGeneration : Str → Bytes} {w : Session}

theorem consistent_openDirect {direct : Credential} {revision : UInt64}
    (hcredential : w.store.credential = direct) (hclear : w.store.durableClearPendingGen ≠ none)
    (built : Bool) : (w.openDirect direct revision built).Consistent := by
  unfold openDirect
  split
  · exact ⟨hcredential, hclear⟩
  · split
    · exact not_agrees_of_marked (.inr hclear)
    · exact ⟨hcredential, hclear⟩

/-- Every step keeps the invariant, where the file can be read. -/
theorem Consistent.step (h : w.Consistent) (a : Act) (hloads : ∀ loads, a = .publish loads → loads = true) :
    (w.step parse toText pairingGeneration a).Consistent := by
  cases a with
  | capture lane => exact h.of_eq rfl rfl rfl rfl rfl
  | invalidate => exact h.of_eq rfl rfl rfl rfl rfl
  | retire => exact h.of_eq rfl rfl rfl rfl rfl
  | enqueue job => exact h.of_eq rfl rfl rfl rfl rfl
  | claim inTime built =>
    simp only [Session.step]
    split
    · rename_i job queue hidle hqueue
      rw [Consistent, hidle] at h
      exact consistent_claim (w := { w with queue := queue }) parse toText pairingGeneration h hidle
        inTime built job
    · exact h
  | disableOpener =>
    simp only [Session.step]
    split
    · rename_i direct revision hstage
      rw [Consistent, hstage] at h
      exact h
    · exact h
  | openDirect built =>
    simp only [Session.step]
    split
    · rename_i direct revision hstage
      rw [Consistent, hstage] at h
      exact consistent_openDirect h.1 h.2 built
    · exact h
  | write outcome =>
    simp only [Session.step]
    split
    · rename_i work credential hstage
      rw [Consistent, hstage] at h
      exact afterWrite_writeDisk h outcome
    · exact h
  | publish loads =>
    simp only [Session.step]
    split
    · rename_i work credential persisted hstage
      rw [Consistent, hstage] at h
      rw [hloads loads rfl, Consistent, publish_stage]
      exact agrees_publish (w := { w with stage := .idle }) h
    · exact h
  | dial =>
    refine h.of_eq ?_ ?_ ?_ ?_ ?_ <;>
      · simp only [Session.step, beginDial]
        split
        · rfl
        · split <;> rfl
  | dialed index worked =>
    refine h.of_eq ?_ ?_ ?_ ?_ ?_ <;>
      · simp only [Session.step, endDial]
        split
        · rfl
        · split <;> rfl

theorem Consistent.run (h : w.Consistent) (acts : List Act)
    (hloads : ∀ loads, .publish loads ∈ acts → loads = true) :
    (acts.foldl (Session.step parse toText pairingGeneration) w).Consistent := by
  induction acts generalizing w with
  | nil => exact h
  | cons a acts ih =>
    refine ih (h.step a fun loads ha => hloads loads ?_) fun loads ha =>
      hloads loads (List.mem_cons_of_mem a ha)
    rw [ha]
    exact List.mem_cons_self

end Runs

end Session

/-- The store and its file agree when the owner task is idle and nothing is marked as not yet
written: from any idle session that begins so, after any steps, as long as the file can be read. -/
theorem disk_agrees {Ip : Type} [DecidableEq Ip] (parse : Str → Option Ip) (toText : Ip → Str)
    (pairingGeneration : Str → Bytes) (w w' : Session) (acts : List Session.Act)
    (hidle : w.stage = .idle) (hdisk : w.disk = w.store.credential)
    (hloads : ∀ loads, .publish loads ∈ acts → loads = true)
    (hw' : acts.foldl (Session.step parse toText pairingGeneration) w = w')
    (hidle' : w'.stage = .idle) (hpending : w'.store.pending = none)
    (hclear : w'.store.durableClearPendingGen = none) : w'.disk = w'.store.credential := by
  have hstart : w.Consistent := by
    rw [Session.Consistent, hidle]
    exact fun _ _ => hdisk
  have hend : (acts.foldl (Session.step parse toText pairingGeneration) w).Consistent :=
    hstart.run acts hloads
  rw [hw', Session.Consistent, hidle'] at hend
  exact hend hpending hclear

/-- A credential with relay access. -/
def relayCredential : Credential where
  clientCertPem := "cert".toList
  caChainPem := []
  caFpPrefix := []
  instanceId := "journal".toList
  endpoints := []
  relayOrigin := some "relay".toList
  deviceToken := some "old".toList
  deviceTokenExpiresAt := some 1
  carried := []

/-- A token refresh whose write is uncertain, and the write that follows it. -/
def uncertainRefresh : List Session.Act :=
  [.enqueue (.tokenRefresh 0 "new".toList 2), .claim true true, .write .landed, .publish true,
    .enqueue .persistPending, .claim true true, .write .done, .publish true]

/-- The session after them. -/
def refreshedSession : Session :=
  uncertainRefresh.foldl (Session.step (fun _ => (none : Option Unit)) (fun _ => []) fun _ => [])
    (.start relayCredential [])

theorem disk_agrees_refreshed : refreshedSession.disk = refreshedSession.store.credential :=
  disk_agrees (fun _ => (none : Option Unit)) (fun _ => []) (fun _ => [])
    (.start relayCredential []) refreshedSession uncertainRefresh rfl rfl
    (by simp [uncertainRefresh]) rfl rfl rfl rfl

end SolstoneTmux
