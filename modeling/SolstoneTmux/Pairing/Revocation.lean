import SolstoneTmux.Pairing.StoreRuns

/-!
# Revoked relay access stays revoked

`submit_disable` claims a revision, takes the relay access out of the store's credential and
installs a disabled opener. `revocation_sticks` says that from then on neither the store nor the
opener has relay access, and no dial begun before returns a carrier, until a ready whose attempt was
captured at that revision or later succeeds: for every interleaving in which no counter begins
again at zero. `revocation_forgotten` is a run of 2^64 disables, after which the hook of the first
transport is taken for a new one.

`Ordered` is the invariant before the disable and `Revoked` the one after it.
-/

namespace SolstoneTmux

open Foundations

/-- The credential has no relay origin, device token or token expiry. -/
structure Credential.IsDirect (c : Credential) : Prop where
  relayOrigin : c.relayOrigin = none
  deviceToken : c.deviceToken = none
  deviceTokenExpiresAt : c.deviceTokenExpiresAt = none

theorem Credential.isDirect_direct (c : Credential) : c.direct.IsDirect := ⟨rfl, rfl, rfl⟩

/-- What an opener dials with has no relay access. -/
def OpenerMode.IsDirect : OpenerMode → Prop
  | .transport carrier credential _ =>
    carrier.credential.relayOrigin = none ∧ credential.IsDirect
  | .disabled credential _ => credential.IsDirect

theorem OpenerMode.isDirect_install {o : PrivateLinkOpener} (h : o.mode.IsDirect) {mode : OpenerMode}
    (hmode : mode.IsDirect) : (o.install mode).mode.IsDirect := by
  unfold PrivateLinkOpener.install
  split
  · exact h
  · exact hmode

/-- What holds of an action that was begun after a revision. -/
def Work.SinceRevision (revision : UInt64) (credential : Credential) : Work → Prop
  | .tokenRefresh => False
  | .ready attempt _ _ => revision ≤ attempt.accessRevision
  | .dialEndpoints transport _ =>
    transport.credential.relayOrigin = none ∧ credential.IsDirect
  | _ => True

/-- What holds of the owner task since a revision. -/
def Stage.SinceRevision (revision : UInt64) : Stage → Prop
  | .idle => True
  | .disabling direct _ | .disabled direct _ => direct.IsDirect
  | .writing work credential | .wrote work credential _ => work.SinceRevision revision credential

theorem lt_succ_of_le {n : UInt64} (h : n ≤ n + 1) : n < n + 1 := by
  rw [UInt64.le_iff_toNat_le] at h
  rw [UInt64.lt_iff_toNat_lt]
  simp only [UInt64.toNat_add, UInt64.reduceToNat] at *
  omega

namespace Session

section Runs

variable {Ip : Type} [DecidableEq Ip] (parse : Str → Option Ip) (toText : Ip → Str)
  (pairingGeneration : Str → Bytes)

/-- A property of every step of a run. -/
def Along (P : Session → Act → Prop) : Session → List Act → Prop
  | _, [] => True
  | w, a :: acts => P w a ∧ Along P (w.step parse toText pairingGeneration a) acts

/-- Only a transport with relay access refreshes its token. -/
def HookOfRelay (w : Session) (a : Act) : Prop :=
  ∀ revision token expiresAt, a = .enqueue (.tokenRefresh revision token expiresAt) →
    ∃ transport ∈ w.installed,
      transport.credential.relayOrigin ≠ none ∧ transport.hookRevision = revision

/-- No counter begins again at zero. -/
def CountsOn (w : Session) (a : Act) : Prop :=
  w.store.mutationGeneration ≤
      (w.step parse toText pairingGeneration a).store.mutationGeneration ∧
    w.opener.incarnation ≤ (w.step parse toText pairingGeneration a).opener.incarnation

/-- A ready succeeds whose attempt was captured at a revision or later. -/
def ReadySucceeds (revision : UInt64) (w : Session) (a : Act) : Prop :=
  ∃ loads attempt transport next credential persisted,
    a = .publish loads ∧ w.stage = .wrote (.ready attempt transport next) credential persisted ∧
      revision ≤ attempt.accessRevision ∧
      (persisted = true ∨ (loads && credential.matchesLoaded w.disk) = true)

end Runs

/-- What holds of a session since another one, in which relay access was revoked: neither credential
has any, and the dials that were on their way then have returned no carrier. -/
structure RevocationSticks (w w' : Session) : Prop where
  store : w'.store.credential.IsDirect
  opener : w'.opener.liveDialCredential.IsDirect
  carriers : ∃ new, w'.carriers = w.carriers ++ new ∧
    ∀ dial ∈ new, dial ∉ w.dials ∧ dial.transport.credential.relayOrigin = none

/-! ## What the owner task can do -/

/-- What beginning an action does: nothing, or the change that the action claims. -/
inductive Claimed (w : Session) : Job → Session → Prop
  | refused (job : Job) : Claimed w job w
  | tokenRefresh (token : Str) (expiresAt : ℤ) (store : CredentialStore) (credential : Credential) :
    Claimed w (.tokenRefresh w.store.mutationGeneration token expiresAt)
      { w with store := store, stage := .writing .tokenRefresh credential }
  | ready (attempt : AccessAttempt) (origin token : Str) (expiresAt : ℤ) (updated : Credential)
    (revision : UInt64) (hcaptured : w.store.mutationGeneration = attempt.accessRevision) :
    Claimed w (.ready attempt origin token expiresAt)
      { w with stage := .writing (.ready attempt ⟨updated, revision⟩ revision) updated }
  | dialEndpoints (listed merged : List EndpointAddr) :
    Claimed w (.dialEndpoints listed)
      { w with
        stage :=
          .writing (.dialEndpoints
            ⟨{ w.store.credential with endpoints := merged }, w.store.mutationGeneration⟩
            w.store.mutationGeneration) { w.store.credential with endpoints := merged } }
  | disable (attempt : AccessAttempt) (store : CredentialStore)
    (hcredential : store.credential = w.store.credential.direct)
    (hrevision : store.mutationGeneration = w.store.mutationGeneration + 1) :
    Claimed w (.disable attempt)
      { w with
        store := store
        stage := .disabling w.store.credential.direct (w.store.mutationGeneration + 1) }
  | persistPending : Claimed w .persistPending
      { w with stage := .writing .persistPending w.store.credential }

/-- What publishing a write does: the store keeps its credential, or a transport is installed for
the one that was written. -/
inductive Published (w : Session) (credential : Credential) (persisted loads : Bool) :
    Work → Session → Prop
  | kept (work : Work) (store : CredentialStore)
    (hcredential : store.credential = w.store.credential)
    (hrevision : store.mutationGeneration = w.store.mutationGeneration) :
    Published w credential persisted loads work { w with store := store }
  | ready (attempt : AccessAttempt) (transport : Transport) (revision : UInt64)
    (store : CredentialStore)
    (hsucceeds : persisted = true ∨ (loads && credential.matchesLoaded w.disk) = true)
    (hcredential : store.credential = credential) (hrevision : store.mutationGeneration = revision) :
    Published w credential persisted loads (.ready attempt transport revision)
      ({ w with store := store }.installTransport transport credential revision)
  | dialEndpoints (transport : Transport) (generation : UInt64) (store : CredentialStore)
    (hcredential : store.credential = credential)
    (hrevision : store.mutationGeneration = w.store.mutationGeneration) :
    Published w credential persisted loads (.dialEndpoints transport generation)
      ({ w with store := store }.installTransport transport credential generation)

section Owner

variable {Ip : Type} [DecidableEq Ip] (parse : Str → Option Ip) (toText : Ip → Str)
  (pairingGeneration : Str → Bytes) (w : Session)

theorem accessRevision_of_current {s : CredentialStore} {attempt : AccessAttempt} {inTime : Bool}
    (h : s.accessAttemptIsCurrent attempt inTime = true) :
    s.mutationGeneration = attempt.accessRevision := by
  simp only [CredentialStore.accessAttemptIsCurrent, Bool.and_eq_true, decide_eq_true_eq] at h
  exact h.1.1.2

theorem claimed_claim (inTime built : Bool) (job : Job) :
    Claimed w job (w.claim parse toText pairingGeneration inTime built job) := by
  cases job with
  | tokenRefresh expected token expiresAt =>
    simp only [claim, claimTokenRefresh]
    split
    · exact .refused _
    · rename_i haccepted
      have hrevision : w.store.mutationGeneration = expected := by simp_all
      subst hrevision
      exact .tokenRefresh token expiresAt _ _
  | ready attempt origin token expiresAt =>
    simp only [claim, claimReady]
    split
    · exact .refused _
    · rename_i hcurrent
      split
      · exact .refused _
      · exact .ready attempt origin token expiresAt _ _
          (accessRevision_of_current (by simpa using hcurrent))
  | dialEndpoints endpoints =>
    simp only [claim, claimDialEndpoints]
    split
    · exact .refused _
    · split
      · exact .refused _
      · split
        · exact .refused _
        · exact .dialEndpoints endpoints _
  | disable attempt =>
    simp only [claim, claimDisable]
    split
    · exact .refused _
    · exact .disable attempt _ rfl rfl
  | persistPending =>
    simp only [claim, claimPending]
    split
    · exact .persistPending
    · exact .refused _

theorem published_publish (credential : Credential) (persisted loads : Bool) (work : Work) :
    Published w credential persisted loads work
      (w.publish credential persisted loads work) := by
  cases work with
  | tokenRefresh =>
    simp only [publish, finishTokenRefresh, recordPersistenceIssue]
    split <;> exact .kept _ _ rfl rfl
  | ready attempt transport revision =>
    simp only [publish, finishReady, recordPersistenceIssue]
    split
    · exact .kept _ _ rfl rfl
    · rename_i hsucceeds
      have hsucceeds : persisted = true ∨ (loads && credential.matchesLoaded w.disk) = true := by
        cases persisted <;> simp_all
      split <;> exact .ready attempt transport revision _ hsucceeds rfl rfl
  | dialEndpoints transport generation =>
    simp only [publish, finishDialEndpoints]
    split
    · exact .kept _ w.store rfl rfl
    · exact .dialEndpoints transport generation _ rfl rfl
  | disable revision =>
    simp only [publish, finishDisable, recordPersistenceIssue]
    split
    · exact .kept _ _ rfl rfl
    · split
      · exact .kept _ _ rfl rfl
      · exact .kept _ w.store rfl rfl
  | persistPending =>
    simp only [publish, finishPending, recordPersistenceIssue]
    split <;> exact .kept _ _ rfl rfl

end Owner

/-! ## Before the disable -/

/-- A transport whose hook may be called has a hook before a revision. -/
def HooksBefore (w : Session) (before : UInt64 → Prop) : Prop :=
  (∀ transport ∈ w.installed, transport.credential.relayOrigin ≠ none →
      before transport.hookRevision) ∧
    ∀ revision token expiresAt, .tokenRefresh revision token expiresAt ∈ w.queue → before revision

/-- What holds of an action that is under way. -/
def OrderedAt (w : Session) : Stage → Prop
  | .disabling direct revision =>
    direct.IsDirect ∧ w.store.credential = direct ∧ w.store.mutationGeneration = revision ∧
      w.HooksBefore (· < revision)
  | .disabled direct _ => direct.IsDirect
  | .writing (.ready _ transport revision) _ | .wrote (.ready _ transport revision) _ _ =>
    transport.hookRevision = revision
  | .writing (.dialEndpoints transport _) _ | .wrote (.dialEndpoints transport _) _ _ =>
    transport.hookRevision ≤ w.store.mutationGeneration
  | _ => True

/-- The hooks that may be called, and the dials, are of the present or the past. -/
structure Ordered (w : Session) : Prop where
  hooks : w.HooksBefore (· ≤ w.store.mutationGeneration)
  dials : ∀ dial ∈ w.dials, dial.incarnation ≤ w.opener.incarnation
  stage : w.OrderedAt w.stage

section Before

variable {Ip : Type} [DecidableEq Ip] {parse : Str → Option Ip} {toText : Ip → Str}
  {pairingGeneration : Str → Bytes} {w w' : Session} {before : UInt64 → Prop}

theorem HooksBefore.mono {before' : UInt64 → Prop} (h : w.HooksBefore before)
    (himp : ∀ revision, before revision → before' revision)
    (hinstalled : w'.installed ⊆ w.installed) (hqueue : w'.queue ⊆ w.queue) :
    w'.HooksBefore before' :=
  ⟨fun transport ht hrelay => himp _ (h.1 transport (hinstalled ht) hrelay),
    fun revision token expiresAt hj => himp _ (h.2 revision token expiresAt (hqueue hj))⟩

theorem HooksBefore.enqueue (h : w.HooksBefore before) {job : Job}
    (hhook : w.HookOfRelay (.enqueue job)) :
    ({ w with queue := w.queue ++ [job] } : Session).HooksBefore before := by
  refine ⟨h.1, fun revision token expiresAt hmem => ?_⟩
  rcases List.mem_append.mp hmem with hmem | hmem
  · exact h.2 _ _ _ hmem
  · obtain ⟨transport, hinstalled, hrelay, rfl⟩ :=
      hhook revision token expiresAt (by rw [List.mem_singleton.mp hmem])
    exact h.1 transport hinstalled hrelay

theorem HooksBefore.install (h : w.HooksBefore before) {transport : Transport}
    (htransport : transport.credential.relayOrigin ≠ none → before transport.hookRevision)
    (credential : Credential) (revision : UInt64) :
    (w.installTransport transport credential revision).HooksBefore before := by
  refine ⟨fun other hother hrelay => ?_, h.2⟩
  rcases List.mem_cons.mp hother with rfl | hother
  · exact htransport hrelay
  · exact h.1 other hother hrelay

theorem OrderedAt.of_eq {stage : Stage} (h : w.OrderedAt stage)
    (hcredential : w'.store.credential = w.store.credential)
    (hrevision : w'.store.mutationGeneration = w.store.mutationGeneration)
    (hhooks : ∀ before, w.HooksBefore before → w'.HooksBefore before) : w'.OrderedAt stage := by
  cases stage with
  | idle => trivial
  | disabling direct revision =>
    obtain ⟨hdirect, heq, hgen, hbefore⟩ := h
    exact ⟨hdirect, hcredential.trans heq, hrevision.trans hgen, hhooks _ hbefore⟩
  | disabled direct revision => exact h
  | writing work credential =>
    cases work with
    | dialEndpoints transport generation => exact le_of_le_of_eq h hrevision.symm
    | ready attempt transport revision => exact h
    | _ => trivial
  | wrote work credential persisted =>
    cases work with
    | dialEndpoints transport generation => exact le_of_le_of_eq h hrevision.symm
    | ready attempt transport revision => exact h
    | _ => trivial


theorem Ordered.claimed {job : Job} (h : w.Ordered) (hw' : Claimed w job w')
    (hrevision : w.store.mutationGeneration ≤ w'.store.mutationGeneration) : w'.Ordered := by
  have hooks {w'' : Session} (hinstalled : w''.installed ⊆ w.installed)
      (hqueue : w''.queue ⊆ w.queue)
      (hle : w.store.mutationGeneration ≤ w''.store.mutationGeneration) :
      w''.HooksBefore (· ≤ w''.store.mutationGeneration) :=
    h.hooks.mono (fun _ hr => UInt64.le_trans hr hle) hinstalled hqueue
  cases hw' with
  | refused => exact h
  | tokenRefresh token expiresAt store credential =>
    exact ⟨hooks (fun _ => id) (fun _ => id) hrevision, h.dials, trivial⟩
  | ready attempt origin token expiresAt updated revision hcaptured =>
    exact ⟨h.hooks, h.dials, rfl⟩
  | dialEndpoints listed merged => exact ⟨h.hooks, h.dials, UInt64.le_refl _⟩
  | disable attempt store hcredential hnext =>
    refine ⟨hooks (fun _ => id) (fun _ => id) hrevision, h.dials,
      Credential.isDirect_direct _, hcredential, hnext, ?_⟩
    exact h.hooks.mono (fun _ hr => UInt64.lt_of_le_of_lt hr (lt_succ_of_le (hnext ▸ hrevision)))
      (fun _ => id) (fun _ => id)
  | persistPending => exact ⟨h.hooks, h.dials, trivial⟩

theorem Ordered.published {credential : Credential} {persisted loads : Bool} {work : Work}
    (hooks : w.HooksBefore (· ≤ w.store.mutationGeneration))
    (dials : ∀ dial ∈ w.dials, dial.incarnation ≤ w'.opener.incarnation)
    (hstage : w.OrderedAt (.wrote work credential persisted)) (hidle : w.stage = .idle)
    (hw' : Published w credential persisted loads work w')
    (hrevision : w.store.mutationGeneration ≤ w'.store.mutationGeneration) : w'.Ordered := by
  have hooks' {store : CredentialStore} (hle : w.store.mutationGeneration ≤ store.mutationGeneration) :
      ({ w with store := store } : Session).HooksBefore (· ≤ store.mutationGeneration) :=
    hooks.mono (fun _ hr => UInt64.le_trans hr hle) (fun _ => id) fun _ => id
  have stage {w'' : Session} (hsame : w''.stage = w.stage) : w''.OrderedAt w''.stage := by
    rw [hsame, hidle]
    trivial
  cases hw' with
  | kept work store => exact ⟨hooks' hrevision, dials, stage rfl⟩
  | ready attempt transport revision store hsucceeds hcredential hnext =>
    refine ⟨(hooks' hrevision).install (fun _ => ?_) credential revision, dials, stage rfl⟩
    exact UInt64.le_of_eq (Eq.trans hstage hnext.symm)
  | dialEndpoints transport generation store hcredential hsame =>
    refine ⟨(hooks' hrevision).install (fun _ => ?_) credential generation, dials, stage rfl⟩
    exact hsame ▸ hstage

/-- Every step keeps the order. -/
theorem Ordered.step {a : Act} (h : w.Ordered) (hhook : w.HookOfRelay a)
    (hcounts : w.CountsOn parse toText pairingGeneration a) :
    (w.step parse toText pairingGeneration a).Ordered := by
  cases a with
  | capture lane => exact ⟨h.hooks, h.dials, h.stage.of_eq rfl rfl fun _ => id⟩
  | invalidate => exact ⟨h.hooks, h.dials, h.stage.of_eq rfl rfl fun _ => id⟩
  | retire =>
    exact ⟨h.hooks, fun dial hd => UInt64.le_trans (h.dials dial hd) hcounts.2,
      h.stage.of_eq rfl rfl fun _ => id⟩
  | enqueue job =>
    exact ⟨h.hooks.enqueue hhook, h.dials, h.stage.of_eq rfl rfl fun _ hb => hb.enqueue hhook⟩
  | claim inTime built =>
    simp only [CountsOn, Session.step] at hcounts ⊢
    split at hcounts
    · rename_i job queue hidle hqueue
      have hpopped : ({ w with queue := queue } : Session).Ordered := by
        refine ⟨h.hooks.mono (fun _ => id) (fun _ => id) ?_, h.dials, ?_⟩
        · exact hqueue ▸ List.subset_cons_self job queue
        · dsimp only
          rw [hidle]
          trivial
      exact hpopped.claimed (claimed_claim parse toText pairingGeneration _ inTime built job) hcounts.1
    · exact h
  | disableOpener =>
    simp only [CountsOn, Session.step] at hcounts ⊢
    split at hcounts
    · rename_i direct revision hstage
      have hdirect := h.stage
      rw [hstage] at hdirect
      exact ⟨h.hooks, fun dial hd => UInt64.le_trans (h.dials dial hd) hcounts.2, hdirect.1⟩
    · exact h
  | openDirect built =>
    simp only [CountsOn, Session.step] at hcounts ⊢
    split at hcounts
    · rename_i direct revision hstage
      have hdirect := h.stage
      rw [hstage] at hdirect
      have hdials := fun dial hd => UInt64.le_trans (h.dials dial hd) hcounts.2
      unfold Session.openDirect at hdials ⊢
      split
      · exact ⟨h.hooks, h.dials, trivial⟩
      · split
        · exact ⟨h.hooks, h.dials, trivial⟩
        · rename_i hendpoints hbuilt
          rw [if_neg hendpoints, if_neg hbuilt] at hdials
          exact ⟨h.hooks.install (fun hrelay => absurd hdirect.relayOrigin hrelay) direct revision,
            hdials, trivial⟩
    · exact h
  | write outcome =>
    simp only [Session.step]
    split
    · rename_i work credential hstage
      have hat := h.stage
      rw [hstage] at hat
      have hwrote (persisted : Bool) : w.OrderedAt (.wrote work credential persisted) := by
        cases work <;> exact hat
      cases outcome <;>
        exact ⟨h.hooks, h.dials, (hwrote _).of_eq rfl rfl fun _ => id⟩
    · exact h
  | publish loads =>
    simp only [CountsOn, Session.step] at hcounts ⊢
    split at hcounts
    · rename_i work credential persisted hstage
      have hat := h.stage
      rw [hstage] at hat
      exact Ordered.published (w := { w with stage := .idle }) h.hooks
        (fun dial hd => UInt64.le_trans (h.dials dial hd) hcounts.2) hat rfl
        (published_publish _ credential persisted loads work) hcounts.1
    · exact h
  | dial =>
    simp only [Session.step, beginDial]
    split
    · exact h
    · split
      · rename_i carrier credential revision hmode
        refine ⟨h.hooks, fun dial hd => ?_, h.stage.of_eq rfl rfl fun _ => id⟩
        rcases List.mem_append.mp hd with hd | hd
        · exact h.dials dial hd
        · rw [List.mem_singleton.mp hd]
          exact UInt64.le_refl _
      · exact h
  | dialed index worked =>
    simp only [Session.step, endDial]
    split
    · exact h
    · have hdials : ∀ dial ∈ w.dials.eraseIdx index, dial.incarnation ≤ w.opener.incarnation :=
        fun dial hd => h.dials dial (List.mem_of_mem_eraseIdx hd)
      split
      · exact ⟨h.hooks, hdials, h.stage.of_eq rfl rfl fun _ => id⟩
      · exact ⟨h.hooks, hdials, h.stage.of_eq rfl rfl fun _ => id⟩

end Before

/-! ## After the disable -/

/-- The invariant since relay access was revoked at a revision, by an opener that got a new
incarnation: the hooks that may be called are older than the revision, and the dials with relay
access are older than the incarnation. -/
structure Revoked (w : Session) (revision incarnation : UInt64) (w' : Session) : Prop where
  store : w'.store.credential.IsDirect
  opener : w'.opener.mode.IsDirect
  revision_le : revision ≤ w'.store.mutationGeneration
  incarnation_le : incarnation ≤ w'.opener.incarnation
  hooks : w'.HooksBefore (· < revision)
  stage : w'.stage.SinceRevision revision
  dials : ∀ dial ∈ w'.dials, incarnation ≤ dial.incarnation →
    dial.transport.credential.relayOrigin = none
  carriers : ∃ new, w'.carriers = w.carriers ++ new ∧
    ∀ dial ∈ new, incarnation ≤ dial.incarnation ∧ dial.transport.credential.relayOrigin = none

section After

variable {Ip : Type} [DecidableEq Ip] {parse : Str → Option Ip} {toText : Ip → Str}
  {pairingGeneration : Str → Bytes} {w₀ w w' : Session} {revision incarnation : UInt64}

theorem Revoked.claimed {job : Job} (h : w₀.Revoked revision incarnation w)
    (hjob : ∀ before token expiresAt, job = .tokenRefresh before token expiresAt →
      before < revision)
    (hw' : Claimed w job w')
    (hrevision : w.store.mutationGeneration ≤ w'.store.mutationGeneration) :
    w₀.Revoked revision incarnation w' := by
  cases hw' with
  | refused => exact h
  | tokenRefresh token expiresAt store credential =>
    -- A hook that may be called is older than the revision, so it is not taken.
    exact absurd (hjob _ _ _ rfl) (UInt64.not_lt.mpr h.revision_le)
  | ready attempt origin token expiresAt updated next hcaptured =>
    exact { h with stage := UInt64.le_trans h.revision_le (UInt64.le_of_eq hcaptured) }
  | dialEndpoints listed merged =>
    exact { h with stage := ⟨h.store.relayOrigin,
      ⟨h.store.relayOrigin, h.store.deviceToken, h.store.deviceTokenExpiresAt⟩⟩ }
  | disable attempt store hcredential hnext =>
    exact { h with
      store := hcredential ▸ Credential.isDirect_direct _
      revision_le := UInt64.le_trans h.revision_le hrevision
      stage := Credential.isDirect_direct _ }
  | persistPending => exact { h with stage := trivial }

theorem Revoked.published {credential : Credential} {persisted loads : Bool} {work : Work}
    (h : w₀.Revoked revision incarnation w)
    (hwork : work.SinceRevision revision credential)
    (hready : ∀ attempt transport next, work = .ready attempt transport next →
      ¬ (persisted = true ∨ (loads && credential.matchesLoaded w.disk) = true))
    (hw' : Published w credential persisted loads work w')
    (hincarnation : w.opener.incarnation ≤ w'.opener.incarnation) :
    w₀.Revoked revision incarnation w' := by
  cases hw' with
  | kept work store hcredential hsame =>
    exact { h with
      store := hcredential ▸ h.store
      revision_le := hsame ▸ h.revision_le }
  | ready attempt transport next store hsucceeds hcredential hnext =>
    exact absurd hsucceeds (hready attempt transport next rfl)
  | dialEndpoints transport generation store hcredential hsame =>
    have hooks : ({ w with store := store } : Session).HooksBefore (· < revision) := h.hooks
    exact { h with
      store := hcredential ▸ hwork.2
      opener := OpenerMode.isDirect_install h.opener hwork
      revision_le := hsame ▸ h.revision_le
      incarnation_le := UInt64.le_trans h.incarnation_le hincarnation
      hooks := hooks.install (fun hrelay => absurd hwork.1 hrelay) credential generation }

/-- Relay access stays revoked in every step, unless a ready succeeds. -/
theorem Revoked.step {a : Act} (h : w₀.Revoked revision incarnation w) (hhook : w.HookOfRelay a)
    (hcounts : w.CountsOn parse toText pairingGeneration a)
    (hready : ¬ w.ReadySucceeds revision a) :
    w₀.Revoked revision incarnation (w.step parse toText pairingGeneration a) := by
  cases a with
  | capture lane => exact { h with }
  | invalidate => exact { h with }
  | retire => exact { h with incarnation_le := UInt64.le_trans h.incarnation_le hcounts.2 }
  | enqueue job => exact { h with hooks := h.hooks.enqueue hhook }
  | claim inTime built =>
    simp only [CountsOn, Session.step] at hcounts ⊢
    split at hcounts
    · rename_i job queue hidle hqueue
      have hpopped : w₀.Revoked revision incarnation { w with queue := queue } := { h with
        hooks := h.hooks.mono (fun _ => id) (fun _ => id) (hqueue ▸ List.subset_cons_self job queue) }
      refine hpopped.claimed (fun before token expiresAt hjob => ?_)
        (claimed_claim parse toText pairingGeneration _ inTime built job) hcounts.1
      exact h.hooks.2 before token expiresAt (by rw [hqueue, hjob]; exact List.mem_cons_self)
    · exact h
  | disableOpener =>
    simp only [CountsOn, Session.step] at hcounts ⊢
    split at hcounts
    · rename_i direct next hstage
      have hdirect := h.stage
      rw [hstage] at hdirect
      exact { h with
        opener := OpenerMode.isDirect_install h.opener hdirect
        incarnation_le := UInt64.le_trans h.incarnation_le hcounts.2
        stage := hdirect }
    · exact h
  | openDirect built =>
    simp only [CountsOn, Session.step] at hcounts ⊢
    split at hcounts
    · rename_i direct next hstage
      have hdirect := h.stage
      rw [hstage] at hdirect
      have hcount := UInt64.le_trans h.incarnation_le hcounts.2
      unfold Session.openDirect at hcount ⊢
      split
      · exact { h with stage := trivial }
      · split
        · exact { h with stage := trivial }
        · rename_i hendpoints hbuilt
          rw [if_neg hendpoints, if_neg hbuilt] at hcount
          exact { h with
            opener := OpenerMode.isDirect_install h.opener ⟨hdirect.relayOrigin, hdirect⟩
            incarnation_le := hcount
            hooks := h.hooks.install (fun hrelay => absurd hdirect.relayOrigin hrelay) direct next
            stage := trivial }
    · exact h
  | write outcome =>
    simp only [Session.step]
    split
    · rename_i work credential hstage
      have hat := h.stage
      rw [hstage] at hat
      cases outcome <;> exact { h with stage := hat }
    · exact h
  | publish loads =>
    simp only [CountsOn, Session.step] at hcounts ⊢
    split at hcounts
    · rename_i work credential persisted hstage
      have hat := h.stage
      rw [hstage] at hat
      have hidle : w₀.Revoked revision incarnation { w with stage := .idle } :=
        { h with stage := trivial }
      refine hidle.published hat (fun attempt transport next hwork hsucceeds => ?_)
        (published_publish _ credential persisted loads work) hcounts.2
      subst hwork
      exact hready ⟨loads, attempt, transport, next, credential, persisted, rfl, hstage, hat,
        hsucceeds⟩
    · exact h
  | dial =>
    simp only [Session.step, beginDial]
    split
    · exact h
    · split
      · rename_i carrier credential next hmode
        have hrelay : carrier.credential.relayOrigin = none := by
          have hdirect := h.opener
          rw [hmode] at hdirect
          exact hdirect.1
        refine { h with dials := fun dial hd hsince => ?_ }
        rcases List.mem_append.mp hd with hd | hd
        · exact h.dials dial hd hsince
        · rw [List.mem_singleton.mp hd]
          exact hrelay
      · exact h
  | dialed index worked =>
    simp only [Session.step, endDial]
    split
    · exact h
    · rename_i dial hdial
      have hdials : ∀ dial ∈ w.dials.eraseIdx index, incarnation ≤ dial.incarnation →
          dial.transport.credential.relayOrigin = none :=
        fun dial hd => h.dials dial (List.mem_of_mem_eraseIdx hd)
      split
      · rename_i hreturned
        -- The opener is still that of the dial, so the dial began after the disable.
        have hsince : incarnation ≤ dial.incarnation := by
          simp only [Bool.and_eq_true, decide_eq_true_eq] at hreturned
          exact hreturned.2 ▸ h.incarnation_le
        obtain ⟨new, hcarriers, hnew⟩ := h.carriers
        refine { h with dials := hdials, carriers := ⟨new ++ [dial], ?_, fun other hother => ?_⟩ }
        · rw [hcarriers, List.append_assoc]
        · rcases List.mem_append.mp hother with hother | hother
          · exact hnew other hother
          · rw [List.mem_singleton.mp hother]
            exact ⟨hsince, h.dials dial (List.mem_of_getElem? hdial) hsince⟩
      · exact { h with dials := hdials }

/-! ## Runs -/

theorem along_append {P : Session → Act → Prop} {acts acts' : List Act} :
    Along parse toText pairingGeneration P w (acts ++ acts') ↔
      Along parse toText pairingGeneration P w acts ∧
        Along parse toText pairingGeneration P
          (acts.foldl (Session.step parse toText pairingGeneration) w) acts' := by
  induction acts generalizing w with
  | nil => simp [Along]
  | cons a acts ih => rw [List.cons_append, Along, Along, ih, and_assoc]; rfl

theorem ordered_start (credential : Credential) (generation : Bytes) :
    (start credential generation).Ordered := by
  refine ⟨⟨fun transport ht _ => ?_, nofun⟩, nofun, trivial⟩
  rw [List.mem_singleton.mp ht]
  exact UInt64.le_refl 0

theorem Ordered.run {acts : List Act} (h : w.Ordered)
    (hhook : Along parse toText pairingGeneration HookOfRelay w acts)
    (hcounts : Along parse toText pairingGeneration
      (CountsOn parse toText pairingGeneration) w acts) :
    (acts.foldl (Session.step parse toText pairingGeneration) w).Ordered := by
  induction acts generalizing w with
  | nil => exact h
  | cons a acts ih => exact ih (h.step hhook.1 hcounts.1) hhook.2 hcounts.2

theorem Revoked.run {acts : List Act} (h : w₀.Revoked revision incarnation w)
    (hhook : Along parse toText pairingGeneration HookOfRelay w acts)
    (hcounts : Along parse toText pairingGeneration
      (CountsOn parse toText pairingGeneration) w acts)
    (hready : Along parse toText pairingGeneration (fun w a => ¬ w.ReadySucceeds revision a) w
      acts) :
    w₀.Revoked revision incarnation
      (acts.foldl (Session.step parse toText pairingGeneration) w) := by
  induction acts generalizing w with
  | nil => exact h
  | cons a acts ih =>
    exact ih (h.step hhook.1 hcounts.1 hready.1) hhook.2 hcounts.2 hready.2

/-- The disabled opener revokes relay access. -/
theorem revoked_disableOpener {direct : Credential} (h : w.Ordered)
    (hstage : w.stage = .disabling direct revision) (hretired : w.opener.retired = false)
    (hcounts : w.CountsOn parse toText pairingGeneration .disableOpener) :
    (w.step parse toText pairingGeneration .disableOpener).Revoked revision
        (w.opener.incarnation + 1) (w.step parse toText pairingGeneration .disableOpener) ∧
      ∀ dial ∈ (w.step parse toText pairingGeneration .disableOpener).dials,
        dial.incarnation < w.opener.incarnation + 1 := by
  have hat := h.stage
  rw [hstage] at hat
  obtain ⟨hdirect, hcredential, hrevision, hhooks⟩ := hat
  have hstep : w.step parse toText pairingGeneration .disableOpener =
      { w with
        opener := ⟨w.opener.incarnation + 1, false, .disabled direct revision⟩
        stage := .disabled direct revision } := by
    simp only [Session.step, hstage, installDisabled, PrivateLinkOpener.install, hretired]
    rfl
  have hlt : w.opener.incarnation < w.opener.incarnation + 1 := by
    have hle := hcounts.2
    rw [hstep] at hle
    exact lt_succ_of_le hle
  rw [hstep]
  have hold : ∀ dial ∈ w.dials, dial.incarnation < w.opener.incarnation + 1 := fun dial hd =>
    UInt64.lt_of_le_of_lt (h.dials dial hd) hlt
  refine ⟨⟨hcredential ▸ hdirect, hdirect, UInt64.le_of_eq hrevision.symm, UInt64.le_refl _, hhooks,
    hdirect, fun dial hd hsince => ?_, [], (List.append_nil _).symm,
    fun dial hd => absurd hd List.not_mem_nil⟩, hold⟩
  exact absurd (hold dial hd) (UInt64.not_lt.mpr hsince)

end After

/-- **Revoked relay access stays revoked.** Once a disable has claimed a revision and installed the
disabled opener, neither the store nor the opener has relay access and no dial begun before returns
a carrier, until a ready captured at that revision or later succeeds: in every run in which no
counter begins again at zero, and only transports with relay access refresh their token. -/
theorem revocation_sticks {Ip : Type} [DecidableEq Ip] (parse : Str → Option Ip) (toText : Ip → Str)
    (pairingGeneration : Str → Bytes) (credential direct : Credential) (generation : Bytes)
    (revision : UInt64) (before afterwards : List Act)
    (hhook : Along parse toText pairingGeneration HookOfRelay (start credential generation)
      (before ++ .disableOpener :: afterwards))
    (hcounts : Along parse toText pairingGeneration (CountsOn parse toText pairingGeneration)
      (start credential generation) (before ++ .disableOpener :: afterwards))
    (hstage : (after parse toText pairingGeneration credential generation before).stage =
      .disabling direct revision)
    (hretired : (after parse toText pairingGeneration credential generation before).opener.retired =
      false)
    (hready : Along parse toText pairingGeneration (fun w a => ¬ w.ReadySucceeds revision a)
      (after parse toText pairingGeneration credential generation (before ++ [.disableOpener]))
      afterwards) :
    RevocationSticks
      (after parse toText pairingGeneration credential generation (before ++ [.disableOpener]))
      (after parse toText pairingGeneration credential generation
        (before ++ .disableOpener :: afterwards)) := by
  rw [along_append] at hhook hcounts
  have hordered : (after parse toText pairingGeneration credential generation before).Ordered :=
    (ordered_start credential generation).run hhook.1 hcounts.1
  obtain ⟨hrevoked, hold⟩ := revoked_disableOpener hordered hstage hretired hcounts.2.1
  have hsplit : after parse toText pairingGeneration credential generation
      (before ++ [.disableOpener]) =
      (after parse toText pairingGeneration credential generation before).step parse toText
        pairingGeneration .disableOpener := by
    rw [after, List.foldl_append]
    rfl
  have hend : after parse toText pairingGeneration credential generation
      (before ++ .disableOpener :: afterwards) =
      afterwards.foldl (Session.step parse toText pairingGeneration)
        ((after parse toText pairingGeneration credential generation before).step parse toText
          pairingGeneration .disableOpener) := by
    rw [after, List.foldl_append]
    rfl
  rw [hsplit] at hready ⊢
  rw [hend]
  have hrun := hrevoked.run hhook.2.2 hcounts.2.2 hready
  obtain ⟨new, hcarriers, hnew⟩ := hrun.carriers
  refine ⟨hrun.store, ?_, new, hcarriers, fun dial hd => ⟨fun hmem => ?_, (hnew dial hd).2⟩⟩
  · have hmode := hrun.opener
    unfold PrivateLinkOpener.liveDialCredential
    split
    · rename_i hmode'
      rw [hmode'] at hmode
      exact hmode.2
    · rename_i hmode'
      rw [hmode'] at hmode
      exact hmode
  · exact UInt64.not_lt.mpr (hnew dial hd).1 (hold dial hmem)

/-! ## Sample runs -/

/-- Steps of a session whose endpoints have no addresses. -/
abbrev sampleStep : Session → Act → Session :=
  step (fun _ => (none : Option Unit)) (fun _ => []) fun _ => []

/-- The journal withdraws relay access while a dial is on its way. -/
def disableBegun : List Act :=
  [.dial, .capture 1, .enqueue (.disable ⟨[], 1, 1, 0, some "relay".toList, some "old".toList⟩),
    .claim true true]

/-- The dial's transport refreshes its token and the dial ends; the write of the credential fails. -/
def lateRefresh : List Act :=
  [.enqueue (.tokenRefresh 0 "new".toList 2), .openDirect true, .write .failed, .publish true,
    .claim true true, .dialed 0 true]

theorem revocation_sticks_late :
    RevocationSticks ((disableBegun ++ [Act.disableOpener]).foldl sampleStep (start relayCredential []))
      ((disableBegun ++ Act.disableOpener :: lateRefresh).foldl sampleStep
        (start relayCredential [])) := by
  refine revocation_sticks (fun _ => (none : Option Unit)) (fun _ => []) (fun _ => [])
    relayCredential relayCredential.direct [] 1 disableBegun lateRefresh ?_ ?_ rfl rfl ?_
  · refine ⟨nofun, nofun, nofun, nofun, nofun, ?_, nofun, nofun, nofun, nofun, nofun, trivial⟩
    rintro _ _ _ ⟨rfl⟩
    exact ⟨⟨relayCredential, 0⟩, List.mem_singleton_self _, nofun, rfl⟩
  · unfold disableBegun lateRefresh
    simp only [List.cons_append, List.nil_append, Along, CountsOn]
    decide
  · refine ⟨?_, ?_, ?_, ?_, ?_, ?_, trivial⟩ <;>
      rintro ⟨_, _, _, _, _, _, hact, hstage, -⟩ <;> cases hact
    have hwrote : Stage.wrote (.disable 1) relayCredential.direct false = .wrote (.ready _ _ _) _ _ :=
      hstage
    cases hwrote

/-! ### A revision that comes again -/

/-- An idle session of the journal at a revision, with its first transport. -/
structure Quiet (revision : UInt64) (w : Session) : Prop where
  store : w.store.shutdown = false ∧ w.store.mutationGeneration = revision
  endpoints : w.store.credential.endpoints = []
  opener : w.opener.retired = false
  queue : w.queue = []
  stage : w.stage = .idle
  installed : w.installed = [⟨relayCredential, 0⟩]

/-- The journal withdraws relay access from a session, until the disabled opener is installed. -/
def disableOf (w : Session) : List Act :=
  [.capture 1, .enqueue (.disable (w.store.captureAccessAttempt 1).1), .claim true true]

theorem claim_captured {w : Session} {revision : UInt64} (h : w.Quiet revision) :
    (disableOf w).foldl sampleStep w =
      { w with
        store :=
          { (w.store.captureAccessAttempt 1).2 with
            credential := w.store.credential.direct
            pending := none
            mutationGeneration := revision + 1
            durableClearPendingGen := some (revision + 1) }
        stage := .disabling w.store.credential.direct (revision + 1) } := by
  obtain ⟨⟨hshutdown, rfl⟩, -, -, hqueue, hstage, -⟩ := h
  simp [disableOf, sampleStep, step, hqueue, hstage, claim, claimDisable,
    CredentialStore.accessAttemptIsCurrent, CredentialStore.captureAccessAttempt, hshutdown]

/-- The rest of the disable. -/
def finishOf : List Act := [.disableOpener, .openDirect true, .write .done, .publish true]

theorem Quiet.disabled {w : Session} {revision : UInt64} (h : w.Quiet revision) :
    ((disableOf w ++ finishOf).foldl sampleStep w).Quiet (revision + 1) := by
  rw [List.foldl_append, claim_captured h]
  obtain ⟨⟨hshutdown, -⟩, hendpoints, hopener, hqueue, hstage, hinstalled⟩ := h
  have hempty : w.store.credential.direct.endpoints = [] := hendpoints
  simp only [finishOf, List.foldl_cons, List.foldl_nil, sampleStep, step, installDisabled,
    PrivateLinkOpener.install, hopener, openDirect, hempty, List.isEmpty_nil, if_true, writeDisk,
    publish, finishDisable, decide_true, Bool.not_true, Bool.and_self, Bool.false_eq_true, if_false]
  exact ⟨⟨hshutdown, rfl⟩, hendpoints, rfl, hqueue, rfl, hinstalled⟩

/-- Any number of disables, one after the other. -/
theorem quiet_disables (n : ℕ) : ∃ acts : List Act,
    Along (fun _ => (none : Option Unit)) (fun _ => []) (fun _ => []) HookOfRelay
        (start relayCredential []) acts ∧
      (acts.foldl sampleStep (start relayCredential [])).Quiet (UInt64.ofNat n) := by
  induction n with
  | zero => exact ⟨[], trivial, ⟨rfl, rfl⟩, rfl, rfl, rfl, rfl, rfl⟩
  | succ n ih =>
    obtain ⟨acts, hhook, hquiet⟩ := ih
    refine ⟨acts ++ (disableOf (acts.foldl sampleStep (start relayCredential [])) ++ finishOf),
      along_append.mpr ⟨hhook, ?_⟩, ?_⟩
    · exact ⟨nofun, nofun, nofun, nofun, nofun, nofun, nofun, trivial⟩
    · rw [List.foldl_append, UInt64.ofNat_add]
      exact hquiet.disabled

/-- The first transport refreshes its token. -/
def firstHook : List Act := [.enqueue (.tokenRefresh 0 "new".toList 2), .claim true true]

/-- What follows the last disable: the write of its credential, and a token of the first
transport. -/
def revisionAgain : List Act := .openDirect true :: .write .done :: .publish true :: firstHook

theorem Quiet.takes_token {w : Session} (h : w.Quiet 0) :
    (firstHook.foldl sampleStep w).store.credential.deviceToken = some "new".toList := by
  obtain ⟨⟨hshutdown, hrevision⟩, -, -, hqueue, hstage, -⟩ := h
  simp only [firstHook, List.foldl_cons, List.foldl_nil, sampleStep, step, hqueue, hstage,
    List.nil_append, claim, claimTokenRefresh, hshutdown, hrevision]
  rfl

theorem not_readySucceeds_finish {w : Session} {revision : UInt64} (h : w.Quiet revision) :
    Along (fun _ => (none : Option Unit)) (fun _ => []) (fun _ => [])
      (fun w a => ¬ w.ReadySucceeds 0 a)
      ((disableOf w ++ [Act.disableOpener]).foldl sampleStep w) revisionAgain := by
  refine ⟨?_, ?_, ?_, ?_, ?_, trivial⟩ <;>
    rintro ⟨_, _, _, _, _, _, hact, hstage, -⟩ <;> cases hact
  have hempty : w.store.credential.direct.endpoints = [] := h.endpoints
  rw [List.foldl_append, claim_captured h] at hstage
  simp [sampleStep, step, installDisabled, openDirect, hempty, writeDisk] at hstage

/-- After 2^64 disables the last one has the revision of the first transport's hook, and the token
that it refreshes is taken. -/
theorem revocation_forgotten : ∃ (before : List Act) (direct : Credential),
    Along (fun _ => (none : Option Unit)) (fun _ => []) (fun _ => []) HookOfRelay
        (start relayCredential []) (before ++ .disableOpener :: revisionAgain) ∧
      (before.foldl sampleStep (start relayCredential [])).stage = .disabling direct 0 ∧
      (before.foldl sampleStep (start relayCredential [])).opener.retired = false ∧
      Along (fun _ => (none : Option Unit)) (fun _ => []) (fun _ => [])
        (fun w a => ¬ w.ReadySucceeds 0 a)
        ((before ++ [Act.disableOpener]).foldl sampleStep (start relayCredential []))
        revisionAgain ∧
      ¬ RevocationSticks
        ((before ++ [Act.disableOpener]).foldl sampleStep (start relayCredential []))
        ((before ++ Act.disableOpener :: revisionAgain).foldl sampleStep
          (start relayCredential [])) := by
  obtain ⟨acts, hhook, hquiet⟩ := quiet_disables (2 ^ 64 - 1)
  have hwrap : UInt64.ofNat (2 ^ 64 - 1) + 1 = 0 := by decide
  generalize hw : acts.foldl sampleStep (start relayCredential []) = w at hquiet
  have hlast := hquiet.disabled
  have hclaimed := claim_captured hquiet
  rw [hwrap] at hlast hclaimed
  have hbefore (rest : List Act) :
      (acts ++ disableOf w ++ rest).foldl sampleStep (start relayCredential []) =
        (disableOf w ++ rest).foldl sampleStep w := by
    rw [List.append_assoc, List.foldl_append, hw]
  have hrun : acts ++ disableOf w ++ .disableOpener :: revisionAgain =
      acts ++ ((disableOf w ++ finishOf) ++ firstHook) := by
    simp [revisionAgain, finishOf]
  refine ⟨acts ++ disableOf w, w.store.credential.direct, ?_, ?_, ?_, ?_, fun hsticks => ?_⟩
  · rw [hrun, along_append, along_append, ← sampleStep, hw]
    refine ⟨hhook, ⟨nofun, nofun, nofun, nofun, nofun, nofun, nofun, trivial⟩, ?_, nofun, trivial⟩
    rintro _ _ _ ⟨rfl⟩
    exact ⟨⟨relayCredential, 0⟩, hlast.installed ▸ List.mem_singleton_self _, nofun, rfl⟩
  · rw [← List.append_nil (acts ++ disableOf w), hbefore, List.append_nil, hclaimed]
  · rw [← List.append_nil (acts ++ disableOf w), hbefore, List.append_nil, hclaimed]
    exact hquiet.opener
  · rw [hbefore]
    exact not_readySucceeds_finish hquiet
  · have hnone := hsticks.store.deviceToken
    rw [hrun, List.foldl_append, hw, List.foldl_append, hlast.takes_token] at hnone
    cases hnone

end Session

end SolstoneTmux
