import Mathlib.Data.Set.Function
import SolstoneTmux.Pairing.Ceremony

/-!
# Only the owner confirms a pairing

`only_owner_confirms`: after any runs that begin without an answer file, a stored credential is
confirmed only if the owner accepted a credential with its certificate, or if it was stored before
the first of them. An answer file that is there stays.

`Answered` is the invariant: the answer file holds a generation that the owner accepted or that was
grandfathered, and until there is one the stored credential is the first. It says nothing of a
credential that is stored without an acceptance, such as one that the owner walked away from.
`Decided` is the invariant once there is an answer file, and `Settles` collects what the entry of a
ceremony does with either.
-/

namespace SolstoneTmux

open Foundations Foundations.Prog

/-! ## The invariant -/

section Invariant

variable (sha256 : Bytes → Bytes) (credentials : Option (PrivateFile Credential))
  (certificates : Set Str)

/-- What holds of the files after any call, when they began with the given credentials file and only
credentials with the given certificates were paired. -/
structure Answered (s : PrivateState) : Prop where
  stored : ∀ c, s.credentials = some (.value c) → c.clientCertPem ∈ certificates
  answers : ∀ a ∈ s.answers, a.certificate ∈ certificates
  answer : ∀ confirmed, s.answer = some (.value confirmed) → confirmed = [] ∨
    (∃ a ∈ s.answers, a.accepted = true ∧
      confirmed = pairingGenerationHex sha256 a.certificate) ∨
    ∃ c, s.grandfathered = some c ∧ confirmed = pairingGenerationHex sha256 c.clientCertPem
  grandfathered : ∀ c, s.grandfathered = some c → loadCredential credentials = .ok (some c)
  unsettled : s.answer = none → s.credentials = credentials
  first : ∀ c, credentials = some (.value c) → c.clientCertPem ∈ certificates

/-- The invariant, once there is an answer file. -/
structure Decided (s : PrivateState) : Prop extends Answered sha256 credentials certificates s where
  isSome : s.answer.isSome = true

end Invariant

variable {sha256 : Bytes → Bytes} {credentials : Option (PrivateFile Credential)}
  {certificates : Set Str} {s : PrivateState}

theorem loadCredential_eq_some {file : Option (PrivateFile Credential)} {c : Credential}
    (h : loadCredential file = .ok (some c)) : file = some (.value c) := by
  unfold loadCredential at h
  split at h
  · cases h
  · split at h
    · cases h
    · cases h
      rfl
  · cases h

theorem Answered.loaded (h : Answered sha256 credentials certificates s) {c : Credential}
    (hc : loadCredential s.credentials = .ok (some c)) : c.clientCertPem ∈ certificates :=
  h.stored c (loadCredential_eq_some hc)

theorem Decided.absurd_none {p : Prop} (h : Decided sha256 credentials certificates s)
    (hnone : s.answer = none) : p := by
  have hsome := h.isSome
  rw [hnone] at hsome
  cases hsome

/-- Storing a credential with one of the certificates. -/
theorem Decided.store (h : Decided sha256 credentials certificates s) {c : Credential}
    (hc : c.clientCertPem ∈ certificates) :
    Decided sha256 credentials certificates { s with credentials := some (.value c) } where
  stored := by
    rintro c' hc'
    cases hc'
    exact hc
  answers := h.answers
  answer := h.answer
  grandfathered := h.grandfathered
  unsettled := fun hnone => h.absurd_none hnone
  first := h.first
  isSome := h.isSome

/-- A generation that the owner accepted. -/
def OwnerAccepted (sha256 : Bytes → Bytes) (generation : Str) (s : PrivateState) : Prop :=
  ∃ a ∈ s.answers, a.accepted = true ∧ generation = pairingGenerationHex sha256 a.certificate

/-- Recording an accepted generation. -/
theorem Decided.record (h : Decided sha256 credentials certificates s) {generation : Str}
    (hg : OwnerAccepted sha256 generation s) :
    Decided sha256 credentials certificates { s with answer := some (.value generation) } where
  stored := h.stored
  answers := h.answers
  answer := by
    rintro confirmed hc
    cases hc
    exact .inr (.inl hg)
  grandfathered := h.grandfathered
  unsettled := nofun
  first := h.first
  isSome := rfl

/-- The answer of the owner about a credential with one of the certificates. -/
theorem Decided.answered (h : Decided sha256 credentials certificates s) {c : Credential}
    (hc : c.clientCertPem ∈ certificates) (accepted : Bool) :
    Decided sha256 credentials certificates
      { s with answers := s.answers ++ [⟨c.clientCertPem, accepted⟩] } where
  stored := h.stored
  answers := by
    intro a ha
    rcases List.mem_append.mp ha with ha | ha
    · exact h.answers a ha
    · rw [List.mem_singleton.mp ha]
      exact hc
  answer := by
    intro confirmed hconfirmed
    rcases h.answer confirmed hconfirmed with hnil | ⟨a, ha, hok⟩ | hgrand
    · exact .inl hnil
    · exact .inr (.inl ⟨a, List.mem_append_left _ ha, hok⟩)
    · exact .inr (.inr hgrand)
  grandfathered := h.grandfathered
  unsettled := h.unsettled
  first := h.first
  isSome := h.isSome

/-- Settling the absent answer file for nobody. -/
theorem Answered.settleEmpty (h : Answered sha256 credentials certificates s) :
    Decided sha256 credentials certificates
      { s with answer := some (.value []), grandfathered := none } where
  stored := h.stored
  answers := h.answers
  answer := by
    rintro confirmed hc
    cases hc
    exact .inl rfl
  grandfathered := nofun
  unsettled := nofun
  first := h.first
  isSome := rfl

/-- Settling the absent answer file for the first credential. -/
theorem Answered.settleFor (h : Answered sha256 credentials certificates s) {c : Credential}
    (hc : loadCredential credentials = .ok (some c)) :
    Decided sha256 credentials certificates
      { s with
        answer := some (.value (pairingGenerationHex sha256 c.clientCertPem))
        grandfathered := some c } where
  stored := h.stored
  answers := h.answers
  answer := by
    rintro confirmed hconfirmed
    cases hconfirmed
    exact .inr (.inr ⟨c, rfl, rfl⟩)
  grandfathered := by
    rintro c' hc'
    cases hc'
    exact hc
  unsettled := nofun
  first := h.first
  isSome := rfl

/-! ## Calls -/

section Calls

variable {α : Type} {I : PrivateState → Prop}

theorem endsIn_inspect {read : PrivateState → α} {P : α → PrivateState → Prop} (h : I s)
    (hread : P (read s) s) : wp anyTurn (inspect read) (endsIn I P) s := by
  intro t _
  cases t with
  | kill n => exact h
  | ok => exact hread
  | fail n => exact hread
  | blind => exact hread

theorem endsIn_acquireAnswerLock (h : I s) :
    wp anyTurn acquireAnswerLock (endsIn I fun _ => I) s := by
  refine endsIn_bind (endsIn_query h (P := fun _ => I) h fun _ => h) fun r s' h' => ?_
  cases r with
  | ok _ => exact h'
  | error _ => exact h'

/-- A write that reports success has happened. -/
theorem endsIn_writePrivate {blocked : PrivateState → Bool} {written : PrivateState → PrivateState}
    {J : PrivateState → Prop} (h : I s) (hwritten : J (written s)) (hJ : ∀ s, J s → I s) :
    wp anyTurn (writePrivate blocked written)
      (endsIn I fun r s' => I s' ∧ (r = .ok () → J s')) s := by
  have hpart : ∀ n, I (if (blocked s || decide (n = 0)) = true then s else written s) := by
    intro n
    split
    · exact h
    · exact hJ _ hwritten
  intro t _
  cases t with
  | ok =>
    by_cases hblocked : blocked s = true
    · simp [hblocked, h]
    · simp [hblocked, hwritten, hJ _ hwritten]
  | fail n => exact ⟨hpart n, nofun⟩
  | kill n => exact hpart n
  | blind => exact ⟨h, nofun⟩

/-- A write that keeps an invariant. -/
theorem endsIn_writePrivate_same {blocked : PrivateState → Bool}
    {written : PrivateState → PrivateState} (h : I s) (hwritten : I (written s)) :
    wp anyTurn (writePrivate blocked written) (endsIn I fun _ => I) s :=
  endsIn_mono (endsIn_writePrivate h hwritten fun _ => id) (fun _ => id) fun _ _ h => h.1

theorem endsIn_orDiagnostic {r : Except DiagnosticCode α} {P : α → PrivateState → Prop} (h : I s)
    (hok : ∀ a, r = .ok a → P a s) : wp anyTurn (orDiagnostic r) (endsIn I P) s := by
  cases r with
  | ok a => exact hok a rfl
  | error e => exact h

theorem endsIn_orRaise {r : Except Outcome α} (h : I s) :
    wp anyTurn (orRaise id r : Ceremony α) (endsIn I fun _ => I) s := by
  cases r with
  | ok a => exact h
  | error e => exact h

end Calls

/-! ## Settling -/

theorem readAnswerFile_ok {file : Option (PrivateFile Str)} {r : Option Str}
    (h : readAnswerFile file = .ok r) : file = r.map .value := by
  unfold readAnswerFile at h
  split at h
  · cases h
    rfl
  · split at h
    · cases h
      rfl
    · cases h
  · cases h

theorem endsIn_settleAnswerFile {credential : Option Credential} {confirmed : Str}
    (h : Answered sha256 credentials certificates s)
    (hwritten : Decided sha256 credentials certificates
      { s with answer := some (.value confirmed), grandfathered := credential }) :
    wp anyTurn (settleAnswerFile credential confirmed)
      (endsIn (Answered sha256 credentials certificates) fun r s' =>
        Answered sha256 credentials certificates s' ∧
          (r = .ok () → Decided sha256 credentials certificates s')) s :=
  endsIn_writePrivate h hwritten fun _ => Decided.toAnswered

/-- Once it is settled, the answer file is there; until then the first credential is stored. -/
theorem endsIn_grandfatherOrSettle (h : Answered sha256 credentials certificates s) :
    wp anyTurn (grandfatherOrSettle sha256)
      (endsIn (Answered sha256 credentials certificates) fun r s' =>
        Answered sha256 credentials certificates s' ∧
          (r = .ok () → Decided sha256 credentials certificates s')) s := by
  refine endsIn_bind
    (endsIn_inspect h (P := fun a s' => a = readAnswerFile s.answer ∧ s' = s) ⟨rfl, rfl⟩) ?_
  rintro answer s' ⟨rfl, rfl⟩
  cases hanswer : readAnswerFile s'.answer with
  | error code =>
    refine ⟨h, fun _ => ⟨h, ?_⟩⟩
    cases hfile : s'.answer with
    | none => rw [hfile] at hanswer; cases hanswer
    | some file => rfl
  | ok record =>
    have hfile := readAnswerFile_ok hanswer
    cases record with
    | some confirmed => exact ⟨h, fun _ => ⟨h, by rw [hfile]; rfl⟩⟩
    | none =>
      refine endsIn_bind
        (endsIn_inspect h (P := fun a s => a = loadCredential s'.credentials ∧ s = s') ⟨rfl, rfl⟩) ?_
      rintro loaded s ⟨rfl, rfl⟩
      have hfirst := h.unsettled hfile
      cases hloaded : loadCredential s.credentials with
      | error code =>
        cases code
        case privateStateInvalid => exact endsIn_settleAnswerFile h h.settleEmpty
        all_goals exact ⟨h, nofun⟩
      | ok stored =>
        cases stored with
        | none => exact endsIn_settleAnswerFile h h.settleEmpty
        | some c =>
          by_cases hempty : c.clientCertPem.isEmpty = true
          · simp only [hempty, if_true]
            exact endsIn_settleAnswerFile h h.settleEmpty
          · simp only [hempty]
            exact endsIn_settleAnswerFile h (h.settleFor (hfirst ▸ hloaded))

/-- Settling leaves an answer file alone. -/
theorem endsIn_grandfatherOrSettle_settled (h : Decided sha256 credentials certificates s) :
    wp anyTurn (grandfatherOrSettle sha256)
      (endsIn (Decided sha256 credentials certificates) fun r s' =>
        Decided sha256 credentials certificates s' ∧
          (r = .ok () → Decided sha256 credentials certificates s')) s := by
  refine endsIn_bind
    (endsIn_inspect h (P := fun a s' => a = readAnswerFile s.answer ∧ s' = s) ⟨rfl, rfl⟩) ?_
  rintro answer s' ⟨rfl, rfl⟩
  cases hanswer : readAnswerFile s'.answer with
  | error code => exact ⟨h, fun _ => h⟩
  | ok record =>
    cases record with
    | some confirmed => exact ⟨h, fun _ => h⟩
    | none => exact h.absurd_none (readAnswerFile_ok hanswer)

/-- An invariant that settling keeps. -/
structure Settles (sha256 : Bytes → Bytes) (credentials : Option (PrivateFile Credential))
    (certificates : Set Str) (I : PrivateState → Prop) : Prop where
  of_settled : ∀ s, Decided sha256 credentials certificates s → I s
  answered : ∀ s, I s → Answered sha256 credentials certificates s
  settle : ∀ s, I s → wp anyTurn (grandfatherOrSettle sha256) (endsIn I fun r s' =>
    I s' ∧ (r = .ok () → Decided sha256 credentials certificates s')) s

theorem settles_answered :
    Settles sha256 credentials certificates (Answered sha256 credentials certificates) :=
  ⟨fun _ => Decided.toAnswered, fun _ => id, fun _ => endsIn_grandfatherOrSettle⟩

theorem settles_settled :
    Settles sha256 credentials certificates (Decided sha256 credentials certificates) :=
  ⟨fun _ => id, fun _ => Decided.toAnswered, fun _ => endsIn_grandfatherOrSettle_settled⟩

theorem endsIn_settleFirst {I : PrivateState → Prop}
    (hI : Settles sha256 credentials certificates I) (h : I s) :
    wp anyTurn (settleFirst sha256)
      (endsIn I fun _ => Decided sha256 credentials certificates) s := by
  refine endsIn_bind (endsIn_acquireAnswerLock h) fun lock s h => ?_
  refine endsIn_bind (endsIn_orDiagnostic h (P := fun _ => I) fun _ _ => h) fun _ s h => ?_
  refine endsIn_bind (hI.settle s h) fun settled s h => ?_
  exact endsIn_orDiagnostic h.1 fun _ hok => h.2 hok

/-! ## Recording -/

/-- The invariant together with an accepted generation. -/
def Recordable (sha256 : Bytes → Bytes) (credentials : Option (PrivateFile Credential))
    (certificates : Set Str) (generation : Str) (s : PrivateState) : Prop :=
  Decided sha256 credentials certificates s ∧ OwnerAccepted sha256 generation s

variable {generation : Str} {c : Credential} {pinnedCaJid : List Str → Bytes → Option Str}

theorem endsIn_persistCredential (h : Decided sha256 credentials certificates s)
    (hc : c.clientCertPem ∈ certificates) :
    wp anyTurn (persistCredential c) (endsIn (Decided sha256 credentials certificates) fun _ =>
      Decided sha256 credentials certificates) s :=
  endsIn_writePrivate_same h (h.store hc)

theorem endsIn_writeAnswerFile (h : Recordable sha256 credentials certificates generation s) :
    wp anyTurn (writeAnswerFile generation)
      (endsIn (Recordable sha256 credentials certificates generation) fun _ =>
        Recordable sha256 credentials certificates generation) s :=
  endsIn_writePrivate_same h ⟨h.1.record h.2, h.2⟩

/-- What was accepted may be recorded. -/
theorem endsIn_recordConfirmation (h : Recordable sha256 credentials certificates generation s)
    (hc : c.clientCertPem ∈ certificates) :
    wp anyTurn (recordConfirmation pinnedCaJid c generation)
      (endsIn (Recordable sha256 credentials certificates generation) fun _ =>
        Recordable sha256 credentials certificates generation) s := by
  unfold recordConfirmation
  split
  · split
    · refine endsIn_bind (P := fun _ => Recordable sha256 credentials certificates generation)
        (endsIn_writePrivate_same h ⟨h.1.store hc, h.2⟩) fun r s h => ?_
      cases r with
      | error code => exact h
      | ok _ => exact endsIn_writeAnswerFile h
    · exact endsIn_writeAnswerFile h
  · refine endsIn_bind (P := fun _ => Recordable sha256 credentials certificates generation)
      (endsIn_writePrivate_same h ⟨⟨⟨h.1.stored, h.1.answers, h.1.answer, h.1.grandfathered,
        h.1.unsettled, h.1.first⟩, h.1.isSome⟩, h.2⟩) fun r s h => ?_
    cases r with
    | error code => exact h
    | ok _ => exact endsIn_writeAnswerFile h

/-- Deleting the stored credential. -/
theorem Decided.delete (h : Decided sha256 credentials certificates s) :
    Decided sha256 credentials certificates { s with credentials := none } where
  stored := nofun
  answers := h.answers
  answer := h.answer
  grandfathered := h.grandfathered
  unsettled := fun hnone => h.absurd_none hnone
  first := h.first
  isSome := h.isSome

theorem endsIn_deleteCredentialFile (h : Decided sha256 credentials certificates s) :
    wp anyTurn deleteCredentialFile (endsIn (Decided sha256 credentials certificates) fun _ =>
      Decided sha256 credentials certificates) s := by
  refine endsIn_bind (endsIn_inspect h (P := fun _ => Decided sha256 credentials certificates) h)
    fun file s h => ?_
  match file with
  | none => exact h
  | some .notRegular => exact h
  | some (.value _) | some .malformed =>
    refine endsIn_bind (P := fun _ => Decided sha256 credentials certificates)
      (endsIn_atomic h h.delete fun _ => h) fun r s h => ?_
    cases r with
    | ok _ => exact h
    | error _ => exact h

theorem endsIn_answering (h : Decided sha256 credentials certificates s)
    (hc : c.clientCertPem ∈ certificates) (accepted : Bool) :
    wp anyTurn (answering c accepted) (endsIn (Decided sha256 credentials certificates) fun _ s =>
      Decided sha256 credentials certificates s ∧
        (accepted = true →
          OwnerAccepted sha256 (pairingGenerationHex sha256 c.clientCertPem) s)) s := by
  have hanswered := h.answered hc accepted
  have haccepted : accepted = true →
      OwnerAccepted sha256 (pairingGenerationHex sha256 c.clientCertPem)
        { s with answers := s.answers ++ [⟨c.clientCertPem, accepted⟩] } := fun ha =>
    ⟨_, List.mem_append_right _ (List.mem_singleton_self _), ha, rfl⟩
  intro t _
  cases t with
  | kill n => exact h
  | ok => exact ⟨hanswered, haccepted⟩
  | fail n => exact ⟨hanswered, haccepted⟩
  | blind => exact ⟨hanswered, haccepted⟩

/-! ## Setup -/

section Ceremonies

variable {markFromJid : Str → Option Mark} {toLowercase : Str → Str}

/-- The postcondition of a part of a ceremony that keeps the invariant. -/
abbrev keepsSettled {α : Type} (sha256 : Bytes → Bytes)
    (credentials : Option (PrivateFile Credential)) (certificates : Set Str) :
    Ended Outcome α → PrivateState → Prop :=
  endsIn (Decided sha256 credentials certificates) fun _ =>
    Decided sha256 credentials certificates

theorem endsIn_acceptPairing
    (h : Recordable sha256 credentials certificates (pairingGenerationHex sha256 c.clientCertPem) s)
    (hc : c.clientCertPem ∈ certificates) :
    wp anyTurn (acceptPairing sha256 pinnedCaJid c)
      (keepsSettled sha256 credentials certificates) s := by
  let J := Recordable sha256 credentials certificates (pairingGenerationHex sha256 c.clientCertPem)
  refine endsIn_mono (I := J) (P := fun _ => J) ?_ (fun _ h => h.1) fun _ _ h => h.1
  refine endsIn_bind (endsIn_acquireAnswerLock h) fun lock s h => ?_
  refine endsIn_bind (endsIn_orDiagnostic h (P := fun _ => J) fun _ _ => h) fun _ s h => ?_
  refine endsIn_bind (P := fun _ => J) (endsIn_writePrivate_same h ⟨h.1.store hc, h.2⟩)
    fun persisted s h => ?_
  refine endsIn_bind (endsIn_orDiagnostic h (P := fun _ => J) fun _ _ => h) fun _ s h => ?_
  refine endsIn_bind (endsIn_recordConfirmation h hc) fun r s h => ?_
  cases r with
  | ok _ => exact h
  | error _ => exact h

theorem endsIn_keepHeld (h : Decided sha256 credentials certificates s)
    (hc : c.clientCertPem ∈ certificates) :
    wp anyTurn (keepHeld sha256 pinnedCaJid c)
      (keepsSettled sha256 credentials certificates) s := by
  let J := Decided sha256 credentials certificates
  refine endsIn_bind (endsIn_acquireAnswerLock h) fun lock s h => ?_
  refine endsIn_bind (endsIn_orDiagnostic h (P := fun _ => J) fun _ _ => h) fun _ s h => ?_
  refine endsIn_bind (endsIn_inspect h (P := fun _ => J) h) fun confirmed s h => ?_
  split
  · exact h
  · refine endsIn_bind (endsIn_persistCredential h hc) fun persisted s h => ?_
    exact endsIn_bind (endsIn_orDiagnostic h (P := fun _ => J) fun _ _ => h) fun _ s h => h

theorem endsIn_existingPairingConfirmed (h : Decided sha256 credentials certificates s) :
    wp anyTurn (existingPairingConfirmed sha256 pinnedCaJid)
      (keepsSettled sha256 credentials certificates) s := by
  refine endsIn_bind (endsIn_acquireAnswerLock h) fun lock s h => ?_
  cases lock with
  | error code => exact h
  | ok _ => exact endsIn_inspect h h

theorem endsIn_judgePairing (h : Decided sha256 credentials certificates s)
    (hc : c.clientCertPem ∈ certificates) (seat : Str ⊕ TerminalDecision) :
    wp anyTurn (judgePairing sha256 pinnedCaJid markFromJid toLowercase c seat)
      (keepsSettled sha256 credentials certificates) s := by
  have haccept : wp anyTurn
      ((answering c true).bind fun _ => acceptPairing sha256 pinnedCaJid c)
      (keepsSettled sha256 credentials certificates) s :=
    endsIn_bind (endsIn_answering h hc true) fun _ s h => endsIn_acceptPairing ⟨h.1, h.2 rfl⟩ hc
  have hdecline : ∀ outcome : Bool → Outcome, wp anyTurn
      ((answering c false).bind fun _ =>
        (existingPairingConfirmed sha256 pinnedCaJid).bind fun replacing => done (outcome replacing))
      (keepsSettled sha256 credentials certificates) s := fun outcome =>
    endsIn_bind (endsIn_answering h hc false) fun _ s h =>
      endsIn_bind (endsIn_existingPairingConfirmed h.1) fun _ s h => h
  unfold judgePairing
  match seat with
  | .inl words =>
    dsimp only
    split
    · exact h
    · exact haccept
    · exact hdecline _
  | .inr .yes => exact haccept
  | .inr .no => exact hdecline _
  | .inr .walkedAway =>
    exact endsIn_bind (endsIn_answering h hc false) fun _ s h => endsIn_keepHeld h.1 hc

/-- A part of a ceremony within the whole. -/
theorem endsIn_of_settled {α : Type} {p : Ceremony α} {I : PrivateState → Prop}
    (hI : Settles sha256 credentials certificates I)
    (h : wp anyTurn p (keepsSettled sha256 credentials certificates) s) :
    wp anyTurn p (endsIn I fun _ => I) s :=
  endsIn_mono h hI.of_settled fun _ => hI.of_settled

theorem endsIn_setup {I : PrivateState → Prop} (hI : Settles sha256 credentials certificates I)
    (h : I s) {input : SetupInput}
    (hinput : ∀ c, input.paired = .ok c → c.clientCertPem ∈ certificates) :
    wp anyTurn (setup sha256 pinnedCaJid markFromJid toLowercase input)
      (endsIn I fun _ => I) s := by
  unfold setup
  split
  · exact h
  · refine endsIn_bind (endsIn_orRaise h) fun words s h => ?_
    refine endsIn_bind (endsIn_orRaise h) fun seat s h => ?_
    refine endsIn_bind (endsIn_settleFirst hI h) fun _ s h => endsIn_of_settled hI ?_
    refine endsIn_bind (endsIn_orDiagnostic h
      (P := fun c s => Decided sha256 credentials certificates s ∧ c.clientCertPem ∈ certificates)
      fun c hc => ⟨h, hinput c hc⟩) fun c s h => ?_
    exact endsIn_judgePairing h.1 h.2 seat

/-! ## Confirmation -/

theorem endsIn_loadShown {displayed : Str} {I : PrivateState → Prop} (h : I s)
    (hI : ∀ s, I s → Decided sha256 credentials certificates s) :
    wp anyTurn (loadShown sha256 displayed) (endsIn I fun c s =>
      I s ∧ c.clientCertPem ∈ certificates) s := by
  refine endsIn_bind (endsIn_acquireAnswerLock h) fun lock s h => ?_
  refine endsIn_bind (endsIn_orDiagnostic h (P := fun _ => I) fun _ _ => h) fun _ s h => ?_
  refine endsIn_bind (endsIn_inspect h
    (P := fun a s => I s ∧ a = loadCredential s.credentials) ⟨h, rfl⟩) ?_
  rintro loaded s ⟨h, hloaded⟩
  match loaded, hloaded with
  | .error code, _ => exact h
  | .ok none, _ => exact h
  | .ok (some c), hc =>
    dsimp only
    split
    · exact h
    · exact ⟨h, (hI s h).loaded hc.symm⟩

theorem endsIn_judgeStored (h : Decided sha256 credentials certificates s)
    (hc : c.clientCertPem ∈ certificates) (seat : Str ⊕ TerminalDecision) :
    wp anyTurn (judgeStored sha256 pinnedCaJid markFromJid toLowercase c seat)
      (keepsSettled sha256 credentials certificates) s := by
  have haccept : wp anyTurn
      ((answering c true).bind fun _ =>
        confirmShown sha256 pinnedCaJid (pairingGenerationHex sha256 c.clientCertPem))
      (keepsSettled sha256 credentials certificates) s := by
    refine endsIn_bind (endsIn_answering h hc true) fun _ s h => ?_
    let J := Recordable sha256 credentials certificates
      (pairingGenerationHex sha256 c.clientCertPem)
    refine endsIn_mono (I := J) (P := fun _ => J) ?_ (fun _ h => h.1) fun _ _ h => h.1
    refine endsIn_bind (endsIn_loadShown (I := J) ⟨h.1, h.2 rfl⟩ fun _ h => h.1) fun current s h => ?_
    refine endsIn_bind (endsIn_recordConfirmation h.1 h.2) fun recorded s h => ?_
    exact endsIn_bind (endsIn_orDiagnostic h (P := fun _ => J) fun _ _ => h) fun _ s h => h
  have hdelete : ∀ {s} lines, Decided sha256 credentials certificates s → wp anyTurn
      (deleteShown sha256 (pairingGenerationHex sha256 c.clientCertPem) lines)
      (keepsSettled sha256 credentials certificates) s := by
    intro s lines h
    refine endsIn_bind (endsIn_loadShown h fun _ => id) fun _ s h => ?_
    refine endsIn_bind (endsIn_deleteCredentialFile h.1) fun _ s h => ?_
    exact endsIn_bind (endsIn_orDiagnostic h
      (P := fun _ => Decided sha256 credentials certificates) fun _ _ => h) fun _ s h => h
  unfold judgeStored
  match seat with
  | .inl words =>
    dsimp only
    split
    · exact h
    · exact haccept
    · refine endsIn_bind (endsIn_answering h hc false) fun _ s h => ?_
      split
      · exact h.1
      · exact hdelete _ h.1
  | .inr .yes => exact haccept
  | .inr .no => exact endsIn_bind (endsIn_answering h hc false) fun _ s h => hdelete _ h.1
  | .inr .walkedAway => exact endsIn_bind (endsIn_answering h hc false) fun _ s h => h.1

theorem endsIn_confirm {I : PrivateState → Prop} (hI : Settles sha256 credentials certificates I)
    (h : I s) (input : ConfirmInput) :
    wp anyTurn (confirm sha256 pinnedCaJid markFromJid toLowercase input)
      (endsIn I fun _ => I) s := by
  refine endsIn_bind (endsIn_orRaise h) fun words s h => ?_
  split
  · exact h
  · refine endsIn_bind (endsIn_settleFirst hI h) fun _ s h => endsIn_of_settled hI ?_
    refine endsIn_bind (endsIn_inspect h (P := fun a s =>
      Decided sha256 credentials certificates s ∧ a = loadCredential s.credentials) ⟨h, rfl⟩) ?_
    rintro loaded s ⟨h, hloaded⟩
    refine endsIn_bind (endsIn_orDiagnostic h (P := fun a s =>
      Decided sha256 credentials certificates s ∧ ∀ c ∈ a, c.clientCertPem ∈ certificates)
      fun a ha => ⟨h, ?_⟩) fun stored s h => ?_
    · rintro c hc
      exact h.loaded (hloaded ▸ hc ▸ ha)
    · match stored, h with
      | none, h => exact h.1
      | some c, ⟨h, hc⟩ =>
        refine endsIn_bind (endsIn_inspect h
          (P := fun _ => Decided sha256 credentials certificates) h) fun confirmed s h => ?_
        split
        · exact h
        · refine endsIn_bind (endsIn_orRaise h) fun seat s h => ?_
          exact endsIn_judgeStored h (hc c rfl) seat

/-! ## The uploader -/

theorem isPairingConfirmed_eq_true (h : isPairingConfirmed sha256 pinnedCaJid s c = true) :
    s.answer = some (.value (pairingGenerationHex sha256 c.clientCertPem)) ∧
      pairingGenerationHex sha256 c.clientCertPem ≠ [] := by
  unfold isPairingConfirmed at h
  split at h
  · cases h
  · split at h
    · rename_i confirmed hanswer
      have hfile := readAnswerFile_ok hanswer
      simp only [Bool.and_eq_true, Bool.not_eq_true', List.isEmpty_eq_false_iff,
        decide_eq_true_eq] at h
      obtain ⟨hne, rfl⟩ := h
      exact ⟨hfile, hne⟩
    · cases h

theorem endsIn_syncTask {I : PrivateState → Prop} (hI : Settles sha256 credentials certificates I)
    (h : I s) (updates : List SessionUpdate) :
    wp anyTurn (syncTask sha256 pinnedCaJid updates) (endsIn I fun _ => I) s := by
  refine endsIn_bind (endsIn_acquireAnswerLock h) fun lock s h => ?_
  refine endsIn_bind (P := fun _ => I) ?_ fun _ s h => ?_
  · cases lock with
    | ok _ => exact endsIn_mono (hI.settle s h) (fun _ => id) fun _ _ h => h.1
    | error code => exact h
  refine endsIn_bind (endsIn_inspect h (P := fun a s =>
    I s ∧ a = loadCredential s.credentials) ⟨h, rfl⟩) ?_
  rintro loaded s ⟨h, hloaded⟩
  refine endsIn_bind (endsIn_orDiagnostic h (P := fun a s =>
    I s ∧ ∀ c ∈ a, c.clientCertPem ∈ certificates) fun a ha => ⟨h, ?_⟩) fun stored s h => ?_
  · rintro c hc
    exact (hI.answered s h).loaded (hloaded ▸ hc ▸ ha)
  match stored, h with
  | none, h => exact h.1
  | some c, ⟨h, hc⟩ =>
    refine endsIn_bind (endsIn_inspect h (P := fun a s =>
      I s ∧ a = isPairingConfirmed sha256 pinnedCaJid s c) ⟨h, rfl⟩) ?_
    rintro confirmed s ⟨h, hconfirmed⟩
    cases confirmed with
    | false => exact h
    | true =>
      have hanswer := (isPairingConfirmed_eq_true hconfirmed.symm).1
      have hsettled : Decided sha256 credentials certificates s :=
        ⟨hI.answered s h, by rw [hanswer]; rfl⟩
      refine endsIn_of_settled hI (endsIn_forEach hsettled fun update _ s h => ?_)
      exact endsIn_bind (endsIn_persistCredential h (hc c rfl)) fun _ s h => h

/-! ## Runs -/

/-- The certificates of the stored credential and of the paired ones. -/
def pairedCertificates (credentials : Option (PrivateFile Credential)) (runs : List PairingRun) :
    Set Str :=
  fun certificate => ∃ c : Credential, c.clientCertPem = certificate ∧
    (credentials = some (.value c) ∨
      ∃ input ts, .setup input ts ∈ runs ∧ input.paired = .ok c)

/-- The pairings of a run have one of the certificates. -/
def PairingRun.within (certificates : Set Str) : PairingRun → Prop
  | .setup input _ => ∀ c, input.paired = .ok c → c.clientCertPem ∈ certificates
  | .confirm _ _ | .syncTask _ _ => True

/-- What one run keeps. -/
theorem PairingRun.keeps {I : PrivateState → Prop} (hI : Settles sha256 credentials certificates I)
    (h : I s) {r : PairingRun} (hr : r.within certificates) :
    I (r.apply sha256 pinnedCaJid markFromJid toLowercase s) := by
  cases r with
  | setup input ts => exact endsIn_run (endsIn_setup hI h hr) trivial fun _ _ => trivial
  | confirm input ts => exact endsIn_run (endsIn_confirm hI h input) trivial fun _ _ => trivial
  | syncTask updates ts =>
    exact endsIn_run (endsIn_syncTask hI h updates) trivial fun _ _ => trivial

/-- What several runs keep. -/
theorem afterCeremonies_keeps {I : PrivateState → Prop}
    (hI : Settles sha256 credentials certificates I) (h : I s) {runs : List PairingRun}
    (hruns : ∀ r ∈ runs, r.within certificates) :
    I (afterCeremonies sha256 pinnedCaJid markFromJid toLowercase s runs) := by
  induction runs generalizing s with
  | nil => exact h
  | cons r runs ih =>
    exact ih (r.keeps hI h (hruns r List.mem_cons_self)) fun r' hr' =>
      hruns r' (List.mem_cons_of_mem _ hr')

theorem answered_unsettled {unverified : Option (PrivateFile Str)}
    (hc : ∀ c, credentials = some (.value c) → c.clientCertPem ∈ certificates) :
    Answered sha256 credentials certificates (unsettled credentials unverified) where
  stored := hc
  answers := by simp [unsettled]
  answer := nofun
  grandfathered := nofun
  unsettled := fun _ => rfl
  first := hc

end Ceremonies

section Claims

variable (sha256 : Bytes → Bytes) (pinnedCaJid : List Str → Bytes → Option Str)
  (markFromJid : Str → Option Mark) (toLowercase : Str → Str)
  (credentials : Option (PrivateFile Credential)) (unverified : Option (PrivateFile Str))
  (runs : List PairingRun)

theorem within_pairedCertificates (runs : List PairingRun) :
    ∀ r ∈ runs, r.within (pairedCertificates credentials runs) := by
  rintro r hr
  cases r with
  | setup input ts => exact fun c hc => ⟨c, rfl, .inr ⟨input, ts, hr, hc⟩⟩
  | confirm input ts => trivial
  | syncTask updates ts => trivial

/-- A confirmed credential has the certificate of an accepted one or of the grandfathered one. -/
theorem Answered.confirmed {certificates : Set Str} {s : PrivateState}
    (h : Answered sha256 credentials certificates s)
    (hsha256 : Set.InjOn sha256 (Set.image utf8 certificates)) {c : Credential}
    (hc : loadCredential s.credentials = .ok (some c))
    (hconfirmed : isPairingConfirmed sha256 pinnedCaJid s c = true) :
    (∃ a ∈ s.answers, a.accepted = true ∧ a.certificate = c.clientCertPem) ∨
      ∃ g, s.grandfathered = some g ∧ loadCredential credentials = .ok (some g) ∧
        g.clientCertPem = c.clientCertPem := by
  obtain ⟨hanswer, hne⟩ := isPairingConfirmed_eq_true hconfirmed
  have hsame : ∀ p ∈ certificates,
      pairingGenerationHex sha256 c.clientCertPem = pairingGenerationHex sha256 p →
        p = c.clientCertPem := fun p hp heq =>
    utf8_injective (hsha256 (Set.mem_image_of_mem _ hp) (Set.mem_image_of_mem _ (h.loaded hc))
      (hexBytes_injective heq).symm)
  rcases h.answer _ hanswer with hnil | ⟨a, ha, haccepted, heq⟩ | ⟨g, hg, heq⟩
  · exact absurd hnil hne
  · exact .inl ⟨a, ha, haccepted, hsame _ (h.answers a ha) heq⟩
  · have hfirst := h.grandfathered g hg
    exact .inr ⟨g, hg, hfirst, hsame _ (h.first g (loadCredential_eq_some hfirst)) heq⟩

/-- After any runs that begin without an answer file, the stored credential is confirmed only if the
owner accepted its certificate, or if the absent answer file was settled for a credential with that
certificate, which was then the first one stored. One that was only declined, or that the owner
walked away from, is not confirmed. An answer file that is there stays in every later run. -/
theorem only_owner_confirms
    (hsha256 : Set.InjOn sha256 (Set.image utf8 (pairedCertificates credentials runs))) :
    let s := afterCeremonies sha256 pinnedCaJid markFromJid toLowercase
      (unsettled credentials unverified) runs
    (∀ c, loadCredential s.credentials = .ok (some c) →
      isPairingConfirmed sha256 pinnedCaJid s c = true →
        (∃ a ∈ s.answers, a.accepted = true ∧ a.certificate = c.clientCertPem) ∨
          ∃ g, s.grandfathered = some g ∧ loadCredential credentials = .ok (some g) ∧
            g.clientCertPem = c.clientCertPem) ∧
    (∀ c, loadCredential s.credentials = .ok (some c) →
      (∀ a ∈ s.answers, a.certificate = c.clientCertPem → a.accepted = false) →
        (∀ g, loadCredential credentials = .ok (some g) → g.clientCertPem ≠ c.clientCertPem) →
          isPairingConfirmed sha256 pinnedCaJid s c = false) ∧
    (s.answer.isSome = true → ∀ runs',
      (afterCeremonies sha256 pinnedCaJid markFromJid toLowercase s runs').answer.isSome = true) := by
  intro s
  have hstart : Answered sha256 credentials (pairedCertificates credentials runs)
      (unsettled credentials unverified) := answered_unsettled fun c hc => ⟨c, rfl, .inl hc⟩
  have hend : Answered sha256 credentials (pairedCertificates credentials runs) s :=
    afterCeremonies_keeps settles_answered hstart (within_pairedCertificates credentials runs)
  have howner := fun c hc => hend.confirmed sha256 pinnedCaJid credentials hsha256 (c := c) hc
  refine ⟨howner, fun c hc hdeclined hfirst => ?_, fun hsome runs' => ?_⟩
  · refine Bool.eq_false_iff.mpr fun hconfirmed => ?_
    rcases howner c hc hconfirmed with ⟨a, ha, haccepted, hcert⟩ | ⟨g, -, hg, hcert⟩
    · rw [hdeclined a ha hcert] at haccepted
      cases haccepted
    · exact hfirst g hg hcert
  · -- of the later pairings nothing is asked, so every certificate may occur
    have hwithin : ∀ r : PairingRun, r.within Set.univ := fun r => by
      cases r <;> simp [PairingRun.within]
    have hfirst : ∀ c, credentials = some (.value c) → c.clientCertPem ∈ (Set.univ : Set Str) :=
      fun _ _ => trivial
    have hall : Answered sha256 credentials Set.univ s :=
      afterCeremonies_keeps settles_answered (answered_unsettled hfirst) fun r _ => hwithin r
    have hsettled : Decided sha256 credentials Set.univ
        (afterCeremonies sha256 pinnedCaJid markFromJid toLowercase s runs') :=
      afterCeremonies_keeps settles_settled ⟨hall, hsome⟩ fun r _ => hwithin r
    exact hsettled.isSome

end Claims

/-! ## An accepted pairing -/

/-- SHA-256 of the one-letter certificate below. -/
def digestOfA : Bytes :=
  [0xca, 0x97, 0x81, 0x12, 0xca, 0x1b, 0xbd, 0xca, 0xfa, 0xc2, 0x31, 0xb3, 0x9a, 0x23, 0xdc, 0x4d,
    0xa7, 0x86, 0xef, 0xf8, 0x14, 0x7c, 0x4e, 0x72, 0xb9, 0x80, 0x77, 0x85, 0xaf, 0xee, 0x48, 0xbb]

def pairedWithA : Credential := ⟨['a'], [['c']], [0x2e], ['j'], [], none, none, none, []⟩

/-- The id of the chain of one certificate, for a pin that begins with its digest. -/
def idOfChain (chain : List Str) (pin : Bytes) : Option Str :=
  if chain = [['c']] ∧ pin = [0x2e] then some ['j'] else none

/-- `setup` with a terminal at which the owner says yes. -/
def acceptedSetup : PairingRun := .setup ⟨none, .absent, some .yes, .ok pairedWithA⟩ []

/-- The owner accepts a first pairing, which is then confirmed. -/
theorem only_owner_confirms_accepted :
    let s := afterCeremonies (fun _ => digestOfA) idOfChain (fun _ => none) id
      (unsettled none none) [acceptedSetup]
    isPairingConfirmed (fun _ => digestOfA) idOfChain s pairedWithA = true ∧
      ((∃ a ∈ s.answers, a.accepted = true ∧ a.certificate = pairedWithA.clientCertPem) ∨
        ∃ g, s.grandfathered = some g ∧ loadCredential none = .ok (some g) ∧
          g.clientCertPem = pairedWithA.clientCertPem) := by
  have hcertificates : ∀ p ∈ pairedCertificates none [acceptedSetup], p = ['a'] := by
    rintro p ⟨c, rfl, hc | ⟨input, ts, hin, hc⟩⟩
    · cases hc
    · cases List.mem_singleton.mp hin
      cases hc
      rfl
  have hinj : Set.InjOn (fun _ => digestOfA)
      (Set.image utf8 (pairedCertificates none [acceptedSetup])) := by
    rintro _ ⟨p, hp, rfl⟩ _ ⟨q, hq, rfl⟩ -
    rw [hcertificates p hp, hcertificates q hq]
  have hconfirmed : isPairingConfirmed (fun _ => digestOfA) idOfChain
      (afterCeremonies (fun _ => digestOfA) idOfChain (fun _ => none) id
        (unsettled none none) [acceptedSetup]) pairedWithA = true := by decide
  exact ⟨hconfirmed, (only_owner_confirms (fun _ => digestOfA) idOfChain
    (fun _ => none) id none none [acceptedSetup] hinj).1 pairedWithA rfl hconfirmed⟩

end SolstoneTmux
