import SolstoneTmux.Service.Controller

/-!
# What is not the controller's

However the calls on the files and the commands end, also when the program ends in one of them, what
is not the controller's is never touched, and no command is issued while the definition is not its
own (`foreign_kept`).

Each call on a file has a rule for its three ends; programs of commands only are shown to maintain
every invariant that issuing a command keeps.
-/

namespace SolstoneTmux

open Foundations Foundations.Prog

variable {α : Type}

/-! ## Calls -/

section Calls

variable {K : ServiceHost → Prop} {E : ServiceError → ServiceHost → Prop}
  {P : α → ServiceHost → Prop} {h : ServiceHost}

theorem ends_fileCall {error : ServiceError}
    {full : ServiceHost → Except IoKind α × ServiceHost} (hK : K h) (hE : E error h)
    (hsame : ∀ k, (full h).1 = .error k → (full h).2 = h)
    (hok : ∀ a, (full h).1 = .ok a → P a (full h).2) :
    wp anyServiceTurn (fileCall error full) (ends K E P) h := by
  have hraise : ∀ k : IoKind, wp anyServiceTurn
      (orRaise (fun _ => error) (.error k) : ServiceProg α) (ends K E P) h := fun _ => hE
  rw [fileCall, wp_bind]
  refine wp_relay (A := anyTurn) (fun _ _ => trivial)
    (wp_atomic ?_ (fun _ => hraise .other) fun _ => hK)
  rw [andThen_done]
  cases hr : (full h).1 with
  | ok a => exact hok a hr
  | error k =>
    rw [hsame k hr]
    exact hraise k

theorem ends_fileMetadata {P : Option (Node Bytes Unit) → ServiceHost → Prop}
    {error : ServiceError} {file : ServiceFile} (hK : K h) (hE : E error h)
    (hok : P (h.files file) h) : wp anyServiceTurn (fileMetadata error file) (ends K E P) h := by
  refine ends_fileCall hK hE (fun _ _ => rfl) fun a ha => ?_
  obtain rfl := Except.ok.inj ha
  exact hok

theorem ends_readServiceFile {P : Bytes → ServiceHost → Prop} {file : ServiceFile} (hK : K h)
    (hE : E (.io file) h) (hok : ∀ bytes, h.files file = some (.file bytes) → P bytes h) :
    wp anyServiceTurn (readServiceFile file) (ends K E P) h := by
  refine ends_fileCall hK hE (fun k _ => ?_) fun a => ?_
  · split <;> rfl
  · split
    · rename_i bytes hbytes
      intro ha
      obtain rfl := Except.ok.inj ha
      exact hok _ hbytes
    · intro ha
      cases ha

theorem ends_fileBarrier {P : Unit → ServiceHost → Prop} {error : ServiceError} (hK : K h)
    (hE : E error h) (hok : P () h) :
    wp anyServiceTurn (fileBarrier error) (ends K E P) h :=
  ends_fileCall hK hE (fun _ _ => rfl) fun _ _ => hok

/-- A replacement of a file. -/
theorem ends_writeServiceFile {P : Unit → ServiceHost → Prop} {file : ServiceFile} {bytes : Bytes}
    (hK : K h) (hK' : K (h.put file (some (.file bytes)))) (hE : E (.storage file) h)
    (hE' : E (.storage file) (h.put file (some (.file bytes))))
    (hok : P () (h.put file (some (.file bytes)))) :
    wp anyServiceTurn (writeServiceFile file bytes) (ends K E P) h := by
  refine ends_bind (ends_fileMetadata (P := fun _ h' => h = h') hK hE rfl) ?_
  rintro node _ rfl
  split
  · refine ends_bind (ends_fileBarrier (P := fun _ h' => h = h') hK hE rfl) ?_
    rintro _ _ rfl
    refine ends_bind (ends_fileCall (P := fun _ h' => h.put file (some (.file bytes)) = h') hK hE
      (fun k hk => by cases hk) fun _ _ => rfl) ?_
    rintro _ _ rfl
    exact ends_fileBarrier hK' hE' hok
  · exact hE

/-- A file is there, with a marker. -/
def OwnedFile (file : ServiceFile) (marker : Bytes) (h : ServiceHost) : Prop :=
  ∃ bytes, h.files file = some (.file bytes) ∧ marker <:+: bytes

/-- A look at a file of the controller. -/
theorem ends_validateRegularFile {P : Bool → ServiceHost → Prop} {file : ServiceFile}
    {marker : Bytes} (hK : K h) (hio : E (.io file) h)
    (hinvalid : ¬ OwnedFile file marker h → E (.invalidArtifact file) h)
    (habsent : h.files file = none → P false h)
    (hfile : ∀ bytes, h.files file = some (.file bytes) → marker <:+: bytes → P true h) :
    wp anyServiceTurn (validateRegularFile file (some marker)) (ends K E P) h := by
  refine ends_bind (ends_fileMetadata (P := fun node h' => h = h' ∧ h.files file = node) hK hio
    ⟨rfl, rfl⟩) ?_
  rintro node _ ⟨rfl, hnode⟩
  cases node with
  | none => exact habsent hnode
  | some node =>
    dsimp only
    split
    · refine ends_bind (ends_readServiceFile
        (P := fun bytes h' => h = h' ∧ h.files file = some (.file bytes)) hK hio
        fun bytes hbytes => ⟨rfl, hbytes⟩) ?_
      rintro bytes _ ⟨rfl, hbytes⟩
      split
      · rename_i hmarker
        exact hfile bytes hbytes hmarker
      · rename_i hmarker
        refine hinvalid ?_
        rintro ⟨bytes', hbytes', hmarker'⟩
        obtain rfl := Node.file.inj (Option.some.inj (hbytes.symm.trans hbytes'))
        exact hmarker hmarker'
    · rename_i hother
      refine hinvalid ?_
      rintro ⟨bytes, hbytes, -⟩
      obtain rfl := Option.some.inj (hnode.symm.trans hbytes)
      exact hother rfl

/-- What a validation found out about a file. -/
def Found (file : ServiceFile) (marker : Bytes) (h : ServiceHost) : Bool → Prop
  | false => h.files file = none
  | true => OwnedFile file marker h

theorem ends_found {file : ServiceFile} {marker : Bytes} (hK : K h) (hio : E (.io file) h)
    (hinvalid : ¬ OwnedFile file marker h → E (.invalidArtifact file) h) :
    wp anyServiceTurn (validateRegularFile file (some marker))
      (ends K E fun present h' => h = h' ∧ Found file marker h present) h :=
  ends_validateRegularFile hK hio hinvalid (fun habsent => ⟨rfl, habsent⟩)
    fun bytes hbytes hmarker => ⟨rfl, bytes, hbytes, hmarker⟩

/-- The definition is written, or it was there. -/
theorem ends_installArtifact {P : Bool → ServiceHost → Prop} {bytes : Bytes} (hK : K h)
    (hK' : K (h.put .artifact (some (.file bytes))))
    (hE : ∀ e : ServiceError, e.fromFiles = true → E e h)
    (hE' : ∀ e : ServiceError, e.fromFiles = true → E e (h.put .artifact (some (.file bytes))))
    (hinvalid : ∀ node, h.files .artifact = some node → ¬ node.isFile →
      E (.invalidArtifact .artifact) h)
    (hsame : h.files .artifact = some (.file bytes) → P false h)
    (hok : P true (h.put .artifact (some (.file bytes)))) :
    wp anyServiceTurn (installArtifact bytes) (ends K E P) h := by
  have hwrite : wp anyServiceTurn
      ((fileBarrier (.path .artifact)).bind fun _ =>
        (writeServiceFile .artifact bytes).bind fun _ => (done true : ServiceProg Bool))
      (ends K E P) h := by
    refine ends_bind (ends_fileBarrier (P := fun _ h' => h = h') hK (hE _ rfl) rfl) ?_
    rintro _ _ rfl
    exact ends_bind (ends_writeServiceFile hK hK' (hE _ rfl) (hE' _ rfl) rfl)
      (P := fun _ h' => h.put .artifact (some (.file bytes)) = h') (by rintro _ _ rfl; exact hok)
  refine ends_bind (ends_bind (ends_fileMetadata
    (P := fun node h' => h = h' ∧ h.files .artifact = node) hK (hE (.io .artifact) rfl) ⟨rfl, rfl⟩)
    (R := fun _ h' => h = h') ?_) ?_
  · rintro node _ ⟨rfl, hnode⟩
    cases node with
    | none => rfl
    | some node =>
      dsimp only
      split
      · rfl
      · rename_i hother
        exact hinvalid node hnode hother
  · rintro present _ rfl
    cases present with
    | false => exact hwrite
    | true =>
      refine ends_bind (ends_readServiceFile
        (P := fun found h' => h = h' ∧ h.files .artifact = some (.file found)) hK (hE _ rfl)
        fun found hfound => ⟨rfl, hfound⟩) ?_
      rintro found _ ⟨rfl, hfound⟩
      split
      · rename_i heq
        exact hsame (heq ▸ hfound)
      · exact hwrite

/-- The definition that is there, and whether it is this one. -/
theorem ends_validateDefinition {P : Bool × Bool → ServiceHost → Prop} {marker bytes : Bytes}
    (hK : K h) (hio : E (.io .artifact) h)
    (hinvalid : ¬ OwnedFile .artifact marker h → E (.invalidArtifact .artifact) h)
    (habsent : h.files .artifact = none → P (false, false) h)
    (hfile : ∀ found, h.files .artifact = some (.file found) → marker <:+: found →
      P (true, found = bytes) h) :
    wp anyServiceTurn (validateDefinition marker bytes) (ends K E P) h := by
  refine ends_bind (ends_found hK hio hinvalid) ?_
  rintro present _ ⟨rfl, hpresent⟩
  cases present with
  | false => exact habsent hpresent
  | true =>
    obtain ⟨there, hsome, hmarker⟩ := hpresent
    refine ends_bind (ends_readServiceFile
      (P := fun found h' => h = h' ∧ h.files .artifact = some (.file found)) hK hio
      fun found hfound => ⟨rfl, hfound⟩) ?_
    rintro found _ ⟨rfl, hfound⟩
    obtain rfl : there = found := Node.file.inj (Option.some.inj (hsome.symm.trans hfound))
    exact hfile there hfound hmarker

/-- The state file, as it is read before anything changes. -/
theorem ends_readLocalObserverState {c : ServiceController} {P : Option Bytes → ServiceHost → Prop}
    (hK : K h) (hio : E (.io .state) h)
    (hinvalid : ¬ OwnedFile .state (ownershipMarker c.platform .state) h →
      E (.invalidArtifact .state) h)
    (habsent : h.files .state = none → P none h)
    (hfile : ∀ bytes, h.files .state = some (.file bytes) →
      ownershipMarker c.platform .state <:+: bytes → P (some bytes) h) :
    wp anyServiceTurn c.readLocalObserverState (ends K E P) h := by
  refine ends_bind (ends_found hK hio hinvalid) ?_
  rintro present _ ⟨rfl, hpresent⟩
  cases present with
  | false => exact habsent hpresent
  | true =>
    obtain ⟨there, hsome, hmarker⟩ := hpresent
    refine ends_bind (ends_readServiceFile
      (P := fun found h' => h = h' ∧ h.files .state = some (.file found)) hK hio
      fun found hfound => ⟨rfl, hfound⟩) ?_
    rintro found _ ⟨rfl, hfound⟩
    obtain rfl : there = found := Node.file.inj (Option.some.inj (hsome.symm.trans hfound))
    exact hfile there hfound hmarker

/-- A file of the controller is removed, if it is there; what is removed has the marker. -/
theorem ends_removeOwnedRegularFile {P : Bool → ServiceHost → Prop} {file : ServiceFile}
    {marker : Bytes} (hK : K h) (hE : ∀ e : ServiceError, e.fromFiles = true → E e h)
    (hinvalid : ¬ OwnedFile file marker h → E (.invalidArtifact file) h)
    (habsent : h.files file = none → P false h)
    (hremoved : OwnedFile file marker h → K (h.put file none) ∧
      (∀ e : ServiceError, e.fromFiles = true → E e (h.put file none)) ∧
        P true (h.put file none)) :
    wp anyServiceTurn (removeOwnedRegularFile file marker) (ends K E P) h := by
  refine ends_bind (ends_found hK (hE _ rfl) hinvalid) ?_
  rintro present _ ⟨rfl, hpresent⟩
  cases present with
  | false => exact habsent hpresent
  | true =>
    obtain ⟨hK', hE', hok⟩ := hremoved hpresent
    refine ends_bind (ends_fileCall (P := fun _ h' => h.put file none = h') hK (hE _ rfl)
      (fun k hk => by cases hk) fun _ _ => rfl) ?_
    rintro _ _ rfl
    exact ends_bind (ends_fileBarrier (P := fun _ h' => h.put file none = h') hK' (hE' _ rfl) rfl)
      (by rintro _ _ rfl; exact hok)

theorem ends_runService {P : CommandOutput → ServiceHost → Prop} {operation : ServiceOperation}
    (hK : K (h.issue operation none))
    (hE : ∀ e, E (.command e) (h.issue operation (some (.error e))))
    (hok : ∀ output, P output (h.issue operation (some (.ok output)))) :
    wp anyServiceTurn (runService operation) (ends K E P) h := by
  rw [runService, wp_bind]
  rintro ⟨call, reply, late⟩ -
  cases reply with
  | none => exact hK
  | some reply =>
    cases reply with
    | ok output => exact hok output
    | error e => exact hE e

end Calls

/-! ## Commands -/

/-- An invariant that is kept when a command is issued. -/
def Logs (I : ServiceHost → Prop) : Prop :=
  ∀ h operation reply, I h → I (h.issue operation reply)

/-- An invariant that is kept when a command other than `disable` is issued. -/
def MildlyLogs (I : ServiceHost → Prop) : Prop :=
  ∀ h operation reply, operation ≠ .launchdDisable → I h → I (h.issue operation reply)

theorem Logs.mildly {I : ServiceHost → Prop} (hI : Logs I) : MildlyLogs I :=
  fun h operation reply _ hh => hI h operation reply hh

theorem maintains_runService {I : ServiceHost → Prop} {operation : ServiceOperation}
    (hI : ∀ h reply, I h → I (h.issue operation reply)) :
    Maintains anyServiceTurn I (runService operation) := by
  intro h hh
  rw [runService, wp_bind]
  rintro ⟨call, reply, late⟩ -
  cases reply with
  | none => exact hI h _ hh
  | some reply =>
    cases reply with
    | ok output => exact hI h _ hh
    | error e => exact hI h _ hh

theorem maintains_mild {I : ServiceHost → Prop} (hI : MildlyLogs I) {operation : ServiceOperation}
    (hne : operation ≠ .launchdDisable) : Maintains anyServiceTurn I (runService operation) :=
  maintains_runService fun h reply => hI h operation reply hne

namespace ServiceController

variable {c : ServiceController} {I : ServiceHost → Prop}

theorem maintains_requireSuccess (action : String) (output : CommandOutput) :
    Maintains anyServiceTurn I (c.requireSuccess action output) :=
  .ite (.done _) (.raise _)

theorem maintains_classifyPrint (output : CommandOutput) (action : String) :
    Maintains anyServiceTurn I (c.classifyPrint output action) :=
  .ite (.done _) (.ite (.done _) (.raise _))

/-- A command that has to succeed. -/
theorem maintains_required {operation : ServiceOperation} (action : String)
    (hI : ∀ h reply, I h → I (h.issue operation reply)) :
    Maintains anyServiceTurn I ((runService operation).bind (c.requireSuccess action)) :=
  (maintains_runService hI).bind fun _ => maintains_requireSuccess action _

theorem maintains_awaitQuiescence (hI : MildlyLogs I) (retryCommand : String) (polls : ℕ) :
    Maintains anyServiceTurn I (c.awaitQuiescence retryCommand polls) := by
  induction polls with
  | zero => exact .raise _
  | succ polls ih =>
    refine (maintains_mild hI (by decide)).bind fun output => ?_
    refine (maintains_classifyPrint _ _).bind fun state => ?_
    refine .ite (.done _) fun h hh t _ => ?_
    dsimp only
    split
    · exact hh
    · exact ih h hh

theorem maintains_unload (hI : MildlyLogs I) (state : JobState) (retryCommand : String) :
    Maintains anyServiceTurn I (c.unload state retryCommand) := by
  refine .bind (.ite ?_ (.done _)) fun state => .ite (.done _) ?_
  · refine (maintains_mild hI (by decide)).bind fun output => ?_
    exact .ite (.raise _) (maintains_awaitQuiescence hI _ _)
  · refine (maintains_mild hI (by decide)).bind fun output => ?_
    exact .ite (.done _) (.raise _)

theorem maintains_enable (hI : MildlyLogs I) : Maintains anyServiceTurn I c.enable :=
  (maintains_mild hI (by decide)).bind fun _ => maintains_requireSuccess _ _

theorem maintains_gracefulStop (hI : Logs I) (retryCommand : String) :
    Maintains anyServiceTurn I (c.gracefulStop retryCommand) := by
  have hstop : Maintains anyServiceTurn I (c.stopJob retryCommand) := by
    refine (maintains_required _ fun h reply => hI h _ reply).bind fun _ => ?_
    refine (maintains_runService fun h reply => hI h _ reply).bind fun output => ?_
    exact (maintains_classifyPrint _ _).bind fun state => maintains_unload hI.mildly _ _
  refine hstop.attempt.bind fun stopped => ?_
  cases stopped with
  | ok _ => exact .done _
  | error primary =>
    refine (maintains_enable hI.mildly).attempt.bind fun enabled => ?_
    cases enabled with
    | ok _ => exact .raise _
    | error reenable => exact .raise _

theorem maintains_stopCurrent (hI : Logs I) : Maintains anyServiceTurn I c.stopCurrent := by
  refine (maintains_runService fun h reply => hI h _ reply).bind fun output => ?_
  refine (maintains_classifyPrint _ _).bind fun state => ?_
  refine .bind ?_ fun _ => maintains_enable hI.mildly
  cases state with
  | running => exact maintains_gracefulStop hI _
  | quiescent => exact maintains_unload hI.mildly _ _
  | absent => exact .done _

theorem maintains_verifyLoaded (hI : MildlyLogs I) : Maintains anyServiceTurn I c.verifyLoaded := by
  refine (maintains_mild hI (by decide)).bind fun output => ?_
  exact .ite (.raise _) (.ite (.done _) (.raise _))

theorem maintains_activate (hI : Logs I) (prepared : Bool) :
    Maintains anyServiceTurn I (c.activate prepared) := by
  unfold activate
  split
  · refine (maintains_required _ fun h reply => hI h _ reply).bind fun _ => ?_
    refine (maintains_required _ fun h reply => hI h _ reply).bind fun _ => ?_
    exact (maintains_runService fun h reply => hI h _ reply).bind fun _ => .ite (.done _) (.raise _)
  · refine .bind (.ite (.done _) (maintains_stopCurrent hI)) fun _ => ?_
    refine (maintains_required _ fun h reply => hI h _ reply).bind fun _ => ?_
    exact maintains_verifyLoaded hI.mildly

end ServiceController

/-! ## What is not the controller's -/

/-- An entry that the controller did not write: no regular file, or one without its marker. -/
def Foreign (platform : PlatformKind) (file : ServiceFile) : Option (Node Bytes Unit) → Prop
  | none => False
  | some (.file bytes) => ¬ ownershipMarker platform file <:+: bytes
  | some _ => True

/-- Between two hosts, what is foreign stayed as it was, what is not foreign stayed so, and commands
were issued only while the definition was not foreign. -/
structure Respects (platform : PlatformKind) (h₀ h : ServiceHost) : Prop where
  foreign : ∀ file, Foreign platform file (h₀.files file) → h.files file = h₀.files file
  own : ∀ file, ¬ Foreign platform file (h₀.files file) → ¬ Foreign platform file (h.files file)
  issued : ∃ entries, h.issued = entries ++ h₀.issued ∧
    ∀ entry ∈ entries, ¬ Foreign platform .artifact entry.artifact

section Respects

variable {platform : PlatformKind} {h₀ h : ServiceHost}

theorem Respects.refl (h : ServiceHost) : Respects platform h h :=
  ⟨fun _ _ => rfl, fun _ hown => hown, [], rfl, fun _ hmem => by cases hmem⟩

/-- A file of the controller, or none, was so from the start. -/
theorem Respects.clear (hkept : Respects platform h₀ h) {file : ServiceFile}
    (hown : ¬ Foreign platform file (h.files file)) : ¬ Foreign platform file (h₀.files file) :=
  fun hforeign => hown (by rw [hkept.foreign file hforeign]; exact hforeign)

theorem Respects.put (hkept : Respects platform h₀ h) {file : ServiceFile}
    (hclear : ¬ Foreign platform file (h₀.files file)) {node : Option (Node Bytes Unit)}
    (hnode : ¬ Foreign platform file node) : Respects platform h₀ (h.put file node) := by
  refine ⟨fun other hforeign => ?_, fun other hown => ?_, hkept.issued⟩
  · have hne : other ≠ file := by
      rintro rfl
      exact hclear hforeign
    rw [ServiceHost.put_files, Function.update_of_ne hne]
    exact hkept.foreign other hforeign
  · by_cases heq : other = file
    · subst heq
      rw [ServiceHost.put_self]
      exact hnode
    · rw [ServiceHost.put_files, Function.update_of_ne heq]
      exact hkept.own other hown

theorem logs_respects (hclear : ¬ Foreign platform .artifact (h₀.files .artifact)) :
    Logs (Respects platform h₀) := by
  intro h operation reply hkept
  refine ⟨hkept.foreign, hkept.own, ?_⟩
  obtain ⟨entries, hentries, hown⟩ := hkept.issued
  refine ⟨⟨operation, h.files .artifact, reply⟩ :: entries, ?_, fun entry hmem => ?_⟩
  · rw [ServiceHost.issue_issued, hentries, List.cons_append]
  · rcases List.mem_cons.mp hmem with rfl | hmem
    · exact hkept.own .artifact hclear
    · exact hown entry hmem

theorem not_foreign_none (file : ServiceFile) : ¬ Foreign platform file none := id

theorem not_foreign_file {file : ServiceFile} {bytes : Bytes}
    (hmarker : ownershipMarker platform file <:+: bytes) :
    ¬ Foreign platform file (some (.file bytes)) := not_not_intro hmarker

theorem Respects.clear_none (hkept : Respects platform h₀ h) {file : ServiceFile}
    (habsent : h.files file = none) : ¬ Foreign platform file (h₀.files file) :=
  hkept.clear (habsent ▸ not_foreign_none file)

theorem Respects.clear_file (hkept : Respects platform h₀ h) {file : ServiceFile} {bytes : Bytes}
    (hbytes : h.files file = some (.file bytes))
    (hmarker : ownershipMarker platform file <:+: bytes) :
    ¬ Foreign platform file (h₀.files file) :=
  hkept.clear (hbytes ▸ not_foreign_file hmarker)

/-- A validation tells whether a file is foreign. -/
theorem Respects.validate (hkept : Respects platform h₀ h) (file : ServiceFile) :
    wp anyServiceTurn (validateRegularFile file (some (ownershipMarker platform file)))
      (ends (Respects platform h₀) (fun _ => Respects platform h₀)
        fun _ h => Respects platform h₀ h ∧ ¬ Foreign platform file (h₀.files file)) h :=
  ends_validateRegularFile hkept hkept (fun _ => hkept)
    (fun habsent => ⟨hkept, hkept.clear_none habsent⟩)
    fun _ hbytes hmarker => ⟨hkept, hkept.clear_file hbytes hmarker⟩

theorem Respects.removeOwned (hkept : Respects platform h₀ h) (file : ServiceFile) :
    wp anyServiceTurn (removeOwnedRegularFile file (ownershipMarker platform file))
      (ends (Respects platform h₀) (fun _ => Respects platform h₀) fun _ => Respects platform h₀)
      h := by
  refine ends_removeOwnedRegularFile hkept (fun _ _ => hkept) (fun _ => hkept) (fun _ => hkept) ?_
  rintro ⟨bytes, hbytes, hmarker⟩
  have hgone := hkept.put (hkept.clear_file hbytes hmarker) (not_foreign_none file)
  exact ⟨hgone, fun _ _ => hgone, hgone⟩

theorem Respects.write (hkept : Respects platform h₀ h) {file : ServiceFile} {bytes : Bytes}
    (hclear : ¬ Foreign platform file (h₀.files file))
    (hmarker : ownershipMarker platform file <:+: bytes) :
    wp anyServiceTurn (writeServiceFile file bytes)
      (ends (Respects platform h₀) (fun _ => Respects platform h₀) fun _ => Respects platform h₀)
      h := by
  have hwritten := hkept.put hclear (not_foreign_file hmarker)
  exact ends_writeServiceFile hkept hwritten hkept hwritten hwritten

theorem Respects.installArtifact (hkept : Respects platform h₀ h) {bytes : Bytes}
    (hclear : ¬ Foreign platform .artifact (h₀.files .artifact))
    (hmarker : ownershipMarker platform .artifact <:+: bytes) :
    wp anyServiceTurn (installArtifact bytes)
      (ends (Respects platform h₀) (fun _ => Respects platform h₀) fun _ => Respects platform h₀)
      h := by
  have hwritten := hkept.put hclear (not_foreign_file hmarker)
  exact ends_installArtifact hkept hwritten (fun _ _ => hkept) (fun _ _ => hwritten)
    (fun _ _ _ => hkept) (fun _ => hkept) hwritten

theorem Respects.validateDefinition (hkept : Respects platform h₀ h) (bytes : Bytes) :
    wp anyServiceTurn (validateDefinition (ownershipMarker platform .artifact) bytes)
      (ends (Respects platform h₀) (fun _ => Respects platform h₀)
        fun _ h => Respects platform h₀ h ∧ ¬ Foreign platform .artifact (h₀.files .artifact))
      h :=
  ends_validateDefinition hkept hkept (fun _ => hkept)
    (fun habsent => ⟨hkept, hkept.clear_none habsent⟩)
    fun _ hfound hmarker => ⟨hkept, hkept.clear_file hfound hmarker⟩

end Respects

theorem marker_infix_observerBytes {platform : PlatformKind} {path bytes : Bytes}
    (h : ServiceController.observerBytes path = .ok bytes) :
    ownershipMarker platform .state <:+: bytes := by
  unfold ServiceController.observerBytes at h
  split at h
  · obtain rfl := Except.ok.inj h
    refine utf8_infix ?_
    have htext : "\x7b\"tmux_path\":\"".toList =
        "\x7b".toList ++ "\"tmux_path\"".toList ++ ":\"".toList := rfl
    rw [htext, List.append_assoc, List.append_assoc]
    exact ⟨_, _, rfl⟩
  · cases h

namespace ServiceController

variable {c : ServiceController} {h₀ h : ServiceHost} {bytes : Bytes}

theorem marker_infix_definition {plan : Plan} (h : c.definition plan = .ok bytes) :
    ownershipMarker c.platform .artifact <:+: bytes := by
  unfold definition at h
  split at h
  · rename_i hplatform
    rw [hplatform]
    exact marker_infix_renderUnit h
  · rename_i hplatform
    rw [hplatform]
    exact marker_infix_renderPlist h

theorem respects_prepareUnit (hkept : Respects .linux h₀ h)
    (hmarker : ownershipMarker .linux .artifact <:+: bytes) :
    wp anyServiceTurn (c.prepareUnit bytes)
      (ends (Respects .linux h₀) (fun _ => Respects .linux h₀)
        fun _ h => Respects .linux h₀ h ∧ ¬ Foreign .linux .artifact (h₀.files .artifact)) h := by
  refine ends_bind (hkept.validateDefinition bytes) ?_
  rintro ⟨present, unchanged⟩ h ⟨hkept, hclear⟩
  have hlogs := logs_respects hclear
  dsimp only
  split
  · exact ⟨hkept, hclear⟩
  · refine ends_bind ((maintains_runService fun h reply => hlogs h _ reply).ends hkept)
      fun output h hkept => ?_
    split
    · exact hkept
    · refine ends_bind (hkept.installArtifact hclear hmarker) fun _ h hkept => ?_
      exact ends_mono ((maintains_required _ fun h reply => hlogs h _ reply).ends hkept)
        (fun _ h => h) (fun _ _ h => h) fun _ _ h => ⟨h, hclear⟩

theorem respects_preparePlist (hkept : Respects .macos h₀ h)
    (hmarker : ownershipMarker .macos .artifact <:+: bytes) :
    wp anyServiceTurn (c.preparePlist bytes)
      (ends (Respects .macos h₀) (fun _ => Respects .macos h₀)
        fun _ h => Respects .macos h₀ h ∧ ¬ Foreign .macos .artifact (h₀.files .artifact)) h := by
  refine ends_bind (hkept.validateDefinition bytes) ?_
  rintro ⟨present, unchanged⟩ h ⟨hkept, hclear⟩
  have hlogs := logs_respects hclear
  dsimp only
  split
  · exact ⟨hkept, hclear⟩
  · refine ends_bind (Maintains.ends (.ite (maintains_gracefulStop hlogs _) (.done _)) hkept)
      fun _ h hkept => ?_
    refine ends_bind (hkept.installArtifact hclear hmarker) fun _ h hkept => ?_
    exact ends_bind ((maintains_enable hlogs.mildly).ends hkept) fun _ h hkept => ⟨hkept, hclear⟩

theorem respects_prepareInstall (hkept : Respects c.platform h₀ h)
    (hmarker : ownershipMarker c.platform .artifact <:+: bytes) :
    wp anyServiceTurn (c.prepareInstall bytes)
      (ends (Respects c.platform h₀) (fun _ => Respects c.platform h₀)
        fun _ h => Respects c.platform h₀ h ∧
          ¬ Foreign c.platform .artifact (h₀.files .artifact)) h := by
  unfold prepareInstall
  split
  · rename_i hplatform
    rw [hplatform] at hkept hmarker ⊢
    exact ends_bind (respects_prepareUnit hkept hmarker) fun _ _ h => h
  · rename_i hplatform
    rw [hplatform] at hkept hmarker ⊢
    exact respects_preparePlist hkept hmarker

theorem respects_activateOrRestore (hkept : Respects c.platform h₀ h)
    (hartifact : ¬ Foreign c.platform .artifact (h₀.files .artifact))
    (hstate : ¬ Foreign c.platform .state (h₀.files .state)) {previous : Option Bytes}
    (hprevious : ∀ bytes, previous = some bytes → ownershipMarker c.platform .state <:+: bytes)
    (prepared : Bool) :
    wp anyServiceTurn (c.activateOrRestore previous prepared)
      (ends (Respects c.platform h₀) (fun _ => Respects c.platform h₀)
        fun _ => Respects c.platform h₀) h := by
  refine ends_bind (Maintains.ends
    (maintains_activate (logs_respects hartifact) prepared).attempt hkept)
    fun activated h hkept => ?_
  cases activated with
  | ok _ => exact hkept
  | error e =>
    refine ends_bind (P := fun _ => Respects c.platform h₀) ?_ fun _ h hkept => hkept
    cases previous with
    | some bytes => exact hkept.write hstate (hprevious bytes rfl)
    | none => exact ends_bind (hkept.removeOwned .state) fun _ _ h => h

theorem respects_install (hkept : Respects c.platform h₀ h) :
    wp anyServiceTurn c.install (ends (Respects c.platform h₀) (fun _ => Respects c.platform h₀)
      fun _ => Respects c.platform h₀) h := by
  unfold install
  cases c.plan with
  | error e => exact hkept
  | ok plan =>
    show wp anyServiceTurn (c.readLocalObserverState.bind _) _ h
    refine ends_bind (ends_readLocalObserverState (P := fun previous h =>
      Respects c.platform h₀ h ∧ ¬ Foreign c.platform .state (h₀.files .state) ∧
      ∀ bytes, previous = some bytes → ownershipMarker c.platform .state <:+: bytes)
      hkept hkept (fun _ => hkept) ?_ ?_) ?_
    · exact fun habsent => ⟨hkept, hkept.clear_none habsent, fun _ hnone => by cases hnone⟩
    · exact fun bytes hbytes hmarker => ⟨hkept, hkept.clear_file hbytes hmarker,
        fun _ hsome => Option.some.inj hsome ▸ hmarker⟩
    · rintro previous h ⟨hkept, hstate, hprevious⟩
      cases hdefinition : c.definition plan with
      | error e => exact hkept
      | ok bytes =>
        show wp anyServiceTurn ((c.prepareInstall bytes).bind _) _ h
        refine ends_bind (respects_prepareInstall hkept (marker_infix_definition hdefinition)) ?_
        rintro prepared h ⟨hkept, hartifact⟩
        refine ends_bind (P := fun _ => Respects c.platform h₀) ?_ fun _ h hkept =>
          respects_activateOrRestore hkept hartifact hstate hprevious prepared
        refine ends_bind (ends_fileBarrier (P := fun _ => Respects c.platform h₀) hkept hkept hkept)
          fun _ h hkept => ?_
        cases hobserver : observerBytes plan.tmuxPath with
        | error e => exact hkept
        | ok observer => exact hkept.write hstate (marker_infix_observerBytes hobserver)

theorem respects_uninstallUnit (hkept : Respects .linux h₀ h) :
    wp anyServiceTurn c.uninstallUnit (ends (Respects .linux h₀) (fun _ => Respects .linux h₀)
      fun _ => Respects .linux h₀) h := by
  refine ends_bind (hkept.validate .artifact) ?_
  rintro present h ⟨hkept, hclear⟩
  have hlogs := logs_respects hclear
  cases present with
  | false => exact hkept
  | true =>
    refine ends_bind ((maintains_runService fun h reply => hlogs h _ reply).ends hkept)
      fun output h hkept => ?_
    split
    · exact hkept
    · refine ends_bind (hkept.removeOwned .artifact) fun _ h hkept => ?_
      exact (maintains_required _ fun h reply => hlogs h _ reply).ends hkept

theorem respects_uninstallJob (hkept : Respects .macos h₀ h) :
    wp anyServiceTurn c.uninstallJob (ends (Respects .macos h₀) (fun _ => Respects .macos h₀)
      fun _ => Respects .macos h₀) h := by
  refine ends_bind (hkept.validate .artifact) ?_
  rintro present h ⟨hkept, hclear⟩
  cases present with
  | false => exact hkept
  | true =>
    refine ends_bind ((maintains_gracefulStop (logs_respects hclear) _).ends hkept)
      fun _ h hkept => ?_
    exact ends_bind (hkept.removeOwned .artifact) fun _ _ h => h

theorem respects_uninstall (hkept : Respects c.platform h₀ h) :
    wp anyServiceTurn c.uninstall (ends (Respects c.platform h₀) (fun _ => Respects c.platform h₀)
      fun _ => Respects c.platform h₀) h := by
  unfold uninstall
  split
  · exact hkept
  · refine ends_bind (P := fun _ => Respects c.platform h₀) ?_ fun _ h hkept =>
      ends_bind (hkept.removeOwned .state) fun _ _ h => h
    split
    · rename_i hplatform
      rw [hplatform] at hkept ⊢
      exact respects_uninstallUnit hkept
    · rename_i hplatform
      rw [hplatform] at hkept ⊢
      exact respects_uninstallJob hkept

/-- The hosts that installs and uninstalls on a platform lead to, by any controllers and under any
turns. -/
inductive Leads (platform : PlatformKind) (h₀ : ServiceHost) : ServiceHost → Prop
  | refl : Leads platform h₀ h₀
  | install {h : ServiceHost} (hleads : Leads platform h₀ h) (c : ServiceController)
      (hplatform : c.platform = platform) (ts : List ServiceTurn) :
      Leads platform h₀ (run ts c.install h).2
  | uninstall {h : ServiceHost} (hleads : Leads platform h₀ h) (c : ServiceController)
      (hplatform : c.platform = platform) (ts : List ServiceTurn) :
      Leads platform h₀ (run ts c.uninstall h).2

/-- The state after a run, when all its ends are alike. -/
theorem of_ends_run {I : ServiceHost → Prop} {p : ServiceProg α}
    (hp : wp anyServiceTurn p (ends I (fun _ => I) fun _ => I) h) (ts : List ServiceTurn) :
    I (run ts p h).2 := by
  have hend : ends I (fun _ => I) (fun _ => I) (run ts p h).1 (run ts p h).2 :=
    wp_run hp trivial fun _ _ => trivial
  revert hend
  cases (run ts p h).1 <;> exact id

/-- **The controller keeps to its own files.** However many installs and uninstalls run, and
wherever each of them stops, what is foreign is never touched, what is not foreign does not become
so, and commands are issued only while the definition is not foreign. -/
theorem foreign_kept {platform : PlatformKind} (hleads : Leads platform h₀ h) :
    Respects platform h₀ h := by
  induction hleads with
  | refl => exact .refl h₀
  | install _ c hplatform ts ih =>
    subst hplatform
    exact of_ends_run (respects_install ih) ts
  | uninstall _ c hplatform ts ih =>
    subst hplatform
    exact of_ends_run (respects_uninstall ih) ts

/-- A controller whose environment has only a home. -/
def someController : ServiceController where
  platform := .linux
  varOs := fun name => if name = "HOME" then some (utf8 "/home/sol".toList) else none
  canonicalExecutable := some
  binary := utf8 "/usr/bin/solstone-tmux".toList
  standardDirectories := [utf8 "/usr/bin".toList]
  userId := 501
  lossy := fun bytes => (fromUtf8 bytes).getD []

/-- An uninstall where a directory has the name of the unit. -/
theorem foreign_kept_uninstall :
    (run [] someController.uninstall ⟨fun _ => some (.directory ()), []⟩).2.files .artifact =
      some (.directory ()) :=
  (foreign_kept (.uninstall .refl someController rfl [])).foreign .artifact trivial

end ServiceController

end SolstoneTmux
