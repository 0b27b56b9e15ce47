import SolstoneTmux.Service.ControllerRuns

/-!
# Installs that fail

An install that returns has put its definition and its state in place and has started the job from
them; one whose activation fails leaves the state that was there (`install_commits`). On macOS, an
install that returns leaves restarts on, and one that fails leaves them off only if they were off
before, up to a failure of a call on a file or of turning them on. So does an uninstall, until it
has removed the definition (`crash_restart_kept`).
-/

namespace SolstoneTmux.ServiceController

open Foundations Foundations.Prog

variable {c : ServiceController} {h₀ h : ServiceHost} {bytes : Bytes}

/-! ## The state file -/

/-- The files of the plan of the controller. -/
def Written (c : ServiceController) (h : ServiceHost) : Prop :=
  ∃ plan bytes observer, c.plan = .ok plan ∧ c.definition plan = .ok bytes ∧
    observerBytes plan.tmuxPath = .ok observer ∧ h.files .artifact = some (.file bytes) ∧
    h.files .state = some (.file observer)

/-- The state file is as before, or the files are those of the plan. -/
def Between (c : ServiceController) (h₀ h : ServiceHost) : Prop :=
  h.files .state = h₀.files .state ∨ c.Written h

/-- An error that does not come from a file leaves the state file as before. -/
def Fails (c : ServiceController) (h₀ : ServiceHost) (e : ServiceError) (h : ServiceHost) : Prop :=
  c.Between h₀ h ∧ (e.fromFiles = false → h.files .state = h₀.files .state)

/-- The last commands enabled and restarted the unit of this definition, and found it active. -/
def StartedUnit (c : ServiceController) (h : ServiceHost) : Prop :=
  ∃ enabled restarted active earlier,
    h.issued = ⟨.systemdIsActive, h.files .artifact, some (.ok active)⟩ ::
      ⟨.systemdRestart, h.files .artifact, some (.ok restarted)⟩ ::
      ⟨.systemdEnable, h.files .artifact, some (.ok enabled)⟩ :: earlier ∧
    enabled.status = 0 ∧ restarted.status = 0 ∧ c.saysActive active = true

/-- The last commands loaded the job of this definition, and found it with a pid. -/
def StartedJob (c : ServiceController) (h : ServiceHost) : Prop :=
  ∃ loaded printed earlier,
    h.issued = ⟨.launchdPrint, h.files .artifact, some (.ok printed)⟩ ::
      ⟨.launchdBootstrap, h.files .artifact, some (.ok loaded)⟩ :: earlier ∧
    loaded.status = 0 ∧ printed.status = 0 ∧ c.hasTopLevelPid printed.stdout = true

/-- The service was started. -/
def Started (c : ServiceController) (h : ServiceHost) : Prop :=
  match c.platform with
  | .linux => c.StartedUnit h
  | .macos => c.StartedJob h

/-- A command that has to succeed, when it does. -/
theorem ends_required (operation : ServiceOperation) (action : String) (h : ServiceHost) :
    wp anyServiceTurn ((runService operation).bind (c.requireSuccess action))
      (ends (fun _ => True) (fun _ _ => True) fun _ h' => ∃ output : CommandOutput,
        output.status = 0 ∧ h.issue operation (some (.ok output)) = h') h := by
  refine ends_bind (ends_runService
    (P := fun output h' => h.issue operation (some (.ok output)) = h') trivial
    (fun _ => trivial) fun _ => rfl) ?_
  rintro output _ rfl
  unfold requireSuccess
  split
  · rename_i hstatus
    exact ⟨output, hstatus, rfl⟩
  · trivial

theorem activateUnit_starts (h : ServiceHost) :
    wp anyServiceTurn c.activateUnit
      (ends (fun _ => True) (fun _ _ => True) fun _ => c.StartedUnit) h := by
  refine ends_bind (ends_required _ _ h) ?_
  rintro _ _ ⟨enabled, henabled, rfl⟩
  refine ends_bind (ends_required _ _ _) ?_
  rintro _ _ ⟨restarted, hrestarted, rfl⟩
  refine ends_bind (ends_runService (P := fun active h' =>
    ((h.issue .systemdEnable (some (.ok enabled))).issue .systemdRestart
      (some (.ok restarted))).issue .systemdIsActive (some (.ok active)) = h') trivial
    (fun _ => trivial) fun _ => rfl) ?_
  rintro active _ rfl
  split
  · rename_i hactive
    exact ⟨enabled, restarted, active, h.issued, rfl, henabled, hrestarted, hactive⟩
  · trivial

theorem activateJob_starts (prepared : Bool) (h : ServiceHost) :
    wp anyServiceTurn (c.activateJob prepared)
      (ends (fun _ => True) (fun _ _ => True) fun _ => c.StartedJob) h := by
  refine ends_bind (P := fun _ _ => True) (wp_of_forall (fun r _ => ?_) h) fun _ h _ => ?_
  · cases r <;> trivial
  · refine ends_bind (ends_required _ _ h) ?_
    rintro _ _ ⟨loaded, hloaded, rfl⟩
    refine ends_bind (ends_runService (P := fun printed h' =>
      (h.issue .launchdBootstrap (some (.ok loaded))).issue .launchdPrint
        (some (.ok printed)) = h') trivial (fun _ => trivial) fun _ => rfl) ?_
    rintro printed _ rfl
    split
    · trivial
    · rename_i hstatus
      split
      · rename_i hpid
        exact ⟨loaded, printed, h.issued, rfl, hloaded, not_not.mp hstatus, hpid⟩
      · trivial

theorem activate_starts (prepared : Bool) (h : ServiceHost) :
    wp anyServiceTurn (c.activate prepared)
      (ends (fun _ => True) (fun _ _ => True) fun _ => c.Started) h := by
  unfold activate
  split
  · rename_i hplatform
    refine ends_mono (activateUnit_starts h) (fun _ h => h) (fun _ _ h => h) fun _ h hstarted => ?_
    rw [Started, hplatform]
    exact hstarted
  · rename_i hplatform
    refine ends_mono (activateJob_starts prepared h) (fun _ h => h) (fun _ _ h => h)
      fun _ h hstarted => ?_
    rw [Started, hplatform]
    exact hstarted

/-- The state file is as it was in the beginning. -/
def Before (h₀ h : ServiceHost) : Prop := h.files .state = h₀.files .state

/-- The definition was put in place, and the state file is as before. -/
def Prepared (bytes : Bytes) (h₀ h : ServiceHost) : Prop :=
  Before h₀ h ∧ h.files .artifact = some (.file bytes)

theorem logs_of_files {I : (ServiceFile → Option (Node Bytes Unit)) → Prop} :
    Logs fun h => I h.files :=
  fun _ _ _ h => h

theorem logs_before (h₀ : ServiceHost) : Logs (Before h₀) :=
  logs_of_files (I := fun files => files .state = h₀.files .state)

theorem logs_prepared (bytes : Bytes) (h₀ : ServiceHost) : Logs (Prepared bytes h₀) :=
  logs_of_files (I := fun files =>
    files .state = h₀.files .state ∧ files .artifact = some (.file bytes))

theorem logs_written : Logs c.Written :=
  logs_of_files (I := fun files => ∃ plan bytes observer, c.plan = .ok plan ∧
    c.definition plan = .ok bytes ∧ observerBytes plan.tmuxPath = .ok observer ∧
    files .artifact = some (.file bytes) ∧ files .state = some (.file observer))

theorem Before.put_artifact (hbefore : Before h₀ h) (node : Option (Node Bytes Unit)) :
    Before h₀ (h.put .artifact node) := by
  rw [Before, ServiceHost.put_files, Function.update_of_ne (by decide)]
  exact hbefore

theorem Before.installArtifact (hbefore : Before h₀ h) (bytes : Bytes) :
    wp anyServiceTurn (installArtifact bytes)
      (ends (Before h₀) (fun _ => Before h₀) fun _ => Prepared bytes h₀) h := by
  have hput := hbefore.put_artifact (some (.file bytes))
  have hthere := h.put_self .artifact (some (.file bytes))
  exact ends_installArtifact hbefore hput (fun _ _ => hbefore) (fun _ _ => hput)
    (fun _ _ _ => hbefore) (fun hsame => ⟨hbefore, hsame⟩) ⟨hput, hthere⟩

/-- A validation of the definition changes nothing. -/
theorem Before.validateDefinition (hbefore : Before h₀ h) (marker bytes : Bytes) :
    wp anyServiceTurn (validateDefinition marker bytes)
      (ends (Before h₀) (fun _ => Before h₀) fun r h =>
        Before h₀ h ∧ (r.2 = true → Prepared bytes h₀ h)) h := by
  refine ends_validateDefinition hbefore hbefore (fun _ => hbefore)
    (fun _ => ⟨hbefore, fun hfalse => by cases hfalse⟩)
    fun found hfound _ => ⟨hbefore, fun heq => ?_⟩
  obtain rfl : found = bytes := of_decide_eq_true heq
  exact ⟨hbefore, hfound⟩

theorem Before.prepareUnit (hbefore : Before h₀ h) (bytes : Bytes) :
    wp anyServiceTurn (c.prepareUnit bytes)
      (ends (Before h₀) (fun _ => Before h₀) fun _ => Prepared bytes h₀) h := by
  refine ends_bind (hbefore.validateDefinition _ bytes) ?_
  rintro ⟨present, unchanged⟩ h ⟨hbefore, hunchanged⟩
  dsimp only
  split
  · rename_i htrue
    exact hunchanged htrue
  · refine ends_bind ((maintains_runService fun h reply => logs_before h₀ h _ reply).ends hbefore)
      fun output h hbefore => ?_
    split
    · exact hbefore
    · refine ends_bind (hbefore.installArtifact bytes) fun _ h hprepared => ?_
      exact ends_mono ((maintains_required _ fun h reply =>
          logs_prepared bytes h₀ h _ reply).ends hprepared)
        (fun _ hp => hp.1) (fun _ _ hp => hp.1) fun _ _ hp => hp

theorem Before.preparePlist (hbefore : Before h₀ h) (bytes : Bytes) :
    wp anyServiceTurn (c.preparePlist bytes)
      (ends (Before h₀) (fun _ => Before h₀) fun _ => Prepared bytes h₀) h := by
  refine ends_bind (hbefore.validateDefinition _ bytes) ?_
  rintro ⟨present, unchanged⟩ h ⟨hbefore, hunchanged⟩
  dsimp only
  split
  · rename_i htrue
    exact hunchanged htrue
  · refine ends_bind (Maintains.ends
      (.ite (maintains_gracefulStop (logs_before h₀) _) (.done _)) hbefore) fun _ h hbefore => ?_
    refine ends_bind (hbefore.installArtifact bytes) fun _ h hprepared => ?_
    have henable := (maintains_enable (c := c) (logs_prepared bytes h₀).mildly).ends hprepared
    exact ends_bind (ends_mono henable (fun _ hp => hp.1) (fun _ _ hp => hp.1) fun _ _ hp => hp)
      fun _ _ hp => hp

theorem Before.prepareInstall (hbefore : Before h₀ h) (bytes : Bytes) :
    wp anyServiceTurn (c.prepareInstall bytes)
      (ends (Before h₀) (fun _ => Before h₀) fun _ => Prepared bytes h₀) h := by
  unfold ServiceController.prepareInstall
  split
  · exact ends_bind (hbefore.prepareUnit bytes) fun _ _ h => h
  · exact hbefore.preparePlist bytes

theorem Before.fails (hbefore : Before h₀ h) (e : ServiceError) : c.Fails h₀ e h :=
  ⟨.inl hbefore, fun _ => hbefore⟩

theorem Written.fails (hwritten : c.Written h) {e : ServiceError} (he : e.fromFiles = true) :
    c.Fails h₀ e h :=
  ⟨.inr hwritten, fun hfalse => by rw [he] at hfalse; cases hfalse⟩

/-- The state file of a plan has the marker. -/
theorem Written.owned (hwritten : c.Written h) :
    OwnedFile .state (ownershipMarker c.platform .state) h := by
  obtain ⟨plan, bytes, observer, -, -, hobserver, -, hstate⟩ := hwritten
  exact ⟨observer, hstate, marker_infix_observerBytes hobserver⟩

/-- What is restored is the state file from before. -/
theorem Written.restore (hwritten : c.Written h) {previous : Option Bytes}
    (hprevious : h₀.files .state = previous.map Node.file) :
    wp anyServiceTurn (c.restoreLocalObserverState previous)
      (ends (c.Between h₀) (c.Fails h₀) fun _ => Before h₀) h := by
  have hput : Before h₀ (h.put .state (previous.map Node.file)) := by
    rw [Before, ServiceHost.put_self, hprevious]
  cases previous with
  | some bytes =>
    exact ends_writeServiceFile (.inr hwritten) (.inl hput) (hwritten.fails rfl)
      (hput.fails _) hput
  | none =>
    exact ends_bind (ends_removeOwnedRegularFile (P := fun _ => Before h₀) (.inr hwritten)
      (fun _ he => hwritten.fails he) (fun hnot => absurd hwritten.owned hnot)
      (fun habsent => habsent.trans hprevious.symm)
      fun _ => ⟨.inl hput, fun e _ => hput.fails e, hput⟩) fun _ _ h => h

theorem Written.activateOrRestore (hwritten : c.Written h) {previous : Option Bytes}
    (hprevious : h₀.files .state = previous.map Node.file) (prepared : Bool) :
    wp anyServiceTurn (c.activateOrRestore previous prepared)
      (ends (c.Between h₀) (c.Fails h₀) fun _ h => c.Written h ∧ c.Started h) h := by
  have hactivate : wp anyServiceTurn (c.activate prepared)
      (ends c.Written (fun _ => c.Written) fun _ h => c.Written h ∧ c.Started h) h := by
    refine wp_mono (wp_and ((maintains_activate logs_written prepared).ends hwritten)
      (activate_starts prepared h)) fun r h' hr => ?_
    cases r with
    | done a => exact hr
    | raised e => exact hr.1
    | killed => exact hr.1
  refine ends_bind (ends_mono (ends_attempt hactivate) (fun _ hw => .inr hw) (fun _ _ he => he)
    fun _ _ hr => hr) fun activated h hactivated => ?_
  cases activated with
  | ok _ => exact hactivated
  | error e =>
    have hwritten : c.Written h := hactivated
    exact ends_bind (hwritten.restore hprevious) fun _ h hbefore => hbefore.fails e

theorem wp_install (h₀ : ServiceHost) :
    wp anyServiceTurn c.install
      (ends (c.Between h₀) (c.Fails h₀) fun _ h => c.Written h ∧ c.Started h) h₀ := by
  have hstart : Before h₀ h₀ := rfl
  unfold install
  cases hplan : c.plan with
  | error e => exact hstart.fails e
  | ok plan =>
    show wp anyServiceTurn (c.readLocalObserverState.bind _) _ h₀
    refine ends_bind (ends_readLocalObserverState (P := fun previous h =>
      h₀ = h ∧ h₀.files .state = previous.map Node.file) (.inl hstart) (hstart.fails _)
      (fun _ => hstart.fails _) (fun habsent => ⟨rfl, habsent⟩) fun _ hbytes _ => ⟨rfl, hbytes⟩) ?_
    rintro previous _ ⟨rfl, hprevious⟩
    cases hdefinition : c.definition plan with
    | error e => exact hstart.fails e
    | ok bytes =>
      show wp anyServiceTurn ((c.prepareInstall bytes).bind _) _ h₀
      refine ends_bind (ends_mono (hstart.prepareInstall bytes) (fun _ => .inl)
        (fun e _ hbefore => hbefore.fails e) fun _ _ hr => hr) fun prepared h hprepared => ?_
      refine ends_bind (P := fun _ => c.Written) ?_ fun _ h hwritten =>
        hwritten.activateOrRestore hprevious prepared
      refine ends_bind (ends_fileBarrier (P := fun _ => Prepared bytes h₀) (.inl hprepared.1)
        (hprepared.1.fails _) hprepared) fun _ h hprepared => ?_
      cases hobserver : observerBytes plan.tmuxPath with
      | error e => exact hprepared.1.fails e
      | ok observer =>
        have hwritten : c.Written (h.put .state (some (.file observer))) := by
          refine ⟨plan, bytes, observer, hplan, hdefinition, hobserver, ?_, ?_⟩
          · rw [ServiceHost.put_files, Function.update_of_ne (by decide)]
            exact hprepared.2
          · exact h.put_self .state _
        exact ends_writeServiceFile (.inl hprepared.1) (.inr hwritten) (hprepared.1.fails _)
          (hwritten.fails rfl) hwritten

/-- **An install commits or leaves the state.** When it returns, the definition and the state are
those of its plan, and the last commands started the service from this definition. When it fails,
the state file is as before, unless a call on a file failed; then, and when the program ends in the
middle, the state file is as before or both files are those of the plan. -/
theorem install_commits (c : ServiceController) (h₀ : ServiceHost) (ts : List ServiceTurn) :
    ends (c.Between h₀) (c.Fails h₀) (fun _ h => c.Written h ∧ c.Started h)
      (run ts c.install h₀).1 (run ts c.install h₀).2 :=
  wp_run (wp_install h₀) trivial fun _ _ => trivial

/-! ## Restarts after a crash -/

/-- A command that succeeded. -/
def succeeded (entry : Issued) : Bool :=
  match entry.reply with
  | some (.ok output) => output.status = 0
  | _ => false

/-- Restarts of the job may be off: since the last time they were turned on, it was tried to turn
them off. -/
def leftDisabled : List Issued → Bool
  | [] => false
  | entry :: earlier =>
    if entry.operation = .launchdEnable ∧ succeeded entry = true then false
    else entry.operation = .launchdDisable || leftDisabled earlier

/-- The last command tried to turn restarts on, and failed. -/
def FailedEnable : List Issued → Prop
  | [] => False
  | entry :: _ => entry.operation = .launchdEnable ∧ succeeded entry = false

/-- Restarts are off only if they were off before. -/
def NotByUs (h₀ h : ServiceHost) : Prop :=
  leftDisabled h.issued = true → leftDisabled h₀.issued = true

/-- Restarts are on: after every attempt to turn them off, they were turned on. -/
def Restarts (h : ServiceHost) : Prop := leftDisabled h.issued = false

/-- How a failed run leaves restarts: a call on a file failed, or turning them on, or they are off
only if they were off before. -/
def Told (h₀ : ServiceHost) (e : ServiceError) (h : ServiceHost) : Prop :=
  e.fromFiles = true ∨ FailedEnable h.issued ∨ NotByUs h₀ h

theorem Restarts.notByUs (hrestarts : Restarts h) : NotByUs h₀ h := fun hleft => by
  rw [Restarts, hleft] at hrestarts
  cases hrestarts

theorem leftDisabled_issue {operation : ServiceOperation} (hne : operation ≠ .launchdDisable)
    {reply : Option Reply} (hleft : leftDisabled (h.issue operation reply).issued = true) :
    leftDisabled h.issued = true := by
  rw [ServiceHost.issue_issued, leftDisabled] at hleft
  split at hleft
  · cases hleft
  · simpa [hne] using hleft

theorem mildlyLogs_notByUs (h₀ : ServiceHost) : MildlyLogs (NotByUs h₀) :=
  fun _ _ _ hne hnot hleft => hnot (leftDisabled_issue hne hleft)

theorem mildlyLogs_restarts : MildlyLogs Restarts := by
  intro h operation reply hne hrestarts
  by_contra hleft
  have := leftDisabled_issue hne (Bool.not_eq_false _ ▸ hleft)
  rw [hrestarts] at this
  cases this

/-- Restarts are turned on, or this was the last that was tried. -/
theorem enable_ends (h : ServiceHost) :
    wp anyServiceTurn c.enable
      (ends (fun _ => True) (fun _ h => FailedEnable h.issued) fun _ => Restarts) h := by
  refine ends_bind (ends_runService (P := fun output h' =>
    h.issue .launchdEnable (some (.ok output)) = h') trivial (fun e => ⟨rfl, rfl⟩)
    fun _ => rfl) ?_
  rintro output _ rfl
  unfold requireSuccess
  split
  · rename_i hstatus
    refine if_pos ⟨rfl, ?_⟩
    exact decide_eq_true hstatus
  · rename_i hstatus
    exact ⟨rfl, decide_eq_false hstatus⟩

/-- An attempt about which nothing needs to be known. -/
theorem ends_attempted {α : Type} {E : ServiceError → ServiceHost → Prop} (p : ServiceProg α)
    (h : ServiceHost) :
    wp anyServiceTurn (p.attempt : ServiceProg (Except ServiceError α))
      (ends (fun _ => True) E fun _ _ => True) h := by
  rw [wp_attempt]
  refine wp_of_forall (fun r _ => ?_) h
  cases r <;> trivial

/-- A stop that fails turns restarts on again, or this was the last that was tried. -/
theorem gracefulStop_ends (retryCommand : String) (h₀ h : ServiceHost) :
    wp anyServiceTurn (c.gracefulStop retryCommand)
      (ends (fun _ => True) (Told h₀) fun _ _ => True) h := by
  refine ends_bind (ends_attempted _ h) fun stopped h _ => ?_
  cases stopped with
  | ok _ => trivial
  | error primary =>
    refine ends_bind (ends_attempt (enable_ends h)) fun enabled h henabled => ?_
    cases enabled with
    | ok _ => exact .inr (.inr (Restarts.notByUs henabled))
    | error reenable => exact .inr (.inl henabled)

theorem NotByUs.told (hnot : NotByUs h₀ h) (e : ServiceError) : Told h₀ e h := .inr (.inr hnot)

/-- Commands that do not turn restarts off. -/
theorem NotByUs.ends {α : Type} {p : ServiceProg α} (hnot : NotByUs h₀ h)
    (hp : Maintains anyServiceTurn (NotByUs h₀) p) :
    wp anyServiceTurn p (Prog.ends (fun _ => True) (Told h₀) fun _ => NotByUs h₀) h :=
  ends_mono (hp.ends hnot) (fun _ _ => trivial) (fun e _ h => h.told e) fun _ _ h => h

theorem Restarts.ends {α : Type} {p : ServiceProg α} (hrestarts : Restarts h)
    (hp : Maintains anyServiceTurn Restarts p) :
    wp anyServiceTurn p (Prog.ends (fun _ => True) (Told h₀) fun _ => Restarts) h :=
  ends_mono (hp.ends hrestarts) (fun _ _ => trivial) (fun e _ h => h.notByUs.told e) fun _ _ h => h

theorem enable_told (h₀ h : ServiceHost) :
    wp anyServiceTurn c.enable (ends (fun _ => True) (Told h₀) fun _ => Restarts) h :=
  ends_mono (enable_ends h) (fun _ h => h) (fun _ _ hfailed => .inr (.inl hfailed)) fun _ _ h => h

/-- Nothing but a file has the name of the definition. -/
def Regular (h : ServiceHost) : Prop := ∀ node, h.files .artifact = some node → node.isFile = true

theorem logs_regular : Logs Regular :=
  logs_of_files (I := fun files => ∀ node, files .artifact = some node → node.isFile = true)

theorem preparePlist_ends (hnot : NotByUs h₀ h) (bytes : Bytes) :
    wp anyServiceTurn (c.preparePlist bytes)
      (ends (fun _ => True) (Told h₀) fun prepared h =>
        NotByUs h₀ h ∧ (prepared = true → Restarts h)) h := by
  refine ends_bind (ends_validateDefinition (P := fun _ h => NotByUs h₀ h ∧ Regular h) trivial
    (hnot.told _) (fun _ => hnot.told _) (fun habsent => ⟨hnot, fun node hnode => ?_⟩)
    fun found hfound _ => ⟨hnot, fun node hnode => ?_⟩) ?_
  · rw [habsent] at hnode
    cases hnode
  · obtain rfl := Option.some.inj (hfound.symm.trans hnode)
    rfl
  · rintro ⟨present, unchanged⟩ h ⟨hnot, hregular⟩
    dsimp only
    split
    · exact ⟨hnot, fun hfalse => by cases hfalse⟩
    · refine ends_bind (P := fun _ => Regular) ?_ fun _ h hregular => ?_
      · split
        · have hstop := (maintains_gracefulStop (c := c) logs_regular "install-service").and_ends
            hregular (gracefulStop_ends "install-service" h₀ h)
          exact ends_mono hstop (fun _ h => h) (fun _ _ h => h.1) fun _ _ h => h.2
        · exact hregular
      · refine ends_bind (ends_installArtifact (P := fun _ _ => True) trivial trivial
          (fun _ he => .inl he) (fun _ he => .inl he)
          (fun node hnode hother => absurd (hregular node hnode) hother) (fun _ => trivial) trivial)
          fun _ h _ => ?_
        exact ends_bind (enable_told h₀ h) fun _ h hrestarts =>
          ⟨hrestarts.notByUs, fun _ => hrestarts⟩

theorem stopCurrent_ends (hnot : NotByUs h₀ h) :
    wp anyServiceTurn c.stopCurrent (ends (fun _ => True) (Told h₀) fun _ => Restarts) h := by
  have hlogs := mildlyLogs_notByUs h₀
  refine ends_bind (hnot.ends (maintains_mild hlogs (by decide)))
    fun output h hnot => ?_
  refine ends_bind (hnot.ends (maintains_classifyPrint _ _)) fun state h hnot => ?_
  refine ends_bind (P := fun _ _ => True) ?_ fun _ h _ => enable_told h₀ h
  cases state with
  | running => exact gracefulStop_ends _ h₀ h
  | quiescent =>
    exact ends_mono (hnot.ends (maintains_unload hlogs _ _)) (fun _ h => h) (fun _ _ h => h)
      fun _ _ _ => trivial
  | absent => trivial

theorem activateJob_ends {prepared : Bool} (hnot : NotByUs h₀ h)
    (hprepared : prepared = true → Restarts h) :
    wp anyServiceTurn (c.activateJob prepared)
      (ends (fun _ => True) (Told h₀) fun _ => Restarts) h := by
  have hlogs := mildlyLogs_restarts
  refine ends_bind (P := fun _ => Restarts) ?_ fun _ h hrestarts => ?_
  · cases prepared with
    | true => exact hprepared rfl
    | false => exact stopCurrent_ends hnot
  · refine ends_bind (hrestarts.ends ((maintains_mild hlogs (by decide)).bind fun _ =>
      maintains_requireSuccess _ _)) fun _ h hrestarts => ?_
    exact hrestarts.ends (maintains_verifyLoaded hlogs)

/-- The state file is the controller's. -/
def OwnState (c : ServiceController) (h : ServiceHost) : Prop :=
  OwnedFile .state (ownershipMarker c.platform .state) h

theorem logs_ownState : Logs c.OwnState :=
  logs_of_files (I := fun files => ∃ bytes, files .state = some (.file bytes) ∧
    ownershipMarker c.platform .state <:+: bytes)

/-- Restoring the state file issues no command. -/
theorem Told.restore {e : ServiceError} (htold : Told h₀ e h) (hown : c.OwnState h)
    (previous : Option Bytes) :
    wp anyServiceTurn (c.restoreLocalObserverState previous)
      (ends (fun _ => True) (Told h₀) fun _ => Told h₀ e) h := by
  cases previous with
  | some bytes => exact ends_writeServiceFile trivial trivial (.inl rfl) (.inl rfl) htold
  | none =>
    exact ends_bind (ends_removeOwnedRegularFile (P := fun _ => Told h₀ e) trivial
      (fun _ he => .inl he) (fun hnot => absurd hown hnot) (fun _ => htold)
      fun _ => ⟨trivial, fun _ he => .inl he, htold⟩) fun _ _ h => h

theorem activateOrRestore_ends (hplatform : c.platform = .macos) {prepared : Bool}
    (hnot : NotByUs h₀ h) (hprepared : prepared = true → Restarts h) (hown : c.OwnState h)
    (previous : Option Bytes) :
    wp anyServiceTurn (c.activateOrRestore previous prepared)
      (ends (fun _ => True) (Told h₀) fun _ => Restarts) h := by
  have hactivate : c.activate prepared = c.activateJob prepared := by
    unfold activate
    rw [hplatform]
  have hends := (maintains_activate (logs_ownState (c := c)) prepared).and_ends hown
    (hactivate ▸ activateJob_ends hnot hprepared)
  refine ends_bind (ends_attempt hends) fun activated h hr => ?_
  cases activated with
  | ok _ => exact hr.1
  | error e =>
    have hfailed : Told h₀ e h ∧ c.OwnState h := hr
    exact ends_bind (hfailed.1.restore hfailed.2 previous) fun _ _ htold => htold

theorem installMacos_ends (hplatform : c.platform = .macos) (h₀ : ServiceHost) :
    wp anyServiceTurn c.install (ends (fun _ => True) (Told h₀) fun _ => Restarts) h₀ := by
  have hstart : NotByUs h₀ h₀ := id
  have hprepare : ∀ bytes, c.prepareInstall bytes = c.preparePlist bytes := fun bytes => by
    unfold prepareInstall
    rw [hplatform]
  unfold install
  cases c.plan with
  | error e => exact hstart.told e
  | ok plan =>
    show wp anyServiceTurn (c.readLocalObserverState.bind _) _ h₀
    refine ends_bind (ends_readLocalObserverState (P := fun _ => NotByUs h₀) trivial
      (hstart.told _) (fun _ => hstart.told _) (fun _ => hstart) fun _ _ _ => hstart) ?_
    rintro previous h hstart
    cases c.definition plan with
    | error e => exact hstart.told e
    | ok bytes =>
      show wp anyServiceTurn ((c.prepareInstall bytes).bind _) _ h
      rw [hprepare]
      refine ends_bind (preparePlist_ends hstart bytes) ?_
      rintro prepared h ⟨hnot, hprepared⟩
      refine ends_bind (P := fun _ h =>
        (NotByUs h₀ h ∧ (prepared = true → Restarts h)) ∧ c.OwnState h) ?_ ?_
      · refine ends_bind (ends_fileBarrier
          (P := fun _ h => NotByUs h₀ h ∧ (prepared = true → Restarts h)) trivial (.inl rfl)
          ⟨hnot, hprepared⟩) ?_
        rintro _ h hkept
        cases hobserver : observerBytes plan.tmuxPath with
        | error e => exact hkept.1.told e
        | ok observer =>
          have hown : c.OwnState (h.put .state (some (.file observer))) :=
            ⟨observer, h.put_self .state _, marker_infix_observerBytes hobserver⟩
          exact ends_writeServiceFile trivial trivial (.inl rfl) (.inl rfl) ⟨hkept, hown⟩
      · rintro _ h ⟨⟨hnot, hprepared⟩, hown⟩
        exact activateOrRestore_ends hplatform hnot hprepared hown previous

/-- The definition is gone. -/
def Gone (h : ServiceHost) : Prop := h.files .artifact = none

theorem uninstallJob_ends (h₀ : ServiceHost) :
    wp anyServiceTurn c.uninstallJob (ends (fun _ => True) (Told h₀) fun _ => Gone) h₀ := by
  have hstart : NotByUs h₀ h₀ := id
  have hlogs : Logs (OwnedFile .artifact (ownershipMarker .macos .artifact)) :=
    logs_of_files (I := fun files => ∃ bytes, files .artifact = some (.file bytes) ∧
      ownershipMarker .macos .artifact <:+: bytes)
  refine ends_bind (ends_found trivial (hstart.told _) fun _ => hstart.told _) ?_
  rintro present _ ⟨rfl, hpresent⟩
  cases present with
  | false => exact hpresent
  | true =>
    have hstop := (maintains_gracefulStop (c := c) hlogs "uninstall-service").and_ends hpresent
      (gracefulStop_ends "uninstall-service" h₀ h₀)
    refine ends_bind (ends_mono hstop (fun _ h => h) (fun _ _ h => h.1) fun _ _ h => h.2)
      fun _ h hown => ?_
    exact ends_bind (ends_removeOwnedRegularFile (P := fun _ => Gone) trivial (fun _ he => .inl he)
      (fun hnot => absurd hown hnot) (fun habsent => habsent)
      fun _ => ⟨trivial, fun _ he => .inl he, h.put_self .artifact none⟩) fun _ _ h => h

theorem uninstallMacos_ends (hplatform : c.platform = .macos) (h₀ : ServiceHost) :
    wp anyServiceTurn c.uninstall
      (ends (fun _ => True) (fun e h => Told h₀ e h ∨ Gone h) fun _ => Gone) h₀ := by
  have hstart : NotByUs h₀ h₀ := id
  unfold uninstall
  rw [hplatform]
  split
  · exact .inl (hstart.told _)
  · refine ends_bind (ends_mono (uninstallJob_ends h₀) (fun _ h => h)
      (fun _ _ htold => .inl htold) fun _ _ h => h) fun _ h hgone => ?_
    -- The state file is removed when the definition is gone already.
    have hput : Gone (h.put .state none) := by
      rw [Gone, ServiceHost.put_files, Function.update_of_ne (by decide)]
      exact hgone
    exact ends_bind (ends_removeOwnedRegularFile (P := fun _ => Gone) trivial
      (fun _ _ => .inr hgone) (fun _ => .inr hgone) (fun _ => hgone)
      fun _ => ⟨trivial, fun _ _ => .inr hput, hput⟩) fun _ _ h => h

/-- **Restarts after a crash are kept.** On macOS, an install that returns leaves restarts on, and
one that fails leaves them off only if they were off before, a call on a file failed, or the last
command was a failed attempt to turn them on. So does an uninstall that fails, unless it has removed
the definition; and one that returns has. -/
theorem crash_restart_kept (hplatform : c.platform = .macos) (h₀ : ServiceHost)
    (ts : List ServiceTurn) :
    ends (fun _ => True) (Told h₀) (fun _ => Restarts)
        (run ts c.install h₀).1 (run ts c.install h₀).2 ∧
      ends (fun _ => True) (fun e h => Told h₀ e h ∨ Gone h) (fun _ => Gone)
        (run ts c.uninstall h₀).1 (run ts c.uninstall h₀).2 :=
  ⟨wp_run (installMacos_ends hplatform h₀) trivial fun _ _ => trivial,
    wp_run (uninstallMacos_ends hplatform h₀) trivial fun _ _ => trivial⟩

/-- A controller on macOS; of a text in ASCII nothing is lost. -/
def someMac : ServiceController :=
  { someController with
    platform := .macos
    lossy := fun bytes => bytes.map fun byte => Char.ofNat byte.toNat }

/-- A host with a definition of the controller. -/
def installedHost : ServiceHost where
  files := fun file => match file with
    | .artifact => some (.file (utf8 plistMarker))
    | .state => none
  issued := []

/-- A command that is replied to. -/
def replied (status : ℤ) (stdout : String) : ServiceTurn :=
  ⟨.ok, some (.ok ⟨utf8 stdout.toList, [], status⟩), false⟩

/-- The job runs; it is signalled and stops, but it cannot be unloaded. -/
def stuckJob : List ServiceTurn :=
  [replied 0 "", replied 0 "", replied 0 "", replied 0 "\tpid = 7\n", replied 0 "", replied 0 "",
    replied 5 "", replied 0 ""]

/-- An uninstall that fails to unload a running job turns its restarts on again. -/
theorem crash_restart_kept_stuck :
    ((run stuckJob someMac.uninstall installedHost).2.issued.map Issued.operation =
        [.launchdEnable, .launchdBootout, .launchdPrint, .launchdKill, .launchdPrint,
          .launchdDisable]) ∧
      ends (fun _ => True) (Told installedHost) (fun _ => Restarts)
        (run stuckJob someMac.install installedHost).1
        (run stuckJob someMac.install installedHost).2 ∧
      ends (fun _ => True) (fun e h => Told installedHost e h ∨ Gone h) (fun _ => Gone)
        (run stuckJob someMac.uninstall installedHost).1
        (run stuckJob someMac.uninstall installedHost).2 :=
  ⟨by decide +kernel, crash_restart_kept (c := someMac) rfl installedHost stuckJob⟩

end SolstoneTmux.ServiceController
