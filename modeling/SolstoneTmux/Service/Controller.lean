import SolstoneTmux.Pairing.Answer
import SolstoneTmux.Service.Definition

/-!
# The service controller

`install` and `uninstall` of `ServiceController`, as programs over the two files of the controller
and the commands that were issued (`ServiceHost`). The service manager is outside: it answers each
command as it likes, and the program may end in one. Every call on a file may fail.

A command is recorded with the definition that was in place when it was issued and with its reply,
newest first.
-/

namespace SolstoneTmux

open Foundations Foundations.Prog

/-- What a command ended in. -/
abbrev Reply := Except CommandError CommandOutput

/-- A command that was issued; without a reply, the program ended in it. -/
structure Issued where
  operation : ServiceOperation
  artifact : Option (Node Bytes Unit)
  reply : Option Reply

/-- The files of the controller, and the commands so far. -/
structure ServiceHost where
  files : ServiceFile → Option (Node Bytes Unit)
  issued : List Issued

/-- What the environment does at a call: a file works or not, a command is replied to, and the
deadline of a wait has passed. -/
structure ServiceTurn where
  call : Turn
  reply : Option Reply
  late : Bool

instance : Inhabited ServiceTurn := ⟨⟨.ok, some (.ok ⟨[], [], 0⟩), false⟩⟩

/-- Every turn. -/
def anyServiceTurn : ServiceTurn → Prop := fun _ => True

/-- `ServiceController`, with its environment: `canonicalExecutable` is what `canonical_executable`
finds, and `lossy` is `String::from_utf8_lossy`. -/
structure ServiceController where
  platform : PlatformKind
  varOs : String → Option Bytes
  canonicalExecutable : Bytes → Option Bytes
  binary : Bytes
  standardDirectories : List Bytes
  userId : ℕ
  lossy : Bytes → Str

namespace ServiceHost

/-- Another entry under the path of a file. -/
def put (h : ServiceHost) (file : ServiceFile) (node : Option (Node Bytes Unit)) : ServiceHost :=
  { h with files := Function.update h.files file node }

/-- A command is issued. -/
def issue (h : ServiceHost) (operation : ServiceOperation) (reply : Option Reply) : ServiceHost :=
  { h with issued := ⟨operation, h.files .artifact, reply⟩ :: h.issued }

@[simp] theorem put_files (h : ServiceHost) (file : ServiceFile) (node : Option (Node Bytes Unit)) :
    (h.put file node).files = Function.update h.files file node := rfl

theorem put_self (h : ServiceHost) (file : ServiceFile) (node : Option (Node Bytes Unit)) :
    (h.put file node).files file = node := Function.update_self _ _ _

@[simp] theorem put_issued (h : ServiceHost) (file : ServiceFile)
    (node : Option (Node Bytes Unit)) : (h.put file node).issued = h.issued := rfl

@[simp] theorem issue_files (h : ServiceHost) (operation : ServiceOperation)
    (reply : Option Reply) : (h.issue operation reply).files = h.files := rfl

@[simp] theorem issue_issued (h : ServiceHost) (operation : ServiceOperation)
    (reply : Option Reply) :
    (h.issue operation reply).issued = ⟨operation, h.files .artifact, reply⟩ :: h.issued := rfl

end ServiceHost

/-- A program of the controller. -/
abbrev ServiceProg := Prog ServiceHost ServiceTurn ServiceError

variable {α : Type}

/-! ## Files -/

/-- A call on a file; a failure is raised. -/
def fileCall (error : ServiceError) (full : ServiceHost → Except IoKind α × ServiceHost) :
    ServiceProg α :=
  ((atomic full : Prog ServiceHost Turn ServiceError _).relay ServiceTurn.call).bind
    (orRaise fun _ => error)

/-- `fs::symlink_metadata`; an absent file has none. -/
def fileMetadata (error : ServiceError) (file : ServiceFile) :
    ServiceProg (Option (Node Bytes Unit)) :=
  fileCall error fun h => (.ok (h.files file), h)

/-- `fs::read`. -/
def readServiceFile (file : ServiceFile) : ServiceProg Bytes :=
  fileCall (.io file) fun h => match h.files file with
    | some (.file bytes) => (.ok bytes, h)
    | _ => (.error .other, h)

/-- A call that changes neither file. -/
def fileBarrier (error : ServiceError) : ServiceProg Unit := fileCall error fun h => (.ok (), h)

/-- `atomic_write_bytes`; the first barrier stands for the temporary file, the last for the flush of
the directory. -/
def writeServiceFile (file : ServiceFile) (bytes : Bytes) : ServiceProg Unit :=
  (fileMetadata (.storage file) file).bind fun node =>
    if node.all Node.isFile then
      (fileBarrier (.storage file)).bind fun _ =>
      (fileCall (.storage file) fun h => (.ok (), h.put file (some (.file bytes)))).bind fun _ =>
      fileBarrier (.storage file)
    else raise (.storage file)

/-- `validate_regular_file`. -/
def validateRegularFile (file : ServiceFile) (requiredMarker : Option Bytes) : ServiceProg Bool :=
  (fileMetadata (.io file) file).bind fun
    | none => done false
    | some node =>
      if node.isFile then
        match requiredMarker with
        | none => done true
        | some marker =>
          (readServiceFile file).bind fun bytes =>
            if marker <:+: bytes then done true else raise (.invalidArtifact file)
      else raise (.invalidArtifact file)

/-- `install_artifact`. -/
def installArtifact (bytes : Bytes) : ServiceProg Bool :=
  let write : ServiceProg Bool :=
    (fileBarrier (.path .artifact)).bind fun _ =>
    (writeServiceFile .artifact bytes).bind fun _ => done true
  (validateRegularFile .artifact none).bind fun
    | true => (readServiceFile .artifact).bind fun found =>
      if found = bytes then done false else write
    | false => write

/-- `remove_owned_regular_file`. -/
def removeOwnedRegularFile (file : ServiceFile) (requiredMarker : Bytes) : ServiceProg Bool :=
  (validateRegularFile file (some requiredMarker)).bind fun
    | false => done false
    | true =>
      (fileCall (.io file) fun h => (.ok (), h.put file none)).bind fun _ =>
      (fileBarrier (.storage file)).bind fun _ => done true

/-- Whether a definition of the controller is there with these bytes. -/
def validateDefinition (marker bytes : Bytes) : ServiceProg (Bool × Bool) :=
  (validateRegularFile .artifact (some marker)).bind fun
    | true => (readServiceFile .artifact).bind fun found => done (true, found = bytes)
    | false => done (false, false)

/-! ## Commands -/

/-- A command, with what its runner makes of it. -/
def runService (operation : ServiceOperation) : ServiceProg CommandOutput :=
  (act (fun t h => h.issue operation t.reply) fun t _ => match t.reply with
    | some reply => done reply
    | none => killed).bind (orRaise .command)

namespace ServiceController

variable (c : ServiceController)

/-- `manager_error`. -/
def managerError (action : String) (output : CommandOutput) : ServiceError :=
  .manager action output.status (trim (c.lossy output.stderr))

/-- `require_success`. -/
def requireSuccess (action : String) (output : CommandOutput) : ServiceProg Unit :=
  if output.status = 0 then done () else raise (c.managerError action output)

/-- `reports_absent`. -/
def reportsAbsent (output : CommandOutput) : Bool :=
  let stderr := asciiLowercase (c.lossy output.stderr)
  output.status = 3 || output.status = 4 || "not found".toList <:+: stderr ||
    "not loaded".toList <:+: stderr || "could not be found".toList <:+: stderr ||
    "no such process".toList <:+: stderr

/-! ### systemd -/

/-- `systemd::prepare_install`. -/
def prepareUnit (bytes : Bytes) : ServiceProg Unit :=
  (validateDefinition (ownershipMarker .linux .artifact) bytes).bind fun (_, unchanged) =>
    if unchanged then done ()
    else
      (runService .systemdStop).bind fun output =>
        if output.status ≠ 0 ∧ c.reportsAbsent output = false then
          raise (c.managerError "systemd stop" output)
        else
          (installArtifact bytes).bind fun _ =>
          (runService .systemdDaemonReload).bind (c.requireSuccess "systemd daemon-reload")

/-- The reply of `is-active` for an active unit. -/
def saysActive (output : CommandOutput) : Bool :=
  output.status = 0 && trim (c.lossy output.stdout) = "active".toList

/-- `systemd::activate`. -/
def activateUnit : ServiceProg Unit :=
  ((runService .systemdEnable).bind (c.requireSuccess "systemd enable")).bind fun _ =>
  ((runService .systemdRestart).bind (c.requireSuccess "systemd restart")).bind fun _ =>
  (runService .systemdIsActive).bind fun active =>
    if c.saysActive active then done () else raise (c.managerError "systemd active check" active)

/-- `systemd::uninstall`. -/
def uninstallUnit : ServiceProg Unit :=
  (validateRegularFile .artifact (some (ownershipMarker .linux .artifact))).bind fun
    | false => done ()
    | true =>
      (runService .systemdDisableNow).bind fun disabled =>
        if disabled.status ≠ 0 ∧ c.reportsAbsent disabled = false then
          raise (c.managerError "systemd disable" disabled)
        else
          (removeOwnedRegularFile .artifact (ownershipMarker .linux .artifact)).bind fun _ =>
          (runService .systemdDaemonReload).bind (c.requireSuccess "systemd daemon-reload")

/-! ### launchd -/

/-- `JobState`. -/
inductive JobState
  | running
  | quiescent
  | absent
  deriving DecidableEq

/-- A line of `launchctl print` with the pid of the job. -/
def isPidLine (line : Str) : Bool :=
  match stripPrefix ['\t'] line with
  | none => false
  | some field =>
    if field.head?.any isWhitespace then false
    else
      match splitOnceText " = ".toList field with
      | none => false
      | some (key, value) => key = "pid".toList && value.all isDigit && value.any (· ≠ '0')

/-- `has_top_level_pid`. -/
def hasTopLevelPid (stdout : Bytes) : Bool := (rows (c.lossy stdout)).any isPidLine

/-- `reports_missing_service`. -/
def reportsMissingService (output : CommandOutput) : Bool :=
  let expected := "Could not find service \"".toList ++ launchdLabel ++
    "\" in domain for user gui: ".toList ++ decimal c.userId
  output.status = 113 && (output.stderr.splitOn 10).contains (utf8 expected)

/-- `classify_print`. -/
def classifyPrint (output : CommandOutput) (action : String) : ServiceProg JobState :=
  if output.status = 0 then
    done (if c.hasTopLevelPid output.stdout then .running else .quiescent)
  else if c.reportsMissingService output then done .absent
  else raise (c.managerError action output)

/-- `launchd::enable`. -/
def enable : ServiceProg Unit :=
  (runService .launchdEnable).bind (c.requireSuccess "launchd enable")

/-- `launchd::disable`. -/
def disable : ServiceProg Unit :=
  (runService .launchdDisable).bind (c.requireSuccess "launchd disable")

/-- The error of a job that does not stop. -/
def stillRunning (retryCommand : String) : ServiceError :=
  .invalidState ("com.solstone.tmux still reports a live pid after 5 seconds; rerun " ++
    "solstone-tmux " ++ retryCommand)

/-- The loop of `unload`, with the polls that the deadline leaves: they are 50 milliseconds apart,
and the hundredth is not before the deadline. -/
def awaitQuiescence (retryCommand : String) : ℕ → ServiceProg JobState
  | 0 => raise (stillRunning retryCommand)
  | polls + 1 =>
    (runService .launchdPrint).bind fun output =>
    (c.classifyPrint output "launchd quiescence check").bind fun state =>
      if state ≠ .running then done state
      else act (fun _ h => h) fun t _ =>
        if t.late then raise (stillRunning retryCommand) else awaitQuiescence retryCommand polls

/-- The first part of `unload`: a running job is signalled and waited for. -/
def quiesce (state : JobState) (retryCommand : String) : ServiceProg JobState :=
  if state = .running then
    (runService .launchdKill).bind fun output =>
      if output.status ≠ 0 ∧ c.reportsMissingService output = false then
        raise (c.managerError "launchd kill" output)
      else c.awaitQuiescence retryCommand 100
  else done state

/-- `unload`. -/
def unload (state : JobState) (retryCommand : String) : ServiceProg Unit :=
  (c.quiesce state retryCommand).bind fun state =>
    if state = .absent then done ()
    else
      (runService .launchdBootout).bind fun output =>
        if output.status = 0 ∨ c.reportsMissingService output = true then done ()
        else raise (c.managerError "launchd bootout" output)

/-- The attempt of `graceful_stop`. -/
def stopJob (retryCommand : String) : ServiceProg Unit :=
  c.disable.bind fun _ =>
  (runService .launchdPrint).bind fun output =>
  (c.classifyPrint output "launchd stop inspection").bind fun state =>
  c.unload state retryCommand

/-- `graceful_stop`. -/
def gracefulStop (retryCommand : String) : ServiceProg Unit :=
  ((c.stopJob retryCommand).attempt : ServiceProg (Except ServiceError Unit)).bind fun
    | .ok () => done ()
    | .error primary =>
      (c.enable.attempt : ServiceProg (Except ServiceError Unit)).bind fun
        | .ok () => raise primary
        | .error reenable => raise (.launchdRecovery primary reenable retryCommand)

/-- `launchd::prepare_install`; whether the job has to be loaded. -/
def preparePlist (bytes : Bytes) : ServiceProg Bool :=
  (validateDefinition (ownershipMarker .macos .artifact) bytes).bind fun (present, unchanged) =>
    if unchanged then done false
    else
      (if present then c.gracefulStop "install-service" else done ()).bind fun _ =>
      (installArtifact bytes).bind fun _ =>
      c.enable.bind fun _ => done true

/-- The first part of `launchd::activate`: a job whose definition is current is stopped. -/
def stopCurrent : ServiceProg Unit :=
  (runService .launchdPrint).bind fun output =>
  (c.classifyPrint output "launchd loaded check").bind fun state =>
  (match state with
    | .running => c.gracefulStop "install-service"
    | .quiescent => c.unload .quiescent "install-service"
    | .absent => done ()).bind fun _ =>
  c.enable

/-- `verify_loaded`. -/
def verifyLoaded : ServiceProg Unit :=
  (runService .launchdPrint).bind fun output =>
    if output.status ≠ 0 then raise (c.managerError "launchd loaded check" output)
    else if c.hasTopLevelPid output.stdout then done ()
    else raise (.invalidState ("com.solstone.tmux is loaded but does not report a live pid; " ++
      "rerun solstone-tmux install-service"))

/-- `launchd::activate`. -/
def activateJob (prepared : Bool) : ServiceProg Unit :=
  (if prepared then done () else c.stopCurrent).bind fun _ =>
  ((runService .launchdBootstrap).bind (c.requireSuccess "launchd bootstrap")).bind fun _ =>
  c.verifyLoaded

/-- `launchd::uninstall`. -/
def uninstallJob : ServiceProg Unit :=
  (validateRegularFile .artifact (some (ownershipMarker .macos .artifact))).bind fun
    | false => done ()
    | true =>
      (c.gracefulStop "uninstall-service").bind fun _ =>
      (removeOwnedRegularFile .artifact (ownershipMarker .macos .artifact)).bind fun _ => done ()

/-! ### The controller -/

/-- A variable that is set to something. -/
def nonempty (name : String) : Option Bytes := (c.varOs name).filter (· ≠ [])

/-- `search_directories`; `PATH` is split at its colons. -/
def searchDirectories : List Bytes :=
  ((((c.varOs "PATH").getD []).splitOn 58).filter (· ≠ []) ++ c.standardDirectories).eraseDups

/-- `resolve_tmux`. -/
def resolveTmux : Except ServiceError Bytes :=
  match c.searchDirectories.findSome? fun directory =>
      c.canonicalExecutable (joinPath directory (utf8 "tmux".toList)) with
  | some path => .ok path
  | none => .error .tmuxNotFound

/-- `Path::parent` of a canonical path of a file. -/
def parentDirectory (path : Bytes) : Bytes :=
  let parent := ((path.reverse.dropWhile (· ≠ slash)).drop 1).reverse
  if parent = [] then [slash] else parent

/-- `assembled_service_path`; paths are compared by their components. -/
def assembledServicePath (tmuxPath : Bytes) : Except ServiceError Bytes :=
  let assembled := c.searchDirectories.foldl
    (fun assembled directory =>
      if assembled.any fun path => pathComponents path = pathComponents directory then assembled
      else assembled ++ [directory])
    [parentDirectory tmuxPath]
  if assembled.any fun path => path.contains 58 then
    .error (.invalidState ("could not assemble service PATH including the resolved tmux " ++
      "directory: path segment contains separator `:`; remove path entries containing ':' and " ++
      "rerun install-service"))
  else .ok ((assembled.intersperse [58]).flatten)

/-- A character of a JSON string, as `serde_json` writes it. -/
def jsonChar (ch : Char) : Str :=
  if ch = '"' then ['\\', '"']
  else if ch = '\\' then ['\\', '\\']
  else if ch = '\n' then ['\\', 'n']
  else if ch = '\r' then ['\\', 'r']
  else if ch = '\t' then ['\\', 't']
  else if ch.toNat = 8 then ['\\', 'b']
  else if ch.toNat = 12 then ['\\', 'f']
  else if ch.toNat < 32 then
    "\\u00".toList ++ [hexDigit (ch.toNat / 16), hexDigit (ch.toNat % 16)]
  else [ch]

/-- The bytes of a `LocalObserver` and the line feed after them. -/
def observerBytes (tmuxPath : Bytes) : Except ServiceError Bytes :=
  match fromUtf8 tmuxPath with
  | some path => .ok (utf8 ("\x7b\"tmux_path\":\"".toList ++ path.flatMap jsonChar ++
      "\"\x7d\n".toList))
  | none => .error
      (.invalidState "could not serialize state: path contains invalid UTF-8 characters")

/-- What `install` finds out before it changes anything. -/
structure Plan where
  binary : Bytes
  tmuxPath : Bytes
  servicePath : Bytes
  home : Bytes
  tmuxTmpdir : Option Bytes

/-- The start of `ServiceController::install`. -/
def plan : Except ServiceError Plan :=
  match c.nonempty "HOME" with
  | none => .error .missingHome
  | some home =>
    match c.canonicalExecutable c.binary with
    | none => .error (.invalidExecutable c.binary)
    | some binary => do
      let tmuxPath ← c.resolveTmux
      let servicePath ← c.assembledServicePath tmuxPath
      return ⟨binary, tmuxPath, servicePath, home, c.nonempty "TMUX_TMPDIR"⟩

/-- The definition of a plan. -/
def definition (plan : Plan) : Except ServiceError Bytes :=
  match c.platform with
  | .linux => renderUnit plan.binary plan.servicePath
  | .macos => renderPlist plan.binary plan.servicePath plan.home plan.tmuxTmpdir

/-- Raise the error of a computation. -/
def orError (r : Except ServiceError α) : ServiceProg α := orRaise id r

/-- `read_local_observer_state`. -/
def readLocalObserverState : ServiceProg (Option Bytes) :=
  (validateRegularFile .state (some (ownershipMarker c.platform .state))).bind fun
    | false => done none
    | true => (readServiceFile .state).bind fun bytes => done (some bytes)

/-- `persist_local_observer`. -/
def persistLocalObserver (tmuxPath : Bytes) : ServiceProg Unit :=
  (fileBarrier (.path .state)).bind fun _ =>
  (orError (observerBytes tmuxPath)).bind fun bytes =>
  writeServiceFile .state bytes

/-- `restore_local_observer_state`. -/
def restoreLocalObserverState : Option Bytes → ServiceProg Unit
  | some bytes => writeServiceFile .state bytes
  | none =>
    (removeOwnedRegularFile .state (ownershipMarker c.platform .state)).bind fun _ => done ()

/-- `prepare_install` of the platform. -/
def prepareInstall (bytes : Bytes) : ServiceProg Bool :=
  match c.platform with
  | .linux => (c.prepareUnit bytes).bind fun _ => done true
  | .macos => c.preparePlist bytes

/-- `activate` of the platform. -/
def activate (prepared : Bool) : ServiceProg Unit :=
  match c.platform with
  | .linux => c.activateUnit
  | .macos => c.activateJob prepared

/-- The end of `ServiceController::install`: the state is restored when the activation fails. -/
def activateOrRestore (previous : Option Bytes) (prepared : Bool) : ServiceProg Unit :=
  ((c.activate prepared).attempt : ServiceProg (Except ServiceError Unit)).bind fun
    | .ok () => done ()
    | .error error => (c.restoreLocalObserverState previous).bind fun _ => raise error

/-- `ServiceController::install`. -/
def install : ServiceProg Unit :=
  (orError c.plan).bind fun plan =>
  c.readLocalObserverState.bind fun previous =>
  (orError (c.definition plan)).bind fun bytes =>
  (c.prepareInstall bytes).bind fun prepared =>
  (persistLocalObserver plan.tmuxPath).bind fun _ =>
  c.activateOrRestore previous prepared

/-- `ServiceController::uninstall`. -/
def uninstall : ServiceProg Unit :=
  match c.nonempty "HOME" with
  | none => raise .missingHome
  | some _ =>
    (match c.platform with
      | .linux => c.uninstallUnit
      | .macos => c.uninstallJob).bind fun _ =>
    (removeOwnedRegularFile .state (ownershipMarker c.platform .state)).bind fun _ => done ()

end ServiceController

end SolstoneTmux
