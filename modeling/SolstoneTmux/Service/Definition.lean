import Mathlib.Data.List.Infix
import SolstoneTmux.Foundations.Relay
import SolstoneTmux.Foundations.Rows
import SolstoneTmux.JournalVersion
import SolstoneTmux.NamePath
import SolstoneTmux.Tmux.Adapter

/-!
# Service definitions

The files with which the service is registered, the unit of systemd and the property list of
launchd, and the errors of the controller that writes them. Each definition contains the marker by
which the controller knows its own files (`marker_infix_unitText`, `marker_infix_plistText`).
-/

namespace SolstoneTmux

open Foundations

/-- `PlatformKind`. -/
inductive PlatformKind
  | linux
  | macos
  deriving DecidableEq

/-- `ServiceOperation`. -/
inductive ServiceOperation
  | systemdStop
  | systemdDaemonReload
  | systemdEnable
  | systemdRestart
  | systemdIsActive
  | systemdDisableNow
  | launchdBootout
  | launchdDisable
  | launchdEnable
  | launchdBootstrap
  | launchdKill
  | launchdPrint
  deriving DecidableEq

/-- `CommandError`, of a service operation. -/
inductive CommandError
  | spawn
  | timeout (operation : ServiceOperation)

/-- The two files of the controller: the service definition at `artifact_path`, and the file
`STATE_FILENAME` below the configuration root. -/
inductive ServiceFile
  | artifact
  | state
  deriving DecidableEq

/-- `ServiceError`; a path is one of the two files, or the bytes of a path that was given. -/
inductive ServiceError
  | missingHome
  | path (file : ServiceFile)
  | storage (file : ServiceFile)
  | command (error : CommandError)
  | io (file : ServiceFile)
  | invalidArtifact (file : ServiceFile)
  | invalidExecutable (path : Bytes)
  | invalidUtf8Path (path : Bytes)
  | tmuxNotFound
  | manager (action : String) (status : ℤ) (stderr : Str)
  | launchdRecovery (primary reenable : ServiceError) (retryCommand : String)
  | invalidState (message : String)

/-- An error of a call on one of the two files. -/
def ServiceError.fromFiles : ServiceError → Bool
  | path _ | storage _ | io _ => true
  | _ => false

/-! ## Values -/

/-- `utf8_path` and `utf8_os`. -/
def utf8Path (path : Bytes) : Except ServiceError Str :=
  match fromUtf8 path with
  | some text => .ok text
  | none => .error (.invalidUtf8Path path)

/-- A character of a value in a unit. -/
def escapeUnitChar : Char → Str
  | '\\' => ['\\', '\\']
  | '"' => ['\\', '"']
  | '%' => ['%', '%']
  | c => [c]

/-- `escape_unit_value`. -/
def escapeUnitValue (value : Str) : Except ServiceError Str :=
  if value.any isControl then
    .error (.invalidState "service paths must not contain control characters")
  else .ok (value.flatMap escapeUnitChar)

/-- `str::replace` of a character. -/
def replaceChar (c : Char) (replacement s : Str) : Str :=
  s.flatMap fun d => if d = c then replacement else [d]

/-- `xml_escape`. -/
def xmlEscape (value : Str) : Str :=
  replaceChar '\'' "&apos;".toList <| replaceChar '"' "&quot;".toList <|
    replaceChar '>' "&gt;".toList <| replaceChar '<' "&lt;".toList <|
    replaceChar '&' "&amp;".toList value

/-! ## Texts -/

/-- A line of a unit that assigns a value. -/
def assignment (key : String) (value : Str) : Str := key.toList ++ '=' :: value

/-- The line of a unit that tells it is the controller's. -/
def markerLine : Str := assignment "Description" "Solstone Tmux Observer".toList

/-- `systemd::OWNERSHIP_MARKER`. -/
def unitMarker : Str := markerLine ++ ['\n']

/-- The lines of a unit after its marker. -/
def unitBody (binary servicePath : Str) : List Str :=
  [assignment "After" "basic.target".toList, assignment "StartLimitIntervalSec" ['0'],
    assignment "StartLimitBurst" ['5'], [], "[Service]".toList,
    assignment "Type" "simple".toList,
    assignment "Environment" ("\"PATH=".toList ++ servicePath ++ ['"']),
    assignment "ExecStart" ('"' :: binary ++ "\" run".toList),
    assignment "Restart" "on-failure".toList, assignment "RestartSec" ['5'], [],
    "[Install]".toList, assignment "WantedBy" "default.target".toList]

/-- The lines of `systemd::render`, with its values. -/
def unitLines (binary servicePath : Str) : List Str :=
  "[Unit]".toList :: markerLine :: unitBody binary servicePath

/-- The text of `systemd::render`, with its values. -/
def unitText (binary servicePath : Str) : Str := printRows (unitLines binary servicePath)

/-- `systemd::render`. -/
def renderUnit (binary servicePath : Bytes) : Except ServiceError Bytes := do
  let binary ← escapeUnitValue (← utf8Path binary)
  let servicePath ← escapeUnitValue (← utf8Path servicePath)
  return utf8 (unitText binary servicePath)

/-- `launchd::LABEL`. -/
def launchdLabel : Str := "com.solstone.tmux".toList

/-- `launchd::ownership_marker`. -/
def plistMarker : Str := "<string>".toList ++ launchdLabel ++ "</string>".toList

/-- The entry of a temporary directory in the environment of the service. -/
def tmpdirEntry (tmuxTmpdir : Option Str) : Str :=
  match tmuxTmpdir with
  | some dir => "    <key>TMUX_TMPDIR</key>\n<string>".toList ++ dir ++ "</string>\n".toList
  | none => []

/-- The text of a property list before its marker. -/
def plistHead : Str :=
  "<?xml version=\"1.0\" encoding=\"UTF-8\"?>\n".toList ++
    "<!DOCTYPE plist PUBLIC \"-//Apple//DTD PLIST 1.0//EN\" ".toList ++
    "\"http://www.apple.com/DTDs/PropertyList-1.0.dtd\">\n".toList ++
    "<plist version=\"1.0\">\n<dict>\n<key>Label</key>\n".toList

/-- The text of a property list after its marker. -/
def plistBody (binary servicePath home : Str) (tmuxTmpdir : Option Str) : Str :=
  "\n<key>ProgramArguments</key>\n<array>\n<string>".toList ++ binary ++
    "</string>\n<string>run</string>\n</array>\n".toList ++
    "<key>EnvironmentVariables</key>\n<dict>\n<key>HOME</key>\n<string>".toList ++ home ++
    "</string>\n<key>PATH</key>\n<string>".toList ++ servicePath ++ "</string>\n".toList ++
    tmpdirEntry tmuxTmpdir ++ "<key>LC_ALL</key>\n<string>UTF-8</string>\n</dict>\n".toList ++
    "<key>RunAtLoad</key>\n<true/>\n<key>KeepAlive</key>\n<dict>\n".toList ++
    "<key>SuccessfulExit</key>\n<false/>\n</dict>\n".toList ++
    "<key>ThrottleInterval</key>\n<integer>5</integer>\n".toList ++
    "<key>ProcessType</key>\n<string>Background</string>\n".toList ++
    "<key>StandardOutPath</key>\n<string>".toList ++ home ++
    "/Library/Logs/solstone-tmux.log</string>\n".toList ++
    "<key>StandardErrorPath</key>\n<string>".toList ++ home ++
    "/Library/Logs/solstone-tmux.log</string>\n</dict>\n</plist>\n".toList

/-- The text of `launchd::render`, with its values. -/
def plistText (binary servicePath home : Str) (tmuxTmpdir : Option Str) : Str :=
  plistHead ++ plistMarker ++ plistBody binary servicePath home tmuxTmpdir

/-- The text of a directory that may be missing. -/
def utf8Tmpdir : Option Bytes → Except ServiceError (Option Str)
  | none => .ok none
  | some dir =>
    match utf8Path dir with
    | .ok text => .ok (some (xmlEscape text))
    | .error e => .error e

/-- `launchd::render`. -/
def renderPlist (binary servicePath home : Bytes) (tmuxTmpdir : Option Bytes) :
    Except ServiceError Bytes := do
  let binary := xmlEscape (← utf8Path binary)
  let servicePath := xmlEscape (← utf8Path servicePath)
  let home := xmlEscape (← utf8Path home)
  let tmuxTmpdir ← utf8Tmpdir tmuxTmpdir
  return utf8 (plistText binary servicePath home tmuxTmpdir)

/-- The marker that a file of the controller contains. -/
def ownershipMarker (platform : PlatformKind) : ServiceFile → Bytes
  | .state => utf8 "\"tmux_path\"".toList
  | .artifact =>
    match platform with
    | .linux => utf8 unitMarker
    | .macos => utf8 plistMarker

/-- What stands in the middle of a text stands in the middle of its bytes. -/
theorem utf8_infix {a b : Str} (h : a <:+: b) : utf8 a <:+: utf8 b := by
  obtain ⟨before, after, rfl⟩ := h
  rw [utf8_append, utf8_append]
  exact ⟨_, _, rfl⟩

/-- A line is printed with its line feed. -/
theorem printRows_second (first second : Str) (rest : List Str) :
    second ++ ['\n'] <:+: printRows (first :: second :: rest) :=
  ⟨first ++ ['\n'], printRows rest, List.append_assoc _ _ _⟩

theorem marker_infix_unitText (binary servicePath : Str) :
    unitMarker <:+: unitText binary servicePath :=
  printRows_second _ _ _

theorem marker_infix_plistText (binary servicePath home : Str) (tmuxTmpdir : Option Str) :
    plistMarker <:+: plistText binary servicePath home tmuxTmpdir :=
  ⟨plistHead, plistBody binary servicePath home tmuxTmpdir, rfl⟩

theorem marker_infix_renderUnit {binary servicePath bytes : Bytes}
    (h : renderUnit binary servicePath = .ok bytes) :
    ownershipMarker .linux .artifact <:+: bytes := by
  simp only [renderUnit, bind, Except.bind, pure, Except.pure] at h
  split at h
  · cases h
  split at h
  · cases h
  split at h
  · cases h
  split at h
  · cases h
  obtain rfl := Except.ok.inj h
  exact utf8_infix (marker_infix_unitText _ _)

theorem marker_infix_renderPlist {binary servicePath home bytes : Bytes}
    {tmuxTmpdir : Option Bytes}
    (h : renderPlist binary servicePath home tmuxTmpdir = .ok bytes) :
    ownershipMarker .macos .artifact <:+: bytes := by
  simp only [renderPlist, bind, Except.bind, pure, Except.pure] at h
  split at h
  · cases h
  split at h
  · cases h
  split at h
  · cases h
  split at h
  · cases h
  obtain rfl := Except.ok.inj h
  exact utf8_infix (marker_infix_plistText _ _ _ _)

end SolstoneTmux
