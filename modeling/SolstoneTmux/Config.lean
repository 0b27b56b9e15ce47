import Mathlib.Data.List.Infix
import SolstoneTmux.Name
import SolstoneTmux.Time

/-!
# The configuration

`fromConfigFile` checks the native configuration and derives from it the name of the stream that
capture writes to: from the configured identity, or else from the host name (`defaultStream`).

A default stream is a canonical identity (`canonical_defaultStream`), which derivation keeps as it
is. A configured identity need not be.
-/

namespace SolstoneTmux

open Foundations

/-- `MAX_SOURCE_BYTES`. -/
def maxSourceBytes : ℕ := 64

/-- `DEFAULT_SOURCE`. -/
def defaultSource : Str := "tmux".toList

/-- `OptionalJson`. Of a value that is not a string nothing is read. -/
inductive OptionalJson
  | absent
  | string (value : Str)
  | other
  deriving DecidableEq

/-- `ConfigFile`. -/
structure ConfigFile where
  stream : Option Str
  captureInterval : ℕ
  segmentInterval : ℕ
  cacheRetentionDays : ℤ
  statusIndicator : Bool
  paneTitle : Bool
  workingDirectory : Bool
  executable : Bool
  source : OptionalJson
  outputSessions : List Str
  deriving DecidableEq

/-- `RuntimeConfig`. -/
structure RuntimeConfig where
  stream : DerivedName
  captureInterval : ℕ
  segmentInterval : ℕ
  cacheRetentionDays : ℤ
  statusIndicator : Bool
  paneTitle : Bool
  workingDirectory : Bool
  executable : Bool
  source : Str
  outputSessions : List Str

/-- `ConfigError`, as far as the checks of a decoded file raise it. -/
inductive ConfigError
  | invalidInterval (field : String)
  | invalidHostname (hostname : Str)
  | invalidStream (identity : Str) (source : NameError)
  | invalidSource
  | invalidOutputSessions
  deriving DecidableEq

/-! ## The default stream -/

/-- The text with each run of white space and separators replaced by one `-`; `replaced` says that
the character before was in such a run. -/
def normalizeHost (replaced : Bool) : Str → Str
  | [] => []
  | c :: s =>
    if isWhitespace c || c = '/' || c = '\\' then
      (if replaced then [] else ['-']) ++ normalizeHost true s
    else c :: normalizeHost false s

/-- The part of a host name that names the stream: its first label, or all of an IP address. -/
def hostBase (hostname : Str) : Str :=
  let parts := (hostname.splitOn '.').filter fun part => !part.isEmpty
  if !parts.isEmpty && parts.all fun part => part.all isDigit then ['-'].intercalate parts
  else (hostname.splitOn '.').headD []

/-- `default_stream`. The lower case of a text is taken from the standard library's tables. -/
def defaultStream (toLowercase : Str → Str) (hostname : Str) : Except ConfigError Str :=
  let hostname := trim hostname
  let normalized := normalizeHost false (toLowercase (trim (hostBase hostname)))
  let stream := normalized ++ ".tmux".toList
  if !normalized.isEmpty && !decide ("..".toList <:+: stream) && canonical stream then .ok stream
  else .error (.invalidHostname hostname)

/-! ## Checking -/

/-- `is_configured_source`. -/
def isConfiguredSource (source : Str) : Bool :=
  match utf8 source with
  | [] => false
  | first :: rest =>
    (first :: rest).length ≤ maxSourceBytes && isLeadByte first &&
      rest.all fun b => isLeadByte b || b == 95 || b == 45

/-- `configured_source`. -/
def configuredSource : OptionalJson → Except ConfigError Str
  | .absent => .ok defaultSource
  | .string source => if isConfiguredSource source then .ok source else .error .invalidSource
  | .other => .error .invalidSource

/-- The identity of the stream: the configured one, or the default. -/
def streamIdentity (toLowercase : Str → Str) (file : ConfigFile) (hostname : Str) :
    Except ConfigError Str :=
  match file.stream with
  | some identity => .ok identity
  | none => defaultStream toLowercase hostname

/-- The component of a stream's identity. -/
def deriveStream (identity : Str) : Except ConfigError DerivedName :=
  match deriveComponent identity with
  | .ok name => .ok name
  | .error error => .error (.invalidStream identity error)

/-- `RuntimeConfig::from_config_file`. -/
def fromConfigFile (toLowercase : Str → Str) (file : ConfigFile) (hostname : Str) :
    Except ConfigError RuntimeConfig :=
  if file.captureInterval = 0 then .error (.invalidInterval "capture_interval")
  else if file.segmentInterval = 0 then .error (.invalidInterval "segment_interval")
  else do
    let identity ← streamIdentity toLowercase file hostname
    let stream ← deriveStream identity
    let source ← configuredSource file.source
    if file.outputSessions.any List.isEmpty then .error .invalidOutputSessions
    else
      .ok
        { stream := stream
          captureInterval := file.captureInterval * nanosPerSecond
          segmentInterval := file.segmentInterval * nanosPerSecond
          cacheRetentionDays := file.cacheRetentionDays
          statusIndicator := file.statusIndicator
          paneTitle := file.paneTitle
          workingDirectory := file.workingDirectory
          executable := file.executable
          source := source
          outputSessions := file.outputSessions }

section Config

variable {toLowercase : Str → Str} {file : ConfigFile} {hostname : Str} {config : RuntimeConfig}

/-- Every default stream is a canonical identity. -/
theorem canonical_defaultStream {stream : Str}
    (h : defaultStream toLowercase hostname = .ok stream) : canonical stream = true := by
  simp only [defaultStream] at h
  split at h
  · rename_i hvalid
    cases h
    rw [Bool.and_eq_true] at hvalid
    exact hvalid.2
  · cases h

/-- The stream of an accepted configuration is derived from the identity. -/
theorem stream_fromConfigFile (h : fromConfigFile toLowercase file hostname = .ok config) :
    ∃ identity, streamIdentity toLowercase file hostname = .ok identity ∧
      deriveComponent identity = .ok config.stream := by
  rw [fromConfigFile] at h
  split at h
  · cases h
  split at h
  · cases h
  cases hidentity : streamIdentity toLowercase file hostname with
  | error error =>
    rw [hidentity] at h
    cases h
  | ok identity =>
    refine ⟨identity, rfl, ?_⟩
    rw [hidentity] at h
    cases hname : deriveComponent identity with
    | error error =>
      simp only [bind, Except.bind, deriveStream, hname] at h
      cases h
    | ok name =>
      cases hsource : configuredSource file.source with
      | error error =>
        simp only [bind, Except.bind, deriveStream, hname, hsource] at h
        cases h
      | ok source =>
        simp only [bind, Except.bind, deriveStream, hname, hsource] at h
        split at h
        · cases h
        · cases h
          rfl

end Config

end SolstoneTmux
