import SolstoneTmux.Foundations.Program
import SolstoneTmux.Foundations.Rows

/-!
# The status-line indicator

While the observer runs, an indicator stands in front of the owner's `status-left`, and
`status-left-length` is one column wider. `installDefault` writes both options and `restore` sets
them back; each is a separate tmux command that may fail, and the process may be killed before it.

Whether the length is already widened is inferred from the indicator in `status-left`
(`LengthOwnership.fromCurrent`). This is right as long as the two options are in step (`InStep`),
and a run that is stopped between their two commands leaves them out of step.

`ServerIndicator` is the indicator of the server that runs. While the observer works it rewrites
the indicator's own option (`updateSolstone`), as long as it finds its last value there.
-/

namespace SolstoneTmux

open Foundations Foundations.Prog

/-! ## Options of a tmux server -/

/-- The options that the indicator touches. -/
inductive TmuxOption
  | statusLeft
  | statusLeftLength
  | solstone
  deriving DecidableEq

/-- The name of an option. -/
def TmuxOption.name : TmuxOption → Str
  | statusLeft => "status-left".toList
  | statusLeftLength => "status-left-length".toList
  | solstone => "@solstone".toList

/-- `OBSERVING_VALUE`. -/
def observingValue : Str := "observing".toList

/-- `SYNCING_VALUE`. -/
def syncingValue : Str := "syncing".toList

/-- `INDICATOR_PREFIX`. -/
def indicatorMark : Str :=
  ("#\x7b?@solstone,#\x7b?#\x7b==:#\x7b@solstone\x7d,syncing\x7d,#[fg=yellow]☼#[default]," ++
    "#[fg=colour245]☼#[default]\x7d,\x7d").toList

/-- `INDICATOR_WIDTH`. -/
def indicatorWidth : ℕ := 1

/-- The global options of a server, as far as the indicator reads or writes them. -/
structure TmuxOptions where
  statusLeft : Option Str
  statusLeftLength : Option Str
  solstone : Option Str
  deriving DecidableEq

namespace TmuxOptions

/-- The value of an option. -/
def get (o : TmuxOptions) : TmuxOption → Option Str
  | .statusLeft => o.statusLeft
  | .statusLeftLength => o.statusLeftLength
  | .solstone => o.solstone

/-- The options with one of them replaced. -/
def set (o : TmuxOptions) (option : TmuxOption) (value : Option Str) : TmuxOptions :=
  match option with
  | .statusLeft => { o with statusLeft := value }
  | .statusLeftLength => { o with statusLeftLength := value }
  | .solstone => { o with solstone := value }

end TmuxOptions

/-- `OptionValue`. -/
inductive OptionValue
  | absent
  | present (value : Str)
  deriving DecidableEq

/-- `IndicatorError`. -/
inductive IndicatorError
  | command (text : Str)
  | noServer
  | nonzero (name : Str) (status : ℤ) (stderr : Str)
  | protocol (text : Str)
  deriving DecidableEq

/-- The text of an error. -/
def IndicatorError.display : IndicatorError → Str
  | command text => text
  | noServer => "no tmux server is running".toList
  | nonzero name status stderr =>
    "tmux option command for ".toList ++ name ++ " exited ".toList ++ (toString status).toList ++
      if stderr.isEmpty then [] else ": ".toList ++ stderr
  | protocol text => text

/-! ## Commands -/

/-- What becomes of one option command: it works, it fails, or the process is killed before it. -/
inductive CommandTurn
  | ok
  | fail (error : IndicatorError)
  | kill
  deriving DecidableEq, Inhabited

/-- A program of option commands. -/
abbrev IndicatorProg (ε α : Type) := Prog TmuxOptions CommandTurn ε α

section Commands

variable {ε α β : Type}

/-- One option command, with its effect and its answer. -/
def optionCommand (effect : TmuxOptions → TmuxOptions)
    (answer : TmuxOptions → Except IndicatorError α) :
    IndicatorProg ε (Except IndicatorError α) :=
  .act
    (fun t o => match t with
      | .ok => effect o
      | .fail _ | .kill => o)
    (fun t o => match t with
      | .ok => .done (answer o)
      | .fail e => .done (.error e)
      | .kill => .killed)

/-- `IndicatorIo::read`. A missing option is an error, except for the indicator's own one. -/
def readOption (option : TmuxOption) : IndicatorProg ε (Except IndicatorError OptionValue) :=
  optionCommand id fun o => match o.get option with
    | some value => .ok (.present value)
    | none => if option = .solstone then .ok .absent else .error (.nonzero option.name 1 [])

/-- `IndicatorIo::write`. -/
def writeOption (option : TmuxOption) (value : Str) :
    IndicatorProg ε (Except IndicatorError Unit) :=
  optionCommand (·.set option (some value)) fun _ => .ok ()

/-- `IndicatorIo::clear`. -/
def clearOption (option : TmuxOption) : IndicatorProg ε (Except IndicatorError Unit) :=
  optionCommand (·.set option none) fun _ => .ok ()

/-- `restore_value`. -/
def restoreValue (option : TmuxOption) :
    OptionValue → IndicatorProg ε (Except IndicatorError Unit)
  | .absent => clearOption option
  | .present value => writeOption option value

end Commands

/-! ## Ownership -/

/-- `str::parse::<u32>`. -/
def parseU32 (s : Str) : Option ℕ :=
  let digits := if s.head? = some '+' then s.tail else s
  if !digits.isEmpty && digits.all isDigit && digitsValue digits < 2 ^ 32 then
    some (digitsValue digits)
  else none

/-- A number is read back from its digits. -/
theorem parseU32_digits {n : ℕ} (h : n < 2 ^ 32) : parseU32 (decimal n) = some n := by
  have hplus : (decimal n).head? ≠ some '+' := by
    intro hhead
    exact absurd (isDigit_of_mem_decimal (List.mem_of_head? hhead)) (by decide)
  have hcond : (!(decimal n).isEmpty && (decimal n).all isDigit && decide (n < 2 ^ 32)) = true := by
    rw [all_isDigit_decimal]
    simpa [decimal_ne_nil] using h
  simp only [parseU32, if_neg hplus, digitsValue_decimal, hcond, if_true]

/-- `LengthOwnership`. -/
structure LengthOwnership where
  original : Str
  written : Str
  deriving DecidableEq

/-- `LengthOwnership::from_current`. -/
def LengthOwnership.fromCurrent (current : OptionValue) (alreadyWidened : Bool) :
    Option LengthOwnership :=
  match current with
  | .absent => none
  | .present value =>
    (parseU32 (trim value)).map fun current =>
      let original := if alreadyWidened then current - indicatorWidth else current
      { original := decimal original
        written := decimal (min (original + indicatorWidth) (2 ^ 32 - 1)) }

/-- The text without the indicators in front of it, of which there are at most `fuel`. -/
def stripMarks : ℕ → Str → Str
  | 0, base => base
  | fuel + 1, base =>
    match stripPrefix indicatorMark base with
    | some stripped => stripMarks fuel stripped
    | none => base

/-- `normalize_status_left`. Every indicator that is stripped has at least one character. -/
def normalizeStatusLeft : OptionValue → OptionValue
  | .present value => .present (stripMarks value.length value)
  | .absent => .absent

/-- `normalize_solstone`. -/
def normalizeSolstone (original : OptionValue) : OptionValue :=
  match original with
  | .present value =>
    if value = [] || value = observingValue || value = syncingValue then .absent else original
  | .absent => .absent

/-- `IndicatorOwnership`. -/
structure IndicatorOwnership where
  originalStatusLeft : OptionValue
  originalSolstone : OptionValue
  writtenStatusLeft : Str
  writtenSolstone : Str
  solstoneOwned : Bool
  length : Option LengthOwnership
  deriving DecidableEq

/-! ## Installing -/

/-- The options of `written` set back, the last one first. -/
def rollBack (error : IndicatorError) :
    List (TmuxOption × OptionValue) → IndicatorProg IndicatorError IndicatorOwnership
  | [] => raise error
  | (option, original) :: rest =>
    (restoreValue option original).bind fun
      | .ok _ => rollBack error rest
      | .error rollback =>
        raise (.protocol (error.display ++ "; ".toList ++ option.name ++
          " rollback also failed: ".toList ++ rollback.display))

/-- The error path of `install_with_originals`. -/
def abandonInstall (error : IndicatorError) (written : List (TmuxOption × OptionValue)) :
    IndicatorProg IndicatorError IndicatorOwnership :=
  if error = .noServer then raise error else rollBack error written.reverse

/-- The end of `install_with_originals`: the indicator's own option is written. -/
def installSolstone (ownership : IndicatorOwnership) (written : List (TmuxOption × OptionValue)) :
    IndicatorProg IndicatorError IndicatorOwnership :=
  (writeOption .solstone ownership.writtenSolstone).bind fun
    | .ok _ => done ownership
    | .error error => abandonInstall error written

/-- `install_with_originals`. -/
def installWithOriginals (ownership : IndicatorOwnership) :
    IndicatorProg IndicatorError IndicatorOwnership :=
  (writeOption .statusLeft ownership.writtenStatusLeft).bind fun first =>
  (orRaise id first).bind fun _ =>
  let written := [(TmuxOption.statusLeft, ownership.originalStatusLeft)]
  match ownership.length with
  | none => installSolstone ownership written
  | some length =>
    (writeOption .statusLeftLength length.written).bind fun
      | .ok _ =>
        installSolstone ownership (written ++ [(.statusLeftLength, .present length.original)])
      | .error error => abandonInstall error written

/-- The text of `status-left` with the indicator. -/
def markedStatusLeft : OptionValue → Str
  | .absent => indicatorMark
  | .present value => indicatorMark ++ value

/-- `install_default`. -/
def installDefault : IndicatorProg IndicatorError IndicatorOwnership :=
  (readOption .statusLeft).bind fun left =>
  (orRaise id left).bind fun currentStatusLeft =>
  let originalStatusLeft := normalizeStatusLeft currentStatusLeft
  let alreadyWidened := decide (originalStatusLeft ≠ currentStatusLeft)
  (readOption .statusLeftLength).bind fun length =>
  (orRaise id length).bind fun currentLength =>
  let length := LengthOwnership.fromCurrent currentLength alreadyWidened
  (readOption .solstone).bind fun solstone =>
  (orRaise id solstone).bind fun currentSolstone =>
  installWithOriginals
    { originalStatusLeft := originalStatusLeft
      originalSolstone := normalizeSolstone currentSolstone
      writtenStatusLeft := markedStatusLeft originalStatusLeft
      writtenSolstone := observingValue
      solstoneOwned := true
      length := length }

/-! ## Restoring -/

/-- What is reported of an option that could not be set back. -/
def restoreFailure (option : TmuxOption) (reading : Bool) (error : IndicatorError) : Str :=
  option.name ++ (if reading then " read: ".toList else ": ".toList) ++ error.display

/-- One option of `restore`: it is set back when it still has the value that was written. -/
def restoreOption (option : TmuxOption) (written : Str) (original : OptionValue) :
    Except IndicatorError OptionValue → IndicatorProg (List Str) (List Str)
  | .ok current =>
    if current = .present written then
      (restoreValue option original).bind fun
        | .ok _ => done []
        | .error error => done [restoreFailure option false error]
    else done []
  | .error .noServer => done []
  | .error error => done [restoreFailure option true error]

/-- `IndicatorOwnership::restore`. -/
def IndicatorOwnership.restore (self : IndicatorOwnership) : IndicatorProg (List Str) Unit :=
  (readOption .statusLeft).bind fun
    | .error .noServer => done ()
    | left =>
      (restoreOption .statusLeft self.writtenStatusLeft self.originalStatusLeft left).bind
        fun failures =>
      (match self.length with
        | none => done []
        | some length =>
          (readOption .statusLeftLength).bind
            (restoreOption .statusLeftLength length.written (.present length.original))).bind
        fun lengthFailures =>
      (if self.solstoneOwned then
        (readOption .solstone).bind
          (restoreOption .solstone self.writtenSolstone self.originalSolstone)
      else done []).bind fun solstoneFailures =>
      let failures := failures ++ lengthFailures ++ solstoneFailures
      if failures.isEmpty then done () else raise failures

/-! ## The indicator of a server -/

/-- `IndicatorOwnership::update_solstone`. -/
def IndicatorOwnership.updateSolstone {ε : Type} (self : IndicatorOwnership) (value : Str) :
    IndicatorProg ε (IndicatorOwnership × Except IndicatorError Bool) :=
  if !self.solstoneOwned then done (self, .ok false)
  else
    (readOption .solstone).bind fun
      | .error error => done (self, .error error)
      | .ok current =>
        if current ≠ .present self.writtenSolstone then
          done ({ self with solstoneOwned := false }, .ok false)
        else if value = self.writtenSolstone then done (self, .ok true)
        else
          (writeOption .solstone value).bind fun
            | .error error => done (self, .error error)
            | .ok _ => done ({ self with writtenSolstone := value }, .ok true)

/-- `IndicatorIo::server_identity`, of the server that runs. -/
def serverIdentity {ε : Type} (server : Str) : IndicatorProg ε (Except IndicatorError Str) :=
  optionCommand id fun _ => .ok server

/-- `ServerIndicator`. -/
structure ServerIndicator where
  installed : Option (Str × IndicatorOwnership)
  working : Bool
  deriving DecidableEq

namespace ServerIndicator

variable {ε : Type}

/-- `ServerIndicator::refresh` once there is no indicator on the server that runs. -/
def install (self : ServerIndicator) (server : Str) :
    IndicatorProg ε (ServerIndicator × Except IndicatorError Unit) :=
  installDefault.attempt.bind fun
    | .error .noServer => done (self, .ok ())
    | .error error => done (self, .error error)
    | .ok ownership =>
      if self.working then
        (ownership.updateSolstone syncingValue).bind fun
          | (_, .error .noServer) => done (self, .ok ())
          | (_, .error error) => done (self, .error error)
          | (ownership, .ok _) => done ({ self with installed := some (server, ownership) }, .ok ())
      else done ({ self with installed := some (server, ownership) }, .ok ())

/-- `ServerIndicator::refresh`. -/
def refresh (self : ServerIndicator) (server : Str) :
    IndicatorProg ε (ServerIndicator × Except IndicatorError Unit) :=
  (serverIdentity server).bind fun
    | .error .noServer => done ({ self with installed := none }, .ok ())
    | .error error => done (self, .error error)
    | .ok server =>
      if self.installed.any fun installed => installed.1 = server then done (self, .ok ())
      else install { self with installed := none } server

/-- `ServerIndicator::start`. -/
def start (server : Str) : IndicatorProg IndicatorError ServerIndicator :=
  (refresh { installed := none, working := false } server).bind fun
    | (indicator, .ok _) => done indicator
    | (_, .error error) => raise error

/-- `ServerIndicator::set_working`. -/
def setWorking (self : ServerIndicator) (working : Bool) :
    IndicatorProg ε (ServerIndicator × Except IndicatorError Unit) :=
  let self := { self with working := working }
  match self.installed with
  | none => done (self, .ok ())
  | some (server, ownership) =>
    (ownership.updateSolstone (if working then syncingValue else observingValue)).bind fun
      | (ownership, .ok _) => done ({ self with installed := some (server, ownership) }, .ok ())
      | (_, .error .noServer) => done ({ self with installed := none }, .ok ())
      | (ownership, .error error) =>
        done ({ self with installed := some (server, ownership) }, .error error)

/-- `ServerIndicator::restore`. -/
def restore (self : ServerIndicator) :
    IndicatorProg ε (ServerIndicator × Except (List Str) Unit) :=
  match self.installed with
  | some (_, ownership) =>
    ownership.restore.attempt.bind fun answer =>
      done ({ self with installed := none }, answer)
  | none => done (self, .ok ())

end ServerIndicator

/-- A run of the observer, as far as these options go. -/
def indicatorRun : IndicatorProg Unit Unit :=
  (installDefault.rethrow fun _ => ()).bind fun ownership => ownership.restore.rethrow fun _ => ()

end SolstoneTmux
