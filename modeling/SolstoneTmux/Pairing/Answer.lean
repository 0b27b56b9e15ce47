import SolstoneTmux.Foundations.Program
import SolstoneTmux.Health
import SolstoneTmux.Pairing.Store

/-!
# Confirming a pairing

`setup` stores a new credential once the owner has seen its journal's mark, `confirm` asks about a
stored one, and the uploader starts when the stored credential is confirmed. Whether it is depends
on the answer file, which holds the generation of the credential that the owner answered about. The
first of these that finds no answer file settles it for the credential that is stored by then
(`grandfatherOrSettle`).

They are programs over the three private files. Reading works, a write of a file may fail before its
content is there or after, and the process may be killed at any call. What the terminal, the pairing
and the checks before it answer is input. `PrivateState.answers` and `PrivateState.grandfathered` are
beside the program: what the owner answered, and the credential for which the absent file was
settled.
-/

namespace SolstoneTmux

open Foundations Foundations.Prog

/-! ## Texts -/

def MARK_USAGE : String :=
  "give the two words of your journal's mark, like --mark \"bramble quokka\"."

def SETUP_NO_TERMINAL : String :=
  "setup can't ask you about your journal's mark here. run it in a terminal, or give the " ++
    "mark's two words with --mark \"word word\"."

def HELD : String :=
  "waiting for you to confirm your journal's mark. nothing waiting goes into your journal " ++
    "until you do."

def RUN_LINE : String := "when you're ready, run: solstone-tmux confirm"

def PAIRED : String := "paired."

def MARK_WORDS_WRONG : String := "the mark words you gave don't match the journal's mark."

def COULDNT_VERIFY : String := "couldn't verify."

def PAIRING_KEPT : String :=
  "not changed. your current pairing stays in use. nothing this computer has kept went to " ++
    "that journal through this link."

def MARK_UNVERIFIABLE_SETUP : String :=
  "this computer couldn't work out the journal's mark, so the words you gave can't be " ++
    "matched. this computer isn't paired, and nothing it has kept went to that journal " ++
    "through this link. get a fresh pairing link from your journal and run setup in a " ++
    "terminal to decide for yourself."

def NOT_PAIRED : String := "not paired."

def MARK_MISMATCH : String :=
  "the mark words you gave don't match the journal's mark, so this computer isn't paired, " ++
    "and nothing it has kept went to that journal through this link. check the words, get a " ++
    "fresh pairing link from your journal and run setup again."

def PAIRING_KEPT_STOPPED : String := "pairing cancelled. your current pairing stays in use."

def MISMATCH_BODY : String :=
  "you said this mark doesn't match the one your journal shows, so this computer isn't " ++
    "paired, and nothing it has kept went to that journal through this link. you may have " ++
    "pasted the wrong link, or something isn't right. get a fresh pairing link from your " ++
    "journal and run setup again, or email support@solstone.app and we'll help."

def CANCEL : String :=
  "pairing cancelled. nothing this computer has kept went to that journal through this " ++
    "link. get a fresh pairing link from your journal and run setup again when you're " ++
    "ready."

def CONFIRM_UNPAIRED : String := "not paired. to pair, run: solstone-tmux setup"

def CONFIRM_DONE : String := "your journal's mark is already confirmed. nothing to do."

def CONFIRM_NO_TERMINAL : String :=
  "confirm can't ask you about your journal's mark here. run it in a terminal, or give " ++
    "the mark's two words with --mark \"word word\"."

def MARK_UNVERIFIABLE_CONFIRM : String :=
  "this computer couldn't work out the journal's mark, so the words you gave can't be " ++
    "matched. waiting for you to confirm your journal's mark. nothing waiting goes into " ++
    "your journal until you do. run solstone-tmux confirm in a terminal to decide for " ++
    "yourself."

def CONFIRM_MARK_MISMATCH : String :=
  "the mark words you gave don't match the journal's mark, so this computer isn't paired. " ++
    "check the words, then stop solstone-tmux (solstone-tmux uninstall-service for the " ++
    "service), run setup again with a fresh pairing link from your journal, and start " ++
    "solstone-tmux again (solstone-tmux install-service for the service)."

def CONFIRM_MISMATCH_BODY : String :=
  "you said this mark doesn't match the one your journal shows, so this computer isn't " ++
    "paired. you may have pasted the wrong link, or something isn't right. stop " ++
    "solstone-tmux (solstone-tmux uninstall-service for the service), run setup again with " ++
    "a fresh pairing link from your journal, then start solstone-tmux again (solstone-tmux " ++
    "install-service for the service). or email support@solstone.app and we'll help."

def CONFIRM_CANCEL : String :=
  "pairing cancelled. when you're ready, stop solstone-tmux (solstone-tmux " ++
    "uninstall-service for the service), run setup again with a fresh pairing link from " ++
    "your journal, then start solstone-tmux again (solstone-tmux install-service for the " ++
    "service)."

/-! ## Marks -/

/-- The parts of `RenderSpec` that are spoken: the names of the two colours, and the two words. -/
structure Mark where
  color1 : Str
  color2 : Str
  word1 : Str
  word2 : Str

/-- `str::split_once` with a text. -/
def splitOnceText (sep : Str) : Str → Option (Str × Str)
  | [] => none
  | c :: s =>
    match stripPrefix sep (c :: s) with
    | some rest => some ([], rest)
    | none => (splitOnceText sep s).map fun (before, after) => (c :: before, after)

/-- `char::is_ascii_whitespace`. -/
def isAsciiWhitespace (c : Char) : Bool := c ∈ [' ', '\t', '\n', '\x0c', '\r']

/-- `split_mark_words`. -/
def splitMarkWords (value : Str) : List Str :=
  ((value.splitOnP fun c => isAsciiWhitespace c || c = '·').map trim).filter fun piece =>
    !piece.isEmpty

/-- `eq_ignore_ascii_case`. -/
def eqIgnoreAsciiCase (s t : Str) : Bool := s.map Char.toLower = t.map Char.toLower

/-- `MarkMatch`. -/
inductive MarkMatch
  | matched
  | mismatch
  | usage
  deriving DecidableEq

section Marks

variable (markFromJid : Str → Option Mark) (toLowercase : Str → Str)

/-- `format_spoken_mark`. -/
def formatSpokenMark (jid : Str) : Option Str :=
  (markFromJid jid).map fun mark =>
    mark.color1 ++ ", ".toList ++ mark.color2 ++ " · ".toList ++ mark.word1 ++ '·' :: mark.word2

/-- `extract_journal_mark_words`. -/
def extractJournalMarkWords (jid : Str) : Option (Str × Str) :=
  (formatSpokenMark markFromJid jid).bind fun spoken =>
  (splitOnceText " · ".toList spoken).bind fun (_, words) =>
  (splitOnce '·' words).map fun (word1, word2) => (toLowercase (trim word1), toLowercase (trim word2))

/-- `evaluate_mark_words`. -/
def evaluateMarkWords (value jid : Str) : MarkMatch :=
  match extractJournalMarkWords markFromJid toLowercase jid, splitMarkWords value with
  | none, [_, _] => .mismatch
  | some (target1, target2), [word1, word2] =>
    if eqIgnoreAsciiCase word1 target1 && eqIgnoreAsciiCase word2 target2 then .matched
    else .mismatch
  | _, _ => .usage

end Marks

/-! ## The private files -/

/-- A private file: one that holds a value, one that cannot be read as such, or no regular file. -/
inductive PrivateFile (φ : Type)
  | value (v : φ)
  | malformed
  | notRegular

/-- Whether what is under a path is no regular file. -/
def isNotRegular {φ : Type} : Option (PrivateFile φ) → Bool
  | some .notRegular => true
  | _ => false

/-- `Outcome`. -/
inductive Outcome
  | diagnostic (code : DiagnosticCode)
  | usage (text : String)
  | owner (code : ℤ) (lines : List String)
  deriving DecidableEq

/-- An answer of the owner about a credential with a certificate. Walking away is no acceptance. -/
structure OwnerAnswer where
  certificate : Str
  accepted : Bool
  deriving DecidableEq

/-- The private files of the configuration directory. -/
structure PrivateState where
  answer : Option (PrivateFile Str)
  credentials : Option (PrivateFile Credential)
  unverified : Option (PrivateFile Str)
  answers : List OwnerAnswer
  grandfathered : Option Credential

/-- `is_valid_confirmed_value`. -/
def isValidConfirmedValue (value : Str) : Bool :=
  value.isEmpty || (utf8 value).length = 64 && value.all isHexDigit

/-- `read_answer_file`. -/
def readAnswerFile : Option (PrivateFile Str) → Except DiagnosticCode (Option Str)
  | none => .ok none
  | some (.value confirmed) =>
    if isValidConfirmedValue confirmed then .ok (some confirmed) else .error .privateStateInvalid
  | some _ => .error .privateStateInvalid

/-- `load_credential`. -/
def loadCredential : Option (PrivateFile Credential) → Except DiagnosticCode (Option Credential)
  | none => .ok none
  | some (.value credential) =>
    if credential.instanceId.isEmpty then .error .privateStateInvalid else .ok (some credential)
  | some _ => .error .privateStateInvalid

section Confirmed

variable (sha256 : Bytes → Bytes) (pinnedCaJid : List Str → Bytes → Option Str)

/-- `compute_pairing_generation`, in hexadecimal. -/
def pairingGenerationHex (certificate : Str) : Str := hexBytes (sha256 (utf8 certificate))

/-- `pinned_ca_jid` of a credential. -/
def caJid (credential : Credential) : Option Str :=
  pinnedCaJid credential.caChainPem credential.caFpPrefix

/-- `mark_jid`. -/
def markJid (credential : Credential) : Str := (caJid pinnedCaJid credential).getD []

/-- `unverified_pairing_accepted`. -/
def unverifiedPairingAccepted (s : PrivateState) (credential : Credential) : Bool :=
  match s.unverified with
  | some (.value text) => text = pairingGenerationHex sha256 credential.clientCertPem
  | _ => false

/-- `stored_id_needs_asking`. -/
def storedIdNeedsAsking (s : PrivateState) (credential : Credential) : Bool :=
  match caJid pinnedCaJid credential with
  | some jid => jid ≠ credential.instanceId
  | none => !unverifiedPairingAccepted sha256 s credential

/-- `is_pairing_confirmed`. -/
def isPairingConfirmed (s : PrivateState) (credential : Credential) : Bool :=
  if credential.clientCertPem.isEmpty || storedIdNeedsAsking sha256 pinnedCaJid s credential then
    false
  else
    match readAnswerFile s.answer with
    | .ok (some confirmed) =>
      !confirmed.isEmpty && confirmed = pairingGenerationHex sha256 credential.clientCertPem
    | _ => false

end Confirmed

/-! ## Calls -/

/-- A part of a ceremony. Its errors are outcomes that end it early. -/
abbrev Ceremony (α : Type) := Prog PrivateState Turn Outcome α

/-- A look at the files. -/
def inspect {α : Type} (read : PrivateState → α) : Ceremony α :=
  .act (fun _ s => s) fun t s => match t with
    | .kill _ => .killed
    | _ => .done (read s)

/-- `acquire_answer_lock`. -/
def acquireAnswerLock : Ceremony (Except DiagnosticCode Unit) :=
  barrier.bind fun
    | .ok _ => done (.ok ())
    | .error _ => done (.error .privateStateIo)

/-- A write of a private file through a temporary one. A failure comes before its content is there
when no progress was made, and after it else. -/
def writePrivate (blocked : PrivateState → Bool) (written : PrivateState → PrivateState) :
    Ceremony (Except DiagnosticCode Unit) :=
  .act
    (fun t s => match t with
      | .ok => if blocked s then s else written s
      | .fail n | .kill n => if blocked s || n = 0 then s else written s
      | .blind => s)
    fun t s => match t with
      | .ok => .done (if blocked s then .error .privateStateInvalid else .ok ())
      | .fail _ | .blind => .done (.error .privateStateIo)
      | .kill _ => .killed

/-- `persist_credential`. -/
def persistCredential (credential : Credential) : Ceremony (Except DiagnosticCode Unit) :=
  writePrivate (fun s => isNotRegular s.credentials) fun s =>
    { s with credentials := some (.value credential) }

/-- `write_answer_file`. -/
def writeAnswerFile (confirmed : Str) : Ceremony (Except DiagnosticCode Unit) :=
  writePrivate (fun s => isNotRegular s.answer) fun s => { s with answer := some (.value confirmed) }

/-- The write of the absent answer file. -/
def settleAnswerFile (credential : Option Credential) (confirmed : Str) :
    Ceremony (Except DiagnosticCode Unit) :=
  writePrivate (fun s => isNotRegular s.answer) fun s =>
    { s with answer := some (.value confirmed), grandfathered := credential }

/-- `delete_credential_file`. -/
def deleteCredentialFile : Ceremony (Except DiagnosticCode Unit) :=
  (inspect fun s => s.credentials).bind fun
    | none => done (.ok ())
    | some .notRegular => done (.error .privateStateInvalid)
    | some _ =>
      (atomic fun s => (.ok (), { s with credentials := none })).bind fun
        | .ok _ => done (.ok ())
        | .error _ => done (.error .privateStateIo)

/-- The owner's answer about a credential. -/
def answering (credential : Credential) (accepted : Bool) : Ceremony Unit :=
  .act
    (fun t s => match t with
      | .kill _ => s
      | _ => { s with answers := s.answers ++ [⟨credential.clientCertPem, accepted⟩] })
    fun t _ => match t with
      | .kill _ => .killed
      | _ => .done ()

/-- An error that ends the ceremony. -/
def orDiagnostic {α : Type} : Except DiagnosticCode α → Ceremony α := orRaise .diagnostic

end SolstoneTmux
