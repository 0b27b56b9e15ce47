import SolstoneTmux.Foundations.Hosted
import SolstoneTmux.Sync.Ledger
import SolstoneTmux.Sync.Removal
import SolstoneTmux.Sync.Scan
import SolstoneTmux.Sync.Sweep

/-!
# The uploader

`runSweep` and `localFinish` on the captures directory, the ledger and the inventories that the
scheduler keeps in memory. A sweep first removes what is acknowledged, then looks at every candidate
and uploads those that are due; a receipt, or the answer that the journal has removed the segment, is
written to the ledger, and the segment is deleted.

Before each call others change the captures as they like (`Moment.edit`); a call fails, and the
process ends, where the moment says so. The contents that a file has while it is hashed may come from
several moments (`Moment.read`). A directory is found again by its path. Requests that carry no
segment, the facts and diagnostics of a sweep and the pauses after failed ones are left out.

What happens to captures is recorded in the uploader's `log`, which no step reads.
-/

namespace SolstoneTmux

open Foundations Foundations.Prog

/-! ## The captures directory and its files -/

/-- The captures directory, and every file by its number. -/
structure LocalTree where
  captures : Option (Node Contents (Captures ℕ))
  files : List OpenFile

/-- A directory in which the entry of a name, if that is a directory, is changed or removed. -/
def alterDirectory {δ : Type} (name : Str) (f : δ → Option δ)
    (entries : Table OsName (Node Contents δ)) : Table OsName (Node Contents δ) :=
  match entries[OsName.str name]? with
  | some (.directory below) =>
    match f below with
    | some below => entries.insert (.str name) (.directory below)
    | none => entries.erase (.str name)
  | _ => entries

namespace LocalTree

/-- The directory of a candidate's segment. -/
def segmentAt (tree : LocalTree) (candidate : SegmentCandidate) : Option (SegmentFiles ℕ) :=
  match tree.captures with
  | some (.directory root) => (segmentDirectory root candidate).toOption
  | _ => none

/-- The files of a candidate. -/
def store (candidate : SegmentCandidate) (tree : LocalTree) : Store :=
  ⟨tree.segmentAt candidate, tree.files⟩

/-- The tree with other files of a candidate. -/
def withStore (candidate : SegmentCandidate) (s : Store) (tree : LocalTree) : LocalTree where
  captures := match tree.captures with
    | some (.directory root) =>
      some <| .directory <| alterDirectory candidate.day (fun streams =>
        some <| alterDirectory candidate.stream (fun segments =>
          some <| alterDirectory candidate.segment (fun _ => s.directory) segments) streams) root
    | other => other
  files := s.files

/-- What there is on the way to a candidate's segment. -/
def above (candidate : SegmentCandidate) (tree : LocalTree) : Above :=
  match tree.captures with
  | none => .missing
  | some (.directory root) =>
    match segmentDirectory root candidate with
    | .ok _ => .found
    | .error .missing => .missing
    | .error _ => .invalid
  | some _ => .invalid

/-- The content of a file of a candidate. -/
def contentOf (tree : LocalTree) (candidate : SegmentCandidate) (name : Str) : Option Bytes :=
  ((tree.store candidate).openRegular name).bind fun number =>
    tree.files[number]?.map OpenFile.content

end LocalTree

/-! ## The state -/

/-- `CachedInventory`. -/
structure CachedInventory where
  names : List Str
  identities : List FileIdentity
  inventory : List LocalFile

/-- What happens to captures: a file was hashed, the journal answered an upload of files that have
been inventoried, and a file was unlinked. `tree` is what was there when the journal answered. -/
inductive CustodyEvent
  | hashed (candidate : SegmentCandidate) (file : LocalFile) (content : Bytes)
  | answered (identity : JournalIdentity) (candidate : SegmentCandidate)
      (inventory : List LocalFile) (answer : UploadAnswer) (tree : LocalTree)
  | unlinked (identity : JournalIdentity) (candidate : SegmentCandidate) (name : Str)
      (content : Bytes)

/-- The uploader and what it works on. `ledgered` are the candidates with a directory in the ledger,
`acks` their receipts and `schedule` their other records. -/
structure Uploader where
  tree : LocalTree
  acks : Ledger
  ledgered : List SegmentCandidate
  schedule : SyncState
  inventories : SegmentCandidate → Option CachedInventory
  log : List CustodyEvent

/-- The environment at a call: what others do before it, how it ends, and what it meets. -/
structure Moment (serde : Serde) where
  edit : LocalTree → LocalTree
  turn : Turn
  read : Option Bytes
  write : Write
  answer : UploadAnswer
  shutdown : Bool
  decoded : ∀ upload, answer = .result upload →
    ∃ body, decodeUploadResponse serde.uploadResponse body = some upload

instance {serde : Serde} : Inhabited (Moment serde) :=
  ⟨⟨id, .ok, none, .done, .endSweep, false, nofun⟩⟩

namespace Moment

variable {serde : Serde}

/-- The call works. -/
def works (m : Moment serde) : Bool := m.turn = .ok

/-- The process ends. -/
def dies (m : Moment serde) : Bool :=
  match m.turn with
  | .kill _ => true
  | _ => false

/-- What others do. -/
def others (m : Moment serde) (u : Uploader) : Uploader := { u with tree := m.edit u.tree }

theorem within_nil (names : List Str) : ∀ action ∈ ([] : List External), action.Within names :=
  List.forall_mem_nil _

/-- The turn of a call that looks at a segment or removes it. -/
def removalTurn (names : List Str) (m : Moment serde) : Option (RemovalTurn names) :=
  if m.dies then none else some ⟨[], within_nil names, m.works⟩

end Moment

/-- A program of the uploader. -/
abbrev Uploading (serde : Serde) (α : Type) := Prog Uploader (Moment serde) Empty α

/-- A file that was unlinked, as an event of custody. -/
def Event.toCustody (identity : JournalIdentity) (candidate : SegmentCandidate) :
    Event → Option CustodyEvent
  | .unlinked name _ content => some (.unlinked identity candidate name content)
  | _ => none

namespace Uploader

/-- The files of a candidate, for a program that removes them. -/
def world (candidate : SegmentCandidate) (u : Uploader) : World := ⟨u.tree.store candidate, []⟩

/-- The uploader after a call of such a program. -/
def withWorld (identity : JournalIdentity) (candidate : SegmentCandidate) (w : World)
    (u : Uploader) : Uploader :=
  { u with
    tree := u.tree.withStore candidate w.store
    log := u.log ++ w.events.filterMap (·.toCustody identity candidate) }

/-- The uploader with other receipts. -/
def withAcks (acks : Ledger) (u : Uploader) : Uploader := { u with acks := acks }

/-- The inventory of a candidate is dropped. -/
def forgetInventory (candidate : SegmentCandidate) (u : Uploader) : Uploader :=
  { u with inventories := Function.update u.inventories candidate none }

/-- The identities that are kept of a candidate's files. -/
def cachedIdentities (candidate : SegmentCandidate) (u : Uploader) : List FileIdentity :=
  ((u.inventories candidate).map CachedInventory.identities).getD []

end Uploader

/-- `AcknowledgedFile` of a file that the journal has removed. -/
def LocalFile.asAcknowledged (file : LocalFile) : ParsedDescriptor where
  submitted := file.name
  written := file.name
  size := file.size
  sha256 := file.sha256
  disposition := "written".toList

/-- The map of the expected digests. Of two files with one name it keeps the later one. -/
def expectedDigests (files : List ParsedDescriptor) (name : Str) : Option Str :=
  (ackBySubmitted files name).map ParsedDescriptor.sha256

/-! ## Calls -/

namespace Uploading

section Calls

variable {serde : Serde} {α : Type}

/-- A call, unless the process ends. -/
def call (f : Moment serde → Uploader → α × Uploader) : Uploading serde α :=
  act (fun m u => if m.dies then m.others u else (f m (m.others u)).2)
    fun m u => if m.dies then killed else done (f m (m.others u)).1

/-- A call that only reads. -/
def look (f : Moment serde → Uploader → α) : Uploading serde α := call fun m u => (f m u, u)

/-- A call without an answer, which may fail. -/
def effect (f : Uploader → Uploader) : Uploading serde Unit :=
  call fun m u => ((), if m.works then f u else u)

/-- What the scheduler does in memory. -/
def remember (f : Uploader → Uploader) : Uploading serde Unit := call fun _ u => ((), f u)

/-- `shutdown_requested`. -/
def shutdownRequested : Uploading serde Bool := look fun m _ => m.shutdown

/-- `scan_candidates`. -/
def scan : Uploading serde (Except Unit (List SegmentCandidate)) :=
  look fun m u => if m.works then scanCandidates u.tree.captures else .error ()

/-- `resolve_segment_files`. -/
def resolve (candidate : SegmentCandidate) : Uploading serde ResolvedSegmentFiles :=
  look fun m u => match m.turn with
    | .ok => resolveSegmentFiles u.tree.captures candidate
    | .blind => .missing
    | _ => .invalid

/-- `HashMap::retain` of the candidates that were found. -/
def retain (found : List SegmentCandidate) : Uploading serde Unit :=
  remember fun u =>
    { u with inventories := fun candidate =>
        if candidate ∈ found then u.inventories candidate else none }

end Calls

variable (serde : Serde) (sha256 : Bytes → Str) (ledgerRoot : Bytes) (identity : JournalIdentity)

/-! ## Inventories -/

/-- `prepare_file`. -/
def prepareFile (candidate : SegmentCandidate) (name : Str) : Uploading serde (Option LocalFile) :=
  if (exactComponent name).isNone then done none
  else
    (look fun m u => if m.works then (u.tree.store candidate).openRegular name else none).bind
      fun opened =>
    match opened with
    | none => done none
    | some number =>
      (look fun m u =>
        if m.works then u.tree.files[number]?.map (·.content.length) else none).bind fun metadata =>
      match metadata with
      | none => done none
      | some size =>
        call fun m u => match u.tree.files[number]? with
          | none => (none, u)
          | some file =>
            if m.works then
              let content := m.read.getD file.content
              let prepared : LocalFile := ⟨name, size, sha256 content⟩
              (some prepared, { u with log := u.log ++ [.hashed candidate prepared content] })
            else (none, u)

/-- The loop of `prepare_files`. -/
def prepareAll (candidate : SegmentCandidate) : List Str → Uploading serde (Option (List LocalFile))
  | [] => done (some [])
  | name :: names =>
    (prepareFile serde sha256 candidate name).bind fun prepared =>
    match prepared with
    | none => done none
    | some file =>
      (prepareAll candidate names).bind fun rest => done (rest.map (file :: ·))

/-- `inventory_files`. -/
def inventoryFiles (candidate : SegmentCandidate) (names : List Str) :
    Uploading serde (Option (List LocalFile)) :=
  if names = [] then done none else prepareAll serde sha256 candidate names

/-- `file_identities`. -/
def identities (candidate : SegmentCandidate) (names : List Str) :
    Uploading serde (Option (List FileIdentity)) :=
  (fileIdentities names : Removal [] _).hosted Moment.others (Moment.removalTurn [])
    (Uploader.world candidate) (Uploader.withWorld identity candidate)

/-- The inventory that is kept of these files, if they are still the same. -/
def cachedInventory (candidate : SegmentCandidate) (names : List Str)
    (found : List FileIdentity) (u : Uploader) : Option (List LocalFile) :=
  (u.inventories candidate).bind fun cached =>
    if cached.names = names ∧ cached.identities = found then some cached.inventory else none

/-- `SyncScheduler::inventory_for`. -/
def inventoryFor (candidate : SegmentCandidate) (names : List Str) :
    Uploading serde (Option (List LocalFile)) :=
  (identities serde identity candidate names).bind fun current =>
  match current with
  | none => done none
  | some current =>
    (look fun _ u => cachedInventory candidate names current u).bind fun cached =>
    match cached with
    | some inventory => done (some inventory)
    | none =>
      (inventoryFiles serde sha256 candidate names).bind fun inventory =>
      match inventory with
      | none => done none
      | some inventory =>
        (remember fun u =>
          { u with
            inventories :=
              Function.update u.inventories candidate (some ⟨names, current, inventory⟩) }).bind
          fun _ => done (some inventory)

/-! ## The ledger -/

/-- `read_ack_record`. -/
def readAck (candidate : SegmentCandidate) (inventory : List LocalFile) :
    Uploading serde (Option AckRecord) :=
  (readAckRecord serde ledgerRoot candidate identity inventory).hosted Moment.others
    (fun m => some m.turn) Uploader.acks Uploader.withAcks

/-- `ensure_private_directory` of a candidate's directory in the ledger. -/
def ensureLedgerDir (candidate : SegmentCandidate) : Uploading serde Unit :=
  effect fun u => { u with ledgered := candidate :: u.ledgered.filter (· ≠ candidate) }

/-- `write_ack_record`. -/
def writeAck (candidate : SegmentCandidate) (storedKey : Str) (files : List ParsedDescriptor) :
    Uploading serde (Except Unit Unit) :=
  (ensureLedgerDir serde candidate).bind fun _ =>
  (writeAckRecord serde ledgerRoot candidate identity storedKey files).attempt.hosted Moment.others
    (fun m => some m.turn) Uploader.acks Uploader.withAcks

/-- What `write_state_record` makes of the schedule. -/
def reschedule (candidate : SegmentCandidate) (f : Write → SyncState → SyncState) :
    Uploading serde Unit :=
  (ensureLedgerDir serde candidate).bind fun _ =>
  call fun m u => ((), { u with schedule := f m.write u.schedule })

/-- `remove_segment_ledger_dir`. -/
def removeSegmentLedgerDir (candidate : SegmentCandidate) : Uploading serde Unit :=
  (effect fun u =>
    { u with acks := Function.update u.acks (ackPath ledgerRoot candidate) none }).bind fun _ =>
  (effect fun u => { u with schedule := u.schedule.step (.forget candidate) }).bind fun _ =>
  effect fun u =>
    if (u.acks (ackPath ledgerRoot candidate)).isSome || (u.schedule.ledger candidate).isSome then u
    else { u with ledgered := u.ledgered.filter (· ≠ candidate) }

/-- `prune_ledger_dirs`. -/
def pruneLedgerDirs (active : List SegmentCandidate) : Uploading serde Unit :=
  (look fun _ u => u.ledgered.filter (· ∉ active)).bind fun stale =>
  forEach stale (removeSegmentLedgerDir serde ledgerRoot)

/-! ## Deletions -/

/-- `remove_empty_segment_directory`. -/
def removeEmptySegmentDirectory (candidate : SegmentCandidate) : Uploading serde RemovalResult :=
  call fun m u => match u.tree.above candidate, u.tree.segmentAt candidate with
    | .missing, _ => (.absent, u)
    | .found, some entries =>
      if !entries.isEmpty then (.refused, u)
      else if m.works then
        (.removed, { u with tree := u.tree.withStore candidate ⟨none, u.tree.files⟩ })
      else (.failed, u)
    | _, _ => (.refused, u)

/-- What follows a removal: without the segment its ledger goes too. -/
def afterRemoval (candidate : SegmentCandidate) (result : RemovalResult) : Uploading serde Bool :=
  if result = .removed ∨ result = .absent then
    (removeSegmentLedgerDir serde ledgerRoot candidate).bind fun _ => done true
  else done false

/-- `RetentionFence::begin_irreversible`. -/
def beginIrreversible : Uploading serde Bool := look fun m _ => m.works

/-- `delete_empty_segment`. -/
def deleteEmptySegment (candidate : SegmentCandidate) : Uploading serde Bool :=
  (beginIrreversible serde).bind fun permit =>
  if !permit then done false
  else
    (removeEmptySegmentDirectory serde candidate).bind fun result =>
    afterRemoval serde ledgerRoot candidate result

/-- `delete_confirmed_segment`, of the files that the records `files` acknowledge. -/
def deleteConfirmedSegment (candidate : SegmentCandidate) (files : List ParsedDescriptor)
    (expectedIdentities : List FileIdentity) : Uploading serde Bool :=
  (resolve candidate).bind fun resolved =>
  match resolved with
  | .found expectedPaths =>
    (beginIrreversible serde).bind fun permit =>
    if !permit then done false
    else
      (look fun _ u => u.tree.above candidate).bind fun above =>
      ((deleteRevalidatedSegment sha256 (expectedDigests files) above candidate expectedPaths
          expectedIdentities).hosted Moment.others (Moment.removalTurn expectedPaths)
        (Uploader.world candidate) (Uploader.withWorld identity candidate)).bind fun result =>
      afterRemoval serde ledgerRoot candidate result
  | _ => done false

/-- The deletion of a segment whose files are acknowledged. -/
def deleteAcknowledged (candidate : SegmentCandidate) (files : List ParsedDescriptor) :
    Uploading serde Unit :=
  (look fun _ u => u.cachedIdentities candidate).bind fun expectedIdentities =>
  (deleteConfirmedSegment serde sha256 ledgerRoot identity candidate files expectedIdentities).bind
    fun removed =>
  if removed then remember (·.forgetInventory candidate) else done ()

/-! ## The local removals -/

/-- One round of `local_finish`. -/
def finishCandidate (candidate : SegmentCandidate) : Uploading serde Unit :=
  (resolve candidate).bind fun resolved =>
  match resolved with
  | .empty =>
    (remember (·.forgetInventory candidate)).bind fun _ =>
    (deleteEmptySegment serde ledgerRoot candidate).bind fun _ => done ()
  | .found names =>
    (inventoryFor serde sha256 identity candidate names).bind fun inventory =>
    match inventory with
    | none => done ()
    | some inventory =>
      (readAck serde ledgerRoot identity candidate inventory).bind fun ack =>
      match ack with
      | none => done ()
      | some ack => deleteAcknowledged serde sha256 ledgerRoot identity candidate ack.files
  | _ => done ()

/-- The loop of `local_finish`; `false` when a shutdown stopped it. -/
def finishAll : List SegmentCandidate → Uploading serde Bool
  | [] => done true
  | candidate :: candidates =>
    shutdownRequested.bind fun stop =>
    if stop then done false
    else
      (finishCandidate serde sha256 ledgerRoot identity candidate).bind fun _ =>
      finishAll candidates

/-- `SyncScheduler::local_finish`. -/
def localFinish : Uploading serde Bool :=
  scan.bind fun scanned =>
  match scanned with
  | .error _ => done true
  | .ok candidates =>
    (retain candidates).bind fun _ =>
    (pruneLedgerDirs serde ledgerRoot candidates).bind fun _ =>
    finishAll serde sha256 ledgerRoot identity candidates

/-! ## A sweep -/

/-- The schedule of a candidate is read, and it is due or not. A record that cannot be read counts
for none. -/
def dueNow (now : ℤ) (candidate : SegmentCandidate) (inventory : List LocalFile) :
    Uploading serde (Option Due) :=
  look fun m u =>
    let s := if m.works then u.schedule else u.schedule.step (.forget candidate)
    if now < s.nextAttempt now candidate then none
    else some ⟨candidate, inventory, s.readStateRecord candidate⟩

/-- One round of the first loop of `run_sweep`. -/
def lookAt (now : ℤ) (candidate : SegmentCandidate) : Uploading serde (Option Due) :=
  (resolve candidate).bind fun resolved =>
  match resolved with
  | .found names =>
    (inventoryFor serde sha256 identity candidate names).bind fun inventory =>
    match inventory with
    | none => done none
    | some inventory =>
      (readAck serde ledgerRoot identity candidate inventory).bind fun ack =>
      match ack with
      | some _ => done none
      | none => dueNow serde now candidate inventory
  | .invalid => done none
  | _ => (remember (·.forgetInventory candidate)).bind fun _ => done none

/-- The first loop of `run_sweep`: what is due, or `none` when a shutdown stopped it. -/
def lookAtAll (now : ℤ) : List SegmentCandidate → Uploading serde (Option (List Due))
  | [] => done (some [])
  | candidate :: candidates =>
    shutdownRequested.bind fun stop =>
    if stop then done none
    else
      (lookAt serde sha256 ledgerRoot identity now candidate).bind fun due =>
      (lookAtAll now candidates).bind fun rest => done (rest.map (due.toList ++ ·))

/-- The upload of a candidate: its answer, unless a shutdown stopped it. -/
def ask (due : Due) : Uploading serde (Option UploadAnswer) :=
  call fun m u =>
    if m.shutdown then (none, u)
    else
      (some m.answer,
        { u with
          log := u.log ++ [.answered identity due.candidate due.files m.answer u.tree] })

/-- What follows an answer that acknowledges the files. -/
def acknowledge (candidate : SegmentCandidate) (storedKey : Str) (files : List ParsedDescriptor) :
    Uploading serde Unit :=
  (writeAck serde ledgerRoot identity candidate storedKey files).bind fun written =>
  match written with
  | .error _ => done ()
  | .ok _ =>
    (reschedule serde candidate fun write s =>
      let s := s.writeStateRecord candidate .default write
      { s with
        floors := Function.update s.floors candidate none
        recorded := Function.update s.recorded candidate none }).bind fun _ =>
    deleteAcknowledged serde sha256 ledgerRoot identity candidate files

/-- What follows an answer that does not: the next attempt. -/
def putOff (now : ℤ) (due : Due) (answer : UploadAnswer) : Uploading serde Unit :=
  reschedule serde due.candidate fun write s =>
    (s.upload now due ⟨answer, write, false, .done, false⟩).getD s

/-- One round of the second loop of `run_sweep`; `false` ends the sweep. -/
def upload (now : ℤ) (due : Due) : Uploading serde Bool :=
  (ask serde identity due).bind fun answered =>
  match answered with
  | none | some .endSweep => done false
  | some (.retain answer) => (putOff serde now due (.retain answer)).bind fun _ => done true
  | some .removed =>
    (acknowledge serde sha256 ledgerRoot identity due.candidate due.candidate.segment
      (due.files.map LocalFile.asAcknowledged)).bind fun _ => done true
  | some (.result result) =>
    match assessReceipt result due.files with
    | .valid acks =>
      (acknowledge serde sha256 ledgerRoot identity due.candidate
        (result.authoritativeKey.getD due.candidate.segment) acks).bind fun _ => done true
    | _ => (putOff serde now due (.result result)).bind fun _ => done true

/-- The second loop of `run_sweep`. -/
def uploadAll (now : ℤ) : List Due → Uploading serde Unit
  | [] => done ()
  | due :: dues =>
    shutdownRequested.bind fun stop =>
    if stop then done ()
    else
      (upload serde sha256 ledgerRoot identity now due).bind fun goesOn =>
      if goesOn then uploadAll now dues else done ()

/-- `SyncScheduler::run_sweep`. -/
def runSweep (now : ℤ) : Uploading serde Unit :=
  (localFinish serde sha256 ledgerRoot identity).bind fun finished =>
  if !finished then done ()
  else
    scan.bind fun scanned =>
    match scanned with
    | .error _ => done ()
    | .ok candidates =>
      (retain candidates).bind fun _ =>
      (lookAtAll serde sha256 ledgerRoot identity now candidates).bind fun dues =>
      match dues with
      | none => done ()
      | some dues => uploadAll serde sha256 ledgerRoot identity now dues

end Uploading

/-! ## Runs -/

namespace Uploader

/-- A start with captures, for a journal, with an empty ledger. -/
def start (tree : LocalTree) (identity : JournalIdentity) : Uploader where
  tree := tree
  acks := fun _ => none
  ledgered := []
  schedule := .start identity fun _ => none
  inventories := fun _ => none
  log := []

/-- A new scheduler. -/
def restarted (identity : JournalIdentity) (u : Uploader) : Uploader :=
  { u with
    schedule := u.schedule.step (.restart identity)
    inventories := fun _ => none }

/-- What a run leaves: where the process ended, its scheduler is gone. -/
def settle {α : Type} : Ended Empty α × Uploader → Uploader
  | (.done _, u) => u
  | (.raised _, u) => u
  | (.killed, u) => u.restarted u.schedule.identity

/-- What happens to the captures and the uploader. -/
inductive Step (serde : Serde)
  | sweep (now : ℤ) (moments : List (Moment serde))
  | localFinish (moments : List (Moment serde))
  | edit (f : LocalTree → LocalTree)
  | restart (identity : JournalIdentity)

section Runs

variable (serde : Serde) (sha256 : Bytes → Str) (ledgerRoot : Bytes)

/-- One step. -/
def step (u : Uploader) : Step serde → Uploader
  | .sweep now moments =>
    settle (run moments (Uploading.runSweep serde sha256 ledgerRoot u.schedule.identity now) u)
  | .localFinish moments =>
    settle (run moments (Uploading.localFinish serde sha256 ledgerRoot u.schedule.identity) u)
  | .edit f => { u with tree := f u.tree }
  | .restart identity => u.restarted identity

/-- A run. -/
def after (u : Uploader) (steps : List (Step serde)) : Uploader :=
  steps.foldl (step serde sha256 ledgerRoot) u

end Runs

end Uploader

end SolstoneTmux
