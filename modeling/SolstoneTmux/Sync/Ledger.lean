import SolstoneTmux.Sync.Receipt
import SolstoneTmux.NamePath
import SolstoneTmux.Foundations.Program
import Mathlib.Logic.Function.Basic

/-!
# The ledger of acknowledgements

`writeAckRecord` keeps a valid receipt in the ledger, one file for each candidate, and
`readAckRecord` takes it back for the same candidate and journal as long as every local file is
still one of those that were acknowledged.

`receipts_exact` puts both halves together: which answers of a journal are receipts, and for which
files, journals and places a receipt is found again.
-/

namespace SolstoneTmux

open Foundations Foundations.Prog

/-- `AckRecord`. -/
structure AckRecord where
  location : Str
  day : Str
  stream : Str
  segment : Str
  storedKey : Str
  instanceId : Str
  caFpPrefixHex : Str
  pairingGenerationHex : Str
  proof : Str
  files : List ParsedDescriptor
  deriving DecidableEq

/-- What `serde_json` does for these types: `from_slice` of each, and `to_vec_pretty`. -/
structure Serde where
  uploadResponse : Bytes → Option UploadResponse
  ackRecord : Bytes → Option AckRecord
  ackBytes : AckRecord → Bytes

/-- The regular files of the ledger, by their paths. -/
abbrev Ledger := Bytes → Option Bytes

/-- `candidate_ledger_dir`. -/
def candidateLedgerDir (ledgerRoot : Bytes) (candidate : SegmentCandidate) : Bytes :=
  joinPath (joinPath (joinPath ledgerRoot (utf8 candidate.day)) (utf8 candidate.stream))
    (utf8 candidate.segment)

/-- The file of a candidate's receipt. -/
def ackPath (ledgerRoot : Bytes) (candidate : SegmentCandidate) : Bytes :=
  joinPath (candidateLedgerDir ledgerRoot candidate) (utf8 "ack.json".toList)

/-! ## Reading -/

section Calls

variable {ε : Type}

/-- Opening and reading a file. -/
def readLedger (path : Bytes) : Prog Ledger Turn ε (Except IoKind Bytes) :=
  query fun ledger => match ledger path with
    | some bytes => .ok bytes
    | none => .error .notFound

/-- `fs::remove_file`. -/
def removeLedger (path : Bytes) : Prog Ledger Turn ε (Except IoKind Unit) :=
  atomic fun ledger => match ledger path with
    | some _ => (.ok (), Function.update ledger path none)
    | none => (.error .notFound, ledger)

/-- The rename of a temporary file over a file of the ledger. -/
def replaceLedger (path bytes : Bytes) : Prog Ledger Turn ε (Except IoKind Unit) :=
  atomic fun ledger => (.ok (), Function.update ledger path (some bytes))

end Calls

/-- The acknowledged file of a name. Of two files with one name the map keeps the later one. -/
def ackBySubmitted (files : List ParsedDescriptor) (name : Str) : Option ParsedDescriptor :=
  files.reverse.find? fun file => file.submitted = name

/-- A local file is still as it was acknowledged. -/
def ackCovers (files : List ParsedDescriptor) (file : LocalFile) : Bool :=
  match ackBySubmitted files file.name with
  | some ack =>
    (ack.disposition = "written".toList || ack.disposition = "already_held".toList) &&
      ack.size = file.size && ack.sha256 = file.sha256
  | none => false

/-- A receipt is for another candidate or from another journal. -/
def AckRecord.isForeign (ack : AckRecord) (candidate : SegmentCandidate)
    (identity : JournalIdentity) : Bool :=
  ack.proof ≠ "upload".toList || ack.day ≠ candidate.day || ack.stream ≠ candidate.stream ||
    ack.segment ≠ candidate.segment || ack.instanceId ≠ identity.instanceId ||
    ack.caFpPrefixHex ≠ identity.caFpPrefixHex ||
    ack.pairingGenerationHex ≠ identity.pairingGenerationHex

/-- `read_ack_record`. -/
def readAckRecord (serde : Serde) (ledgerRoot : Bytes) (candidate : SegmentCandidate)
    (identity : JournalIdentity) (localFiles : List LocalFile) :
    Prog Ledger Turn Empty (Option AckRecord) :=
  let path := ackPath ledgerRoot candidate
  (readLedger path).bind fun
    | .error _ => done none
    | .ok bytes =>
      match serde.ackRecord bytes, fromUtf8 path with
      | some ack, some expectedLocation =>
        if ack.location ≠ expectedLocation then done none
        else if ack.isForeign candidate identity then done none
        else if ¬ (ack.files.map ParsedDescriptor.submitted).Nodup then
          (removeLedger path).bind fun _ => done none
        else if !localFiles.all (ackCovers ack.files) then
          (removeLedger path).bind fun _ => done none
        else done (some ack)
      | _, _ => done none

/-! ## Writing -/

/-- The record of a receipt. -/
def ackRecordOf (location : Str) (candidate : SegmentCandidate) (identity : JournalIdentity)
    (storedKey : Str) (files : List ParsedDescriptor) : AckRecord where
  location := location
  day := candidate.day
  stream := candidate.stream
  segment := candidate.segment
  storedKey := storedKey
  instanceId := identity.instanceId
  caFpPrefixHex := identity.caFpPrefixHex
  pairingGenerationHex := identity.pairingGenerationHex
  proof := "upload".toList
  files := files

/-- A call of `write_ack_record`, whose error says nothing. -/
def orUnit {α : Type} (p : Prog Ledger Turn Unit (Except IoKind α)) : Prog Ledger Turn Unit α :=
  p.bind (orRaise fun _ => ())

/-- `write_ack_record`. The first barrier makes the directory, the second stands for the temporary
file of the atomic write and the last for its flush. -/
def writeAckRecord (serde : Serde) (ledgerRoot : Bytes) (candidate : SegmentCandidate)
    (identity : JournalIdentity) (storedKey : Str) (files : List ParsedDescriptor) :
    Prog Ledger Turn Unit Unit :=
  let path := ackPath ledgerRoot candidate
  (orUnit barrier).bind fun _ =>
  match fromUtf8 path with
  | none => raise ()
  | some location =>
    let bytes := serde.ackBytes (ackRecordOf location candidate identity storedKey files)
    (orUnit barrier).bind fun _ =>
    (orUnit (replaceLedger path bytes)).bind fun _ =>
    orUnit barrier

/-! ## What is found again -/

section Found

variable {serde : Serde} {localFiles inventory : List LocalFile} {acks : List ParsedDescriptor}
  {ledgerRoot : Bytes} {candidate : SegmentCandidate} {identity : JournalIdentity}
  {storedKey location : Str} {ledger ledger' : Ledger} {ts : List Turn}

theorem LocalFile.fileKey_injective : Function.Injective LocalFile.fileKey := by
  rintro ⟨name, size, sha256⟩ ⟨name', size', sha256'⟩ h
  obtain ⟨rfl, hrest⟩ := Prod.mk.inj h
  obtain ⟨rfl, rfl⟩ := Prod.mk.inj hrest
  rfl

/-- **Which files a receipt covers.** They are those that were acknowledged. -/
theorem Acknowledges.ackCovers_iff {result : UploadResult}
    (distinct : (localFiles.map LocalFile.name).Nodup) (h : Acknowledges result localFiles acks)
    (file : LocalFile) : ackCovers acks file = true ↔ file ∈ localFiles := by
  have hnodup : (acks.map ParsedDescriptor.submitted).Nodup := h.nodup_submitted distinct
  constructor
  · intro hcovers
    unfold ackCovers at hcovers
    split at hcovers
    · rename_i ack hack
      have hmem : ack ∈ acks := List.mem_reverse.mp (List.mem_of_find?_eq_some hack)
      have hname : ack.submitted = file.name := by simpa using List.find?_some hack
      simp only [Bool.and_eq_true, decide_eq_true_eq] at hcovers
      obtain ⟨other, hother, hkey⟩ := List.mem_map.mp (h.files.subset (List.mem_map_of_mem hmem))
      have hsame : other = file :=
        LocalFile.fileKey_injective (hkey.trans (fileKey_eq hname.symm hcovers.1.2 hcovers.2))
      exact hsame ▸ hother
    · cases hcovers
  · intro hmem
    obtain ⟨ack, hack, hkey⟩ := List.mem_map.mp (h.files.symm.subset (List.mem_map_of_mem hmem))
    obtain ⟨hname, hrest⟩ := Prod.mk.inj hkey
    obtain ⟨hsize, hsha⟩ := Prod.mk.inj hrest
    have hfound : ackBySubmitted acks file.name = some ack :=
      (find_reverse_eq_some hnodup).mpr ⟨hack, hname⟩
    rw [ackCovers, hfound]
    rcases h.held ack hack with hd | hd <;> simp [hd, hsize, hsha]

/-- A record that was written is in the ledger, under its location. -/
theorem written_of_run
    (hrun : run ts (writeAckRecord serde ledgerRoot candidate identity storedKey acks) ledger =
      (.done (), ledger')) : ∃ location, fromUtf8 (ackPath ledgerRoot candidate) = some location ∧
        ledger' (ackPath ledgerRoot candidate) =
          some (serde.ackBytes (ackRecordOf location candidate identity storedKey acks)) := by
  have hwp : wp anyTurn (writeAckRecord serde ledgerRoot candidate identity storedKey acks)
      (endsIn (fun _ => True) fun _ ledger' => ∃ location,
        fromUtf8 (ackPath ledgerRoot candidate) = some location ∧
          ledger' (ackPath ledgerRoot candidate) =
            some (serde.ackBytes (ackRecordOf location candidate identity storedKey acks)))
      ledger := by
    unfold writeAckRecord
    refine wp_then (fun _ ledger => ?_) (fun _ _ => trivial) (fun _ => trivial) _
    split
    · trivial
    rename_i location hlocation
    refine wp_then (fun _ ledger => ?_) (fun _ _ => trivial) (fun _ => trivial) _
    rw [wp_bind, orUnit, replaceLedger, wp_bind]
    refine wp_atomic ?_ (fun _ => trivial) fun _ => trivial
    rw [andThen_done, orRaise_ok, wp_done, andThen_done, orUnit, barrier, wp_bind]
    refine wp_query ?_ (fun _ => trivial) fun _ => trivial
    exact ⟨location, hlocation, Function.update_self _ _ _⟩
  exact wp_run_eq hrun hwp trivial fun _ _ => trivial

/-- A record that is found passed every check. -/
theorem found_of_run {ack : AckRecord}
    (hrun : run ts (readAckRecord serde ledgerRoot candidate identity inventory) ledger =
      (.done (some ack), ledger')) : ∃ bytes, ledger (ackPath ledgerRoot candidate) = some bytes ∧
        serde.ackRecord bytes = some ack ∧
        fromUtf8 (ackPath ledgerRoot candidate) = some ack.location ∧
        ack.isForeign candidate identity = false ∧
        ∀ file ∈ inventory, ackCovers ack.files file = true := by
  have hwp : wp anyTurn (readAckRecord serde ledgerRoot candidate identity inventory)
      (endsIn (fun _ => True) fun found _ => ∀ ack, found = some ack → ∃ bytes,
        ledger (ackPath ledgerRoot candidate) = some bytes ∧ serde.ackRecord bytes = some ack ∧
        fromUtf8 (ackPath ledgerRoot candidate) = some ack.location ∧
        ack.isForeign candidate identity = false ∧
        ∀ file ∈ inventory, ackCovers ack.files file = true) ledger := by
    unfold readAckRecord
    dsimp only
    rw [readLedger, wp_bind]
    refine wp_query ?_ (fun _ _ h => by cases h) fun _ => trivial
    rw [andThen_done]
    split
    · exact fun _ h => by cases h
    rename_i bytes hbytes
    split
    · rename_i ack expected hack hexpected
      split
      · exact fun _ h => by cases h
      rename_i hlocation
      split
      · exact fun _ h => by cases h
      rename_i hforeign
      split
      · refine wp_then (fun _ _ => ?_) (fun _ _ => trivial) (fun _ => trivial) _
        exact fun _ h => by cases h
      split
      · refine wp_then (fun _ _ => ?_) (fun _ _ => trivial) (fun _ => trivial) _
        exact fun _ h => by cases h
      rename_i hcovers
      intro found hfound
      cases hfound
      refine ⟨bytes, ?_, hack, ?_, by simpa using hforeign, ?_⟩
      · split at hbytes
        · rename_i content hcontent
          cases hbytes
          exact hcontent
        · cases hbytes
      · rw [hexpected, not_not.mp hlocation]
      · simpa using hcovers
    · exact fun _ h => by cases h
  exact wp_run_eq hrun hwp trivial (fun _ _ => trivial) ack rfl

/-- A record that passes every check is found, where every call works. -/
theorem run_readAckRecord {ack : AckRecord} {bytes : Bytes}
    (hbytes : ledger (ackPath ledgerRoot candidate) = some bytes)
    (hack : serde.ackRecord bytes = some ack)
    (hlocation : fromUtf8 (ackPath ledgerRoot candidate) = some ack.location)
    (hforeign : ack.isForeign candidate identity = false)
    (hnodup : (ack.files.map ParsedDescriptor.submitted).Nodup)
    (hcovers : ∀ file ∈ inventory, ackCovers ack.files file = true) :
    run [] (readAckRecord serde ledgerRoot candidate identity inventory) ledger =
      (.done (some ack), ledger) := by
  have hall : ¬ ∃ file ∈ inventory, ackCovers ack.files file = false := by
    rintro ⟨file, hfile, hnot⟩
    rw [hcovers file hfile] at hnot
    cases hnot
  simp [readAckRecord, readLedger, hbytes, hack, hlocation, hforeign, hnodup, hall]

theorem isForeign_ackRecordOf :
    (ackRecordOf location candidate identity storedKey acks).isForeign candidate identity =
      false := by
  simp [AckRecord.isForeign, ackRecordOf]

theorem eq_of_not_isForeign {candidate' : SegmentCandidate} {identity' : JournalIdentity}
    (h : (ackRecordOf location candidate identity storedKey acks).isForeign candidate' identity' =
      false) : candidate' = candidate ∧ identity' = identity := by
  obtain ⟨day, stream, segment⟩ := candidate
  obtain ⟨instanceId, caFpPrefixHex, pairingGenerationHex⟩ := identity
  simp only [AckRecord.isForeign, ackRecordOf, Bool.or_eq_false_iff] at h
  obtain ⟨⟨⟨⟨⟨⟨-, hday⟩, hstream⟩, hsegment⟩, hinstance⟩, hca⟩, hpairing⟩ := h
  obtain rfl := not_not.mp (of_decide_eq_false hday)
  obtain rfl := not_not.mp (of_decide_eq_false hstream)
  obtain rfl := not_not.mp (of_decide_eq_false hsegment)
  obtain rfl := not_not.mp (of_decide_eq_false hinstance)
  obtain rfl := not_not.mp (of_decide_eq_false hca)
  obtain rfl := not_not.mp (of_decide_eq_false hpairing)
  exact ⟨rfl, rfl⟩

/-- A receipt is found again for the files it is for, and for nothing else: not when a file was added
or changed, and not elsewhere, even if its file is copied there. -/
structure Recalled (serde : Serde) (ledgerRoot : Bytes) (candidate : SegmentCandidate)
    (identity : JournalIdentity) (localFiles : List LocalFile) (acks : List ParsedDescriptor)
    (ledger : Ledger) : Prop where
  found : ∀ inventory, (∀ file ∈ inventory, file ∈ localFiles) → ∃ ack,
    run [] (readAckRecord serde ledgerRoot candidate identity inventory) ledger =
      (.done (some ack), ledger) ∧ ack.files = acks
  changed : ∀ inventory, (∃ file ∈ inventory, file ∉ localFiles) → ∀ (ts : List Turn) ack ledger',
    run ts (readAckRecord serde ledgerRoot candidate identity inventory) ledger ≠
      (.done (some ack), ledger')
  elsewhere : ∀ ledgerRoot' candidate' identity',
    (identity' ≠ identity ∨ candidate' ≠ candidate ∨
      ackPath ledgerRoot' candidate' ≠ ackPath ledgerRoot candidate) → ∀ other : Ledger,
    (other (ackPath ledgerRoot' candidate') = none ∨
      other (ackPath ledgerRoot' candidate') = ledger (ackPath ledgerRoot candidate)) →
    ∀ inventory (ts : List Turn) ack ledger',
      run ts (readAckRecord serde ledgerRoot' candidate' identity' inventory) other ≠
        (.done (some ack), ledger')

theorem recalled_of_run {result : UploadResult}
    (distinct : (localFiles.map LocalFile.name).Nodup) (h : Acknowledges result localFiles acks)
    (roundTrip : ∀ location, fromUtf8 (ackPath ledgerRoot candidate) = some location →
      serde.ackRecord (serde.ackBytes (ackRecordOf location candidate identity storedKey acks)) =
        some (ackRecordOf location candidate identity storedKey acks))
    (hrun : run ts (writeAckRecord serde ledgerRoot candidate identity storedKey acks) ledger =
      (.done (), ledger')) :
    Recalled serde ledgerRoot candidate identity localFiles acks ledger' := by
  obtain ⟨location, hlocation, hbytes⟩ := written_of_run hrun
  have hread := roundTrip location hlocation
  have hcovers := h.ackCovers_iff distinct
  refine ⟨fun inventory hall => ?_, ?_, ?_⟩
  · exact ⟨_, run_readAckRecord hbytes hread hlocation isForeign_ackRecordOf
      (h.nodup_submitted distinct) fun file hfile => (hcovers file).mpr (hall file hfile), rfl⟩
  · rintro inventory ⟨file, hfile, hchanged⟩ ts ack l hfound
    obtain ⟨bytes, hbytes', hack, -, -, hall⟩ := found_of_run hfound
    rw [hbytes, Option.some.injEq] at hbytes'
    rw [← hbytes', hread, Option.some.injEq] at hack
    rw [← hack] at hall
    exact hchanged ((hcovers file).mp (hall file hfile))
  · intro ledgerRoot' candidate' identity' hother other hcopied inventory ts ack l hfound
    obtain ⟨bytes, hbytes', hack, hlocation', hforeign, -⟩ := found_of_run hfound
    rcases hcopied with hnone | hsame
    · rw [hnone] at hbytes'
      cases hbytes'
    · rw [hsame, hbytes, Option.some.injEq] at hbytes'
      rw [← hbytes', hread, Option.some.injEq] at hack
      rw [← hack] at hforeign hlocation'
      obtain ⟨rfl, rfl⟩ := eq_of_not_isForeign hforeign
      have hpath : ackPath ledgerRoot' candidate' = ackPath ledgerRoot candidate' :=
        (utf8_of_fromUtf8 hlocation').symm.trans (utf8_of_fromUtf8 hlocation)
      rcases hother with hne | hne | hne
      · exact hne rfl
      · exact hne rfl
      · exact hne hpath

/-- **Receipts are exact, and the ledger keeps them.** An answer of the journal is a receipt exactly
when its descriptors are those of the local files, one for each. A receipt that was written to the
ledger is found again exactly for these files, this candidate, this journal and this place. -/
theorem receipts_exact {body : Bytes} {result : UploadResult}
    (distinct : (localFiles.map LocalFile.name).Nodup)
    (decoded : decodeUploadResponse serde.uploadResponse body = some result) :
    (∀ acks, assessReceipt result localFiles = .valid acks ↔ Acknowledges result localFiles acks) ∧
      ∀ acks, assessReceipt result localFiles = .valid acks →
        ∀ ledgerRoot candidate identity storedKey,
          (∀ location, fromUtf8 (ackPath ledgerRoot candidate) = some location →
            serde.ackRecord (serde.ackBytes
              (ackRecordOf location candidate identity storedKey acks)) =
                some (ackRecordOf location candidate identity storedKey acks)) →
        ∀ (ts : List Turn) ledger ledger',
          run ts (writeAckRecord serde ledgerRoot candidate identity storedKey acks) ledger =
            (.done (), ledger') →
          Recalled serde ledgerRoot candidate identity localFiles acks ledger' := by
  have hvalid : ∀ acks, assessReceipt result localFiles = .valid acks ↔
      Acknowledges result localFiles acks :=
    fun _ => assessReceipt_valid_iff distinct fun _ => disposition_of_decode decoded
  refine ⟨hvalid, fun acks hacks ledgerRoot candidate identity storedKey hroundTrip ts ledger ledger'
    hrun => ?_⟩
  exact recalled_of_run distinct ((hvalid acks).mp hacks) hroundTrip hrun

end Found

/-! ## A receipt of one file -/

/-- The answer to the upload of one file of activity. -/
def oneFileBody : Bytes := utf8 (String.join
  ["\x7b\"status\":\"ok\",\"segment\":\"120000_300\",\"file_descriptors\":[\x7b\"submitted\":",
    "\"120000_desktop_activity.jsonl\",\"written\":\"120000_desktop_activity.jsonl\",\"size\":1,",
    "\"sha256\":\"0000000000000000000000000000000000000000000000000000000000000000\",",
    "\"disposition\":\"written\"\x7d]\x7d"]).toList

/-- That file. -/
def oneFile : LocalFile where
  name := "120000_desktop_activity.jsonl".toList
  size := 1
  sha256 := List.replicate 64 '0'

/-- Its descriptor. -/
def oneFileAck : ParsedDescriptor where
  submitted := "120000_desktop_activity.jsonl".toList
  written := "120000_desktop_activity.jsonl".toList
  size := 1
  sha256 := List.replicate 64 '0'
  disposition := "written".toList

/-- The value of that answer. -/
def oneFileResponse : UploadResponse where
  status := .ok
  segment := some "120000_300".toList
  existingSegment := none
  fileDescriptors := some (.array [.object
    [("submitted".toList, .string "120000_desktop_activity.jsonl".toList),
      ("written".toList, .string "120000_desktop_activity.jsonl".toList),
      ("size".toList, .number ['1']), ("sha256".toList, .string (List.replicate 64 '0')),
      ("disposition".toList, .string "written".toList)]])

/-- The root of the ledger. -/
def oneFileRoot : Bytes := utf8 "/ledger".toList

/-- The candidate of that file. -/
def oneFileCandidate : SegmentCandidate :=
  ⟨"20260701".toList, "main".toList, "120000_300".toList⟩

/-- Its receipt. -/
def oneFileRecord : AckRecord :=
  ackRecordOf "/ledger/20260701/main/120000_300/ack.json".toList oneFileCandidate
    ⟨"journal".toList, "ca".toList, "1".toList⟩ "120000_300".toList [oneFileAck]

/-- The text of that receipt. -/
def oneFileText : Bytes := utf8 (String.intercalate "\n"
  ["\x7b", "  \"location\": \"/ledger/20260701/main/120000_300/ack.json\",",
    "  \"day\": \"20260701\",", "  \"stream\": \"main\",", "  \"segment\": \"120000_300\",",
    "  \"stored_key\": \"120000_300\",", "  \"instance_id\": \"journal\",",
    "  \"ca_fp_prefix_hex\": \"ca\",", "  \"pairing_generation_hex\": \"1\",",
    "  \"proof\": \"upload\",", "  \"files\": [", "    \x7b",
    "      \"submitted\": \"120000_desktop_activity.jsonl\",",
    "      \"written\": \"120000_desktop_activity.jsonl\",", "      \"size\": 1,",
    "      \"sha256\": \"0000000000000000000000000000000000000000000000000000000000000000\",",
    "      \"disposition\": \"written\"", "    \x7d", "  ]", "\x7d"]).toList

/-- What `serde_json` does to both texts. -/
def oneFileSerde : Serde where
  uploadResponse := fun bytes => if bytes = oneFileBody then some oneFileResponse else none
  ackRecord := fun bytes => if bytes = oneFileText then some oneFileRecord else none
  ackBytes := fun _ => oneFileText

/-- The receipt of one file is found again. -/
theorem receipts_exact_oneFile : ∃ ledger, Recalled oneFileSerde oneFileRoot
    oneFileCandidate ⟨"journal".toList, "ca".toList, "1".toList⟩ [oneFile] [oneFileAck] ledger := by
  have hresponse : oneFileSerde.uploadResponse oneFileBody = some oneFileResponse := by
    simp [oneFileSerde]
  have hdecoded : decodeUploadResponse oneFileSerde.uploadResponse oneFileBody =
      some ⟨.ok, some "120000_300".toList, some (.ok [oneFileAck])⟩ := by
    rw [decodeUploadResponse, hresponse]
    rfl
  have hpath : ackPath oneFileRoot oneFileCandidate =
      utf8 "/ledger/20260701/main/120000_300/ack.json".toList := by decide +kernel
  have hlocation : fromUtf8 (ackPath oneFileRoot oneFileCandidate) =
      some "/ledger/20260701/main/120000_300/ack.json".toList := by
    rw [hpath, fromUtf8_utf8]
  have hdistinct : ([oneFile].map LocalFile.name).Nodup := List.nodup_singleton _
  have hvalid : assessReceipt ⟨.ok, some "120000_300".toList, some (.ok [oneFileAck])⟩ [oneFile] =
      .valid [oneFileAck] := rfl
  have hrun : run [] (writeAckRecord oneFileSerde oneFileRoot oneFileCandidate
      ⟨"journal".toList, "ca".toList, "1".toList⟩ "120000_300".toList [oneFileAck])
        (fun _ => none) = (.done (), Function.update (fun _ => none)
          (ackPath oneFileRoot oneFileCandidate) (some oneFileText)) := by
    simp [writeAckRecord, orUnit, replaceLedger, hlocation, oneFileSerde]
  refine ⟨_, (receipts_exact hdistinct hdecoded).2 _ hvalid _ _ _ _ (fun location h => ?_) _ _ _
    hrun⟩
  obtain rfl := Option.some.inj (hlocation.symm.trans h)
  simp [oneFileSerde, oneFileRecord]

end SolstoneTmux
