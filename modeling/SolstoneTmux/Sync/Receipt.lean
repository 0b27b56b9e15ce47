import SolstoneTmux.Sync.Candidate
import SolstoneTmux.Time
import SolstoneTmux.Foundations.JsonText

/-!
# Receipts

`decodeUploadResponse` reads what the journal answers to an upload, and `assessReceipt` compares it
with the local files: the upload is acknowledged when its descriptors are those of the files
(`Receipt.valid`). `assessReceipt_valid_iff` says exactly when.
-/

namespace SolstoneTmux

open Foundations

/-- `JournalIdentity`. -/
structure JournalIdentity where
  instanceId : Str
  caFpPrefixHex : Str
  pairingGenerationHex : Str
  deriving DecidableEq

/-- `UploadStatus`. -/
inductive UploadStatus
  | ok
  | duplicate
  | collision
  | conflict
  | failed
  deriving DecidableEq

/-- `ReceiptFault`. -/
inductive ReceiptFault
  | descriptorsAbsent
  | malformedDescriptor
  | duplicateSubmitted
  | missingDescriptor
  | extraDescriptor
  | sha256Mismatch
  | sha256Encoding
  | sizeMismatch
  | unknownDisposition
  | missingDisposition
  | receivedNotWritten
  | uploadNotAcknowledged
  deriving DecidableEq

/-- `ReceiptFault::as_str`. -/
def ReceiptFault.asStr : ReceiptFault → Str
  | descriptorsAbsent => "descriptors_absent".toList
  | malformedDescriptor => "malformed_descriptor".toList
  | duplicateSubmitted => "duplicate_submitted".toList
  | missingDescriptor => "missing_descriptor".toList
  | extraDescriptor => "extra_descriptor".toList
  | sha256Mismatch => "sha256_mismatch".toList
  | sha256Encoding => "sha256_encoding".toList
  | sizeMismatch => "size_mismatch".toList
  | unknownDisposition => "unknown_disposition".toList
  | missingDisposition => "missing_disposition".toList
  | receivedNotWritten => "received_not_written".toList
  | uploadNotAcknowledged => "upload_not_acknowledged".toList

/-- `ParsedDescriptor`, and the same data of an `AcknowledgedFile`. -/
structure ParsedDescriptor where
  submitted : Str
  written : Str
  size : ℕ
  sha256 : Str
  disposition : Str
  deriving DecidableEq

/-- `UploadResult`. -/
structure UploadResult where
  status : UploadStatus
  authoritativeKey : Option Str
  descriptors : Option (Except ReceiptFault (List ParsedDescriptor))

/-- `Receipt`. -/
inductive Receipt
  | valid (files : List ParsedDescriptor)
  | invalid (fault : ReceiptFault)
  | absent

/-- The local file of a name. Of two files with one name the map keeps the later one. -/
def localByName (localFiles : List LocalFile) (name : Str) : Option LocalFile :=
  localFiles.reverse.find? fun file => file.name = name

/-- The last loop of `assess_receipt`: the first descriptor that does not fit its file. -/
def mismatch (localFiles : List LocalFile) : List ParsedDescriptor → Option ReceiptFault
  | [] => none
  | d :: ds =>
    match localByName localFiles d.submitted with
    | none => mismatch localFiles ds
    | some file =>
      if d.size ≠ file.size then some .sizeMismatch
      else if d.sha256 ≠ file.sha256 then some .sha256Mismatch
      else mismatch localFiles ds

/-- `assess_receipt`. -/
def assessReceipt (result : UploadResult) (localFiles : List LocalFile) : Receipt :=
  if result.status = .conflict ∨ result.status = .failed then .invalid .uploadNotAcknowledged
  else
    match result.descriptors with
    | none => .absent
    | some (.error fault) => .invalid fault
    | some (.ok descriptors) =>
      if ¬ (descriptors.map ParsedDescriptor.submitted).Nodup then .invalid .duplicateSubmitted
      else if descriptors.any fun d => d.disposition = "received_not_written".toList then
        .invalid .receivedNotWritten
      else if localFiles.length < descriptors.length then .invalid .extraDescriptor
      else if descriptors.length < localFiles.length then .invalid .missingDescriptor
      else if descriptors.any fun d => (localByName localFiles d.submitted).isNone then
        .invalid .extraDescriptor
      else if localFiles.any fun file =>
          !(descriptors.map ParsedDescriptor.submitted).contains file.name then
        .invalid .missingDescriptor
      else
        match mismatch localFiles descriptors with
        | some fault => .invalid fault
        | none => .valid descriptors

/-! ## Decoding -/

/-- `UploadResponse`. -/
structure UploadResponse where
  status : UploadStatus
  segment : Option Str
  existingSegment : Option Str
  fileDescriptors : Option JsonValue

/-- `Value::as_u64`. -/
def asU64 (value : JsonValue) : Option ℕ := value.asNat.filter fun n => n ≤ u64Max

/-- `char::is_ascii_hexdigit`. -/
def isAsciiHexdigit (c : Char) : Bool := isHexDigit c || (65 ≤ c.toNat && c.toNat ≤ 70)

/-- `char::is_ascii_uppercase`. -/
def isAsciiUppercase (c : Char) : Bool := 65 ≤ c.toNat && c.toNat ≤ 90

/-- The value of a key of a descriptor, of the type that is read. -/
def descriptorField {α : Type} (item : JsonValue) (key : String)
    (read : JsonValue → Option α) : Except ReceiptFault α :=
  match (item.get key.toList).bind read with
  | none => .error .malformedDescriptor
  | some value => .ok value

/-- The dispositions that the journal may answer. -/
def dispositions : List Str :=
  ["written".toList, "already_held".toList, "received_not_written".toList]

/-- The disposition of a descriptor. -/
def parseDisposition (item : JsonValue) : Except ReceiptFault Str :=
  match item.get "disposition".toList with
  | none => .error .missingDisposition
  | some value =>
    match value.asString with
    | none => .error .malformedDescriptor
    | some disposition =>
      if disposition ∈ dispositions then .ok disposition else .error .unknownDisposition

/-- The digest of a descriptor. -/
def parseSha256 (item : JsonValue) : Except ReceiptFault Str :=
  (descriptorField item "sha256" JsonValue.asString).bind fun sha256 =>
    if (utf8 sha256).length ≠ 64 || !sha256.all isAsciiHexdigit then .error .malformedDescriptor
    else if sha256.any isAsciiUppercase then .error .sha256Encoding
    else .ok sha256

/-- One round of the loop of `parse_descriptor_shape`. -/
def parseDescriptor (item : JsonValue) : Except ReceiptFault ParsedDescriptor := do
  let submitted ← descriptorField item "submitted" JsonValue.asString
  let written ← descriptorField item "written" JsonValue.asString
  let size ← descriptorField item "size" asU64
  let sha256 ← parseSha256 item
  let disposition ← parseDisposition item
  return ⟨submitted, written, size, sha256, disposition⟩

/-- `parse_descriptor_shape`. A key is found in objects only. -/
def parseDescriptorShape (value : JsonValue) : Except ReceiptFault (List ParsedDescriptor) :=
  match value.asArray with
  | none => .error .malformedDescriptor
  | some items => items.mapM parseDescriptor

/-- `required_key`. -/
def requiredKey : Option Str → Option Str
  | some value => if (exactComponent value).isSome then some value else none
  | none => none

/-- `decode_upload_response`. `fromSlice` is `serde_json::from_slice`; `none` is the error
`JournalContractInvalid`. -/
def decodeUploadResponse (fromSlice : Bytes → Option UploadResponse) (body : Bytes) :
    Option UploadResult :=
  (fromSlice body).bind fun response =>
  let descriptors := response.fileDescriptors.bind fun value =>
    match value with
    | .null => none
    | _ => some (parseDescriptorShape value)
  match response.status with
  | .ok | .collision =>
    (requiredKey response.segment).map fun key => ⟨response.status, some key, descriptors⟩
  | .duplicate =>
    (requiredKey response.existingSegment).map fun key => ⟨response.status, some key, descriptors⟩
  | .conflict | .failed => some ⟨response.status, none, descriptors⟩

/-! ## When a receipt is valid -/

section Valid

variable {localFiles : List LocalFile} {descriptors acks : List ParsedDescriptor}
  {result : UploadResult}

theorem mem_of_mapM {α β ε : Type} {f : α → Except ε β} {items : List α} {results : List β}
    (h : items.mapM f = .ok results) : ∀ b ∈ results, ∃ a ∈ items, f a = .ok b := by
  induction items generalizing results with
  | nil =>
    cases h
    exact fun b hb => absurd hb List.not_mem_nil
  | cons a items ih =>
    rw [List.mapM_cons] at h
    cases ha : f a with
    | error e =>
      rw [ha] at h
      cases h
    | ok b =>
      rw [ha] at h
      cases hrest : items.mapM f with
      | error e =>
        rw [hrest] at h
        cases h
      | ok rest =>
        rw [hrest] at h
        cases h
        intro b' hb'
        rcases List.mem_cons.mp hb' with rfl | hb'
        · exact ⟨a, List.mem_cons_self, ha⟩
        · obtain ⟨a', ha', hfa'⟩ := ih hrest b' hb'
          exact ⟨a', List.mem_cons_of_mem _ ha', hfa'⟩

theorem mem_dispositions {item : JsonValue} {disposition : Str}
    (h : parseDisposition item = .ok disposition) : disposition ∈ dispositions := by
  unfold parseDisposition at h
  split at h
  · cases h
  split at h
  · cases h
  split at h
  · rename_i hmem
    cases h
    exact hmem
  · cases h

theorem disposition_of_parseDescriptor {item : JsonValue} {d : ParsedDescriptor}
    (h : parseDescriptor item = .ok d) : d.disposition ∈ dispositions := by
  simp only [parseDescriptor, bind, Except.bind, pure, Except.pure] at h
  split at h
  · cases h
  split at h
  · cases h
  split at h
  · cases h
  split at h
  · cases h
  split at h
  · cases h
  · rename_i hdisposition
    cases h
    exact mem_dispositions hdisposition

/-- Every descriptor that is decoded has one of the known dispositions. -/
theorem disposition_of_decode {fromSlice : Bytes → Option UploadResponse} {body : Bytes}
    (h : decodeUploadResponse fromSlice body = some result)
    (hd : result.descriptors = some (.ok descriptors)) :
    ∀ d ∈ descriptors, d.disposition ∈ dispositions := by
  obtain ⟨response, -, hresponse⟩ := Option.bind_eq_some_iff.mp h
  have hshape : result.descriptors = response.fileDescriptors.bind fun value =>
      match value with
      | .null => none
      | _ => some (parseDescriptorShape value) := by
    dsimp only at hresponse
    split at hresponse
    · obtain ⟨_, -, rfl⟩ := Option.map_eq_some_iff.mp hresponse
      rfl
    · obtain ⟨_, -, rfl⟩ := Option.map_eq_some_iff.mp hresponse
      rfl
    · obtain ⟨_, -, rfl⟩ := Option.map_eq_some_iff.mp hresponse
      rfl
    · cases hresponse
      rfl
    · cases hresponse
      rfl
  rw [hd] at hshape
  obtain ⟨value, -, hvalue⟩ := Option.bind_eq_some_iff.mp hshape.symm
  have hparsed : parseDescriptorShape value = .ok descriptors := by
    split at hvalue
    · cases hvalue
    · exact Option.some.inj hvalue
  unfold parseDescriptorShape at hparsed
  split at hparsed
  · cases hparsed
  · intro d hmem
    obtain ⟨item, -, hitem⟩ := mem_of_mapM hparsed d hmem
    exact disposition_of_parseDescriptor hitem

/-- What a descriptor says of the file it is for. -/
def ParsedDescriptor.fileKey (d : ParsedDescriptor) : Str × ℕ × Str := (d.submitted, d.size, d.sha256)

/-- What there is to say of a local file. -/
def LocalFile.fileKey (file : LocalFile) : Str × ℕ × Str := (file.name, file.size, file.sha256)

/-- The journal acknowledges the local files by these descriptors: one for each file, with its name,
size and digest, and every file is written or already held. -/
structure Acknowledges (result : UploadResult) (localFiles : List LocalFile)
    (acks : List ParsedDescriptor) : Prop where
  status : result.status = .ok ∨ result.status = .duplicate ∨ result.status = .collision
  descriptors : result.descriptors = some (.ok acks)
  files : (acks.map ParsedDescriptor.fileKey).Perm (localFiles.map LocalFile.fileKey)
  held : ∀ d ∈ acks, d.disposition = "written".toList ∨ d.disposition = "already_held".toList

theorem Acknowledges.perm_submitted (h : Acknowledges result localFiles acks) :
    (acks.map ParsedDescriptor.submitted).Perm (localFiles.map LocalFile.name) := by
  have hnames := h.files.map Prod.fst
  rw [List.map_map, List.map_map] at hnames
  exact hnames

theorem Acknowledges.nodup_submitted (h : Acknowledges result localFiles acks)
    (distinct : (localFiles.map LocalFile.name).Nodup) :
    (acks.map ParsedDescriptor.submitted).Nodup :=
  h.perm_submitted.nodup_iff.mpr distinct

/-- Where no two elements have one key, the latest element of a key is its only one. -/
theorem find_reverse_eq_some {α : Type} {key : α → Str} {xs : List α}
    (distinct : (xs.map key).Nodup) {name : Str} {x : α} :
    xs.reverse.find? (fun y => key y = name) = some x ↔ x ∈ xs ∧ key x = name := by
  constructor
  · intro h
    exact ⟨List.mem_reverse.mp (List.mem_of_find?_eq_some h), by simpa using List.find?_some h⟩
  · rintro ⟨hmem, rfl⟩
    have hsome : (xs.reverse.find? fun y => key y = key x).isSome := by
      rw [List.find?_isSome]
      exact ⟨x, List.mem_reverse.mpr hmem, by simp⟩
    obtain ⟨other, hother⟩ := Option.isSome_iff_exists.mp hsome
    have hkey : key other = key x := by simpa using List.find?_some hother
    have hin : other ∈ xs := List.mem_reverse.mp (List.mem_of_find?_eq_some hother)
    rw [hother, List.inj_on_of_nodup_map distinct hin hmem hkey]

theorem localByName_eq_some (distinct : (localFiles.map LocalFile.name).Nodup) {name : Str}
    {file : LocalFile} :
    localByName localFiles name = some file ↔ file ∈ localFiles ∧ file.name = name :=
  find_reverse_eq_some distinct

theorem mismatch_eq_none :
    mismatch localFiles descriptors = none ↔ ∀ d ∈ descriptors, ∀ file,
      localByName localFiles d.submitted = some file → d.size = file.size ∧ d.sha256 = file.sha256 := by
  induction descriptors with
  | nil => simp [mismatch]
  | cons d ds ih =>
    rw [mismatch, List.forall_mem_cons]
    cases hfile : localByName localFiles d.submitted with
    | none => simp [ih]
    | some file =>
      dsimp only
      by_cases hsize : d.size = file.size
      · by_cases hsha : d.sha256 = file.sha256
        · simp [hsize, hsha, ih]
        · simp [hsize, hsha]
      · simp [hsize]

theorem fileKey_eq {d : ParsedDescriptor} {file : LocalFile} (hname : file.name = d.submitted)
    (hsize : d.size = file.size) (hsha : d.sha256 = file.sha256) : d.fileKey = file.fileKey := by
  rw [ParsedDescriptor.fileKey, LocalFile.fileKey, hname, hsize, hsha]

/-- **When a receipt is valid.** -/
theorem assessReceipt_valid_iff (distinct : (localFiles.map LocalFile.name).Nodup)
    (decoded : ∀ descriptors, result.descriptors = some (.ok descriptors) →
      ∀ d ∈ descriptors, d.disposition ∈ dispositions) :
    assessReceipt result localFiles = .valid acks ↔ Acknowledges result localFiles acks := by
  constructor
  · intro h
    unfold assessReceipt at h
    split at h
    · cases h
    rename_i hstatus
    split at h
    · cases h
    · cases h
    rename_i descriptors hdescriptors
    split at h
    · cases h
    rename_i hnodup
    split at h
    · cases h
    rename_i hheld
    split at h
    · cases h
    split at h
    · cases h
    split at h
    · cases h
    rename_i hknown
    split at h
    · cases h
    rename_i hnamed
    split at h
    · cases h
    rename_i hmismatch
    cases h
    have hfits := mismatch_eq_none.mp hmismatch
    have hkeys : ∀ key, key ∈ acks.map ParsedDescriptor.fileKey ↔
        key ∈ localFiles.map LocalFile.fileKey := by
      intro key
      constructor
      · intro hkey
        obtain ⟨d, hd, rfl⟩ := List.mem_map.mp hkey
        have hsome : localByName localFiles d.submitted ≠ none := fun hnone =>
          hknown (List.any_eq_true.mpr ⟨d, hd, by rw [hnone]; rfl⟩)
        obtain ⟨file, hfile⟩ := Option.ne_none_iff_exists'.mp hsome
        obtain ⟨hmem, hname⟩ := (localByName_eq_some distinct).mp hfile
        obtain ⟨hsize, hsha⟩ := hfits d hd file hfile
        exact List.mem_map.mpr ⟨file, hmem, (fileKey_eq hname hsize hsha).symm⟩
      · intro hkey
        obtain ⟨file, hmem, rfl⟩ := List.mem_map.mp hkey
        have hname : file.name ∈ acks.map ParsedDescriptor.submitted := by
          by_contra hnot
          exact hnamed (List.any_eq_true.mpr ⟨file, hmem, by simpa using hnot⟩)
        obtain ⟨d, hd, hsubmitted⟩ := List.mem_map.mp hname
        obtain ⟨hsize, hsha⟩ := hfits d hd file
          ((localByName_eq_some distinct).mpr ⟨hmem, hsubmitted.symm⟩)
        exact List.mem_map.mpr ⟨d, hd, fileKey_eq hsubmitted.symm hsize hsha⟩
    refine ⟨?_, hdescriptors, ?_, fun d hd => ?_⟩
    · cases hs : result.status <;> simp [hs] at hstatus ⊢
    · refine (List.perm_ext_iff_of_nodup ?_ ?_).mpr hkeys
      · refine List.Nodup.of_map Prod.fst ?_
        rw [List.map_map]
        exact not_not.mp hnodup
      · refine List.Nodup.of_map Prod.fst ?_
        rw [List.map_map]
        exact distinct
    · have hmem := decoded acks hdescriptors d hd
      have hne : d.disposition ≠ "received_not_written".toList := fun heq =>
        hheld (List.any_eq_true.mpr ⟨d, hd, by rw [heq]; decide⟩)
      simp only [dispositions, List.mem_cons, List.not_mem_nil, or_false] at hmem
      rcases hmem with h | h | h
      · exact .inl h
      · exact .inr h
      · exact absurd h hne
  · intro h
    have hsubmitted := h.perm_submitted
    obtain ⟨hstatus, hdescriptors, hfiles, hheld⟩ := h
    have hlength : acks.length = localFiles.length := by
      simpa using hsubmitted.length_eq
    have hfits : ∀ d ∈ acks, ∃ file, localByName localFiles d.submitted = some file ∧
        d.size = file.size ∧ d.sha256 = file.sha256 := by
      intro d hd
      obtain ⟨file, hmem, hkey⟩ := List.mem_map.mp (hfiles.subset (List.mem_map_of_mem hd))
      obtain ⟨hname, hsize, hsha⟩ := Prod.mk.inj hkey |>.imp_right Prod.mk.inj
      exact ⟨file, (localByName_eq_some distinct).mpr ⟨hmem, hname⟩, hsize.symm, hsha.symm⟩
    unfold assessReceipt
    rw [if_neg (by rcases hstatus with h | h | h <;> simp [h]), hdescriptors]
    dsimp only
    rw [if_neg (not_not.mpr (hsubmitted.nodup_iff.mpr distinct)), if_neg, if_neg (by omega),
      if_neg (by omega), if_neg, if_neg, mismatch_eq_none.mpr]
    · intro d hd file hfile
      obtain ⟨file', hfile', hsame⟩ := hfits d hd
      rw [hfile] at hfile'
      cases hfile'
      exact hsame
    · intro hany
      obtain ⟨file, hmem, hnot⟩ := List.any_eq_true.mp hany
      have hname := hsubmitted.symm.subset (List.mem_map_of_mem hmem)
      simp [hname] at hnot
    · intro hany
      obtain ⟨d, hd, hnone⟩ := List.any_eq_true.mp hany
      obtain ⟨file, hfile, -⟩ := hfits d hd
      rw [hfile] at hnone
      cases hnone
    · intro hany
      obtain ⟨d, hd, heq⟩ := List.any_eq_true.mp hany
      rcases hheld d hd with h | h
      · rw [h] at heq
        exact absurd heq (by decide)
      · rw [h] at heq
        exact absurd heq (by decide)

end Valid

end SolstoneTmux
