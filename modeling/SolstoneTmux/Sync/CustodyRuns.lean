import SolstoneTmux.Sync.Custody

/-!
# Captures are deleted only when the journal has them

`unlinked_authorised`: in every run of the uploader, a capture is unlinked only with the content that
had been hashed for an inventory, and only when the journal answered an upload of that inventory, for
the same candidate and under the same identity, with a valid receipt for the file or with the answer
that it has removed the segment.

`Warranted` is what the log says of an acknowledged file, and `InCustody` the invariant: what is in
the ledger is warranted, and so was each file that was unlinked.
-/

namespace SolstoneTmux

open Foundations Foundations.Prog

/-! ## Warrants -/

/-- Files whose contents were hashed for an inventory. -/
def Inventoried (log : List CustodyEvent) (candidate : SegmentCandidate) (files : List LocalFile) :
    Prop :=
  ∀ file ∈ files, ∃ content, .hashed candidate file content ∈ log

/-- An answer to the upload of an inventory by which a record of a file is right. -/
inductive Backs (inventory : List LocalFile) (d : ParsedDescriptor) : UploadAnswer → Prop
  | receipt {result : UploadResult} {acks : List ParsedDescriptor}
      (valid : assessReceipt result inventory = .valid acks) (mem : d ∈ acks)
      (held : d.disposition = "written".toList ∨ d.disposition = "already_held".toList) :
      Backs inventory d (.result result)
  | removed : Backs inventory d .removed

/-- A record of a file that the journal acknowledged, with the inventory that it answered. -/
inductive Warranted (log : List CustodyEvent) (identity : JournalIdentity)
    (candidate : SegmentCandidate) (d : ParsedDescriptor) : Prop
  | intro {inventory : List LocalFile} {answer : UploadAnswer} {tree : LocalTree} {file : LocalFile}
      {content : Bytes} (answered : .answered identity candidate inventory answer tree ∈ log)
      (backs : Backs inventory d answer) (mem : file ∈ inventory) (name : file.name = d.submitted)
      (size : file.size = d.size) (digest : file.sha256 = d.sha256)
      (hashed : .hashed candidate file content ∈ log) : Warranted log identity candidate d

section Warrants

variable {log log' : List CustodyEvent} {identity : JournalIdentity} {candidate : SegmentCandidate}
  {files : List LocalFile} {d : ParsedDescriptor}

theorem Inventoried.mono (h : Inventoried log candidate files) (hlog : log ⊆ log') :
    Inventoried log' candidate files := by
  intro file hfile
  obtain ⟨content, hcontent⟩ := h file hfile
  exact ⟨content, hlog hcontent⟩

theorem Warranted.mono (h : Warranted log identity candidate d) (hlog : log ⊆ log') :
    Warranted log' identity candidate d := by
  obtain ⟨answered, backs, mem, name, size, digest, hashed⟩ := h
  exact ⟨hlog answered, backs, mem, name, size, digest, hlog hashed⟩

/-- A descriptor of a valid receipt is that of a local file. -/
theorem exists_file_of_valid {result : UploadResult} {acks : List ParsedDescriptor}
    (h : assessReceipt result files = .valid acks) : result.descriptors = some (.ok acks) ∧
      ∀ d ∈ acks, d.disposition ≠ "received_not_written".toList ∧ ∃ file ∈ files,
        file.name = d.submitted ∧ file.size = d.size ∧ file.sha256 = d.sha256 := by
  unfold assessReceipt at h
  split at h
  · cases h
  split at h
  · cases h
  · cases h
  rename_i descriptors hdescriptors
  split at h
  · cases h
  split at h
  · cases h
  rename_i hheld
  split at h
  · cases h
  split at h
  · cases h
  split at h
  · cases h
  rename_i hknown
  split at h
  · cases h
  split at h
  · cases h
  rename_i hmismatch
  cases h
  refine ⟨hdescriptors, fun d hd => ⟨fun hnot => hheld ?_, ?_⟩⟩
  · exact List.any_eq_true.mpr ⟨d, hd, decide_eq_true hnot⟩
  · cases hfile : localByName files d.submitted with
    | none => exact absurd (List.any_eq_true.mpr ⟨d, hd, by rw [hfile]; rfl⟩) hknown
    | some file =>
      obtain ⟨hsize, hsha⟩ := mismatch_eq_none.mp hmismatch d hd file hfile
      have hmem : file ∈ files := List.mem_reverse.mp (List.mem_of_find?_eq_some hfile)
      have hname : file.name = d.submitted := by simpa using List.find?_some hfile
      exact ⟨file, hmem, hname, hsize.symm, hsha.symm⟩

/-- The descriptors of a valid receipt are warranted. -/
theorem warranted_of_valid {serde : Serde} {result : UploadResult} {acks : List ParsedDescriptor}
    {tree : LocalTree} {body : Bytes} (hknown : Inventoried log candidate files)
    (hanswered : .answered identity candidate files (.result result) tree ∈ log)
    (hdecoded : decodeUploadResponse serde.uploadResponse body = some result)
    (hvalid : assessReceipt result files = .valid acks) :
    ∀ d ∈ acks, Warranted log identity candidate d := by
  intro d hd
  obtain ⟨hdescriptors, hacks⟩ := exists_file_of_valid hvalid
  obtain ⟨hwritten, file, hfile, hname, hsize, hsha⟩ := hacks d hd
  obtain ⟨content, hhashed⟩ := hknown file hfile
  have hheld : d.disposition = "written".toList ∨ d.disposition = "already_held".toList := by
    have hmem := disposition_of_decode hdecoded hdescriptors d hd
    simp only [dispositions, List.mem_cons, List.not_mem_nil, or_false] at hmem
    rcases hmem with h | h | h
    · exact .inl h
    · exact .inr h
    · exact absurd h hwritten
  exact ⟨hanswered, .receipt hvalid hd hheld, hfile, hname, hsize, hsha, hhashed⟩

/-- The records of files that the journal has removed are warranted. -/
theorem warranted_of_removed {tree : LocalTree} (hknown : Inventoried log candidate files)
    (hanswered : .answered identity candidate files .removed tree ∈ log) :
    ∀ d ∈ files.map LocalFile.asAcknowledged, Warranted log identity candidate d := by
  intro d hd
  obtain ⟨file, hfile, rfl⟩ := List.mem_map.mp hd
  obtain ⟨content, hhashed⟩ := hknown file hfile
  exact ⟨hanswered, .removed, hfile, rfl, rfl, rfl, hhashed⟩

/-- An expected digest is that of a record. -/
theorem mem_of_expectedDigests {acks : List ParsedDescriptor} {name digest : Str}
    (h : expectedDigests acks name = some digest) :
    ∃ d ∈ acks, d.submitted = name ∧ d.sha256 = digest := by
  obtain ⟨d, hd, hdigest⟩ := Option.map_eq_some_iff.mp h
  have hname : d.submitted = name := by simpa using List.find?_some hd
  exact ⟨d, List.mem_reverse.mp (List.mem_of_find?_eq_some hd), hname, hdigest⟩

end Warrants

/-! ## The invariant -/

/-- What a file of the ledger holds: a record whose files are all warranted. -/
def IsRecord (serde : Serde) (log : List CustodyEvent) (bytes : Bytes) : Prop :=
  ∃ location candidate identity storedKey files,
    bytes = serde.ackBytes (ackRecordOf location candidate identity storedKey files) ∧
      ∀ d ∈ files, Warranted log identity candidate d

/-- An event after which the custody is still kept: a digest is that of the content, and a file that
was unlinked had been acknowledged. -/
def CustodyEvent.Lawful (sha256 : Bytes → Str) (log : List CustodyEvent) : CustodyEvent → Prop
  | hashed _ file content => file.sha256 = sha256 content
  | answered _ _ _ _ _ => True
  | unlinked identity candidate name content => ∃ d, Warranted log identity candidate d ∧
      d.submitted = name ∧ d.sha256 = sha256 content

theorem CustodyEvent.Lawful.mono {sha256 : Bytes → Str} {log log' : List CustodyEvent}
    {e : CustodyEvent} (h : e.Lawful sha256 log) (hlog : log ⊆ log') : e.Lawful sha256 log' := by
  cases e with
  | hashed candidate file content => exact h
  | answered => trivial
  | unlinked identity candidate name content =>
    obtain ⟨d, hd, hname, hdigest⟩ := h
    exact ⟨d, hd.mono hlog, hname, hdigest⟩

/-- The custody of captures, at any point of a run. -/
structure InCustody (serde : Serde) (sha256 : Bytes → Str) (u : Uploader) : Prop where
  lawful : ∀ earlier e later, u.log = earlier ++ e :: later → e.Lawful sha256 earlier
  inventories : ∀ candidate cached, u.inventories candidate = some cached →
    Inventoried u.log candidate cached.inventory
  acks : ∀ path bytes, u.acks path = some bytes → IsRecord serde u.log bytes

namespace InCustody

variable {serde : Serde} {sha256 : Bytes → Str} {u u' : Uploader}

theorem start (tree : LocalTree) (identity : JournalIdentity) :
    InCustody serde sha256 (.start tree identity) where
  lawful := fun earlier e later h => by cases earlier <;> cases h
  inventories := nofun
  acks := nofun

/-- Where the log, the ledger and the inventories are as before. -/
theorem congr (h : InCustody serde sha256 u) (hlog : u'.log = u.log) (hacks : u'.acks = u.acks)
    (hinventories : ∀ candidate cached, u'.inventories candidate = some cached →
      u.inventories candidate = some cached) : InCustody serde sha256 u' where
  lawful := fun earlier e later hsplit => h.lawful earlier e later (hlog ▸ hsplit)
  inventories := fun candidate cached hcached =>
    hlog ▸ h.inventories candidate cached (hinventories candidate cached hcached)
  acks := fun path bytes hbytes => hlog ▸ h.acks path bytes (hacks ▸ hbytes)

/-- New events that are lawful. -/
theorem append (h : InCustody serde sha256 u) {events : List CustodyEvent}
    (hevents : ∀ e ∈ events, e.Lawful sha256 u.log) :
    InCustody serde sha256 { u with log := u.log ++ events } where
  lawful := by
    intro earlier e later hsplit
    rcases List.append_eq_append_iff.mp hsplit with ⟨between, hearlier, hrest⟩ | ⟨between, hlog, hrest⟩
    · have hmem : e ∈ events := hrest ▸ List.mem_append_right _ List.mem_cons_self
      exact (hevents e hmem).mono (hearlier ▸ List.subset_append_left _ _)
    · cases between with
      | nil =>
        rw [List.append_nil] at hlog
        have hmem : e ∈ events := by
          rw [List.nil_append] at hrest
          exact hrest ▸ List.mem_cons_self
        exact hlog ▸ hevents e hmem
      | cons first between =>
        obtain ⟨rfl, -⟩ := List.cons.inj hrest
        exact h.lawful earlier e between hlog
  inventories := fun candidate cached hcached =>
    (h.inventories candidate cached hcached).mono (List.subset_append_left _ _)
  acks := by
    intro path bytes hbytes
    obtain ⟨location, candidate, identity, storedKey, files, rfl, hfiles⟩ := h.acks path bytes hbytes
    exact ⟨location, candidate, identity, storedKey, files, rfl,
      fun d hd => (hfiles d hd).mono (List.subset_append_left _ _)⟩

theorem hashed (h : InCustody serde sha256 u) {candidate : SegmentCandidate} {file : LocalFile}
    {content : Bytes} (hmem : .hashed candidate file content ∈ u.log) :
    file.sha256 = sha256 content := by
  obtain ⟨earlier, later, hsplit⟩ := List.append_of_mem hmem
  exact h.lawful earlier _ later hsplit

theorem others (h : InCustody serde sha256 u) (m : Moment serde) :
    InCustody serde sha256 (m.others u) :=
  h.congr rfl rfl fun _ _ => id

theorem restarted (h : InCustody serde sha256 u) (identity : JournalIdentity) :
    InCustody serde sha256 (u.restarted identity) :=
  h.congr rfl rfl nofun

end InCustody

/-! ## Calls -/

/-- Every moment is possible. -/
def anyMoment {serde : Serde} : Moment serde → Prop := fun _ => True

/-- A program that keeps the custody and the events `K`, and whose answer is as `R` says. -/
abbrev Keeps {α : Type} (serde : Serde) (sha256 : Bytes → Str) (K : List CustodyEvent)
    (R : List CustodyEvent → α → Prop) (p : Uploading serde α) : Prop :=
  Secures anyMoment (InCustody serde sha256) Uploader.log K R p

section Calls

variable {serde : Serde} {sha256 : Bytes → Str} {K : List CustodyEvent} {α : Type}
  {R : List CustodyEvent → α → Prop}

theorem keeps_call {f : Moment serde → Uploader → α × Uploader}
    (h : ∀ m u, InCustody serde sha256 u → K ⊆ u.log → InCustody serde sha256 (f m u).2 ∧
      u.log ⊆ (f m u).2.log ∧ R (f m u).2.log (f m u).1) :
    Keeps serde sha256 K R (Uploading.call f) := by
  intro u hu hK m _
  have hothers := hu.others m
  cases hdies : m.dies with
  | true =>
    simp only [hdies, if_true]
    exact ⟨hothers, hK⟩
  | false =>
    simp only [hdies, Bool.false_eq_true, if_false]
    obtain ⟨hf, hlog, hR⟩ := h m (m.others u) hothers hK
    exact ⟨⟨hf, List.Subset.trans hK hlog⟩, hR⟩

theorem keeps_look {f : Moment serde → Uploader → α}
    (h : ∀ m u, InCustody serde sha256 u → K ⊆ u.log → R u.log (f m u)) :
    Keeps serde sha256 K R (Uploading.look f) :=
  keeps_call fun m u hu hK => ⟨hu, List.Subset.refl _, h m u hu hK⟩

/-- A look whose answer is not used for anything. -/
theorem keeps_look_any {f : Moment serde → Uploader → α} :
    Keeps serde sha256 K (fun _ _ => True) (Uploading.look f) :=
  keeps_look fun _ _ _ _ => trivial

theorem keeps_remember {f : Uploader → Uploader}
    (h : ∀ u, InCustody serde sha256 u → K ⊆ u.log →
      InCustody serde sha256 (f u) ∧ (f u).log = u.log) :
    Keeps serde sha256 K (fun _ _ => True) (Uploading.remember f : Uploading serde Unit) := by
  refine keeps_call fun m u hu hK => ?_
  obtain ⟨hf, hlog⟩ := h u hu hK
  exact ⟨hf, hlog ▸ List.Subset.refl _, trivial⟩

theorem keeps_effect {f : Uploader → Uploader}
    (h : ∀ u, InCustody serde sha256 u → InCustody serde sha256 (f u) ∧ (f u).log = u.log) :
    Keeps serde sha256 K (fun _ _ => True) (Uploading.effect f : Uploading serde Unit) := by
  refine keeps_call fun m u hu hK => ?_
  obtain ⟨hf, hlog⟩ := h u hu
  cases m.works with
  | true => exact ⟨hf, hlog ▸ List.Subset.refl _, trivial⟩
  | false => exact ⟨hu, List.Subset.refl _, trivial⟩

theorem keeps_forgetInventory (candidate : SegmentCandidate) :
    Keeps serde sha256 K (fun _ _ => True)
      (Uploading.remember (·.forgetInventory candidate) : Uploading serde Unit) := by
  refine keeps_remember fun u hu _ => ⟨hu.congr rfl rfl fun other cached hcached => ?_, rfl⟩
  change Function.update u.inventories candidate none other = some cached at hcached
  by_cases hsame : other = candidate
  · rw [hsame, Function.update_self] at hcached
    cases hcached
  · rwa [Function.update_of_ne hsame] at hcached

theorem keeps_retain (found : List SegmentCandidate) :
    Keeps serde sha256 K (fun _ _ => True) (Uploading.retain found : Uploading serde Unit) := by
  refine keeps_remember fun u hu _ => ⟨hu.congr rfl rfl fun other cached hcached => ?_, rfl⟩
  dsimp only at hcached
  split at hcached
  · exact hcached
  · cases hcached

end Calls

/-! ## Looking at a segment and removing it -/

/-- A world in which every file that was unlinked had its expected digest. -/
def World.Proven (sha256 : Bytes → Str) (digests : Str → Option Str) (w : World) : Prop :=
  ∀ name number content, .unlinked name number content ∈ w.events →
    digests name = some (sha256 content)

section Removal

variable {sha256 : Bytes → Str} {digests : Str → Option Str} {names : List Str} {α : Type}

theorem World.Proven.others {w : World} (h : w.Proven sha256 digests) (t : RemovalTurn names) :
    (t.others w).Proven sha256 digests := by
  rw [RemovalTurn.others]
  induction t.actions generalizing w with
  | nil => exact h
  | cons action actions ih =>
    refine ih fun name number content hmem => ?_
    rcases List.mem_append.mp hmem with hmem | hmem
    · exact h name number content hmem
    · cases List.mem_singleton.mp hmem

/-- A call that unlinks nothing. -/
theorem yields_shared {f : RemovalTurn names → World → α × World}
    (hf : ∀ t w name number content, .unlinked name number content ∈ (f t w).2.events →
      .unlinked name number content ∈ w.events) :
    Yields (World.Proven sha256 digests) (fun _ => True)
      (shared RemovalTurn.others f : Removal names α) :=
  .shared (fun t _ hw => hw.others t) fun t w hw =>
    ⟨trivial, fun name number content hmem => hw name number content (hf t w name number content hmem)⟩

theorem yields_look (read : Store → Option α) :
    Yields (World.Proven sha256 digests) (fun _ => True) (look read : Removal names (Option α)) :=
  yields_shared fun _ _ _ _ _ h => h

theorem yields_see (read : Store → α) :
    Yields (World.Proven sha256 digests) (fun _ => True) (see read : Removal names α) :=
  yields_shared fun _ _ _ _ _ h => h

theorem yields_fileIdentities (files : List Str) :
    Yields (World.Proven sha256 digests) (fun _ => True)
      (fileIdentities files : Removal names (Option (List FileIdentity))) := by
  induction files with
  | nil => trivial
  | cons name files ih =>
    refine (yields_look _).bind fun opened _ => ?_
    cases opened with
    | none => trivial
    | some number =>
      refine (yields_look _).bind fun metadata _ => ?_
      cases metadata with
      | none => trivial
      | some file => exact ih.bind fun _ _ => trivial

theorem yields_retainFiles (expected : List FileIdentity) :
    Yields (World.Proven sha256 digests) (fun _ => True)
      (retainFiles expected : Removal names (Option (List ℕ))) := by
  induction expected with
  | nil => trivial
  | cons first expected ih =>
    refine (yields_look _).bind fun opened _ => ?_
    cases opened with
    | none => trivial
    | some number =>
      refine (yields_look _).bind fun metadata _ => ?_
      cases metadata with
      | none => trivial
      | some file =>
        dsimp only
        split
        · trivial
        · exact ih.bind fun _ _ => trivial

theorem yields_rewrite (index : ℕ) (name : Str) (retained : ℕ) :
    Yields (World.Proven sha256 digests) (fun _ => True)
      (rewrite index name retained : Removal names Bool) := by
  refine (yields_see _).bind fun bytes _ => ?_
  cases bytes with
  | none => trivial
  | some bytes =>
    refine (yields_see _).bind fun entry _ => ?_
    have hinstall : Yields (World.Proven sha256 digests) (fun _ => True)
        (install index name bytes : Removal names Bool) := by
      refine yields_shared fun t w other number content hmem => ?_
      split at hmem
      · exact hmem
      · rcases List.mem_append.mp hmem with hmem | hmem
        · exact hmem
        · cases List.mem_singleton.mp hmem
    cases entry with
    | none => exact hinstall
    | some node =>
      cases node with
      | file number => exact hinstall
      | directory length => trivial
      | special length => trivial

theorem yields_restoreFile (index : ℕ) (expected : FileIdentity) (retained : ℕ) :
    Yields (World.Proven sha256 digests) (fun _ => True)
      (restoreFile index expected retained : Removal names Bool) := by
  have hbegin : Yields (World.Proven sha256 digests) (fun _ => True)
      (beginRestoring index expected.name : Removal names (Option ℕ)) := by
    refine yields_shared fun t w other number content hmem => ?_
    rcases List.mem_append.mp hmem with hmem | hmem
    · exact hmem
    · cases List.mem_singleton.mp hmem
  have hrename : ∀ source target, Yields (World.Proven sha256 digests) (fun _ => True)
      (renameat source target : Removal names Bool) := by
    refine fun source target => yields_shared fun t w other number content hmem => ?_
    split at hmem
    · exact hmem
    split at hmem
    · exact hmem
    split at hmem
    · exact hmem
    · exact hmem
  refine hbegin.bind fun opened _ => (yields_see _).bind fun metadata _ => ?_
  split
  · trivial
  refine (yields_see _).bind fun entry _ => ?_
  cases entry with
  | none => exact yields_rewrite index expected.name retained
  | some node =>
    refine (yields_see _).bind fun conflict _ => ?_
    split
    · trivial
    refine (hrename _ _).bind fun moved _ => ?_
    split
    · trivial
    · exact yields_rewrite index expected.name retained

theorem yields_restoreExpectedFiles (index : ℕ) (expected : List (FileIdentity × ℕ)) :
    Yields (World.Proven sha256 digests) (fun _ => True)
      (restoreExpectedFiles index expected : Removal names Bool) := by
  induction expected generalizing index with
  | nil => trivial
  | cons first expected ih =>
    exact (yields_restoreFile _ _ _).bind fun _ _ => (ih _).bind fun _ _ => trivial

/-- A file is unlinked only with its expected digest. -/
theorem yields_unlinkExpected (expected : FileIdentity) :
    Yields (World.Proven sha256 digests) (fun _ => True)
      (unlinkExpected sha256 digests expected : Removal names Bool) := by
  refine .shared (fun t _ hw => hw.others t) fun t w hw => ⟨trivial, ?_⟩
  cases hproves : provesCustody sha256 digests expected w.store with
  | none => exact hw
  | some content =>
    dsimp only
    split
    · intro name number bytes hmem
      rcases List.mem_append.mp hmem with hmem | hmem
      · exact hw name number bytes hmem
      · obtain ⟨rfl, rfl, rfl⟩ := Event.unlinked.inj (List.mem_singleton.mp hmem)
        obtain ⟨number, -, hnumber⟩ := Option.bind_eq_some_iff.mp hproves
        obtain ⟨file, -, hfile⟩ := Option.bind_eq_some_iff.mp hnumber
        split at hfile
        · rename_i hmatches
          cases hfile
          exact of_decide_eq_true (Bool.and_eq_true_iff.mp hmatches).2
        · cases hfile
    · exact hw

theorem yields_unlinkFiles (expected : List FileIdentity) :
    Yields (World.Proven sha256 digests) (fun _ => True)
      (unlinkFiles sha256 digests expected : Removal names Bool) := by
  induction expected with
  | nil => trivial
  | cons first expected ih =>
    refine (yields_unlinkExpected first).bind fun unlinked _ => ?_
    split
    · exact ih
    · trivial

theorem yields_deleteRevalidatedSegment (above : Above) (candidate : SegmentCandidate)
    (expected : List FileIdentity) :
    Yields (World.Proven sha256 digests) (fun _ => True)
      (deleteRevalidatedSegment sha256 digests above candidate names expected) := by
  have hrestored : ∀ retained : List (FileIdentity × ℕ),
      Yields (World.Proven sha256 digests) (fun _ => True)
        ((restoreExpectedFiles 0 retained : Removal names Bool).bind fun _ =>
          .done RemovalResult.failed) :=
    fun retained => (yields_restoreExpectedFiles 0 retained).bind fun _ _ => trivial
  have hremove : Yields (World.Proven sha256 digests) (fun _ => True)
      (removeDirectory : Removal names Bool) := by
    refine yields_shared fun t w other number content hmem => ?_
    split at hmem
    · exact hmem
    split at hmem
    · exact hmem
    · exact hmem
  refine (yields_look _).bind fun resolved _ => ?_
  cases resolved with
  | none => trivial
  | some resolved =>
    cases resolved with
    | empty => trivial
    | missing => trivial
    | invalid => trivial
    | found paths =>
      dsimp only
      split
      · trivial
      refine (yields_fileIdentities paths).bind fun found _ => ?_
      split
      · trivial
      split
      · trivial
      refine (yields_look _).bind fun segmentDirectory _ => ?_
      split
      · trivial
      refine (yields_look _).bind fun streamDirectory _ => ?_
      split
      · trivial
      refine (yields_retainFiles expected).bind fun retained _ => ?_
      cases retained with
      | none => trivial
      | some retained =>
        refine (yields_unlinkFiles expected).bind fun unlinked _ => ?_
        split
        · exact hrestored _
        refine hremove.bind fun removed _ => ?_
        split
        · exact hrestored _
        · trivial

end Removal

/-! ## Inventories -/

section Programs

variable {serde : Serde} {sha256 : Bytes → Str} {ledgerRoot : Bytes} {identity : JournalIdentity}
  {K : List CustodyEvent} {candidate : SegmentCandidate}

/-- A program on a segment's files, when the digests it expects are warranted. -/
theorem keeps_hosted {α : Type} {names : List Str} {digests : Str → Option Str}
    {p : Removal names α} (hp : Yields (World.Proven sha256 digests) (fun _ => True) p)
    (hdigests : ∀ name digest, digests name = some digest →
      ∃ d, Warranted K identity candidate d ∧ d.submitted = name ∧ d.sha256 = digest) :
    Keeps serde sha256 K (fun _ _ => True)
      (p.hosted Moment.others (Moment.removalTurn names) (Uploader.world candidate)
        (Uploader.withWorld identity candidate)) := by
  intro u hu hK
  refine wp_hosted hp (fun m u h => ⟨h.1.others m, h.2⟩)
    (fun u h name number content hmem => by cases hmem) ?_ ⟨hu, hK⟩
  intro w u hw h
  have hlawful : ∀ e ∈ w.events.filterMap (·.toCustody identity candidate),
      e.Lawful sha256 u.log := by
    intro e he
    obtain ⟨event, hevent, hcustody⟩ := List.mem_filterMap.mp he
    cases event with
    | unlinked name number content =>
      cases hcustody
      obtain ⟨d, hd, hname, hdigest⟩ := hdigests name _ (hw name number content hevent)
      exact ⟨d, hd.mono h.2, hname, hdigest⟩
    | external action => cases hcustody
    | restoring index entry => cases hcustody
    | restored index number => cases hcustody
  exact ⟨(h.1.append hlawful).congr rfl rfl fun _ _ => id,
    List.Subset.trans h.2 (List.subset_append_left _ _)⟩

theorem keeps_prepareFile (name : Str) :
    Keeps serde sha256 K (fun L prepared => ∀ file, prepared = some file →
      ∃ content, .hashed candidate file content ∈ L)
      (Uploading.prepareFile serde sha256 candidate name) := by
  unfold Uploading.prepareFile
  refine .ite (fun _ => .done fun _ _ _ h => by cases h) fun _ => ?_
  refine keeps_look_any.bind fun opened L _ _ => ?_
  cases opened with
  | none => exact .done fun _ _ _ h => by cases h
  | some number =>
    refine keeps_look_any.bind fun metadata L _ _ => ?_
    cases metadata with
    | none => exact .done fun _ _ _ h => by cases h
    | some size =>
      refine keeps_call fun m u hu _ => ?_
      split
      · exact ⟨hu, List.Subset.refl _, fun _ h => by cases h⟩
      split
      · refine ⟨hu.append fun e he => ?_, List.subset_append_left _ _, ?_⟩
        · obtain rfl := List.mem_singleton.mp he
          rfl
        · rintro file ⟨⟩
          exact ⟨_, List.mem_append_right _ (List.mem_singleton.mpr rfl)⟩
      · exact ⟨hu, List.Subset.refl _, fun _ h => by cases h⟩

theorem keeps_prepareAll (names : List Str) :
    Keeps serde sha256 K (fun L prepared => ∀ files, prepared = some files →
      Inventoried L candidate files) (Uploading.prepareAll serde sha256 candidate names) := by
  induction names generalizing K with
  | nil =>
    refine .done fun L _ files h => ?_
    cases h
    exact fun _ hfile => by cases hfile
  | cons name names ih =>
    refine (keeps_prepareFile name).bind fun prepared L _ hprepared => ?_
    cases prepared with
    | none => exact .done fun _ _ _ h => by cases h
    | some file =>
      obtain ⟨content, hcontent⟩ := hprepared file rfl
      refine ih.bind fun rest L' hL hrest => .done fun L'' hL' files h => ?_
      obtain ⟨others, hothers, rfl⟩ := Option.map_eq_some_iff.mp h
      intro other hother
      rcases List.mem_cons.mp hother with rfl | hother
      · exact ⟨content, hL' (hL hcontent)⟩
      · exact ((hrest others hothers).mono hL') other hother

theorem keeps_inventoryFor (names : List Str) :
    Keeps serde sha256 K (fun L inventory => ∀ files, inventory = some files →
      Inventoried L candidate files)
      (Uploading.inventoryFor serde sha256 identity candidate names) := by
  have hyields : Yields (World.Proven sha256 fun _ => none) (fun _ => True)
      (fileIdentities names : Removal [] (Option (List FileIdentity))) :=
    yields_fileIdentities names
  have hidentities : Keeps serde sha256 K (fun _ _ => True)
      (Uploading.identities serde identity candidate names) :=
    keeps_hosted hyields fun _ _ h => (Option.some_ne_none _ h.symm).elim
  refine hidentities.bind fun current L _ _ => ?_
  cases current with
  | none => exact .done fun _ _ _ h => by cases h
  | some current =>
    have hcached : Keeps serde sha256 L (fun L inventory => ∀ files, inventory = some files →
        Inventoried L candidate files)
        (Uploading.look fun _ u => Uploading.cachedInventory candidate names current u) := by
      refine keeps_look fun m u hu _ files hfiles => ?_
      obtain ⟨cached, hcached, hsame⟩ := Option.bind_eq_some_iff.mp hfiles
      split at hsame
      · cases hsame
        exact hu.inventories candidate cached hcached
      · cases hsame
    refine hcached.bind fun cached L' _ hknown => ?_
    cases cached with
    | some inventory =>
      refine .done fun L'' hL files h => ?_
      cases h
      exact (hknown inventory rfl).mono hL
    | none =>
      have hfiles : Keeps serde sha256 L' (fun L inventory => ∀ files, inventory = some files →
          Inventoried L candidate files)
          (Uploading.inventoryFiles serde sha256 candidate names) :=
        .ite (fun _ => .done fun _ _ _ h => by cases h) fun _ => keeps_prepareAll names
      refine hfiles.bind fun inventory L'' _ hinventory => ?_
      cases inventory with
      | none => exact .done fun _ _ _ h => by cases h
      | some inventory =>
        have hremembered := hinventory inventory rfl
        have hkeep : Keeps serde sha256 L'' (fun _ _ => True) (Uploading.remember fun u =>
            { u with
              inventories := Function.update u.inventories candidate
                (some ⟨names, current, inventory⟩) } : Uploading serde Unit) := by
          refine keeps_remember fun u hu hL => ⟨⟨hu.lawful, ?_, hu.acks⟩, rfl⟩
          intro other cached hother
          change Function.update u.inventories candidate _ other = some cached at hother
          by_cases hsame : other = candidate
          · rw [hsame, Function.update_self] at hother
            cases hother
            exact hsame ▸ hremembered.mono hL
          · rw [Function.update_of_ne hsame] at hother
            exact hu.inventories other cached hother
        refine hkeep.bind fun _ L₃ hL _ => .done fun L₄ hL' files h => ?_
        cases h
        exact hremembered.mono (List.Subset.trans hL hL')

/-! ## The ledger -/

/-- A ledger of records. -/
def OfRecords (serde : Serde) (log : List CustodyEvent) (acks : Ledger) : Prop :=
  ∀ path bytes, acks path = some bytes → IsRecord serde log bytes

theorem OfRecords.erase {log : List CustodyEvent} {acks : Ledger} (h : OfRecords serde log acks)
    (path : Bytes) : OfRecords serde log (Function.update acks path none) := by
  intro other bytes hbytes
  by_cases hsame : other = path
  · rw [hsame, Function.update_self] at hbytes
    cases hbytes
  · rw [Function.update_of_ne hsame] at hbytes
    exact h other bytes hbytes

theorem OfRecords.write {log : List CustodyEvent} {acks : Ledger} (h : OfRecords serde log acks)
    (path : Bytes) {bytes : Bytes} (hbytes : IsRecord serde log bytes) :
    OfRecords serde log (Function.update acks path (some bytes)) := by
  intro other found hfound
  by_cases hsame : other = path
  · rw [hsame, Function.update_self] at hfound
    cases hfound
    exact hbytes
  · rw [Function.update_of_ne hsame] at hfound
    exact h other found hfound

/-- A program on the receipts. -/
theorem keeps_hosted_acks {α : Type} {R : List CustodyEvent → α → Prop}
    {p : Prog Ledger Turn Empty α}
    (hp : ∀ L, K ⊆ L → Yields (OfRecords serde L) (R L) p) :
    Keeps serde sha256 K R
      (p.hosted Moment.others (fun m => some m.turn) Uploader.acks Uploader.withAcks) := by
  intro u hu hK
  have hwp : wp anyMoment
      (p.hosted Moment.others (fun m => some m.turn) Uploader.acks Uploader.withAcks :
        Uploading serde α)
      (endsIn (fun u' => InCustody serde sha256 u' ∧ u'.log = u.log) fun a u' =>
        (InCustody serde sha256 u' ∧ u'.log = u.log) ∧ R u.log a) u := by
    refine wp_hosted (hp u.log hK) (fun m u' h => ⟨h.1.others m, h.2⟩)
      (fun u' h => h.2 ▸ h.1.acks) (fun acks u' hacks h => ⟨⟨h.1.lawful, h.1.inventories, ?_⟩, h.2⟩)
      ⟨hu, rfl⟩
    rw [← h.2] at hacks
    exact hacks
  refine endsIn_mono hwp (fun u' h => ⟨h.1, h.2 ▸ hK⟩) fun a u' h => ⟨⟨h.1.1, h.1.2 ▸ hK⟩, ?_⟩
  rw [h.1.2]
  exact h.2

/-- What is read of a record that was written. -/
def Serde.Faithful (serde : Serde) : Prop :=
  ∀ record found, serde.ackRecord (serde.ackBytes record) = some found → found = record

theorem keeps_readAck (hfaithful : serde.Faithful) (inventory : List LocalFile) :
    Keeps serde sha256 K (fun L found => ∀ ack, found = some ack →
      ∀ d ∈ ack.files, Warranted L identity candidate d)
      (Uploading.readAck serde ledgerRoot identity candidate inventory) := by
  refine keeps_hosted_acks fun L _ => ?_
  have hread : Yields (OfRecords serde L) (fun found => ∀ bytes, found = .ok bytes →
      IsRecord serde L bytes) (readLedger (ackPath ledgerRoot candidate) : Prog _ _ Empty _) := by
    refine .query (fun acks hacks bytes hbytes => ?_) fun _ h => by cases h
    split at hbytes
    · rename_i found hfound
      cases hbytes
      exact hacks _ _ hfound
    · cases hbytes
  have hremove : ∀ R : Option AckRecord → Prop, R none → Yields (OfRecords serde L) R
      ((removeLedger (ackPath ledgerRoot candidate) : Prog _ _ Empty _).bind fun _ => .done none) := by
    intro R hR
    have hcall : Yields (OfRecords serde L) (fun _ => True)
        (removeLedger (ackPath ledgerRoot candidate) : Prog _ _ Empty _) := by
      refine .atomic (fun acks hacks => ⟨trivial, ?_⟩) trivial
      split
      · exact hacks.erase _
      · exact hacks
    exact hcall.bind fun _ _ => hR
  unfold readAckRecord
  refine hread.bind fun found hfound => ?_
  cases found with
  | error e => exact fun _ h => by cases h
  | ok bytes =>
    dsimp only
    split
    · rename_i ack location hack hlocation
      split
      · exact fun _ h => by cases h
      split
      · exact fun _ h => by cases h
      rename_i hforeign
      split
      · exact hremove _ fun _ h => by cases h
      split
      · exact hremove _ fun _ h => by cases h
      rintro found ⟨⟩
      obtain ⟨written, candidate', identity', storedKey, files, rfl, hfiles⟩ := hfound bytes rfl
      obtain rfl := hfaithful _ _ hack
      obtain ⟨rfl, rfl⟩ := eq_of_not_isForeign (by simpa using hforeign)
      exact hfiles
    · exact fun _ h => by cases h

theorem keeps_ensureLedgerDir :
    Keeps serde sha256 K (fun _ _ => True) (Uploading.ensureLedgerDir serde candidate) :=
  keeps_effect fun _ hu => ⟨hu.congr rfl rfl fun _ _ => id, rfl⟩

theorem keeps_writeAck {files : List ParsedDescriptor} (storedKey : Str)
    (hfiles : ∀ d ∈ files, Warranted K identity candidate d) :
    Keeps serde sha256 K (fun _ _ => True)
      (Uploading.writeAck serde ledgerRoot identity candidate storedKey files) := by
  refine keeps_ensureLedgerDir.bind fun _ L hL _ => keeps_hosted_acks fun L' hL' => ?_
  have hbarrier : Yields (OfRecords serde L') (fun _ => True) (orUnit barrier) := by
    have hcall : Yields (OfRecords serde L') (fun _ => True) (barrier : Prog _ _ Unit _) :=
      .query (fun _ _ => trivial) trivial
    exact hcall.bind fun _ _ => .orRaise fun _ _ => trivial
  refine .attempt ?_ fun _ => trivial
  unfold writeAckRecord
  refine hbarrier.bind fun _ _ => ?_
  split
  · trivial
  rename_i location hlocation
  refine hbarrier.bind fun _ _ => ?_
  have hreplace : Yields (OfRecords serde L') (fun _ => True)
      (orUnit (replaceLedger (ackPath ledgerRoot candidate)
        (serde.ackBytes (ackRecordOf location candidate identity storedKey files)))) := by
    have hcall : Yields (OfRecords serde L') (fun _ => True)
        (replaceLedger (ackPath ledgerRoot candidate)
          (serde.ackBytes (ackRecordOf location candidate identity storedKey files)) :
          Prog _ _ Unit _) := by
      refine .atomic (fun acks hacks => ⟨trivial, hacks.write _ ?_⟩) trivial
      exact ⟨location, candidate, identity, storedKey, files, rfl,
        fun d hd => (hfiles d hd).mono (List.Subset.trans hL hL')⟩
    exact hcall.bind fun _ _ => .orRaise fun _ _ => trivial
  exact hreplace.bind fun _ _ => hbarrier

theorem keeps_reschedule (f : Write → SyncState → SyncState) :
    Keeps serde sha256 K (fun _ _ => True) (Uploading.reschedule serde candidate f) :=
  keeps_ensureLedgerDir.bind fun _ _ _ _ =>
    keeps_call fun _ _ hu _ => ⟨hu.congr rfl rfl fun _ _ => id, List.Subset.refl _, trivial⟩

theorem keeps_removeSegmentLedgerDir :
    Keeps serde sha256 K (fun _ _ => True)
      (Uploading.removeSegmentLedgerDir serde ledgerRoot candidate) := by
  have hacks : Keeps serde sha256 K (fun _ _ => True) (Uploading.effect fun u =>
      { u with acks := Function.update u.acks (ackPath ledgerRoot candidate) none } :
      Uploading serde Unit) :=
    keeps_effect fun u hu => ⟨⟨hu.lawful, hu.inventories, OfRecords.erase hu.acks _⟩, rfl⟩
  have hstate : ∀ L, Keeps serde sha256 L (fun _ _ => True) (Uploading.effect fun u =>
      { u with schedule := u.schedule.step (.forget candidate) } : Uploading serde Unit) :=
    fun L => keeps_effect fun u hu => ⟨hu.congr rfl rfl fun _ _ => id, rfl⟩
  refine hacks.bind fun _ L _ _ => (hstate L).bind fun _ L' _ _ => ?_
  refine keeps_effect fun u hu => ?_
  split
  · exact ⟨hu, rfl⟩
  · exact ⟨hu.congr rfl rfl fun _ _ => id, rfl⟩

theorem keeps_pruneLedgerDirs (active : List SegmentCandidate) :
    Keeps serde sha256 K (fun _ _ => True)
      (Uploading.pruneLedgerDirs serde ledgerRoot active) :=
  keeps_look_any.bind fun _ _ _ _ => .forEach fun _ _ _ _ => keeps_removeSegmentLedgerDir

/-! ## Deletions -/

theorem keeps_afterRemoval (result : RemovalResult) :
    Keeps serde sha256 K (fun _ _ => True)
      (Uploading.afterRemoval serde ledgerRoot candidate result) :=
  .ite (fun _ => keeps_removeSegmentLedgerDir.bind fun _ _ _ _ => .done fun _ _ => trivial)
    fun _ => .done fun _ _ => trivial

theorem keeps_deleteEmptySegment :
    Keeps serde sha256 K (fun _ _ => True)
      (Uploading.deleteEmptySegment serde ledgerRoot candidate) := by
  refine keeps_look_any.bind fun permit L _ _ => .ite (fun _ => .done fun _ _ => trivial) fun _ => ?_
  have hremove : Keeps serde sha256 L (fun _ _ => True)
      (Uploading.removeEmptySegmentDirectory serde candidate) := by
    refine keeps_call fun m u hu _ => ?_
    split
    · exact ⟨hu, List.Subset.refl _, trivial⟩
    · split
      · exact ⟨hu, List.Subset.refl _, trivial⟩
      split
      · exact ⟨hu.congr rfl rfl fun _ _ => id, List.Subset.refl _, trivial⟩
      · exact ⟨hu, List.Subset.refl _, trivial⟩
    · exact ⟨hu, List.Subset.refl _, trivial⟩
  exact hremove.bind fun result _ _ _ => keeps_afterRemoval result

/-- Files are unlinked only by the digests of warranted records. -/
theorem keeps_deleteConfirmedSegment {files : List ParsedDescriptor}
    (hfiles : ∀ d ∈ files, Warranted K identity candidate d) (expected : List FileIdentity) :
    Keeps serde sha256 K (fun _ _ => True)
      (Uploading.deleteConfirmedSegment serde sha256 ledgerRoot identity candidate files expected) := by
  refine keeps_look_any.bind fun resolved L hL _ => ?_
  cases resolved with
  | empty => exact .done fun _ _ => trivial
  | missing => exact .done fun _ _ => trivial
  | invalid => exact .done fun _ _ => trivial
  | found paths =>
    refine keeps_look_any.bind fun permit L' hL' _ =>
      .ite (fun _ => .done fun _ _ => trivial) fun _ => ?_
    refine keeps_look_any.bind fun above L₂ hL₂ _ => ?_
    refine (keeps_hosted (yields_deleteRevalidatedSegment above candidate expected) ?_).bind
      fun result _ _ _ => keeps_afterRemoval result
    intro name digest hdigest
    obtain ⟨d, hd, hname, hsha⟩ := mem_of_expectedDigests hdigest
    exact ⟨d, (hfiles d hd).mono (List.Subset.trans hL (List.Subset.trans hL' hL₂)), hname, hsha⟩

theorem keeps_deleteAcknowledged {files : List ParsedDescriptor}
    (hfiles : ∀ d ∈ files, Warranted K identity candidate d) :
    Keeps serde sha256 K (fun _ _ => True)
      (Uploading.deleteAcknowledged serde sha256 ledgerRoot identity candidate files) := by
  refine keeps_look_any.bind fun expected L hL _ => ?_
  refine (keeps_deleteConfirmedSegment (fun d hd => (hfiles d hd).mono hL) expected).bind
    fun removed _ _ _ => .ite (fun _ => keeps_forgetInventory candidate)
      fun _ => .done fun _ _ => trivial

/-! ## The local removals and the sweep -/

theorem keeps_finishCandidate (hfaithful : serde.Faithful) :
    Keeps serde sha256 K (fun _ _ => True)
      (Uploading.finishCandidate serde sha256 ledgerRoot identity candidate) := by
  refine keeps_look_any.bind fun resolved L _ _ => ?_
  cases resolved with
  | missing => exact .done fun _ _ => trivial
  | invalid => exact .done fun _ _ => trivial
  | empty =>
    exact (keeps_forgetInventory candidate).bind fun _ _ _ _ =>
      keeps_deleteEmptySegment.bind fun _ _ _ _ => .done fun _ _ => trivial
  | found names =>
    refine (keeps_inventoryFor names).bind fun inventory L' _ _ => ?_
    cases inventory with
    | none => exact .done fun _ _ => trivial
    | some inventory =>
      refine (keeps_readAck hfaithful inventory).bind fun ack L'' _ hack => ?_
      cases ack with
      | none => exact .done fun _ _ => trivial
      | some ack => exact keeps_deleteAcknowledged (hack ack rfl)

theorem keeps_finishAll (hfaithful : serde.Faithful) (candidates : List SegmentCandidate) :
    Keeps serde sha256 K (fun _ _ => True)
      (Uploading.finishAll serde sha256 ledgerRoot identity candidates) := by
  induction candidates generalizing K with
  | nil => exact .done fun _ _ => trivial
  | cons first candidates ih =>
    exact keeps_look_any.bind fun stop _ _ _ => .ite (fun _ => .done fun _ _ => trivial)
      fun _ => (keeps_finishCandidate hfaithful).bind fun _ _ _ _ => ih

theorem keeps_localFinish (hfaithful : serde.Faithful) :
    Keeps serde sha256 K (fun _ _ => True)
      (Uploading.localFinish serde sha256 ledgerRoot identity) := by
  refine keeps_look_any.bind fun scanned L _ _ => ?_
  cases scanned with
  | error e => exact .done fun _ _ => trivial
  | ok candidates =>
    exact (keeps_retain candidates).bind fun _ _ _ _ =>
      (keeps_pruneLedgerDirs candidates).bind fun _ _ _ _ => keeps_finishAll hfaithful candidates

/-- What the first loop knows of an upload that is due. -/
def Due.Known (log : List CustodyEvent) (due : Due) : Prop :=
  Inventoried log due.candidate due.files

theorem keeps_lookAt (hfaithful : serde.Faithful) (now : ℤ) :
    Keeps serde sha256 K (fun L found => ∀ due, found = some due → due.Known L)
      (Uploading.lookAt serde sha256 ledgerRoot identity now candidate) := by
  refine keeps_look_any.bind fun resolved L _ _ => ?_
  have hforget : Keeps serde sha256 L (fun L found => ∀ due, found = some due → Due.Known L due)
      ((Uploading.remember (·.forgetInventory candidate) : Uploading serde Unit).bind
        fun _ => .done none) :=
    (keeps_forgetInventory candidate).bind fun _ _ _ _ => .done fun _ _ _ h => by cases h
  cases resolved with
  | missing => exact hforget
  | invalid => exact .done fun _ _ _ h => by cases h
  | empty => exact hforget
  | found names =>
    refine (keeps_inventoryFor names).bind fun inventory L' _ hinventory => ?_
    cases inventory with
    | none => exact .done fun _ _ _ h => by cases h
    | some inventory =>
      refine (keeps_readAck hfaithful inventory).bind fun ack L'' hL _ => ?_
      cases ack with
      | some ack => exact .done fun _ _ _ h => by cases h
      | none =>
        refine keeps_look fun m u _ hlog due hdue => ?_
        dsimp only at hdue
        generalize (if m.works then u.schedule else u.schedule.step (.forget candidate)) = s at hdue
        split at hdue
        · cases hdue
        · cases hdue
          exact (hinventory inventory rfl).mono (List.Subset.trans hL hlog)

theorem keeps_lookAtAll (hfaithful : serde.Faithful) (now : ℤ)
    (candidates : List SegmentCandidate) :
    Keeps serde sha256 K (fun L found => ∀ dues, found = some dues → ∀ due ∈ dues, due.Known L)
      (Uploading.lookAtAll serde sha256 ledgerRoot identity now candidates) := by
  induction candidates generalizing K with
  | nil =>
    refine .done fun L _ dues h => ?_
    cases h
    exact fun _ hdue => by cases hdue
  | cons first candidates ih =>
    refine keeps_look_any.bind fun stop L _ _ => .ite (fun _ => .done fun _ _ _ h => by cases h)
      fun _ => (keeps_lookAt hfaithful now).bind fun found L' _ hfound => ih.bind
        fun rest L'' hL hrest => .done fun L₃ hL' dues h => ?_
    obtain ⟨others, hothers, rfl⟩ := Option.map_eq_some_iff.mp h
    intro due hdue
    rcases List.mem_append.mp hdue with hdue | hdue
    · exact (hfound due (Option.mem_toList.mp hdue)).mono (List.Subset.trans hL hL')
    · exact (hrest others hothers due hdue).mono hL'

theorem keeps_acknowledge {files : List ParsedDescriptor} (storedKey : Str)
    (hfiles : ∀ d ∈ files, Warranted K identity candidate d) :
    Keeps serde sha256 K (fun _ _ => True)
      (Uploading.acknowledge serde sha256 ledgerRoot identity candidate storedKey files) := by
  refine (keeps_writeAck storedKey hfiles).bind fun written L hL _ => ?_
  cases written with
  | error e => exact .done fun _ _ => trivial
  | ok written =>
    exact (keeps_reschedule _).bind fun _ L' hL' _ =>
      keeps_deleteAcknowledged fun d hd => (hfiles d hd).mono (List.Subset.trans hL hL')

/-- The answer to an upload is in the log, with the inventory of the files. -/
theorem keeps_ask (due : Due) :
    Keeps serde sha256 K (fun L answered => ∀ answer, answered = some answer →
      (∃ tree, .answered identity due.candidate due.files answer tree ∈ L) ∧
        ∀ upload, answer = .result upload →
          ∃ body, decodeUploadResponse serde.uploadResponse body = some upload)
      (Uploading.ask serde identity due) := by
  refine keeps_call fun m u hu _ => ?_
  split
  · exact ⟨hu, List.Subset.refl _, fun _ h => by cases h⟩
  · refine ⟨hu.append fun e he => ?_, List.subset_append_left _ _, ?_⟩
    · obtain rfl := List.mem_singleton.mp he
      trivial
    · rintro answer ⟨⟩
      exact ⟨⟨_, List.mem_append_right _ (List.mem_singleton.mpr rfl)⟩, m.decoded⟩

theorem keeps_upload (now : ℤ) {due : Due} (hdue : due.Known K) :
    Keeps serde sha256 K (fun _ _ => True)
      (Uploading.upload serde sha256 ledgerRoot identity now due) := by
  refine (keeps_ask due).bind fun answered L hL hanswered => ?_
  have hknown := hdue.mono hL
  have hputOff : ∀ answer, Keeps serde sha256 L (fun _ _ => True)
      ((Uploading.putOff serde now due answer).bind fun _ => .done true) :=
    fun answer => (keeps_reschedule _).bind fun _ _ _ _ => .done fun _ _ => trivial
  have hacknowledge : ∀ storedKey files, (∀ d ∈ files, Warranted L identity due.candidate d) →
      Keeps serde sha256 L (fun _ _ => True)
        ((Uploading.acknowledge serde sha256 ledgerRoot identity due.candidate storedKey files).bind
          fun _ => .done true) :=
    fun storedKey files hfiles =>
      (keeps_acknowledge storedKey hfiles).bind fun _ _ _ _ => .done fun _ _ => trivial
  cases answered with
  | none => exact .done fun _ _ => trivial
  | some answer =>
    obtain ⟨⟨tree, hlog⟩, hdecoded⟩ := hanswered answer rfl
    cases answer with
    | endSweep => exact .done fun _ _ => trivial
    | retain text => exact hputOff _
    | removed => exact hacknowledge _ _ (warranted_of_removed hknown hlog)
    | result result =>
      obtain ⟨body, hbody⟩ := hdecoded result rfl
      dsimp only
      split
      · rename_i acks hvalid
        exact hacknowledge _ _ (warranted_of_valid hknown hlog hbody hvalid)
      · exact hputOff _

theorem keeps_uploadAll (now : ℤ) {dues : List Due} (hdues : ∀ due ∈ dues, due.Known K) :
    Keeps serde sha256 K (fun _ _ => True)
      (Uploading.uploadAll serde sha256 ledgerRoot identity now dues) := by
  induction dues generalizing K with
  | nil => exact .done fun _ _ => trivial
  | cons due dues ih =>
    refine keeps_look_any.bind fun stop L hL _ => .ite (fun _ => .done fun _ _ => trivial) fun _ => ?_
    have hfirst : due.Known L := (hdues due List.mem_cons_self).mono hL
    refine (keeps_upload now hfirst).bind fun goesOn L' hL' _ => .ite (fun _ => ?_)
      fun _ => .done fun _ _ => trivial
    exact ih fun other hother =>
      (hdues other (List.mem_cons_of_mem _ hother)).mono (List.Subset.trans hL hL')

theorem keeps_runSweep (hfaithful : serde.Faithful) (now : ℤ) :
    Keeps serde sha256 K (fun _ _ => True)
      (Uploading.runSweep serde sha256 ledgerRoot identity now) := by
  refine (keeps_localFinish hfaithful).bind fun finished L _ _ =>
    .ite (fun _ => .done fun _ _ => trivial) fun _ => ?_
  refine keeps_look_any.bind fun scanned L' _ _ => ?_
  cases scanned with
  | error e => exact .done fun _ _ => trivial
  | ok candidates =>
    refine (keeps_retain candidates).bind fun _ L₂ _ _ =>
      (keeps_lookAtAll hfaithful now candidates).bind fun dues L₃ _ hdues => ?_
    cases dues with
    | none => exact .done fun _ _ => trivial
    | some dues => exact keeps_uploadAll now (hdues dues rfl)

end Programs

/-! ## Runs -/

section Runs

variable {serde : Serde} {sha256 : Bytes → Str} {ledgerRoot : Bytes} {u : Uploader}

theorem InCustody.settle {α : Type} {r : Ended Empty α × Uploader}
    (h : InCustody serde sha256 r.2) : InCustody serde sha256 (Uploader.settle r) := by
  obtain ⟨ended, u⟩ := r
  cases ended with
  | done a => exact h
  | raised e => exact h
  | killed => exact h.restarted _

theorem InCustody.step (h : InCustody serde sha256 u) (hfaithful : serde.Faithful)
    (s : Uploader.Step serde) : InCustody serde sha256 (u.step serde sha256 ledgerRoot s) := by
  cases s with
  | sweep now moments =>
    exact .settle (Secures.run (keeps_runSweep hfaithful now) trivial (fun _ _ => trivial) h
      (List.nil_subset _))
  | localFinish moments =>
    exact .settle (Secures.run (keeps_localFinish hfaithful) trivial (fun _ _ => trivial) h
      (List.nil_subset _))
  | edit f => exact h.congr rfl rfl fun _ _ => id
  | restart identity => exact h.restarted identity

theorem InCustody.after (h : InCustody serde sha256 u) (hfaithful : serde.Faithful)
    (steps : List (Uploader.Step serde)) :
    InCustody serde sha256 (u.after serde sha256 ledgerRoot steps) := by
  induction steps generalizing u with
  | nil => exact h
  | cons s steps ih => exact ih (h.step hfaithful s)

/-- What allows to delete a file: the journal answered an upload of an inventory with this file, and
the content is the one that had been hashed for it. A valid receipt gives the size that the inventory
has, which is that of the content unless others wrote while it was taken. -/
inductive Authorised (sha256 : Bytes → Str) (log : List CustodyEvent) (identity : JournalIdentity)
    (candidate : SegmentCandidate) (name : Str) (content : Bytes) : Prop
  | receipt {inventory : List LocalFile} {result : UploadResult} {tree : LocalTree}
      {acks : List ParsedDescriptor} {d : ParsedDescriptor} {file : LocalFile}
      (answered : .answered identity candidate inventory (.result result) tree ∈ log)
      (valid : assessReceipt result inventory = .valid acks) (acknowledged : d ∈ acks)
      (submitted : d.submitted = name)
      (held : d.disposition = "written".toList ∨ d.disposition = "already_held".toList)
      (digest : d.sha256 = sha256 content) (size : d.size = file.size) (mem : file ∈ inventory)
      (named : file.name = name) (hashed : .hashed candidate file content ∈ log)
  | removed {inventory : List LocalFile} {tree : LocalTree} {file : LocalFile}
      (answered : .answered identity candidate inventory .removed tree ∈ log)
      (mem : file ∈ inventory) (named : file.name = name) (digest : file.sha256 = sha256 content)
      (hashed : .hashed candidate file content ∈ log)

/-- **Custody of captures.** A file is unlinked only under an answer of the same journal to an upload
of the same candidate, and only with the content that was inventoried for it. -/
theorem unlinked_authorised (injective : Function.Injective sha256) (faithful : serde.Faithful)
    {tree : LocalTree} {start identity : JournalIdentity} {steps : List (Uploader.Step serde)}
    {earlier later : List CustodyEvent} {candidate : SegmentCandidate} {name : Str} {content : Bytes}
    (unlinked : (Uploader.after serde sha256 ledgerRoot (.start tree start) steps).log =
      earlier ++ .unlinked identity candidate name content :: later) :
    Authorised sha256 earlier identity candidate name content := by
  have hcustody : InCustody serde sha256
      (Uploader.after serde sha256 ledgerRoot (.start tree start) steps) :=
    (InCustody.start tree start).after faithful steps
  obtain ⟨d, hd, hname, hdigest⟩ := hcustody.lawful _ _ _ unlinked
  obtain ⟨answered, backs, mem, named, size, digest, hashed⟩ := hd
  rename_i inventory answer tree' file hashedContent
  have hmem : .hashed candidate file hashedContent ∈
      (Uploader.after serde sha256 ledgerRoot (.start tree start) steps).log := by
    rw [unlinked]
    exact List.mem_append_left _ hashed
  have hfile : file.sha256 = sha256 hashedContent := hcustody.hashed hmem
  obtain rfl : hashedContent = content := injective (by rw [← hfile, digest, hdigest])
  cases backs with
  | receipt valid acknowledged held =>
    exact .receipt answered valid acknowledged hname held hdigest size.symm mem (named.trans hname)
      hashed
  | removed => exact .removed answered mem (named.trans hname) hfile hashed

end Runs

/-! ## Runs with one file -/

/-- The captures with one file. -/
def oneFileTree (content : Bytes) : LocalTree where
  captures := some <| .directory <| (∅ : Captures ℕ).insert (.str oneFileCandidate.day) <|
    .directory <| (∅ : DayFiles ℕ).insert (.str oneFileCandidate.stream) <|
    .directory <| (∅ : StreamFiles ℕ).insert (.str oneFileCandidate.segment) <|
    .directory <| (∅ : SegmentFiles ℕ).insert (.str oneFile.name) (.file 0)
  files := [⟨content, 0⟩]

/-- Its journal. -/
def oneFileIdentity : JournalIdentity := ⟨"journal".toList, "ca".toList, "1".toList⟩

/-- `oneFileText`, line by line. -/
def oneFileLines : Bytes := utf8 <| ['\n'].intercalate
  ["\x7b".toList, "  \"location\": \"/ledger/20260701/main/120000_300/ack.json\",".toList,
    "  \"day\": \"20260701\",".toList, "  \"stream\": \"main\",".toList,
    "  \"segment\": \"120000_300\",".toList, "  \"stored_key\": \"120000_300\",".toList,
    "  \"instance_id\": \"journal\",".toList, "  \"ca_fp_prefix_hex\": \"ca\",".toList,
    "  \"pairing_generation_hex\": \"1\",".toList, "  \"proof\": \"upload\",".toList,
    "  \"files\": [".toList, "    \x7b".toList,
    "      \"submitted\": \"120000_desktop_activity.jsonl\",".toList,
    "      \"written\": \"120000_desktop_activity.jsonl\",".toList, "      \"size\": 1,".toList,
    "      \"sha256\": \"0000000000000000000000000000000000000000000000000000000000000000\",".toList,
    "      \"disposition\": \"written\"".toList, "    \x7d".toList, "  ]".toList, "\x7d".toList]

/-- What `serde_json` does for the receipt of the file; other records are written to another text. -/
def keptSerde : Serde where
  uploadResponse := oneFileSerde.uploadResponse
  ackRecord := fun bytes => if bytes = oneFileLines then some oneFileRecord else none
  ackBytes := fun record => if record = oneFileRecord then oneFileLines else oneFileLines ++ [0]

theorem keptSerde_faithful : keptSerde.Faithful := by
  intro record found h
  by_cases hrecord : record = oneFileRecord
  · simp only [keptSerde, hrecord, if_true, Option.some.injEq] at h
    rw [← h, hrecord]
  · have hne : oneFileLines ++ [0] ≠ oneFileLines := by simp
    simp only [keptSerde, if_neg hrecord, if_neg hne] at h
    cases h

/-- A digest that ends in the bytes. -/
def paddedHex (bytes : Bytes) : Str := List.replicate 62 '0' ++ hexBytes bytes

theorem paddedHex_injective : Function.Injective paddedHex :=
  fun _ _ h => hexBytes_injective (List.append_cancel_left h)

/-- The journal's receipt of the file. -/
def oneFileResult : UploadResult := ⟨.ok, some "120000_300".toList, some (.ok [oneFileAck])⟩

theorem oneFileResult_decoded :
    decodeUploadResponse keptSerde.uploadResponse oneFileBody = some oneFileResult := by
  have hresponse : keptSerde.uploadResponse oneFileBody = some oneFileResponse := by
    simp [keptSerde, oneFileSerde]
  rw [decodeUploadResponse, hresponse]
  rfl

/-- The moment of the receipt. -/
def receiptMoment : Moment keptSerde where
  edit := id
  turn := .ok
  read := none
  write := .done
  answer := .result oneFileResult
  shutdown := false
  decoded := by
    rintro upload ⟨⟩
    exact ⟨oneFileBody, oneFileResult_decoded⟩

/-- A moment at which others write the file. -/
def writtenMoment (content : Bytes) (times : ℕ) : Moment keptSerde :=
  { (default : Moment keptSerde) with edit := fun tree => { tree with files := [⟨content, times⟩] } }

/-- A sweep from a digest and a content of the file, and what happens after it. -/
def oneFileRun (sha256 : Bytes → Str) (content : Bytes) (moments : List (Moment keptSerde))
    (steps : List (Uploader.Step keptSerde)) : Uploader :=
  .after keptSerde sha256 oneFileRoot (.start (oneFileTree content) oneFileIdentity)
    (.sweep 0 moments :: steps)

/-- The file is unlinked with a content. -/
def CustodyEvent.unlinksFile (content : Bytes) : CustodyEvent → Bool
  | unlinked identity candidate name found => identity = oneFileIdentity &&
      candidate = oneFileCandidate && name = oneFile.name && found = content
  | _ => false

theorem unlinked_of_any {log : List CustodyEvent} {content : Bytes}
    (h : log.any (·.unlinksFile content) = true) : ∃ earlier later, log = earlier ++
      .unlinked oneFileIdentity oneFileCandidate oneFile.name content :: later := by
  obtain ⟨e, he, hunlinks⟩ := List.any_eq_true.mp h
  cases e with
  | unlinked identity candidate name found =>
    simp only [CustodyEvent.unlinksFile, Bool.and_eq_true, decide_eq_true_eq] at hunlinks
    obtain ⟨⟨⟨rfl, rfl⟩, rfl⟩, rfl⟩ := hunlinks
    exact List.append_of_mem he
  | hashed => cases hunlinks
  | answered => cases hunlinks

/-- A file that is uploaded and acknowledged. -/
theorem unlinked_authorised_oneFile : ∃ log later,
    (oneFileRun paddedHex [0] (List.replicate 23 default ++ [receiptMoment]) []).log =
      log ++ .unlinked oneFileIdentity oneFileCandidate oneFile.name [0] :: later ∧
    Authorised paddedHex log oneFileIdentity oneFileCandidate oneFile.name [0] := by
  have hany : (oneFileRun paddedHex [0] (List.replicate 23 default ++ [receiptMoment]) []).log.any
      (·.unlinksFile [0]) = true := by decide +kernel
  obtain ⟨log, later, hlog⟩ := unlinked_of_any hany
  exact ⟨log, later, hlog, unlinked_authorised paddedHex_injective keptSerde_faithful hlog⟩

/-! ## Files that others write -/

/-- The journal gave a valid receipt for the file, with its size and digest. -/
def Receipted (sha256 : Bytes → Str) (log : List CustodyEvent) (identity : JournalIdentity)
    (candidate : SegmentCandidate) (name : Str) (content : Bytes) : Prop :=
  ∃ inventory result tree acks d, .answered identity candidate inventory (.result result) tree ∈ log ∧
    assessReceipt result inventory = .valid acks ∧ d ∈ acks ∧ d.submitted = name ∧
    (d.disposition = "written".toList ∨ d.disposition = "already_held".toList) ∧
    d.size = content.length ∧ d.sha256 = sha256 content

/-- The journal answered that the segment was removed, while the file had this digest. -/
def RemovedThen (sha256 : Bytes → Str) (log : List CustodyEvent) (candidate : SegmentCandidate)
    (name : Str) (content : Bytes) : Prop :=
  ∃ identity inventory tree found, .answered identity candidate inventory .removed tree ∈ log ∧
    tree.contentOf candidate name = some found ∧ sha256 found = sha256 content

/-- An answer by which one of the two holds of the file. -/
def CustodyEvent.allowsFile (sha256 : Bytes → Str) (content : Bytes) : CustodyEvent → Bool
  | answered _ candidate inventory (.result result) _ => candidate = oneFileCandidate &&
      match assessReceipt result inventory with
      | .valid acks => acks.any fun d => d.submitted = oneFile.name && d.size = content.length &&
          d.sha256 = sha256 content
      | _ => false
  | answered _ candidate _ .removed tree => candidate = oneFileCandidate &&
      (tree.contentOf candidate oneFile.name).any fun found => sha256 found = sha256 content
  | _ => false

theorem not_receipted {sha256 : Bytes → Str} {log : List CustodyEvent} {content : Bytes}
    {identity : JournalIdentity} (h : log.any (·.allowsFile sha256 content) = false) :
    ¬ Receipted sha256 log identity oneFileCandidate oneFile.name content := by
  rintro ⟨inventory, result, tree, acks, d, hlog, hvalid, hd, hname, -, hsize, hdigest⟩
  have hallows : (CustodyEvent.answered identity oneFileCandidate inventory (.result result)
      tree).allowsFile sha256 content = true := by
    simp only [CustodyEvent.allowsFile, hvalid, decide_true, Bool.true_and]
    exact List.any_eq_true.mpr ⟨d, hd, by simp [hname, hsize, hdigest]⟩
  rw [List.any_eq_true.mpr ⟨_, hlog, hallows⟩] at h
  cases h

theorem not_removedThen {sha256 : Bytes → Str} {log : List CustodyEvent} {content : Bytes}
    (h : log.any (·.allowsFile sha256 content) = false) :
    ¬ RemovedThen sha256 log oneFileCandidate oneFile.name content := by
  rintro ⟨identity, inventory, tree, found, hlog, hfound, hdigest⟩
  have hallows : (CustodyEvent.answered identity oneFileCandidate inventory .removed
      tree).allowsFile sha256 content = true := by
    simp [CustodyEvent.allowsFile, hfound, hdigest]
  rw [List.any_eq_true.mpr ⟨_, hlog, hallows⟩] at h
  cases h

/-- The answer that the segment was removed, just after others wrote the file. -/
def removedMoment : Moment keptSerde :=
  { writtenMoment [1] 1 with answer := .removed, decoded := nofun }

/-- Others put the content back before the next removals. -/
def restoredRun : Uploader :=
  oneFileRun paddedHex [0] (List.replicate 23 default ++ [removedMoment])
    [.edit fun tree => { tree with files := [⟨[0], 2⟩] }, .localFinish []]

/-- Many zeros. -/
def zeros : Bytes := List.replicate 32 0

/-- Others make the file short while its size is read, and put it back before it is hashed. -/
def tornRun : Uploader :=
  oneFileRun hexBytes zeros (List.replicate 9 default ++
    [writtenMoment [0] 0, writtenMoment zeros 0] ++ List.replicate 12 default ++ [receiptMoment]) []

/-- A file can go that had another digest when the journal answered that the segment was removed, and
one of which the receipt gives another size. -/
theorem unlinked_otherwise :
    (∃ earlier later, restoredRun.log =
        earlier ++ .unlinked oneFileIdentity oneFileCandidate oneFile.name [0] :: later ∧
      ¬ Receipted paddedHex restoredRun.log oneFileIdentity oneFileCandidate oneFile.name [0] ∧
      ¬ RemovedThen paddedHex restoredRun.log oneFileCandidate oneFile.name [0]) ∧
    ∃ earlier later, tornRun.log =
        earlier ++ .unlinked oneFileIdentity oneFileCandidate oneFile.name zeros :: later ∧
      ¬ Receipted hexBytes tornRun.log oneFileIdentity oneFileCandidate oneFile.name zeros ∧
      ¬ RemovedThen hexBytes tornRun.log oneFileCandidate oneFile.name zeros := by
  have hrestored : restoredRun.log.any (·.unlinksFile [0]) = true ∧
      restoredRun.log.any (·.allowsFile paddedHex [0]) = false := by decide +kernel
  have htorn : tornRun.log.any (·.unlinksFile zeros) = true ∧
      tornRun.log.any (·.allowsFile hexBytes zeros) = false := by decide +kernel
  obtain ⟨earlier, later, hlog⟩ := unlinked_of_any hrestored.1
  obtain ⟨earlier', later', hlog'⟩ := unlinked_of_any htorn.1
  exact ⟨⟨earlier, later, hlog, not_receipted hrestored.2, not_removedThen hrestored.2⟩,
    earlier', later', hlog', not_receipted htorn.2, not_removedThen htorn.2⟩

end SolstoneTmux
