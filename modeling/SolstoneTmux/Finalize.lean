import SolstoneTmux.Writer

/-!
# Closing a segment

`SegmentState.finalize` writes the final metadata, renames the segment's directory, writes the zone
record and removes the metadata. `CloseStage` lists the states of the stream directory between these
steps, and the rule `wp_finalize` says in which of them the operation can fail or be killed.
Recovery goes through the same stages when it finishes a segment.
-/

namespace SolstoneTmux

open Foundations Foundations.Prog SegmentLog

/-! ## Names -/

/-- A finalized name ends in a digit. -/
theorem finalizedName_getLast? (stem : Str) (elapsed : ℕ) :
    ∃ c, (finalizedName stem elapsed).getLast? = some c ∧ isDigit c = true := by
  have hne : padLeft 3 (decimal (asSecs elapsed)) ≠ [] := by
    intro h
    have := le_length_padLeft 3 (decimal (asSecs elapsed))
    rw [h] at this
    simp at this
  refine ⟨_, ?_, isDigit_of_mem_padLeft (fun c hc => isDigit_of_mem_decimal hc)
    (List.getLast_mem hne)⟩
  rw [finalizedName, List.getLast?_append_of_ne_nil _ (by simp), List.getLast?_cons,
    List.getLast?_eq_some_getLast hne]
  rfl

theorem finalizedName_ne {stem : Str} {elapsed : ℕ} {name : Str} {c : Char}
    (hc : name.getLast? = some c) (hd : isDigit c = false) : finalizedName stem elapsed ≠ name := by
  rintro rfl
  obtain ⟨c', hc', hd'⟩ := finalizedName_getLast? stem elapsed
  rw [hc] at hc'
  cases hc'
  rw [hd] at hd'
  cases hd'

theorem getLast?_append_toList (s : Str) {t : Str} {c : Char} (h : t.getLast? = some c) :
    (s ++ t).getLast? = some c := by
  rw [List.getLast?_append, h]
  rfl

theorem incompleteName_getLast? (stem : Str) : (incompleteName stem).getLast? = some 'e' :=
  getLast?_append_toList stem rfl

theorem incompleteMetaName_getLast? (stem : Str) : (incompleteMetaName stem).getLast? = some 'a' :=
  getLast?_append_toList stem rfl

theorem zoneName_getLast? (name : Str) : (name ++ ".zone.json".toList).getLast? = some 'n' :=
  getLast?_append_toList name rfl

/-- Texts with different last characters are different names. -/
theorem str_ne {s t : Str} {c c' : Char} (hs : s.getLast? = some c) (ht : t.getLast? = some c')
    (h : c ≠ c') : OsName.str s ≠ .str t := by
  intro heq
  rw [OsName.str.inj heq, ht] at hs
  exact h (Option.some.inj hs).symm

/-- The names that closing a segment touches. -/
structure CloseNames (stem finalized : Str) : Prop where
  finalized_incomplete : OsName.str finalized ≠ .str (incompleteName stem)
  finalized_meta : OsName.str finalized ≠ .str (incompleteMetaName stem)
  zone_incomplete : captureTimePath finalized ≠ .str (incompleteName stem)
  zone_meta : captureTimePath finalized ≠ .str (incompleteMetaName stem)
  zone_finalized : captureTimePath finalized ≠ .str finalized

theorem closeNames (stem : Str) (elapsed : ℕ) : CloseNames stem (finalizedName stem elapsed) where
  finalized_incomplete h :=
    finalizedName_ne (incompleteName_getLast? stem) (by decide) (OsName.str.inj h)
  finalized_meta h :=
    finalizedName_ne (incompleteMetaName_getLast? stem) (by decide) (OsName.str.inj h)
  zone_incomplete := str_ne (zoneName_getLast? _) (incompleteName_getLast? _) (by decide)
  zone_meta := str_ne (zoneName_getLast? _) (incompleteMetaName_getLast? _) (by decide)
  zone_finalized h :=
    finalizedName_ne (zoneName_getLast? _) (by decide) (OsName.str.inj h).symm

/-! ## Stages -/

/-- How far closing a segment has come on the disk. -/
inductive CloseStage
  | before
  | recorded
  | renamed
  | zoned
  | settled
  deriving DecidableEq

/-- The stream directory after the segment's directory took its final name. -/
def renamedDir (stem : Str) (m : SegmentMetadata) (members : SegmentDir) (d : StreamDir) :
    StreamDir :=
  (d.erase (.str (incompleteName stem))).insert (.str m.finalizedDir) (.directory members)

/-- The stream directory after the zone record was written. -/
def zonedDir (m : SegmentMetadata) (d : StreamDir) : StreamDir :=
  d.insert (captureTimePath m.finalizedDir) (.file (.captureTime (SegmentState.captureTime m)))

/-- The stream directory at a stage of closing the segment of a stem with final metadata `m`. -/
def CloseStage.dir (stem : Str) (m : SegmentMetadata) (members : SegmentDir) (d : StreamDir) :
    CloseStage → StreamDir
  | before => d
  | recorded => createdMeta stem m d
  | renamed => renamedDir stem m members (createdMeta stem m d)
  | zoned => zonedDir m (renamedDir stem m members (createdMeta stem m d))
  | settled =>
    (zonedDir m (renamedDir stem m members (createdMeta stem m d))).erase
      (.str (incompleteMetaName stem))

section Stages

variable {stem : Str} {m : SegmentMetadata} {members : SegmentDir} {d : StreamDir}

/-- A closed segment's directory holds what the open one held. -/
theorem CloseStage.settled_finalized (names : CloseNames stem m.finalizedDir) :
    (settled.dir stem m members d)[OsName.str m.finalizedDir]? = some (.directory members) := by
  rw [dir, Table.get_erase_ne names.finalized_meta.symm, zonedDir,
    Table.get_insert_ne names.zone_finalized, renamedDir, Table.get_insert_self]

/-- A closed segment has its zone record. -/
theorem CloseStage.settled_zone (names : CloseNames stem m.finalizedDir) :
    (settled.dir stem m members d)[captureTimePath m.finalizedDir]? =
      some (.file (.captureTime (SegmentState.captureTime m))) := by
  rw [dir, Table.get_erase_ne names.zone_meta.symm, zonedDir, Table.get_insert_self]

/-- Nothing of the open segment is left after it is closed. -/
theorem CloseStage.settled_open (names : CloseNames stem m.finalizedDir) :
    (settled.dir stem m members d)[OsName.str (incompleteName stem)]? = none ∧
      (settled.dir stem m members d)[OsName.str (incompleteMetaName stem)]? = none := by
  constructor
  · rw [dir, Table.get_erase_ne (incomplete_ne_meta _ _).symm, zonedDir,
      Table.get_insert_ne names.zone_incomplete, renamedDir,
      Table.get_insert_ne names.finalized_incomplete, Table.get_erase_self]
  · rw [dir, Table.get_erase_self]

end Stages

/-! ## Finalizing -/

section Finalize

variable {A : Turn → Prop} {ε : Type} {stem : Str} {d : StreamDir} {seg : SegmentState}
  {log : SegmentLog} {members : SegmentDir}

/-- An open segment that can be closed: the disk holds its files under the log, and some metadata
file. That file may still be an older one, when writing the final metadata failed before. -/
structure Closable (stem : Str) (d : StreamDir) (seg : SegmentState) (log : SegmentLog)
    (members : SegmentDir) : Prop where
  segment : segmentMembers d (.str (incompleteName stem)) = some members
  metadata : MetadataOf log stem seg.metadata
  metaFile : ∃ c, d[OsName.str (incompleteMetaName stem)]? = some (.file c)
  incompleteDir : seg.incompleteDir = incompleteName stem
  metadataPath : seg.metadataPath = incompleteMetaName stem
  sound : seg.poisoned = false
  isOpen : seg.closed = none

theorem Records.closable {decoder : Decoder} (h : Records decoder stem d seg log members) :
    Closable stem d seg log members where
  segment := h.segment
  metadata := h.metadata
  metaFile := ⟨_, h.onDisk⟩
  incompleteDir := h.incompleteDir
  metadataPath := h.metadataPath
  sound := h.sound
  isOpen := h.isOpen

theorem lengthOf_finalizing (hm : MetadataOf log stem seg.metadata) (now : ℕ) :
    LengthOf stem (seg.finalizing now).metadata (seg.lengthAt now) :=
  have h := lengthOf_recordLength hm.incomplete (seg.elapsed now) seg.segmentInterval
  ⟨h.finalized, h.elapsed⟩

theorem metadataOf_finalizing (hm : MetadataOf log stem seg.metadata) (now : ℕ) :
    MetadataOf log stem (seg.finalizing now).metadata :=
  have hr := hm.recordLength (seg.elapsed now) seg.segmentInterval
  { schema := hr.schema
    started := by simp [SegmentState.finalizing]
    incomplete := hr.incomplete
    length := ⟨_, lengthOf_finalizing hm now⟩
    offset := hr.offset
    start := hr.start
    lastId := hr.lastId
    count := hr.count
    hasFrames := hr.hasFrames
    activity := hr.activity
    sessions := hr.sessions }

theorem wp_syncHandles {storage : FileStorage} {Q : Ended StorageError Unit → StreamDir → Prop}
    (hok : Q (.done ()) d) (hfail : canFail A → ∀ e, Q (.raised e) d)
    (hkill : canKill A → Q .killed d) : wp A storage.syncHandles Q d := by
  rw [FileStorage.syncHandles]
  refine wp_forEach (fun _ s => s = d) ?_ (fun s hs => hs ▸ hok) rfl
  rintro filename _ s rfl
  exact wp_call_barrier rfl (fun hf => hfail hf _) hkill

/-- After the rename the segment gets its zone record and loses its metadata. -/
theorem wp_settleSteps {Q : Ended SegmentError SegmentClose → StreamDir → Prop} {d₂ d₃ : StreamDir}
    (names : CloseNames stem seg.metadata.finalizedDir)
    (hpath : seg.metadataPath = incompleteMetaName stem) {c : Contents}
    (hmeta : d[OsName.str (incompleteMetaName stem)]? = some (.file c))
    (hzoned : d₂ = zonedDir seg.metadata d)
    (hsettled : d₃ = d₂.erase (.str (incompleteMetaName stem)))
    (hkill : canKill A → Q .killed d ∧ Q .killed d₂ ∧ Q .killed d₃)
    (hraise : canFail A ∨ ¬ PlainTarget d (captureTimePath seg.metadata.finalizedDir) →
      ∀ e, Q (.raised e) d)
    (hraise' : canFail A → ∀ e, Q (.raised e) d₂ ∧ Q (.raised e) d₃)
    (hdone : Q (.done (.finalized seg.metadata.finalizedDir)) d₃) : wp A seg.settleSteps Q d := by
  subst hzoned hsettled
  have hfile : (zonedDir seg.metadata d)[OsName.str (incompleteMetaName stem)]? =
      some (.file c) := by
    rw [zonedDir, Table.get_insert_ne names.zone_meta, hmeta]
  rw [SegmentState.settleSteps, hpath, wp_bind, wp_rethrow]
  refine wp_call_barrier ?_ (fun hf => hraise (.inl hf) _) fun hk => (hkill hk).1
  rw [mapRaised, andThen_done, wp_bind, wp_rethrow, writeCaptureTime]
  refine wp_atomicWriteBytes (fun _ => ?_) (fun h e => hraise h _) (fun _ hf e => (hraise' hf _).1)
    (fun hk => (hkill hk).1) fun _ hk => (hkill hk).2.1
  rw [mapRaised, andThen_done, wp_bind]
  refine wp_call_atomic (unlinked_of_file hfile) ?_ (fun hf => (hraise' hf _).1)
    fun hk => (hkill hk).2.1
  rw [andThen_done, wp_bind, wp_rethrow]
  exact wp_call_barrier hdone (fun hf => (hraise' hf _).2) fun hk => (hkill hk).2.2

/-- The steps of a finalization after the metadata was written. The name is looked at first, and
only a look that fails lets the rename meet something under it. -/
theorem wp_finalizeSteps {Q : Ended SegmentError SegmentClose → StreamDir → Prop}
    (names : CloseNames stem seg.metadata.finalizedDir)
    (hdir : seg.incompleteDir = incompleteName stem)
    (hpath : seg.metadataPath = incompleteMetaName stem)
    (hseg : segmentMembers d (.str (incompleteName stem)) = some members) {c : Contents}
    (hmeta : d[OsName.str (incompleteMetaName stem)]? = some (.file c))
    (hstop : canFail A ∨ d[OsName.str seg.metadata.finalizedDir]?.isSome = true →
      ∀ e, Q (.raised e) d)
    (hkill : canKill A → Q .killed d)
    (hgo : d[OsName.str seg.metadata.finalizedDir]? = none ∨ A .blind →
      ∀ d₁ d₂ d₃, d₁ = renamedDir stem seg.metadata members d → d₂ = zonedDir seg.metadata d₁ →
        d₃ = d₂.erase (.str (incompleteMetaName stem)) →
        (canKill A → Q .killed d₁ ∧ Q .killed d₂ ∧ Q .killed d₃) ∧
          (canFail A ∨ ¬ PlainTarget d (captureTimePath seg.metadata.finalizedDir) →
            ∀ e, Q (.raised e) d₁) ∧
          (canFail A → ∀ e, Q (.raised e) d₂ ∧ Q (.raised e) d₃) ∧
          Q (.done (.finalized seg.metadata.finalizedDir)) d₃) :
    wp A seg.finalizeSteps Q d := by
  have hrename : d[OsName.str seg.metadata.finalizedDir]? = none ∨ A .blind →
      wp A seg.renameSteps Q d := by
    intro hfree
    obtain ⟨hkills, hraise, hraise', hdone⟩ := hgo hfree _ _ _ rfl rfl rfl
    have hzone : PlainTarget (renamedDir stem seg.metadata members d)
        (captureTimePath seg.metadata.finalizedDir) ↔
          PlainTarget d (captureTimePath seg.metadata.finalizedDir) := by
      rw [PlainTarget, renamedDir, Table.get_insert_ne names.zone_finalized.symm,
        Table.get_erase_ne names.zone_incomplete.symm, PlainTarget]
    have hmeta' : (renamedDir stem seg.metadata members d)[
        OsName.str (incompleteMetaName stem)]? = some (.file c) := by
      rw [renamedDir, Table.get_insert_ne names.finalized_meta,
        Table.get_erase_ne (incomplete_ne_meta _ _), hmeta]
    rw [SegmentState.renameSteps, wp_bind, hdir]
    rcases renamed_or (segmentMembers_eq_some.mp hseg) names.finalized_incomplete.symm with
      hr | ⟨hsome, hr⟩
    · refine wp_call_atomic hr ?_ (fun hf => hstop (.inl hf) _) hkill
      rw [andThen_done]
      exact wp_settleSteps names hpath hmeta' rfl rfl hkills
        (fun h => hraise (h.imp id fun hbad => mt hzone.mpr hbad)) hraise' hdone
    · exact wp_call_atomic_error hr (hstop (.inr hsome) _) (fun hf => hstop (.inl hf) _) hkill
  rw [SegmentState.finalizeSteps, wp_bind, entryVisible]
  refine wp_glance ?_ (fun hb => ?_) hkill
  · rw [andThen_done]
    split
    · rename_i hsome
      exact hstop (.inr hsome) _
    · rename_i hnone
      exact hrename (.inl (by simpa using hnone))
  · rw [andThen_done, if_neg (by simp)]
    exact hrename (.inr hb)

/-- The stages that a finalization reaches: it renames only to a free name, unless it did not see
what was there. -/
def CloseStage.Reached (A : Turn → Prop) (d : StreamDir) (m : SegmentMetadata) :
    CloseStage → Prop
  | before | recorded => True
  | _ => d[OsName.str m.finalizedDir]? = none ∨ A .blind

/-- A segment that a finalization left open: its metadata in memory is final. -/
def StillOpen (seg seg' : SegmentState) : Prop := seg' = seg ∨ seg' = seg.withoutHandles

/-- **Finalizing a segment that is not empty.** -/
theorem wp_finalize {Q : Ended ε (SegmentState × Except SegmentError SegmentClose) →
      StreamDir → Prop} {listing : Listing} {now : ℕ} {m : SegmentMetadata}
    (h : Closable stem d seg log members)
    (hne : log.frames ≠ [] ∨ log.activity ≠ []) (hm : m = (seg.finalizing now).metadata)
    (hkill : canKill A → ∀ stage : CloseStage, stage.Reached A d m →
      Q .killed (stage.dir stem m members d))
    (hfail : canFail A ∨ d[OsName.str m.finalizedDir]?.isSome = true ∨
        ¬ PlainTarget d (captureTimePath m.finalizedDir) →
      ∀ stage : CloseStage, stage.Reached A d m → ∀ seg' e, StillOpen (seg.finalizing now) seg' →
        Q (.done (seg', .error e)) (stage.dir stem m members d))
    (hdone : d[OsName.str m.finalizedDir]? = none ∨ A .blind → ∀ seg',
      seg'.closed = some (.finalized m.finalizedDir) →
      Q (.done (seg', .ok (.finalized m.finalizedDir))) (CloseStage.settled.dir stem m members d)) :
    wp A (seg.finalize listing now) Q d := by
  obtain ⟨c, hc⟩ := h.metaFile
  have hplain : PlainTarget d (.str (incompleteMetaName stem)) := by
    intro node hnode
    rw [hc] at hnode
    cases hnode
    rfl
  have hlength := lengthOf_finalizing h.metadata now
  rw [← hm] at hlength
  have names : CloseNames stem m.finalizedDir := hlength.finalized ▸ closeNames _ _
  have hempty : ¬ (!seg.metadata.hasDurableFrames && seg.metadata.activityDurableOffset = 0) =
      true := by
    rw [h.metadata.hasFrames, h.metadata.activity]
    rcases hne with hne | hne <;> simp [List.length_pos_iff, hne]
  rw [SegmentState.finalize, h.isOpen]
  dsimp only
  rw [if_neg (by simp [h.sound]), if_neg hempty, wp_bind, wp_attempt, atomicWriteMetadata,
    show (seg.finalizing now).metadataPath = incompleteMetaName stem from h.metadataPath, ← hm]
  refine wp_atomicWriteBytes (fun _ => ?_) (fun hf e => ?_) (fun _ hf e => ?_)
    (fun hk => hkill hk .before trivial) (fun _ hk => hkill hk .recorded trivial)
  · rw [attempted_done, andThen_done, wp_bind, wp_attempt, wp_rethrow]
    refine wp_syncHandles ?_ (fun hf e => hfail (.inl hf) .recorded trivial _ _ (.inr rfl))
      fun hk => hkill hk .recorded trivial
    rw [mapRaised, attempted_done, andThen_done, wp_bind, wp_attempt]
    have hseg : segmentMembers (createdMeta stem m d) (.str (incompleteName stem)) =
        some members := by
      rw [createdMeta, segmentMembers_insert_ne (incomplete_ne_meta _ _).symm, h.segment]
    have hfin : (createdMeta stem m d)[OsName.str m.finalizedDir]? =
        d[OsName.str m.finalizedDir]? := Table.get_insert_ne names.finalized_meta.symm
    have hzone : PlainTarget (createdMeta stem m d) (captureTimePath m.finalizedDir) ↔
        PlainTarget d (captureTimePath m.finalizedDir) := by
      rw [PlainTarget, createdMeta, Table.get_insert_ne names.zone_meta.symm, PlainTarget]
    have hmem : (seg.finalizing now).withoutHandles.metadata = m := hm.symm
    change wp A (seg.finalizing now).withoutHandles.finalizeSteps _ (createdMeta stem m d)
    refine wp_finalizeSteps (hmem ▸ names) h.incompleteDir h.metadataPath hseg
      (Table.get_insert_self _ _ _) ?_ (fun hk => hkill hk .recorded trivial) ?_
    · rw [hmem, hfin]
      intro hstop e
      exact hfail (hstop.imp id .inl) .recorded trivial _ _ (.inr rfl)
    · rw [hmem, hfin, hzone]
      rintro hfree _ _ _ rfl rfl rfl
      refine ⟨fun hk => ⟨hkill hk .renamed hfree, hkill hk .zoned hfree, hkill hk .settled hfree⟩,
        fun hf e => ?_, fun hf e => ⟨?_, ?_⟩, hdone hfree _ rfl⟩
      · exact hfail (hf.imp id .inr) .renamed hfree _ _ (.inr rfl)
      · exact hfail (.inl hf) .zoned hfree _ _ (.inr rfl)
      · exact hfail (.inl hf) .settled hfree _ _ (.inr rfl)
  · rcases hf with hf | hbad
    · exact hfail (.inl hf) .before trivial _ _ (.inl rfl)
    · exact absurd hplain hbad
  · exact hfail (.inl hf) .recorded trivial _ _ (.inl rfl)

end Finalize

end SolstoneTmux
