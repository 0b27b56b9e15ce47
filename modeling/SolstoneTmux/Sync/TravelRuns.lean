import SolstoneTmux.Agreement
import SolstoneTmux.Sync.Travel

/-!
# The zone record travels with its segment

`zone_travels`: beside any sweeps, a segment that is finalized is uploaded with its zone, and leaves
no zone record behind when it was acknowledged and removed, as long as no upload loaded the zone
between the rename and the write of the record. Otherwise it is uploaded without its zone, and its
record may stay (`zone_left_behind`).

`Tracked` is what holds of the sweeps at every point, and `Recorded` what the write of the zone
record adds.
-/

namespace SolstoneTmux

open Foundations Foundations.Prog SweptSegment

/-! ## What holds between the steps -/

/-- A segment whose removal is over. -/
def SweptSegment.IsClosed (segment : Str) (w : SweptSegment) : Prop :=
  w.dir[OsName.str segment]? = none ∧ w.phase = .idle

/-- The zone of an upload is the record's, or what was there before the record. -/
def Upload.Fits (time : CaptureTime) (stale : Option CaptureTime) (u : Upload) : Prop :=
  if u.late then u.zone = some time else u.zone = none ∨ u.zone = stale

/-- A phase that follows an upload or a receipt. -/
def SweepPhase.followsUpload : SweepPhase → Bool
  | answered | acknowledged | removed true => true
  | _ => false

/-- The sweeps of a segment at any point of its finalization. -/
structure Tracked (parse : Bytes → Option CaptureTime) (stem segment : Str) (time : CaptureTime)
    (stale : Option (Node Contents SegmentDir)) (w : SweptSegment) : Prop where
  uploads : ∀ u ∈ w.uploads, u.Fits time (loadCaptureTime parse stale).meta
  loaded : ∀ zone late, w.phase = .loaded zone late →
    Upload.Fits time (loadCaptureTime parse stale).meta ⟨zone, late⟩
  early : w.zoned = false → w.dir[OsName.str (incompleteMetaName stem)]?.isSome = true ∧
    (w.dir[captureTimePath segment]? = stale ∨ w.dir[captureTimePath segment]? = none) ∧
    (∀ u ∈ w.uploads, u.late = false) ∧ ∀ zone late, w.phase = .loaded zone late → late = false
  recorded : w.zoned = true → w.dir[captureTimePath segment]? = some (.file (.captureTime time)) ∨
    w.IsClosed segment
  uploaded : w.phase.followsUpload = true ∨ w.receipt = true ∨ w.settled = true → w.uploads ≠ []
  removed : ∀ acknowledged, w.phase = .removed acknowledged →
    w.dir[OsName.str segment]? = none
  settled : w.settled = true → w.IsClosed segment ∧
    (w.dir[captureTimePath segment]? = none ∨ ∃ u ∈ w.uploads, u.late = false)

/-! ## Steps of a sweep -/

section Acts

variable {parse : Bytes → Option CaptureTime} {stem segment : Str} {time : CaptureTime}
  {stale : Option (Node Contents SegmentDir)} {w : SweptSegment}

theorem not_isClosed_of_phase (h : w.phase ≠ .idle) : ¬ w.IsClosed segment := fun hc => h hc.2

/-- A step that only moves the sweep on. -/
theorem Tracked.moveTo (h : Tracked parse stem segment time stale w)
    (hopen : ¬ w.IsClosed segment) (phase : SweepPhase)
    (hloaded : ∀ zone late, phase = .loaded zone late →
      Upload.Fits time (loadCaptureTime parse stale).meta ⟨zone, late⟩ ∧
        (w.zoned = false → late = false))
    (hfollows : phase.followsUpload = true → w.uploads ≠ [])
    (hremoved : ∀ acknowledged, phase = .removed acknowledged → w.dir[OsName.str segment]? = none) :
    Tracked parse stem segment time stale { w with phase := phase } where
  uploads := h.uploads
  loaded := fun zone late hphase => (hloaded zone late hphase).1
  early := fun hz => ⟨(h.early hz).1, (h.early hz).2.1, (h.early hz).2.2.1,
    fun zone late hphase => (hloaded zone late hphase).2 hz⟩
  recorded := fun hz => (h.recorded hz).imp id fun hc => absurd hc hopen
  uploaded := fun hf => hf.elim hfollows fun hf => h.uploaded (.inr hf)
  removed := hremoved
  settled := fun hs => absurd (h.settled hs).1 hopen

/-- A phase that is neither a load nor after an upload. -/
def SweepPhase.isPlain : SweepPhase → Bool
  | loaded _ _ | answered | acknowledged | removed _ => false
  | _ => true

theorem followsUpload_of_isPlain {phase : SweepPhase} (h : phase.isPlain = true) :
    phase.followsUpload = false := by
  cases phase <;> first | rfl | cases h

theorem Tracked.moveToPlain (h : Tracked parse stem segment time stale w)
    (hopen : ¬ w.IsClosed segment) {phase : SweepPhase} (hplain : phase.isPlain = true) :
    Tracked parse stem segment time stale { w with phase := phase } := by
  refine h.moveTo hopen phase ?_ ?_ ?_
  · rintro zone late rfl
    cases hplain
  · rw [followsUpload_of_isPlain hplain]
    nofun
  · rintro acknowledged rfl
    cases hplain

theorem isPlain_resolved (pass : SweepPass) (members : Option SegmentDir) :
    (resolved segment pass members).isPlain = true := by
  unfold resolved
  split
  · rfl
  · split <;> rfl

theorem receiptRead_cases (pass : SweepPass) (valid : Bool) :
    (receiptRead pass valid).isPlain = true ∨
      receiptRead pass valid = .acknowledged ∧ valid = true := by
  cases pass <;> cases valid <;> simp [receiptRead, SweepPhase.isPlain]

/-- What is loaded fits: the record once it is written, and before that what was there. -/
theorem Tracked.load (h : Tracked parse stem segment time stale w)
    (hopen : ¬ w.IsClosed segment) :
    Upload.Fits time (loadCaptureTime parse stale).meta
      ⟨(loadCaptureTime parse w.dir[captureTimePath segment]?).meta, w.zoned⟩ := by
  cases hz : w.zoned with
  | true =>
    rcases h.recorded hz with hr | hc
    · rw [hr]
      rfl
    · exact absurd hc hopen
  | false =>
    rcases (h.early hz).2.1 with hr | hr
    · rw [hr]
      exact .inr rfl
    · rw [hr]
      exact .inl rfl

theorem Tracked.upload (h : Tracked parse stem segment time stale w) {zone : Option CaptureTime}
    {late : Bool} (hphase : w.phase = .loaded zone late) {phase : SweepPhase}
    (hnext : phase = .answered ∨ phase = .idle) :
    Tracked parse stem segment time stale
      { w with phase := phase, uploads := w.uploads ++ [⟨zone, late⟩] } where
  uploads := by
    intro u hu
    rcases List.mem_append.mp hu with hu | hu
    · exact h.uploads u hu
    · rw [List.mem_singleton.mp hu]
      exact h.loaded zone late hphase
  loaded := by
    rintro zone' late' rfl
    rcases hnext with h | h <;> cases h
  early := by
    intro hz
    obtain ⟨hmeta, hzone, hall, hlate⟩ := h.early hz
    refine ⟨hmeta, hzone, fun u hu => ?_, ?_⟩
    · rcases List.mem_append.mp hu with hu | hu
      · exact hall u hu
      · rw [List.mem_singleton.mp hu]
        exact hlate zone late hphase
    · rintro zone' late' rfl
      rcases hnext with h | h <;> cases h
  recorded := fun hz => (h.recorded hz).imp id fun hc =>
    absurd hc (not_isClosed_of_phase (by rw [hphase]; nofun))
  uploaded := fun _ => by simp
  removed := by
    rintro acknowledged rfl
    rcases hnext with h | h <;> cases h
  settled := fun hs =>
    absurd (h.settled hs).1 (not_isClosed_of_phase (by rw [hphase]; nofun))

/-- The directory of the segment is gone; the zone record is not touched. -/
theorem Tracked.delete (h : Tracked parse stem segment time stale w) (names : CloseNames stem segment)
    (hopen : ¬ w.IsClosed segment) {dir : StreamDir}
    (hdir : ∀ name, name ≠ OsName.str segment → dir[name]? = w.dir[name]?)
    (hgone : dir[OsName.str segment]? = none) {acknowledged : Bool}
    (hfollows : acknowledged = true → w.uploads ≠ []) :
    Tracked parse stem segment time stale
      { w with dir := dir, phase := .removed acknowledged } where
  uploads := h.uploads
  loaded := nofun
  early := by
    intro hz
    obtain ⟨hmeta, hzone, hall, -⟩ := h.early hz
    rw [hdir _ names.finalized_meta.symm, hdir _ names.zone_finalized]
    exact ⟨hmeta, hzone, hall, nofun⟩
  recorded := by
    intro hz
    rw [hdir _ names.zone_finalized]
    exact (h.recorded hz).imp id fun hc => absurd hc hopen
  uploaded := by
    rintro (hf | hf)
    · cases acknowledged with
      | true => exact hfollows rfl
      | false => cases hf
    · exact h.uploaded (.inr hf)
  removed := fun _ _ => hgone
  settled := fun hs => absurd (h.settled hs).1 hopen

/-- The zone record goes last. -/
theorem Tracked.removeZone (h : Tracked parse stem segment time stale w)
    (names : CloseNames stem segment) {acknowledged : Bool}
    (hphase : w.phase = .removed acknowledged) :
    Tracked parse stem segment time stale
      { w with
        dir := (unlinked (captureTimePath segment) w.dir).2
        phase := .idle
        receipt := false
        settled := w.settled || acknowledged } := by
  have hopen : ¬ w.IsClosed segment := not_isClosed_of_phase (by rw [hphase]; nofun)
  have hother : ∀ name, name ≠ captureTimePath segment →
      (unlinked (captureTimePath segment) w.dir).2[name]? = w.dir[name]? := by
    intro name hname
    unfold unlinked
    split
    · rfl
    · rfl
    · exact Table.get_erase_ne hname.symm
  have hzone : (unlinked (captureTimePath segment) w.dir).2[captureTimePath segment]? =
      w.dir[captureTimePath segment]? ∨
        (unlinked (captureTimePath segment) w.dir).2[captureTimePath segment]? = none := by
    unfold unlinked
    split
    · exact .inl rfl
    · exact .inl rfl
    · exact .inr (Table.get_erase_self _ _)
  have hclosed : (unlinked (captureTimePath segment) w.dir).2[OsName.str segment]? = none := by
    rw [hother _ names.zone_finalized.symm]
    exact h.removed acknowledged hphase
  have hrecorded : w.zoned = true →
      (unlinked (captureTimePath segment) w.dir).2[captureTimePath segment]? = none := by
    intro hz
    rcases h.recorded hz with hr | hc
    · rw [unlinked_of_file hr]
      exact Table.get_erase_self _ _
    · exact absurd hc hopen
  exact
    { uploads := h.uploads
      loaded := nofun
      early := by
        intro hz
        obtain ⟨hmeta, hstale, hall, -⟩ := h.early hz
        rw [hother _ names.zone_meta.symm]
        refine ⟨hmeta, ?_, hall, nofun⟩
        rcases hzone with hsame | hnone
        · rw [hsame]
          exact hstale
        · exact .inr hnone
      recorded := fun _ => .inr ⟨hclosed, rfl⟩
      uploaded := by
        rintro (hf | hf | hf)
        · cases hf
        · cases hf
        · rcases Bool.or_eq_true_iff.mp hf with hs | rfl
          · exact h.uploaded (.inr (.inr hs))
          · exact h.uploaded (.inl (by rw [hphase]; rfl))
      removed := nofun
      settled := by
        intro hs
        refine ⟨⟨hclosed, rfl⟩, ?_⟩
        cases hz : w.zoned with
        | true => exact .inl (hrecorded hz)
        | false =>
          rcases Bool.or_eq_true_iff.mp hs with hs | rfl
          · exact absurd (h.settled hs).1 hopen
          · have hne := h.uploaded (.inl (by rw [hphase]; rfl))
            obtain ⟨u, hu⟩ := List.exists_mem_of_ne_nil _ hne
            exact .inr ⟨u, hu, (h.early hz).2.2.1 u hu⟩ }

theorem Tracked.writeReceipt (h : Tracked parse stem segment time stale w)
    (hphase : w.phase = .answered) :
    Tracked parse stem segment time stale { w with phase := .acknowledged, receipt := true } :=
  have hne : w.uploads ≠ [] := h.uploaded (.inl (by rw [hphase]; rfl))
  have hopen : ¬ w.IsClosed segment := not_isClosed_of_phase (by rw [hphase]; nofun)
  have hnext := h.moveTo hopen .acknowledged nofun (fun _ => hne) nofun
  { hnext with uploaded := fun _ => hne }

/-- A directory that `rmdir` removed or did not find is not there. -/
theorem withoutDir_gone {name : OsName} {d d' : StreamDir} {answer : Except IoKind Unit}
    (hother : answer ≠ .error .other)
    (h : withoutDir name d = (answer, d')) :
    (∀ other, other ≠ name → d'[other]? = d[other]?) ∧ d'[name]? = none := by
  unfold withoutDir at h
  split at h
  · rename_i hnone
    cases h
    exact ⟨fun _ _ => rfl, hnone⟩
  · split at h
    · cases h
      exact ⟨fun other hne => Table.get_erase_ne hne.symm, Table.get_erase_self _ _⟩
    · cases h
      exact absurd rfl hother
  · cases h
    exact absurd rfl hother

/-- Every step of a sweep. -/
theorem Tracked.act (h : Tracked parse stem segment time stale w) (names : CloseNames stem segment)
    (a : SweepAct) : Tracked parse stem segment time stale (w.act parse segment a) := by
  have hopen : w.phase ≠ .idle → ¬ w.IsClosed segment := not_isClosed_of_phase
  unfold SweptSegment.act
  split
  case h_1 pass hphase =>
    split
    · rename_i hfound
      refine h.moveToPlain ?_ rfl
      rintro ⟨hnone, -⟩
      simp [segmentMembers, hnone] at hfound
    · exact h
  case h_2 pass hphase =>
    exact h.moveToPlain (hopen (by rw [hphase]; nofun)) (isPlain_resolved _ _)
  case h_3 valid pass hphase =>
    rcases receiptRead_cases pass (w.receipt && valid) with hplain | ⟨hread, hboth⟩
    · exact h.moveToPlain (hopen (by rw [hphase]; nofun)) hplain
    · rw [hread]
      refine h.moveTo (hopen (by rw [hphase]; nofun)) _ nofun (fun _ => ?_) nofun
      exact h.uploaded (.inr (.inl (Bool.and_eq_true_iff.mp hboth).1))
  case h_4 hphase =>
    have hopen := hopen (by rw [hphase]; nofun)
    refine h.moveTo hopen _ ?_ nofun nofun
    rintro zone late heq
    cases heq
    exact ⟨h.load hopen, id⟩
  case h_5 confirmed zone late hphase =>
    refine h.upload hphase ?_
    cases confirmed
    · exact .inr rfl
    · exact .inl rfl
  case h_6 hphase => exact h.writeReceipt hphase
  case h_7 hphase =>
    have hopen := hopen (by rw [hphase]; nofun)
    split
    · exact h.moveToPlain hopen rfl
    · split
      · refine h.delete names hopen (fun name hname => Table.get_erase_ne hname.symm)
          (Table.get_erase_self _ _) fun _ => ?_
        exact h.uploaded (.inl (by rw [hphase]; rfl))
      · exact h.moveToPlain hopen rfl
  case h_8 hphase =>
    have hopen := hopen (by rw [hphase]; nofun)
    split
    · exact h.moveToPlain hopen rfl
    · rename_i answer dir hother hremoved
      obtain ⟨hne, hgone⟩ := withoutDir_gone hother hremoved
      exact h.delete names hopen hne hgone nofun
  case h_9 acknowledged hphase => exact h.removeZone names hphase
  case h_10 => exact h
  case h_11 hremoved =>
    by_cases hidle : w.phase = .idle
    · rw [← hidle]
      exact h
    · exact h.moveToPlain (hopen hidle) rfl
  case h_12 => exact h

end Acts

/-! ## Steps of the finalization -/

section Calls

variable {parse : Bytes → Option CaptureTime} {stem segment : Str} {time : CaptureTime}
  {stale : Option (Node Contents SegmentDir)} {w : SweptSegment}

/-- Before the rename there is no segment to sweep. -/
structure Unlisted (parse : Bytes → Option CaptureTime) (stem segment : Str) (time : CaptureTime)
    (stale : Option (Node Contents SegmentDir)) (w : SweptSegment) : Prop where
  tracked : Tracked parse stem segment time stale w
  zoned : w.zoned = false
  idle : w.phase = .idle
  free : w.dir[OsName.str segment]? = none
  settled : w.settled = false

/-- After the rename, the zone record is not written. -/
structure Unzoned (parse : Bytes → Option CaptureTime) (stem segment : Str) (time : CaptureTime)
    (stale : Option (Node Contents SegmentDir)) (w : SweptSegment) : Prop where
  tracked : Tracked parse stem segment time stale w
  zoned : w.zoned = false

/-- After the write of the zone record, only the end of the segment removes it. -/
structure Recorded (parse : Bytes → Option CaptureTime) (stem segment : Str) (time : CaptureTime)
    (stale : Option (Node Contents SegmentDir)) (w : SweptSegment) : Prop where
  tracked : Tracked parse stem segment time stale w
  record : w.dir[captureTimePath segment]? = some (.file (.captureTime time)) ∨ w.IsClosed segment

/-! ### What the sweeps keep -/

theorem act_of_isClosed (h : w.IsClosed segment) (a : SweepAct) : w.act parse segment a = w := by
  obtain ⟨hgone, hidle⟩ := h
  have hmembers : (segmentMembers w.dir (.str segment)).isSome = false := by
    simp [segmentMembers, hgone]
  unfold SweptSegment.act
  rw [hidle]
  split <;> first | rfl | (rename_i heq; cases heq) | skip
  · rw [hmembers, Bool.and_false, if_neg Bool.false_ne_true]
  · rw [← hidle]

theorem act_zoned (w : SweptSegment) (a : SweepAct) : (w.act parse segment a).zoned = w.zoned := by
  unfold SweptSegment.act
  split <;> first | rfl | (split <;> first | rfl | (split <;> rfl))

/-- A step that touches the zone record ends the segment. -/
theorem act_zone (names : CloseNames stem segment) (w : SweptSegment) (a : SweepAct) :
    (w.act parse segment a).dir[captureTimePath segment]? = w.dir[captureTimePath segment]? ∨
      ∃ acknowledged, w.phase = .removed acknowledged ∧
        w.act parse segment a =
          { w with
            dir := (unlinked (captureTimePath segment) w.dir).2
            phase := .idle
            receipt := false
            settled := w.settled || acknowledged } := by
  unfold SweptSegment.act
  split
  case h_9 acknowledged hphase => exact .inr ⟨acknowledged, hphase, rfl⟩
  case h_7 hphase =>
    left
    split
    · rfl
    · split
      · exact Table.get_erase_ne names.zone_finalized.symm
      · rfl
  case h_8 hphase =>
    left
    split
    · rfl
    · rename_i hother hremoved
      exact (withoutDir_gone hother hremoved).1 _ names.zone_finalized
  case h_1 => left; split <;> rfl
  all_goals exact .inl rfl

theorem Recorded.act (h : Recorded parse stem segment time stale w)
    (names : CloseNames stem segment) (a : SweepAct) :
    Recorded parse stem segment time stale (w.act parse segment a) := by
  refine ⟨h.tracked.act names a, ?_⟩
  rcases h.record with hr | hc
  · rcases act_zone names w a with hzone | ⟨acknowledged, hphase, hact⟩
    · exact .inl (hzone.trans hr)
    · right
      rw [hact]
      refine ⟨?_, rfl⟩
      rw [unlinked_of_file hr]
      exact (Table.get_erase_ne names.zone_finalized).trans (h.tracked.removed _ hphase)
  · rw [act_of_isClosed hc]
    exact .inr hc

/-- What every step keeps, every list of steps keeps. -/
theorem keeps_acts {I : SweptSegment → Prop} (h : ∀ w a, I w → I (w.act parse segment a))
    (acts : List SweepAct) (hw : I w) : I (acts.foldl (fun w a => w.act parse segment a) w) := by
  induction acts generalizing w with
  | nil => exact hw
  | cons a acts ih => exact ih (h w a hw)

/-- A call that changes nothing is not seen. -/
theorem Tracked.called_same (h : Tracked parse stem segment time stale w) :
    called stem segment w.dir w = w := by
  have hzoned : (w.zoned || decide (w.dir[captureTimePath segment]? ≠ w.dir[captureTimePath segment]?) ||
      w.dir[OsName.str (incompleteMetaName stem)]?.isNone) = w.zoned := by
    cases hz : w.zoned with
    | true => rfl
    | false => simpa using (h.early hz).1
  rw [called, hzoned]

/-- What holds at a point of the finalization holds whatever sweeps do. -/
abbrev Holds (parse : Bytes → Option CaptureTime) (stem segment : Str)
    (I : SweptSegment → Prop) : Prop :=
  Steady (fun acts w => List.foldl (fun w a => SweptSegment.act parse segment a w) w acts) dir
    (called stem segment) I

theorem holds_tracked (names : CloseNames stem segment) :
    Holds parse stem segment (Tracked parse stem segment time stale) where
  acted := fun acts _ h => keeps_acts (fun _ a h => h.act names a) acts h
  same := fun _ h => h.called_same.symm ▸ h

theorem holds_unlisted :
    Holds parse stem segment (Unlisted parse stem segment time stale) where
  acted := fun acts _ h =>
    keeps_acts (fun _ a h => (act_of_isClosed ⟨h.free, h.idle⟩ a).symm ▸ h) acts h
  same := fun _ h => h.tracked.called_same.symm ▸ h

theorem holds_unzoned (names : CloseNames stem segment) :
    Holds parse stem segment (Unzoned parse stem segment time stale) where
  acted := fun acts _ h =>
    keeps_acts (fun _ a h => ⟨h.tracked.act names a, (act_zoned _ a).trans h.zoned⟩) acts h
  same := fun _ h => h.tracked.called_same.symm ▸ h

theorem holds_recorded (names : CloseNames stem segment) :
    Holds parse stem segment (Recorded parse stem segment time stale) where
  acted := fun acts _ h => keeps_acts (fun _ a h => h.act names a) acts h
  same := fun _ h => h.tracked.called_same.symm ▸ h

/-! ### The calls that change the directory -/

variable {d : StreamDir}

/-- A call before the zone record: the metadata is still there. -/
theorem Unlisted.leaves (h : Unlisted parse stem segment time stale w)
    (hzone : d[captureTimePath segment]? = w.dir[captureTimePath segment]?)
    (hmeta : d[OsName.str (incompleteMetaName stem)]?.isSome = true) :
    Unzoned parse stem segment time stale (called stem segment d w) := by
  have hzoned : (called stem segment d w).zoned = false := by
    simp [SweptSegment.called, h.zoned, hzone, hmeta]
  refine ⟨?_, hzoned⟩
  exact
    { uploads := h.tracked.uploads
      loaded := h.tracked.loaded
      early := fun _ => ⟨hmeta, by
        rw [SweptSegment.called, hzone]
        exact (h.tracked.early h.zoned).2⟩
      recorded := fun hz => absurd (hzoned.symm.trans hz) Bool.false_ne_true
      uploaded := h.tracked.uploaded
      removed := fun _ hphase => by cases h.idle.symm.trans hphase
      settled := fun hs => absurd (h.settled.symm.trans hs) Bool.false_ne_true }

theorem Unlisted.writeMetadata (h : Unlisted parse stem segment time stale w)
    (names : CloseNames stem segment) (c : Contents) :
    Unlisted parse stem segment time stale
      (SweptSegment.called stem segment
        (w.dir.insert (.str (incompleteMetaName stem)) (.file c)) w) := by
  have hcalled := h.leaves (d := w.dir.insert (.str (incompleteMetaName stem)) (.file c))
    (Table.get_insert_ne names.zone_meta.symm) (by rw [Table.get_insert_self]; rfl)
  exact ⟨hcalled.tracked, hcalled.zoned, h.idle,
    (Table.get_insert_ne names.finalized_meta.symm).trans h.free, h.settled⟩

/-- The rename shows the segment to the sweeps. -/
theorem Unlisted.rename (h : Unlisted parse stem segment time stale w)
    (names : CloseNames stem segment) :
    Unzoned parse stem segment time stale
      (SweptSegment.called stem segment
        (renamed (.str (incompleteName stem)) (.str segment) w.dir).2 w) := by
  rcases renamed_cases (.str (incompleteName stem)) (.str segment) w.dir with
    hsame | ⟨node, -, -, -, hrenamed⟩
  · rw [hsame, h.tracked.called_same]
    exact ⟨h.tracked, h.zoned⟩
  · rw [hrenamed]
    refine h.leaves ?_ ?_
    · rw [Table.get_insert_ne names.zone_finalized.symm, Table.get_erase_ne names.zone_incomplete.symm]
    · rw [Table.get_insert_ne names.finalized_meta, Table.get_erase_ne (incomplete_ne_meta _ _)]
      exact (h.tracked.early h.zoned).1

/-- The write of the zone record. Had it been there already, it would not be seen as a change. -/
theorem Unzoned.writeZone (h : Unzoned parse stem segment time stale w)
    (names : CloseNames stem segment) :
    Recorded parse stem segment time stale
      (SweptSegment.called stem segment
        (w.dir.insert (captureTimePath segment) (.file (.captureTime time))) w) := by
  have hrecord : (w.dir.insert (captureTimePath segment) (.file (.captureTime time)))[
      captureTimePath segment]? = some (.file (.captureTime time)) := Table.get_insert_self _ _ _
  have hother : ∀ name, name ≠ captureTimePath segment →
      (w.dir.insert (captureTimePath segment) (.file (.captureTime time)))[name]? = w.dir[name]? :=
    fun name hname => Table.get_insert_ne hname.symm
  obtain ⟨hmeta, hstale, hall, hlate⟩ := h.tracked.early h.zoned
  refine ⟨?_, .inl hrecord⟩
  exact
    { uploads := h.tracked.uploads
      loaded := h.tracked.loaded
      early := by
        intro hz
        refine ⟨?_, ?_, hall, hlate⟩
        · rw [SweptSegment.called, hother _ names.zone_meta.symm]
          exact hmeta
        · have hsame : w.dir[captureTimePath segment]? = some (.file (.captureTime time)) := by
            simp only [SweptSegment.called, hrecord, Bool.or_eq_false_iff, decide_eq_false_iff_not,
              not_not] at hz
            exact hz.1.2.symm
          rw [SweptSegment.called, hrecord, ← hsame]
          exact hstale
      recorded := fun _ => .inl hrecord
      uploaded := h.tracked.uploaded
      removed := fun acknowledged hphase =>
        (hother _ names.zone_finalized.symm).trans (h.tracked.removed acknowledged hphase)
      settled := by
        intro hs
        obtain ⟨hgone, hidle⟩ := (h.tracked.settled hs).1
        refine ⟨⟨(hother _ names.zone_finalized.symm).trans hgone, hidle⟩, .inr ?_⟩
        obtain ⟨u, hu⟩ := List.exists_mem_of_ne_nil _ (h.tracked.uploaded (.inr (.inr hs)))
        exact ⟨u, hu, hall u hu⟩ }

/-- The removal of the metadata. -/
theorem Recorded.removeMetadata (h : Recorded parse stem segment time stale w)
    (names : CloseNames stem segment) :
    Recorded parse stem segment time stale
      (called stem segment (unlinked (.str (incompleteMetaName stem)) w.dir).2 w) := by
  have hother : ∀ name, name ≠ OsName.str (incompleteMetaName stem) →
      (unlinked (.str (incompleteMetaName stem)) w.dir).2[name]? = w.dir[name]? := by
    intro name hname
    unfold unlinked
    split
    · rfl
    · rfl
    · exact Table.get_erase_ne hname.symm
  have hzone := hother _ names.zone_meta
  have hclosed : w.IsClosed segment →
      (called stem segment (unlinked (.str (incompleteMetaName stem)) w.dir).2 w).IsClosed
        segment :=
    fun hc => ⟨(hother _ names.finalized_meta).trans hc.1, hc.2⟩
  have hrecord := h.record.imp hzone.trans hclosed
  refine ⟨?_, hrecord⟩
  exact
    { uploads := h.tracked.uploads
      loaded := h.tracked.loaded
      early := by
        intro hz
        simp only [called, hzone, ne_eq, not_true_eq_false, decide_false, Bool.or_false,
          Bool.or_eq_false_iff, Option.isNone_eq_false_iff] at hz
        obtain ⟨-, hstale, hall, hlate⟩ := h.tracked.early hz.1
        exact ⟨hz.2, by rw [called, hzone]; exact hstale, hall, hlate⟩
      recorded := fun _ => hrecord
      uploaded := h.tracked.uploaded
      removed := fun acknowledged hphase =>
        (hother _ names.finalized_meta).trans (h.tracked.removed acknowledged hphase)
      settled := fun hs => ⟨hclosed (h.tracked.settled hs).1,
        (h.tracked.settled hs).2.imp hzone.trans id⟩ }

end Calls

/-! ## The finalization -/

section Finalize

variable {A : List SweepAct × Turn → Prop} {ε α : Type} {parse : Bytes → Option CaptureTime}
  {stem segment : Str} {time : CaptureTime} {stale : Option (Node Contents SegmentDir)}
  {w : SweptSegment} {I J G : SweptSegment → Prop}

/-- The rule of a call beside sweeps. -/
theorem endsIn_beside_call {err : IoKind → ε} {full : StreamDir → Except IoKind α × StreamDir}
    (hI : Holds parse stem segment I) (hG : ∀ w, I w → G w) (h : I w)
    (hok : ∀ w a, I w → (full w.dir).1 = .ok a → J (called stem segment (full w.dir).2 w))
    (herr : ∀ w k, I w → (full w.dir).1 = .error k → G (called stem segment (full w.dir).2 w)) :
    wp A (beside parse stem segment (call err (atomic full))) (endsIn G fun _ => J) w := by
  have hatomic : wp A (beside parse stem segment (atomic full : Prog StreamDir Turn ε _))
      (endsIn I fun r w => match r with
        | .ok _ => J w
        | .error _ => G w) w := by
    refine endsIn_among_atomic hI h (fun w hw => ?_) hG
    cases hfull : (full w.dir).1 with
    | ok a => exact hok w a hw hfull
    | error k => exact herr w k hw hfull
  rw [beside, call, among_bind]
  refine endsIn_bind (endsIn_mono hatomic hG fun _ _ h => h) fun r w hw => ?_
  cases r with
  | ok a => exact hw
  | error k => exact hw

theorem endsIn_beside_barrier {err : IoKind → ε} (hI : Holds parse stem segment I)
    (hG : ∀ w, I w → G w) (h : I w) :
    wp A (beside parse stem segment (call err barrier)) (endsIn G fun _ => I) w :=
  endsIn_beside_call hI hG h (fun w _ hw _ => hI.same w hw) fun w _ hw _ => hG _ (hI.same w hw)

/-- The rule of a replacement of a file beside sweeps. -/
theorem endsIn_beside_atomicWriteBytes {name : OsName} {content : Contents}
    (hI : Holds parse stem segment I) (hJ : Holds parse stem segment J) (hIG : ∀ w, I w → G w)
    (hJG : ∀ w, J w → G w) (h : I w)
    (hwrite : ∀ w, I w → J (called stem segment (w.dir.insert name (.file content)) w)) :
    wp A (beside parse stem segment (atomicWriteBytes name content)) (endsIn G fun _ => J) w := by
  have hsteps : ∀ w, I w → wp A (beside parse stem segment
      ((call (.io "write metadata" [name]) barrier).bind fun _ =>
        (call (.io "rename metadata" [name]) (replaceFile name content)).bind fun _ =>
        syncDirectory [])) (endsIn G fun _ => J) w := by
    intro w hw
    rw [beside, among_bind]
    refine endsIn_bind (endsIn_beside_barrier hI hIG hw) fun _ w hw => ?_
    rw [among_bind]
    refine endsIn_bind (endsIn_beside_call hI hIG hw (J := J) ?_ ?_) fun _ w hw =>
      endsIn_beside_barrier hJ hJG hw
    · intro w a hw ha
      split at ha
      · cases ha
      · exact hwrite w hw
    · intro w k hw hk
      split at hk
      · exact hIG _ (hI.same w hw)
      · cases hk
  rw [beside, atomicWriteBytes, among_bind, symlinkMetadata]
  refine endsIn_bind (endsIn_mono (endsIn_among_query hI h) hIG fun _ _ h => h) fun r w hw => ?_
  split
  · exact hsteps w hw
  · exact hsteps w hw
  · exact hIG w hw
  · exact hIG w hw

variable {d : StreamDir} {seg : SegmentState}

/-- A segment that was opened under a stem, with its metadata on the disk. -/
structure OpenedAs (stem : Str) (d : StreamDir) (seg : SegmentState) : Prop where
  incompleteDir : seg.incompleteDir = incompleteName stem
  metadataPath : seg.metadataPath = incompleteMetaName stem
  metadata : seg.metadata.incompleteDir = incompleteName stem
  metaFile : d[OsName.str (incompleteMetaName stem)]?.isSome = true

/-- The segment that the writer has open is one. -/
theorem Written.openedAs {hash : Str → UInt64} {admitted : ℕ → Prop}
    (h : Written hash admitted stem d seg) : OpenedAs stem d seg := by
  obtain ⟨⟨log, members, hr⟩, -⟩ := h.reached .ofEnvelopes
  exact ⟨hr.incompleteDir, hr.metadataPath, hr.metadata.incomplete, by rw [hr.onDisk]; rfl⟩

theorem tracked_start (hfree : d[OsName.str segment]? = none)
    (hmeta : d[OsName.str (incompleteMetaName stem)]?.isSome = true) :
    Unlisted parse stem segment time d[captureTimePath segment]? (start d) where
  tracked :=
    { uploads := nofun
      loaded := nofun
      early := fun _ => ⟨hmeta, .inl rfl, nofun, nofun⟩
      recorded := nofun
      uploaded := by simp [start, SweepPhase.followsUpload]
      removed := nofun
      settled := nofun }
  zoned := rfl
  idle := rfl
  free := hfree
  settled := rfl

/-- The steps after the rename. -/
theorem wp_beside_settleSteps (names : CloseNames stem segment)
    (hpath : seg.metadataPath = incompleteMetaName stem)
    (hsegment : seg.metadata.finalizedDir = segment)
    (htime : SegmentState.captureTime seg.metadata = time)
    (h : Unzoned parse stem segment time stale w) :
    wp A (beside parse stem segment seg.settleSteps)
      (endsIn (Tracked parse stem segment time stale) fun _ =>
        Tracked parse stem segment time stale) w := by
  have hunzoned : ∀ w, Unzoned parse stem segment time stale w →
      Tracked parse stem segment time stale w := fun _ h => h.tracked
  have hrecorded : ∀ w, Recorded parse stem segment time stale w →
      Tracked parse stem segment time stale w := fun _ h => h.tracked
  rw [beside, SegmentState.settleSteps, among_bind, among_rethrow, hpath, hsegment, htime]
  refine endsIn_bind (endsIn_rethrow (endsIn_beside_barrier (holds_unzoned names) hunzoned h))
    fun _ w hw => ?_
  rw [among_bind, among_rethrow]
  refine endsIn_bind (endsIn_rethrow (endsIn_beside_atomicWriteBytes (holds_unzoned names)
    (holds_recorded names) hunzoned hrecorded hw fun _ h => h.writeZone names)) fun _ w hw => ?_
  rw [among_bind]
  refine endsIn_bind (endsIn_beside_call (holds_recorded names) hrecorded hw
    (fun _ _ h _ => h.removeMetadata names) fun _ _ h _ => (h.removeMetadata names).tracked)
    fun _ w hw => ?_
  rw [among_bind, among_rethrow]
  exact endsIn_bind (endsIn_rethrow (endsIn_beside_barrier (holds_recorded names) hrecorded hw))
    fun _ _ hw => hw.tracked

/-- The steps after the metadata was written. -/
theorem wp_beside_finalizeSteps (names : CloseNames stem segment)
    (hdir : seg.incompleteDir = incompleteName stem)
    (hpath : seg.metadataPath = incompleteMetaName stem)
    (hsegment : seg.metadata.finalizedDir = segment)
    (htime : SegmentState.captureTime seg.metadata = time)
    (h : Unlisted parse stem segment time stale w) :
    wp A (beside parse stem segment seg.finalizeSteps)
      (endsIn (Tracked parse stem segment time stale) fun _ =>
        Tracked parse stem segment time stale) w := by
  have hunlisted : ∀ w, Unlisted parse stem segment time stale w →
      Tracked parse stem segment time stale w := fun _ h => h.tracked
  rw [beside, SegmentState.finalizeSteps, among_bind, entryVisible]
  refine endsIn_bind (endsIn_mono (endsIn_among_glance holds_unlisted h) hunlisted fun _ _ h => h)
    fun seen w hw => ?_
  cases seen with
  | true => exact hw.tracked
  | false =>
    rw [if_neg Bool.false_ne_true, SegmentState.renameSteps, among_bind, hdir, hsegment]
    exact endsIn_bind (endsIn_beside_call holds_unlisted hunlisted hw
      (fun _ _ h _ => h.rename names) fun _ _ h _ => (h.rename names).tracked)
      fun _ _ hw => wp_beside_settleSteps names hpath hsegment htime hw

theorem endsIn_beside_syncHandles {storage : FileStorage} (hI : Holds parse stem segment I)
    (h : I w) : wp A (beside parse stem segment storage.syncHandles) (endsIn I fun _ => I) w := by
  rw [beside, FileStorage.syncHandles, among_forEach]
  exact endsIn_forEach h fun _ _ _ hw => endsIn_beside_barrier hI (fun _ h => h) hw

/-- **Finalizing beside sweeps.** -/
theorem wp_beside_finalize {listing : Listing} {now : ℕ} (names : CloseNames stem segment)
    (hopened : OpenedAs stem d seg)
    (hne : seg.metadata.hasDurableFrames = true ∨ seg.metadata.activityDurableOffset ≠ 0)
    (hsegment : (seg.finalizing now).metadata.finalizedDir = segment)
    (htime : SegmentState.captureTime (seg.finalizing now).metadata = time)
    (h : Unlisted parse stem segment time stale w) :
    wp A (beside parse stem segment (seg.finalize listing now : Prog StreamDir Turn ε _))
      (endsIn (Tracked parse stem segment time stale) fun _ =>
        Tracked parse stem segment time stale) w := by
  have hunlisted : ∀ w, Unlisted parse stem segment time stale w →
      Tracked parse stem segment time stale w := fun _ h => h.tracked
  have hempty : ¬ (!seg.metadata.hasDurableFrames && seg.metadata.activityDurableOffset = 0) =
      true := by
    rcases hne with hne | hne <;> simp [hne]
  have hpath : (seg.finalizing now).metadataPath = incompleteMetaName stem := hopened.metadataPath
  rw [beside, SegmentState.finalize]
  cases seg.closed with
  | some closed => exact h.tracked
  | none =>
    dsimp only
    split
    · exact h.tracked
    · rw [among_bind, among_attempt, atomicWriteMetadata, hpath]
      refine endsIn_bind (endsIn_attempt (endsIn_beside_atomicWriteBytes holds_unlisted
        holds_unlisted hunlisted hunlisted h fun _ h => h.writeMetadata names _))
        fun written w hw => ?_
      cases written with
      | error e => exact hw
      | ok _ =>
        rw [among_bind, among_attempt, among_rethrow]
        refine endsIn_bind (endsIn_attempt (endsIn_rethrow (endsIn_mono
          (endsIn_beside_syncHandles holds_unlisted hw) hunlisted fun _ _ h => h)))
          fun synced w hw => ?_
        cases synced with
        | error e => exact hw
        | ok _ =>
          rw [among_bind, among_attempt]
          refine endsIn_bind (endsIn_attempt (wp_beside_finalizeSteps names hopened.incompleteDir
            hopened.metadataPath hsegment htime hw)) fun answer w hw => ?_
          cases answer <;> exact hw

end Finalize

/-! ## The zone of a segment -/

/-- Every upload carried the zone, and nothing is left of it once the segment was acknowledged and
removed. -/
def ZoneTravels (segment : Str) (time : CaptureTime) (w : SweptSegment) : Prop :=
  (∀ u ∈ w.uploads, u.zone = some time) ∧
    (w.settled = true → w.dir[captureTimePath segment]? = none)

instance (segment : Str) (time : CaptureTime) (w : SweptSegment) :
    Decidable (ZoneTravels segment time w) := inferInstanceAs (Decidable (_ ∧ _))

section Travel

variable {parse : Bytes → Option CaptureTime} {stem segment : Str} {time : CaptureTime}
  {stale : Option (Node Contents SegmentDir)} {w : SweptSegment}

theorem Tracked.zoneTravels (h : Tracked parse stem segment time stale w)
    (hlate : ∀ u ∈ w.uploads, u.late = true) : ZoneTravels segment time w := by
  constructor
  · intro u hu
    have := h.uploads u hu
    rwa [Upload.Fits, if_pos (hlate u hu)] at this
  · intro hs
    rcases (h.settled hs).2 with hnone | ⟨u, hu, hearly⟩
    · exact hnone
    · exact absurd (hearly.symm.trans (hlate u hu)) Bool.false_ne_true

theorem Tracked.late (h : Tracked parse stem segment time stale w)
    (hstale : (loadCaptureTime parse stale).meta ≠ some time) (htravels : ZoneTravels segment time w) :
    ∀ u ∈ w.uploads, u.late = true := by
  intro u hu
  by_contra hearly
  have hfits := h.uploads u hu
  rw [Upload.Fits, if_neg hearly, htravels.1 u hu] at hfits
  rcases hfits with hnone | hsome
  · cases hnone
  · exact hstale hsome.symm

/-- The zone record travels with its segment if and only if no upload loaded it between the rename
and its write: in every state that a finalization beside sweeps reaches, and whatever sweeps do
after it. A file that was in the record's place can only help when it holds the same zone. -/
theorem zone_travels (parse : Bytes → Option CaptureTime) (listing : Listing) (stem : Str)
    (d : StreamDir) (seg : SegmentState) (now : ℕ) (m : SegmentMetadata)
    (hm : (seg.finalizing now).metadata = m) (hopened : OpenedAs stem d seg)
    (hne : seg.metadata.hasDurableFrames = true ∨ seg.metadata.activityDurableOffset ≠ 0)
    (hfree : d[OsName.str m.finalizedDir]? = none) (ts : List (List SweepAct × Turn))
    (acts : List SweepAct) (w : SweptSegment)
    (hw : acts.foldl (fun w a => w.act parse m.finalizedDir a)
      (run ts (beside parse stem m.finalizedDir
        (seg.finalize listing now : Prog StreamDir Turn Empty _)) (start d)).2 = w) :
    ((∀ u ∈ w.uploads, u.late = true) →
        ZoneTravels m.finalizedDir (SegmentState.captureTime m) w) ∧
      ((loadCaptureTime parse d[captureTimePath m.finalizedDir]?).meta ≠
          some (SegmentState.captureTime m) →
        ZoneTravels m.finalizedDir (SegmentState.captureTime m) w →
          ∀ u ∈ w.uploads, u.late = true) := by
  have hfinalized : m.finalizedDir =
      finalizedName stem (segmentLength (seg.elapsed now) seg.segmentInterval * nanosPerSecond) := by
    rw [← hm]
    exact (lengthOf_recordLength hopened.metadata _ _).finalized
  have names : CloseNames stem m.finalizedDir := hfinalized ▸ closeNames _ _
  have htracked : Tracked parse stem m.finalizedDir (SegmentState.captureTime m)
      d[captureTimePath m.finalizedDir]? w := by
    rw [← hw]
    refine (holds_tracked names).acted acts _ (endsIn_run (A := fun _ => True) ?_ trivial
      fun _ _ => trivial)
    exact wp_beside_finalize names hopened hne (congrArg SegmentMetadata.finalizedDir hm)
      (congrArg SegmentState.captureTime hm) (tracked_start hfree hopened.metaFile)
  exact ⟨htracked.zoneTravels, htracked.late⟩

end Travel

/-! ## A sweep between the rename and the zone record -/

/-- The metadata of a segment with one frame. -/
def noonMetadata : SegmentMetadata where
  schemaVersion := 1
  lifecycle := .opened
  incompleteDir := incompleteName "120000".toList
  finalizedDir := "120000_300".toList
  startWallUnixNanos := 0
  localOffsetSeconds := 7200
  tz := some "Europe/Berlin".toList
  elapsedNanos := 300000000000
  lastDurableFrameId := 1
  durableFrameCount := 1
  hasDurableFrames := true
  activityDurableOffset := 0
  sessions := ∅

/-- The segment, five minutes long. -/
def noonSegment : SegmentState :=
  SegmentState.initial "120000".toList noonMetadata 0 300000000000

/-- Its stream directory. -/
def noonDir : StreamDir :=
  ((∅ : StreamDir).insert (.str (incompleteName "120000".toList))
    (.directory ((∅ : SegmentDir).insert (.str "tmux_main_screen.jsonl".toList) (.file [65])))).insert
    (.str (incompleteMetaName "120000".toList)) (.file (.metadata noonMetadata))

/-- The finalization with the given steps of sweeps before one of its calls. -/
def noonRun (before : ℕ) (acts : List SweepAct) : SweptSegment :=
  (run (List.replicate before default ++ [(acts, .ok)])
    (beside (fun _ => none) "120000".toList "120000_300".toList
      (noonSegment.finalize .byName 300000000000 : Prog StreamDir Turn Empty _))
    (start noonDir)).2

/-- A sweep that uploads the segment and removes it. -/
def wholeSweep : List SweepAct :=
  [.scan .candidates, .resolve, .readReceipt true, .load, .upload true, .writeReceipt, .delete,
    .removeZone]

/-- Between the rename and the zone record, the segment is uploaded without its zone, and the record
is written after the segment is gone. -/
theorem zone_left_behind :
    ¬ ZoneTravels "120000_300".toList ⟨some "Europe/Berlin".toList, 7200⟩ (noonRun 6 wholeSweep) ∧
      (noonRun 6 wholeSweep).uploads = [⟨none, false⟩] ∧ (noonRun 6 wholeSweep).settled = true ∧
      (noonRun 6 wholeSweep).dir[captureTimePath "120000_300".toList]? =
        some (.file (.captureTime ⟨some "Europe/Berlin".toList, 7200⟩)) := by
  decide

/-- The final metadata of the segment. -/
def noonFinal : SegmentMetadata := (noonSegment.finalizing 300000000000).metadata

/-- A sweep that begins after the finalization. -/
theorem zone_travels_afterwards :
    ZoneTravels noonFinal.finalizedDir (SegmentState.captureTime noonFinal)
      (wholeSweep.foldl (fun w a => w.act (fun _ => none) noonFinal.finalizedDir a)
        (run [] (beside (fun _ => none) "120000".toList noonFinal.finalizedDir
          (noonSegment.finalize .byName 300000000000 : Prog StreamDir Turn Empty _))
          (start noonDir)).2) :=
  (zone_travels (fun _ => none) .byName "120000".toList noonDir noonSegment 300000000000
    noonFinal rfl ⟨rfl, rfl, rfl, by decide⟩ (.inl rfl) (by decide) [] wholeSweep _ rfl).1
    (by decide)

end SolstoneTmux
