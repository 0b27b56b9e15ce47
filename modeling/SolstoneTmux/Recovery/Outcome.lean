import SolstoneTmux.Recovery.Places
import SolstoneTmux.Recovery.Repaired

/-!
# What recovery makes of a recorded segment

The uninterrupted run of `recoverCandidate` on a segment whose metadata records a log and whose
files hold it, perhaps with torn tails. A segment with frames or activity is finalized, one without
is removed (`OnDisk.recovered`). A complete line behind the recorded bytes of a session's file has
the segment moved aside (`OnDisk.movedAside`).
-/

namespace SolstoneTmux

open Foundations Foundations.Prog SegmentLog

/-! ## Uninterrupted calls -/

section Calls

variable {ε α : Type} {err : IoKind → ε} {d d' : StreamDir} {name source : OsName}

theorem run_call_atomic {full : StreamDir → Except IoKind α × StreamDir} {a : α}
    (h : full d = (.ok a, d')) : run [] (call err (atomic full)) d = (.done a, d') := by
  rw [call, run_bind, run_atomic, h]
  rfl

theorem run_call_query {read : StreamDir → Except IoKind α} {a : α} (h : read d = .ok a) :
    run [] (call err (query read)) d = (.done a, d) := by
  rw [call, run_bind, run_query, h]
  rfl

@[simp] theorem run_call_barrier : run [] (call err barrier) d = (.done (), d) := rfl

@[simp] theorem run_syncDirectory (path : RelPath) :
    run [] (syncDirectory path) d = (.done (), d) := rfl

@[simp] theorem run_recoverySync (path : RelPath) :
    run [] (recoverySync path) d = (.done (), d) := rfl

theorem run_atomicWriteBytes {content : Contents} (h : PlainTarget d name) :
    run [] (atomicWriteBytes name content) d = (.done (), d.insert name (.file content)) := by
  have hwp : wp allWork (atomicWriteBytes name content)
      (fun r s => r = .done () ∧ s = d.insert name (.file content)) d :=
    wp_atomicWriteBytes (fun _ => ⟨rfl, rfl⟩)
      (fun hbad => absurd h (hbad.resolve_left not_canFail_allWork))
      (fun _ hf => absurd hf not_canFail_allWork) (fun hk => absurd hk not_canKill_allWork)
      fun _ hk => absurd hk not_canKill_allWork
  exact Prod.ext_iff.mpr (wp_run hwp rfl (by simp))

theorem run_atomicWriteBytes_blocked (content : Contents) (h : ¬ PlainTarget d name) :
    ∃ e, run [] (atomicWriteBytes name content) d = (.raised e, d) := by
  have hwp : wp allWork (atomicWriteBytes name content)
      (fun r s => ∃ e, r = .raised e ∧ s = d) d :=
    wp_atomicWriteBytes (fun hplain => absurd hplain h) (fun _ e => ⟨e, rfl, rfl⟩)
      (fun hplain => absurd hplain h) (fun hk => absurd hk not_canKill_allWork)
      fun hplain => absurd hplain h
  have hrun : ∃ e, (run [] (atomicWriteBytes name content) d).1 = .raised e ∧
      (run [] (atomicWriteBytes name content) d).2 = d := wp_run hwp rfl (by simp)
  exact hrun.imp fun _ h => Prod.ext_iff.mpr h

theorem run_readFile {content : Contents} (h : d[name]? = some (.file content)) :
    run [] (readFile name : Prog _ _ ε _) d = (.done (.ok content), d) := by
  rw [readFile, run_query, h]

theorem run_rejectSpecialTarget {isMeta : Bool}
    (h : ∀ node, d[name]? = some node →
      (if isMeta then node.isFile else node.isDir) = true) :
    run [] (rejectSpecialTarget name isMeta) d = (.done (), d) := by
  rw [rejectSpecialTarget, symlinkMetadata, run_bind, run_query, quietThen_done]
  cases hd : d[name]? with
  | none => rfl
  | some node =>
    dsimp only
    rw [if_pos (h node hd)]
    rfl

theorem run_entryExists : run [] (entryExists name) d = (.done d[name]?.isSome, d) := by
  rw [entryExists, symlinkMetadata, run_bind, run_query, quietThen_done]
  cases d[name]? <;> rfl

theorem run_isDirectory : run [] (isDirectory name) d = (.done (d[name]?.any Node.isDir), d) :=
  run_glance _ _ _

theorem run_readMembers {operation : String} {members : SegmentDir}
    (h : d[name]? = some (.directory members)) :
    run [] (readMembers operation name) d = (.done members, d) :=
  run_call_query (by rw [segmentMembers_eq_some.mpr h])

end Calls

/-! ## Repairs -/

/-- Repairs that cut a file to the length of its beginning `b` leave `b`. -/
theorem repairedMembers_content {members : SegmentDir} {repairs : List FileRepair} {name : Str}
    {b t : Bytes} (h : members[OsName.str name]? = some (.file (b ++ t)))
    (hall : ∀ r ∈ repairs, r.name = name → r.offset = b.length)
    (hsome : t ≠ [] → ∃ r ∈ repairs, r.name = name) :
    (repairedMembers members repairs)[OsName.str name]? = some (.file b) := by
  induction repairs generalizing members t with
  | nil =>
    have ht : t = [] := by
      by_contra hne
      obtain ⟨r, hr, -⟩ := hsome hne
      cases hr
    rw [ht, List.append_nil] at h
    exact h
  | cons r repairs ih =>
    rw [repairedMembers, List.foldl_cons]
    have hrest : ∀ r ∈ repairs, r.name = name → r.offset = b.length := fun r hr =>
      hall r (List.mem_cons_of_mem _ hr)
    by_cases hname : r.name = name
    · have hcut : (cutMember members r)[OsName.str name]? = some (.file (b ++ [])) := by
        have hself : members[OsName.str r.name]? = some (.file (b ++ t)) := by rw [hname, h]
        have hget := cutMember_get_self hself
        rw [hname, hall r List.mem_cons_self hname, resize_of_le (by simp), List.take_left] at hget
        rw [hget, List.append_nil]
      exact ih hcut hrest fun hne => absurd rfl hne
    · have hcut : (cutMember members r)[OsName.str name]? = some (.file (b ++ t)) := by
        rw [cutMember_get_ne fun heq => hname (OsName.str.inj heq), h]
      refine ih hcut hrest fun hne => ?_
      obtain ⟨other, hother, hsame⟩ := hsome hne
      rcases List.mem_cons.mp hother with rfl | hother
      · exact absurd hsame hname
      · exact ⟨other, hother, hsame⟩

/-- Where every repair is of a file, the repairs do what they ask for. -/
theorem run_applyRepairs {d : StreamDir} {source : OsName} {members : SegmentDir}
    {repairs : List FileRepair} (h : d[source]? = some (.directory members))
    (hfiles : ∀ r ∈ repairs, ∃ b, members[OsName.str r.name]? = some (.file b)) :
    run [] (applyRepairs source .default repairs) d =
      (.done (), d.insert source (.directory (repairedMembers members repairs))) := by
  induction repairs generalizing d members with
  | nil =>
    rw [repairedMembers, List.foldl_nil, Table.insert_of_get h]
    rfl
  | cons r repairs ih =>
    obtain ⟨b, hb⟩ := hfiles r List.mem_cons_self
    have hsegment := segmentMembers_eq_some.mpr h
    have hcut : resizedMember source (.str r.name) r.offset d =
        (.ok (), d.insert source (.directory (cutMember members r))) := by
      rw [resizedMember, memberAt_of_members hsegment, hb, cutMember, hb]
      simp only [setMember_of_members hsegment]
    have hrest : ∀ other ∈ repairs,
        ∃ b, (cutMember members r)[OsName.str other.name]? = some (.file b) := by
      intro other hother
      by_cases hname : r.name = other.name
      · exact ⟨_, hname ▸ cutMember_get_self hb⟩
      · rw [cutMember_get_ne fun heq => hname (OsName.str.inj heq)]
        exact hfiles other (List.mem_cons_of_mem _ hother)
    have hround := ih (Table.get_insert_self d source (.directory (cutMember members r))) hrest
    rw [Table.insert_insert] at hround
    rw [applyRepairs, forEach, run_bind, run_bind, setLen, run_call_atomic hcut, quietThen_done]
    exact hround

/-! ## Files that hold a log -/

/-- A segment directory holds a log, with more bytes behind what the log has: a part of a line in a
session's file, anything in the activity file. -/
structure MembersWith (log : SegmentLog) (stem : Str) (tail : Str → Bytes) (activityTail : Bytes)
    (members : SegmentDir) : Prop where
  session : ∀ p ∈ log.numbered, members[OsName.str p.1.filename]? =
    some (.file (log.bytesOf p.1.session ++ tail p.1.session))
  torn : ∀ session, newline ∉ tail session
  activity : members[OsName.str (activityFilename stem)]? =
      some (.file (log.activity ++ activityTail)) ∨
    members[OsName.str (activityFilename stem)]? = none ∧ log.activity = [] ∧ activityTail = []
  only : ∀ (name : OsName) (node : Node Bytes ℕ), members[name]? = some node →
    (∃ p ∈ log.numbered, name = .str p.1.filename) ∨ name = .str (activityFilename stem)

/-- A segment directory holds a log and nothing more. -/
abbrev HoldsLog (log : SegmentLog) (stem : Str) (members : SegmentDir) : Prop :=
  MembersWith log stem (fun _ => []) [] members

theorem SegmentLog.MembersOf.holdsLog {log : SegmentLog} {stem : Str} {members : SegmentDir}
    (h : MembersOf log stem members) : HoldsLog log stem members where
  session p hp := by rw [h.session p hp, List.append_nil]
  torn _ := List.not_mem_nil
  activity := by
    have hactivity := h.activity
    split at hactivity
    · rename_i hnil
      exact .inr ⟨hactivity, hnil, rfl⟩
    · exact .inl (by rw [hactivity, List.append_nil])
  only := h.only

/-- The repairs that the further bytes ask for. -/
def tornRepairs (m : SegmentMetadata) (stem : Str) (tail : Str → Bytes) (activityTail : Bytes) :
    List FileRepair :=
  m.sessions.vals.flatMap (fun session => tailRepair session (tail session.session)) ++
    if activityTail = [] then [] else [⟨activityFilename stem, m.activityDurableOffset⟩]

theorem mem_tornRepairs {m : SegmentMetadata} {stem : Str} {tail : Str → Bytes}
    {activityTail : Bytes} {r : FileRepair} :
    r ∈ tornRepairs m stem tail activityTail ↔
      (∃ session ∈ m.sessions.vals, tail session.session ≠ [] ∧
        r = ⟨session.filename, session.durableOffset⟩) ∨
      activityTail ≠ [] ∧ r = ⟨activityFilename stem, m.activityDurableOffset⟩ := by
  rw [tornRepairs, List.mem_append, List.mem_flatMap]
  refine or_congr (exists_congr fun session => and_congr_right fun _ => ?_) ?_
  · by_cases h : tail session.session = [] <;> simp [tailRepair, h]
  · by_cases h : activityTail = [] <;> simp [h]

section Holds

variable {decoder : Decoder} {log : SegmentLog} {stem : Str} {m : SegmentMetadata}
  {members : SegmentDir} {tail : Str → Bytes} {activityTail : Bytes}

theorem MembersWith.isFile (h : MembersWith log stem tail activityTail members) {name : OsName}
    {node : Node Bytes ℕ} (hnode : members[name]? = some node) : ∃ b, node = .file b := by
  rcases h.only name node hnode with ⟨p, hp, rfl⟩ | rfl
  · rw [h.session p hp] at hnode
    exact ⟨_, (Option.some.inj hnode).symm⟩
  · rcases h.activity with hfile | ⟨hnone, -⟩
    · rw [hfile] at hnode
      exact ⟨_, (Option.some.inj hnode).symm⟩
    · rw [hnone] at hnode
      cases hnode

/-- The file of a session in the metadata. -/
theorem MembersWith.file (h : MembersWith log stem tail activityTail members)
    (hm : MetadataOf log stem m) {session : SessionMetadata} (hs : session ∈ m.sessions.vals) :
    members[OsName.str session.filename]? =
      some (.file (log.bytesOf session.session ++ tail session.session)) := by
  obtain ⟨f, hf, hsession, -, hfile, -, -⟩ := sessionMetadata_eq_some (mem_vals_of_log hm hs)
  rw [hfile, h.session _ hf, hsession]

/-- **Recovery accepts a segment that holds a log, and asks to cut off what is behind it.** -/
theorem validateFiles_of_with (listing : Listing) (hstem : validTimeName stem = true) (hlog : log.WellFormed decoder)
    (hm : MetadataOf log stem m) (h : MembersWith log stem tail activityTail members) :
    validateFiles decoder listing members m =
      { kind := if (tornRepairs m stem tail activityTail).isEmpty then .exact else .repair
        detail := ""
        repairs := tornRepairs m stem tail activityTail
        updatedMetadata := some m } := by
  have hallowed : ∀ (name : OsName) (node : Node Bytes ℕ), members[name]? = some node →
      MemberAllowed m stem name node := by
    intro name node hnode
    obtain ⟨b, rfl⟩ := h.isFile hnode
    exact memberAllowed_of_log hstem hlog hm rfl (h.only name _ hnode)
  have hsessions : ∀ session ∈ m.sessions.vals, SessionHolds decoder members session
      (log.linesOf session.session) (log.idsOf session.session) (tail session.session) :=
    fun session hs => sessionHolds_of_log hlog hm hs (h.file hm hs) (h.torn _)
  have hactivity : ActivityHolds m stem members activityTail := by
    rcases h.activity with hfile | ⟨hnone, hnil, htail⟩
    · exact .inr ⟨log.activity, hfile, hlog.activity, hm.activity.symm⟩
    · exact .inl ⟨hnone, by rw [hm.activity, hnil, List.length_nil], htail⟩
  exact validateFiles_of_holds hm.incomplete hallowed hsessions hactivity (idsOf_perm hm)
    (by rw [hm.lastId, hm.count]) (by rw [hm.hasFrames, hm.count])

/-- Every repair is of a file of the segment. -/
theorem MembersWith.repairs_files (h : MembersWith log stem tail activityTail members)
    (hm : MetadataOf log stem m) :
    ∀ r ∈ tornRepairs m stem tail activityTail,
      ∃ b, members[OsName.str r.name]? = some (.file b) := by
  intro r hr
  rcases mem_tornRepairs.mp hr with ⟨session, hs, -, rfl⟩ | ⟨hne, rfl⟩
  · exact ⟨_, h.file hm hs⟩
  · rcases h.activity with hfile | ⟨-, -, hnil⟩
    · exact ⟨_, hfile⟩
    · exact absurd hnil hne

/-- **The repaired files hold the log and nothing more.** -/
theorem MembersWith.repaired (hlog : log.WellFormed decoder) (hm : MetadataOf log stem m)
    (h : MembersWith log stem tail activityTail members) :
    HoldsLog log stem (repairedMembers members (tornRepairs m stem tail activityTail)) where
  session := by
    intro p hp
    obtain ⟨session, hs, hsession, hfile⟩ := mem_vals_of_numbered hlog hm hp
    have hoffset : session.durableOffset = (log.bytesOf session.session).length := by
      obtain ⟨f, -, -, -, -, -, hoff⟩ := sessionMetadata_eq_some (mem_vals_of_log hm hs)
      exact hoff
    rw [List.append_nil, ← hsession, ← hfile]
    refine repairedMembers_content (h.file hm hs) (fun r hr hname => ?_) fun hne =>
      ⟨_, mem_tornRepairs.mpr (.inl ⟨session, hs, hne, rfl⟩), rfl⟩
    rcases mem_tornRepairs.mp hr with ⟨other, hother, -, rfl⟩ | ⟨-, rfl⟩
    · -- Two sessions with one file are one session.
      have hsame := sessionFile_injective (filename_of_log hlog hm hother)
        (hname ▸ filename_of_log hlog hm hs)
      obtain ⟨f, -, -, -, -, -, hoff⟩ := sessionMetadata_eq_some (mem_vals_of_log hm hother)
      rw [hoff, hsame]
    · obtain ⟨n, -, hn⟩ := sessionFile_eq_some (filename_of_log hlog hm hs)
      exact absurd (hname.trans hn.symm) (activityFilename_ne_sessionFilename stem n)
  torn _ := List.not_mem_nil
  activity := by
    rcases h.activity with hfile | ⟨hnone, hnil, htail⟩
    · refine .inl ?_
      rw [List.append_nil]
      refine repairedMembers_content hfile (fun r hr hname => ?_) fun hne =>
        ⟨_, mem_tornRepairs.mpr (.inr ⟨hne, rfl⟩), rfl⟩
      rcases mem_tornRepairs.mp hr with ⟨other, hother, -, rfl⟩ | ⟨-, rfl⟩
      · obtain ⟨n, -, hn⟩ := sessionFile_eq_some (filename_of_log hlog hm hother)
        exact absurd (hname.symm.trans hn.symm) (activityFilename_ne_sessionFilename stem n)
      · exact hm.activity
    · refine .inr ⟨?_, hnil, rfl⟩
      cases hget : (repairedMembers members (tornRepairs m stem tail activityTail))[
          OsName.str (activityFilename stem)]? with
      | none => rfl
      | some node =>
        obtain ⟨before, hbefore, -⟩ := repairedMembers_mem _ hget
        rw [hnone] at hbefore
        cases hbefore
  only name node hnode := by
    obtain ⟨before, hbefore, -⟩ := repairedMembers_mem _ hnode
    exact h.only name before hbefore

end Holds

/-! ## Finalizing -/

/-- How recovery ends that finalizes a segment with metadata `m`: the segment is closed, or only
renamed where its zone record cannot be written. -/
inductive Closes (stem : Str) (m : SegmentMetadata) (members : SegmentDir) (d : StreamDir) :
    Ended RecoveryError RecoveryRecord × StreamDir → Prop
  | closed {record : RecoveryRecord} (plain : PlainTarget d (captureTimePath m.finalizedDir))
      (action : record.action = .finalized ∨ record.action = .repairThenFinalize) :
      Closes stem m members d (.done record, CloseStage.settled.dir stem m members d)
  | zoneBlocked {e : RecoveryError} (blocked : ¬ PlainTarget d (captureTimePath m.finalizedDir)) :
      Closes stem m members d (.raised e, CloseStage.renamed.dir stem m members d)

section Finalizing

variable {decoder : Decoder} {log : SegmentLog} {stem : Str} {m : SegmentMetadata}
  {members : SegmentDir} {d : StreamDir}

/-- The metadata of a segment that is being finalized. -/
def SegmentMetadata.finalizing (m : SegmentMetadata) : SegmentMetadata :=
  { m with lifecycle := .finalizing }

theorem run_writeCaptureTime (h : PlainTarget d (captureTimePath m.finalizedDir)) :
    run [] (writeCaptureTime m.finalizedDir (SegmentState.captureTime m)) d =
      (.done (), zonedDir m d) :=
  run_atomicWriteBytes h

theorem run_finishRecovered (repaired : Bool) (names : CloseNames stem m.finalizedDir) {c : Contents}
    (hmeta : d[OsName.str (incompleteMetaName stem)]? = some (.file c))
    (hplain : PlainTarget d (captureTimePath m.finalizedDir)) :
    ∃ record : RecoveryRecord,
      (record.action = .finalized ∨ record.action = .repairThenFinalize) ∧
        run [] (finishRecovered stem .default m repaired) d =
          (.done record, (zonedDir m d).erase (.str (incompleteMetaName stem))) := by
  have hfile : (zonedDir m d)[OsName.str (incompleteMetaName stem)]? = some (.file c) := by
    rw [zonedDir, Table.get_insert_ne names.zone_meta, hmeta]
  rw [finishRecovered, RecoveryOptions.default, if_neg (by simp), run_bind, run_recoverySync,
    quietThen_done, run_bind, run_rethrow, run_writeCaptureTime hplain]
  simp only [mapRaised, quietThen_done, run_bind]
  rw [removeFile, run_call_atomic (unlinked_of_file hfile), quietThen_done, run_bind,
    run_recoverySync, quietThen_done]
  cases repaired with
  | true => exact ⟨_, .inr rfl, rfl⟩
  | false => exact ⟨_, .inl rfl, rfl⟩

theorem run_finishRecovered_blocked (stem : Str) (repaired : Bool)
    (hblocked : ¬ PlainTarget d (captureTimePath m.finalizedDir)) :
    ∃ e, run [] (finishRecovered stem .default m repaired) d = (.raised e, d) := by
  obtain ⟨e, he⟩ := run_atomicWriteBytes_blocked
    (.captureTime (SegmentState.captureTime m)) hblocked
  refine ⟨.storage e, ?_⟩
  rw [finishRecovered, RecoveryOptions.default, if_neg (by simp), run_bind, run_recoverySync,
    quietThen_done, writeCaptureTime, run_bind, run_rethrow, he]
  rfl

/-- The final metadata is written and the segment renamed to its free name; then it is closed. -/
theorem run_finalizeRecovered (original : Contents) (repaired : Bool) (names : CloseNames stem m.finalizedDir)
    (hsource : d[OsName.str (incompleteName stem)]? = some (.directory members)) {c : Contents}
    (hmeta : d[OsName.str (incompleteMetaName stem)]? = some (.file c))
    (hfree : d[OsName.str m.finalizedDir]? = none) :
    Closes stem m.finalizing members d
      (run [] (finalizeRecovered stem .default m.finalizedDir original m repaired) d) := by
  have hplain : PlainTarget d (.str (incompleteMetaName stem)) := by
    intro node hnode
    rw [hmeta] at hnode
    cases hnode
    rfl
  have hrenamed : renamed (.str (incompleteName stem)) (.str m.finalizedDir)
      (createdMeta stem m.finalizing d) =
        (.ok (), renamedDir stem m.finalizing members (createdMeta stem m.finalizing d)) := by
    refine renamed_of_free ?_ names.finalized_incomplete.symm ?_
    · rw [createdMeta, Table.get_insert_ne (incomplete_ne_meta _ _).symm, hsource]
    · rw [createdMeta, Table.get_insert_ne names.finalized_meta.symm, hfree]
  have hget : (renamedDir stem m.finalizing members (createdMeta stem m.finalizing d))[
      OsName.str (incompleteMetaName stem)]? = some (.file (.metadata m.finalizing)) := by
    rw [renamedDir, Table.get_insert_ne (show OsName.str m.finalizing.finalizedDir ≠ _ from
      names.finalized_meta), Table.get_erase_ne (incomplete_ne_meta _ _), createdMeta,
      Table.get_insert_self]
  have hzone : PlainTarget (CloseStage.renamed.dir stem m.finalizing members d)
      (captureTimePath m.finalizedDir) ↔ PlainTarget d (captureTimePath m.finalizedDir) := by
    rw [CloseStage.dir, PlainTarget, renamedDir, Table.get_insert_ne (show OsName.str
      m.finalizing.finalizedDir ≠ _ from names.zone_finalized.symm), Table.get_erase_ne
      names.zone_incomplete.symm, createdMeta, Table.get_insert_ne names.zone_meta.symm, PlainTarget]
  have hrun : run [] (finalizeRecovered stem .default m.finalizedDir original m repaired) d =
      run [] (finishRecovered stem .default m.finalizing repaired)
        (CloseStage.renamed.dir stem m.finalizing members d) := by
    rw [finalizeRecovered]
    simp only [run_bind, run_rethrow, atomicWriteMetadata]
    rw [run_atomicWriteBytes hplain]
    simp only [mapRaised, quietThen_done, renameEntry, run_bind, run_atomic]
    rw [show d.insert (.str (incompleteMetaName stem)) (.file (.metadata { m with lifecycle := .finalizing }))
      = createdMeta stem m.finalizing d from rfl, hrenamed]
    rfl
  rw [hrun]
  by_cases hblocked : PlainTarget d (captureTimePath m.finalizedDir)
  · obtain ⟨record, haction, hfinish⟩ := run_finishRecovered (m := m.finalizing) repaired names
      hget (hzone.mpr hblocked)
    rw [CloseStage.dir, hfinish]
    exact .closed hblocked haction
  · obtain ⟨e, hfinish⟩ := run_finishRecovered_blocked (m := m.finalizing) stem repaired
      (mt hzone.mp hblocked)
    rw [hfinish]
    exact .zoneBlocked hblocked

/-- **A segment that holds a log is finalized with the log and nothing more.** -/
theorem run_validateAndFinalize (listing : Listing) (original : Contents) {tail : Str → Bytes}
    {activityTail : Bytes} (hstem : validTimeName stem = true) (hlog : log.WellFormed decoder)
    (hm : MetadataOf log stem m) (names : CloseNames stem m.finalizedDir)
    (hsource : d[OsName.str (incompleteName stem)]? = some (.directory members))
    (hmembers : MembersWith log stem tail activityTail members) {c : Contents}
    (hmeta : d[OsName.str (incompleteMetaName stem)]? = some (.file c))
    (hfree : d[OsName.str m.finalizedDir]? = none) :
    ∃ members', HoldsLog log stem members' ∧
      Closes stem m.finalizing members'
        (d.insert (.str (incompleteName stem)) (.directory members'))
        (run [] (validateAndFinalize decoder listing stem .default original m) d) := by
  have hvalid := validateFiles_of_with listing hstem hlog hm hmembers
  have hrepaired := hmembers.repaired hlog hm
  set repairs := tornRepairs m stem tail activityTail with hrepairs
  refine ⟨_, hrepaired, ?_⟩
  have hcloses (repaired : Bool) := run_finalizeRecovered original repaired names
    (Table.get_insert_self d (.str (incompleteName stem))
      (.directory (repairedMembers members repairs)))
    (by rw [Table.get_insert_ne (incomplete_ne_meta _ _), hmeta])
    (by rw [Table.get_insert_ne names.finalized_incomplete.symm, hfree])
  rw [validateAndFinalize, run_bind, validateDirectory, run_bind, run_readMembers hsource,
    quietThen_done, run_done, quietThen_done, hvalid]
  by_cases hnil : repairs = []
  · have hsame : d.insert (.str (incompleteName stem)) (.directory members) = d :=
      Table.insert_of_get hsource
    simp only [hnil, List.isEmpty_nil, if_true, repairedMembers, List.foldl_nil] at hcloses ⊢
    rw [hsame] at hcloses ⊢
    exact hcloses false
  · simp only [List.isEmpty_iff, hnil, if_false, run_bind]
    rw [run_applyRepairs hsource (hmembers.repairs_files hm), quietThen_done]
    exact hcloses true

end Finalizing

/-! ## Removing -/

section Removing

variable {decoder : Decoder} {listing : Listing} {stem : Str} {members : SegmentDir}
  {d : StreamDir} {source : OsName}

/-- Nothing but the activity file has any content. -/
def OnlyActivity (stem : Str) (members : SegmentDir) : Prop :=
  ∀ (name : OsName) (node : Node Bytes ℕ), members[name]? = some node →
    ∃ b, node = .file b ∧ (name ≠ .str (activityFilename stem) → b = [])

/-- All members are empty files. -/
def AllEmpty (members : SegmentDir) : Prop :=
  ∀ (name : OsName) (node : Node Bytes ℕ), members[name]? = some node → node = .file []

theorem run_truncateUncommittedActivityWriter (h : d[source]? = some (.directory members))
    (honly : OnlyActivity stem members) :
    ∃ members', AllEmpty members' ∧
      run [] (truncateUncommittedActivityWriter source stem) d =
        (.done (), d.insert source (.directory members')) := by
  have hsegment := segmentMembers_eq_some.mpr h
  have hsame : d.insert source (.directory members) = d := Table.insert_of_get h
  rw [truncateUncommittedActivityWriter, memberMetadata, run_bind, run_query, quietThen_done,
    memberAt_of_members hsegment]
  cases hactivity : members[OsName.str (activityFilename stem)]? with
  | none =>
    refine ⟨members, fun name node hnode => ?_, by rw [hsame]; rfl⟩
    obtain ⟨b, rfl, hb⟩ := honly name node hnode
    rw [hb]
    rintro rfl
    rw [hactivity] at hnode
    cases hnode
  | some node =>
    obtain ⟨b, rfl, -⟩ := honly _ node hactivity
    dsimp only
    by_cases hnil : b = []
    · refine ⟨members, fun name node hnode => ?_, ?_⟩
      · obtain ⟨b', rfl, hb'⟩ := honly name node hnode
        by_cases hname : name = .str (activityFilename stem)
        · rw [hname, hactivity, hnil] at hnode
          exact (Option.some.inj hnode).symm
        · rw [hb' hname]
      · rw [if_pos (by simp [Node.memberLength, hnil]), hsame]
        rfl
    · refine ⟨members.insert (.str (activityFilename stem)) (.file []), fun name node hnode => ?_,
        ?_⟩
      · rw [Table.get_insert] at hnode
        split at hnode
        · exact (Option.some.inj hnode).symm
        · rename_i hne
          obtain ⟨b', rfl, hb'⟩ := honly name node hnode
          rw [hb' fun heq => hne heq.symm]
      · have hcut : resizedMember source (.str (activityFilename stem)) 0 d = (.ok (), d.insert source
            (.directory (members.insert (.str (activityFilename stem)) (.file [])))) := by
          rw [resizedMember, memberAt_of_members hsegment, hactivity]
          simp only [setMember_of_members hsegment, resize, List.take_zero, Nat.zero_sub,
            List.replicate_zero, List.append_nil]
        rw [if_neg (by simp [Node.isFile, Node.memberLength, hnil]), run_bind, setLen,
          run_call_atomic hcut, quietThen_done]
        rfl

theorem run_removeMembers {operation : String} {names : List OsName} (hnodup : names.Nodup)
    (hfiles : ∀ name ∈ names, ∃ b, members[name]? = some (.file b))
    (h : d[source]? = some (.directory members)) :
    run [] (forEach names fun name => call (RecoveryError.io operation [source, name])
        (removeMember source name)) d =
      (.done (), d.insert source
        (.directory (names.foldl (fun members name => members.erase name) members))) := by
  induction names generalizing d members with
  | nil =>
    rw [List.foldl_nil, Table.insert_of_get h]
    rfl
  | cons name names ih =>
    obtain ⟨b, hb⟩ := hfiles name List.mem_cons_self
    have hunlink : unlinkedMember source name d =
        (.ok (), d.insert source (.directory (members.erase name))) := by
      simp only [unlinkedMember, segmentMembers_eq_some.mpr h, hb]
    have hrest : ∀ other ∈ names, ∃ b, (members.erase name)[other]? = some (.file b) := by
      intro other hother
      rw [Table.get_erase_ne]
      · exact hfiles other (List.mem_cons_of_mem _ hother)
      · rintro rfl
        exact (List.nodup_cons.mp hnodup).1 hother
    have hround := ih (List.nodup_cons.mp hnodup).2 hrest
      (Table.get_insert_self d source (.directory (members.erase name)))
    rw [Table.insert_insert] at hround
    rw [forEach, run_bind, removeMember, run_call_atomic hunlink, quietThen_done]
    exact hround

theorem AllEmpty.isEmptyFile (h : AllEmpty members) {name : OsName}
    (hname : name ∈ listing.order members) : isEmptyFile members name = true := by
  obtain ⟨node, hnode⟩ := Option.isSome_iff_exists.mp ((listing.mem members name).mp hname)
  rw [SolstoneTmux.isEmptyFile, hnode, h name node hnode]
  rfl

theorem run_validatedEmptyFiles (hempty : AllEmpty members)
    (h : d[source]? = some (.directory members)) :
    run [] (validatedEmptyFiles listing source) d = (.done (some (listing.order members)), d) := by
  have hvalid : (listing.order members).all (isEmptyFile members) = true := by
    rw [List.all_eq_true]
    exact fun name hname => hempty.isEmptyFile hname
  rw [validatedEmptyFiles, run_bind, run_readMembers h, quietThen_done]
  dsimp only
  rw [if_pos hvalid, run_done]

/-- Empty files are all removed. -/
theorem run_removeValidatedEmptyFiles (hempty : AllEmpty members)
    (h : d[source]? = some (.directory members)) :
    run [] (removeValidatedEmptyFiles listing source (listing.order members)) d =
      (.done true, d.insert source (.directory ∅)) := by
  have hvalid : ((listing.order members).all fun name =>
      (listing.order members).contains name && isEmptyFile members name) = true := by
    rw [List.all_eq_true]
    intro name hname
    rw [hempty.isEmptyFile hname, Bool.and_true]
    simpa using hname
  have hfiles : ∀ name ∈ listing.order members, ∃ b, members[name]? = some (.file b) := by
    intro name hname
    obtain ⟨node, hnode⟩ := Option.isSome_iff_exists.mp ((listing.mem members name).mp hname)
    exact ⟨[], by rw [hnode, hempty name node hnode]⟩
  have hall : ∀ name node, members[name]? = some node → name ∈ listing.order members :=
    fun name node hnode => (listing.mem members name).mpr (by rw [hnode]; rfl)
  rw [removeValidatedEmptyFiles, run_bind, run_readMembers h, quietThen_done]
  dsimp only
  rw [hvalid, if_neg (by simp), run_bind, run_removeMembers (listing.nodup members) hfiles h,
    Table.foldl_erase_eq_empty hall]
  rfl

/-- **A segment of empty files is removed with its metadata.** -/
theorem run_removeConfirmedEmptySource (listing : Listing) (hempty : AllEmpty members)
    (h : d[OsName.str (incompleteName stem)]? = some (.directory members)) {c : Contents}
    (hmeta : d[OsName.str (incompleteMetaName stem)]? = some (.file c)) :
    ∃ record : RecoveryRecord, record.action = .remove ∧
      run [] (removeConfirmedEmptySource listing stem) d = (.done record,
        (d.erase (.str (incompleteName stem))).erase (.str (incompleteMetaName stem))) := by
  have hmeta' : (d.erase (.str (incompleteName stem)))[OsName.str (incompleteMetaName stem)]? =
      some (.file c) := by
    rw [Table.get_erase_ne (incomplete_ne_meta _ _), hmeta]
  refine ⟨⟨[.str (incompleteName stem)], .remove,
    "valid metadata positively confirmed an empty segment"⟩, rfl, ?_⟩
  rw [removeConfirmedEmptySource, run_bind, run_validatedEmptyFiles hempty h, quietThen_done]
  dsimp only
  rw [run_bind, run_removeValidatedEmptyFiles hempty h, quietThen_done, if_neg (by simp), run_bind,
    removeDir, run_call_atomic (withoutDir_of_empty (Table.get_insert_self _ _ _)), quietThen_done,
    Table.erase_insert_self, run_bind, removeFile, run_call_atomic (unlinked_of_file hmeta')]
  rfl

end Removing

/-! ## One candidate -/

/-- The directory of a segment and its metadata file, which records a log. -/
structure OnDisk (decoder : Decoder) (stem : Str) (log : SegmentLog) (m : SegmentMetadata)
    (members : SegmentDir) (d : StreamDir) : Prop where
  wellFormed : log.WellFormed decoder
  metadata : MetadataOf log stem m
  recorded : m.finalizedDir = finalizedName stem m.elapsedNanos
  source : d[OsName.str (incompleteName stem)]? = some (.directory members)
  metaFile : d[OsName.str (incompleteMetaName stem)]? = some (.file (.metadata m))

theorem confirmsEmpty_of_log {log : SegmentLog} {stem : Str} {m : SegmentMetadata}
    (hm : MetadataOf log stem m) : confirmsEmpty m = true ↔ log = .empty := by
  constructor
  · intro h
    simp only [confirmsEmpty, Bool.and_eq_true, decide_eq_true_eq, hm.count, hm.activity,
      List.length_eq_zero_iff] at h
    obtain ⟨frames, activity⟩ := log
    exact congrArg₂ SegmentLog.mk h.1.1.1.1 h.1.2
  · rintro rfl
    have hnone : m.sessions.vals = [] := by
      refine List.eq_nil_iff_forall_not_mem.mpr fun session hs => ?_
      have := mem_vals_of_log hm hs
      cases this
    simp [confirmsEmpty, hm.count, hm.lastId, hm.hasFrames, hm.activity, hnone, SegmentLog.empty]

section Candidate

variable {decoder : Decoder} {listing : Listing} {log : SegmentLog} {stem : Str}
  {m : SegmentMetadata} {members : SegmentDir} {d : StreamDir} {interval : ℕ}

/-- Recovery of a stem whose directory and consistent metadata are both there. -/
theorem OnDisk.run_recoverCandidate (hstem : validTimeName stem = true)
    (h : OnDisk decoder stem log m members d) :
    run [] (recoverCandidate decoder listing stem .default interval) d =
      run [] (recoverSource decoder listing stem .default (.metadata m)
        (recordLength m m.elapsedNanos interval)) d := by
  have hsource := h.source
  have hmeta := h.metaFile
  have hm := metadataIsConsistent_of_log hstem h.wellFormed h.metadata h.recorded
  have hdir : run [] (rejectSpecialTarget (.str (incompleteName stem)) false) d = (.done (), d) :=
    run_rejectSpecialTarget fun node hnode => by
      rw [hsource] at hnode
      cases hnode
      rfl
  have hfile : run [] (rejectSpecialTarget (.str (incompleteMetaName stem)) true) d =
      (.done (), d) :=
    run_rejectSpecialTarget fun node hnode => by
      rw [hmeta] at hnode
      cases hnode
      rfl
  have hshape : ((exactComponent stem).isNone || !validTimeName stem) = false := by
    rw [hstem, Bool.not_true, Bool.or_false, Option.isNone_eq_false_iff]
    exact exactComponent_stem hstem
  have hread : (decoder.metadata (.metadata m)).filter (metadataIsConsistent · stem) = some m := by
    rw [Decoder.metadata, Option.filter_some, hm, if_pos rfl]
  rw [recoverCandidate, run_bind, hdir, quietThen_done, run_bind, hfile, quietThen_done, hshape,
    if_neg (by simp), run_bind, run_readFile hmeta, quietThen_done]
  dsimp only
  rw [run_bind, run_isDirectory, quietThen_done, hread, hsource]
  rfl

/-- The name that a segment gets after an elapsed time. -/
def closedName (stem : Str) (interval elapsed : ℕ) : Str :=
  finalizedName stem (segmentLength elapsed interval * nanosPerSecond)

/-- How recovery ends for the segment of a stem that holds a log. It is finalized with the log, or
removed when the log is empty; where something has the name that it should get, it is left as it
is. -/
inductive Recovered (stem : Str) (interval : ℕ) (log : SegmentLog) (d : StreamDir) :
    Ended RecoveryError RecoveryRecord × StreamDir → Prop
  | finalized {m : SegmentMetadata} {members : SegmentDir} {elapsed : ℕ}
      {r : Ended RecoveryError RecoveryRecord × StreamDir}
      (name : m.finalizedDir = closedName stem interval elapsed)
      (free : d[OsName.str m.finalizedDir]? = none) (holds : HoldsLog log stem members)
      (closes : Closes stem m members
        (d.insert (.str (incompleteName stem)) (.directory members)) r) :
      Recovered stem interval log d r
  | removed {record : RecoveryRecord} (empty : log = .empty) (action : record.action = .remove) :
      Recovered stem interval log d (.done record,
        (d.erase (.str (incompleteName stem))).erase (.str (incompleteMetaName stem)))
  | occupied {elapsed : ℕ} {record : RecoveryRecord} (action : record.action = .failed)
      (taken : d[OsName.str (closedName stem interval elapsed)]?.isSome = true) :
      Recovered stem interval log d (.done record, d)

theorem finalizedDir_recordLength (hm : MetadataOf log stem m) (elapsed interval : ℕ) :
    (recordLength m elapsed interval).finalizedDir = closedName stem interval elapsed :=
  (lengthOf_recordLength hm.incomplete elapsed interval).finalized

/-- **A segment whose files hold a recorded log is finalized with it, or removed.** -/
theorem OnDisk.recovered (hstem : validTimeName stem = true)
    (h : OnDisk decoder stem log m members d)
    (hmembers : if log = .empty then OnlyActivity stem members
      else ∃ tail activityTail, MembersWith log stem tail activityTail members) :
    Recovered stem interval log d
      (run [] (recoverCandidate decoder listing stem .default interval) d) := by
  rw [h.run_recoverCandidate hstem]
  have hname := finalizedDir_recordLength h.metadata m.elapsedNanos interval
  have hm' := h.metadata.recordLength m.elapsedNanos interval
  generalize recordLength m m.elapsedNanos interval = m' at hm' hname
  rw [recoverSource, run_bind, run_entryExists, quietThen_done, RecoveryOptions.default]
  by_cases htaken : d[OsName.str m'.finalizedDir]?.isSome = true
  · rw [if_pos htaken]
    exact .occupied rfl (hname ▸ htaken)
  · have hfree : d[OsName.str m'.finalizedDir]? = none := by simpa using htaken
    rw [if_neg htaken, if_neg (by simp)]
    by_cases hempty : log = .empty
    · rw [if_pos hempty] at hmembers
      obtain ⟨members', hall, hcut⟩ := run_truncateUncommittedActivityWriter h.source hmembers
      have hsource' := Table.get_insert_self d (OsName.str (incompleteName stem))
        (.directory members' : Node Contents SegmentDir)
      have hidle : (listing.order members').any (isNonemptyIdActivity stem members') = false := by
        rw [List.any_eq_false]
        intro name hname
        obtain ⟨node, hnode⟩ := Option.isSome_iff_exists.mp ((listing.mem members' name).mp hname)
        rw [isNonemptyIdActivity]
        cases name.toStr with
        | none => simp
        | some text => simp [hnode, hall name node hnode, Node.memberLength]
      have hactivity : run [] (hasNonemptyIdActivityFile listing (.str (incompleteName stem)) stem)
          (d.insert (.str (incompleteName stem)) (.directory members')) =
            (.done false, d.insert (.str (incompleteName stem)) (.directory members')) := by
        rw [hasNonemptyIdActivityFile, run_bind, run_readMembers hsource', quietThen_done,
          run_glance, hidle]
      obtain ⟨record, haction, hremove⟩ := run_removeConfirmedEmptySource listing hall hsource' (by rw [Table.get_insert_ne (incomplete_ne_meta _ _), h.metaFile])
      rw [if_pos ((confirmsEmpty_of_log hm').mpr hempty), run_bind, hcut, quietThen_done, run_bind,
        hactivity, quietThen_done, if_neg (by simp), hremove, Table.erase_insert_self]
      exact .removed hempty haction
    · rw [if_neg hempty] at hmembers
      obtain ⟨tail, activityTail, hmembers⟩ := hmembers
      rw [if_neg fun h => hempty ((confirmsEmpty_of_log hm').mp h)]
      obtain ⟨members', hholds, hcloses⟩ := run_validateAndFinalize listing (.metadata m) hstem
        h.wellFormed hm' (hname ▸ closeNames _ _) h.source hmembers
        h.metaFile hfree
      exact .finalized (m := m'.finalizing) hname hfree hholds hcloses

end Candidate

/-! ## Quarantine -/

section Quarantine

variable {decoder : Decoder} {listing : Listing} {log : SegmentLog} {stem : Str}
  {m : SegmentMetadata} {members : SegmentDir} {d : StreamDir} {interval : ℕ}

/-- The stream directory after a segment's directory and metadata file took their failed names. -/
def asideDir (stem : Str) (number : ℕ) (members : SegmentDir) (c : Contents) (d : StreamDir) :
    StreamDir :=
  (((d.erase (.str (incompleteName stem))).insert (.str (failedName stem number))
    (.directory members)).erase (.str (incompleteMetaName stem))).insert
      (.str (failedMetaName stem number)) (.file c)

theorem attemptFree_iff {number : ℕ} :
    attemptFree d stem number = true ↔ d[OsName.str (failedName stem number)]? = none ∧
      d[OsName.str (failedMetaName stem number)]? = none := by
  simp [attemptFree]

theorem incompleteName_ne_failed (stem : Str) (number : ℕ) :
    OsName.str (incompleteName stem) ≠ .str (failedName stem number) :=
  str_ne (incompleteName_getLast? stem) (failedName_getLast? stem number) (by decide)

theorem incompleteName_ne_failedMeta (stem : Str) (number : ℕ) :
    OsName.str (incompleteName stem) ≠ .str (failedMetaName stem number) :=
  str_ne (incompleteName_getLast? stem) (failedMetaName_getLast? stem number) (by decide)

theorem metaName_ne_failed (stem : Str) (number : ℕ) :
    OsName.str (incompleteMetaName stem) ≠ .str (failedName stem number) :=
  str_ne (incompleteMetaName_getLast? stem) (failedName_getLast? stem number) (by decide)

theorem failed_ne_failedMeta (stem : Str) (number : ℕ) :
    OsName.str (failedName stem number) ≠ .str (failedMetaName stem number) :=
  str_ne (failedName_getLast? stem number) (failedMetaName_getLast? stem number) (by decide)

theorem metaName_ne_failedMeta (stem : Str) (number : ℕ) :
    OsName.str (incompleteMetaName stem) ≠ .str (failedMetaName stem number) := by
  intro h
  have hlast : incompleteName stem ++ ".meta".toList = failedName stem number ++ ".meta".toList := by
    simpa [failedMetaName, failedName, incompleteName, incompleteMetaName] using OsName.str.inj h
  exact incompleteName_ne_failed stem number (congrArg OsName.str (List.append_cancel_right hlast))

/-- **Quarantine moves the segment and its metadata to free names.** -/
theorem run_quarantine (detail : String) {c : Contents}
    (hsource : d[OsName.str (incompleteName stem)]? = some (.directory members))
    (hmeta : d[OsName.str (incompleteMetaName stem)]? = some (.file c)) :
    ∃ number, ∃ record : RecoveryRecord, record.action = .quarantine ∧
      run [] (quarantine stem detail) d = (.done record, asideDir stem number members c d) := by
  obtain ⟨hfree, hfreeMeta⟩ := attemptFree_iff.mp (attemptFree_firstFree d stem)
  refine ⟨firstFree d stem, ⟨[.str (failedName stem (firstFree d stem))], .quarantine, detail⟩, rfl,
    ?_⟩
  generalize hnumber : firstFree d stem = number at hfree hfreeMeta
  have hmoved : renamed (.str (incompleteName stem)) (.str (failedName stem number)) d = (.ok (),
      (d.erase (.str (incompleteName stem))).insert (.str (failedName stem number))
        (.directory members)) :=
    renamed_of_free hsource (incompleteName_ne_failed stem number) hfree
  have hmovedMeta : renamed (.str (incompleteMetaName stem)) (.str (failedMetaName stem number))
      ((d.erase (.str (incompleteName stem))).insert (.str (failedName stem number))
        (.directory members)) = (.ok (), asideDir stem number members c d) := by
    refine renamed_of_free ?_ (metaName_ne_failedMeta stem number) ?_
    · rw [Table.get_insert_ne (metaName_ne_failed stem number).symm,
        Table.get_erase_ne (incomplete_ne_meta _ _), hmeta]
    · rw [Table.get_insert_ne (failed_ne_failedMeta stem number),
        Table.get_erase_ne (incompleteName_ne_failedMeta stem number), hfreeMeta]
  have hpick : run [] (call (.io "inspect recovery collision target" [])
      (query fun d => .ok (firstFree d stem)) : RecoveryProg ℕ) d = (.done number, d) :=
    run_call_query (by rw [hnumber])
  rw [quarantine, run_bind, hpick, quietThen_done]
  dsimp only
  rw [run_bind, run_entryExists, quietThen_done, run_bind, run_entryExists, quietThen_done, hsource, hmeta, Option.isSome_some,
    Option.isSome_some, if_pos rfl, if_pos rfl]
  simp only [renameEntry]
  rw [run_bind, run_call_atomic hmoved, quietThen_done, run_bind, run_bind, run_atomic, hmovedMeta]
  rfl

/-- How recovery ends for a segment that it does not accept: it is moved aside, or left as it is
where something has the name that it would get. -/
inductive MovedAside (stem : Str) (interval : ℕ) (members : SegmentDir) (c : Contents)
    (d : StreamDir) : Ended RecoveryError RecoveryRecord × StreamDir → Prop
  | quarantined {number : ℕ} {record : RecoveryRecord} (action : record.action = .quarantine) :
      MovedAside stem interval members c d (.done record, asideDir stem number members c d)
  | occupied {elapsed : ℕ} {record : RecoveryRecord} (action : record.action = .failed)
      (taken : d[OsName.str (closedName stem interval elapsed)]?.isSome = true) :
      MovedAside stem interval members c d (.done record, d)

/-- **A complete line behind the recorded bytes of a session's file has the segment moved aside.** -/
theorem OnDisk.movedAside (hstem : validTimeName stem = true)
    (h : OnDisk decoder stem log m members d) {session : SessionMetadata} (hs : session ∈ m.sessions.vals) {b : Bytes}
    (hfile : members[OsName.str session.filename]? = some (.file b))
    (hline : newline ∈ b.drop session.durableOffset) :
    MovedAside stem interval members (.metadata m) d
      (run [] (recoverCandidate decoder listing stem .default interval) d) := by
  rw [h.run_recoverCandidate hstem]
  have hname := finalizedDir_recordLength h.metadata m.elapsedNanos interval
  have hm' := h.metadata.recordLength m.elapsedNanos interval
  have hs' : session ∈ (recordLength m m.elapsedNanos interval).sessions.vals := hs
  generalize recordLength m m.elapsedNanos interval = m' at hm' hname hs'
  have hkind : (validateFiles decoder listing members m').kind = .contradictory := by
    by_contra hne
    have hread : FilesRead decoder listing members m' stem :=
      filesRead_of_validateFiles (by rw [hm'.incomplete, segmentStem_incompleteName]) hne
    have htail := (hread.sessions session hs').tail
    rw [sessionBytes_of_file hfile] at htail
    exact htail hline
  have hnonempty : ¬ confirmsEmpty m' = true := by
    intro hempty
    have hnil := (confirmsEmpty_of_log hm').mp hempty
    have hnone := mem_vals_of_log hm' hs'
    rw [hnil] at hnone
    cases hnone
  rw [recoverSource, run_bind, run_entryExists, quietThen_done, RecoveryOptions.default]
  by_cases htaken : d[OsName.str m'.finalizedDir]?.isSome = true
  · rw [if_pos htaken]
    exact .occupied rfl (hname ▸ htaken)
  · rw [if_neg htaken, if_neg (by simp), if_neg hnonempty, validateAndFinalize, run_bind,
      validateDirectory, run_bind, run_readMembers h.source, quietThen_done, run_done, quietThen_done,
      hkind]
    obtain ⟨number, record, haction, hrun⟩ := run_quarantine
      (validateFiles decoder listing members m').detail h.source h.metaFile
    rw [hrun]
    exact .quarantined haction

end Quarantine

end SolstoneTmux
