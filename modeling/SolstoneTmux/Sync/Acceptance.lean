import SolstoneTmux.FailedAppends
import SolstoneTmux.Finalize
import SolstoneTmux.Sync.Candidate

/-!
# What the uploader accepts of what the writer finalizes

The writer and the uploader have each their own grammar of file names. `accepted_iff` compares them
on every finalized segment, with whatever appends that failed: the uploader takes the directory and
the activity file always, and the session files when every session has a canonical name of at most
`maxSessionBytes` bytes. An escaped name is never taken, because its component is not a canonical
identity itself (`canonical_component`).
-/

namespace SolstoneTmux

open Foundations Foundations.Prog SegmentLog

/-! ## Session names -/

/-- The longest session name whose file name is still a component. -/
def maxSessionBytes : ℕ := 182

/-- A session name that the uploader accepts in a file name. -/
def nameTravels (session : Str) : Prop :=
  canonical session = true ∧ session.length ≤ maxSessionBytes

/-- A component is a canonical identity only when nothing in it was escaped. -/
theorem canonical_component (s : Str) : canonical (component s) = canonical s := by
  cases hs : canonical s with
  | true => rw [component_of_canonical hs, hs]
  | false =>
    by_contra hc
    rw [Bool.not_eq_false] at hc
    have hrest := all_isRest_of_canonical hc
    rw [component, hs] at hrest
    simp [isRest, isLead] at hrest

theorem canonical_sessionFilename {n : DerivedName} :
    canonical n.sessionFilename = n.asStr.all isRest := by
  have hlead : canonical "tmux_".toList = true := by decide
  have htail : "_screen.jsonl".toList.all isRest = true := by decide
  rw [DerivedName.sessionFilename, List.append_assoc, canonical_append (by decide), hlead,
    List.all_append, htail, Bool.and_true, Bool.true_and]

/-- **Which session files the uploader knows.** -/
theorem validCaptureFilename_iff {session : Str} {n : DerivedName}
    (hn : deriveComponent session = .ok n) :
    validCaptureFilename n.sessionFilename = true ↔ nameTravels session := by
  obtain ⟨hne, hcomp⟩ := deriveComponent_ok hn
  have hstrip : (stripPrefix "tmux_".toList n.sessionFilename).bind
      (stripSuffix "_screen.jsonl".toList) = some n.asStr := by
    rw [DerivedName.sessionFilename, List.append_assoc, stripPrefix_append, Option.bind_some,
      stripSuffix_append]
  have hlength : n.sessionFilename.length = n.asStr.length + 18 := by
    simp [DerivedName.sessionFilename]
  simp only [validCaptureFilename, hstrip, Bool.and_eq_true, exactComponent_isSome_iff,
    canonical_sessionFilename, nameTravels, hlength, maxComponentBytes, maxSessionBytes, hcomp,
    canonical_component]
  constructor
  · rintro ⟨⟨-, -, hlen⟩, -, hcan, -⟩
    rw [component_of_canonical hcan] at hlen
    exact ⟨hcan, by omega⟩
  · rintro ⟨hcan, hlen⟩
    rw [component_of_canonical hcan]
    refine ⟨⟨?_, all_isRest_of_canonical hcan, by omega⟩, hne, hcan, by omega⟩
    simp [DerivedName.sessionFilename]

/-! ## Segment names -/

theorem splitOnce_underscore {stem : Str} (h : ∀ c ∈ stem, isDigit c = true) (rest : Str) :
    splitOnce '_' (stem ++ '_' :: rest) = some (stem, rest) := by
  have hnot : '_' ∉ stem := fun hmem => absurd (h _ hmem) (by decide)
  exact splitOnce_append hnot rest

/-- The seconds of a `Duration` have at most twenty digits. -/
theorem length_padLeft_decimal_le {length : ℕ} (h : length ≤ durationMax) :
    (padLeft 3 (decimal (asSecs length))).length ≤ 20 := by
  have hsecs : asSecs length < 10 ^ 20 :=
    lt_of_le_of_lt (asSecs_le h) (by norm_num [u64Max])
  have hdec : (decimal (asSecs length)).length ≤ 20 :=
    (Nat.length_toDigits_le_iff (by omega) (by omega)).mpr hsecs
  rw [padLeft, List.length_append, List.length_replicate]
  omega

section Segment

variable {stem : Str} (hstem : validTimeName stem = true)

include hstem

theorem splitOnce_finalizedName (length : ℕ) :
    splitOnce '_' (finalizedName stem length) =
      some (stem, padLeft 3 (decimal (asSecs length))) :=
  splitOnce_underscore (validTimeName_isDigit hstem) _

theorem validSegmentName_finalizedName (length : ℕ) :
    validSegmentName (finalizedName stem length) = true := by
  have hdigits : (padLeft 3 (decimal (asSecs length))).all isDigit = true :=
    List.all_eq_true.mpr fun c hc => isDigit_of_mem_padLeft (fun c hc => isDigit_of_mem_decimal hc) hc
  have htime := hstem
  simp only [validTimeName, Bool.and_eq_true] at htime
  simp only [validSegmentName, splitOnce_finalizedName hstem, Bool.and_eq_true, hdigits,
    le_length_padLeft, htime, and_self, decide_true]

theorem exactComponent_finalizedName {length : ℕ} (h : length ≤ durationMax) :
    (exactComponent (finalizedName stem length)).isSome = true := by
  refine exactComponent_stem_append hstem ?_ ?_
  · rw [List.all_cons, Bool.and_eq_true, List.all_eq_true]
    exact ⟨by decide, fun c hc => isRest_of_isLead (isLead_of_isDigit
      (isDigit_of_mem_padLeft (fun c hc => isDigit_of_mem_decimal hc) hc))⟩
  · rw [List.length_cons]
    have := length_padLeft_decimal_le h
    omega

/-- A session file is not taken for an activity file. -/
theorem validActivityFilename_sessionFilename (n : DerivedName) :
    validActivityFilename n.sessionFilename stem = false := by
  rw [validActivityFilename, if_neg (activityFilename_ne_sessionFilename _ n).symm]
  cases stem with
  | nil => exact absurd rfl (stem_ne_nil hstem)
  | cons c s =>
    have hc := validTimeName_isDigit hstem c List.mem_cons_self
    have hne : c ≠ 't' := fun h => absurd (h ▸ hc) (by decide)
    have hstrip : stripPrefix (c :: s ++ ['_']) n.sessionFilename = none := by
      cases hs : stripPrefix (c :: s ++ ['_']) n.sessionFilename with
      | none => rfl
      | some rest =>
        have heq := stripPrefix_eq_some.mp hs
        rw [DerivedName.sessionFilename] at heq
        exact absurd (List.cons.inj heq).1 hne.symm
    rw [hstrip]
    rfl

end Segment

/-! ## Resolving a segment -/

/-- Every session that has one of these files has a name that travels. -/
def SessionsTravel (files : List Str) : Prop :=
  ∀ session filename, sessionFile session = some filename → filename ∈ files → nameTravels session

theorem SessionsTravel.perm {files files' : List Str} (h : files.Perm files') :
    SessionsTravel files ↔ SessionsTravel files' := by
  simp only [SessionsTravel, h.mem_iff]

/-- A segment directory has only regular files that a segment may have. -/
def OwnFiles (stem : Str) (members : SegmentDir) : Prop :=
  ∀ name node, members[name]? = some node →
    node.isFile = true ∧ ∃ filename, name = OsName.str filename ∧ MayHave stem filename

theorem FilesHeld.ownFiles {stem : Str} {d : StreamDir} {storage : FileStorage}
    {m : SegmentMetadata} {files : Str → Bytes} {members : SegmentDir}
    (h : FilesHeld stem d storage m files members) : OwnFiles stem members := by
  intro name node hnode
  obtain ⟨filename, rfl, hown⟩ := h.only name node hnode
  refine ⟨?_, filename, rfl, hown⟩
  rcases h.file filename with hfile | ⟨hnone, -⟩
  · rw [hfile] at hnode
    cases hnode
    rfl
  · rw [hnone] at hnode
    cases hnode

theorem Records.ownFiles {decoder : Decoder} {stem : Str} {d : StreamDir} {seg : SegmentState}
    {log : SegmentLog} {members : SegmentDir} (h : Records decoder stem d seg log members) :
    OwnFiles stem members := by
  intro name node hnode
  refine ⟨isFile_of_log h.members hnode, ?_⟩
  rcases h.members.only _ _ hnode with ⟨p, hp, rfl⟩ | rfl
  · exact ⟨_, rfl, .inr ⟨_, h.wellFormed.file hp⟩⟩
  · exact ⟨_, rfl, .inl rfl⟩

/-- **The uploader accepts the entries of a segment when all its sessions have names that
travel.** -/
theorem all_acceptsEntry_iff {stem : Str} {members : SegmentDir} (hstem : validTimeName stem = true)
    (h : OwnFiles stem members) (length : ℕ) :
    members.toList.all (acceptsEntry (finalizedName stem length)) = true ↔
      SessionsTravel (members.toList.filterMap fun e => e.1.toStr) := by
  have hmember : ∀ name, validMember (finalizedName stem length) name =
      (validCaptureFilename name || validActivityFilename name stem) := by
    intro name
    rw [validMember, splitOnce_finalizedName hstem]
    rfl
  rw [List.all_eq_true]
  constructor
  · intro hall session filename hsession hname
    obtain ⟨node, hnode⟩ := mem_memberNames.mp hname
    obtain ⟨n, hn, rfl⟩ := sessionFile_eq_some hsession
    have haccepts := hall _ (Table.mem_toList.mpr hnode)
    simp only [acceptsEntry, OsName.toStr_str, hmember, Bool.and_eq_true,
      validActivityFilename_sessionFilename hstem n, Bool.or_false] at haccepts
    exact (validCaptureFilename_iff hn).mp haccepts.1.1
  · rintro htravel ⟨name, node⟩ he
    have hnode := Table.mem_toList.mp he
    obtain ⟨hfile, filename, rfl, rfl | ⟨session, hsession⟩⟩ := h _ _ hnode
    · simp only [acceptsEntry, OsName.toStr_str, hmember, hfile, Bool.and_true,
        validActivityFilename_self hstem, Bool.or_true, exactComponent_activityFilename hstem]
    · have hname := htravel session filename hsession (mem_memberNames.mpr ⟨node, hnode⟩)
      obtain ⟨n, hn, rfl⟩ := sessionFile_eq_some hsession
      have hvalid := (validCaptureFilename_iff hn).mpr hname
      have hexact := hvalid
      rw [validCaptureFilename] at hexact
      split at hexact
      · cases hexact
      · simp only [acceptsEntry, OsName.toStr_str, hmember, hvalid, hfile, Bool.true_or,
          (Bool.and_eq_true _ _ ▸ hexact).1, Bool.and_self]

/-- The files that the writer put into a segment with the given metadata. -/
def writtenFiles (stem : Str) (m : SegmentMetadata) : List Str :=
  m.sessions.vals.map SessionMetadata.filename ++
    if m.activityDurableOffset = 0 then [] else [activityFilename stem]

section Log

variable {decoder : Decoder} {log : SegmentLog} {stem : Str} {m : SegmentMetadata}
  {members : SegmentDir}

theorem mem_writtenFiles (hlog : log.WellFormed decoder) (hm : MetadataOf log stem m)
    (hmem : MembersOf log stem members) {name : Str} : (∃ node, members[OsName.str name]? = some node) ↔
      name ∈ writtenFiles stem m := by
  rw [writtenFiles, List.mem_append, List.mem_map]
  constructor
  · rintro ⟨node, hnode⟩
    rcases hmem.only _ _ hnode with ⟨p, hp, hname⟩ | hname
    · obtain ⟨session, hs, -, hfile⟩ := mem_vals_of_numbered hlog hm hp
      exact .inl ⟨session, hs, by rw [hfile, OsName.str.inj hname]⟩
    · rw [OsName.str.inj hname, hmem.activity] at hnode
      split at hnode
      · cases hnode
      · rename_i hact
        rw [hm.activity, if_neg (by simpa using hact), OsName.str.inj hname]
        exact .inr List.mem_cons_self
  · rintro (⟨session, hs, rfl⟩ | hname)
    · exact ⟨_, file_of_log hmem hm hs⟩
    · rw [hm.activity] at hname
      split at hname
      · cases hname
      · rename_i hact
        rw [List.mem_singleton.mp hname, hmem.activity, if_neg (by simpa using hact)]
        exact ⟨_, rfl⟩

theorem nodup_writtenFiles (hlog : log.WellFormed decoder)
    (hm : MetadataOf log stem m) : (writtenFiles stem m).Nodup := by
  rw [writtenFiles, List.nodup_append]
  refine ⟨nodup_filenames hlog hm, by split <;> simp, ?_⟩
  intro name hname other hother
  obtain ⟨session, hs, rfl⟩ := List.mem_map.mp hname
  obtain ⟨n, -, hn⟩ := sessionFile_eq_some (filename_of_log hlog hm hs)
  split at hother
  · cases hother
  · rw [List.mem_singleton.mp hother, ← hn]
    exact (activityFilename_ne_sessionFilename _ n).symm

/-- The directory of a recorded segment holds exactly the written files. -/
theorem memberNames_perm (hlog : log.WellFormed decoder)
    (hm : MetadataOf log stem m) (hmem : MembersOf log stem members) :
    (members.toList.filterMap fun e => e.1.toStr).Perm (writtenFiles stem m) := by
  rw [List.perm_ext_iff_of_nodup nodup_memberNames (nodup_writtenFiles hlog hm)]
  exact fun name => mem_memberNames.trans (mem_writtenFiles hlog hm hmem)

/-- The sessions of the written files are those of the metadata. -/
theorem sessionsTravel_writtenFiles (hlog : log.WellFormed decoder) (hm : MetadataOf log stem m) :
    SessionsTravel (writtenFiles stem m) ↔ ∀ session ∈ m.sessions.vals,
      nameTravels session.session := by
  constructor
  · intro h session hs
    refine h _ _ (filename_of_log hlog hm hs) (List.mem_append_left _ ?_)
    exact List.mem_map_of_mem hs
  · intro h session filename hsession hname
    rcases List.mem_append.mp hname with hmem | hmem
    · obtain ⟨session', hs, rfl⟩ := List.mem_map.mp hmem
      rw [sessionFile_injective hsession (filename_of_log hlog hm hs)]
      exact h session' hs
    · obtain ⟨n, -, rfl⟩ := sessionFile_eq_some hsession
      split at hmem
      · cases hmem
      · exact absurd (List.mem_singleton.mp hmem).symm (activityFilename_ne_sessionFilename _ n)

end Log

/-! ## Acceptance -/

/-- The uploader takes a segment as it is: it accepts the name of the directory, finds exactly the
written files, and prepares each of them. -/
structure Accepted (sha256 : Bytes → Str) (root : Captures Bytes) (candidate : SegmentCandidate)
    (written : List Str) : Prop where
  directory : validSegmentName candidate.segment = true
  found : ∃ files, resolveSegmentFiles (some (.directory root)) candidate = .found files ∧
    files.Perm written
  prepared : ∀ name ∈ written, ∀ bytes, (prepareFile sha256 (.str name) (some bytes)).isSome = true

theorem Accepted.perm {sha256 : Bytes → Str} {root : Captures Bytes} {candidate : SegmentCandidate}
    {written written' : List Str} (h : written.Perm written')
    (haccepted : Accepted sha256 root candidate written) :
    Accepted sha256 root candidate written' where
  directory := haccepted.directory
  found :=
    have ⟨files, hfound, hfiles⟩ := haccepted.found
    ⟨files, hfound, hfiles.trans h⟩
  prepared := fun name hname => haccepted.prepared name (h.mem_iff.mpr hname)

/-- The captures directory has a segment's stream directory at its place: the day is a day and the
stream has a canonical name. -/
structure StreamAt (root : Captures Bytes) (day stream : Str) (d : StreamDir) : Prop where
  isDay : (parseDay day).isSome = true
  isExact : (exactComponent stream).isSome = true
  entry : ∃ dayEntries, root[OsName.str day]? = some (.directory dayEntries) ∧
    dayEntries[OsName.str stream]? = some (.directory d)

theorem exactComponent_day {day : Str} (h : (parseDay day).isSome = true) :
    (exactComponent day).isSome = true := by
  rw [parseDay] at h
  split at h
  · rename_i hday
    rw [Bool.and_eq_true, decide_eq_true_eq, List.all_eq_true] at hday
    rw [exactComponent_isSome_iff]
    refine ⟨?_, canonical_of_isDigit hday.2, by rw [hday.1, maxComponentBytes]; omega⟩
    rintro rfl
    cases hday.1
  · cases h

/-- On the way to a finalized segment nothing is refused. -/
theorem segmentDirectory_eq {root : Captures Bytes} {day stream stem : Str} {d : StreamDir}
    {members : SegmentDir} {length : ℕ} (hstem : validTimeName stem = true)
    (hlength : length ≤ durationMax) (hroot : StreamAt root day stream d)
    (hmem : segmentMembers d (.str (finalizedName stem length)) = some members) :
    segmentDirectory root ⟨day, stream, finalizedName stem length⟩ = .ok members := by
  obtain ⟨dayEntries, hday, hstream⟩ := hroot.entry
  obtain ⟨dayName, hdayName⟩ := Option.isSome_iff_exists.mp (exactComponent_day hroot.isDay)
  obtain ⟨streamName, hstreamName⟩ := Option.isSome_iff_exists.mp hroot.isExact
  obtain ⟨segmentName, hsegmentName⟩ :=
    Option.isSome_iff_exists.mp (exactComponent_finalizedName hstem hlength)
  have hnone : ¬ (parseDay day).isNone = true := by
    rw [Bool.not_eq_true, Option.isNone_eq_false_iff, hroot.isDay]
  rw [segmentDirectory, if_neg hnone]
  simp only [exactOrInvalid, hdayName, hstreamName, hsegmentName, Except.bind,
    validSegmentName_finalizedName hstem, lookDirectory, (exactComponent_eq_some hdayName).2, hday,
    (exactComponent_eq_some hstreamName).2, hstream, (exactComponent_eq_some hsegmentName).2,
    segmentMembers_eq_some.mp hmem]
  rfl

theorem prepareFile_isSome {sha256 : Bytes → Str} {name : Str}
    (h : (exactComponent name).isSome = true) (bytes : Bytes) :
    (prepareFile sha256 (.str name) (some bytes)).isSome = true := by
  obtain ⟨n, hn⟩ := Option.isSome_iff_exists.mp h
  simp [prepareFile, hn]

section Resolved

variable {stem : Str} {members : SegmentDir} {root : Captures Bytes} {day stream : Str}
  {d : StreamDir} {length : ℕ}

theorem resolve_of_stream (hstem : validTimeName stem = true) (hlength : length ≤ durationMax)
    (hroot : StreamAt root day stream d)
    (hdir : segmentMembers d (.str (finalizedName stem length)) = some members) :
    resolveSegmentFiles (some (.directory root)) ⟨day, stream, finalizedName stem length⟩ =
      resolveEntries (finalizedName stem length) members.toList := by
  simp only [resolveSegmentFiles, segmentDirectory_eq hstem hlength hroot hdir]

/-- One session whose name does not travel spoils its segment. -/
theorem invalid_of_ownFiles (hstem : validTimeName stem = true) (hown : OwnFiles stem members)
    (hlength : length ≤ durationMax) (hroot : StreamAt root day stream d)
    (hdir : segmentMembers d (.str (finalizedName stem length)) = some members)
    (hno : ¬ SessionsTravel (members.toList.filterMap fun e => e.1.toStr)) :
    resolveSegmentFiles (some (.directory root)) ⟨day, stream, finalizedName stem length⟩ =
      .invalid := by
  rw [← all_acceptsEntry_iff hstem hown length] at hno
  rw [resolve_of_stream hstem hlength hroot hdir, resolveEntries, resolveMembers_eq, if_neg hno]

/-- **A finalized segment is accepted when all its sessions have names that travel.** -/
theorem accepted_of_ownFiles (sha256 : Bytes → Str) (hstem : validTimeName stem = true)
    (hown : OwnFiles stem members) (hne : (members.toList.filterMap fun e => e.1.toStr) ≠ [])
    (hlength : length ≤ durationMax) (hroot : StreamAt root day stream d)
    (hdir : segmentMembers d (.str (finalizedName stem length)) = some members) :
    Accepted sha256 root ⟨day, stream, finalizedName stem length⟩
        (members.toList.filterMap fun e => e.1.toStr) ↔
      SessionsTravel (members.toList.filterMap fun e => e.1.toStr) := by
  constructor
  · intro h
    obtain ⟨files, hfound, -⟩ := h.found
    by_contra hno
    rw [invalid_of_ownFiles hstem hown hlength hroot hdir hno] at hfound
    cases hfound
  · intro htravel
    have hall := (all_acceptsEntry_iff hstem hown length).mpr htravel
    refine ⟨validSegmentName_finalizedName hstem length,
      ⟨members.toList.filterMap fun e => e.1.toStr, ?_, .rfl⟩, fun name hname bytes => ?_⟩
    · rw [resolve_of_stream hstem hlength hroot hdir, resolveEntries, resolveMembers_eq, if_pos hall]
      cases hnames : members.toList.filterMap fun e => e.1.toStr with
      | nil => exact absurd hnames hne
      | cons name names => rfl
    · obtain ⟨node, hnode⟩ := mem_memberNames.mp hname
      have haccepts := List.all_eq_true.mp hall _ (Table.mem_toList.mpr hnode)
      simp only [acceptsEntry, OsName.toStr_str, Bool.and_eq_true] at haccepts
      exact prepareFile_isSome haccepts.2 bytes

end Resolved

/-! ## Finalized segments -/

/-- A removal never answers that it finalized. -/
theorem wp_removeConfirmedEmpty_not_finalized {A : Turn → Prop} {listing : Listing}
    {seg : SegmentState} {ε : Type} (d : StreamDir) (hopen : seg.closed = none) :
    wp A (seg.removeConfirmedEmpty listing : Prog _ _ ε _)
      (fun r _ => ∀ seg' name, r ≠ .done (seg', .ok (.finalized name))) d := by
  rw [SegmentState.removeConfirmedEmpty, hopen]
  dsimp only
  split
  · rintro _ _ h
    cases h
  · rw [wp_bind, wp_attempt]
    have hsteps : wp A (SegmentState.removeEmptySteps listing seg)
        (fun r _ => ∀ close, r = .done close → close = .removedEmpty) d := by
      rw [SegmentState.removeEmptySteps]
      iterate 7
        refine wp_then (fun _ _ => ?_) (fun _ _ _ h => by cases h) (fun _ _ h => by cases h) _
      rintro _ h
      cases h
      rfl
    refine wp_mono hsteps fun r s hr => ?_
    cases r with
    | done close =>
      cases hr close rfl
      rintro _ _ h
      cases h
    | raised e =>
      rintro _ _ h
      cases h
    | killed =>
      rintro _ _ h
      cases h

/-- What a finalization that worked leaves behind. -/
theorem finalized_of_run {stem : Str} {d d' : StreamDir}
    {seg seg' : SegmentState} {log : SegmentLog} {members : SegmentDir} {ts : List Turn}
    {listing : Listing} {now : ℕ} {name : Str} (h : Closable stem d seg log members)
    (hrun : run ts (seg.finalize listing now : Prog _ _ Empty _) d =
      (.done (seg', .ok (.finalized name)), d')) :
    name = finalizedName stem (seg.lengthAt now) ∧
      segmentMembers d' (.str name) = some members ∧ (log.frames ≠ [] ∨ log.activity ≠ []) := by
  have hlength := lengthOf_finalizing h.metadata now
  have hwp : wp anyTurn (seg.finalize listing now : Prog _ _ Empty _) (fun r s =>
      ∀ seg' name, r = .done (seg', .ok (.finalized name)) →
        name = finalizedName stem (seg.lengthAt now) ∧
          segmentMembers s (.str name) = some members ∧
            (log.frames ≠ [] ∨ log.activity ≠ [])) d := by
    by_cases hne : log.frames ≠ [] ∨ log.activity ≠ []
    · refine wp_finalize h hne rfl ?_ ?_ ?_
      · rintro _ _ _ _ _ hr
        cases hr
      · rintro _ _ _ _ _ _ _ _ hr
        cases hr
      · rintro _ seg' _ seg'' name hr
        cases hr
        refine ⟨hlength.finalized, ?_, hne⟩
        rw [segmentMembers_eq_some]
        exact CloseStage.settled_finalized (hlength.finalized ▸ closeNames _ _)
    · obtain ⟨hframes, hactivity⟩ := not_or.mp hne
      rw [SegmentState.finalize, h.isOpen]
      dsimp only
      rw [if_neg (by simp [h.sound]), if_pos]
      · exact wp_mono (wp_removeConfirmedEmpty_not_finalized d h.isOpen) fun r s hr seg' name hdone =>
          absurd hdone (hr seg' name)
      · rw [h.metadata.hasFrames, h.metadata.activity, not_not.mp hframes, not_not.mp hactivity]
        rfl
  exact wp_run_eq hrun hwp trivial (fun _ _ => trivial) seg' name rfl

/-- The length of a segment at a time is a `Duration`. -/
theorem SegmentState.lengthAt_le (seg : SegmentState) {now : ℕ} (h : now ≤ durationMax) :
    seg.lengthAt now ≤ durationMax := by
  have hle : seg.elapsed now ≤ now := Nat.sub_le _ _
  have helapsed : asSecs (seg.elapsed now) ≤ u64Max := asSecs_le (Nat.le_trans hle h)
  have hlength : segmentLength (seg.elapsed now) seg.segmentInterval ≤ u64Max := by
    rw [segmentLength]
    exact Nat.le_trans (Nat.min_le_left _ _) (Nat.max_le.mpr ⟨helapsed, by decide⟩)
  calc seg.lengthAt now ≤ u64Max * nanosPerSecond := Nat.mul_le_mul_right _ hlength
    _ ≤ durationMax := Nat.le_add_right _ _

/-- The files of a segment while it is open, those without content included. -/
def segmentFiles (stem : Str) (d : StreamDir) : List Str :=
  match segmentMembers d (.str (incompleteName stem)) with
  | some members => members.toList.filterMap fun e => e.1.toStr
  | none => []

/-- A segment that records something has files. -/
theorem Recording.closable {stem : Str} {d : StreamDir} {seg : SegmentState}
    (h : Recording stem d seg) : ∃ log members, Closable stem d seg log members ∧
      OwnFiles stem members ∧ (log.frames ≠ [] ∨ log.activity ≠ [] →
        (members.toList.filterMap fun e => e.1.toStr) ≠ []) := by
  obtain ⟨files, members, hheld, hfilled⟩ := h.held
  obtain ⟨log, hlog⟩ := h.log
  refine ⟨log, members, ⟨hheld.segment, hlog, ⟨_, hheld.onDisk⟩, h.incompleteDir, h.metadataPath,
    h.sound, h.isOpen⟩, hheld.ownFiles, fun hne => ?_⟩
  obtain ⟨filename, hfile⟩ : ∃ filename, files filename ≠ [] := by
    rcases hne with hframes | hactivity
    · exact hfilled (by rw [hlog.hasFrames]; simp [List.length_pos_iff, hframes])
    · refine ⟨activityFilename stem, fun hnil => hactivity ?_⟩
      rw [← List.length_eq_zero_iff, ← hlog.activity, hheld.offsets.activity, hnil]
      rfl
  rcases hheld.file filename with hnode | ⟨-, hnil, -⟩
  · exact List.ne_nil_of_mem (mem_memberNames.mpr ⟨_, hnode⟩)
  · exact absurd hnil hfile

/-- A segment that finalized was not poisoned. -/
theorem Spoiled.not_finalized {seg seg' : SegmentState} (h : Spoiled seg) {ts : List Turn}
    {listing : Listing} {now : ℕ} {name : Str} {d d' : StreamDir} :
    run ts (seg.finalize listing now : Prog _ _ Empty _) d ≠
      (.done (seg', .ok (.finalized name)), d') := by
  intro hrun
  rw [SegmentState.finalize, h.2] at hrun
  dsimp only at hrun
  rw [if_pos h.1] at hrun
  cases hrun

/-- **Which finalized segments the uploader accepts.** Whatever appends failed before, it accepts
those whose sessions all have names that travel: canonical ones of at most `maxSessionBytes` bytes.
When all appends worked, these are the sessions of the metadata. -/
theorem accepted_iff {hash : Str → UInt64} {stem : Str}
    (hstem : validTimeName stem = true) {d d' : StreamDir} {seg seg' : SegmentState}
    (h : Tried hash stem d seg) {ts : List Turn} {listing : Listing} {now : ℕ}
    (hnow : now ≤ durationMax) {name : Str}
    (hrun : run ts (seg.finalize listing now : Prog _ _ Empty _) d =
      (.done (seg', .ok (.finalized name)), d')) {root : Captures Bytes} {day stream : Str}
    (hroot : StreamAt root day stream d') (sha256 : Bytes → Str) :
    (Accepted sha256 root ⟨day, stream, name⟩ (segmentFiles stem d) ↔
        SessionsTravel (segmentFiles stem d)) ∧
      ∀ admitted : ℕ → Prop, Written hash admitted stem d seg →
        (Accepted sha256 root ⟨day, stream, name⟩ (writtenFiles stem seg.metadata) ↔
          ∀ session ∈ seg.metadata.sessions.vals, nameTravels session.session) := by
  rcases h.recording with hspoiled | hrecording
  · exact absurd hrun hspoiled.not_finalized
  obtain ⟨log, members, hclosable, hown, hfiles⟩ := hrecording.closable
  obtain ⟨rfl, hmem, hne⟩ := finalized_of_run hclosable hrun
  have haccepted := accepted_of_ownFiles sha256 hstem hown (hfiles hne)
    (seg.lengthAt_le hnow) hroot hmem
  rw [segmentFiles, hclosable.segment]
  refine ⟨haccepted, fun admitted hwritten => ?_⟩
  obtain ⟨⟨log, members', hr⟩, -⟩ := hwritten.reached .ofEnvelopes
  obtain rfl : members = members' := Option.some.inj (hclosable.segment.symm.trans hr.segment)
  have hperm := memberNames_perm hr.wellFormed hr.metadata hr.members
  rw [← sessionsTravel_writtenFiles hr.wellFormed hr.metadata, ← SessionsTravel.perm hperm,
    ← haccepted]
  exact ⟨.perm hperm.symm, .perm hperm⟩

/-- The captures directory with one stream of one day. -/
def capturesOf (day stream : Str) (d : StreamDir) : Captures Bytes :=
  (∅ : Captures Bytes).insert (.str day)
    (.directory ((∅ : DayFiles Bytes).insert (.str stream) (.directory d)))

theorem streamAt_capturesOf {day stream : Str} (hday : (parseDay day).isSome = true)
    (hstream : (exactComponent stream).isSome = true) (d : StreamDir) :
    StreamAt (capturesOf day stream d) day stream d :=
  ⟨hday, hstream, _, Table.get_insert_self _ _ _, Table.get_insert_self _ _ _⟩

theorem accepted_main : (∃ d d' seg seg' name,
    Written (fun _ => 0) (fun _ => True) "120000".toList d seg ∧
      run [] (seg.finalize .byName 5000000000 : Prog _ _ Empty _) d =
        (.done (seg', .ok (.finalized name)), d') ∧
      Accepted (fun _ => []) (capturesOf "20260102".toList "tmux".toList d')
        ⟨"20260102".toList, "tmux".toList, name⟩ (writtenFiles "120000".toList seg.metadata)) ∧
    ∃ d d' seg seg' name, Tried (fun _ => 0) "120000".toList d seg ∧
      run [] (seg.finalize .byName 5000000000 : Prog _ _ Empty _) d =
        (.done (seg', .ok (.finalized name)), d') ∧
      segmentFiles "120000".toList d =
        ["tmux_main_screen.jsonl".toList, "tmux_work_screen.jsonl".toList] ∧
      Accepted (fun _ => []) (capturesOf "20260102".toList "tmux".toList d')
        ⟨"20260102".toList, "tmux".toList, name⟩ (segmentFiles "120000".toList d) := by
  have hcreate : Written (fun _ => 0) (fun _ => True) "120000".toList _ _ := .create (.inl (by simp))
    (rfl : run [] (SegmentState.create "120000".toList ⟨0, rfl⟩ 0 .utc none 300000000000) ∅ =
      (.done _, _))
  have hcapture := hcreate.capture trivial
    (rfl : run [] (SegmentState.appendCapture _ _ (blankCapture "main".toList)
      ⟨"0.0".toList, F64Text.valid_zero⟩ 1000000000) _ = (.done (_, .ok _), _))
  constructor
  · refine ⟨_, _, _, _, _, hcapture, rfl, ?_⟩
    refine ((accepted_iff (by decide) hcapture.tried (by decide)
      (show run [] (SegmentState.finalize .byName _ 5000000000) _ = _ from rfl)
      (streamAt_capturesOf (by decide) (by decide) _) _).2 _ hcapture).mpr ?_
    exact List.forall_mem_singleton.mpr ⟨rfl, by decide⟩
  · -- An append of another session is rolled back, and leaves its new file without content.
    have hfailed := hcapture.tried.capture
      (rfl : run [.ok, .ok, .ok, .ok, .ok, .ok, .ok, .fail 0]
        (SegmentState.appendCapture _ _ (blankCapture "work".toList)
          ⟨"5.0".toList, by decide⟩ 2000000000) _ =
        (.done (_, .error (.storage (.recoverable _))), _))
    refine ⟨_, _, _, _, _, hfailed, rfl, rfl, ?_⟩
    refine (accepted_iff (by decide) hfailed (by decide)
      (show run [] (SegmentState.finalize .byName _ 5000000000) _ = _ from rfl)
      (streamAt_capturesOf (by decide) (by decide) _) _).1.mpr fun session filename h hmem => ?_
    change filename ∈ ["tmux_main_screen.jsonl".toList, "tmux_work_screen.jsonl".toList] at hmem
    rcases List.mem_pair.mp hmem with rfl | rfl
    · rw [sessionFile_injective h (show sessionFile "main".toList = _ from rfl)]
      exact ⟨rfl, by decide⟩
    · rw [sessionFile_injective h (show sessionFile "work".toList = _ from rfl)]
      exact ⟨rfl, by decide⟩

theorem refused_main : ∃ d d' seg seg' name,
    Written (fun _ => 0) (fun _ => True) "120000".toList d seg ∧
      run [] (seg.finalize .byName 5000000000 : Prog _ _ Empty _) d =
        (.done (seg', .ok (.finalized name)), d') ∧
      StreamAt (capturesOf "20260102".toList "tmux".toList d') "20260102".toList "tmux".toList d' ∧
      resolveSegmentFiles (some (.directory (capturesOf "20260102".toList "tmux".toList d')))
        ⟨"20260102".toList, "tmux".toList, name⟩ = .invalid ∧
      ∃ file ∈ writtenFiles "120000".toList seg.metadata,
        ∀ sha256 bytes, prepareFile sha256 (.str file) (some bytes) = none := by
  have hcreate : Written (fun _ => 0) (fun _ => True) "120000".toList _ _ := .create (.inl (by simp))
    (rfl : run [] (SegmentState.create "120000".toList ⟨0, rfl⟩ 0 .utc none 300000000000) ∅ =
      (.done _, _))
  have hcapture := hcreate.capture trivial
    (rfl : run [] (SegmentState.appendCapture _ _ (blankCapture "Main".toList)
      ⟨"0.0".toList, F64Text.valid_zero⟩ 1000000000) _ = (.done (_, .ok _), _))
  have hroot : ∀ d, StreamAt (capturesOf "20260102".toList "tmux".toList d) "20260102".toList
      "tmux".toList d := streamAt_capturesOf (by decide) (by decide)
  obtain ⟨⟨log, members, hr⟩, -⟩ := hcapture.reached .ofEnvelopes
  refine ⟨_, _, _, _, _, hcapture, rfl, hroot _, ?_, _, List.mem_cons_self, fun _ _ => rfl⟩
  obtain ⟨-, hmem, -⟩ := finalized_of_run hr.closable
    (show run [] (SegmentState.finalize .byName _ 5000000000) _ = _ from rfl)
  have hlength : 5000000000 ≤ durationMax := by decide
  have hperm := memberNames_perm hr.wellFormed hr.metadata hr.members
  refine invalid_of_ownFiles (by decide) hr.ownFiles hlength (hroot _) hmem fun h => ?_
  rw [SessionsTravel.perm hperm, sessionsTravel_writtenFiles hr.wellFormed hr.metadata] at h
  exact absurd (h _ List.mem_cons_self).1 (by decide)

end SolstoneTmux
