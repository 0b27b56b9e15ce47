import SolstoneTmux.Recovery.Repaired

/-!
# Uncommitted tails

Bytes behind the durable offsets are not committed, and what is committed should be judged without
regard to them. `tails_neutral_iff` says that they make no difference to whether validation finds a
contradiction, except where the only contradiction is the number of the committed frames: it is not
looked at once some file needs a repair (`Miscounted`).
-/

namespace SolstoneTmux

open Foundations

/-! ## Directories that grow -/

/-- A member is the same or has grown, behind its recorded bytes, by bytes of some kind. -/
def Grown (recorded : ℕ) (tail : Bytes → Prop) (before after : Option (Node Bytes ℕ)) : Prop :=
  after = before ∨ ∃ bytes more, before = some (.file bytes) ∧ recorded ≤ bytes.length ∧
    tail more ∧ after = some (.file (bytes ++ more))

/-- Some session files of a directory have grown by bytes without a line feed, and its activity
file perhaps by any bytes. -/
structure Extended (m : SegmentMetadata) (stem : Str) (members members' : SegmentDir) : Prop where
  session : ∀ session ∈ m.sessions.vals, Grown session.durableOffset (newline ∉ ·)
    members[OsName.str session.filename]? members'[OsName.str session.filename]?
  activity : Grown m.activityDurableOffset (fun _ => True)
    members[OsName.str (activityFilename stem)]? members'[OsName.str (activityFilename stem)]?
  other : ∀ name : OsName, (∀ session ∈ m.sessions.vals, name ≠ .str session.filename) →
    name ≠ .str (activityFilename stem) → members'[name]? = members[name]?

theorem Grown.isFile {recorded : ℕ} {tail : Bytes → Prop} {before after : Option (Node Bytes ℕ)}
    (h : Grown recorded tail before after) :
    after.map Node.isFile = before.map Node.isFile := by
  obtain rfl | ⟨bytes, more, rfl, -, -, rfl⟩ := h
  · rfl
  · rfl

section Extended

variable {decoder : Decoder} {listing : Listing} {m : SegmentMetadata} {stem : Str}
  {members members' : SegmentDir} {session : SessionMetadata}

theorem Extended.isFile (h : Extended m stem members members') (name : OsName) :
    members'[name]?.map Node.isFile = members[name]?.map Node.isFile := by
  by_cases hsession : ∃ session ∈ m.sessions.vals, name = .str session.filename
  · obtain ⟨session, hmem, rfl⟩ := hsession
    exact (h.session session hmem).isFile
  · by_cases hactivity : name = .str (activityFilename stem)
    · rw [hactivity]
      exact h.activity.isFile
    · rw [h.other name (fun session hmem heq => hsession ⟨session, hmem, heq⟩) hactivity]

/-- The scan looks at names and kinds only. -/
theorem scanMembers_iff : scanMembers m stem members (listing.order members) = none ↔
    ∀ (name : OsName) (isFile : Bool), members[name]?.map Node.isFile = some isFile → isFile = true ∧
      ∃ text, name = .str text ∧ (text ∈ expectedNames m ∨ validActivityFilename text stem = true) := by
  constructor
  · intro h name isFile hname
    obtain ⟨node, hnode, rfl⟩ := Option.map_eq_some_iff.mp hname
    obtain ⟨node', hnode', text, rfl, hfile, hallowed⟩ :=
      memberAllowed_of_scan h name ((listing.mem members name).mpr (by rw [hnode]; rfl))
    rw [hnode] at hnode'
    cases hnode'
    exact ⟨hfile, text, rfl, hallowed⟩
  · intro h
    refine scanMembers_eq_none fun name hname => ?_
    obtain ⟨node, hnode⟩ := Option.isSome_iff_exists.mp ((listing.mem members name).mp hname)
    obtain ⟨hfile, text, rfl, hallowed⟩ := h name node.isFile (by rw [hnode]; rfl)
    exact ⟨node, hnode, text, rfl, hfile, hallowed⟩

theorem Extended.scan_iff (h : Extended m stem members members') :
    scanMembers m stem members' (listing.order members') = none ↔
      scanMembers m stem members (listing.order members) = none := by
  simp only [scanMembers_iff, h.isFile]

/-! ## A session's file -/

theorem recordedPart_grown
    (h : Grown session.durableOffset (newline ∉ ·) members[OsName.str session.filename]?
      members'[OsName.str session.filename]?) :
    recordedPart members' session = recordedPart members session := by
  rw [recordedPart, recordedPart, sessionBytes, sessionBytes]
  obtain hsame | ⟨bytes, more, hbefore, hlong, -, hafter⟩ := h
  · rw [hsame]
  · simp only [hbefore, hafter]
    exact List.take_append_of_le_length hlong

theorem recordedLines_grown (h : recordedPart members' session = recordedPart members session) :
    recordedLines members' session = recordedLines members session := by
  rw [recordedLines, recordedLines, h]

theorem idsRead_grown (h : recordedPart members' session = recordedPart members session) :
    idsRead decoder members' session = idsRead decoder members session := by
  rw [idsRead, idsRead, h]

theorem isTorn_grown (h : recordedPart members' session = recordedPart members session) :
    IsTorn members' session ↔ IsTorn members session := by
  rw [IsTorn, IsTorn, recordedLines_grown h]

/-- A file with the recorded bytes of one that passes passes too, when no line ends behind them. -/
theorem SessionReads.of_part (h : SessionReads decoder members session)
    (hpart : recordedPart members' session = recordedPart members session) {bytes : Bytes}
    (hfile : members'[OsName.str session.filename]? = some (.file bytes))
    (hlong : session.durableOffset ≤ bytes.length)
    (htail : newline ∉ bytes.drop session.durableOffset) :
    SessionReads decoder members' session where
  file := by rw [sessionBytes_of_file hfile, hfile]
  long := by rwa [sessionBytes_of_file hfile]
  lines := by
    rw [idsRead_grown hpart, recordedLines_grown hpart]
    exact h.lines
  last := by
    rw [isTorn_grown hpart, idsRead_grown hpart]
    exact h.last
  tail := by rwa [sessionBytes_of_file hfile]

/-- A session's file passes with or without a tail. -/
theorem sessionReads_grown
    (h : Grown session.durableOffset (newline ∉ ·) members[OsName.str session.filename]?
      members'[OsName.str session.filename]?) :
    SessionReads decoder members' session ↔ SessionReads decoder members session := by
  have hpart := recordedPart_grown h
  obtain hsame | ⟨bytes, more, hbefore, hlong, hmore, hafter⟩ := h
  · constructor
    · intro hreads
      exact hreads.of_part hpart.symm (hsame.symm.trans hreads.file) hreads.long hreads.tail
    · intro hreads
      exact hreads.of_part hpart (hsame.trans hreads.file) hreads.long hreads.tail
  · have htail : newline ∉ (bytes ++ more).drop session.durableOffset ↔
        newline ∉ bytes.drop session.durableOffset := by
      rw [List.drop_append_of_le_length hlong, List.mem_append, not_or]
      exact and_iff_left hmore
    constructor
    · intro hreads
      have htail' := hreads.tail
      rw [sessionBytes_of_file hafter, htail] at htail'
      exact hreads.of_part hpart.symm hbefore hlong htail'
    · intro hreads
      have htail' := hreads.tail
      rw [sessionBytes_of_file hbefore, ← htail] at htail'
      refine hreads.of_part hpart hafter ?_ htail'
      rw [List.length_append]
      omega

/-! ## All files -/

theorem activityReads_grown (h : Extended m stem members members') :
    ActivityReads m stem members' ↔ ActivityReads m stem members := by
  obtain hsame | ⟨bytes, more, hbefore, hlong, -, hafter⟩ := h.activity
  · have hbytes : activityBytes members' stem = activityBytes members stem := by
      rw [activityBytes, activityBytes, hsame]
    constructor
    · exact fun hreads => ⟨by rw [← hsame, ← hbytes]; exact hreads.file, by rw [← hbytes]; exact hreads.long⟩
    · exact fun hreads => ⟨by rw [hsame, hbytes]; exact hreads.file, by rw [hbytes]; exact hreads.long⟩
  · have hb : activityBytes members stem = bytes := by rw [activityBytes, hbefore]
    have ha : activityBytes members' stem = bytes ++ more := by rw [activityBytes, hafter]
    refine iff_of_true ⟨.inr (by rw [ha, hafter]), ?_⟩ ⟨.inr (by rw [hb, hbefore]), by rwa [hb]⟩
    rw [ha, List.length_append]
    omega

/-- The files pass with or without tails. -/
theorem filesRead_grown (h : Extended m stem members members') :
    FilesRead decoder listing members' m stem ↔ FilesRead decoder listing members m stem := by
  have hsessions : (∀ session ∈ m.sessions.vals, SessionReads decoder members' session) ↔
      ∀ session ∈ m.sessions.vals, SessionReads decoder members session :=
    forall₂_congr fun session hmem => sessionReads_grown (h.session session hmem)
  constructor
  · intro hread
    exact ⟨h.scan_iff.mp hread.scan, hsessions.mp hread.sessions,
      (activityReads_grown h).mp hread.activity⟩
  · intro hread
    exact ⟨h.scan_iff.mpr hread.scan, hsessions.mpr hread.sessions,
      (activityReads_grown h).mpr hread.activity⟩

/-- The frame ids among the recorded bytes of all files. -/
def committedIds (decoder : Decoder) (m : SegmentMetadata) (members : SegmentDir) : List ℕ :=
  m.sessions.vals.flatMap (idsRead decoder members)

theorem committedIds_grown (h : Extended m stem members members') :
    committedIds decoder m members' = committedIds decoder m members :=
  List.flatMap_congr fun session hmem => idsRead_grown (recordedPart_grown (h.session session hmem))

/-- Every file ends where its recorded bytes end, which are whole lines. -/
structure WholeFiles (m : SegmentMetadata) (stem : Str) (members : SegmentDir) : Prop where
  session : ∀ session ∈ m.sessions.vals, ¬ IsTorn members session ∧
    (sessionBytes members session).length ≤ session.durableOffset
  activity : (activityLines m stem members).length = m.activityDurableOffset ∧
    (activityBytes members stem).length ≤ m.activityDurableOffset

theorem repairs_eq_nil_iff : (gathered decoder m stem members).repairs = [] ↔
    WholeFiles m stem members := by
  have hsession (session : SessionMetadata) : sessionRepairs members session = [] ↔
      ¬ IsTorn members session ∧
        (sessionBytes members session).length ≤ session.durableOffset := by
    rw [sessionRepairs, List.append_eq_nil_iff]
    split <;> split <;> simp_all
  have hactivity : activityRepairs m stem members = [] ↔
      (activityLines m stem members).length = m.activityDurableOffset ∧
        (activityBytes members stem).length ≤ m.activityDurableOffset := by
    rw [activityRepairs]
    split <;> simp_all
    omega
  rw [gathered, List.append_eq_nil_iff, List.flatMap_eq_nil_iff, hactivity]
  simp only [hsession]
  exact ⟨fun h => ⟨h.1, h.2⟩, fun h => ⟨h.session, h.activity⟩⟩

/-- A file that does not end behind its recorded bytes has not grown. -/
theorem Grown.eq_of_length {recorded : ℕ} {tail : Bytes → Prop} {before : Option (Node Bytes ℕ)}
    {after : Option (Node Bytes ℕ)} (h : Grown recorded tail before after)
    (hend : ∀ bytes, after = some (.file bytes) → bytes.length ≤ recorded) : after = before := by
  obtain hsame | ⟨bytes, more, rfl, hlong, -, rfl⟩ := h
  · exact hsame
  · have hlen := hend _ rfl
    rw [List.length_append] at hlen
    have hnil : more = [] := List.eq_nil_of_length_eq_zero (by omega)
    rw [hnil, List.append_nil]

/-- No file needs a repair after some have grown only when none has. -/
theorem wholeFiles_grown (h : Extended m stem members members') :
    WholeFiles m stem members' ↔ WholeFiles m stem members ∧ members' = members := by
  constructor
  · intro hs
    have hsame : members' = members := by
      refine Table.ext fun name => ?_
      by_cases hsession : ∃ session ∈ m.sessions.vals, name = .str session.filename
      · obtain ⟨session, hmem, rfl⟩ := hsession
        refine (h.session session hmem).eq_of_length fun bytes hfile => ?_
        rw [← sessionBytes_of_file hfile]
        exact (hs.session session hmem).2
      · by_cases hactivity : name = .str (activityFilename stem)
        · rw [hactivity]
          refine h.activity.eq_of_length fun bytes hfile => ?_
          have hlen := hs.activity.2
          rwa [activityBytes, hfile] at hlen
        · exact h.other name (fun session hmem heq => hsession ⟨session, hmem, heq⟩) hactivity
    exact ⟨hsame ▸ hs, hsame⟩
  · rintro ⟨hs, rfl⟩
    exact hs

/-! ## Contradictions -/

/-- The test of the ids objects to ids that are not one to their number, and to their number when no
file needs a repair. -/
theorem validateIds_contradictory_iff {g : Gathered} :
    (validateIds m g).kind = .contradictory ↔
      ¬ (g.allIds.Perm (List.range' 1 g.allIds.length) ∧ (g.repairs = [] →
        m.durableFrameCount = g.allIds.length ∧ m.lastDurableFrameId = g.allIds.length)) := by
  have hlen : (g.allIds.insertionSort (· ≤ ·)).length = g.allIds.length :=
    List.length_insertionSort _ _
  unfold validateIds
  dsimp only
  split
  · rename_i hseq
    refine iff_of_true rfl fun h => ?_
    rw [insertionSort_of_perm_range' h.1, zipIdx_range'] at hseq
    exact absurd hseq Bool.false_ne_true
  · rename_i hseq
    rw [Bool.not_eq_true] at hseq
    have hrange := eq_range'_of_zipIdx hseq
    rw [hlen] at hrange
    have hperm : g.allIds.Perm (List.range' 1 g.allIds.length) :=
      hrange ▸ (List.perm_insertionSort _ _).symm
    rw [hrange, List.length_range', getLast?_range']
    by_cases hrepairs : g.repairs = []
    · split
      · rename_i hcount
        refine iff_of_true rfl fun h => ?_
        obtain ⟨hfirst, hlast⟩ := h.2 hrepairs
        simp [hfirst, hlast] at hcount
      · rename_i hcount
        refine iff_of_false (by split <;> nofun) (not_not_intro ⟨hperm, fun _ => ?_⟩)
        simpa [hrepairs] using hcount
    · rw [if_neg (by simp [hrepairs])]
      exact iff_of_false (by split <;> nofun) (not_not_intro ⟨hperm, fun h => absurd h hrepairs⟩)

theorem validateFiles_contradictory_iff (hdir : segmentStem m.incompleteDir = stem) :
    (validateFiles decoder listing members m).kind = .contradictory ↔
      ¬ (FilesRead decoder listing members m stem ∧
        (committedIds decoder m members).Perm
          (List.range' 1 (committedIds decoder m members).length) ∧
        (WholeFiles m stem members → m.durableFrameCount = (committedIds decoder m members).length ∧
          m.lastDurableFrameId = (committedIds decoder m members).length)) := by
  by_cases hread : FilesRead decoder listing members m stem
  · rw [validateFiles_of_read hdir hread, validateIds_contradictory_iff, repairs_eq_nil_iff]
    simp only [hread, true_and]
    rfl
  · refine iff_of_true ?_ fun h => hread h.1
    by_contra hkind
    exact hread (filesRead_of_validateFiles hdir hkind)

/-- The files pass and none needs a repair, the committed frames are numbered from one on, and their
number is not the recorded one. -/
structure Miscounted (decoder : Decoder) (listing : Listing) (m : SegmentMetadata) (stem : Str)
    (members : SegmentDir) : Prop where
  read : FilesRead decoder listing members m stem
  whole : WholeFiles m stem members
  numbered : (committedIds decoder m members).Perm
    (List.range' 1 (committedIds decoder m members).length)
  count : m.durableFrameCount ≠ (committedIds decoder m members).length

/-- **What tails hide.** Uncommitted tails make no difference to whether validation finds a
contradiction, except that any of them hides a wrong number of frames. -/
theorem tails_neutral_iff (consistent : metadataIsConsistent m stem = true)
    (extended : Extended m stem members members') :
    ((validateFiles decoder listing members m).kind = .contradictory ↔
        (validateFiles decoder listing members' m).kind = .contradictory) ↔
      (Miscounted decoder listing m stem members → members' = members) := by
  have hc := consistent_of_metadataIsConsistent consistent
  have hcount : m.lastDurableFrameId = m.durableFrameCount := hc.count.symm
  rw [validateFiles_contradictory_iff hc.segmentStem, validateFiles_contradictory_iff hc.segmentStem,
    filesRead_grown extended, committedIds_grown extended, wholeFiles_grown extended, not_iff_not,
    hcount]
  constructor
  · intro hiff hmis
    by_contra hne
    obtain ⟨-, -, hsame⟩ := hiff.mpr ⟨hmis.read, hmis.numbered, fun h => absurd h.2 hne⟩
    exact hmis.count (hsame hmis.whole).1
  · intro hmis
    refine and_congr_right fun hread => and_congr_right fun hnumbered => ?_
    constructor
    · exact fun hsame hs => hsame hs.1
    · intro hsame hs
      by_cases hcounted : m.durableFrameCount = (committedIds decoder m members).length
      · exact ⟨hcounted, hcounted⟩
      · exact hsame ⟨hs, hmis ⟨hread, hs, hnumbered, hcounted⟩⟩

end Extended

/-! ## A frame that is missing -/

/-- The first frame of a session. -/
def firstFrame : Bytes :=
  serializeFrame
    { session := "main".toList
      window := { id := "@1".toList, index := 0, name := [], active := true }
      windows := []
      panes := []
      outputOnly := false } 1 ⟨"0.0".toList, F64Text.valid_zero⟩

/-- Metadata that records two frames, one of which is in no file. -/
def twoFrameMetadata : SegmentMetadata where
  schemaVersion := 1
  lifecycle := .opened
  incompleteDir := "120000.incomplete".toList
  finalizedDir := "120000_001".toList
  startWallUnixNanos := 0
  localOffsetSeconds := 0
  tz := none
  elapsedNanos := nanosPerSecond
  lastDurableFrameId := 2
  durableFrameCount := 2
  hasDurableFrames := true
  activityDurableOffset := 0
  sessions := (∅ : Table Str SessionMetadata).insert "main".toList
    { session := "main".toList
      filename := "tmux_main_screen.jsonl".toList
      lastFrameId := 1
      durableOffset := firstFrame.length }

/-- A directory with the one frame. -/
def oneFrameMembers : SegmentDir :=
  (∅ : SegmentDir).insert (.str "tmux_main_screen.jsonl".toList) (.file firstFrame)

/-- The same directory with the beginning of a line behind the frame. -/
def tailedMembers : SegmentDir :=
  (∅ : SegmentDir).insert (.str "tmux_main_screen.jsonl".toList) (.file (firstFrame ++ [123]))

theorem twoFrameMetadata_consistent :
    metadataIsConsistent twoFrameMetadata "120000".toList = true := by decide +kernel

theorem extended_tailedMembers :
    Extended twoFrameMetadata "120000".toList oneFrameMembers tailedMembers where
  session := by
    intro session h
    obtain ⟨identity, hidentity⟩ := Table.mem_vals.mp h
    rw [twoFrameMetadata, Table.get_insert] at hidentity
    split at hidentity
    · cases hidentity
      exact .inr ⟨firstFrame, [123], Table.get_insert_self _ _ _, Nat.le_refl _, by decide,
        Table.get_insert_self _ _ _⟩
    · rw [Table.get_empty] at hidentity
      cases hidentity
  activity := by
    have hne : OsName.str "tmux_main_screen.jsonl".toList ≠
        .str (activityFilename "120000".toList) := by decide
    rw [oneFrameMembers, tailedMembers, Table.get_insert_ne hne, Table.get_insert_ne hne]
    exact .inl rfl
  other := by
    intro name hsession _
    have hmem : _ ∈ twoFrameMetadata.sessions.vals :=
      Table.mem_vals.mpr ⟨"main".toList, Table.get_insert_self _ _ _⟩
    have hne := (hsession _ hmem).symm
    rw [oneFrameMembers, tailedMembers, Table.get_insert_ne hne, Table.get_insert_ne hne]

theorem tails_neutral_iff_twoFrames :
    ((validateFiles .ofEnvelopes .byName oneFrameMembers twoFrameMetadata).kind = .contradictory ↔
        (validateFiles .ofEnvelopes .byName tailedMembers twoFrameMetadata).kind =
          .contradictory) ↔
      (Miscounted .ofEnvelopes .byName twoFrameMetadata "120000".toList oneFrameMembers →
        tailedMembers = oneFrameMembers) :=
  tails_neutral_iff twoFrameMetadata_consistent extended_tailedMembers

/-- A tail turns the contradiction of a missing frame into a repair. -/
theorem tail_hides_frame :
    metadataIsConsistent twoFrameMetadata "120000".toList = true ∧
      Extended twoFrameMetadata "120000".toList oneFrameMembers tailedMembers ∧
      (validateFiles .ofEnvelopes .byName oneFrameMembers twoFrameMetadata).kind =
        .contradictory ∧
      (validateFiles .ofEnvelopes .byName tailedMembers twoFrameMetadata).kind ≠
        .contradictory := by
  refine ⟨twoFrameMetadata_consistent, extended_tailedMembers, ?_, ?_⟩
  · decide +kernel
  · decide +kernel

end SolstoneTmux
