import SolstoneTmux.Log
import SolstoneTmux.Recovery.Reading

/-!
# Validation of a recorded log

What `metadataIsConsistent` and `validateFiles` answer on metadata and files that record a log. The
validator is taken apart in the order of its own steps:

* `validateSessions_of_holds`: files that hold their recorded lines, perhaps with a torn tail, pass
  the session loop, which gathers a repair for each torn tail.
* `validateFiles_of_holds` joins the session loop, the activity file and the test of the ids.
* `metadataIsConsistent_of_log` and `validateFiles_of_log` are the results for a recorded log.
-/

namespace SolstoneTmux

open Foundations

/-! ## Stems and names -/

theorem validTimeName_length {stem : Str} (h : validTimeName stem = true) : stem.length = 6 := by
  simp only [validTimeName, Bool.and_eq_true, decide_eq_true_eq] at h
  exact h.1.1.1.1

theorem validTimeName_isDigit {stem : Str} (h : validTimeName stem = true) :
    ∀ c ∈ stem, isDigit c = true := by
  simp only [validTimeName, Bool.and_eq_true, decide_eq_true_eq, List.all_eq_true] at h
  exact h.1.1.1.2

theorem isLead_of_isDigit {c : Char} (h : isDigit c = true) : isLead c = true := by
  rw [isDigit, Bool.and_eq_true, decide_eq_true_eq, decide_eq_true_eq] at h
  rw [isLead, Bool.or_eq_true, Bool.and_eq_true, Bool.and_eq_true]
  simp only [decide_eq_true_eq]
  omega

theorem canonical_of_isDigit {stem : Str} (h : ∀ c ∈ stem, isDigit c = true) :
    canonical stem = true := by
  cases stem with
  | nil => rfl
  | cons c s =>
    rw [canonical_cons, Bool.and_eq_true, List.all_eq_true]
    exact ⟨isLead_of_isDigit (h c List.mem_cons_self),
      fun d hd => isRest_of_isLead (isLead_of_isDigit (h d (List.mem_cons_of_mem _ hd)))⟩

section Stem

variable {stem : Str} (hstem : validTimeName stem = true)

include hstem

theorem stem_ne_nil : stem ≠ [] := by
  rintro rfl
  exact absurd (validTimeName_length hstem) (by decide)

theorem canonical_stem_append {suffix : Str} (h : suffix.all isRest = true) :
    canonical (stem ++ suffix) = true := by
  rw [canonical_append (stem_ne_nil hstem), canonical_of_isDigit (validTimeName_isDigit hstem), h]
  rfl

theorem exactComponent_stem_append {suffix : Str} (h : suffix.all isRest = true)
    (hlen : suffix.length ≤ 194) : (exactComponent (stem ++ suffix)).isSome = true := by
  rw [exactComponent_isSome_iff]
  refine ⟨?_, canonical_stem_append hstem h, ?_⟩
  · simp [stem_ne_nil hstem]
  · rw [List.length_append, validTimeName_length hstem, maxComponentBytes]
    omega

theorem exactComponent_stem : (exactComponent stem).isSome = true := by
  have hnil : (exactComponent (stem ++ [])).isSome = true :=
    exactComponent_stem_append hstem rfl (by decide)
  rwa [List.append_nil] at hnil

theorem exactComponent_activityFilename :
    (exactComponent (activityFilename stem)).isSome = true :=
  exactComponent_stem_append hstem (by decide) (by decide)

theorem validActivityFilename_self : validActivityFilename (activityFilename stem) stem = true := by
  rw [validActivityFilename, if_pos rfl, exactComponent_activityFilename hstem]

theorem isDirectName_stem_append {suffix : Str} (h : '/' ∉ suffix) :
    isDirectName (stem ++ suffix) = true := by
  have hlen : 6 ≤ (stem ++ suffix).length := by
    rw [List.length_append, validTimeName_length hstem]
    omega
  have hslash : '/' ∉ stem ++ suffix := by
    rw [List.mem_append, not_or]
    refine ⟨fun hm => ?_, h⟩
    exact absurd (validTimeName_isDigit hstem _ hm) (by decide)
  have hne : stem ++ suffix ≠ [] := by
    intro hnil
    rw [hnil] at hlen
    exact absurd hlen (by decide)
  have hdot : stem ++ suffix ≠ ".".toList := by
    intro hd
    rw [hd] at hlen
    exact absurd hlen (by decide)
  have hdots : stem ++ suffix ≠ "..".toList := by
    intro hd
    rw [hd] at hlen
    exact absurd hlen (by decide)
  simp only [isDirectName, Bool.and_eq_true, Bool.not_eq_true', List.isEmpty_eq_false_iff,
    decide_eq_true_eq, List.contains_eq_mem, decide_eq_false_iff_not]
  exact ⟨⟨⟨hne, hdot⟩, hdots⟩, hslash⟩

end Stem

theorem slash_not_mem_padLeft_decimal (w n : ℕ) : '/' ∉ padLeft w (decimal n) := by
  intro h
  exact absurd (isDigit_of_mem_padLeft (fun _ => isDigit_of_mem_decimal) h) (by decide)

@[simp] theorem segmentStem_incompleteName (stem : Str) :
    segmentStem (incompleteName stem) = stem := by
  rw [segmentStem, incompleteName, stripSuffix_append]
  rfl

/-! ## Consistent metadata -/

section Consistent

variable {m : SegmentMetadata} {stem : Str}

/-- What recovery knows of metadata it accepts. -/
structure Consistent (m : SegmentMetadata) (stem : Str) : Prop where
  time : validTimeName stem = true
  incompleteDir : m.incompleteDir = incompleteName stem
  finalizedDir : m.finalizedDir = finalizedName stem m.elapsedNanos
  hasFrames : m.hasDurableFrames = decide (0 < m.durableFrameCount)
  count : m.durableFrameCount = m.lastDurableFrameId
  creating : m.lifecycle = .creating →
    m.durableFrameCount = 0 ∧ m.activityDurableOffset = 0 ∧ m.sessions.isEmpty = true
  sessions : ∀ (identity : Str) (session : SessionMetadata), m.sessions[identity]? = some session →
    sessionIsConsistent m identity session = true
  nodup : (m.sessions.vals.map SessionMetadata.filename).Nodup

theorem consistent_of_metadataIsConsistent (h : metadataIsConsistent m stem = true) :
    Consistent m stem := by
  simp only [metadataIsConsistent, Bool.and_eq_true, decide_eq_true_eq, List.all_eq_true] at h
  obtain ⟨⟨⟨⟨⟨⟨⟨⟨⟨⟨⟨⟨-, hstem⟩, hdir⟩, -⟩, -⟩, hfin⟩, -⟩, -⟩, hhas⟩, hcount⟩, hcreating⟩, hsessions⟩,
    hnodup⟩ := h
  refine ⟨hstem, hdir, hfin, hhas, hcount, fun hc => ?_, fun identity session hs => ?_, hnodup⟩
  · simpa [hc, and_assoc] using hcreating
  · exact hsessions (identity, session) (Table.mem_toList.mpr hs)

theorem Consistent.segmentStem (h : Consistent m stem) : segmentStem m.incompleteDir = stem := by
  rw [h.incompleteDir, segmentStem_incompleteName]

/-- A session is recorded under its own name, with the file derived from it. -/
theorem Consistent.session (h : Consistent m stem) {identity : Str}
    {session : SessionMetadata} (hs : m.sessions[identity]? = some session) :
    identity = session.session ∧ sessionFile identity = some session.filename := by
  have hs' := h.sessions identity session hs
  simp only [sessionIsConsistent, Bool.and_eq_true, decide_eq_true_eq] at hs'
  obtain ⟨⟨⟨hidentity, hfile⟩, -⟩, -⟩ := hs'
  refine ⟨hidentity, ?_⟩
  split at hfile
  · rename_i n hn
    have hname : n.sessionFilename = session.filename := by simpa using hfile
    rw [sessionFile, hn, ← hname]
  · cases hfile

theorem Consistent.get (h : Consistent m stem) {session : SessionMetadata}
    (hs : session ∈ m.sessions.vals) : m.sessions[session.session]? = some session := by
  obtain ⟨identity, hget⟩ := Table.mem_vals.mp hs
  rwa [← (h.session hget).1]

/-- The activity file is no session's file. -/
theorem Consistent.activityFilename_ne (h : Consistent m stem) {session : SessionMetadata}
    (hs : session ∈ m.sessions.vals) : activityFilename stem ≠ session.filename := by
  obtain ⟨n, -, hn⟩ := sessionFile_eq_some (h.session (h.get hs)).2
  rw [← hn]
  exact activityFilename_ne_sessionFilename _ n

theorem Consistent.nodup_sessions (h : Consistent m stem) :
    (m.sessions.vals.map SessionMetadata.session).Nodup := by
  have heq : m.sessions.vals.map SessionMetadata.session = m.sessions.toList.map Prod.fst := by
    rw [Table.vals, List.map_map]
    refine List.map_congr_left fun p hp => ?_
    exact (h.session (Table.mem_toList.mp hp)).1.symm
  rw [heq]
  exact Table.nodup_keys _

end Consistent

/-! ## The session loop -/

/-- A session's file holds its recorded lines, with the given ids, and then a torn tail. -/
structure SessionHolds (decoder : Decoder) (members : SegmentDir) (session : SessionMetadata)
    (lines : List Bytes) (ids : List ℕ) (tail : Bytes) : Prop where
  file : members[OsName.str session.filename]? = some (.file (lines.flatten ++ tail))
  offset : session.durableOffset = lines.flatten.length
  reads : LinesRead decoder lines ids
  increasing : ids.Pairwise (· < ·)
  lastId : ids.getLast?.getD 0 = session.lastFrameId
  tail : newline ∉ tail

/-- The repair that a torn tail asks for. -/
def tailRepair (session : SessionMetadata) (tail : Bytes) : List FileRepair :=
  if tail = [] then [] else [⟨session.filename, session.durableOffset⟩]

section Holds

variable {decoder : Decoder} {members : SegmentDir} {session : SessionMetadata}
  {lines : List Bytes} {ids : List ℕ} {tail : Bytes}

theorem SessionHolds.recordedPart (h : SessionHolds decoder members session lines ids tail) :
    recordedPart members session = lines.flatten := by
  rw [SolstoneTmux.recordedPart, sessionBytes_of_file h.file, h.offset, List.take_left]

theorem SessionHolds.recordedLines (h : SessionHolds decoder members session lines ids tail) :
    recordedLines members session = lines.flatten := by
  rw [SolstoneTmux.recordedLines, h.recordedPart]
  exact complete_flatten h.reads.isLine

theorem SessionHolds.not_isTorn (h : SessionHolds decoder members session lines ids tail) :
    ¬ IsTorn members session := by
  rw [IsTorn, h.recordedLines, h.offset]
  exact Nat.lt_irrefl _

theorem SessionHolds.idsRead (h : SessionHolds decoder members session lines ids tail) :
    idsRead decoder members session = ids := by
  rw [SolstoneTmux.idsRead, h.recordedPart, parseRecordedPrefix_flatten h.reads h.increasing]

theorem SessionHolds.sessionReads (h : SessionHolds decoder members session lines ids tail) :
    SessionReads decoder members session where
  file := by rw [sessionBytes_of_file h.file, h.file]
  long := by
    rw [sessionBytes_of_file h.file, h.offset, List.length_append]
    omega
  lines := ⟨lines, h.idsRead.symm ▸ h.reads, h.idsRead.symm ▸ h.increasing, h.recordedLines.symm⟩
  last _ := by rw [h.idsRead, h.lastId]
  tail := by
    rw [sessionBytes_of_file h.file, h.offset, List.drop_left]
    exact h.tail

theorem SessionHolds.sessionRepairs (h : SessionHolds decoder members session lines ids tail) :
    sessionRepairs members session = tailRepair session tail := by
  have hmore : session.durableOffset < (sessionBytes members session).length ↔ tail ≠ [] := by
    rw [sessionBytes_of_file h.file, h.offset, List.length_append, ← List.length_pos_iff]
    omega
  rw [SolstoneTmux.sessionRepairs, if_neg h.not_isTorn, tailRepair]
  by_cases htail : tail = []
  · simp [hmore, htail]
  · simp [hmore, htail]

end Holds

theorem validateSessions_of_holds {decoder : Decoder} {members : SegmentDir}
    {sessions : List SessionMetadata} {lines : SessionMetadata → List Bytes}
    {ids : SessionMetadata → List ℕ} {tail : SessionMetadata → Bytes}
    (h : ∀ session ∈ sessions,
      SessionHolds decoder members session (lines session) (ids session) (tail session))
    (g : Gathered) :
    validateSessions decoder members sessions g = .ok
      { updated := g.updated
        repairs := g.repairs ++ sessions.flatMap fun session => tailRepair session (tail session)
        allIds := g.allIds ++ sessions.flatMap ids } := by
  have hupdated : ∀ m, sessions.foldl (updateTorn decoder members) m = m := by
    intro m
    induction sessions with
    | nil => rfl
    | cons session sessions ih =>
      rw [List.foldl_cons, updateTorn, if_neg (h session List.mem_cons_self).not_isTorn]
      exact ih fun s hs => h s (List.mem_cons_of_mem _ hs)
  have hrepairs : sessions.flatMap (sessionRepairs members) =
      sessions.flatMap fun session => tailRepair session (tail session) := by
    rw [List.flatMap_congr fun session hs => (h session hs).sessionRepairs]
  have hids : sessions.flatMap (idsRead decoder members) = sessions.flatMap ids := by
    rw [List.flatMap_congr fun session hs => (h session hs).idsRead]
  rw [validateSessions_iff]
  exact ⟨fun session hs => (h session hs).sessionReads, by rw [hupdated, hrepairs, hids]⟩

/-! ## The scan -/

/-- A member that may be in a segment directory. -/
def MemberAllowed (m : SegmentMetadata) (stem : Str) (name : OsName) (node : Node Bytes ℕ) : Prop :=
  ∃ text, name = .str text ∧ node.isFile = true ∧
    (text ∈ expectedNames m ∨ validActivityFilename text stem = true)

theorem scanMembers_eq_none {m : SegmentMetadata} {stem : Str} {members : SegmentDir}
    {names : List OsName}
    (h : ∀ name ∈ names, ∃ node, members[name]? = some node ∧ MemberAllowed m stem name node) :
    scanMembers m stem members names = none := by
  induction names with
  | nil => rfl
  | cons name names ih =>
    obtain ⟨node, hnode, text, rfl, hfile, hname⟩ := h name List.mem_cons_self
    have hallowed : (!(expectedNames m).contains text && !validActivityFilename text stem) =
        false := by
      rcases hname with hname | hname
      · simp [hname]
      · simp [hname]
    rw [scanMembers]
    simp only [OsName.toStr_str, hnode, Option.any_some, hfile, hallowed, Bool.not_true,
      Bool.or_self, Bool.false_eq_true, if_false]
    exact ih fun n hn => h n (List.mem_cons_of_mem _ hn)

/-- Where the scan finds nothing to object to, every member is allowed. -/
theorem memberAllowed_of_scan {m : SegmentMetadata} {stem : Str} {members : SegmentDir}
    {names : List OsName} (h : scanMembers m stem members names = none) :
    ∀ name ∈ names, ∃ node, members[name]? = some node ∧ MemberAllowed m stem name node := by
  induction names with
  | nil => simp
  | cons name names ih =>
    rw [scanMembers] at h
    split at h
    · cases h
    · rename_i text htext
      split at h
      · cases h
      · rename_i hok
        intro other hother
        rcases List.mem_cons.mp hother with rfl | hother
        · simp only [Bool.or_eq_true, Bool.not_eq_true', Bool.and_eq_true, not_or, not_and,
            Bool.not_eq_false, Option.any_eq_true] at hok
          obtain ⟨⟨node, hnode, hfile⟩, hname⟩ := hok
          refine ⟨node, hnode, text, OsName.toStr_eq_some.mp htext, hfile, ?_⟩
          by_cases hin : text ∈ expectedNames m
          · exact .inl hin
          · exact .inr (hname (by simpa using hin))
        · exact ih h other hother

/-! ## The ids -/

theorem insertionSort_of_perm_range' {ids : List ℕ} {n : ℕ} (h : ids.Perm (List.range' 1 n)) :
    ids.insertionSort (· ≤ ·) = List.range' 1 n := by
  have hrange : (List.range' 1 n).Pairwise (· ≤ ·) :=
    List.Pairwise.imp Nat.le_of_lt List.pairwise_lt_range'
  exact List.Perm.eq_of_pairwise (fun a b _ _ => Nat.le_antisymm)
    (List.pairwise_insertionSort (· ≤ ·) ids) hrange ((List.perm_insertionSort _ ids).trans h)

theorem getLast?_range' (n : ℕ) : (List.range' 1 n).getLast?.getD 0 = n := by
  cases n with
  | zero => rfl
  | succ n => simp [List.range'_concat]; omega

/-- The numbers from one on are their positions. -/
theorem zipIdx_range' (n : ℕ) :
    ((List.range' 1 n).zipIdx.any fun (frameId, index) => frameId ≠ index + 1) = false := by
  rw [List.any_eq_false]
  rintro ⟨i, k⟩ hp
  rw [List.mk_mem_zipIdx_iff_getElem?] at hp
  obtain ⟨hk, hi⟩ := List.getElem?_eq_some_iff.mp hp
  rw [List.getElem_range'] at hi
  simp only [ne_eq, decide_not, Bool.not_eq_true', decide_eq_false_iff_not, not_not]
  omega

theorem validateIds_of_perm {m : SegmentMetadata} {g : Gathered} {n : ℕ}
    (h : g.allIds.Perm (List.range' 1 n)) (hcount : m.durableFrameCount = n)
    (hlast : m.lastDurableFrameId = n) :
    validateIds m g =
      if g.repairs.isEmpty then
        { kind := .exact, detail := "", repairs := [], updatedMetadata := some g.updated }
      else
        { kind := .repair
          detail := ""
          repairs := g.repairs
          updatedMetadata := some
            { g.updated with
              durableFrameCount := n
              lastDurableFrameId := n
              hasDurableFrames := decide (0 < n) } } := by
  have hseq := zipIdx_range' n
  rw [validateIds, insertionSort_of_perm_range' h]
  simp only [hseq, List.length_range', getLast?_range', hcount, hlast, ne_eq, not_true_eq_false,
    decide_false, Bool.or_self, Bool.and_false, Bool.false_eq_true, if_false]

/-! ## A directory that holds what is recorded -/

/-- The activity file holds the recorded bytes, which are whole lines, and then a tail; without
recorded bytes it may be missing. -/
def ActivityHolds (m : SegmentMetadata) (stem : Str) (members : SegmentDir) (tail : Bytes) : Prop :=
  (members[OsName.str (activityFilename stem)]? = none ∧ m.activityDurableOffset = 0 ∧ tail = []) ∨
    ∃ b, members[OsName.str (activityFilename stem)]? = some (.file (b ++ tail)) ∧
      Complete newline b ∧ b.length = m.activityDurableOffset

theorem validateActivity_of_holds {m : SegmentMetadata} {stem : Str} {members : SegmentDir}
    {tail : Bytes} (h : ActivityHolds m stem members tail) (g : Gathered)
    (hg : g.updated.activityDurableOffset = m.activityDurableOffset) :
    validateActivity m stem members g = .ok
      { g with
        repairs := g.repairs ++
          if tail = [] then [] else [⟨activityFilename stem, m.activityDurableOffset⟩] } := by
  rw [validateActivity]
  rcases h with ⟨hnone, hoff, rfl⟩ | ⟨b, hfile, hb, hlen⟩
  · simp [hnone, hoff]
  · have htake : (b ++ tail).take m.activityDurableOffset = b := by rw [← hlen, List.take_left]
    have hrep : repairedActivityOffset b = m.activityDurableOffset := by
      rw [repairedActivityOffset, hb, hlen]
    have hnot : ¬ (b ++ tail).length < m.activityDurableOffset := by
      rw [List.length_append]
      omega
    simp only [hfile, htake, hrep, if_neg hnot]
    by_cases htail : tail = []
    · have hsame : ¬ m.activityDurableOffset < (b ++ tail).length := by
        rw [htail, List.append_nil]
        omega
      simp [htail, hlen]
    · have hpos : 0 < tail.length := List.length_pos_iff.mpr htail
      have hmore : m.activityDurableOffset < (b ++ tail).length := by
        rw [List.length_append]
        omega
      simp only [ne_eq, not_true_eq_false, decide_false, hmore, decide_true, Bool.or_true, if_true,
        htail, if_false]
      rw [← hg]

/-- What validation answers when every file holds what is recorded for it, with torn tails. -/
theorem validateFiles_of_holds {decoder : Decoder} {listing : Listing} {members : SegmentDir}
    {m : SegmentMetadata} {stem : Str} {lines : SessionMetadata → List Bytes}
    {ids : SessionMetadata → List ℕ} {tail : SessionMetadata → Bytes} {activityTail : Bytes}
    (hdir : m.incompleteDir = incompleteName stem)
    (hallowed : ∀ (name : OsName) (node : Node Bytes ℕ), members[name]? = some node →
      MemberAllowed m stem name node)
    (hsessions : ∀ session ∈ m.sessions.vals,
      SessionHolds decoder members session (lines session) (ids session) (tail session))
    (hactivity : ActivityHolds m stem members activityTail)
    (hids : (m.sessions.vals.flatMap ids).Perm (List.range' 1 m.durableFrameCount))
    (hlast : m.lastDurableFrameId = m.durableFrameCount)
    (hhas : m.hasDurableFrames = decide (0 < m.durableFrameCount)) :
    validateFiles decoder listing members m =
      let repairs := m.sessions.vals.flatMap (fun session => tailRepair session (tail session)) ++
        if activityTail = [] then [] else [⟨activityFilename stem, m.activityDurableOffset⟩]
      { kind := if repairs.isEmpty then .exact else .repair
        detail := ""
        repairs := repairs
        updatedMetadata := some m } := by
  have hscan : scanMembers m stem members (listing.order members) = none := by
    refine scanMembers_eq_none fun name hname => ?_
    obtain ⟨node, hnode⟩ := Option.isSome_iff_exists.mp ((listing.mem members name).mp hname)
    exact ⟨node, hnode, hallowed name node hnode⟩
  rw [validateFiles, hdir, segmentStem_incompleteName]
  simp only [hscan, validateSessions_of_holds hsessions]
  rw [validateActivity_of_holds hactivity _ rfl]
  simp only [List.nil_append]
  rw [validateIds_of_perm hids rfl hlast]
  generalize (m.sessions.vals.flatMap fun session => tailRepair session (tail session)) ++
    (if activityTail = [] then [] else [⟨activityFilename stem, m.activityDurableOffset⟩]) = repairs
  by_cases hempty : repairs = []
  · simp [hempty]
  · have hupdated : { m with
        durableFrameCount := m.durableFrameCount
        lastDurableFrameId := m.durableFrameCount
        hasDurableFrames := decide (0 < m.durableFrameCount) } = m := by
      cases m
      simp only at hhas hlast
      rw [hhas, hlast]
    simp [hempty, hupdated]

/-! ## A recorded log -/

section Log

open SegmentLog

variable {decoder : Decoder} {log : SegmentLog} {stem : Str} {m : SegmentMetadata}
  {members : SegmentDir}

theorem linesRead_of_log (h : log.WellFormed decoder) (session : Str) :
    LinesRead decoder (log.linesOf session) (log.idsOf session) := by
  rw [LinesRead, linesOf, idsOf, List.forall₂_map_left_iff, List.forall₂_map_right_iff,
    List.forall₂_same]
  intro p hp
  have hok := h.frames p (List.mem_filter.mp hp).1
  exact ⟨hok.isLine, hok.reads⟩

theorem mem_vals_of_log (hm : MetadataOf log stem m) {session : SessionMetadata}
    (h : session ∈ m.sessions.vals) : log.sessionMetadata session.session = some session := by
  obtain ⟨identity, hid⟩ := Table.mem_vals.mp h
  rw [hm.sessions] at hid
  obtain ⟨f, -, -, hsession, -⟩ := sessionMetadata_eq_some hid
  rw [hsession, hid]

/-- A session whose file has a torn tail after the recorded lines. -/
theorem sessionHolds_of_log (hlog : log.WellFormed decoder) (hm : MetadataOf log stem m)
    {session : SessionMetadata} (h : session ∈ m.sessions.vals) {tail : Bytes}
    (hfile : members[OsName.str session.filename]? =
      some (.file (log.bytesOf session.session ++ tail))) (htail : newline ∉ tail) :
    SessionHolds decoder members session (log.linesOf session.session)
      (log.idsOf session.session) tail := by
  obtain ⟨f, -, -, -, -, hlast, hoff⟩ := sessionMetadata_eq_some (mem_vals_of_log hm h)
  exact
    { file := hfile
      offset := hoff
      reads := linesRead_of_log hlog _
      increasing := log.pairwise_idsOf _
      lastId := by rw [hlast, Option.getD_some]
      tail := htail }

theorem file_of_log (hmem : MembersOf log stem members) (hm : MetadataOf log stem m)
    {session : SessionMetadata} (h : session ∈ m.sessions.vals) :
    members[OsName.str session.filename]? = some (.file (log.bytesOf session.session)) := by
  obtain ⟨f, hf, hsession, -, hfile, -, -⟩ := sessionMetadata_eq_some (mem_vals_of_log hm h)
  rw [hfile, hmem.session _ hf, hsession]

/-- The sessions of the metadata, by name. -/
theorem map_session_vals (hm : MetadataOf log stem m) :
    m.sessions.vals.map SessionMetadata.session = m.sessions.toList.map Prod.fst := by
  rw [Table.vals, List.map_map]
  refine List.map_congr_left fun p hp => ?_
  obtain ⟨identity, session⟩ := p
  rw [Table.mem_toList, hm.sessions] at hp
  obtain ⟨f, -, -, hsession, -⟩ := sessionMetadata_eq_some hp
  exact hsession

theorem nodup_sessions (hm : MetadataOf log stem m) :
    (m.sessions.vals.map SessionMetadata.session).Nodup := by
  rw [map_session_vals hm]
  exact Table.nodup_keys _

/-- The file of a session is the one of its frames. -/
theorem filename_of_log (hlog : log.WellFormed decoder) (hm : MetadataOf log stem m)
    {session : SessionMetadata} (h : session ∈ m.sessions.vals) :
    sessionFile session.session = some session.filename := by
  obtain ⟨f, hf, hsession, -, hfile, -, -⟩ := sessionMetadata_eq_some (mem_vals_of_log hm h)
  rw [← hsession, hlog.file hf, hfile]

theorem mem_vals_of_numbered (hlog : log.WellFormed decoder) (hm : MetadataOf log stem m)
    {p : Frame × ℕ} (hp : p ∈ log.numbered) :
    ∃ session ∈ m.sessions.vals, session.session = p.1.session ∧
      session.filename = p.1.filename := by
  obtain ⟨session, hs⟩ := sessionMetadata_isSome hp
  have hmem : session ∈ m.sessions.vals := Table.mem_vals.mpr ⟨_, by rw [hm.sessions, hs]⟩
  obtain ⟨f, -, -, hsession, -⟩ := sessionMetadata_eq_some hs
  refine ⟨session, hmem, hsession, ?_⟩
  have hfile := filename_of_log hlog hm hmem
  rw [hsession, hlog.file hp] at hfile
  exact (Option.some.inj hfile).symm

theorem idsOf_perm (hm : MetadataOf log stem m) :
    (m.sessions.vals.flatMap fun session => log.idsOf session.session).Perm
      (List.range' 1 m.durableFrameCount) := by
  have hflat : (m.sessions.vals.flatMap fun session => log.idsOf session.session) =
      (m.sessions.vals.map SessionMetadata.session).flatMap log.idsOf := by
    rw [List.flatMap_map]
  rw [hflat, hm.count]
  refine perm_idsOf (nodup_sessions hm) fun p hp => ?_
  obtain ⟨session, hs⟩ := sessionMetadata_isSome hp
  obtain ⟨f, -, -, hsession, -⟩ := sessionMetadata_eq_some hs
  exact List.mem_map.mpr ⟨session, Table.mem_vals.mpr ⟨_, by rw [hm.sessions, hs]⟩, hsession⟩

/-- A member of a recorded segment is a file that validation allows. -/
theorem memberAllowed_of_log (hstem : validTimeName stem = true) (hlog : log.WellFormed decoder)
    (hm : MetadataOf log stem m) {name : OsName} {node : Node Bytes ℕ} (hfile : node.isFile = true)
    (hname : (∃ p ∈ log.numbered, name = .str p.1.filename) ∨ name = .str (activityFilename stem)) :
    MemberAllowed m stem name node := by
  rcases hname with ⟨p, hp, rfl⟩ | rfl
  · refine ⟨_, rfl, hfile, .inl ?_⟩
    obtain ⟨session, hs, -, hsf⟩ := mem_vals_of_numbered hlog hm hp
    exact List.mem_map.mpr ⟨session, hs, hsf⟩
  · exact ⟨_, rfl, hfile, .inr (validActivityFilename_self hstem)⟩

theorem isFile_of_log (hmem : MembersOf log stem members) {name : OsName} {node : Node Bytes ℕ}
    (h : members[name]? = some node) : node.isFile = true := by
  rcases hmem.only name node h with ⟨p, hp, rfl⟩ | rfl
  · rw [hmem.session p hp] at h
    cases h
    rfl
  · rw [hmem.activity] at h
    split at h
    · cases h
    · cases h
      rfl

theorem activityHolds_of_log (hlog : log.WellFormed decoder) (hm : MetadataOf log stem m)
    (hmem : MembersOf log stem members) : ActivityHolds m stem members [] := by
  by_cases h : log.activity = []
  · refine .inl ⟨?_, ?_, rfl⟩
    · rw [hmem.activity, if_pos h]
    · rw [hm.activity, h, List.length_nil]
  · refine .inr ⟨log.activity, ?_, hlog.activity, hm.activity.symm⟩
    rw [hmem.activity, if_neg h, List.append_nil]

/-- **A directory that holds a log is exactly what its metadata records.** -/
theorem validateFiles_of_log {listing : Listing} (hstem : validTimeName stem = true)
    (hlog : log.WellFormed decoder) (hm : MetadataOf log stem m)
    (hmem : MembersOf log stem members) :
    validateFiles decoder listing members m =
      { kind := .exact, detail := "", repairs := [], updatedMetadata := some m } := by
  have hallowed : ∀ (name : OsName) (node : Node Bytes ℕ), members[name]? = some node →
      MemberAllowed m stem name node := fun name node h =>
    memberAllowed_of_log hstem hlog hm (isFile_of_log hmem h) (hmem.only name node h)
  have hsessions : ∀ session ∈ m.sessions.vals, SessionHolds decoder members session
      (log.linesOf session.session) (log.idsOf session.session) [] := fun session h =>
    sessionHolds_of_log hlog hm h (by rw [List.append_nil]; exact file_of_log hmem hm h) (by simp)
  have hnone : (m.sessions.vals.flatMap fun session => tailRepair session []) = [] := by
    simp [tailRepair]
  rw [validateFiles_of_holds hm.incomplete hallowed hsessions (activityHolds_of_log hlog hm hmem)
    (idsOf_perm hm) (by rw [hm.lastId, hm.count]) (by rw [hm.hasFrames, hm.count]), hnone]
  rfl

theorem sessionIsConsistent_of_log (hlog : log.WellFormed decoder) (hm : MetadataOf log stem m)
    {identity : Str} {session : SessionMetadata}
    (h : m.sessions[identity]? = some session) :
    sessionIsConsistent m identity session = true := by
  have hmem : session ∈ m.sessions.vals := Table.mem_vals.mpr ⟨identity, h⟩
  rw [hm.sessions] at h
  obtain ⟨f, hf, hfs, hsession, hfile, hlast, hoff⟩ := sessionMetadata_eq_some h
  obtain ⟨n, hn, hname⟩ := sessionFile_eq_some (filename_of_log hlog hm hmem)
  have hid := le_of_mem_idsOf (List.mem_of_getLast? hlast)
  have hbytes : 0 < session.durableOffset := by
    have hline : f.line ∈ log.linesOf identity :=
      List.mem_map.mpr ⟨(f, _), List.mem_filter.mpr ⟨hf, by simpa using hfs⟩, rfl⟩
    obtain ⟨body, hbody, -⟩ := (hlog.frames _ hf).isLine
    have hpos : 0 < f.line.length := by
      rw [show f.line = body ++ [newline] from hbody, List.length_append]
      simp
    have hle := (List.sublist_flatten_of_mem hline).length_le
    rw [hoff, bytesOf]
    omega
  rw [hsession] at hn
  simp only [sessionIsConsistent, hsession, hn, hname, decide_true, Bool.true_and, Bool.and_eq_true,
    decide_eq_true_eq, hm.lastId]
  refine ⟨?_, hid.2⟩
  simp [hbytes, show 0 < session.lastFrameId by omega]

theorem nodup_filenames (hlog : log.WellFormed decoder) (hm : MetadataOf log stem m) :
    (m.sessions.vals.map SessionMetadata.filename).Nodup := by
  have h := nodup_sessions hm
  rw [List.Nodup, List.pairwise_map] at h ⊢
  refine List.Pairwise.imp_of_mem (fun {a b} ha hb hne heq => hne ?_) h
  exact sessionFile_injective (filename_of_log hlog hm ha) (heq ▸ filename_of_log hlog hm hb)

/-- **Metadata that records a log is consistent.** -/
theorem metadataIsConsistent_of_log (hstem : validTimeName stem = true)
    (hlog : log.WellFormed decoder) (hm : MetadataOf log stem m)
    (hlength : m.finalizedDir = finalizedName stem m.elapsedNanos) :
    metadataIsConsistent m stem = true := by
  have hfinal : isDirectName m.finalizedDir = true := by
    rw [hlength]
    refine isDirectName_stem_append hstem ?_
    rw [List.mem_cons, not_or]
    exact ⟨by decide, slash_not_mem_padLeft_decimal _ _⟩
  have hdir : isDirectName m.incompleteDir = true := by
    rw [hm.incomplete]
    exact isDirectName_stem_append hstem (by decide)
  have hsessions : m.sessions.toList.all (fun p => sessionIsConsistent m p.1 p.2) = true := by
    rw [List.all_eq_true]
    rintro ⟨identity, session⟩ hp
    exact sessionIsConsistent_of_log hlog hm (Table.mem_toList.mp hp)
  have hstarted : decide (m.lifecycle = .creating) = false := by simpa using hm.started
  simp only [metadataIsConsistent, hm.schema, hstem, hdir, hfinal, hm.offset, hm.start,
    hm.hasFrames, hm.count, hm.lastId, hsessions, nodup_filenames hlog hm, hstarted, decide_true,
    Bool.and_self, Bool.true_and, Bool.and_true, Bool.false_and, Bool.not_false, Bool.and_eq_true,
    decide_eq_true_eq]
  exact ⟨hm.incomplete, hlength⟩

end Log

end SolstoneTmux
