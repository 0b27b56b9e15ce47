import SolstoneTmux.Recovery.Recover
import SolstoneTmux.Recovery.Recorded

/-!
# Repaired files

What the files of a segment hold after `applyRepairs`, and what validation says of them.

A session file with a torn recorded line is cut behind its last whole line, one with a tail behind
its recorded bytes is cut to these. A file that has both is cut twice, first to the shorter and then
to the longer length, and the second cut grows it again with zeros. `applyRepairs_repaired_iff` says
that this is the only way in which repairs fail.
-/

namespace SolstoneTmux

open Foundations Foundations.Prog

/-! ## Cutting members -/

/-- A member cut to a length. -/
def cutMember (members : SegmentDir) (repair : FileRepair) : SegmentDir :=
  match members[OsName.str repair.name]? with
  | some (.file bytes) => members.insert (.str repair.name) (.file (resize bytes repair.offset))
  | _ => members

/-- The members after all repairs. -/
def repairedMembers (members : SegmentDir) (repairs : List FileRepair) : SegmentDir :=
  repairs.foldl cutMember members

theorem cutMember_get_ne {members : SegmentDir} {repair : FileRepair} {name : OsName}
    (h : OsName.str repair.name ≠ name) : (cutMember members repair)[name]? = members[name]? := by
  unfold cutMember
  split
  · exact Table.get_insert_ne h
  · rfl

theorem cutMember_get_self {members : SegmentDir} {repair : FileRepair} {bytes : Bytes}
    (h : members[OsName.str repair.name]? = some (.file bytes)) :
    (cutMember members repair)[OsName.str repair.name]? =
      some (.file (resize bytes repair.offset)) := by
  rw [cutMember, h]
  exact Table.get_insert_self _ _ _

/-- A member is changed by the repairs of its own name, in their order. -/
theorem repairedMembers_get {members : SegmentDir} {name : Str} {bytes : Bytes}
    (h : members[OsName.str name]? = some (.file bytes)) (repairs : List FileRepair) :
    (repairedMembers members repairs)[OsName.str name]? = some (.file
      (((repairs.filter (·.name = name)).map FileRepair.offset).foldl resize bytes)) := by
  induction repairs generalizing members bytes with
  | nil => exact h
  | cons repair repairs ih =>
    rw [repairedMembers, List.foldl_cons]
    by_cases hname : repair.name = name
    · subst hname
      rw [List.filter_cons_of_pos (by simp)]
      exact ih (cutMember_get_self h)
    · rw [List.filter_cons_of_neg (by simpa using hname)]
      refine ih ?_
      rw [cutMember_get_ne fun heq => hname (OsName.str.inj heq), h]

/-- Repairs cut files and nothing else. -/
theorem repairedMembers_mem {members : SegmentDir} (repairs : List FileRepair) {name : OsName}
    {node : Node Bytes ℕ} (h : (repairedMembers members repairs)[name]? = some node) :
    ∃ before, members[name]? = some before ∧ (before.isFile = true → node.isFile = true) := by
  induction repairs generalizing members with
  | nil => exact ⟨node, h, id⟩
  | cons repair repairs ih =>
    rw [repairedMembers, List.foldl_cons] at h
    obtain ⟨before, hbefore, hkind⟩ := ih h
    by_cases hname : OsName.str repair.name = name
    · subst hname
      unfold cutMember at hbefore
      split at hbefore
      · rename_i bytes hbytes
        rw [Table.get_insert_self] at hbefore
        cases hbefore
        exact ⟨_, hbytes, fun _ => hkind rfl⟩
      · exact ⟨before, hbefore, hkind⟩
    · rw [cutMember_get_ne hname] at hbefore
      exact ⟨before, hbefore, hkind⟩

/-- `applyRepairs`, when it returns, has cut the members of the segment. -/
theorem applyRepairs_ends {A : Turn → Prop} {source : OsName} {options : RecoveryOptions}
    {repairs : List FileRepair} {d : StreamDir} {members : SegmentDir}
    (h : d[source]? = some (.directory members)) :
    wp A (applyRepairs source options repairs) (endsIn (fun _ => True) fun _ d' =>
      d'[source]? = some (.directory (repairedMembers members repairs))) d := by
  induction repairs generalizing d members with
  | nil => exact h
  | cons repair repairs ih =>
    refine endsIn_bind (P := fun _ d' =>
      d'[source]? = some (.directory (cutMember members repair))) ?_ fun _ d' h' => ih h'
    refine endsIn_bind (P := fun _ d' =>
      d'[source]? = some (.directory (cutMember members repair)))
      (endsIn_call_atomic trivial ?_ fun _ _ => trivial) fun _ d' h' => ?_
    · intro _ hok
      have hmembers := segmentMembers_eq_some.mpr h
      cases hmember : members[OsName.str repair.name]? with
      | none => simp [resizedMember, memberAt_of_members hmembers, hmember] at hok
      | some node =>
        cases node with
        | directory n => simp [resizedMember, memberAt_of_members hmembers, hmember] at hok
        | special n => simp [resizedMember, memberAt_of_members hmembers, hmember] at hok
        | file bytes =>
          rw [resizedMember, memberAt_of_members hmembers, hmember]
          dsimp only
          rw [setMember_of_members hmembers, Table.get_insert_self, cutMember, hmember]
    · split
      · trivial
      · exact endsIn_call_barrier trivial h'

/-! ## Repairs of one file -/

/-- Whole lines with increasing frame ids. -/
def ValidLines (decoder : Decoder) (l : Bytes) : Prop :=
  ∃ lines ids, LinesRead decoder lines ids ∧ ids.Pairwise (· < ·) ∧ l = lines.flatten

/-- The longest beginning that consists of whole lines with increasing frame ids. -/
structure LongestValid (decoder : Decoder) (part l : Bytes) : Prop where
  isPrefix : l <+: part
  valid : ValidLines decoder l
  longest : ∀ l', l' <+: part → ValidLines decoder l' → l'.length ≤ l.length

/-- A session's recorded bytes end in the middle of a line, and further bytes follow them. -/
def TornOverrun (members : SegmentDir) (session : SessionMetadata) : Prop :=
  ¬ Complete newline (recordedPart members session) ∧
    session.durableOffset < (sessionBytes members session).length

section Session

variable {decoder : Decoder} {members : SegmentDir} {session : SessionMetadata}

theorem SessionReads.longest (h : SessionReads decoder members session) :
    LongestValid decoder (recordedPart members session) (recordedLines members session) := by
  obtain ⟨lines, hread, hinc, hflat⟩ := h.lines
  refine ⟨completePart_isPrefix _, ⟨lines, _, hread, hinc, hflat.symm⟩, ?_⟩
  rintro l' hpre ⟨lines', ids', hread', -, rfl⟩
  have hcomplete := complete_flatten hread'.isLine
  rw [← hcomplete]
  exact (completePart_mono hpre).length_le

theorem SessionReads.lines_le (h : SessionReads decoder members session) :
    (recordedLines members session).length ≤ session.durableOffset := by
  rw [← recordedPart_length h.long]
  exact (completePart_isPrefix _).length_le

theorem recordedLines_take (members : SegmentDir) (session : SessionMetadata) :
    (sessionBytes members session).take (recordedLines members session).length =
      recordedLines members session := by
  have hpre : recordedLines members session <+: sessionBytes members session :=
    (completePart_isPrefix _).trans (List.take_prefix _ _)
  exact (List.prefix_iff_eq_take.mp hpre).symm

theorem SessionReads.part_of_not_torn (h : SessionReads decoder members session)
    (hnot : ¬ IsTorn members session) :
    recordedPart members session = recordedLines members session := by
  rw [isTorn_iff h.long, not_not] at hnot
  exact hnot.symm

/-- The repairs of a session's file leave its whole recorded lines, unless they grow it. -/
theorem sessionRepairs_content (h : SessionReads decoder members session)
    (hnot : ¬ TornOverrun members session) :
    ((sessionRepairs members session).map FileRepair.offset).foldl resize
      (sessionBytes members session) = recordedLines members session := by
  rw [TornOverrun, ← isTorn_iff h.long, not_and_or] at hnot
  rw [sessionRepairs]
  by_cases htorn : IsTorn members session
  · have hshort := hnot.resolve_left (not_not_intro htorn)
    simp only [htorn, hshort, if_true, if_false, List.append_nil, List.map_cons, List.map_nil,
      List.foldl_cons, List.foldl_nil]
    rw [resize_of_le (Nat.le_trans h.lines_le h.long), recordedLines_take]
  · by_cases hmore : session.durableOffset < (sessionBytes members session).length
    · simp only [htorn, hmore, if_true, if_false, List.nil_append, List.map_cons, List.map_nil,
        List.foldl_cons, List.foldl_nil]
      rw [resize_of_le h.long, ← h.part_of_not_torn htorn, recordedPart]
    · simp only [htorn, hmore, if_false, List.append_nil, List.map_nil, List.foldl_nil]
      rw [← h.part_of_not_torn htorn, recordedPart,
        List.take_of_length_le (Nat.le_of_not_lt hmore)]

theorem resize_length_eq (b : Bytes) (n : ℕ) : (resize b n).length = n := by
  rw [resize, List.length_append, List.length_take, List.length_replicate]
  omega

/-- Two cuts of one file leave it as long as recorded, so longer than its whole lines. -/
theorem sessionRepairs_overrun (h : SessionReads decoder members session)
    (hover : TornOverrun members session) :
    (((sessionRepairs members session).map FileRepair.offset).foldl resize
      (sessionBytes members session)).length ≠ (recordedLines members session).length := by
  rw [TornOverrun, ← isTorn_iff h.long] at hover
  rw [sessionRepairs]
  simp only [hover.1, hover.2, if_true, List.cons_append, List.nil_append, List.map_cons,
    List.map_nil, List.foldl_cons, List.foldl_nil, resize_length_eq]
  exact (Nat.ne_of_lt hover.1).symm

theorem name_of_mem_sessionRepairs {r : FileRepair} (h : r ∈ sessionRepairs members session) :
    r.name = session.filename := by
  rw [sessionRepairs, List.mem_append] at h
  rcases h with h | h
  · split at h
    · rw [List.mem_singleton.mp h]
    · cases h
  · split at h
    · rw [List.mem_singleton.mp h]
    · cases h

end Session

theorem name_of_mem_activityRepairs {m : SegmentMetadata} {stem : Str} {members : SegmentDir}
    {r : FileRepair} (h : r ∈ activityRepairs m stem members) : r.name = activityFilename stem := by
  rw [activityRepairs] at h
  split at h
  · rw [List.mem_singleton.mp h]
  · cases h

/-! ## The updated metadata -/

/-- A session's metadata after its repairs. -/
def repairedSession (decoder : Decoder) (members : SegmentDir) (session : SessionMetadata) :
    SessionMetadata :=
  if IsTorn members session then
    { session with
      durableOffset := (recordedLines members session).length
      lastFrameId := (idsRead decoder members session).getLast?.getD 0 }
  else session

section Updated

variable {decoder : Decoder} {members : SegmentDir}

theorem repairedSession_filename (session : SessionMetadata) :
    (repairedSession decoder members session).filename = session.filename := by
  unfold repairedSession
  split <;> rfl

theorem repairedSession_offset {session : SessionMetadata}
    (h : SessionReads decoder members session) :
    (repairedSession decoder members session).durableOffset =
      (recordedLines members session).length := by
  unfold repairedSession
  split
  · rfl
  · rename_i hnot
    have hle := h.lines_le
    rw [IsTorn] at hnot
    omega

theorem repairedSession_lastFrameId {session : SessionMetadata}
    (h : SessionReads decoder members session) :
    (idsRead decoder members session).getLast?.getD 0 =
      (repairedSession decoder members session).lastFrameId := by
  unfold repairedSession
  split
  · rfl
  · rename_i hnot
    exact h.last hnot

theorem updateTorn_get {m : SegmentMetadata} {session : SessionMetadata}
    (h : m.sessions[session.session]? = some session) (identity : Str) :
    (updateTorn decoder members m session).sessions[identity]? =
      if session.session = identity then some (repairedSession decoder members session)
      else m.sessions[identity]? := by
  unfold updateTorn repairedSession
  split
  · rw [updateSession, h, Table.get_insert]
  · split
    · rename_i heq
      rw [← heq, h]
    · rfl

theorem updateTorn_fields (m : SegmentMetadata) (session : SessionMetadata) :
    updateTorn decoder members m session =
      { m with sessions := (updateTorn decoder members m session).sessions } := by
  unfold updateTorn updateSession
  split
  · split <;> rfl
  · rfl

theorem foldl_updateTorn_fields (sessions : List SessionMetadata) (m : SegmentMetadata) :
    sessions.foldl (updateTorn decoder members) m =
      { m with sessions := (sessions.foldl (updateTorn decoder members) m).sessions } := by
  induction sessions generalizing m with
  | nil => rfl
  | cons session sessions ih =>
    rw [List.foldl_cons, ih (updateTorn decoder members m session), updateTorn_fields m session]

/-- The session loop replaces each session's metadata by its repaired form. -/
theorem foldl_updateTorn_get {sessions : List SessionMetadata} {m : SegmentMetadata}
    (hget : ∀ session ∈ sessions, m.sessions[session.session]? = some session)
    (hnodup : (sessions.map SessionMetadata.session).Nodup) (identity : Str) :
    (sessions.foldl (updateTorn decoder members) m).sessions[identity]? =
      if identity ∈ sessions.map SessionMetadata.session then
        m.sessions[identity]?.map (repairedSession decoder members)
      else m.sessions[identity]? := by
  induction sessions generalizing m with
  | nil => rfl
  | cons session sessions ih =>
    rw [List.map_cons, List.nodup_cons] at hnodup
    have hself := hget session List.mem_cons_self
    have hrest : ∀ s ∈ sessions,
        (updateTorn decoder members m session).sessions[s.session]? = some s := by
      intro s hs
      rw [updateTorn_get hself, if_neg]
      · exact hget s (List.mem_cons_of_mem _ hs)
      · intro heq
        exact hnodup.1 (heq ▸ List.mem_map_of_mem hs)
    rw [List.foldl_cons, ih hrest hnodup.2, updateTorn_get hself]
    simp only [List.map_cons, List.mem_cons]
    by_cases heq : session.session = identity
    · subst heq
      simp [hnodup.1, hself]
    · simp [heq, Ne.symm heq]

theorem sessions_gathered {m : SegmentMetadata} {stem : Str} (hm : Consistent m stem) :
    (m.sessions.vals.foldl (updateTorn decoder members) m).sessions =
      m.sessions.map fun _ session => repairedSession decoder members session := by
  refine Table.ext fun identity => ?_
  rw [foldl_updateTorn_get (fun session hs => hm.get hs) hm.nodup_sessions,
    Std.ExtTreeMap.getElem?_map]
  split
  · rfl
  · rename_i hnot
    cases hs : m.sessions[identity]? with
    | none => rfl
    | some session =>
      refine absurd ?_ hnot
      have hmem : session ∈ m.sessions.vals := Table.mem_vals.mpr ⟨identity, hs⟩
      rw [(hm.session hs).1]
      exact List.mem_map_of_mem hmem

end Updated

/-- Numbers that are their positions, counted from one. -/
theorem eq_range'_of_zipIdx {ids : List ℕ}
    (h : (ids.zipIdx.any fun (frameId, index) => frameId ≠ index + 1) = false) :
    ids = List.range' 1 ids.length := by
  refine List.ext_getElem (by simp) fun i hi hi' => ?_
  rw [List.any_eq_false] at h
  have := h (ids[i], i) (List.mk_mem_zipIdx_iff_getElem?.mpr (List.getElem?_eq_getElem hi))
  rw [List.getElem_range']
  simp only [ne_eq, decide_not, Bool.not_eq_true', decide_eq_false_iff_not, not_not] at this
  omega

/-- What the test of the ids answers when it asks for repairs. -/
theorem validateIds_repair {m : SegmentMetadata} {g : Gathered}
    (h : (validateIds m g).kind = .repair) :
    g.allIds.Perm (List.range' 1 g.allIds.length) ∧ (validateIds m g).repairs = g.repairs ∧
      (validateIds m g).updatedMetadata = some
        { g.updated with
          durableFrameCount := g.allIds.length
          lastDurableFrameId := g.allIds.length
          hasDurableFrames := decide (0 < g.allIds.length) } := by
  have hlen : (g.allIds.insertionSort (· ≤ ·)).length = g.allIds.length :=
    List.length_insertionSort _ _
  unfold validateIds at h ⊢
  dsimp only at h ⊢
  split at h
  · cases h
  · rename_i hseq
    rw [Bool.not_eq_true] at hseq
    have hrange := eq_range'_of_zipIdx hseq
    rw [hlen] at hrange
    split at h
    · cases h
    · split at h
      · cases h
      · rename_i hcount hrepairs
        rw [if_neg (by rw [hseq]; exact Bool.false_ne_true), if_neg hcount, if_neg hrepairs]
        refine ⟨?_, rfl, ?_⟩
        · rw [← hrange]
          exact (List.perm_insertionSort _ _).symm
        · rw [hrange, getLast?_range', List.length_range']

/-! ## After all repairs -/

/-- The files of a segment agree with the metadata that repairs ended in: each session's file is the
longest valid beginning of what was recorded of it and as long as now recorded, and validation
accepts the whole. -/
structure Repaired (decoder : Decoder) (listing : Listing) (m updated : SegmentMetadata)
    (members members' : SegmentDir) : Prop where
  session : ∀ (identity : Str) (session : SessionMetadata), m.sessions[identity]? = some session →
    ∃ l session', members'[OsName.str session.filename]? = some (.file l) ∧
      LongestValid decoder (recordedPart members session) l ∧
      updated.sessions[identity]? = some session' ∧ session'.durableOffset = l.length
  exact : (validateFiles decoder listing members' updated).kind = .exact

section Main

variable {decoder : Decoder} {listing : Listing} {members : SegmentDir} {m : SegmentMetadata}
  {stem : Str}

/-- The metadata that repairs end in. -/
def repairedMetadata (decoder : Decoder) (m : SegmentMetadata) (stem : Str) (members : SegmentDir) :
    SegmentMetadata :=
  { (gathered decoder m stem members).updated with
    durableFrameCount := (gathered decoder m stem members).allIds.length
    lastDurableFrameId := (gathered decoder m stem members).allIds.length
    hasDurableFrames := decide (0 < (gathered decoder m stem members).allIds.length) }

theorem repairedMetadata_sessions (hm : Consistent m stem) :
    (repairedMetadata decoder m stem members).sessions =
      m.sessions.map fun _ session => repairedSession decoder members session :=
  sessions_gathered hm

theorem vals_repairedMetadata (hm : Consistent m stem) :
    (repairedMetadata decoder m stem members).sessions.vals =
      m.sessions.vals.map (repairedSession decoder members) := by
  rw [repairedMetadata_sessions hm]
  exact Table.vals_map m.sessions (repairedSession decoder members)

/-- The repairs of a session's own file among all of them. -/
theorem filter_gathered_session (hm : Consistent m stem) {session : SessionMetadata}
    (hs : session ∈ m.sessions.vals) :
    (gathered decoder m stem members).repairs.filter (·.name = session.filename) =
      sessionRepairs members session := by
  have hactivity : (activityRepairs m stem members).filter (·.name = session.filename) = [] := by
    rw [List.filter_eq_nil_iff]
    intro r hr
    rw [decide_eq_true_eq, name_of_mem_activityRepairs hr]
    exact hm.activityFilename_ne hs
  have hself : (sessionRepairs members session).filter (·.name = session.filename) =
      sessionRepairs members session := by
    rw [List.filter_eq_self]
    intro r hr
    simpa using name_of_mem_sessionRepairs hr
  have hall : ∀ sessions : List SessionMetadata,
      (sessions.map SessionMetadata.filename).Nodup → session ∈ sessions →
      (sessions.flatMap (sessionRepairs members)).filter (·.name = session.filename) =
        sessionRepairs members session := by
    intro sessions hnodup hmem
    induction sessions with
    | nil => cases hmem
    | cons first sessions ih =>
      rw [List.map_cons, List.nodup_cons] at hnodup
      rw [List.flatMap_cons, List.filter_append]
      rcases List.mem_cons.mp hmem with rfl | hmem
      · have hrest : (sessions.flatMap (sessionRepairs members)).filter
            (·.name = session.filename) = [] := by
          rw [List.filter_eq_nil_iff]
          intro r hr
          obtain ⟨other, hother, hr⟩ := List.mem_flatMap.mp hr
          rw [decide_eq_true_eq, name_of_mem_sessionRepairs hr]
          intro heq
          exact hnodup.1 (heq ▸ List.mem_map_of_mem hother)
        rw [hself, hrest, List.append_nil]
      · have hfirst : (sessionRepairs members first).filter (·.name = session.filename) = [] := by
          rw [List.filter_eq_nil_iff]
          intro r hr
          rw [decide_eq_true_eq, name_of_mem_sessionRepairs hr]
          intro heq
          exact hnodup.1 (heq ▸ List.mem_map_of_mem hmem)
        rw [hfirst, ih hnodup.2 hmem, List.nil_append]
  rw [gathered, List.filter_append, hactivity, List.append_nil, hall _ hm.nodup hs]

theorem filter_gathered_activity (hm : Consistent m stem) :
    (gathered decoder m stem members).repairs.filter (·.name = activityFilename stem) =
      activityRepairs m stem members := by
  have hsessions : (m.sessions.vals.flatMap (sessionRepairs members)).filter
      (·.name = activityFilename stem) = [] := by
    rw [List.filter_eq_nil_iff]
    intro r hr
    obtain ⟨session, hs, hr⟩ := List.mem_flatMap.mp hr
    rw [decide_eq_true_eq, name_of_mem_sessionRepairs hr]
    exact (hm.activityFilename_ne hs).symm
  rw [gathered, List.filter_append, hsessions, List.nil_append, List.filter_eq_self]
  intro r hr
  simpa using name_of_mem_activityRepairs hr

/-- The content of a session's file after all repairs. -/
theorem repaired_session_get (hm : Consistent m stem)
    (hread : FilesRead decoder listing members m stem) {session : SessionMetadata}
    (hs : session ∈ m.sessions.vals) :
    (repairedMembers members (gathered decoder m stem members).repairs)[
        OsName.str session.filename]? =
      some (.file (((sessionRepairs members session).map FileRepair.offset).foldl resize
        (sessionBytes members session))) := by
  rw [repairedMembers_get (hread.sessions session hs).file, filter_gathered_session hm hs]

/-- The activity file after all repairs holds its whole recorded lines. -/
theorem repaired_activity (hm : Consistent m stem)
    (hread : FilesRead decoder listing members m stem) :
    ActivityHolds (repairedMetadata decoder m stem members) stem
      (repairedMembers members (gathered decoder m stem members).repairs) [] := by
  have hoffset : (repairedMetadata decoder m stem members).activityDurableOffset =
      (activityLines m stem members).length := rfl
  rcases hread.activity.file with hnone | hfile
  · have hbytes : activityBytes members stem = [] := by rw [activityBytes, hnone]
    refine .inl ⟨?_, ?_, rfl⟩
    · cases hget : (repairedMembers members (gathered decoder m stem members).repairs)[
          OsName.str (activityFilename stem)]? with
      | none => rfl
      | some node =>
        obtain ⟨before, hbefore, -⟩ := repairedMembers_mem _ hget
        rw [hnone] at hbefore
        cases hbefore
    · simp [hoffset, activityLines, hbytes]
  · refine .inr ⟨activityLines m stem members, ?_, completePart_complete _, hoffset.symm⟩
    rw [repairedMembers_get hfile, filter_gathered_activity hm, List.append_nil, activityRepairs]
    have hpre : activityLines m stem members <+: activityBytes members stem :=
      (completePart_isPrefix _).trans (List.take_prefix _ _)
    split
    · simp only [List.map_cons, List.map_nil, List.foldl_cons, List.foldl_nil]
      rw [resize_of_le hpre.length_le, ← List.prefix_iff_eq_take.mp hpre]
    · rename_i hsame
      rw [not_or, not_not] at hsame
      have hlong := hread.activity.long
      have hlen : (activityLines m stem members).length = (activityBytes members stem).length := by
        omega
      simp only [List.map_nil, List.foldl_nil]
      rw [hpre.eq_of_length hlen]

/-- Where no cut grows a file, the repaired files are what the repaired metadata records. -/
theorem validateFiles_repaired (hm : Consistent m stem)
    (hread : FilesRead decoder listing members m stem)
    (hids : (gathered decoder m stem members).allIds.Perm
      (List.range' 1 (gathered decoder m stem members).allIds.length))
    (hnot : ∀ session ∈ m.sessions.vals, ¬ TornOverrun members session) :
    (validateFiles decoder listing
      (repairedMembers members (gathered decoder m stem members).repairs)
      (repairedMetadata decoder m stem members)).kind = .exact := by
  set members' := repairedMembers members (gathered decoder m stem members).repairs with hmembers'
  set updated := repairedMetadata decoder m stem members with hupdated
  have hvals : updated.sessions.vals = m.sessions.vals.map (repairedSession decoder members) :=
    vals_repairedMetadata hm
  have hfile : ∀ session ∈ m.sessions.vals,
      members'[OsName.str session.filename]? = some (.file (recordedLines members session)) := by
    intro session hs
    rw [hmembers', repaired_session_get hm hread hs,
      sessionRepairs_content (hread.sessions session hs) (hnot session hs)]
  have hexpected : expectedNames updated = expectedNames m := by
    rw [expectedNames, expectedNames, hvals, List.map_map]
    exact List.map_congr_left fun session _ => repairedSession_filename session
  have hallowed : ∀ (name : OsName) (node : Node Bytes ℕ), members'[name]? = some node →
      MemberAllowed updated stem name node := by
    intro name node hnode
    obtain ⟨before, hbefore, hkind⟩ := repairedMembers_mem _ hnode
    have hlisted : name ∈ listing.order members := by
      rw [listing.mem, hbefore]
      rfl
    obtain ⟨before', hbefore', text, htext, hisFile, hname⟩ :=
      memberAllowed_of_scan hread.scan name hlisted
    rw [hbefore] at hbefore'
    cases hbefore'
    exact ⟨text, htext, hkind hisFile, by rwa [hexpected]⟩
  -- the lines and ids of a repaired session are read off its repaired file
  have hparse : ∀ session ∈ m.sessions.vals, ∀ session', session' = repairedSession decoder members session →
      sessionBytes members' session' = recordedLines members session := by
    rintro session hs _ rfl
    refine sessionBytes_of_file ?_
    rw [repairedSession_filename]
    exact hfile session hs
  have hholds : ∀ session' ∈ updated.sessions.vals, SessionHolds decoder members' session'
      (splitInclusive newline (sessionBytes members' session'))
      (parseRecordedPrefix decoder (sessionBytes members' session')).2.1 [] := by
    intro session' hs'
    rw [hvals] at hs'
    obtain ⟨session, hs, rfl⟩ := List.mem_map.mp hs'
    have hreads := hread.sessions session hs
    obtain ⟨lines, hlines, hinc, hflat⟩ := hreads.lines
    rw [hparse session hs _ rfl, ← hflat, splitInclusive_flatten hlines.isLine,
      parseRecordedPrefix_flatten hlines hinc]
    refine ⟨?_, ?_, hlines, hinc, repairedSession_lastFrameId hreads, List.not_mem_nil⟩
    · rw [List.append_nil, hflat, repairedSession_filename]
      exact hfile session hs
    · rw [hflat]
      exact repairedSession_offset hreads
  have hallIds : updated.sessions.vals.flatMap (fun session' =>
      (parseRecordedPrefix decoder (sessionBytes members' session')).2.1) =
        (gathered decoder m stem members).allIds := by
    rw [hvals, List.flatMap_map, gathered]
    refine List.flatMap_congr fun session hs => ?_
    obtain ⟨lines, hlines, hinc, hflat⟩ := (hread.sessions session hs).lines
    rw [hparse session hs _ rfl, ← hflat, parseRecordedPrefix_flatten hlines hinc]
  have hdir : updated.incompleteDir = incompleteName stem := by
    rw [hupdated, repairedMetadata, gathered, foldl_updateTorn_fields]
    exact hm.incompleteDir
  have hnone : (updated.sessions.vals.flatMap fun session' => tailRepair session' []) = [] := by
    simp [tailRepair]
  rw [validateFiles_of_holds hdir hallowed hholds (repaired_activity hm hread)
    (by rw [hallIds]; exact hids) rfl rfl, hnone]
  rfl

/-- **Repairs end in files that validation accepts exactly when no file is cut twice.** -/
theorem applyRepairs_repaired_iff {source : OsName} {options : RecoveryOptions} {d d' : StreamDir}
    {ts : List Turn} {updated : SegmentMetadata} (hm : metadataIsConsistent m stem = true)
    (hsource : d[source]? = some (.directory members))
    (hkind : (validateFiles decoder listing members m).kind = .repair)
    (hupdated : (validateFiles decoder listing members m).updatedMetadata = some updated)
    (hrun : run ts (applyRepairs source options (validateFiles decoder listing members m).repairs) d =
      (.done (), d')) :
    ∃ members', d'[source]? = some (.directory members') ∧
      (Repaired decoder listing m updated members members' ↔
        ∀ session ∈ m.sessions.vals, ¬ TornOverrun members session) := by
  have hc := consistent_of_metadataIsConsistent hm
  have hread := @filesRead_of_validateFiles _ listing _ _ _ hc.segmentStem
    (by rw [hkind]; exact ValidationKind.noConfusion)
  have hv := validateFiles_of_read hc.segmentStem hread
  rw [hv] at hkind hupdated hrun
  obtain ⟨hids, hrepairs, hmeta⟩ := validateIds_repair hkind
  rw [hrepairs] at hrun
  rw [hmeta] at hupdated
  have hupdated' : repairedMetadata decoder m stem members = updated := Option.some.inj hupdated
  refine ⟨_, wp_run_eq hrun (applyRepairs_ends hsource) trivial fun _ _ => trivial, ?_, ?_⟩
  · intro h session hs hover
    have hreads := hread.sessions session hs
    obtain ⟨l, session', hl, -, hsession', hlen⟩ := h.session _ session (hc.get hs)
    rw [repaired_session_get hc hread hs] at hl
    cases hl
    rw [← hupdated', repairedMetadata_sessions hc, Std.ExtTreeMap.getElem?_map, hc.get hs] at hsession'
    cases hsession'
    rw [repairedSession_offset hreads] at hlen
    exact sessionRepairs_overrun hreads hover hlen.symm
  · intro hnot
    refine ⟨fun identity session hs => ?_, ?_⟩
    · have hmem : session ∈ m.sessions.vals := Table.mem_vals.mpr ⟨identity, hs⟩
      have hreads := hread.sessions session hmem
      refine ⟨recordedLines members session, repairedSession decoder members session, ?_,
        hreads.longest, ?_, repairedSession_offset hreads⟩
      · rw [repaired_session_get hc hread hmem, sessionRepairs_content hreads (hnot session hmem)]
      · rw [← hupdated', repairedMetadata_sessions hc, Std.ExtTreeMap.getElem?_map, hs]
        rfl
    · rw [← hupdated']
      exact validateFiles_repaired hc hread hids hnot

end Main

/-! ## A file that grows -/

/-- Metadata that records one byte of a session's file. -/
def oneByteMetadata : SegmentMetadata where
  schemaVersion := 1
  lifecycle := .opened
  incompleteDir := "120000.incomplete".toList
  finalizedDir := "120000_001".toList
  startWallUnixNanos := 0
  localOffsetSeconds := 0
  tz := none
  elapsedNanos := nanosPerSecond
  lastDurableFrameId := 1
  durableFrameCount := 1
  hasDurableFrames := true
  activityDurableOffset := 0
  sessions := (∅ : Table Str SessionMetadata).insert "main".toList
    { session := "main".toList
      filename := "tmux_main_screen.jsonl".toList
      lastFrameId := 1
      durableOffset := 1 }

/-- Two bytes of a frame in that session's file. -/
def twoByteMembers : SegmentDir :=
  (∅ : SegmentDir).insert (.str "tmux_main_screen.jsonl".toList) (.file [123, 34])

/-- A stream directory with such a segment. -/
def twoByteDir : StreamDir :=
  (∅ : StreamDir).insert (.str "120000.incomplete".toList) (.directory twoByteMembers)

/-- What validation answers there. -/
def twoByteValidation : Validation :=
  validateFiles .ofEnvelopes .byName twoByteMembers oneByteMetadata

/-- The stream directory after its repairs: the session's file holds one zero. -/
def zeroByteDir : StreamDir :=
  (run [] (applyRepairs (.str "120000.incomplete".toList) .default twoByteValidation.repairs)
    twoByteDir).2

/-- The file of two bytes is cut to none and then grown to one. -/
theorem applyRepairs_grows :
    metadataIsConsistent oneByteMetadata "120000".toList = true ∧ twoByteValidation.kind = .repair ∧
      ∃ updated members', twoByteValidation.updatedMetadata = some updated ∧
        run [] (applyRepairs (.str "120000.incomplete".toList) .default twoByteValidation.repairs)
          twoByteDir = (.done (), zeroByteDir) ∧
        zeroByteDir[OsName.str "120000.incomplete".toList]? = some (.directory members') ∧
        ¬ Repaired .ofEnvelopes .byName oneByteMetadata updated twoByteMembers members' := by
  refine ⟨by decide, by decide, _, (∅ : SegmentDir).insert (.str "tmux_main_screen.jsonl".toList)
    (.file [0]), rfl, rfl, rfl, fun h => ?_⟩
  obtain ⟨l, session', hl, -, hsession, hlen⟩ := h.session "main".toList _ rfl
  have hl' : l = [0] := Node.file.inj (Option.some.inj (hl.symm.trans (by rfl)))
  have hoffset : some session'.durableOffset = some 0 :=
    (congrArg (Option.map SessionMetadata.durableOffset) hsession).symm.trans rfl
  rw [hl', Option.some.inj hoffset] at hlen
  exact absurd hlen (by decide)

theorem applyRepairs_repaired_iff_twoByte :
    ∃ members', zeroByteDir[OsName.str "120000.incomplete".toList]? = some (.directory members') ∧
      (Repaired .ofEnvelopes .byName oneByteMetadata
          { oneByteMetadata with
            lastDurableFrameId := 0
            durableFrameCount := 0
            hasDurableFrames := false
            sessions := (∅ : Table Str SessionMetadata).insert "main".toList
              { session := "main".toList
                filename := "tmux_main_screen.jsonl".toList
                lastFrameId := 0
                durableOffset := 0 } } twoByteMembers members' ↔
        ∀ session ∈ oneByteMetadata.sessions.vals, ¬ TornOverrun twoByteMembers session) := by
  have hm : metadataIsConsistent oneByteMetadata "120000".toList = true := by decide
  have hrun : run [] (applyRepairs (.str "120000.incomplete".toList) .default
      (validateFiles .ofEnvelopes .byName twoByteMembers oneByteMetadata).repairs) twoByteDir =
        (.done (), zeroByteDir) := rfl
  exact applyRepairs_repaired_iff hm rfl (by decide) (by decide) hrun

end SolstoneTmux
