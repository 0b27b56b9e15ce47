import SolstoneTmux.Recovery.Validate

/-!
# What validation reads

`parseRecordedPrefix` reads the lines of a file up to a torn one: on a sequence of frames with
increasing ids followed by a torn line it answers the length of the frames, their ids and whether
there is a torn line (`parseRecordedPrefix_lines`), and a reading that stops at the end or at a torn
line is always of this form (`parseRecordedPrefix_read`).

`SessionReads` says that a session's file passes validation, and `validateSessions_iff` that the
session loop goes on exactly through such files; what it has gathered at the end is computed from
the files (`sessionRepairs`, `idsRead`).
-/

namespace SolstoneTmux

open Foundations

/-! ## Lines and ids -/

/-- Lines from which ids are read back, line by line. -/
def LinesRead (decoder : Decoder) (lines : List Bytes) (ids : List ℕ) : Prop :=
  List.Forall₂ (fun line frameId => IsLine newline line ∧
    frameIdOf decoder line.dropLast = some frameId) lines ids

theorem LinesRead.isLine {decoder : Decoder} {lines : List Bytes} {ids : List ℕ}
    (h : LinesRead decoder lines ids) : ∀ l ∈ lines, IsLine newline l := by
  induction h with
  | nil => simp
  | cons hl _ ih =>
    intro m hm
    rcases List.mem_cons.mp hm with rfl | hm
    · exact hl.1
    · exact ih m hm

theorem getLast?_of_isLine {line : Bytes} (h : IsLine newline line) :
    line.getLast? = some newline := by
  obtain ⟨body, rfl, -⟩ := h
  simp

theorem parseLines_append {decoder : Decoder} {lines : List Bytes} {ids : List ℕ}
    (h : LinesRead decoder lines ids) (rest : List Bytes) (offset : ℕ) (acc : List ℕ)
    (hinc : (acc ++ ids).Pairwise (· < ·)) :
    parseLines decoder (lines ++ rest) offset acc =
      parseLines decoder rest (offset + lines.flatten.length) (acc ++ ids) := by
  induction h generalizing offset acc with
  | nil => simp
  | @cons line frameId lines ids hl _ ih =>
    have hlast : acc.getLast?.any (fun previous => decide (frameId ≤ previous)) = false := by
      cases hacc : acc.getLast? with
      | none => rfl
      | some previous =>
        have hmem : previous ∈ acc := List.mem_of_getLast? hacc
        have hlt : previous < frameId :=
          (List.pairwise_append.mp hinc).2.2 previous hmem frameId List.mem_cons_self
        simp only [Option.any_some, decide_eq_false_iff_not]
        omega
    have hinc' : ((acc ++ [frameId]) ++ ids).Pairwise (· < ·) := by
      rwa [List.append_assoc]
    rw [List.cons_append, parseLines, if_neg (not_not_intro (getLast?_of_isLine hl.1))]
    simp only [hl.2, hlast, Bool.false_eq_true, if_false]
    rw [ih _ _ hinc', List.flatten_cons, List.length_append, List.append_assoc,
      List.singleton_append, Nat.add_assoc]

/-- What is read at a torn line, or where the lines end. -/
theorem parseLines_tail {decoder : Decoder} {t : Bytes} (ht : newline ∉ t) (offset : ℕ)
    (acc : List ℕ) :
    parseLines decoder (splitInclusive newline t) offset acc = (offset, acc, decide (t ≠ [])) := by
  by_cases hnil : t = []
  · rw [hnil]
    rfl
  · have hlast : t.getLast? ≠ some newline := fun h => ht (List.mem_of_getLast? h)
    rw [splitInclusive_of_not_mem ht hnil, parseLines, if_pos hlast]
    simp [hnil]

/-- The frames before a torn line are read, and the torn line is noticed. -/
theorem parseRecordedPrefix_lines {decoder : Decoder} {lines : List Bytes} {ids : List ℕ}
    (h : LinesRead decoder lines ids) (hinc : ids.Pairwise (· < ·)) {t : Bytes}
    (ht : newline ∉ t) :
    parseRecordedPrefix decoder (lines.flatten ++ t) =
      (lines.flatten.length, ids, decide (t ≠ [])) := by
  rw [parseRecordedPrefix, splitInclusive_flatten_append h.isLine,
    parseLines_append h _ 0 [] (by simpa using hinc), parseLines_tail ht]
  simp

/-- The lines of a session's file are read to their end, and give the ids back. -/
theorem parseRecordedPrefix_flatten {decoder : Decoder} {lines : List Bytes} {ids : List ℕ}
    (h : LinesRead decoder lines ids) (hinc : ids.Pairwise (· < ·)) :
    parseRecordedPrefix decoder lines.flatten = (lines.flatten.length, ids, false) := by
  have := parseRecordedPrefix_lines h hinc (List.not_mem_nil (a := newline))
  rwa [List.append_nil] at this

/-- An id above the last one is above all. -/
theorem pairwise_concat {acc : List ℕ} {frameId : ℕ} (hacc : acc.Pairwise (· < ·))
    (h : acc.getLast?.any (fun previous => decide (frameId ≤ previous)) = false) :
    (acc ++ [frameId]).Pairwise (· < ·) := by
  rcases List.eq_nil_or_concat acc with rfl | ⟨init, last, rfl⟩
  · simp
  · rw [List.concat_eq_append] at hacc h ⊢
    simp only [List.getLast?_append, List.getLast?_singleton, Option.some_or, Option.any_some,
      decide_eq_false_iff_not, Nat.not_le] at h
    refine List.pairwise_append.mpr ⟨hacc, by simp, fun a ha b hb => ?_⟩
    rw [List.mem_singleton.mp hb]
    rcases List.mem_append.mp ha with ha | ha
    · have := (List.pairwise_append.mp hacc).2.2 a ha last (List.mem_singleton_self last)
      omega
    · rw [List.mem_singleton.mp ha]
      exact h

/-- A reading that does not stop before the end, or that stops at a torn line, has read all the
lines. -/
theorem parseLines_read {decoder : Decoder} {lines : List Bytes} {t : Bytes}
    (hlines : ∀ l ∈ lines, IsLine newline l) (ht : newline ∉ t) {offset o : ℕ} {acc out : List ℕ}
    {torn : Bool} (hacc : acc.Pairwise (· < ·))
    (h : parseLines decoder (lines ++ splitInclusive newline t) offset acc = (o, out, torn))
    (hend : torn = true ∨ o = offset + (lines.flatten ++ t).length) :
    ∃ ids, LinesRead decoder lines ids ∧ out = acc ++ ids ∧ (acc ++ ids).Pairwise (· < ·) := by
  induction lines generalizing offset acc with
  | nil =>
    rw [List.nil_append, parseLines_tail ht] at h
    cases h
    exact ⟨[], .nil, by simp, by simpa using hacc⟩
  | cons line lines ih =>
    have hline := hlines _ List.mem_cons_self
    have hpos : 0 < line.length := by
      obtain ⟨body, rfl, -⟩ := hline
      simp
    have hstop : (offset, acc, false) = (o, out, torn) → False := by
      rintro heq
      cases heq
      rcases hend with hend | hend
      · cases hend
      · rw [List.flatten_cons, List.append_assoc, List.length_append] at hend
        omega
    rw [List.cons_append, parseLines, if_neg (not_not_intro (getLast?_of_isLine hline))] at h
    split at h
    · exact absurd h hstop
    · rename_i frameId hid
      split at h
      · exact absurd h hstop
      · rename_i hlast
        rw [Bool.not_eq_true] at hlast
        obtain ⟨ids, hread, rfl, hinc⟩ := ih (fun l hl => hlines l (List.mem_cons_of_mem _ hl))
          (pairwise_concat hacc hlast) h (hend.imp_right fun heq => by
            rw [List.flatten_cons, List.append_assoc, List.length_append] at heq
            omega)
        exact ⟨frameId :: ids, .cons ⟨hline, hid⟩ hread, by simp, by simpa using hinc⟩

theorem parseRecordedPrefix_read {decoder : Decoder} {bytes : Bytes} {o : ℕ} {ids : List ℕ}
    {torn : Bool} (h : parseRecordedPrefix decoder bytes = (o, ids, torn))
    (hend : torn = true ∨ o = bytes.length) :
    ∃ lines, LinesRead decoder lines ids ∧ ids.Pairwise (· < ·) ∧
      lines.flatten = completePart newline bytes := by
  obtain ⟨lines, t, hlines, ht, rfl⟩ := exists_lines newline bytes
  rw [parseRecordedPrefix, splitInclusive_flatten_append hlines] at h
  obtain ⟨ids', hread, rfl, hinc⟩ := parseLines_read hlines ht List.Pairwise.nil h
    (by simpa using hend)
  exact ⟨lines, hread, by simpa using hinc, ((complete_flatten hlines).completePart_append ht).symm⟩

/-! ## One session's file -/

/-- The content of a session's file. -/
def sessionBytes (members : SegmentDir) (session : SessionMetadata) : Bytes :=
  match members[OsName.str session.filename]? with
  | some (.file bytes) => bytes
  | _ => []

theorem sessionBytes_of_file {members : SegmentDir} {session : SessionMetadata} {bytes : Bytes}
    (h : members[OsName.str session.filename]? = some (.file bytes)) :
    sessionBytes members session = bytes := by
  rw [sessionBytes, h]

/-- The bytes of a session's file that its metadata records. -/
def recordedPart (members : SegmentDir) (session : SessionMetadata) : Bytes :=
  (sessionBytes members session).take session.durableOffset

/-- The whole lines among the recorded bytes. -/
def recordedLines (members : SegmentDir) (session : SessionMetadata) : Bytes :=
  completePart newline (recordedPart members session)

/-- The frame ids read from the recorded bytes. -/
def idsRead (decoder : Decoder) (members : SegmentDir) (session : SessionMetadata) : List ℕ :=
  (parseRecordedPrefix decoder (recordedPart members session)).2.1

/-- The recorded bytes end in the middle of a line. -/
def IsTorn (members : SegmentDir) (session : SessionMetadata) : Prop :=
  (recordedLines members session).length < session.durableOffset

instance (members : SegmentDir) (session : SessionMetadata) : Decidable (IsTorn members session) :=
  inferInstanceAs (Decidable (_ < _))

/-- A session's file passes validation: it is as long as recorded, its recorded lines are frames
with increasing ids up to the recorded one, and no line ends behind them. -/
structure SessionReads (decoder : Decoder) (members : SegmentDir) (session : SessionMetadata) :
    Prop where
  file : members[OsName.str session.filename]? = some (.file (sessionBytes members session))
  long : session.durableOffset ≤ (sessionBytes members session).length
  lines : ∃ lines, LinesRead decoder lines (idsRead decoder members session) ∧
    (idsRead decoder members session).Pairwise (· < ·) ∧
    lines.flatten = recordedLines members session
  last : ¬ IsTorn members session →
    (idsRead decoder members session).getLast?.getD 0 = session.lastFrameId
  tail : newline ∉ (sessionBytes members session).drop session.durableOffset

/-- The repairs that a session's file needs. -/
def sessionRepairs (members : SegmentDir) (session : SessionMetadata) : List FileRepair :=
  (if IsTorn members session then
    [⟨session.filename, (recordedLines members session).length⟩] else []) ++
  if session.durableOffset < (sessionBytes members session).length then
    [⟨session.filename, session.durableOffset⟩] else []

/-- The metadata of a session after its repairs. -/
def updateTorn (decoder : Decoder) (members : SegmentDir) (m : SegmentMetadata)
    (session : SessionMetadata) : SegmentMetadata :=
  if IsTorn members session then
    updateSession m session.session (recordedLines members session).length
      ((idsRead decoder members session).getLast?.getD 0)
  else m

section Session

variable {decoder : Decoder} {members : SegmentDir} {session : SessionMetadata}

theorem recordedPart_length (h : session.durableOffset ≤ (sessionBytes members session).length) :
    (recordedPart members session).length = session.durableOffset := by
  rw [recordedPart, List.length_take, Nat.min_eq_left h]

theorem isTorn_iff (h : session.durableOffset ≤ (sessionBytes members session).length) :
    IsTorn members session ↔ ¬ Complete newline (recordedPart members session) := by
  have hle := (@completePart_isPrefix _ _ newline (recordedPart members session)).length_le
  have heq : Complete newline (recordedPart members session) ↔
      (recordedLines members session).length = (recordedPart members session).length :=
    ⟨fun h => by rw [recordedLines, h], fun h => (completePart_isPrefix _).eq_of_length h⟩
  rw [heq, IsTorn, recordedPart_length h]
  rw [recordedPart_length h] at hle
  rw [recordedLines]
  omega

/-- A session's recorded bytes are its whole lines and a torn one. -/
theorem recordedPart_eq (members : SegmentDir) (session : SessionMetadata) :
    ∃ t, newline ∉ t ∧ recordedPart members session = recordedLines members session ++ t := by
  obtain ⟨lines, t, hlines, ht, heq⟩ := exists_lines newline (recordedPart members session)
  refine ⟨t, ht, ?_⟩
  rw [recordedLines, heq, (complete_flatten hlines).completePart_append ht]

theorem SessionReads.parse (h : SessionReads decoder members session) :
    parseRecordedPrefix decoder (recordedPart members session) =
      ((recordedLines members session).length, idsRead decoder members session,
        decide (IsTorn members session)) := by
  obtain ⟨lines, hread, hinc, hflat⟩ := h.lines
  obtain ⟨t, ht, hpart⟩ := recordedPart_eq members session
  have hlen := recordedPart_length h.long
  have htorn : t ≠ [] ↔ IsTorn members session := by
    rw [IsTorn, ← hlen, hpart, List.length_append, ← List.length_pos_iff]
    omega
  conv_lhs => rw [hpart, ← hflat]
  rw [parseRecordedPrefix_lines hread hinc ht, hflat]
  simp only [htorn]

/-- One round of the session loop goes on exactly when the session's file passes. -/
theorem validateSession_iff {g g' : Gathered} :
    validateSession decoder members session g = .ok g' ↔
      SessionReads decoder members session ∧
        g' =
          { updated := updateTorn decoder members g.updated session
            repairs := g.repairs ++ sessionRepairs members session
            allIds := g.allIds ++ idsRead decoder members session } := by
  constructor
  · intro h
    unfold validateSession at h
    split at h
    · rename_i bytes hfile
      have hbytes := sessionBytes_of_file hfile
      have hpart : recordedPart members session = bytes.take session.durableOffset := by
        rw [recordedPart, hbytes]
      dsimp only at h
      rcases hparse : parseRecordedPrefix decoder (bytes.take session.durableOffset) with
        ⟨offset, ids, torn⟩
      have hids : idsRead decoder members session = ids := by rw [idsRead, hpart, hparse]
      simp only [hparse] at h
      split at h
      · cases h
      · rename_i hlong
        rw [Nat.not_lt] at hlong
        have hlong' : session.durableOffset ≤ (sessionBytes members session).length := by
          rwa [hbytes]
        have hlen : (bytes.take session.durableOffset).length = session.durableOffset := by
          rw [List.length_take, Nat.min_eq_left hlong]
        split at h
        · cases h
        · rename_i hwhole
          split at h
          · cases h
          · rename_i hlast
            have hend : torn = true ∨ offset = (bytes.take session.durableOffset).length := by
              cases torn with
              | true => exact .inl rfl
              | false => exact .inr (by simpa using hwhole)
            obtain ⟨lines, hread, hinc, hflat⟩ := parseRecordedPrefix_read hparse hend
            have hlines : lines.flatten = recordedLines members session := by
              rw [hflat, recordedLines, hpart]
            obtain ⟨t, ht, htail⟩ := recordedPart_eq members session
            have hparse' : (offset, ids, torn) =
                ((recordedLines members session).length, ids, decide (t ≠ [])) := by
              rw [← hparse, ← hpart, htail, ← hlines, parseRecordedPrefix_lines hread hinc ht]
            obtain ⟨rfl, -, rfl⟩ : offset = (recordedLines members session).length ∧ True ∧
                torn = decide (t ≠ []) := by
              simpa using hparse'
            have htorn : decide (t ≠ []) = decide (IsTorn members session) := by
              have : t ≠ [] ↔ IsTorn members session := by
                rw [IsTorn, ← recordedPart_length hlong', htail, List.length_append,
                  ← List.length_pos_iff]
                omega
              simp only [this]
            rw [htorn] at h hlast
            have hreads : newline ∉ bytes.drop session.durableOffset →
                SessionReads decoder members session := fun hnew =>
              { file := by rw [hbytes]; exact hfile
                long := hlong'
                lines := ⟨lines, hids ▸ hread, hids ▸ hinc, hlines⟩
                last := fun hnot => by
                  rw [hids]
                  simpa [hnot] using hlast
                tail := by rwa [hbytes] }
            split at h
            · split at h
              · cases h
              · rename_i hmore hnew
                cases h
                refine ⟨hreads hnew, ?_⟩
                by_cases hcase : IsTorn members session
                · simp [hcase, updateTorn, sessionRepairs, hids, hbytes, hmore]
                · simp [hcase, updateTorn, sessionRepairs, hids, hbytes, hmore]
            · rename_i hmore
              cases h
              refine ⟨hreads ?_, ?_⟩
              · simp [List.drop_eq_nil_of_le (Nat.le_of_not_lt hmore)]
              · by_cases hcase : IsTorn members session
                · simp [hcase, updateTorn, sessionRepairs, hids, hbytes, hmore]
                · simp [hcase, updateTorn, sessionRepairs, hids, hbytes, hmore]
    · cases h
    · cases h
  · rintro ⟨h, rfl⟩
    have hparse := h.parse
    rw [recordedPart] at hparse
    have hlong := Nat.not_lt.mpr h.long
    have hlen : ((sessionBytes members session).take session.durableOffset).length =
        session.durableOffset := recordedPart_length h.long
    rw [validateSession, h.file]
    simp only [hparse, if_neg hlong, hlen]
    by_cases hcase : IsTorn members session
    · by_cases hmore : session.durableOffset < (sessionBytes members session).length
      · simp [hcase, hmore, h.tail, updateTorn, sessionRepairs]
      · simp [hcase, hmore, updateTorn, sessionRepairs]
    · have hoffset : (recordedLines members session).length = session.durableOffset := by
        have hle := (@completePart_isPrefix _ _ newline (recordedPart members session)).length_le
        rw [recordedPart_length h.long] at hle
        rw [IsTorn, recordedLines] at hcase
        rw [recordedLines]
        omega
      by_cases hmore : session.durableOffset < (sessionBytes members session).length
      · simp [hcase, hmore, hoffset, h.last hcase, h.tail, updateTorn, sessionRepairs]
      · simp [hcase, hmore, hoffset, h.last hcase, updateTorn, sessionRepairs]

/-- The session loop goes through exactly when every session's file passes. -/
theorem validateSessions_iff {sessions : List SessionMetadata} {g g' : Gathered} :
    validateSessions decoder members sessions g = .ok g' ↔
      (∀ session ∈ sessions, SessionReads decoder members session) ∧
        g' =
          { updated := sessions.foldl (updateTorn decoder members) g.updated
            repairs := g.repairs ++ sessions.flatMap (sessionRepairs members)
            allIds := g.allIds ++ sessions.flatMap (idsRead decoder members) } := by
  induction sessions generalizing g with
  | nil =>
    rw [validateSessions]
    simp [eq_comm]
  | cons session sessions ih =>
    rw [validateSessions]
    cases hfirst : validateSession decoder members session g with
    | error detail =>
      refine ⟨by rintro ⟨⟩, fun h => ?_⟩
      have := (validateSession_iff (g := g)).mpr ⟨h.1 session List.mem_cons_self, rfl⟩
      rw [hfirst] at this
      cases this
    | ok g₁ =>
      obtain ⟨hreads, rfl⟩ := validateSession_iff.mp hfirst
      dsimp only
      rw [ih]
      simp [hreads, List.append_assoc]

end Session

/-! ## The activity file -/

/-- The content of the activity file. -/
def activityBytes (members : SegmentDir) (stem : Str) : Bytes :=
  match members[OsName.str (activityFilename stem)]? with
  | some (.file bytes) => bytes
  | _ => []

/-- The whole lines among the recorded bytes of the activity file. -/
def activityLines (m : SegmentMetadata) (stem : Str) (members : SegmentDir) : Bytes :=
  completePart newline ((activityBytes members stem).take m.activityDurableOffset)

/-- The activity file passes validation: it is as long as recorded. -/
structure ActivityReads (m : SegmentMetadata) (stem : Str) (members : SegmentDir) : Prop where
  file : members[OsName.str (activityFilename stem)]? = none ∨
    members[OsName.str (activityFilename stem)]? = some (.file (activityBytes members stem))
  long : m.activityDurableOffset ≤ (activityBytes members stem).length

/-- The repair that the activity file needs. -/
def activityRepairs (m : SegmentMetadata) (stem : Str) (members : SegmentDir) : List FileRepair :=
  if (activityLines m stem members).length ≠ m.activityDurableOffset ∨
      m.activityDurableOffset < (activityBytes members stem).length then
    [⟨activityFilename stem, (activityLines m stem members).length⟩]
  else []

section Activity

variable {m : SegmentMetadata} {stem : Str} {members : SegmentDir} {g g' : Gathered}

theorem validateActivity_iff (hg : g.updated.activityDurableOffset = m.activityDurableOffset) :
    validateActivity m stem members g = .ok g' ↔
      ActivityReads m stem members ∧
        g' =
          { g with
            updated :=
              { g.updated with activityDurableOffset := (activityLines m stem members).length }
            repairs := g.repairs ++ activityRepairs m stem members } := by
  cases hfile : members[OsName.str (activityFilename stem)]? with
  | none =>
    have hbytes : activityBytes members stem = [] := by rw [activityBytes, hfile]
    have hlines : activityLines m stem members = [] := by simp [activityLines, hbytes]
    have hreads : ActivityReads m stem members ↔ m.activityDurableOffset = 0 :=
      ⟨fun h => by simpa [hbytes] using h.long, fun h => ⟨.inl hfile, by omega⟩⟩
    rw [validateActivity, hfile, hreads]
    by_cases hzero : m.activityDurableOffset = 0
    · have hsame : { g with
          updated :=
            { g.updated with activityDurableOffset := (activityLines m stem members).length }
          repairs := g.repairs ++ activityRepairs m stem members } = g := by
        have hoffset : (activityLines m stem members).length = m.activityDurableOffset := by
          rw [hlines, hzero, List.length_nil]
        have hcase : ¬ ((activityLines m stem members).length ≠ m.activityDurableOffset ∨
            m.activityDurableOffset < (activityBytes members stem).length) := by
          simp [hoffset, hbytes]
        rw [activityRepairs, if_neg hcase, List.append_nil, hoffset, ← hg]
      rw [hsame]
      simp [hzero, eq_comm]
    · simp [hzero]
  | some node =>
    cases node with
    | directory n =>
      have hnot : ¬ ActivityReads m stem members := fun h => by
        rcases h.file with h | h <;> rw [hfile] at h <;> cases h
      rw [validateActivity, hfile]
      simp [hnot]
    | special n =>
      have hnot : ¬ ActivityReads m stem members := fun h => by
        rcases h.file with h | h <;> rw [hfile] at h <;> cases h
      rw [validateActivity, hfile]
      simp [hnot]
    | file bytes =>
      have hbytes : activityBytes members stem = bytes := by rw [activityBytes, hfile]
      have hreads : ActivityReads m stem members ↔ m.activityDurableOffset ≤ bytes.length :=
        ⟨fun h => hbytes ▸ h.long, fun h => ⟨.inr (by rw [hbytes, hfile]), by rwa [hbytes]⟩⟩
      have hoffset : repairedActivityOffset (bytes.take m.activityDurableOffset) =
          (activityLines m stem members).length := by
        rw [repairedActivityOffset, activityLines, hbytes]
      rw [validateActivity, hfile, hreads]
      simp only [hoffset]
      by_cases hlong : bytes.length < m.activityDurableOffset
      · simp [hlong]
      · rw [if_neg hlong]
        have hle := Nat.le_of_not_lt hlong
        by_cases hcase : (activityLines m stem members).length ≠ m.activityDurableOffset ∨
            m.activityDurableOffset < bytes.length
        · have hcond : (decide ((activityLines m stem members).length ≠ m.activityDurableOffset) ||
              decide (m.activityDurableOffset < bytes.length)) = true := by simpa using hcase
          rw [if_pos hcond, activityRepairs, hbytes, if_pos hcase]
          simp [hle, eq_comm]
        · have hcond : ¬ (decide ((activityLines m stem members).length ≠
              m.activityDurableOffset) || decide (m.activityDurableOffset < bytes.length)) =
                true := by simpa using hcase
          have hsame : { g with
              updated :=
                { g.updated with activityDurableOffset := (activityLines m stem members).length }
              repairs := g.repairs ++ activityRepairs m stem members } = g := by
            rw [activityRepairs, hbytes, if_neg hcase, List.append_nil]
            rw [not_or, not_not] at hcase
            rw [hcase.1, ← hg]
          rw [if_neg hcond, hsame]
          simp [hle, eq_comm]

end Activity

/-! ## All files -/

/-- What the loops of `validateFiles` gather from files that pass. -/
def gathered (decoder : Decoder) (m : SegmentMetadata) (stem : Str) (members : SegmentDir) :
    Gathered :=
  { updated :=
      { m.sessions.vals.foldl (updateTorn decoder members) m with
        activityDurableOffset := (activityLines m stem members).length }
    repairs := m.sessions.vals.flatMap (sessionRepairs members) ++ activityRepairs m stem members
    allIds := m.sessions.vals.flatMap (idsRead decoder members) }

/-- Every member passes validation, and so does every file that is expected. -/
structure FilesRead (decoder : Decoder) (listing : Listing) (members : SegmentDir)
    (m : SegmentMetadata) (stem : Str) : Prop where
  scan : scanMembers m stem members (listing.order members) = none
  sessions : ∀ session ∈ m.sessions.vals, SessionReads decoder members session
  activity : ActivityReads m stem members

theorem updateSession_activity (m : SegmentMetadata) (session : Str) (offset lastId : ℕ) :
    (updateSession m session offset lastId).activityDurableOffset = m.activityDurableOffset := by
  unfold updateSession
  split <;> rfl

theorem foldl_updateTorn_activity (decoder : Decoder) (members : SegmentDir)
    (sessions : List SessionMetadata) (m : SegmentMetadata) :
    (sessions.foldl (updateTorn decoder members) m).activityDurableOffset =
      m.activityDurableOffset := by
  induction sessions generalizing m with
  | nil => rfl
  | cons session sessions ih =>
    rw [List.foldl_cons, ih, updateTorn]
    split
    · exact updateSession_activity _ _ _ _
    · rfl

/-- Validation of files that pass comes down to the test of the ids. -/
theorem validateFiles_of_read {decoder : Decoder} {listing : Listing} {members : SegmentDir}
    {m : SegmentMetadata} {stem : Str} (hdir : segmentStem m.incompleteDir = stem)
    (h : FilesRead decoder listing members m stem) :
    validateFiles decoder listing members m = validateIds m (gathered decoder m stem members) := by
  have hsessions := (validateSessions_iff (g := { updated := m, repairs := [], allIds := [] })).mpr
    ⟨h.sessions, rfl⟩
  rw [validateFiles, hdir]
  simp only [h.scan, hsessions]
  let g : Gathered :=
    { updated := m.sessions.vals.foldl (updateTorn decoder members) m
      repairs := [] ++ m.sessions.vals.flatMap (sessionRepairs members)
      allIds := [] ++ m.sessions.vals.flatMap (idsRead decoder members) }
  have hactivity := (@validateActivity_iff m stem members g _
    (foldl_updateTorn_activity decoder members m.sessions.vals m)).mpr ⟨h.activity, rfl⟩
  rw [hactivity]
  rfl

/-- Files that do not pass contradict the metadata. -/
theorem filesRead_of_validateFiles {decoder : Decoder} {listing : Listing} {members : SegmentDir}
    {m : SegmentMetadata} {stem : Str} (hdir : segmentStem m.incompleteDir = stem)
    (h : (validateFiles decoder listing members m).kind ≠ .contradictory) :
    FilesRead decoder listing members m stem := by
  unfold validateFiles at h
  rw [hdir] at h
  dsimp only at h
  split at h
  · exact absurd rfl h
  · rename_i hscan
    split at h
    · exact absurd rfl h
    · rename_i g hsessions
      obtain ⟨hreads, rfl⟩ := validateSessions_iff.mp hsessions
      split at h
      · exact absurd rfl h
      · rename_i g' hactivity
        exact ⟨hscan, hreads, ((validateActivity_iff
          (foldl_updateTorn_activity decoder members m.sessions.vals m)).mp hactivity).1⟩

end SolstoneTmux
