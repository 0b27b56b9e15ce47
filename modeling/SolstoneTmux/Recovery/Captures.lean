import SolstoneTmux.Foundations.Collect
import SolstoneTmux.Recovery.Recover
import SolstoneTmux.Sync.Candidate

/-!
# Startup recovery of every stream

`recoverCaptureStreams` looks under every capture date and recovers every stream directory that it
finds there. It reads the name of such a directory as an identity and goes to the component that it
derives from it (`streamVisit`), which has to exist.

`recoverPaths_iff` says when the uninterrupted pass comes to its end, and `streamAt_recoverPaths`
what it has then done to each stream: the streams do not touch each other.
-/

namespace SolstoneTmux

open Foundations Foundations.Prog

/-- The captures directory, which may be missing. -/
abbrev CapturesRoot := Option (Node Contents (Captures Bytes))

/-- A stream directory: its date and its name. -/
structure StreamPath where
  date : Str
  stream : Str
  deriving DecidableEq

/-- The path of a stream below the captures directory. -/
def StreamPath.path (p : StreamPath) : RelPath := [.str p.date, .str p.stream]

/-- `RecoveryError`, as far as the pass over the streams raises it itself. -/
inductive CaptureRecoveryError
  | specialTarget (path : RelPath)
  | escapesDataRoot (path : RelPath)
  | io (operation : String) (path : RelPath) (source : IoKind)
  | inStream (path : RelPath) (error : RecoveryError)

/-- A program over the captures directory. -/
abbrev CaptureProg (α : Type) := Prog CapturesRoot Turn CaptureRecoveryError α

/-! ## Finding the streams -/

/-- `valid_date_name`. -/
def validDateName (value : Str) : Bool :=
  value.length = 8 && value.all isDigit &&
    (Date.fromCalendarDate (digitsValue (value.take 4)) (digitsValue ((value.drop 4).take 2))
      (digitsValue (value.drop 6))).isSome

theorem validDateName_eq (value : Str) : validDateName value = (parseDay value).isSome := by
  rw [validDateName, parseDay]
  split
  · rename_i h
    rw [h, Bool.true_and]
  · rename_i h
    rw [Bool.not_eq_true] at h
    rw [h]
    rfl

/-- The directory that is recovered for an entry of a date. -/
def streamVisit (date : Str) (entry : OsName × Node Contents StreamDir) : Option StreamPath :=
  match entry.1.toStr with
  | none => none
  | some name =>
    match deriveComponent name with
    | .error _ => none
    | .ok stream => if entry.2.isFile then none else some ⟨date, stream.asStr⟩

/-- The directories that are recovered for an entry of the captures directory. -/
def dateVisits (entry : OsName × Node Contents (DayFiles Bytes)) :
    Except CaptureRecoveryError (List StreamPath) :=
  match entry.1.toStr with
  | none => .ok []
  | some date =>
    if !validDateName date then .ok []
    else
      match entry.2 with
      | .directory streams => .ok (streams.toList.filterMap (streamVisit date))
      | _ => .error (.specialTarget [entry.1])

/-- The order of paths. -/
def StreamPath.le (p q : StreamPath) : Bool :=
  if p.date = q.date then strLe p.stream q.stream else strLe p.date q.date

/-- The directories that are recovered, in the order of the recovery. -/
def streamDirectories (captures : Captures Bytes) :
    Except CaptureRecoveryError (List StreamPath) :=
  (collect dateVisits captures.toList).map (·.insertionSort (StreamPath.le · ·))

/-! ## Recovering them -/

/-- What stands at the path of a stream. -/
def streamAt (root : CapturesRoot) (p : StreamPath) : Option (Node Contents StreamDir) :=
  match root with
  | some (.directory captures) =>
    match captures[OsName.str p.date]? with
    | some (.directory streams) => streams[OsName.str p.stream]?
    | _ => none
  | _ => none

/-- The content of a stream's directory. -/
def streamContents (p : StreamPath) (root : CapturesRoot) : StreamDir :=
  match streamAt root p with
  | some (.directory contents) => contents
  | _ => ∅

/-- The captures directory with the content of a stream's directory replaced. -/
def withContents (p : StreamPath) (contents : StreamDir) (root : CapturesRoot) : CapturesRoot :=
  match root with
  | some (.directory captures) =>
    match captures[OsName.str p.date]? with
    | some (.directory streams) =>
      some (.directory (captures.insert (.str p.date)
        (.directory (streams.insert (.str p.stream) (.directory contents)))))
    | _ => root
  | _ => root

section Recover

variable (decoder : Decoder) (listing : Listing) (segmentInterval : ℕ)

/-- `recover_stream_inner` on a path: `validate_stream` wants a directory there. -/
def recoverAt (p : StreamPath) : CaptureProg (List RecoveryRecord) :=
  (query fun root => match streamAt root p with
    | none => .error .notFound
    | some node => .ok node.isDir).bind fun inspected =>
  (orRaise (.io "inspect stream directory" p.path) inspected).bind fun isDir =>
  if !isDir then raise (.escapesDataRoot p.path)
  else
    ((recoverStream decoder listing .default segmentInterval).zoom (streamContents p)
      (withContents p)).rethrow (.inStream p.path)

/-- The loop of `recover_capture_streams` over the stream directories. -/
def recoverPaths : List StreamPath → CaptureProg (List RecoveryRecord)
  | [] => done []
  | p :: paths =>
    (recoverAt decoder listing segmentInterval p).bind fun records =>
    (recoverPaths paths).bind fun more =>
    done (records ++ more)

/-- `recover_capture_streams`. -/
def recoverCaptureStreams : CaptureProg (List RecoveryRecord) :=
  (query fun root => .ok root).bind fun inspected =>
  (orRaise (.io "inspect captures directory" []) inspected).bind fun root =>
  match root with
  | none => done []
  | some (.directory captures) =>
    (query fun _ => .ok (streamDirectories captures)).bind fun scanned =>
    (orRaise (.io "scan capture streams" []) scanned).bind fun found =>
    (orRaise id found).bind fun paths =>
    recoverPaths decoder listing segmentInterval paths
  | some _ => raise (.specialTarget [])

/-! ## The uninterrupted pass -/

variable {decoder listing segmentInterval} {root : CapturesRoot} {p q : StreamPath}
  {contents : StreamDir}

theorem streamContents_of_streamAt (h : streamAt root p = some (.directory contents)) :
    streamContents p root = contents := by
  rw [streamContents, h]

/-- A stream directory stands in a directory of its date. -/
theorem exists_of_streamAt {node : Node Contents StreamDir} (h : streamAt root p = some node) :
    ∃ captures streams, root = some (.directory captures) ∧
      captures[OsName.str p.date]? = some (.directory streams) ∧
      streams[OsName.str p.stream]? = some node := by
  unfold streamAt at h
  split at h
  · split at h
    · exact ⟨_, _, rfl, ‹_›, h⟩
    · cases h
  · cases h

theorem streamAt_withContents (h : streamAt root p = some (.directory contents))
    (other : StreamDir) :
    streamAt (withContents p other root) p = some (.directory other) := by
  obtain ⟨captures, streams, rfl, hdate, -⟩ := exists_of_streamAt h
  simp only [withContents, hdate, streamAt, Table.get_insert_self]

theorem streamAt_withContents_of_ne (hne : p ≠ q) (other : StreamDir) :
    streamAt (withContents p other root) q = streamAt root q := by
  unfold withContents
  split
  · split
    · rename_i captures streams hdate
      by_cases hsame : p.date = q.date
      · have hstream : OsName.str p.stream ≠ OsName.str q.stream := by
          intro hstream
          cases p
          cases q
          injection hstream with hstream
          exact hne (by rw [StreamPath.mk.injEq]; exact ⟨hsame, hstream⟩)
        simp only [streamAt, ← hsame, Table.get_insert_self, hdate, Table.get_insert_ne hstream]
      · have hdates : OsName.str p.date ≠ OsName.str q.date := by
          intro hdates
          injection hdates with hdates
          exact hsame hdates
        simp only [streamAt, Table.get_insert_ne hdates]
    · rfl
  · rfl

theorem withContents_withContents (a b : StreamDir) :
    withContents p a (withContents p b root) = withContents p a root := by
  rw [withContents.eq_def p b]
  split
  · split
    · rename_i captures streams hdate
      simp only [withContents, Table.get_insert_self, hdate, Table.insert_insert]
    · rfl
  · rfl

theorem withContents_self (h : streamAt root p = some (.directory contents)) :
    withContents p contents root = root := by
  obtain ⟨captures, streams, rfl, hdate, hstream⟩ := exists_of_streamAt h
  simp only [withContents, hdate, Table.insert_of_get hstream, Table.insert_of_get hdate]

/-- Recovery of the directory that a path leads to. -/
theorem run_recoverAt (h : streamAt root p = some (.directory contents)) :
    run [] (recoverAt decoder listing segmentInterval p) root =
      (mapRaised (.inStream p.path)
        (run [] (recoverStream decoder listing .default segmentInterval) contents).1,
      withContents p (run [] (recoverStream decoder listing .default segmentInterval) contents).2
        root) := by
  have hzoom := @run_zoom _ _ _ _ _ _ (streamContents p) (withContents p) root
    (fun s => streamContents_of_streamAt (streamAt_withContents h s))
    (fun a b => withContents_withContents a b) []
    (recoverStream decoder listing .default segmentInterval) contents
  rw [withContents_self h] at hzoom
  rw [recoverAt]
  simp only [run_bind, run_query, quietThen_done, h, Node.isDir, orRaise_ok, run_done,
    Bool.not_true, Bool.false_eq_true, if_false, run_rethrow, hzoom]

/-- A path that leads to no directory is an error. -/
theorem run_recoverAt_of_not_directory
    (h : ∀ contents, streamAt root p ≠ some (.directory contents)) :
    ∃ error, run [] (recoverAt decoder listing segmentInterval p) root = (.raised error, root) := by
  rw [recoverAt]
  cases hat : streamAt root p with
  | none =>
    exact ⟨_, by simp only [run_bind, run_query, quietThen_done, hat, orRaise_error, run_raise,
      quietThen_raised]; rfl⟩
  | some node =>
    cases node with
    | directory contents => exact absurd hat (h contents)
    | file content =>
      exact ⟨_, by simp only [run_bind, run_query, quietThen_done, hat, Node.isDir, orRaise_ok,
        run_done, Bool.not_false, if_true, run_raise]; rfl⟩
    | special length =>
      exact ⟨_, by simp only [run_bind, run_query, quietThen_done, hat, Node.isDir, orRaise_ok,
        run_done, Bool.not_false, if_true, run_raise]; rfl⟩

/-- The recovery of a stream comes to its end. -/
def StreamRecovers (decoder : Decoder) (listing : Listing) (segmentInterval : ℕ)
    (contents : StreamDir) : Prop :=
  ∃ records, (run [] (recoverStream decoder listing .default segmentInterval) contents).1 =
    .done records

theorem recoverAt_iff :
    (∃ records, (run [] (recoverAt decoder listing segmentInterval p) root).1 = .done records) ↔
      ∃ contents, streamAt root p = some (.directory contents) ∧
        StreamRecovers decoder listing segmentInterval contents := by
  by_cases h : ∃ contents, streamAt root p = some (.directory contents)
  · obtain ⟨contents, hat⟩ := h
    rw [run_recoverAt hat, hat]
    simp only [Option.some.injEq, Node.directory.injEq, exists_eq_left', StreamRecovers]
    cases (run [] (recoverStream decoder listing .default segmentInterval) contents).1 <;>
      simp [mapRaised]
  · rw [not_exists] at h
    obtain ⟨error, herror⟩ :=
      @run_recoverAt_of_not_directory decoder listing segmentInterval root p h
    rw [herror]
    refine iff_of_false nofun ?_
    rintro ⟨contents, hat, -⟩
    exact h contents hat

theorem streamAt_recoverAt_of_ne (hne : p ≠ q) :
    streamAt (run [] (recoverAt decoder listing segmentInterval p) root).2 q =
      streamAt root q := by
  by_cases h : ∃ contents, streamAt root p = some (.directory contents)
  · obtain ⟨contents, hat⟩ := h
    rw [run_recoverAt hat]
    exact streamAt_withContents_of_ne hne _
  · rw [not_exists] at h
    obtain ⟨error, herror⟩ :=
      @run_recoverAt_of_not_directory decoder listing segmentInterval root p h
    rw [herror]

/-- The pass over different directories comes to its end when the recovery of each does. -/
theorem recoverPaths_iff {paths : List StreamPath} (hnodup : paths.Nodup) :
    (∃ records, (run [] (recoverPaths decoder listing segmentInterval paths) root).1 =
        .done records) ↔
      ∀ p ∈ paths, ∃ contents, streamAt root p = some (.directory contents) ∧
        StreamRecovers decoder listing segmentInterval contents := by
  induction paths generalizing root with
  | nil => exact iff_of_true ⟨[], rfl⟩ fun p hp => absurd hp List.not_mem_nil
  | cons p paths ih =>
    rw [List.nodup_cons] at hnodup
    have hrest : ∀ q ∈ paths,
        streamAt (run [] (recoverAt decoder listing segmentInterval p) root).2 q =
          streamAt root q :=
      fun q hq => streamAt_recoverAt_of_ne (ne_of_mem_of_not_mem hq hnodup.1).symm
    rw [List.forall_mem_cons, ← recoverAt_iff, recoverPaths, run_bind]
    cases hfirst : run [] (recoverAt decoder listing segmentInterval p) root with
    | mk e root' =>
      cases e with
      | raised e => simp
      | killed => simp
      | done records =>
        rw [hfirst] at hrest
        have hmore := @ih root' hnodup.2
        simp only [quietThen_done, run_bind, Ended.done.injEq, exists_eq', true_and]
        refine (Iff.trans ?_ hmore).trans
          (forall_congr' fun q => imp_congr_right fun hq => by rw [hrest q hq])
        cases run [] (recoverPaths decoder listing segmentInterval paths) root' with
        | mk e root'' => cases e <;> simp

theorem streamAt_recoverPaths_of_not_mem {paths : List StreamPath} (hnot : p ∉ paths) :
    streamAt (run [] (recoverPaths decoder listing segmentInterval paths) root).2 p =
      streamAt root p := by
  induction paths generalizing root with
  | nil => rfl
  | cons q paths ih =>
    rw [List.mem_cons, not_or] at hnot
    have hfirst := @streamAt_recoverAt_of_ne decoder listing segmentInterval root q p
      (Ne.symm hnot.1)
    rw [recoverPaths, run_bind]
    cases hrun : run [] (recoverAt decoder listing segmentInterval q) root with
    | mk e root' =>
      rw [hrun] at hfirst
      cases e with
      | raised e => exact hfirst
      | killed => exact hfirst
      | done found =>
        have hlater := @ih root' hnot.2
        rw [quietThen_done, run_bind]
        cases hrest : run [] (recoverPaths decoder listing segmentInterval paths) root' with
        | mk e root'' =>
          rw [hrest] at hlater
          cases e <;> exact hlater.trans hfirst

/-- What the pass has done to a stream when it comes to its end. -/
theorem streamAt_recoverPaths {paths : List StreamPath} (hnodup : paths.Nodup)
    {records : List RecoveryRecord}
    (hdone : (run [] (recoverPaths decoder listing segmentInterval paths) root).1 = .done records)
    (hp : p ∈ paths) (h : streamAt root p = some (.directory contents)) :
    streamAt (run [] (recoverPaths decoder listing segmentInterval paths) root).2 p =
      some (.directory
        (run [] (recoverStream decoder listing .default segmentInterval) contents).2) := by
  induction paths generalizing root records with
  | nil => exact absurd hp List.not_mem_nil
  | cons q paths ih =>
    rw [List.nodup_cons] at hnodup
    rw [recoverPaths, run_bind] at hdone ⊢
    cases hrun : run [] (recoverAt decoder listing segmentInterval q) root with
    | mk e root' =>
      rw [hrun] at hdone
      cases e with
      | raised e => cases hdone
      | killed => cases hdone
      | done found =>
        rw [quietThen_done, run_bind] at hdone ⊢
        cases hrest : run [] (recoverPaths decoder listing segmentInterval paths) root' with
        | mk e root'' =>
          rw [hrest] at hdone
          cases e with
          | raised e => cases hdone
          | killed => cases hdone
          | done more =>
            rw [quietThen_done, run_done]
            by_cases hq : p = q
            · subst hq
              have hkept := @streamAt_recoverPaths_of_not_mem decoder listing segmentInterval
                root' _ _ hnodup.1
              rw [run_recoverAt h] at hrun
              have hroot : withContents p _ root = root' := congrArg Prod.snd hrun
              rw [hrest] at hkept
              exact hkept.trans (hroot ▸ streamAt_withContents h _)
            · have hmem : p ∈ paths := (List.mem_cons.mp hp).resolve_left hq
              have hat := @streamAt_recoverAt_of_ne decoder listing segmentInterval root _ p
                (Ne.symm hq)
              rw [hrun] at hat
              have hlater := @ih root' hnodup.2 _ (congrArg Prod.fst hrest) hmem
                (hat.trans h)
              rw [hrest] at hlater
              exact hlater

/-! ## The directories that are visited -/

variable {captures : Captures Bytes} {paths : List StreamPath}

/-- The path that is derived from an entry. -/
theorem streamVisit_eq_some {date : Str} {name : OsName} {node : Node Contents StreamDir} :
    streamVisit date (name, node) = some p ↔ p.date = date ∧ node.isFile = false ∧
      ∃ text stream, name = .str text ∧ deriveComponent text = .ok stream ∧
        stream.asStr = p.stream := by
  cases name with
  | nonUtf8 bytes => simp [streamVisit, OsName.toStr]
  | str text =>
    cases hderive : deriveComponent text with
    | error e => simp [streamVisit, hderive]
    | ok stream =>
      obtain ⟨pdate, pstream⟩ := p
      cases hfile : node.isFile <;> simp [streamVisit, hderive, hfile, eq_comm]

/-- The scan refuses a date that is not a directory, and nothing else. -/
theorem exists_streamDirectories_iff :
    (∃ paths, streamDirectories captures = .ok paths) ↔
      ∀ date node, captures[OsName.str date]? = some node → validDateName date = true →
        node.isDir = true := by
  have hentries : (∃ paths, streamDirectories captures = .ok paths) ↔
      ∃ paths, collect dateVisits captures.toList = .ok paths := by
    rw [streamDirectories]
    cases collect dateVisits captures.toList <;> simp [Except.map]
  rw [hentries, exists_collect_iff]
  constructor
  · intro h date node hget hvalid
    obtain ⟨found, hfound⟩ := h (.str date, node) (Table.mem_toList.mpr hget)
    cases node with
    | directory streams => rfl
    | file content => simp [dateVisits, hvalid] at hfound
    | special length => simp [dateVisits, hvalid] at hfound
  · intro h entry hentry
    obtain ⟨name, node⟩ := entry
    cases name with
    | nonUtf8 bytes => exact ⟨[], rfl⟩
    | str date =>
      by_cases hvalid : validDateName date = true
      · have hdir := h date node (Table.mem_toList.mp hentry) hvalid
        cases node with
        | directory streams => exact ⟨_, by simp [dateVisits, hvalid]; rfl⟩
        | file content => cases hdir
        | special length => cases hdir
      · exact ⟨[], by simp [dateVisits, hvalid]⟩

/-- The directories that are visited are those of the dates' entries. -/
theorem mem_streamDirectories (h : streamDirectories captures = .ok paths) :
    p ∈ paths ↔ ∃ streams name node, captures[OsName.str p.date]? = some (.directory streams) ∧
      validDateName p.date = true ∧ streams[name]? = some node ∧
      streamVisit p.date (name, node) = some p := by
  rw [streamDirectories] at h
  cases hcollect : collect dateVisits captures.toList with
  | error e =>
    rw [hcollect] at h
    cases h
  | ok found =>
    rw [hcollect] at h
    injection h with h
    rw [← h, List.mem_insertionSort, mem_collect hcollect]
    constructor
    · rintro ⟨⟨date, node⟩, hentry, hgiven⟩
      cases date with
      | nonUtf8 bytes => cases hgiven
      | str date =>
        by_cases hvalid : validDateName date = true
        · cases node with
          | directory streams =>
            simp only [dateVisits, OsName.toStr_str, hvalid, Bool.not_true, Bool.false_eq_true,
              if_false, given, List.mem_filterMap] at hgiven
            obtain ⟨⟨name, node⟩, hmem, hvisit⟩ := hgiven
            obtain rfl : p.date = date := (streamVisit_eq_some.mp hvisit).1
            exact ⟨streams, name, node, Table.mem_toList.mp hentry, hvalid,
              Table.mem_toList.mp hmem, hvisit⟩
          | file content => simp [dateVisits, hvalid, given] at hgiven
          | special length => simp [dateVisits, hvalid, given] at hgiven
        · simp [dateVisits, hvalid, given] at hgiven
    · rintro ⟨streams, name, node, hdate, hvalid, hmem, hvisit⟩
      refine ⟨(.str p.date, .directory streams), Table.mem_toList.mpr hdate, ?_⟩
      simp only [dateVisits, OsName.toStr_str, hvalid, Bool.not_true, Bool.false_eq_true,
        if_false, given, List.mem_filterMap]
      exact ⟨(name, node), Table.mem_toList.mpr hmem, hvisit⟩

/-- No directory is visited twice: distinct names have distinct components. -/
theorem nodup_streamDirectories (h : streamDirectories captures = .ok paths) : paths.Nodup := by
  rw [streamDirectories] at h
  cases hcollect : collect dateVisits captures.toList with
  | error e =>
    rw [hcollect] at h
    cases h
  | ok found =>
    rw [hcollect] at h
    injection h with h
    rw [← h, (List.perm_insertionSort _ _).nodup_iff]
    have hdate : ∀ (name : OsName) (node : Node Contents (DayFiles Bytes)) (q : StreamPath),
        q ∈ given (dateVisits (name, node)) → name = .str q.date := by
      intro name node q hq
      cases name with
      | nonUtf8 bytes => cases hq
      | str date =>
        cases node with
        | file content => by_cases hv : validDateName date = true <;> simp [dateVisits, hv, given] at hq
        | special length => by_cases hv : validDateName date = true <;> simp [dateVisits, hv, given] at hq
        | directory streams =>
          by_cases hv : validDateName date = true
          · simp only [dateVisits, OsName.toStr_str, hv, Bool.not_true, Bool.false_eq_true,
              if_false, given, List.mem_filterMap] at hq
            obtain ⟨⟨other, node⟩, -, hvisit⟩ := hq
            rw [(streamVisit_eq_some.mp hvisit).1]
          · simp [dateVisits, hv, given] at hq
    refine nodup_collect hcollect ?_ ?_
    · rintro ⟨name, node⟩ -
      cases name with
      | nonUtf8 bytes => exact List.nodup_nil
      | str date =>
        by_cases hv : validDateName date = true
        · cases node with
          | directory streams =>
            simp only [dateVisits, OsName.toStr_str, hv, Bool.not_true, Bool.false_eq_true,
              if_false, given]
            refine List.pairwise_filterMap.mpr
              ((List.pairwise_map.mp (Table.nodup_keys streams)).imp ?_)
            rintro ⟨name, node⟩ ⟨name', node'⟩ hne q hq q' hq' rfl
            obtain ⟨-, -, text, stream, rfl, hderive, hstream⟩ := streamVisit_eq_some.mp hq
            obtain ⟨-, -, text', stream', rfl, hderive', hstream'⟩ := streamVisit_eq_some.mp hq'
            refine hne (congrArg OsName.str ?_)
            exact deriveComponent_injective hderive hderive' (hstream.trans hstream'.symm)
          | file content => simp [dateVisits, hv, given]
          | special length => simp [dateVisits, hv, given]
        · simp [dateVisits, hv, given]
    · refine (List.pairwise_map.mp (Table.nodup_keys captures)).imp ?_
      rintro ⟨name, node⟩ ⟨name', node'⟩ hne q hq hq'
      exact hne ((hdate name node q hq).trans (hdate name' node' q hq').symm)

/-- When the uninterrupted pass comes to its end. -/
def CapturesRecover (decoder : Decoder) (listing : Listing) (segmentInterval : ℕ)
    (captures : Captures Bytes) : Prop :=
  ∃ records, (run [] (recoverCaptureStreams decoder listing segmentInterval)
    (some (.directory captures))).1 = .done records

theorem run_recoverCaptureStreams (h : streamDirectories captures = .ok paths) :
    run [] (recoverCaptureStreams decoder listing segmentInterval) (some (.directory captures)) =
      run [] (recoverPaths decoder listing segmentInterval paths) (some (.directory captures)) := by
  simp only [recoverCaptureStreams, run_bind, run_query, quietThen_done, orRaise_ok, run_done, h]

/-- The pass comes to its end when every date is a directory, every path that is visited leads to a
directory, and the recovery of each does. -/
theorem capturesRecover_iff :
    CapturesRecover decoder listing segmentInterval captures ↔
      ∃ paths, streamDirectories captures = .ok paths ∧ ∀ p ∈ paths, ∃ contents,
        streamAt (some (.directory captures)) p = some (.directory contents) ∧
          StreamRecovers decoder listing segmentInterval contents := by
  rw [CapturesRecover]
  cases h : streamDirectories captures with
  | error e =>
    refine iff_of_false ?_ nofun
    rintro ⟨records, hrecords⟩
    simp only [recoverCaptureStreams, run_bind, run_query, quietThen_done, orRaise_ok, run_done, h,
      orRaise_error, run_raise, quietThen_raised] at hrecords
    cases hrecords
  | ok paths =>
    rw [run_recoverCaptureStreams h, recoverPaths_iff (nodup_streamDirectories h)]
    simp only [Except.ok.injEq, exists_eq_left']

end Recover

end SolstoneTmux
