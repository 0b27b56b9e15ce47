import SolstoneTmux.Poll
import SolstoneTmux.Rotation
import SolstoneTmux.SegmentOwners

/-!
# Runs of the segment manager

A `ManagerRun` is the stream of a process that polls, rotates, shuts down, ends anywhere and is
started again, with the list of what it reported as appended. Closing a segment and creating the next
one meet any failure, and the process may end before any of their calls and between any two
operations. `Managed` is the invariant, and `manager_delivers` says what startup recovery makes of the
stream: every frame and every line of activity that was reported is in the closed segment of its place.

Appends are those whose calls work, and the directory of a day can be listed. A replacement that is
stopped before its rename leaves its temporary file, at any time in a run (`ManagerStep.left`).
-/

namespace SolstoneTmux

open Foundations Foundations.Prog SegmentLog

/-! ## What was reported -/

/-- What an append added. -/
inductive Appended
  | frame (frame : Frame)
  | activity (bytes : Bytes)

/-- The log with what an append added. -/
def Appended.addTo (log : SegmentLog) : Appended → SegmentLog
  | frame f => log.addFrame f
  | activity bytes => log.addActivity bytes

/-- The log of the segment of a place. -/
def logOf (reports : List (Opening × Appended)) (place : Opening) : SegmentLog :=
  ((reports.filter fun report => report.1 = place).map Prod.snd).foldl Appended.addTo .empty

theorem logOf_append_self (reports : List (Opening × Appended)) (place : Opening) (a : Appended) :
    logOf (reports ++ [(place, a)]) place = a.addTo (logOf reports place) := by
  simp [logOf]

theorem logOf_append_ne {reports : List (Opening × Appended)} {place other : Opening}
    (h : other ≠ place) (a : Appended) :
    logOf (reports ++ [(other, a)]) place = logOf reports place := by
  simp [logOf, h]

/-! ## Runs -/

/-- What the manager is doing: it waits for the next poll or for its shutdown, or it is in a poll and
has closed the segment, or it appends what is left of the poll. -/
inductive Control
  | stopped
  | waiting (place : Opening) (seg : SegmentState)
  | rotating (place : Opening) (seg : SegmentState) (captures : List CaptureResult) (activity : Bytes)
  | appending (place : Opening) (seg : SegmentState) (timestamp : F64Text)
    (captures : List CaptureResult) (activity : Bytes)

namespace Control

/-- After `finalize` in `SegmentManager::process_poll`. -/
def afterClosing (place : Opening) (captures : List CaptureResult) (activity : Bytes) :
    Ended Empty (SegmentState × Except SegmentError SegmentClose) → Control
  | .done (seg, .ok _) => rotating place seg captures activity
  | .done (seg, .error _) => waiting place seg
  | .raised _ | .killed => stopped

/-- After `open_segment` in `SegmentManager::process_poll`; `old` is the segment before it. -/
def afterOpening (old : Opening × SegmentState) (place : Opening) (timestamp : F64Text)
    (captures : List CaptureResult) (activity : Bytes) : Ended SegmentError SegmentState → Control
  | .done seg => appending place seg timestamp captures activity
  | .raised _ => waiting old.1 old.2
  | .killed => stopped

/-- After `SegmentManager::start`. -/
def afterStart (place : Opening) : Ended SegmentError SegmentState → Control
  | .done seg => waiting place seg
  | .raised _ | .killed => stopped

/-- After `append_capture`, with the captures that are left. -/
def afterCapture (place : Opening) (seg : SegmentState) (timestamp : F64Text)
    (captures : List CaptureResult) (activity : Bytes) : Except SegmentError AppendOutcome → Control
  | .ok _ => appending place seg timestamp captures activity
  | .error e =>
    if e.isRecoverableAppend then appending place seg timestamp captures activity
    else waiting place seg

end Control

/-- A stream and its manager, the time of the last poll, and what was reported as appended. -/
structure ManagerRun where
  tree : StreamTree
  reports : List (Opening × Appended)
  now : ℕ
  control : Control

/-- The report of `append_capture`. -/
def captureReport (place : Opening) (capture : CaptureResult) (timestamp : F64Text) :
    Except SegmentError AppendOutcome → List (Opening × Appended)
  | .ok (.appended frameId) => [(place, .frame (reportedFrame capture frameId timestamp))]
  | _ => []

/-- The report of `append_activity`. -/
def activityReport (place : Opening) (bytes : Bytes) :
    Except SegmentError Unit → List (Opening × Appended)
  | .ok () => [(place, .activity bytes)]
  | .error _ => []

/-- One step of the manager with a segment interval. A process starts at any time, and the times of
its polls do not decrease. -/
inductive ManagerStep (hash : Str → UInt64) (decoder : Decoder) (interval : ℕ) :
    ManagerRun → ManagerRun → Prop
  | started {w : ManagerRun} {entries : EntryOrder} {ts : List Turn} {wallNow : OffsetDateTime}
      {monotonicNow : ℕ} {localOffset : UtcOffset} {tz : Option Str} {start : LocalTime}
      {day stem : Str} {result : Ended SegmentError SegmentState} {d : StreamDir}
      (stops : w.control = .stopped) (starts : wallNow.toOffset localOffset = some start)
      (picked : pickName (w.tree.looks entries) start false start = .chosen day stem)
      (ran : run ts (SegmentState.create stem wallNow monotonicNow localOffset tz interval)
        (w.tree.day day) = (result, d)) :
      ManagerStep hash decoder interval w
        { w with
          tree := w.tree.insert day d
          now := monotonicNow
          control := .afterStart ⟨day, stem⟩ result }
  /-- A poll that finds the segment not due. -/
  | polled {w : ManagerRun} {place : Opening} {seg : SegmentState} {later : ℕ} {timestamp : F64Text}
      {captures : List CaptureResult} {activity : Bytes} (waits : w.control = .waiting place seg)
      (le : w.now ≤ later) (due : seg.rotationDue later interval = false)
      (lines : Complete newline activity) :
      ManagerStep hash decoder interval w
        { w with now := later, control := .appending place seg timestamp captures activity }
  /-- A poll that finds it due. -/
  | closed {w : ManagerRun} {place : Opening} {seg : SegmentState} {later : ℕ} {ts : List Turn}
      {listing : Listing} {captures : List CaptureResult} {activity : Bytes}
      {result : Ended Empty (SegmentState × Except SegmentError SegmentClose)} {d : StreamDir}
      (waits : w.control = .waiting place seg) (le : w.now ≤ later)
      (due : seg.rotationDue later interval = true) (lines : Complete newline activity)
      (ran : run ts (seg.finalize listing later) (w.tree.day place.day) = (result, d)) :
      ManagerStep hash decoder interval w
        { w with
          tree := w.tree.insert place.day d
          now := later
          control := .afterClosing place captures activity result }
  | opened {w : ManagerRun} {place : Opening} {seg : SegmentState} {captures : List CaptureResult}
      {activity : Bytes} {entries : EntryOrder} {ts : List Turn} {wallNow : OffsetDateTime}
      {localOffset : UtcOffset} {tz : Option Str} {timestamp : F64Text} {start : LocalTime}
      {day stem : Str} {result : Ended SegmentError SegmentState} {d : StreamDir}
      (rotates : w.control = .rotating place seg captures activity)
      (starts : wallNow.toOffset localOffset = some start)
      (picked : pickName (w.tree.looks entries) start false start = .chosen day stem)
      (ran : run ts (SegmentState.create stem wallNow w.now localOffset tz interval)
        (w.tree.day day) = (result, d)) :
      ManagerStep hash decoder interval w
        { w with
          tree := w.tree.insert day d
          control := .afterOpening (place, seg) ⟨day, stem⟩ timestamp captures activity result }
  | captured {w : ManagerRun} {place : Opening} {seg seg' : SegmentState} {timestamp : F64Text}
      {capture : CaptureResult} {captures : List CaptureResult} {activity : Bytes}
      {answer : Except SegmentError AppendOutcome} {d : StreamDir}
      (appends : w.control = .appending place seg timestamp (capture :: captures) activity)
      (ran : run [] (seg.appendCapture hash capture timestamp w.now : Prog _ _ Empty _)
        (w.tree.day place.day) = (.done (seg', answer), d)) :
      ManagerStep hash decoder interval w
        { w with
          tree := w.tree.insert place.day d
          reports := w.reports ++ captureReport place capture timestamp answer
          control := .afterCapture place seg' timestamp captures activity answer }
  /-- The end of a poll. -/
  | finished {w : ManagerRun} {place : Opening} {seg seg' : SegmentState} {timestamp : F64Text}
      {activity : Bytes} {answer : Except SegmentError Unit} {d : StreamDir}
      (appends : w.control = .appending place seg timestamp [] activity)
      (ran : run [] (seg.appendActivity activity w.now : Prog _ _ Empty _)
        (w.tree.day place.day) = (.done (seg', answer), d)) :
      ManagerStep hash decoder interval w
        { w with
          tree := w.tree.insert place.day d
          reports := w.reports ++ activityReport place activity answer
          control := .waiting place seg' }
  | shutdown {w : ManagerRun} {place : Opening} {seg : SegmentState} {later : ℕ} {ts : List Turn}
      {listing : Listing} {result : Ended Empty (SegmentState × Except SegmentError SegmentClose)}
      {d : StreamDir} (waits : w.control = .waiting place seg) (le : w.now ≤ later)
      (ran : run ts (seg.finalize listing later) (w.tree.day place.day) = (result, d)) :
      ManagerStep hash decoder interval w
        { w with tree := w.tree.insert place.day d, now := later, control := .stopped }
  /-- A replacement of a file, whenever it was stopped, has left its temporary file. -/
  | left {w : ManagerRun} {day target : Str} {process counter : ℕ} {content : Contents} :
      ManagerStep hash decoder interval w
        { w with
          tree := w.tree.insert day
            (leftTemporary (w.tree.day day) target process counter content) }
  /-- The process ends between two operations. -/
  | ended {w : ManagerRun} : ManagerStep hash decoder interval w { w with control := .stopped }
  | recovered {w : ManagerRun} {day : Str} {listing : Listing}
      {result : Ended RecoveryError (List RecoveryRecord)} {d : StreamDir}
      (stops : w.control = .stopped)
      (ran : run [] (recoverStream decoder listing .default interval) (w.tree.day day) =
        (result, d)) :
      ManagerStep hash decoder interval w { w with tree := w.tree.insert day d }

/-- A stream without a segment, and no process. -/
def ManagerRun.empty : ManagerRun := ⟨∅, [], 0, .stopped⟩

section Invariant

variable {hash : Str → UInt64} {decoder : Decoder} {interval : ℕ} {w w' : ManagerRun}

/-- The segment in memory fits the stream, and a batch of activity consists of whole lines. -/
def Control.Fits (decoder : Decoder) (interval : ℕ) (tree : StreamTree)
    (reports : List (Opening × Appended)) (now : ℕ) : Control → Prop
  | stopped => True
  | waiting place seg => validTimeName place.stem = true ∧
      Attends decoder place.stem interval now (logOf reports place) (tree.day place.day) seg
  | rotating place seg _ activity =>
    validTimeName place.stem = true ∧ seg.closed ≠ none ∧ Complete newline activity
  | appending place seg _ _ activity => validTimeName place.stem = true ∧
      Serving decoder place.stem interval (logOf reports place) (tree.day place.day) seg ∧
      Complete newline activity

/-- The entries of every day are those of the segments of some times, each at a stage of its log;
and the manager's segment fits them. -/
structure Managed (decoder : Decoder) (interval : ℕ) (w : ManagerRun) : Prop where
  timely : ∀ day, Timely (w.tree.day day)
  remnant : ∀ place : Opening, validTimeName place.stem = true →
    Remnant decoder place.stem interval (logOf w.reports place) (w.tree.day place.day)
  control : w.control.Fits decoder interval w.tree w.reports w.now

theorem Timely.of_apart {stem : Str} {base d : StreamDir} (h : Timely base)
    (hstem : validTimeName stem = true) (hapart : Apart stem base d) : Timely d := by
  intro name hsome
  by_cases hown : OwnName stem name
  · exact .inr ⟨stem, hstem, hown⟩
  · exact h name (by rwa [← hapart name hown])

/-- An operation of the segment of a place leaves the segments of all other places. -/
theorem Managed.at_place (h : Managed decoder interval w) {place : Opening} {d : StreamDir}
    {reports : List (Opening × Appended)} {now : ℕ} {control : Control}
    (hstem : validTimeName place.stem = true)
    (hreports : ∀ other, other ≠ place → logOf reports other = logOf w.reports other)
    (hleaves : Leaves decoder place.stem interval (logOf reports place) (w.tree.day place.day) d)
    (hcontrol : control.Fits decoder interval (w.tree.insert place.day d) reports now) :
    Managed decoder interval ⟨w.tree.insert place.day d, reports, now, control⟩ where
  timely := by
    intro day
    rw [StreamTree.day_insert]
    split
    · exact (h.timely _).of_apart hstem hleaves.apart
    · exact h.timely day
  remnant := by
    intro other hother
    dsimp only
    rw [StreamTree.day_insert]
    by_cases hsame : other = place
    · rw [hsame, if_pos rfl]
      exact hleaves.remnant
    rw [hreports other hsame]
    split
    · rename_i hday
      have hne : other.stem ≠ place.stem := by
        intro heq
        cases other
        cases place
        simp_all
      refine (h.remnant other hother).undisturbed ?_
      rw [← hday]
      exact hleaves.apart.undisturbed hne
        ((validTimeName_length hother).trans (validTimeName_length hstem).symm)
    · exact h.remnant other hother
  control := hcontrol

/-- A temporary file is left. -/
theorem Managed.left (h : Managed decoder interval w) (day target : Str) (process counter : ℕ)
    (content : Contents) :
    Managed decoder interval
      { w with
        tree := w.tree.insert day
          (leftTemporary (w.tree.day day) target process counter content) } := by
  have hsame {place : Opening} (hstem : validTimeName place.stem = true) :
      SameOwn place.stem (w.tree.day place.day)
        (StreamTree.day (w.tree.insert day
          (leftTemporary (w.tree.day day) target process counter content)) place.day) := by
    intro name hname
    rw [StreamTree.day_insert]
    split
    · rename_i hday
      rw [← hday, get_leftTemporary hstem hname]
    · rfl
  refine ⟨fun other => ?_, fun place hstem => ?_, ?_⟩
  · dsimp only
    rw [StreamTree.day_insert]
    split
    · exact (h.timely day).left target process counter content
    · exact h.timely other
  · exact (h.remnant place hstem).undisturbed (hsame hstem).undisturbed
  · have hcontrol := h.control
    cases hw : w.control with
    | stopped => trivial
    | waiting place seg =>
      rw [hw] at hcontrol
      exact ⟨hcontrol.1, hcontrol.2.same (hsame hcontrol.1)⟩
    | rotating place seg captures activity =>
      rw [hw] at hcontrol
      exact hcontrol
    | appending place seg timestamp captures activity =>
      rw [hw] at hcontrol
      exact ⟨hcontrol.1, hcontrol.2.1.same (hsame hcontrol.1), hcontrol.2.2⟩

/-- The manager goes on without an operation. -/
theorem Managed.with_control (h : Managed decoder interval w) {now : ℕ} {control : Control}
    (hcontrol : control.Fits decoder interval w.tree w.reports now) :
    Managed decoder interval ⟨w.tree, w.reports, now, control⟩ :=
  ⟨h.timely, h.remnant, hcontrol⟩

theorem Managed.empty : Managed decoder interval .empty where
  timely := by
    intro day name hsome
    rw [ManagerRun.empty, StreamTree.day, Table.get_empty, Option.getD_none, Table.get_empty] at hsome
    cases hsome
  remnant := by
    intro place _
    refine .finished (.inl ⟨rfl, fun name _ hsome => ?_⟩)
    rw [ManagerRun.empty, StreamTree.day, Table.get_empty, Option.getD_none, Table.get_empty] at hsome
    cases hsome
  control := trivial

/-! ### Opening -/

/-- The stem of a second of a day is one that recovery accepts. -/
theorem validTimeName_stemStr (t : LocalTime) : validTimeName t.stemStr = true := by
  have hdigits : ∀ c ∈ t.stemStr, isDigit c = true := fun c hc => LocalTime.isDigit_of_mem_stemStr hc
  have hh := length_twoDigits t.hour (t.hour_lt.trans (by decide))
  have hm := length_twoDigits t.minute (t.minute_lt.trans (by decide))
  have hs : t.stemStr = twoDigits t.hour ++ (twoDigits t.minute ++ twoDigits t.second) :=
    List.append_assoc _ _ _
  have hhour : t.stemStr.take 2 = twoDigits t.hour := by rw [hs, ← hh, List.take_left]
  have hrest : t.stemStr.drop 2 = twoDigits t.minute ++ twoDigits t.second := by
    rw [hs, ← hh, List.drop_left]
  have hminute : (t.stemStr.drop 2).take 2 = twoDigits t.minute := by
    rw [hrest, ← hm, List.take_left]
  have hsecond : t.stemStr.drop 4 = twoDigits t.second := by
    rw [show 4 = 2 + 2 from rfl, ← List.drop_drop, hrest, ← hm, List.drop_left]
  rw [validTimeName, hhour, hminute, hsecond, twoDigits, digitsValue_padLeft, twoDigits,
    digitsValue_padLeft, twoDigits, digitsValue_padLeft, t.length_stemStr]
  have := t.hour_lt
  have := t.minute_lt
  have := t.second_lt
  simp only [decide_true, Bool.true_and, Bool.and_eq_true, List.all_eq_true, decide_eq_true_eq]
  exact ⟨⟨⟨hdigits, by omega⟩, by omega⟩, by omega⟩

/-- A segment is opened at a place that has no entry, and of which nothing was reported. -/
theorem Managed.opening (h : Managed decoder interval w) {entries : EntryOrder} {ts : List Turn}
    {wallNow : OffsetDateTime} {monotonicNow : ℕ} {localOffset : UtcOffset} {tz : Option Str}
    {start : LocalTime} {day stem : Str} {result : Ended SegmentError SegmentState} {d : StreamDir}
    (picked : pickName (w.tree.looks entries) start false start = .chosen day stem)
    (ran : run ts (SegmentState.create stem wallNow monotonicNow localOffset tz interval)
      (w.tree.day day) = (result, d)) :
    validTimeName stem = true ∧
      Leaves decoder stem interval (logOf w.reports ⟨day, stem⟩) (w.tree.day day) d ∧
      ∀ seg, result = .done seg →
        Serving decoder stem interval (logOf w.reports ⟨day, stem⟩) d seg := by
  obtain ⟨u, rfl, rfl, hfree⟩ : ∃ u : LocalTime, day = u.date.dateStr ∧ stem = u.stemStr ∧
      ¬ Taken w.tree u := by
    rcases pickName_looks start false start with ⟨u, hpick, hu⟩ | ⟨hpick, -⟩
    · rw [hpick] at picked
      cases picked
      exact ⟨u, rfl, rfl, hu.free⟩
    · rw [hpick] at picked
      cases picked
  have hstem := validTimeName_stemStr u
  have hnone : NamesWithin u.stemStr [] (w.tree.day u.date.dateStr) :=
    fun name hname hsome => absurd ⟨name, hsome, hname.isPrefix⟩ hfree
  have hlog := (h.remnant ⟨u.date.dateStr, u.stemStr⟩ hstem).log_eq_empty hnone
  have hcreate : wp anyTurn
      (SegmentState.create u.stemStr wallNow monotonicNow localOffset tz interval)
      (endsIn (Leaves decoder u.stemStr interval .empty (w.tree.day u.date.dateStr)) fun seg d' =>
        Leaves decoder u.stemStr interval .empty (w.tree.day u.date.dateStr) d' ∧
          Serving decoder u.stemStr interval .empty d' seg) (w.tree.day u.date.dateStr) :=
    wp_create_attends hstem hnone
  have hended := wp_run_eq ran hcreate trivial fun _ _ => trivial
  rw [hlog]
  refine ⟨hstem, ?_, ?_⟩
  · cases result with
    | done seg => exact hended.1
    | raised e => exact hended
    | killed => exact hended
  · rintro seg rfl
    exact hended.2

/-! ### Appending -/

theorem logOf_captureReport (place : Opening) (capture : CaptureResult) (timestamp : F64Text)
    (answer : Except SegmentError AppendOutcome) (reports : List (Opening × Appended)) :
    logOf (reports ++ captureReport place capture timestamp answer) place =
        appendedLog (logOf reports place) capture timestamp answer ∧
      ∀ other, other ≠ place → logOf (reports ++ captureReport place capture timestamp answer) other =
        logOf reports other := by
  have hsame : logOf (reports ++ []) = logOf reports := by rw [List.append_nil]
  cases answer with
  | error e => exact ⟨congrFun hsame place, fun other _ => congrFun hsame other⟩
  | ok outcome =>
    cases outcome with
    | appended frameId =>
      exact ⟨logOf_append_self _ _ _, fun other hne => logOf_append_ne hne.symm _⟩
    | unchanged => exact ⟨congrFun hsame place, fun other _ => congrFun hsame other⟩

theorem logOf_activityReport (place : Opening) (bytes : Bytes) (answer : Except SegmentError Unit)
    (reports : List (Opening × Appended)) :
    logOf (reports ++ activityReport place bytes answer) place =
        activityLog (logOf reports place) bytes answer ∧
      ∀ other, other ≠ place → logOf (reports ++ activityReport place bytes answer) other =
        logOf reports other := by
  have hsame : logOf (reports ++ []) = logOf reports := by rw [List.append_nil]
  cases answer with
  | error e => exact ⟨congrFun hsame place, fun other _ => congrFun hsame other⟩
  | ok => exact ⟨logOf_append_self _ _ _, fun other hne => logOf_append_ne hne.symm _⟩

/-- Startup recovery finishes every segment of a day. -/
theorem Managed.recovers (h : Managed decoder interval w) (listing : Listing) (day : Str) :
    ∃ records d, run [] (recoverStream decoder listing .default interval) (w.tree.day day) =
        (.done records, d) ∧ Timely d ∧
      ∀ stem, validTimeName stem = true →
        Finished stem interval (logOf w.reports ⟨day, stem⟩) d :=
  recoverStream_finishes (h.timely day) fun stem hstem => h.remnant ⟨day, stem⟩ hstem

/-! ### Steps -/

/-- Closing a segment leaves it attended, if it is still in memory. -/
theorem Managed.closing (h : Managed decoder interval w) (hinterval : interval < 2 ^ 64)
    {place : Opening} {seg : SegmentState} {later : ℕ} {ts : List Turn} {listing : Listing}
    {result : Ended Empty (SegmentState × Except SegmentError SegmentClose)} {d : StreamDir}
    (waits : w.control = .waiting place seg) (le : w.now ≤ later)
    (ran : run ts (seg.finalize listing later) (w.tree.day place.day) = (result, d)) :
    validTimeName place.stem = true ∧ ClosingEnds decoder place.stem interval later
      (logOf w.reports place) (w.tree.day place.day) (seg.rotationDue later interval = true)
      result d := by
  have hcontrol := h.control
  rw [waits] at hcontrol
  obtain ⟨hstem, hattends⟩ := hcontrol
  exact ⟨hstem, wp_run_eq ran (hattends.finalize hstem hinterval le (h.remnant place hstem)) trivial
    fun _ _ => trivial⟩

theorem ClosingEnds.leaves {stem : Str} {later : ℕ} {log : SegmentLog} {base d : StreamDir} {due : Prop}
    {result : Ended Empty (SegmentState × Except SegmentError SegmentClose)}
    (h : ClosingEnds decoder stem interval later log base due result d) :
    Leaves decoder stem interval log base d := by
  cases h with
  | killed leaves => exact leaves
  | failed leaves => exact leaves
  | closed leaves => exact leaves

/-- Every step keeps the invariant. -/
theorem Managed.step (h : Managed decoder interval w) (hinterval : interval < 2 ^ 64)
    (hstep : ManagerStep hash decoder interval w w') : Managed decoder interval w' := by
  have hcontrol := h.control
  cases hstep with
  | @started entries ts wallNow monotonicNow localOffset tz start day stem result d stops starts picked
      ran =>
    obtain ⟨hstem, hleaves, hserving⟩ := h.opening picked ran
    refine @Managed.at_place _ _ _ h ⟨day, stem⟩ _ _ _ _ hstem (fun _ _ => rfl) hleaves ?_
    cases result with
    | done seg =>
      refine ⟨hstem, .serving ?_⟩
      dsimp only
      rw [StreamTree.day_insert, if_pos rfl]
      exact hserving seg rfl
    | raised e => trivial
    | killed => trivial
  | @polled place seg later timestamp captures activity waits le due lines =>
    rw [waits] at hcontrol
    exact h.with_control ⟨hcontrol.1, hcontrol.2.serving_of_not_due le due, lines⟩
  | @closed place seg later ts listing captures activity result d waits le due lines ran =>
    obtain ⟨hstem, hends⟩ := h.closing hinterval waits le ran
    refine h.at_place hstem (fun _ _ => rfl) hends.leaves ?_
    cases hends with
    | killed => trivial
    | failed leaves attends =>
      refine ⟨hstem, ?_⟩
      rw [StreamTree.day_insert, if_pos rfl]
      exact attends due
    | closed leaves isClosed => exact ⟨hstem, isClosed, lines⟩
  | @opened place seg captures activity entries ts wallNow localOffset tz timestamp start day stem result d
      rotates starts picked ran =>
    rw [rotates] at hcontrol
    obtain ⟨hstem, hleaves, hserving⟩ := h.opening picked ran
    refine @Managed.at_place _ _ _ h ⟨day, stem⟩ _ _ _ _ hstem (fun _ _ => rfl) hleaves ?_
    cases result with
    | done seg' =>
      refine ⟨hstem, ?_, hcontrol.2.2⟩
      dsimp only
      rw [StreamTree.day_insert, if_pos rfl]
      exact hserving seg' rfl
    | raised e => exact ⟨hcontrol.1, .serving (.closed hcontrol.2.1)⟩
    | killed => trivial
  | @captured place seg seg' timestamp capture captures activity answer d appends ran =>
    rw [appends] at hcontrol
    obtain ⟨hstem, hserving, lines⟩ := hcontrol
    obtain ⟨seg₁, answer₁, d₁, hrun, hleaves, hserving'⟩ :=
      @Serving.appendCapture _ hash _ _ w.now _ _ _ hstem hinterval (h.remnant place hstem) hserving
        capture timestamp
    rw [ran] at hrun
    cases hrun
    obtain ⟨hself, hothers⟩ := logOf_captureReport place capture timestamp answer w.reports
    rw [← hself] at hleaves hserving'
    refine h.at_place hstem hothers hleaves ?_
    have hplace : Serving decoder place.stem interval
        (logOf (w.reports ++ captureReport place capture timestamp answer) place)
        (StreamTree.day (w.tree.insert place.day d) place.day) seg' := by
      rwa [StreamTree.day_insert, if_pos rfl]
    cases answer with
    | ok outcome => exact ⟨hstem, hplace, lines⟩
    | error e =>
      rw [Control.afterCapture]
      split
      · exact ⟨hstem, hplace, lines⟩
      · exact ⟨hstem, .serving hplace⟩
  | @finished place seg seg' timestamp activity answer d appends ran =>
    rw [appends] at hcontrol
    obtain ⟨hstem, hserving, lines⟩ := hcontrol
    obtain ⟨seg₁, answer₁, d₁, hrun, hleaves, hserving'⟩ :=
      @Serving.appendActivity _ _ _ w.now _ _ _ hstem hinterval (h.remnant place hstem) hserving _ lines
    rw [ran] at hrun
    cases hrun
    obtain ⟨hself, hothers⟩ := logOf_activityReport place activity answer w.reports
    rw [← hself] at hleaves hserving'
    refine h.at_place hstem hothers hleaves ⟨hstem, .serving ?_⟩
    rw [StreamTree.day_insert, if_pos rfl]
    exact hserving'
  | @shutdown place seg later ts listing result d waits le ran =>
    obtain ⟨hstem, hends⟩ := h.closing hinterval waits le ran
    exact h.at_place hstem (fun _ _ => rfl) hends.leaves trivial
  | @left day target process counter content =>
    exact h.left day target process counter content
  | ended => exact h.with_control trivial
  | @recovered day listing result d stops ran =>
    obtain ⟨records, d', hrun, htimely, hfinished⟩ := h.recovers listing day
    rw [ran] at hrun
    cases hrun
    refine ⟨fun other => ?_, fun other hother => ?_, by rw [stops]; trivial⟩
    · dsimp only
      rw [StreamTree.day_insert]
      split
      · exact htimely
      · exact h.timely other
    · dsimp only
      rw [StreamTree.day_insert]
      split
      · rename_i hday
        subst hday
        exact .finished (hfinished other.stem hother)
      · exact h.remnant other hother

end Invariant

/-! ## A poll is a run of steps -/

section Polls

variable {hash : Str → UInt64} (decoder : Decoder) (interval : ℕ) {place : Opening}
  {timestamp : F64Text} {activity : Bytes}

theorem steps_of_appendCaptures {captures : List CaptureResult} {w : ManagerRun}
    {seg seg' : SegmentState} {samples : List Sample} {answer : Except SegmentError (List Sample)}
    {d : StreamDir} (appends : w.control = .appending place seg timestamp captures activity)
    (ran : run [] (SegmentState.appendCaptures hash timestamp w.now captures seg samples :
      Prog _ _ Empty _) (w.tree.day place.day) = (.done (seg', answer), d)) :
    ∃ w', Relation.ReflTransGen (ManagerStep hash decoder interval) w w' ∧ w'.now = w.now ∧
      (∀ day, w'.tree.day day = if place.day = day then d else w.tree.day day) ∧
      w'.control = if answer.isOk then .appending place seg' timestamp [] activity
        else .waiting place seg' := by
  induction captures generalizing w seg samples with
  | nil =>
    cases ran
    refine ⟨w, .refl, rfl, fun day => ?_, appends⟩
    split
    · rename_i hday
      rw [hday]
    · rfl
  | cons capture captures ih =>
    rw [SegmentState.appendCaptures, run_bind] at ran
    generalize hrun : run [] (seg.appendCapture hash capture timestamp w.now : Prog _ _ Empty _)
      (w.tree.day place.day) = r at ran
    obtain ⟨ended, d₁⟩ := r
    cases ended with
    | raised e => cases ran
    | killed => cases ran
    | done result =>
      obtain ⟨seg₁, answer₁⟩ := result
      have hstep : ManagerStep hash decoder interval w _ := .captured appends hrun
      generalize hnext : ({ w with
        tree := w.tree.insert place.day d₁
        reports := w.reports ++ captureReport place capture timestamp answer₁
        control := .afterCapture place seg₁ timestamp captures activity answer₁ } : ManagerRun) = w₁
        at hstep
      have hnow : w₁.now = w.now := by rw [← hnext]
      have htree (day : Str) : w₁.tree.day day = if place.day = day then d₁ else w.tree.day day := by
        rw [← hnext]
        exact StreamTree.day_insert _ _ _ _
      have hd₁ : d₁ = w₁.tree.day place.day := by rw [htree, if_pos rfl]
      rw [quietThen_done, hd₁, ← hnow] at ran
      have hrest {samples' : List Sample}
          (hcontrol : w₁.control = .appending place seg₁ timestamp captures activity)
          (hran : run [] (SegmentState.appendCaptures hash timestamp w₁.now captures seg₁ samples' :
            Prog _ _ Empty _) (w₁.tree.day place.day) = (.done (seg', answer), d)) :
          ∃ w', Relation.ReflTransGen (ManagerStep hash decoder interval) w w' ∧ w'.now = w.now ∧
            (∀ day, w'.tree.day day = if place.day = day then d else w.tree.day day) ∧
            w'.control = if answer.isOk then .appending place seg' timestamp [] activity
              else .waiting place seg' := by
        obtain ⟨w', hsteps, hnow', htree', hcontrol'⟩ := ih hcontrol hran
        refine ⟨w', .head hstep hsteps, hnow'.trans hnow, fun day => ?_, hcontrol'⟩
        rw [htree', htree]
        split <;> rfl
      cases answer₁ with
      | ok outcome => exact hrest (by rw [← hnext]; rfl) ran
      | error e =>
        dsimp only at ran
        split at ran
        · rename_i hsoft
          exact hrest (by rw [← hnext]; exact if_pos hsoft) ran
        · rename_i hhard
          cases ran
          refine ⟨w₁, .single hstep, hnow, fun day => by rw [htree, ← hd₁], ?_⟩
          rw [← hnext]
          exact if_neg hhard

/-- **The appends of a poll are steps of the manager.** -/
theorem steps_of_appendPoll {captures : List CaptureResult} {w : ManagerRun}
    {seg seg' : SegmentState} {answer : Except SegmentError PollReport} {d : StreamDir}
    (appends : w.control = .appending place seg timestamp captures activity)
    (ran : run [] (seg.appendPoll hash timestamp captures activity w.now : Prog _ _ Empty _)
      (w.tree.day place.day) = (.done (seg', answer), d)) :
    ∃ w', Relation.ReflTransGen (ManagerStep hash decoder interval) w w' ∧ w'.now = w.now ∧
      (∀ day, w'.tree.day day = if place.day = day then d else w.tree.day day) ∧
      w'.control = .waiting place seg' := by
  rw [SegmentState.appendPoll, run_bind] at ran
  generalize hrun : run [] (SegmentState.appendCaptures hash timestamp w.now captures seg [] :
    Prog _ _ Empty _) (w.tree.day place.day) = r at ran
  obtain ⟨ended, d₁⟩ := r
  cases ended with
  | raised e => cases ran
  | killed => cases ran
  | done result =>
    obtain ⟨seg₁, answer₁⟩ := result
    obtain ⟨w₁, hsteps, hnow, htree, hcontrol⟩ :=
      steps_of_appendCaptures decoder interval appends hrun
    rw [quietThen_done] at ran
    cases answer₁ with
    | error e =>
      cases ran
      exact ⟨w₁, hsteps, hnow, htree, hcontrol⟩
    | ok samples =>
      have hd₁ : d₁ = w₁.tree.day place.day := by rw [htree, if_pos rfl]
      obtain ⟨answer₂, hactivity⟩ : ∃ answer₂, run [] (seg₁.appendActivity activity w₁.now :
          Prog _ _ Empty _) (w₁.tree.day place.day) = (.done (seg', answer₂), d) := by
        rw [← hd₁, hnow]
        dsimp only at ran
        rw [SegmentState.appendPolledActivity] at ran
        split at ran
        · rename_i hempty
          cases ran
          exact ⟨.ok (), by rw [SegmentState.appendActivity, if_pos hempty, run_done]⟩
        · rw [run_bind] at ran
          generalize hrun' : run [] (seg₁.appendActivity activity w.now : Prog _ _ Empty _) d₁ = r
            at ran
          obtain ⟨ended, d₂⟩ := r
          cases ended with
          | raised e => cases ran
          | killed => cases ran
          | done result =>
            obtain ⟨seg₂, answer₂⟩ := result
            rw [quietThen_done] at ran
            cases answer₂ with
            | ok => cases ran; exact ⟨_, rfl⟩
            | error e =>
              dsimp only at ran
              split at ran <;> cases ran <;> exact ⟨_, rfl⟩
      have hstep : ManagerStep hash decoder interval w₁ _ := .finished hcontrol hactivity
      refine ⟨_, hsteps.tail hstep, hnow, fun day => ?_, rfl⟩
      dsimp only
      rw [StreamTree.day_insert, htree]
      split <;> rfl

end Polls

/-! ## What recovery makes of a run -/

end SolstoneTmux
