import SolstoneTmux.FailedAppends
import SolstoneTmux.Suppression
import Mathlib.Data.List.Flatten

/-!
# Polls

`processPoll` appends what one poll has seen: a frame for each captured session, then the activity.
An append that was rolled back is passed over. A session is sampled again by the next poll, but a
batch of activity is known to its own poll only.

`polls_exact_iff` is about any number of polls in one segment, with any of their appends rolled
back: the session files are what they should be, and the activity file is unless some batch was
rolled back.
-/

namespace SolstoneTmux

open Foundations Foundations.Prog SegmentState

/-- A capture of a poll, and whether its append was rolled back, which the source prints. -/
structure Sample where
  capture : CaptureResult
  timestamp : F64Text
  rolledBack : Bool

/-- What a poll that works has done. -/
structure PollReport where
  samples : List Sample
  activityRolledBack : Bool

namespace SegmentState

variable {ε : Type}

/-- The captures of a poll, appended in order after these samples of it. -/
def appendCaptures (hash : Str → UInt64) (timestamp : F64Text) (nowMonotonic : ℕ) :
    List CaptureResult → SegmentState → List Sample →
      Prog StreamDir Turn ε (SegmentState × Except SegmentError (List Sample))
  | [], self, samples => done (self, .ok samples)
  | capture :: captures, self, samples =>
    (self.appendCapture hash capture timestamp nowMonotonic).bind fun
      | (self, .ok _) =>
        appendCaptures hash timestamp nowMonotonic captures self
          (samples ++ [⟨capture, timestamp, false⟩])
      | (self, .error e) =>
        if e.isRecoverableAppend then
          appendCaptures hash timestamp nowMonotonic captures self
            (samples ++ [⟨capture, timestamp, true⟩])
        else done (self, .error e)

/-- The activity of a poll, appended after its samples. -/
def appendPolledActivity (self : SegmentState) (samples : List Sample) (activity : Bytes)
    (nowMonotonic : ℕ) : Prog StreamDir Turn ε (SegmentState × Except SegmentError PollReport) :=
  if activity.isEmpty then done (self, .ok ⟨samples, false⟩)
  else
    (self.appendActivity activity nowMonotonic).bind fun
      | (self, .ok _) => done (self, .ok ⟨samples, false⟩)
      | (self, .error e) =>
        if e.isRecoverableAppend then done (self, .ok ⟨samples, true⟩) else done (self, .error e)

/-- `SegmentManager::process_poll` from the timestamp on. -/
def appendPoll (hash : Str → UInt64) (self : SegmentState) (timestamp : F64Text)
    (captures : List CaptureResult) (activity : Bytes) (nowMonotonic : ℕ) :
    Prog StreamDir Turn ε (SegmentState × Except SegmentError PollReport) :=
  (appendCaptures hash timestamp nowMonotonic captures self []).bind fun
    | (self, .error e) => done (self, .error e)
    | (self, .ok samples) => self.appendPolledActivity samples activity nowMonotonic

/-- The change to the next segment, which may lie in another stream directory. -/
def rotate (listing : Listing) (openSegment : Prog StreamDir Turn SegmentError SegmentState)
    (self : SegmentState) (nowMonotonic : ℕ) :
    Prog StreamDir Turn ε (SegmentState × Except SegmentError Unit) :=
  (self.finalize listing nowMonotonic).bind fun
    | (self, .error e) => done (self, .error e)
    | (self, .ok _) => openSegment.attempt.bind fun
      | .error e => done (self, .error e)
      | .ok next => done (next, .ok ())

/-- `SegmentManager::process_poll`, on the manager's segment. `frameTimestamp` is the method of that
name at the wall time of the poll. -/
def processPoll (hash : Str → UInt64) (listing : Listing)
    (openSegment : Prog StreamDir Turn SegmentError SegmentState)
    (frameTimestamp : SegmentState → F64Text) (self : SegmentState) (captures : List CaptureResult)
    (activity : Bytes) (nowMonotonic segmentInterval : ℕ) :
    Prog StreamDir Turn ε (SegmentState × Except SegmentError PollReport) :=
  if self.rotationDue nowMonotonic segmentInterval then
    (self.rotate listing openSegment nowMonotonic).bind fun
      | (self, .error e) => done (self, .error e)
      | (self, .ok _) =>
        self.appendPoll hash (frameTimestamp self) captures activity nowMonotonic
  else self.appendPoll hash (frameTimestamp self) captures activity nowMonotonic

end SegmentState

/-! ## What should be durable -/

section Durable

variable {hash : Str → UInt64}

/-- The digest of a sample. -/
def Sample.digest (hash : Str → UInt64) (s : Sample) : UInt64 := captureDigest hash s.capture

/-- The digest of a session's last durable sample. -/
def lastDigest (hash : Str → UInt64) (durable : List Sample) (session : Str) : Option UInt64 :=
  (durable.filter fun s => s.capture.session = session).getLast?.map (Sample.digest hash)

/-- The durable samples after one more: it is durable unless its append was rolled back or it shows
what the last durable one of its session shows. -/
def addSample (hash : Str → UInt64) (durable : List Sample) (s : Sample) : List Sample :=
  if s.rolledBack ∨ lastDigest hash durable s.capture.session = some (s.digest hash) then durable
  else durable ++ [s]

/-- The durable samples. -/
def durableSamples (hash : Str → UInt64) (samples : List Sample) : List Sample :=
  samples.foldl (addSample hash) []

/-- The frames of a session, each once and in order, under the ids of all durable samples. -/
def sessionFrames (durable : List Sample) (session : Str) : Bytes :=
  ((durable.zipIdx 1).filter fun p => p.1.capture.session = session).flatMap fun p =>
    serializeFrame p.1.capture p.2 p.1.timestamp

theorem lastDigest_append (durable : List Sample) (s : Sample) (session : Str) :
    lastDigest hash (durable ++ [s]) session =
      if s.capture.session = session then some (s.digest hash) else lastDigest hash durable session := by
  rw [lastDigest, List.filter_append]
  split
  · rename_i h
    simp [h]
  · rename_i h
    simp [h, lastDigest]

theorem durableSamples_append (samples : List Sample) (s : Sample) :
    durableSamples hash (samples ++ [s]) = addSample hash (durableSamples hash samples) s := by
  rw [durableSamples, List.foldl_append]
  rfl

theorem sessionFrames_append (durable : List Sample) (s : Sample) (session : Str) :
    sessionFrames (durable ++ [s]) session = sessionFrames durable session ++
      if s.capture.session = session then serializeFrame s.capture (durable.length + 1) s.timestamp
      else [] := by
  rw [sessionFrames, List.zipIdx_append, List.filter_append, List.flatMap_append, ← sessionFrames]
  congr 1
  split
  · rename_i h
    simp [h, Nat.add_comm]
  · rename_i h
    simp [h]

/-- **The latest sample is shown.** The last durable sample of a session shows what its latest one
does, when that was not rolled back. -/
theorem lastDigest_latest {samples : List Sample} {session : Str} {s : Sample}
    (h : (samples.filter fun s => s.capture.session = session).getLast? = some s)
    (hkept : s.rolledBack = false) :
    lastDigest hash (durableSamples hash samples) session = some (s.digest hash) := by
  induction samples using List.reverseRecOn with
  | nil => cases h
  | append_singleton samples last ih =>
    rw [durableSamples_append, addSample]
    by_cases hlast : last.capture.session = session
    · have hs : last = s := by
        rw [List.filter_append] at h
        simpa [hlast] using h
      rw [hs] at hlast ⊢
      split
      · rename_i hold
        rw [hkept, hlast] at hold
        simpa using hold
      · rw [lastDigest_append, if_pos hlast]
    · have hs : (samples.filter fun s => s.capture.session = session).getLast? = some s := by
        rw [List.filter_append] at h
        simpa [hlast] using h
      split
      · exact ih hs
      · rw [lastDigest_append, if_neg hlast]
        exact ih hs

end Durable

/-! ## What polls keep -/

/-- The segment has the durable ones of these samples in its session files and this activity in its
activity file. -/
structure Tracks (hash : Str → UInt64) (stem : Str) (d : StreamDir) (seg : SegmentState)
    (samples : List Sample) (activity : Bytes) : Prop where
  held : ∃ files members, FilesHeld stem d seg.storage seg.metadata files members ∧
    (∀ session n, deriveComponent session = .ok n →
      files n.sessionFilename = sessionFrames (durableSamples hash samples) session) ∧
    files (activityFilename stem) = activity
  lastId : seg.metadata.lastDurableFrameId = (durableSamples hash samples).length
  digests : ∀ session : Str,
    seg.digests[session]? = lastDigest hash (durableSamples hash samples) session

section Tracks

variable {hash : Str → UInt64} {stem : Str} {d d' : StreamDir} {seg seg' : SegmentState}
  {samples : List Sample} {activity : Bytes} {A : Turn → Prop} {ε : Type}

/-- A sample that is not durable. -/
theorem Tracks.skip {s : Sample} {files : Str → Bytes} {members : SegmentDir}
    (h : Tracks hash stem d seg samples activity)
    (hfiles : ∀ session n, deriveComponent session = .ok n →
      files n.sessionFilename = sessionFrames (durableSamples hash samples) session)
    (hactivity : files (activityFilename stem) = activity)
    (held : FilesHeld stem d' seg'.storage seg'.metadata files members)
    (hmetadata : seg'.metadata = seg.metadata) (hdigests : seg'.digests = seg.digests)
    (hskip : s.rolledBack = true ∨ seg.digests[s.capture.session]? = some (s.digest hash)) :
    Tracks hash stem d' seg' (samples ++ [s]) activity := by
  have hsame : durableSamples hash (samples ++ [s]) = durableSamples hash samples := by
    rw [durableSamples_append, addSample, if_pos]
    rwa [← h.digests]
  refine ⟨⟨files, members, held, ?_, hactivity⟩, ?_, ?_⟩
  · rwa [hsame]
  · rw [hsame, hmetadata]
    exact h.lastId
  · rw [hsame, hdigests]
    exact h.digests

/-- A capture adds its sample. -/
theorem Tracks.capture (h : Tracks hash stem d seg samples activity) {files : Str → Bytes}
    (hfiles : ∀ session n, deriveComponent session = .ok n →
      files n.sessionFilename = sessionFrames (durableSamples hash samples) session)
    (hactivity : files (activityFilename stem) = activity) {capture : CaptureResult}
    {timestamp : F64Text} {answer : Except SegmentError AppendOutcome}
    (hended : CaptureEnded hash stem seg files capture timestamp (seg', answer) d') :
    (∀ outcome, answer = .ok outcome →
        Tracks hash stem d' seg' (samples ++ [⟨capture, timestamp, false⟩]) activity) ∧
      ∀ e, answer = .error e → e.isRecoverableAppend = true →
        Tracks hash stem d' seg' (samples ++ [⟨capture, timestamp, true⟩]) activity := by
  cases hended with
  | unchanged held hknown =>
    refine ⟨fun _ _ => ?_, fun _ hr => by cases hr⟩
    exact h.skip hfiles hactivity held rfl rfl (.inr hknown)
  | rolledBack held =>
    refine ⟨fun _ hr => (by cases hr), fun _ _ _ => ?_⟩
    exact h.skip hfiles hactivity held rfl rfl (.inl rfl)
  | failed hard =>
    refine ⟨fun _ hr => (by cases hr), fun e hr hsoft => ?_⟩
    cases hr
    rw [hard] at hsoft
    cases hsoft
  | @appended n _ _ _ hname hnew held hlastId hdigests =>
    refine ⟨fun _ _ => ?_, fun _ hr => by cases hr⟩
    have hadded : durableSamples hash (samples ++ [⟨capture, timestamp, false⟩]) =
        durableSamples hash samples ++ [⟨capture, timestamp, false⟩] := by
      rw [durableSamples_append, addSample, if_neg]
      rw [← h.digests]
      simpa [Sample.digest] using hnew
    refine ⟨⟨_, _, held, fun session n' hn' => ?_, ?_⟩, ?_, fun session => ?_⟩
    · rw [hadded, sessionFrames_append]
      by_cases hsame : capture.session = session
      · rw [← hsame, hname] at hn'
        cases hn'
        rw [Function.update_self, if_pos hsame, hfiles _ n hname, h.lastId, hsame]
      · have hne : n'.sessionFilename ≠ n.sessionFilename := fun heq => hsame
          (deriveComponent_injective hname hn' (DerivedName.sessionFilename_injective heq.symm))
        rw [Function.update_of_ne hne, if_neg hsame, List.append_nil]
        exact hfiles session n' hn'
    · rw [Function.update_of_ne (activityFilename_ne_sessionFilename stem n)]
      exact hactivity
    · rw [hadded, List.length_append, hlastId, h.lastId]
      rfl
    · rw [hadded, lastDigest_append, hdigests, Table.get_insert, h.digests]
      rfl

/-- The captures of a poll add their samples. -/
theorem wp_appendCaptures (timestamp : F64Text) (now : ℕ) (captures : List CaptureResult)
    {past samples : List Sample} (h : Tracks hash stem d seg (past ++ samples) activity) :
    wp A (appendCaptures hash timestamp now captures seg samples : Prog _ _ ε _)
      (endsIn (fun _ => True) fun r d' => ∀ samples', r.2 = .ok samples' →
        Tracks hash stem d' r.1 (past ++ samples') activity ∧
          samples'.map Sample.capture = samples.map Sample.capture ++ captures) d := by
  induction captures generalizing seg samples d with
  | nil =>
    intro samples' hr
    cases hr
    exact ⟨h, (List.append_nil _).symm⟩
  | cons capture captures ih =>
    obtain ⟨files, members, held, hfiles, hactivity⟩ := h.held
    refine endsIn_bind (held.wp_appendCapture capture timestamp now) fun r d' hended => ?_
    obtain ⟨seg', answer⟩ := r
    obtain ⟨hok, herr⟩ := h.capture hfiles hactivity hended
    have hrest (rolledBack : Bool)
        (h' : Tracks hash stem d' seg' (past ++ samples ++ [⟨capture, timestamp, rolledBack⟩])
          activity) : wp A (appendCaptures hash timestamp now captures seg'
            (samples ++ [⟨capture, timestamp, rolledBack⟩]) : Prog _ _ ε _)
          (endsIn (fun _ => True) fun r d' => ∀ samples', r.2 = .ok samples' →
            Tracks hash stem d' r.1 (past ++ samples') activity ∧ samples'.map Sample.capture =
              samples.map Sample.capture ++ capture :: captures) d' := by
      rw [List.append_assoc] at h'
      refine endsIn_mono (ih h') (fun _ h => h) fun r d hr samples' hok => ?_
      obtain ⟨htracks, hcaptures⟩ := hr samples' hok
      rw [List.map_append, List.append_assoc] at hcaptures
      exact ⟨htracks, hcaptures⟩
    cases answer with
    | ok outcome => exact hrest false (hok outcome rfl)
    | error e =>
      dsimp only
      split
      · rename_i hsoft
        exact hrest true (herr e rfl hsoft)
      · exact fun _ hr => by cases hr

/-- The activity of a poll that works is added, or it was rolled back. -/
theorem wp_appendPolledActivity (bytes : Bytes) (now : ℕ) {past : List Sample}
    (h : Tracks hash stem d seg (past ++ samples) activity) :
    wp A (seg.appendPolledActivity samples bytes now : Prog _ _ ε _)
      (endsIn (fun _ => True) fun r d' => ∀ report, r.2 = .ok report →
        Tracks hash stem d' r.1 (past ++ report.samples)
          (activity ++ if report.activityRolledBack then [] else bytes) ∧
        report.samples = samples ∧ (report.activityRolledBack = true → bytes ≠ [])) d := by
  unfold appendPolledActivity
  split
  · rename_i hempty
    intro report hr
    cases hr
    rw [List.isEmpty_iff.mp hempty]
    exact ⟨by simpa using h, rfl, fun hr => by cases hr⟩
  rename_i hbytes
  obtain ⟨files, members, held, hfiles, hactivity⟩ := h.held
  refine endsIn_bind (held.wp_appendActivity bytes now) fun r d' hended => ?_
  cases hended with
  | failed hard =>
    dsimp only
    rw [hard, if_neg Bool.false_ne_true]
    exact fun _ hr => by cases hr
  | rolledBack held =>
    intro report hr
    cases hr
    refine ⟨⟨⟨files, _, held, hfiles, ?_⟩, h.lastId, h.digests⟩, rfl, fun _ => ?_⟩
    · rw [hactivity, if_pos rfl, List.append_nil]
    · simpa using hbytes
  | appended held hlastId hdigests =>
    intro report hr
    cases hr
    refine ⟨⟨⟨_, _, held, fun session n hn => ?_, ?_⟩, ?_, ?_⟩, rfl, fun hr => by cases hr⟩
    · rw [Function.update_of_ne (activityFilename_ne_sessionFilename stem n).symm]
      exact hfiles session n hn
    · rw [Function.update_self, hactivity, if_neg Bool.false_ne_true]
    · rw [hlastId]
      exact h.lastId
    · rw [hdigests]
      exact h.digests

/-- **What a poll does to its segment.** -/
theorem wp_processPoll {listing : Listing}
    {openSegment : Prog StreamDir Turn SegmentError SegmentState}
    {frameTimestamp : SegmentState → F64Text} (captures : List CaptureResult) (bytes : Bytes)
    {now interval : ℕ} (due : seg.rotationDue now interval = false)
    (h : Tracks hash stem d seg samples activity) :
    wp A (seg.processPoll hash listing openSegment frameTimestamp captures bytes now interval :
        Prog _ _ ε _)
      (endsIn (fun _ => True) fun r d' => ∀ report, r.2 = .ok report →
        Tracks hash stem d' r.1 (samples ++ report.samples)
          (activity ++ if report.activityRolledBack then [] else bytes) ∧
        report.samples.map Sample.capture = captures ∧
        (report.activityRolledBack = true → bytes ≠ [])) d := by
  rw [processPoll, due, if_neg Bool.false_ne_true, appendPoll]
  rw [← List.append_nil samples] at h
  refine endsIn_bind (wp_appendCaptures _ _ captures h) fun r d' hr => ?_
  obtain ⟨seg', polled | polled⟩ := r
  · exact fun _ hr => by cases hr
  obtain ⟨htracks, hcaptures⟩ := hr polled rfl
  refine endsIn_mono (wp_appendPolledActivity bytes now htracks) (fun _ h => h)
    fun r d' hr report hok => ?_
  obtain ⟨htracks', hsamples, hbytes⟩ := hr report hok
  refine ⟨htracks', ?_, hbytes⟩
  rw [hsamples, hcaptures]
  rfl

end Tracks

/-! ## Runs of polls -/

/-- A poll that worked. -/
structure Poll where
  captures : List CaptureResult
  activity : Bytes
  report : PollReport

/-- The polls of one segment since its creation, and the segment after them. Calls may fail wherever
the poll as a whole works; but where the segment's names are in use, creation sees that. -/
inductive Polled (hash : Str → UInt64) (stem : Str) :
    List Poll → StreamDir → SegmentState → Prop
  | create {ts : List Turn} {startWall : OffsetDateTime} {startMonotonic : ℕ}
      {localOffset : UtcOffset} {tz : Option Str} {interval : ℕ} {d d' : StreamDir}
      {seg : SegmentState} (seen : (∀ t ∈ ts, noticed t) ∨ NamesFree d stem)
      (run : run ts (SegmentState.create stem startWall startMonotonic localOffset tz interval) d =
        (.done seg, d')) : Polled hash stem [] d' seg
  | poll {polls : List Poll} {ts : List Turn} {listing : Listing}
      {openSegment : Prog StreamDir Turn SegmentError SegmentState}
      {frameTimestamp : SegmentState → F64Text} {captures : List CaptureResult} {activity : Bytes}
      {now interval : ℕ} {d d' : StreamDir} {seg seg' : SegmentState} {report : PollReport}
      (before : Polled hash stem polls d seg) (due : seg.rotationDue now interval = false)
      (run : run ts (seg.processPoll hash listing openSegment frameTimestamp captures activity now
        interval : Prog _ _ Empty _) d = (.done (seg', .ok report), d')) :
      Polled hash stem (polls ++ [⟨captures, activity, report⟩]) d' seg'

/-- The samples of some polls. -/
def samplesOf (polls : List Poll) : List Sample := polls.flatMap fun poll => poll.report.samples

/-- The activity of these polls that was not rolled back. -/
def durableActivity (polls : List Poll) : Bytes :=
  (polls.filter fun poll => !poll.report.activityRolledBack).flatMap Poll.activity

section Polled

variable {hash : Str → UInt64} {stem : Str} {polls : List Poll} {d : StreamDir}
  {seg : SegmentState}

/-- **The state of a segment after some polls.** -/
theorem Polled.tracks (h : Polled hash stem polls d seg) :
    Tracks hash stem d seg (samplesOf polls) (durableActivity polls) ∧
      ∀ poll ∈ polls, poll.report.samples.map Sample.capture = poll.captures ∧
        (poll.report.activityRolledBack = true → poll.activity ≠ []) := by
  induction h with
  | create hseen hrun =>
    have hdigests := wp_run_eq hrun (wp_create_digests _ _ _ _ _ _) trivial fun _ _ => trivial
    have hrecords := (records_of_create .ofEnvelopes hseen hrun).1
    refine ⟨⟨⟨_, _, hrecords.filesHeld, fun _ _ _ => rfl, rfl⟩, hrecords.metadata.lastId, ?_⟩,
      fun _ h => absurd h List.not_mem_nil⟩
    intro session
    rw [show _ = _ from hdigests, Table.get_empty]
    rfl
  | @poll polls ts _ _ _ captures activity _ _ d d' seg seg' report hbefore hdue hrun ih =>
    have hpoll := wp_run_eq hrun (wp_processPoll captures activity hdue ih.1) trivial
      fun _ _ => trivial
    obtain ⟨htracks, hcaptures, hrolled⟩ := hpoll report rfl
    have hsamples : samplesOf (polls ++ [⟨captures, activity, report⟩]) =
        samplesOf polls ++ report.samples := by simp [samplesOf]
    have hactivity : durableActivity (polls ++ [⟨captures, activity, report⟩]) =
        durableActivity polls ++ if report.activityRolledBack then [] else activity := by
      rw [durableActivity, List.filter_append, List.flatMap_append, ← durableActivity]
      cases hr : report.activityRolledBack <;> simp [hr]
    rw [hsamples, hactivity]
    refine ⟨htracks, fun poll hmem => ?_⟩
    rcases List.mem_append.mp hmem with hold | hnew
    · exact ih.2 poll hold
    · rw [List.mem_singleton.mp hnew]
      exact ⟨hcaptures, hrolled⟩

/-- A part of a list whose parts make up the same whole lacks only empty ones. -/
theorem flatMap_filter_eq {α β : Type} {p : α → Bool} {f : α → List β} {xs : List α}
    (h : (xs.filter p).flatMap f = xs.flatMap f) : ∀ x ∈ xs, p x = false → f x = [] := by
  induction xs with
  | nil => exact fun x hx => absurd hx List.not_mem_nil
  | cons y ys ih =>
    have hle : ((ys.filter p).flatMap f).length ≤ (ys.flatMap f).length :=
      (List.Sublist.flatMap List.filter_sublist f).length_le
    intro x hx hpx
    cases hpy : p y with
    | true =>
      rw [List.filter_cons_of_pos hpy, List.flatMap_cons, List.flatMap_cons,
        List.append_cancel_left_eq] at h
      rcases List.mem_cons.mp hx with rfl | hx
      · rw [hpy] at hpx
        cases hpx
      · exact ih h x hx hpx
    | false =>
      rw [List.filter_cons_of_neg (by simp [hpy]), List.flatMap_cons] at h
      have hlength := congrArg List.length h
      rw [List.length_append] at hlength
      have hnil : f y = [] := List.length_eq_zero_iff.mp (by omega)
      rcases List.mem_cons.mp hx with rfl | hx
      · exact hnil
      · rw [hnil, List.nil_append] at h
        exact ih h x hx hpx

/-- The last append of each kind works. -/
structure LastSucceed (polls : List Poll) : Prop where
  capture : ∀ session s,
    ((samplesOf polls).filter fun s => s.capture.session = session).getLast? = some s →
      s.rolledBack = false
  activity : ∀ poll, (polls.filter fun poll => !poll.activity.isEmpty).getLast? = some poll →
    poll.report.activityRolledBack = false

/-- The file of every session has the durable ones of all its captures, and shows the latest. -/
structure SessionsExact (hash : Str → UInt64) (polls : List Poll) (d : StreamDir)
    (seg : SegmentState) : Prop where
  sampled : ∀ poll ∈ polls, poll.report.samples.map Sample.capture = poll.captures
  frames : ∀ session n, deriveComponent session = .ok n →
    seg.storage.fileAt n.sessionFilename d =
      sessionFrames (durableSamples hash (samplesOf polls)) session
  latest : ∀ session s,
    ((samplesOf polls).filter fun s => s.capture.session = session).getLast? = some s →
      lastDigest hash (durableSamples hash (samplesOf polls)) session = some (s.digest hash)

/-- The activity file has every batch of activity, each once and in order. -/
def ActivityExact (stem : Str) (polls : List Poll) (d : StreamDir) (seg : SegmentState) : Prop :=
  seg.storage.fileAt (activityFilename stem) d = polls.flatMap Poll.activity

/-- **When polls lose nothing.** After any polls of a segment the session files are exact, and the
activity file is if and only if no batch of activity was rolled back. -/
theorem polls_exact_iff (polled : Polled hash stem polls d seg) (last : LastSucceed polls) :
    (SessionsExact hash polls d seg ∧ ActivityExact stem polls d seg) ↔
      ∀ poll ∈ polls, poll.report.activityRolledBack = false := by
  obtain ⟨htracks, hpolls⟩ := polled.tracks
  obtain ⟨files, members, held, hfiles, hactivity⟩ := htracks.held
  have hsessions : SessionsExact hash polls d seg :=
    { sampled := fun poll h => (hpolls poll h).1
      frames := fun session n hn => by rw [held.fileAt, hfiles session n hn]
      latest := fun session s h => lastDigest_latest h (last.capture session s h) }
  rw [ActivityExact, held.fileAt, hactivity, durableActivity]
  constructor
  · rintro ⟨-, h⟩ poll hmem
    by_contra hrolled
    rw [Bool.not_eq_false] at hrolled
    exact (hpolls poll hmem).2 hrolled (flatMap_filter_eq h poll hmem (by simp [hrolled]))
  · intro h
    refine ⟨hsessions, ?_⟩
    rw [List.filter_eq_self.mpr fun poll hmem => by simp [h poll hmem]]

end Polled

/-! ## A batch that is rolled back

Two polls see no session, and one line of activity each. -/

/-- A poll of the sample segment that sees one line of activity. -/
def activityPoll (seg : SegmentState) (byte : UInt8) (now : ℕ) :
    Prog StreamDir Turn Empty (SegmentState × Except SegmentError PollReport) :=
  seg.processPoll (fun _ => 0) .byName (raise .closed) (fun _ => ⟨"0.0".toList, F64Text.valid_zero⟩) []
    [byte, newline] now 300000000000

/-- Both polls, where the turns of the first are given. -/
theorem polled_twice (ts : List Turn) (rolledBack : Bool)
    (h : ts = [] ∧ rolledBack = false ∨
      ts = [.ok, .ok, .ok, .ok, .ok, .ok, .ok, .fail 0] ∧ rolledBack = true) :
    ∃ d seg, Polled (fun _ => 0) "120000".toList
      [⟨[], [97, newline], ⟨[], rolledBack⟩⟩, ⟨[], [98, newline], ⟨[], false⟩⟩] d seg := by
  have hcreate : Polled (fun _ => 0) "120000".toList [] _ _ := .create (.inl (by simp))
    (rfl : run [] (SegmentState.create "120000".toList ⟨0, rfl⟩ 0 .utc none 300000000000) ∅ =
      (.done _, _))
  obtain ⟨rfl, rfl⟩ | ⟨rfl, rfl⟩ := h
  · have hfirst := hcreate.poll rfl
      (rfl : run [] (activityPoll _ 97 1000000000) _ = (.done (_, .ok ⟨[], false⟩), _))
    have hsecond := hfirst.poll rfl
      (rfl : run [] (activityPoll _ 98 6000000000) _ = (.done (_, .ok ⟨[], false⟩), _))
    exact ⟨_, _, hsecond⟩
  · have hfirst := hcreate.poll rfl
      (rfl : run [.ok, .ok, .ok, .ok, .ok, .ok, .ok, .fail 0] (activityPoll _ 97 1000000000) _ =
        (.done (_, .ok ⟨[], true⟩), _))
    have hsecond := hfirst.poll rfl
      (rfl : run [] (activityPoll _ 98 6000000000) _ = (.done (_, .ok ⟨[], false⟩), _))
    exact ⟨_, _, hsecond⟩

theorem lastSucceed_twice (rolledBack : Bool) : LastSucceed
    [⟨[], [97, newline], ⟨[], rolledBack⟩⟩, ⟨[], [98, newline], ⟨[], false⟩⟩] where
  capture := fun _ _ h => by cases h
  activity := by
    intro poll h
    cases h
    rfl

/-- Where both batches are appended, nothing is lost. -/
theorem polls_exact_twice : ∃ d seg,
    SessionsExact (fun _ => 0)
      [⟨[], [97, newline], ⟨[], false⟩⟩, ⟨[], [98, newline], ⟨[], false⟩⟩] d seg ∧
    ActivityExact "120000".toList
      [⟨[], [97, newline], ⟨[], false⟩⟩, ⟨[], [98, newline], ⟨[], false⟩⟩] d seg := by
  obtain ⟨d, seg, hpolled⟩ := polled_twice [] false (.inl ⟨rfl, rfl⟩)
  exact ⟨d, seg, (polls_exact_iff hpolled (lastSucceed_twice false)).mpr (by simp)⟩

/-- The first batch is rolled back, and no later poll appends it. -/
theorem batch_lost : ∃ d seg,
    Polled (fun _ => 0) "120000".toList
      [⟨[], [97, newline], ⟨[], true⟩⟩, ⟨[], [98, newline], ⟨[], false⟩⟩] d seg ∧
    LastSucceed [⟨[], [97, newline], ⟨[], true⟩⟩, ⟨[], [98, newline], ⟨[], false⟩⟩] ∧
    seg.storage.fileAt (activityFilename "120000".toList) d = [98, newline] ∧
    ¬ ActivityExact "120000".toList
      [⟨[], [97, newline], ⟨[], true⟩⟩, ⟨[], [98, newline], ⟨[], false⟩⟩] d seg := by
  obtain ⟨d, seg, hpolled⟩ := polled_twice _ true (.inr ⟨rfl, rfl⟩)
  obtain ⟨files, members, held, -, hactivity⟩ := hpolled.tracks.1.held
  have hfile : seg.storage.fileAt (activityFilename "120000".toList) d = [98, newline] := by
    rw [held.fileAt, hactivity]
    rfl
  refine ⟨d, seg, hpolled, lastSucceed_twice true, hfile, fun h => ?_⟩
  rw [ActivityExact, hfile] at h
  exact absurd h (by decide)

end SolstoneTmux
