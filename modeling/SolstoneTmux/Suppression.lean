import SolstoneTmux.Segment
import SolstoneTmux.Foundations.Join
import Mathlib.Data.Set.Function

/-!
# Unchanged screens

`appendCapture` leaves a capture out when its digest is that of the session's last durable frame.
The digest is a hash of one text, the window's id and the texts of the panes joined by newlines, so
that two screens with the same lines in a row have one digest even where the lines are cut
differently into panes (`Recut`). `suppression_exact_iff` says that the answers are right but for
that.

`Followed` is every state that a segment reaches, together with the last durable capture of each
session.
-/

namespace SolstoneTmux

open Foundations Foundations.Prog SegmentState

/-! ## Screens -/

/-- What a screen shows: the window's id, then the texts of its panes in the order of their ids. -/
def screen (capture : CaptureResult) : List Str :=
  capture.window.id ::
    (capture.panes.insertionSort fun left right => strLe left.id right.id).map PaneInfo.content

/-- The text that is hashed. -/
def screenText (capture : CaptureResult) : Str := join '\n' (screen capture)

theorem captureDigest_eq (hash : Str → UInt64) (capture : CaptureResult) :
    captureDigest hash capture = hash (screenText capture) := rfl

/-- Two captures show the same lines in a row, but not in the same panes. -/
def Recut (last capture : CaptureResult) : Prop :=
  pieces '\n' (screen last) = pieces '\n' (screen capture) ∧
    pieceCounts '\n' (screen last) ≠ pieceCounts '\n' (screen capture)

theorem screenText_eq_iff {last capture : CaptureResult} :
    screenText last = screenText capture ↔ screen last = screen capture ∨ Recut last capture := by
  have hsame : screen last = screen capture ↔ _ := eq_iff_pieces '\n'
  rw [screenText, screenText, join_eq_iff (by simp [screen]) (by simp [screen]), hsame, Recut,
    ← and_or_left]
  exact (and_iff_left (Decidable.em _)).symm

theorem Recut.screen_ne {last capture : CaptureResult} (h : Recut last capture) :
    screen last ≠ screen capture := fun heq => h.2 (by rw [heq])

/-! ## What the operations do to the digests -/

section Operations

variable {hash : Str → UInt64} {self : SegmentState} {d : StreamDir} {A : Turn → Prop}

theorem wp_create_digests (stem : Str) (startWall : OffsetDateTime) (startMonotonic : ℕ)
    (localOffset : UtcOffset) (tz : Option Str) (interval : ℕ) :
    wp A (create stem startWall startMonotonic localOffset tz interval)
      (endsIn (fun _ => True) fun seg _ => seg.digests = ∅) d := by
  unfold create
  refine wp_then (fun _ _ => ?_) (fun _ _ => trivial) (fun _ => trivial) _
  refine wp_then (fun dirExists _ => ?_) (fun _ _ => trivial) (fun _ => trivial) _
  split
  · trivial
  refine wp_then (fun metaExists _ => ?_) (fun _ _ => trivial) (fun _ => trivial) _
  split
  · trivial
  refine wp_then (fun _ _ => ?_) (fun _ _ => trivial) (fun _ => trivial) _
  refine wp_then (fun _ _ => ?_) (fun _ _ => trivial) (fun _ => trivial) _
  refine wp_then (fun _ _ => ?_) (fun _ _ => trivial) (fun _ => trivial) _
  refine wp_then (fun _ _ => ?_) (fun _ _ => trivial) (fun _ => trivial) _
  rfl

/-- A capture is left out when its digest is the session's; a frame that was appended replaces that
digest, and no other answer does. -/
structure CaptureAnswered (hash : Str → UInt64) (seg : SegmentState) (capture : CaptureResult)
    (r : SegmentState × Except SegmentError AppendOutcome) : Prop where
  unchanged : r.2 = .ok .unchanged ↔ seg.poisoned = false ∧ seg.closed = none ∧
    seg.digests[capture.session]? = some (captureDigest hash capture)
  appended : ∀ n, r.2 = .ok (.appended n) →
    r.1.digests = seg.digests.insert capture.session (captureDigest hash capture)
  otherwise : (∀ n, r.2 ≠ .ok (.appended n)) → r.1.digests = seg.digests

theorem wp_appendCapture_answered (capture : CaptureResult) (timestamp : F64Text) (now : ℕ) :
    wp A (self.appendCapture hash capture timestamp now : Prog _ _ Empty _)
      (endsIn (fun _ => True) fun r _ => CaptureAnswered hash self capture r) d := by
  have hrefused : ∀ e : SegmentError, (self.poisoned = false ∧ self.closed = none ∧
      self.digests[capture.session]? = some (captureDigest hash capture) → False) →
        CaptureAnswered hash self capture (self, .error e) := fun _ h =>
    { unchanged := ⟨fun hr => (by cases hr), fun hsame => (h hsame).elim⟩
      appended := fun _ h => by cases h
      otherwise := fun _ => rfl }
  unfold appendCapture
  dsimp only
  split
  · rename_i hpoisoned
    exact hrefused _ fun h => by simp [hpoisoned] at h
  split
  · rename_i hclosed
    exact hrefused _ fun h => by simp [h.2.1] at hclosed
  rename_i hpoisoned hclosed
  split
  · rename_i hdigest
    exact
      { unchanged := ⟨fun _ => ⟨by simpa using hpoisoned, by simpa using hclosed, hdigest⟩,
          fun _ => rfl⟩
        appended := fun _ h => by cases h
        otherwise := fun _ => rfl }
  rename_i hdigest
  split
  · exact hrefused _ fun h => hdigest h.2.2
  split
  · exact hrefused _ fun h => hdigest h.2.2
  refine wp_then (fun r _ => ?_) (fun _ _ => trivial) (fun _ => trivial) _
  split
  · exact
      { unchanged := ⟨fun h => (by cases h), fun h => absurd h.2.2 hdigest⟩
        appended := fun _ h => by cases h
        otherwise := fun _ => rfl }
  · exact
      { unchanged := ⟨fun h => (by cases h), fun h => absurd h.2.2 hdigest⟩
        appended := fun _ _ => rfl
        otherwise := fun h => absurd rfl (h _) }

theorem wp_appendActivity_digests (bytes : Bytes) (now : ℕ) :
    wp A (self.appendActivity bytes now : Prog _ _ Empty _)
      (endsIn (fun _ => True) fun r _ => r.1.digests = self.digests) d := by
  unfold appendActivity
  dsimp only
  split
  · rfl
  split
  · rfl
  split
  · rfl
  split
  · rfl
  refine wp_then (fun r _ => ?_) (fun _ _ => trivial) (fun _ => trivial) _
  split <;> rfl

theorem digests_closing (answer : Except SegmentError SegmentClose) :
    (self.closing answer).1.digests = self.digests := by
  cases answer <;> rfl

theorem wp_removeConfirmedEmpty_digests (listing : Listing) :
    wp A (self.removeConfirmedEmpty listing : Prog _ _ Empty _)
      (endsIn (fun _ => True) fun r _ => r.1.digests = self.digests) d := by
  unfold removeConfirmedEmpty
  split
  · rfl
  split
  · rfl
  refine wp_then (fun answer _ => ?_) (fun _ _ => trivial) (fun _ => trivial) _
  exact digests_closing answer

theorem wp_finalize_digests (listing : Listing) (now : ℕ) :
    wp A (self.finalize listing now : Prog _ _ Empty _)
      (endsIn (fun _ => True) fun r _ => r.1.digests = self.digests) d := by
  unfold finalize
  dsimp only
  split
  · rfl
  split
  · rfl
  split
  · exact wp_removeConfirmedEmpty_digests listing
  refine wp_then (fun written _ => ?_) (fun _ _ => trivial) (fun _ => trivial) _
  split
  · rfl
  refine wp_then (fun flushed _ => ?_) (fun _ _ => trivial) (fun _ => trivial) _
  split
  · rfl
  refine wp_then (fun answer _ => ?_) (fun _ _ => trivial) (fun _ => trivial) _
  exact digests_closing answer

end Operations

/-! ## Runs of a segment -/

/-- The last durable captures after an answer. -/
def durableAfter (durable : Table Str CaptureResult) (capture : CaptureResult) :
    Except SegmentError AppendOutcome → Table Str CaptureResult
  | .ok (.appended _) => durable.insert capture.session capture
  | _ => durable

/-- The states that a segment reaches from its creation, and the last durable capture of every
session. The calls may fail, and the stream directory may be any between two operations. -/
inductive Followed (hash : Str → UInt64) : SegmentState → Table Str CaptureResult → Prop
  | create {stem : Str} {startWall : OffsetDateTime} {startMonotonic : ℕ} {localOffset : UtcOffset}
      {tz : Option Str} {interval : ℕ} {ts : List Turn} {d d' : StreamDir} {seg : SegmentState}
      (run : run ts (create stem startWall startMonotonic localOffset tz interval) d =
        (.done seg, d')) : Followed hash seg ∅
  | capture {seg seg' : SegmentState} {durable : Table Str CaptureResult} {capture : CaptureResult}
      {timestamp : F64Text} {now : ℕ} {ts : List Turn} {d d' : StreamDir}
      {answer : Except SegmentError AppendOutcome} (before : Followed hash seg durable)
      (run : run ts (seg.appendCapture hash capture timestamp now : Prog _ _ Empty _) d =
        (.done (seg', answer), d')) : Followed hash seg' (durableAfter durable capture answer)
  | activity {seg seg' : SegmentState} {durable : Table Str CaptureResult} {bytes : Bytes}
      {now : ℕ} {ts : List Turn} {d d' : StreamDir} {answer : Except SegmentError Unit}
      (before : Followed hash seg durable)
      (run : run ts (seg.appendActivity bytes now : Prog _ _ Empty _) d =
        (.done (seg', answer), d')) : Followed hash seg' durable
  | finalize {seg seg' : SegmentState} {durable : Table Str CaptureResult} {listing : Listing}
      {now : ℕ} {ts : List Turn} {d d' : StreamDir} {answer : Except SegmentError SegmentClose}
      (before : Followed hash seg durable)
      (run : run ts (seg.finalize listing now : Prog _ _ Empty _) d =
        (.done (seg', answer), d')) : Followed hash seg' durable
  | removeEmpty {seg seg' : SegmentState} {durable : Table Str CaptureResult} {listing : Listing}
      {ts : List Turn} {d d' : StreamDir} {answer : Except SegmentError SegmentClose}
      (before : Followed hash seg durable)
      (run : run ts (seg.removeConfirmedEmpty listing : Prog _ _ Empty _) d =
        (.done (seg', answer), d')) : Followed hash seg' durable

section Followed

variable {hash : Str → UInt64} {seg seg' : SegmentState} {durable : Table Str CaptureResult}
  {capture : CaptureResult} {timestamp : F64Text} {now : ℕ} {ts : List Turn} {d d' : StreamDir}
  {answer : Except SegmentError AppendOutcome}

theorem captureAnswered_of_run
    (hrun : run ts (seg.appendCapture hash capture timestamp now : Prog _ _ Empty _) d =
      (.done (seg', answer), d')) : CaptureAnswered hash seg capture (seg', answer) :=
  wp_run_eq hrun (wp_appendCapture_answered capture timestamp now) trivial
    fun _ _ => trivial

theorem CaptureAnswered.digests {answer : Except SegmentError AppendOutcome}
    (h : CaptureAnswered hash seg capture (seg', answer))
    (hseg : ∀ session : Str, seg.digests[session]? = durable[session]?.map (captureDigest hash))
    (session : Str) : seg'.digests[session]? =
      (durableAfter durable capture answer)[session]?.map (captureDigest hash) := by
  by_cases happended : ∃ n, answer = .ok (.appended n)
  · obtain ⟨n, rfl⟩ := happended
    rw [h.appended n rfl, durableAfter, Table.get_insert, Table.get_insert]
    split
    · rfl
    · exact hseg session
  · have hsame : durableAfter durable capture answer = durable := by
      unfold durableAfter
      split
      · exact absurd ⟨_, rfl⟩ happended
      · rfl
    rw [h.otherwise fun n hn => happended ⟨n, hn⟩, hsame]
    exact hseg session

/-- **The digests are those of the last durable captures.** -/
theorem Followed.digests (h : Followed hash seg durable) (session : Str) :
    seg.digests[session]? = durable[session]?.map (captureDigest hash) := by
  induction h generalizing session with
  | create hrun =>
    have hnone := wp_run_eq hrun (wp_create_digests _ _ _ _ _ _) trivial
      fun _ _ => trivial
    rw [show _ = _ from hnone, Table.get_empty, Table.get_empty]
    rfl
  | capture _ hrun ih => exact (captureAnswered_of_run hrun).digests ih session
  | activity _ hrun ih =>
    have hsame := wp_run_eq hrun (wp_appendActivity_digests _ _) trivial
      fun _ _ => trivial
    rw [show _ = _ from hsame]
    exact ih session
  | finalize _ hrun ih =>
    have hsame := wp_run_eq hrun (wp_finalize_digests _ _) trivial
      fun _ _ => trivial
    rw [show _ = _ from hsame]
    exact ih session
  | removeEmpty _ hrun ih =>
    have hsame := wp_run_eq hrun (wp_removeConfirmedEmpty_digests _) trivial
      fun _ _ => trivial
    rw [show _ = _ from hsame]
    exact ih session

/-- The texts that are hashed for the last durable captures and for one more. -/
def hashed (durable : Table Str CaptureResult) (capture : CaptureResult) : Set Str :=
  {text | ∃ shown, (shown = capture ∨ shown ∈ durable.vals) ∧ text = screenText shown}

/-- The digest of a screen is the last durable one's when the screen is, or its lines are cut
differently. -/
theorem Followed.digest_iff (h : Followed hash seg durable)
    (hinj : Set.InjOn hash (hashed durable capture)) :
    seg.digests[capture.session]? = some (captureDigest hash capture) ↔
      ∃ last, durable[capture.session]? = some last ∧
        (screen last = screen capture ∨ Recut last capture) := by
  rw [h.digests capture.session, Option.map_eq_some_iff]
  refine exists_congr fun last => and_congr_right fun hlast => ?_
  rw [captureDigest_eq, captureDigest_eq, ← screenText_eq_iff]
  exact hinj.eq_iff ⟨last, .inr (Table.mem_vals.mpr ⟨_, hlast⟩), rfl⟩ ⟨capture, .inl rfl, rfl⟩

/-- **When a screen is left out.** The answer says whether the screen is that of the session's last
durable frame exactly where that frame's lines are not cut differently; a segment that takes no
more frames leaves nothing out. -/
theorem suppression_exact_iff (followed : Followed hash seg durable)
    (injective : Set.InjOn hash (hashed durable capture))
    (run : run ts (seg.appendCapture hash capture timestamp now : Prog _ _ Empty _) d =
      (.done (seg', answer), d')) :
    (answer = .ok .unchanged ↔
        ∃ last, durable[capture.session]? = some last ∧ screen last = screen capture) ↔
      ∀ last, durable[capture.session]? = some last →
        if seg.poisoned = false ∧ seg.closed = none then ¬ Recut last capture
        else screen last ≠ screen capture := by
  have hanswer := (captureAnswered_of_run run).unchanged
  rw [followed.digest_iff injective, ← and_assoc] at hanswer
  rw [show answer = .ok .unchanged ↔ _ from hanswer]
  cases durable[capture.session]? with
  | none => simp
  | some last =>
    simp only [Option.some.injEq, exists_eq_left', forall_eq']
    by_cases hopen : seg.poisoned = false ∧ seg.closed = none
    · simp only [hopen, and_self, true_and, if_true]
      exact ⟨fun h hcut => hcut.screen_ne (h.mp (.inr hcut)),
        fun h => or_iff_left h⟩
    · rw [if_neg hopen]
      simp only [hopen, false_and, false_iff, ne_eq]

end Followed

/-! ## A pane that is split

The border of the new pane takes the place of a blank line. -/

/-- A pane of the sample window with its first row, its height and its text. -/
def samplePane (id : String) (top height : UInt32) (content : String) : PaneInfo where
  id := id.toList
  index := 0
  left := 0
  top := top
  width := 80
  height := height
  active := top = 0
  cursorX := 0
  cursorY := 0
  cursorVisible := true
  alternateOn := false
  paneInMode := false
  content := content.toList

/-- A capture of the session `main` with these panes in its window. -/
def sampleCapture (panes : List PaneInfo) : CaptureResult where
  session := "main".toList
  window := { id := "@1".toList, index := 0, name := "sh".toList, active := true }
  windows := [{ id := "@1".toList, index := 0, name := "sh".toList, active := true }]
  panes := panes
  outputOnly := false

/-- A window with one pane, whose second row is blank. -/
def beforeSplit : CaptureResult := sampleCapture [samplePane "%1" 0 3 "a\n\nb\n"]

/-- The window once that pane is split in the middle. -/
def afterSplit : CaptureResult :=
  sampleCapture [samplePane "%1" 0 1 "a\n", samplePane "%2" 2 1 "b\n"]

/-- The last durable captures after the first frame. -/
def durableBeforeSplit : Table Str CaptureResult := durableAfter ∅ beforeSplit (.ok (.appended 1))

/-- A hash of texts. -/
def sampleHash (text : Str) : UInt64 := text.foldl (fun h c => h * 31 + UInt64.ofNat c.toNat) 7

/-- The creation of a segment. -/
def sampleCreate : Prog StreamDir Turn SegmentError SegmentState :=
  create "120000".toList ⟨0, rfl⟩ 0 .utc none 300000000000

/-- After a frame of the one pane, neither screen is appended. -/
theorem followed_beforeSplit : ∃ seg, Followed sampleHash seg durableBeforeSplit ∧
    ∀ capture ∈ [beforeSplit, afterSplit], ∀ d, ∃ seg',
      run [] (seg.appendCapture sampleHash capture ⟨"5.0".toList, by decide⟩ 5000000000 :
        Prog _ _ Empty _) d = (.done (seg', .ok .unchanged), d) := by
  have hcreated : run [] sampleCreate ∅ = (.done _, _) := rfl
  have hcapture := (Followed.create hcreated).capture
    (rfl : run [] (appendCapture sampleHash _ beforeSplit ⟨"0.0".toList, F64Text.valid_zero⟩ 1000000000)
      (run [] sampleCreate ∅).2 = (.done (_, .ok (.appended 1)), _))
  refine ⟨_, hcapture, fun capture h d => ?_⟩
  simp only [List.mem_cons, List.not_mem_nil, or_false] at h
  obtain rfl | rfl := h
  · exact ⟨_, rfl⟩
  · exact ⟨_, rfl⟩

theorem injOn_sampleHash {capture : CaptureResult} (h : capture ∈ [beforeSplit, afterSplit]) :
    Set.InjOn sampleHash (hashed durableBeforeSplit capture) := by
  have htext : ∀ shown ∈ [beforeSplit, afterSplit], screenText shown = "@1\na\n\nb\n".toList := by
    decide
  have hvals : durableBeforeSplit.vals = [beforeSplit] := rfl
  have hmem : ∀ text ∈ hashed durableBeforeSplit capture, text = "@1\na\n\nb\n".toList := by
    rintro text ⟨shown, hshown, rfl⟩
    refine htext shown ?_
    rw [hvals, List.mem_singleton] at hshown
    obtain rfl | rfl := hshown
    · exact h
    · exact List.mem_cons_self
  exact fun s hs t ht _ => (hmem s hs).trans (hmem t ht).symm

theorem durableBeforeSplit_main :
    durableBeforeSplit["main".toList]? = some beforeSplit := by
  rw [durableBeforeSplit, durableAfter]
  exact Table.get_insert_self _ _ _

/-- The one screen is left out after its frame, as it should be. -/
theorem suppression_exact_unchanged : ∃ seg seg' d d', Followed sampleHash seg durableBeforeSplit ∧
    run [] (seg.appendCapture sampleHash beforeSplit ⟨"5.0".toList, by decide⟩ 5000000000 :
      Prog _ _ Empty _) d = (.done (seg', .ok .unchanged), d') ∧
    ∃ last, durableBeforeSplit[beforeSplit.session]? = some last ∧
      screen last = screen beforeSplit := by
  obtain ⟨seg, hfollowed, hruns⟩ := followed_beforeSplit
  obtain ⟨seg', hrun⟩ := hruns beforeSplit (by simp) ∅
  refine ⟨seg, seg', ∅, ∅, hfollowed, hrun, ?_⟩
  refine ((suppression_exact_iff hfollowed (injOn_sampleHash (by simp)) hrun).mpr ?_).mp rfl
  intro last hlast
  obtain rfl : beforeSplit = last := Option.some.inj (durableBeforeSplit_main.symm.trans hlast)
  split
  · exact fun hcut => hcut.2 rfl
  · rename_i hclosed
    have hopen := ((captureAnswered_of_run hrun).unchanged.mp rfl)
    exact absurd ⟨hopen.1, hopen.2.1⟩ hclosed

/-- A pane is split, and the new screen is left out as unchanged. -/
theorem split_left_out : ∃ seg seg' d d', Followed sampleHash seg durableBeforeSplit ∧
    Set.InjOn sampleHash (hashed durableBeforeSplit afterSplit) ∧
    run [] (seg.appendCapture sampleHash afterSplit ⟨"5.0".toList, by decide⟩ 5000000000 :
      Prog _ _ Empty _) d = (.done (seg', .ok .unchanged), d') ∧
    ¬ ∃ last, durableBeforeSplit[afterSplit.session]? = some last ∧
      screen last = screen afterSplit := by
  obtain ⟨seg, hfollowed, hruns⟩ := followed_beforeSplit
  obtain ⟨seg', hrun⟩ := hruns afterSplit (by simp) ∅
  refine ⟨seg, seg', ∅, ∅, hfollowed, injOn_sampleHash (by simp), hrun, ?_⟩
  rintro ⟨last, hlast, hscreen⟩
  obtain rfl : beforeSplit = last := Option.some.inj (durableBeforeSplit_main.symm.trans hlast)
  exact absurd hscreen (by decide)

end SolstoneTmux
