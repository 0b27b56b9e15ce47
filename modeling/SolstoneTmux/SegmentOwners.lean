import SolstoneTmux.SegmentNames
import SolstoneTmux.SegmentOpening
import Mathlib.Logic.Relation

/-!
# Whose entries a stream holds

A `StreamRun` is a stream as this program alone writes it: segments are opened at any time and in any
zone, written, closed, left behind by a process that ends, recovered, and removed. It records which
opening each entry comes from. The invariant `Owned` is that an entry comes from the last opening of
its day and stem; so nothing that an operation finds under a name of its segment, whatever length or
attempt the name is for, belongs to another one (`Owned.owner_eq`).
-/

namespace SolstoneTmux

open Foundations Foundations.Prog

/-! ## Runs of a stream -/

/-- The day and the stem that a segment was opened with. -/
structure Opening where
  day : Str
  stem : Str
  deriving DecidableEq

/-- A stream, with the segments that were opened in it. `owner` is the number of the opening that an
entry comes from, and `held` the segment that a running process has in memory, with its number. -/
structure StreamRun where
  tree : StreamTree
  openings : List Opening
  owner : Str → OsName → ℕ
  held : Option (ℕ × SegmentState)

namespace StreamRun

/-- A stream without a segment. -/
def empty : StreamRun := ⟨∅, [], fun _ _ => 0, none⟩

/-- The directory of a day is replaced, and its new entries come from the opening `id`. -/
def claim (w : StreamRun) (day : Str) (id : ℕ) (d : StreamDir) : StreamRun :=
  { w with
    tree := w.tree.insert day d
    owner := fun other name =>
      if other = day ∧ (w.tree.day day)[name]?.isNone = true then id else w.owner other name }

end StreamRun

/-- A method of an open segment. -/
inductive SegmentCall
  | capture (capture : CaptureResult) (timestamp : F64Text) (now : ℕ)
  | activity (bytes : Bytes) (now : ℕ)
  | finalize (listing : Listing) (now : ℕ)

/-- The program of a method, without its answer. -/
def SegmentCall.prog (hash : Str → UInt64) (seg : SegmentState) :
    SegmentCall → Prog StreamDir Turn Empty SegmentState
  | capture c timestamp now => (seg.appendCapture hash c timestamp now).bind fun r => done r.1
  | activity bytes now => (seg.appendActivity bytes now).bind fun r => done r.1
  | finalize listing now => (seg.finalize listing now).bind fun r => done r.1

/-- The segment in memory after a program that returns it; a process whose program ends otherwise
has none. -/
def heldAfter {ε : Type} (id : ℕ) : Ended ε SegmentState → Option (ℕ × SegmentState)
  | .done seg => some (id, seg)
  | .raised _ | .killed => none

/-- One step of a stream. Only the look for a name meets no failure: every other call has any turns.
Recovery takes any candidate that it finds, and entries are changed or removed at any time. -/
inductive StreamStep (hash : Str → UInt64) : StreamRun → StreamRun → Prop
  | opened {w : StreamRun} {entries : EntryOrder} {ts : List Turn} {wallNow : OffsetDateTime}
      {monotonicNow : ℕ} {localOffset : UtcOffset} {tz : Option Str} {segmentInterval : ℕ}
      {start : LocalTime} {day stem : Str} {result : Ended SegmentError SegmentState}
      {d : StreamDir} (starts : wallNow.toOffset localOffset = some start)
      (picked : pickName (w.tree.looks entries) start false start = .chosen day stem)
      (ran : run ts
        (SegmentState.create stem wallNow monotonicNow localOffset tz segmentInterval)
        (w.tree.day day) = (result, d)) :
      StreamStep hash w
        { w.claim day w.openings.length d with
          openings := w.openings ++ [⟨day, stem⟩]
          held := heldAfter w.openings.length result }
  | called {w : StreamRun} {id : ℕ} {seg : SegmentState} {place : Opening} {c : SegmentCall}
      {ts : List Turn} {result : Ended Empty SegmentState} {d : StreamDir}
      (holds : w.held = some (id, seg)) (at_ : w.openings[id]? = some place)
      (ran : run ts (c.prog hash seg) (w.tree.day place.day) = (result, d)) :
      StreamStep hash w { w.claim place.day id d with held := heldAfter id result }
  | left {w : StreamRun} : StreamStep hash w { w with held := none }
  | recovered {w : StreamRun} {day name stem : Str} {decoder : Decoder} {listing : Listing}
      {options : RecoveryOptions} {segmentInterval : ℕ} {ts : List Turn}
      {result : Ended RecoveryError RecoveryRecord} {d : StreamDir}
      (found : (w.tree.day day)[OsName.str name]?.isSome = true)
      (candidate : candidateStem name = some stem)
      (ran : run ts (recoverCandidate decoder listing stem options segmentInterval)
        (w.tree.day day) = (result, d)) :
      StreamStep hash w (w.claim day (w.owner day (.str name)) d)
  | changed {w : StreamRun} {day : Str} {name : OsName} {node : Node Contents SegmentDir}
      (found : (w.tree.day day)[name]?.isSome = true) :
      StreamStep hash w { w with tree := w.tree.insert day ((w.tree.day day).insert name node) }
  | removed {w : StreamRun} {day : Str} {name : OsName} :
      StreamStep hash w { w with tree := w.tree.insert day ((w.tree.day day).erase name) }

/-- The states of a stream that was empty at first. -/
def Reaches (hash : Str → UInt64) (w : StreamRun) : Prop :=
  Relation.ReflTransGen (StreamStep hash) .empty w

/-- An opening that is picked is the one `open_segment` creates. -/
theorem openSegment_of_pick {look : LocalTime → DayLook} {ts : List Turn} {wallNow : OffsetDateTime}
    {monotonicNow : ℕ} {localOffset : UtcOffset} {tz : Option Str} {segmentInterval : ℕ}
    {tree : StreamTree} {start : LocalTime} {day stem : Str}
    {result : Ended SegmentError SegmentState} {d : StreamDir}
    (starts : wallNow.toOffset localOffset = some start)
    (picked : pickName look start false start = .chosen day stem)
    (ran : run ts (SegmentState.create stem wallNow monotonicNow localOffset tz segmentInterval)
      (tree.day day) = (result, d)) :
    openSegment look ts wallNow monotonicNow localOffset tz segmentInterval tree =
      (.ended result, tree.insert day d) := by
  simp only [openSegment, starts, picked, ran]

/-! ## The invariant -/

/-- No later opening has the day and the stem of this one. -/
def IsLast (openings : List Opening) (id : ℕ) : Prop :=
  ∀ place later, openings[id]? = some place → id < later → openings[later]? ≠ some place

/-- Every entry has a name of the opening it comes from, which is the last one with its day and
stem; and a process holds the last segment that was opened, until that is closed. -/
structure Owned (w : StreamRun) : Prop where
  entry : ∀ day name, (w.tree.day day)[name]?.isSome = true →
    ∃ place, w.openings[w.owner day name]? = some place ∧ place.day = day ∧
      OwnName place.stem name ∧ IsLast w.openings (w.owner day name)
  stems : ∀ place ∈ w.openings, place.stem.length = 6
  held : ∀ id seg, w.held = some (id, seg) → ∃ place, w.openings[id]? = some place ∧
    seg.Named place.stem ∧ (seg.closed = none → id + 1 = w.openings.length)

theorem StreamTree.day_insert (tree : StreamTree) (day other : Str) (d : StreamDir) :
    StreamTree.day (tree.insert day d) other = if day = other then d else tree.day other := by
  rw [StreamTree.day, StreamTree.day, Table.get_insert]
  split <;> rfl

namespace Owned

variable {w : StreamRun}

theorem empty : Owned .empty where
  entry := by
    intro day name h
    rw [StreamRun.empty, StreamTree.day, Table.get_empty, Option.getD_none, Table.get_empty] at h
    cases h
  stems := by
    intro place h
    cases h
  held := by
    rintro id seg ⟨⟩

/-- **Nothing under a name of a segment belongs to another.** -/
theorem owner_eq (h : Owned w) {id : ℕ} {place : Opening} (hplace : w.openings[id]? = some place)
    (hlast : IsLast w.openings id) {name : OsName} (hname : OwnName place.stem name)
    (hentry : (w.tree.day place.day)[name]?.isSome = true) : w.owner place.day name = id := by
  obtain ⟨other, hother, hday, hown, hlast'⟩ := h.entry _ _ hentry
  obtain ⟨text, rfl, hname⟩ := hname
  obtain ⟨_, ⟨⟩, hown⟩ := hown
  have hstem : other.stem = place.stem := by
    refine hown.stem_eq hname ?_
    rw [h.stems _ (List.mem_of_getElem? hother), h.stems _ (List.mem_of_getElem? hplace)]
  have hsame : other = place := by
    cases other
    cases place
    simp_all
  subst hsame
  rcases lt_trichotomy (w.owner other.day (.str text)) id with hlt | heq | hgt
  · exact absurd hplace (hlast' other id hother hlt)
  · exact heq
  · exact absurd hother (hlast other _ hplace hgt)

/-- The segment that a process holds open is the last one that was opened. -/
theorem isLast_of_held (h : Owned w) {id : ℕ} {seg : SegmentState}
    (hheld : w.held = some (id, seg)) (hopen : seg.closed = none) : IsLast w.openings id := by
  obtain ⟨-, -, -, hlength⟩ := h.held id seg hheld
  intro place later _ hlt heq
  have := (List.getElem?_eq_some_iff.mp heq).1
  have := hlength hopen
  omega

/-! ### What the steps keep -/

theorem withHeld (h : Owned w) {held : Option (ℕ × SegmentState)}
    (hheld : ∀ id seg, held = some (id, seg) → ∃ place, w.openings[id]? = some place ∧
      seg.Named place.stem ∧ (seg.closed = none → id + 1 = w.openings.length)) :
    Owned { w with held := held } :=
  ⟨h.entry, h.stems, hheld⟩

/-- An operation of the last opening of a place adds entries under its names. -/
theorem claim (h : Owned w) {id : ℕ} {place : Opening} (hplace : w.openings[id]? = some place)
    (hlast : IsLast w.openings id) {d : StreamDir}
    (hadds : AddsOwn place.stem (w.tree.day place.day) d) : Owned (w.claim place.day id d) where
  entry := by
    intro day name hentry
    simp only [StreamRun.claim, StreamTree.day_insert] at hentry ⊢
    by_cases hday : place.day = day
    · subst hday
      rw [if_pos rfl] at hentry
      by_cases hnew : (w.tree.day place.day)[name]?.isNone = true
      · rw [if_pos ⟨rfl, hnew⟩]
        refine ⟨place, hplace, rfl, (hadds name hentry).resolve_left ?_, hlast⟩
        simpa using hnew
      · rw [if_neg (fun hand => hnew hand.2)]
        exact h.entry _ _ (by simpa [Option.isSome_iff_ne_none] using hnew)
    · rw [if_neg hday] at hentry
      rw [if_neg (fun hand => hday hand.1.symm)]
      exact h.entry _ _ hentry
  stems := h.stems
  held := h.held

theorem getElem?_append_new {openings : List Opening} {place other : Opening} {id : ℕ}
    (h : (openings ++ [place])[id]? = some other) :
    openings[id]? = some other ∨ (id = openings.length ∧ other = place) := by
  rcases lt_or_ge id openings.length with hlt | hge
  · rw [List.getElem?_append_left hlt] at h
    exact .inl h
  · rw [List.getElem?_append_right hge] at h
    have hid := (List.getElem?_eq_some_iff.mp h).1
    rw [List.length_singleton] at hid
    obtain rfl : id = openings.length := by omega
    rw [Nat.sub_self] at h
    exact .inr ⟨rfl, (Option.some.inj h).symm⟩

/-- A new opening under names that are free takes no entry from an earlier one. -/
theorem opening (h : Owned w) {place : Opening} (hstem : place.stem.length = 6)
    (hfree : ∀ name, OwnName place.stem name → (w.tree.day place.day)[name]? = none) :
    Owned { w with openings := w.openings ++ [place], held := none } where
  entry := by
    intro day name hentry
    obtain ⟨other, hother, rfl, hown, hlast⟩ := h.entry day name hentry
    have hlt := (List.getElem?_eq_some_iff.mp hother).1
    have hother' : (w.openings ++ [place])[w.owner other.day name]? = some other := by
      rw [List.getElem?_append_left hlt, hother]
    refine ⟨other, hother', rfl, hown, ?_⟩
    intro same later hsame hlater hat
    rw [hother'] at hsame
    cases hsame
    rcases getElem?_append_new hat with hat | ⟨-, rfl⟩
    · exact hlast other later hother hlater hat
    · rw [hfree name hown] at hentry
      cases hentry
  stems := by
    intro other hother
    rcases List.mem_append.mp hother with hother | hother
    · exact h.stems other hother
    · rw [List.mem_singleton.mp hother]
      exact hstem
  held := by
    rintro id seg ⟨⟩

/-- A directory without a new entry. -/
theorem shrink (h : Owned w) {day : Str} {d : StreamDir}
    (hd : ∀ name : OsName, d[name]?.isSome = true → (w.tree.day day)[name]?.isSome = true) :
    Owned { w with tree := w.tree.insert day d } where
  entry := by
    intro other name hentry
    refine h.entry other name ?_
    dsimp only at hentry
    rw [StreamTree.day_insert] at hentry
    split at hentry
    · rename_i hday
      exact hday ▸ hd name hentry
    · exact hentry
  stems := h.stems
  held := h.held

/-- A directory that stays as it is. -/
theorem claim_same (h : Owned w) (day : Str) (id : ℕ) : Owned (w.claim day id (w.tree.day day)) where
  entry := by
    intro other name hentry
    simp only [StreamRun.claim, StreamTree.day_insert] at hentry ⊢
    have hentry' : (w.tree.day other)[name]?.isSome = true := by
      split at hentry
      · rename_i hday
        exact hday ▸ hentry
      · exact hentry
    rw [if_neg]
    · exact h.entry other name hentry'
    · rintro ⟨rfl, hnew⟩
      rw [Option.isNone_iff_eq_none.mp hnew] at hentry'
      cases hentry'
  stems := h.stems
  held := h.held

end Owned

/-! ## Steps -/

section Steps

variable {hash : Str → UInt64} {stem : Str} {d : StreamDir} {seg : SegmentState}

/-- A method of the segment of a stem. -/
theorem segmentCall_ends (c : SegmentCall) (hs : seg.Named stem) :
    wp anyTurn (c.prog hash seg)
      (endsIn (AddsOwn stem d) fun seg' d' => AddsOwn stem d d' ∧ seg'.Named stem) d := by
  have hd := AddsOwn.refl stem d
  cases c with
  | capture c timestamp now =>
    exact endsIn_bind (segmentEnds_appendCapture hs hd) fun r d' h => h
  | activity bytes now => exact endsIn_bind (segmentEnds_appendActivity hs hd) fun r d' h => h
  | finalize listing now => exact endsIn_bind (segmentEnds_finalize hs hd) fun r d' h => h

/-- The methods of a closed segment do nothing. -/
theorem run_segmentCall_closed (c : SegmentCall) (hclosed : seg.closed ≠ none) (ts : List Turn) :
    run ts (c.prog hash seg) d = (.done seg, d) := by
  obtain ⟨close, hclose⟩ := Option.ne_none_iff_exists'.mp hclosed
  cases c with
  | capture c timestamp now =>
    by_cases hpoisoned : seg.poisoned = true <;>
      simp [SegmentCall.prog, SegmentState.appendCapture, hpoisoned, hclose, Prog.bind]
  | activity bytes now =>
    by_cases hempty : bytes.isEmpty = true <;> by_cases hpoisoned : seg.poisoned = true <;>
      simp [SegmentCall.prog, SegmentState.appendActivity, hempty, hpoisoned, hclose, Prog.bind]
  | finalize listing now => simp [SegmentCall.prog, SegmentState.finalize, hclose, Prog.bind]

/-- A segment that was created under free names. -/
theorem named_of_create (hfree : NamesFree d stem) {ts : List Turn} {startWall : OffsetDateTime}
    {startMonotonic : ℕ} {localOffset : UtcOffset} {tz : Option Str} {interval : ℕ}
    {d' : StreamDir}
    (ran : run ts (SegmentState.create stem startWall startMonotonic localOffset tz interval) d =
      (.done seg, d')) : seg.Named stem := by
  have hwp : wp anyTurn
      (SegmentState.create stem startWall startMonotonic localOffset tz interval)
      (fun r _ => ∀ seg : SegmentState, r = .done seg → seg.Named stem) d := by
    refine wp_create hfree.1 hfree.2 ?_ fun _ _ _ => by rintro seg ⟨⟩
    rintro _ _ _ _ _ rfl rfl rfl rfl rfl
    refine ⟨fun _ => ⟨?_, ?_, ?_, ?_⟩, ?_⟩
    all_goals rintro seg ⟨⟩
    exact ⟨rfl, rfl, rfl, rfl⟩
  exact wp_run_eq ran hwp trivial (fun _ _ => trivial) seg rfl

theorem heldAfter_eq_some {ε : Type} {id other : ℕ} {result : Ended ε SegmentState}
    (h : heldAfter id result = some (other, seg)) : other = id ∧ result = .done seg := by
  cases result with
  | done seg' =>
    cases h
    exact ⟨rfl, rfl⟩
  | raised e => cases h
  | killed => cases h

/-- Every step keeps the invariant. -/
theorem Owned.step {w w' : StreamRun} (h : Owned w) (hstep : StreamStep hash w w') : Owned w' := by
  cases hstep with
  | @opened entries ts wallNow monotonicNow localOffset tz interval start day stem result d starts
      picked ran =>
    obtain ⟨u, hday, hstem, hfree⟩ : ∃ u : LocalTime, day = u.date.dateStr ∧ stem = u.stemStr ∧
        ¬ Taken w.tree u := by
      rcases pickName_looks start false start with ⟨u, hpick, hu⟩ | ⟨hpick, -⟩
      · rw [hpick] at picked
        cases picked
        exact ⟨u, rfl, rfl, hu.free⟩
      · rw [hpick] at picked
        cases picked
    subst hday hstem
    have hnew : ∀ name, OwnName u.stemStr name → (w.tree.day u.date.dateStr)[name]? = none := by
      rintro name ⟨text, rfl, hname⟩
      by_contra hsome
      exact hfree ⟨text, Option.isSome_iff_ne_none.mpr hsome, hname.isPrefix⟩
    have hopening := @opening _ h ⟨u.date.dateStr, u.stemStr⟩ u.length_stemStr hnew
    have hadds := addsOwn_of_run confined_create ran
    have hplace : (w.openings ++ [(⟨u.date.dateStr, u.stemStr⟩ : Opening)])[w.openings.length]? =
        some ⟨u.date.dateStr, u.stemStr⟩ := by simp
    have hlast : IsLast (w.openings ++ [⟨u.date.dateStr, u.stemStr⟩]) w.openings.length := by
      intro place later _ hlt hat
      have := (List.getElem?_eq_some_iff.mp hat).1
      rw [List.length_append, List.length_singleton] at this
      omega
    refine (hopening.claim hplace hlast hadds).withHeld fun id seg hheld => ?_
    obtain ⟨rfl, rfl⟩ := heldAfter_eq_some hheld
    refine ⟨_, hplace, named_of_create (namesFree_of_free hfree) ran, fun _ => ?_⟩
    simp [StreamRun.claim]
  | @called id seg place c ts result d holds at_ ran =>
    obtain ⟨place', hplace', hnamed, hlength⟩ := h.held id seg holds
    rw [at_] at hplace'
    cases hplace'
    by_cases hopen : seg.closed = none
    · have hends := wp_run_eq ran (segmentCall_ends c hnamed) trivial fun _ _ => trivial
      have hadds : AddsOwn place.stem (w.tree.day place.day) d := by
        cases result with
        | done seg' => exact hends.1
        | raised e => exact hends
        | killed => exact hends
      refine (h.claim at_ (h.isLast_of_held holds hopen) hadds).withHeld fun id' seg' hheld => ?_
      obtain ⟨rfl, rfl⟩ := heldAfter_eq_some hheld
      exact ⟨place, at_, hends.2, fun _ => hlength hopen⟩
    · rw [run_segmentCall_closed c hopen] at ran
      cases ran
      refine (h.claim_same place.day id).withHeld fun id' seg' hheld => ?_
      obtain ⟨rfl, hdone⟩ := heldAfter_eq_some hheld
      cases hdone
      exact ⟨place, at_, hnamed, hlength⟩
  | left => exact h.withHeld fun id seg hheld => by cases hheld
  | @recovered day name stem decoder listing options interval ts result d found candidate ran =>
    obtain ⟨place, hplace, rfl, hown, hlast⟩ := h.entry _ _ found
    obtain ⟨_, ⟨⟩, hname⟩ := hown
    obtain rfl := hname.candidateStem_eq candidate
    exact h.claim hplace hlast (addsOwn_of_run confined_recoverCandidate ran)
  | @changed day name node found =>
    refine h.shrink fun other hother => ?_
    rw [Table.get_insert] at hother
    split at hother
    · rename_i heq
      exact heq ▸ found
    · exact hother
  | @removed day name =>
    refine h.shrink fun other hother => ?_
    rw [Table.get_erase] at hother
    split at hother
    · cases hother
    · exact hother

theorem Reaches.owned {w : StreamRun} (h : Reaches hash w) : Owned w := by
  induction h with
  | refl => exact .empty
  | tail _ hstep ih => exact ih.step hstep

/-! ## Names are free and not shared -/

/-- **A segment is opened under a free name and never meets another.** In a stream that this program
alone has written, the name picked for a segment is the earliest free second from the second of the
start on, as long as the tree has fewer entries than the calendar has seconds left; creation meets no
collision; and whatever a segment that is held open, or a candidate of recovery, finds under any of
its names is its own. -/
theorem segment_names_unshared {w : StreamRun} (hw : Reaches hash w) :
    (∀ (entries : EntryOrder) (wallNow : OffsetDateTime) (localOffset : UtcOffset)
      (start : LocalTime), wallNow.toOffset localOffset = some start →
      w.tree.entries.length < start.secondsLeft → ∃ u : LocalTime,
        pickName (w.tree.looks entries) start false start = .chosen u.date.dateStr u.stemStr ∧
        EarliestFree w.tree (localSeconds wallNow localOffset) u ∧
        ∀ (startMonotonic : ℕ) (tz : Option Str) (interval : ℕ) (ts : List Turn) (path : RelPath),
          (run ts (SegmentState.create u.stemStr wallNow startMonotonic localOffset tz interval)
            (w.tree.day u.date.dateStr)).1 ≠ .raised (.collision path)) ∧
    (∀ (id : ℕ) (seg : SegmentState), w.held = some (id, seg) → seg.closed = none →
      ∃ place, w.openings[id]? = some place ∧ seg.Named place.stem ∧
        ∀ name, SegmentName place.stem name →
          (w.tree.day place.day)[OsName.str name]?.isSome = true →
          w.owner place.day (.str name) = id) ∧
    (∀ day name stem : Str, (w.tree.day day)[OsName.str name]?.isSome = true →
      candidateStem name = some stem →
      ∀ other, SegmentName stem other → (w.tree.day day)[OsName.str other]?.isSome = true →
        w.owner day (.str other) = w.owner day (.str name)) := by
  have h := hw.owned
  refine ⟨?_, ?_, ?_⟩
  · intro entries wallNow localOffset start hstart hleft
    obtain ⟨u, hpick, hu⟩ := pickName_earliest entries hleft
    have hseconds := LocalTime.seconds_of_ofSeconds hstart
    refine ⟨u, hpick, hseconds ▸ hu, fun startMonotonic tz interval ts path => ?_⟩
    exact create_not_collision (namesFree_of_free hu.free) _ _ _ _ _ _ _
  · intro id seg hheld hopen
    obtain ⟨place, hplace, hnamed, -⟩ := h.held id seg hheld
    refine ⟨place, hplace, hnamed, fun name hname hentry => ?_⟩
    exact h.owner_eq hplace (h.isLast_of_held hheld hopen) hname.own hentry
  · intro day name stem hentry hcandidate other hother hpresent
    obtain ⟨place, hplace, rfl, ⟨_, ⟨⟩, hname⟩, hlast⟩ := h.entry _ _ hentry
    obtain rfl := hname.candidateStem_eq hcandidate
    exact h.owner_eq hplace hlast hother.own hpresent

/-- The start of 1970. -/
def epoch : LocalTime := ⟨⟨0, rfl⟩, 0, 0, 0, by decide, by decide, by decide⟩

theorem not_taken_empty (t : LocalTime) : ¬ Taken ∅ t := by
  rintro ⟨name, hname, -⟩
  rw [StreamTree.day, Table.get_empty, Option.getD_none, Table.get_empty] at hname
  cases hname

/-- The stream after a segment was opened at the start of 1970. -/
theorem segment_names_unshared_first : ∃ (w : StreamRun) (seg : SegmentState),
    w.held = some (0, seg) ∧ w.openings = [⟨"19700101".toList, "000000".toList⟩] ∧
      ∀ name, SegmentName "000000".toList name →
        (w.tree.day "19700101".toList)[OsName.str name]?.isSome = true →
        w.owner "19700101".toList (.str name) = 0 := by
  have hpick : pickName (StreamTree.looks ∅ .byName) epoch false epoch = _ :=
    pickName_of_free (not_taken_empty epoch) epoch false
  have hstart : OffsetDateTime.toOffset ⟨0, rfl⟩ .utc = some epoch := rfl
  have hstep : StreamStep (fun _ => 0) .empty _ :=
    .opened hstart hpick
      (rfl : run [] (SegmentState.create epoch.stemStr ⟨0, rfl⟩ 0 .utc none 300000000000) _ =
        (.done _, _))
  have hpart := (segment_names_unshared (Relation.ReflTransGen.single hstep)).2.1 0 _ rfl rfl
  obtain ⟨place, hplace, -, hnames⟩ := hpart
  cases hplace
  exact ⟨_, _, rfl, by decide, fun name hname hentry => hnames name hname hentry⟩

/-- A start between two seconds gets the name of the second before it. -/
theorem second_before_start :
    ¬ ∀ (tree : StreamTree) (entries : EntryOrder) (wallNow : OffsetDateTime)
      (localOffset : UtcOffset) (start : LocalTime), wallNow.toOffset localOffset = some start →
      tree.entries.length < start.secondsLeft → ∃ u : LocalTime,
        pickName (tree.looks entries) start false start = .chosen u.date.dateStr u.stemStr ∧
        wallNow.unixTimestampNanos + localOffset.wholeSeconds * nanosPerSecond ≤
          u.seconds * nanosPerSecond := by
  intro h
  obtain ⟨u, hpick, hle⟩ := h ∅ .byName ⟨500000000, rfl⟩ .utc epoch rfl (by decide)
  rw [pickName_of_free (not_taken_empty epoch)] at hpick
  injection hpick with hday hstem
  rw [← LocalTime.eq_of_names hday hstem] at hle
  exact absurd hle (by decide)

end Steps

end SolstoneTmux
