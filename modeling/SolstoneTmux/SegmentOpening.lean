import SolstoneTmux.Agreement
import SolstoneTmux.Calendar
import SolstoneTmux.Foundations.Maintain
import Mathlib.Data.List.Perm.Subperm

/-!
# Opening a segment

`openSegment` finds a free name for the segment and creates it; the offset and the name of the time
zone are its input. `pickName` is the loop over the names: it goes from the second of the start on,
second by second and into the directories of later days, until no entry of the day's directory begins
with the stem. A directory that cannot be read ends the loop with the natural name.

A stream is a table of its directories by the name of their day; a directory that is not there is
empty, since looking for a name makes it. `pickName_looks` says which second the loop ends at, and
`exists_free` that a finite tree has one before the end of the calendar.
-/

namespace SolstoneTmux

open Foundations Foundations.Prog

/-! ## Picking a name -/

/-- What one round of the loop sees of the directory of its day: `unavailable` when the directory
cannot be made private, `unreadable` when it cannot be listed, and else its entries in the order of
`read_dir`, `none` for one that could not be read. -/
inductive DayLook
  | unavailable (error : PathError)
  | unreadable
  | entries (names : List (Option OsName))

/-- How the scan of one directory ends. -/
inductive NameScan
  | taken
  | free
  | scanError
  deriving DecidableEq

/-- The scan of one directory for entries that begin with a stem. -/
def scanNames (stem : Str) : List (Option OsName) → NameScan
  | [] => .free
  | none :: _ => .scanError
  | some name :: names =>
    if name.toStr.any (stem.isPrefixOf ·) then .taken else scanNames stem names

/-- How the loop of `open_segment` ends; `calendarEnd` is its panic. -/
inductive NamePick
  | chosen (day stem : Str)
  | failed (error : PathError)
  | calendarEnd

/-- The loop of `open_segment`, at the second `t`. -/
def pickName (look : LocalTime → DayLook) (natural : LocalTime) (bumped : Bool) (t : LocalTime) :
    NamePick :=
  match look t with
  | .unavailable error =>
    if bumped then .chosen natural.date.dateStr natural.stemStr else .failed error
  | .unreadable => .chosen natural.date.dateStr natural.stemStr
  | .entries names =>
    match scanNames t.stemStr names with
    | .scanError => .chosen natural.date.dateStr natural.stemStr
    | .free => .chosen t.date.dateStr t.stemStr
    | .taken =>
      match _hnext : t.next with
      | none => .calendarEnd
      | some u => pickName look natural true u
termination_by (LocalTime.lastSecond - t.seconds).toNat
decreasing_by
  have := LocalTime.seconds_next _hnext
  have hle := u.seconds_le_lastSecond
  omega

/-- The directories of a stream, by the name of their day. -/
abbrev StreamTree := Table Str StreamDir

/-- The directory of a day. -/
def StreamTree.day (tree : StreamTree) (day : Str) : StreamDir := tree[day]?.getD ∅

/-- How opening a segment ends, unless it panics. -/
inductive Opened
  | ended (result : Ended SegmentError SegmentState)
  | panicked

/-- `open_segment`, after the zone was read. -/
def openSegment (look : LocalTime → DayLook) (ts : List Turn) (wallNow : OffsetDateTime)
    (monotonicNow : ℕ) (localOffset : UtcOffset) (tz : Option Str) (segmentInterval : ℕ)
    (tree : StreamTree) : Opened × StreamTree :=
  match wallNow.toOffset localOffset with
  | none => (.panicked, tree)
  | some start =>
    match pickName look start false start with
    | .calendarEnd => (.panicked, tree)
    | .failed error => (.ended (.raised (.path error)), tree)
    | .chosen day stem =>
      let (result, d) := run ts
        (SegmentState.create stem wallNow monotonicNow localOffset tz segmentInterval)
        (tree.day day)
      (.ended result, tree.insert day d)

/-! ## The second the loop ends at -/

/-- The order in which `fs::read_dir` lists a stream directory: every entry. -/
structure EntryOrder where
  order : StreamDir → List OsName
  mem : ∀ d name, name ∈ order d ↔ d[name]?.isSome = true

/-- The entries in the order of their names. -/
def EntryOrder.byName : EntryOrder where
  order := fun d => d.keys
  mem := by
    intro d name
    rw [Std.ExtTreeMap.mem_keys, Std.ExtTreeMap.isSome_getElem?_iff_mem]

/-- What the loop sees of a tree that can be read. -/
def StreamTree.looks (tree : StreamTree) (entries : EntryOrder) (t : LocalTime) : DayLook :=
  .entries ((entries.order (tree.day t.date.dateStr)).map some)

/-- An entry of the day's directory begins with the stem of the second. -/
def Taken (tree : StreamTree) (t : LocalTime) : Prop :=
  ∃ name, (tree.day t.date.dateStr)[OsName.str name]?.isSome = true ∧ t.stemStr <+: name

/-- A second is the earliest one from `from_` on that is not taken. -/
structure EarliestFree (tree : StreamTree) (start : ℤ) (t : LocalTime) : Prop where
  le : start ≤ t.seconds
  free : ¬ Taken tree t
  before : ∀ u : LocalTime, start ≤ u.seconds → u.seconds < t.seconds → Taken tree u

section Pick

variable {tree : StreamTree} {entries : EntryOrder} {t : LocalTime}

theorem scanNames_eq_taken (stem : Str) (names : List OsName) :
    scanNames stem (names.map some) = .taken ↔ ∃ name, OsName.str name ∈ names ∧ stem <+: name := by
  induction names with
  | nil => simp [scanNames]
  | cons name names ih =>
    rw [List.map_cons, scanNames]
    cases name with
    | nonUtf8 bytes => simpa [OsName.toStr] using ih
    | str text =>
      by_cases h : stem <+: text
      · rw [if_pos (by simpa using h)]
        exact iff_of_true rfl ⟨text, List.mem_cons_self, h⟩
      · rw [if_neg (by simpa using h), ih]
        refine exists_congr fun other => and_congr_left fun hpre => ?_
        rw [List.mem_cons, or_iff_right]
        intro heq
        exact h (OsName.str.inj heq ▸ hpre)

theorem scanNames_eq_free (stem : Str) (names : List OsName) :
    scanNames stem (names.map some) = .free ↔
      ¬ ∃ name, OsName.str name ∈ names ∧ stem <+: name := by
  rw [← scanNames_eq_taken]
  induction names with
  | nil => simp [scanNames]
  | cons name names ih =>
    rw [List.map_cons, scanNames]
    split
    · simp
    · exact ih

theorem scan_of_taken (h : Taken tree t) :
    scanNames t.stemStr ((entries.order (tree.day t.date.dateStr)).map some) = .taken := by
  rw [scanNames_eq_taken]
  simp only [entries.mem]
  exact h

theorem scan_of_free (h : ¬ Taken tree t) :
    scanNames t.stemStr ((entries.order (tree.day t.date.dateStr)).map some) = .free := by
  rw [scanNames_eq_free]
  simp only [entries.mem]
  exact h

/-- A free second ends the loop. -/
theorem pickName_of_free (h : ¬ Taken tree t) (natural : LocalTime) (bumped : Bool) :
    pickName (tree.looks entries) natural bumped t = .chosen t.date.dateStr t.stemStr := by
  rw [pickName, StreamTree.looks]
  dsimp only
  rw [scan_of_free h]

/-- From a second that is taken the loop goes to the next. -/
theorem pickName_of_taken (h : Taken tree t) (natural : LocalTime) (bumped : Bool) :
    pickName (tree.looks entries) natural bumped t =
      match t.next with
      | none => .calendarEnd
      | some u => pickName (tree.looks entries) natural true u := by
  rw [pickName, StreamTree.looks]
  dsimp only
  rw [scan_of_taken h]
  dsimp only
  split <;> rename_i hnext <;> rw [hnext]

/-- **The loop ends at the earliest free second**, or every second up to the end of the calendar is
taken. -/
theorem pickName_looks (natural : LocalTime) (bumped : Bool) (t : LocalTime) :
    (∃ u, pickName (tree.looks entries) natural bumped t = .chosen u.date.dateStr u.stemStr ∧
      EarliestFree tree t.seconds u) ∨
    (pickName (tree.looks entries) natural bumped t = .calendarEnd ∧
      ∀ u : LocalTime, t.seconds ≤ u.seconds → Taken tree u) := by
  generalize hleft : (LocalTime.lastSecond - t.seconds).toNat = left
  induction left using Nat.strong_induction_on generalizing t bumped with
  | h left ih =>
    by_cases htaken : Taken tree t
    · rw [pickName_of_taken htaken]
      cases hnext : t.next with
      | none =>
        refine .inr ⟨rfl, fun u hu => ?_⟩
        have hend := LocalTime.seconds_of_next_eq_none hnext
        rwa [LocalTime.seconds_injective (le_antisymm (hend ▸ u.seconds_le_lastSecond) hu)]
      | some u =>
        have hsucc := LocalTime.seconds_next hnext
        have hle := u.seconds_le_lastSecond
        have hlater : ∀ v : LocalTime, t.seconds ≤ v.seconds → v = t ∨ u.seconds ≤ v.seconds := by
          intro v hv
          rcases eq_or_lt_of_le hv with heq | hlt
          · exact .inl (LocalTime.seconds_injective heq.symm)
          · exact .inr (by omega)
        rcases ih _ (by omega) true u rfl with ⟨v, hpick, hv⟩ | ⟨hpick, hall⟩
        · refine .inl ⟨v, hpick, by have := hv.le; omega, hv.free, fun w hw hlt => ?_⟩
          rcases hlater w hw with rfl | hw
          · exact htaken
          · exact hv.before w hw hlt
        · refine .inr ⟨hpick, fun v hv => ?_⟩
          rcases hlater v hv with rfl | hv
          · exact htaken
          · exact hall v hv
    · exact .inl ⟨t, pickName_of_free htaken natural bumped, le_rfl, htaken,
        fun u hu hlt => absurd hlt (not_lt.mpr hu)⟩

end Pick

/-! ## A finite tree has a free second -/

/-- The entries of all days. -/
def StreamTree.entries (tree : StreamTree) : List (Str × OsName) :=
  tree.toList.flatMap fun (day, d) => d.keys.map fun name => (day, name)

theorem mem_entries {tree : StreamTree} {day : Str} {name : OsName}
    (h : (tree.day day)[name]?.isSome = true) : (day, name) ∈ tree.entries := by
  rw [StreamTree.day] at h
  cases hday : tree[day]? with
  | none =>
    rw [hday, Option.getD_none, Table.get_empty] at h
    cases h
  | some d =>
    rw [hday, Option.getD_some] at h
    rw [StreamTree.entries, List.mem_flatMap]
    refine ⟨(day, d), Table.mem_toList.mpr hday, List.mem_map_of_mem ?_⟩
    rwa [Std.ExtTreeMap.mem_keys, ← Std.ExtTreeMap.isSome_getElem?_iff_mem]

/-- The seconds from a local time to the end of the calendar, itself included. -/
def LocalTime.secondsLeft (t : LocalTime) : ℕ := (lastSecond - t.seconds).toNat + 1

/-- Every second from a local time to the end of the calendar is a local time. -/
theorem LocalTime.exists_after (t : LocalTime) {n : ℕ} (h : n < t.secondsLeft) :
    ∃ u : LocalTime, u.seconds = t.seconds + n := by
  induction n with
  | zero => exact ⟨t, by simp⟩
  | succ n ih =>
    obtain ⟨u, hu⟩ := ih (by omega)
    cases hnext : u.next with
    | none =>
      have := seconds_of_next_eq_none hnext
      unfold secondsLeft at h
      omega
    | some v =>
      have := seconds_next hnext
      exact ⟨v, by omega⟩

/-- Every second that is taken uses up an entry of its own. -/
theorem secondsLeft_le_of_taken {tree : StreamTree} {t : LocalTime}
    (h : ∀ u : LocalTime, t.seconds ≤ u.seconds → Taken tree u) :
    t.secondsLeft ≤ tree.entries.length := by
  have hentry : ∀ n, n < t.secondsLeft → ∃ entry : Str × OsName, entry ∈ tree.entries ∧
      ∃ (u : LocalTime) (name : Str), u.seconds = t.seconds + n ∧
        entry = (u.date.dateStr, .str name) ∧ u.stemStr <+: name := by
    intro n hn
    obtain ⟨u, hu⟩ := t.exists_after hn
    obtain ⟨name, hname, hpre⟩ := h u (by omega)
    exact ⟨_, mem_entries hname, u, name, hu, rfl, hpre⟩
  have : Nonempty OsName := ⟨.str []⟩
  choose! entry hmem hentry using hentry
  have hinj : ∀ m, m < t.secondsLeft → ∀ n, n < t.secondsLeft → entry m = entry n → m = n := by
    intro m hm n hn heq
    obtain ⟨u, name, hu, hue, hupre⟩ := hentry m hm
    obtain ⟨v, name', hv, hve, hvpre⟩ := hentry n hn
    rw [hue, hve, Prod.mk.injEq, OsName.str.injEq] at heq
    obtain ⟨hday, rfl⟩ := heq
    have hstem : u.stemStr = v.stemStr :=
      (List.prefix_of_prefix_length_le hupre hvpre (by rw [u.length_stemStr, v.length_stemStr])
        ).eq_of_length (by rw [u.length_stemStr, v.length_stemStr])
    rw [LocalTime.eq_of_names hday hstem] at hu
    omega
  have hnodup : ((List.range t.secondsLeft).map entry).Nodup := by
    refine List.Nodup.map_on ?_ List.nodup_range
    intro m hm n hn
    exact hinj m (List.mem_range.mp hm) n (List.mem_range.mp hn)
  have hsub : (List.range t.secondsLeft).map entry ⊆ tree.entries := by
    intro e he
    obtain ⟨n, hn, rfl⟩ := List.mem_map.mp he
    exact hmem n (List.mem_range.mp hn)
  have hle := (List.subperm_of_subset hnodup hsub).length_le
  rwa [List.length_map, List.length_range] at hle

/-- **The loop terminates with a name** when the tree has fewer entries than there are seconds to
the end of the calendar. -/
theorem pickName_earliest {tree : StreamTree} (entries : EntryOrder) {start : LocalTime}
    (h : tree.entries.length < start.secondsLeft) :
    ∃ u, pickName (tree.looks entries) start false start = .chosen u.date.dateStr u.stemStr ∧
      EarliestFree tree start.seconds u := by
  rcases pickName_looks start false start with hpick | ⟨-, hall⟩
  · exact hpick
  · exact absurd (secondsLeft_le_of_taken hall) (not_le.mpr h)

/-! ## Creating under a free name -/

/-- An error other than a collision. -/
def NotCollision (e : SegmentError) : Prop := ∀ path, e ≠ .collision path

section Create

variable {A : Turn → Prop} {stem : Str} {d : StreamDir}

theorem raisesIn_ensurePrivateDirectory (name : OsName) :
    RaisesIn A NotCollision (SegmentState.ensurePrivateDirectory name) := by
  have hcall {err : IoKind → SegmentError} {p : Prog StreamDir Turn SegmentError (Except IoKind Unit)}
      (hp : RaisesIn A NotCollision p) (herr : ∀ k, NotCollision (err k)) :
      RaisesIn A NotCollision (call err p) := .bind hp (.orRaise herr)
  refine .bind (.query _) fun r => ?_
  split
  · exact .ite (hcall .barrier fun k path => by simp) (.raise fun path => by simp)
  · refine .bind (hcall (.atomic _) fun k path => by simp) fun _ => ?_
    exact hcall .barrier fun k path => by simp
  · exact .raise fun path => by simp

/-- **Creating a segment whose names are free raises no collision**, whichever calls fail. -/
theorem create_not_collision (h : NamesFree d stem) (startWall : OffsetDateTime)
    (startMonotonic : ℕ) (localOffset : UtcOffset) (tz : Option Str) (interval : ℕ)
    (ts : List Turn) (path : RelPath) :
    (run ts (SegmentState.create stem startWall startMonotonic localOffset tz interval) d).1 ≠
      .raised (.collision path) := by
  have hstorage {α : Type} {p : Prog StreamDir Turn StorageError α} :
      RaisesIn anyTurn NotCollision (p.rethrow SegmentError.storage) :=
    .rethrow fun e path => by simp
  have hsteps {p : Prog StreamDir Turn StorageError Unit} {name : OsName} {seg : SegmentState}
      {m : Prog StreamDir Turn StorageError Unit} {m' : Prog StreamDir Turn StorageError Unit} :
      RaisesIn anyTurn NotCollision
        ((m.rethrow SegmentError.storage).bind fun _ =>
          (SegmentState.ensurePrivateDirectory name).bind fun _ =>
          (p.rethrow SegmentError.storage).bind fun _ =>
          (m'.rethrow SegmentError.storage).bind fun _ => done seg) :=
    .bind hstorage fun _ => .bind (raisesIn_ensurePrivateDirectory name) fun _ =>
      .bind hstorage fun _ => .bind hstorage fun _ => .done _
  have hwp : wp anyTurn
      (SegmentState.create stem startWall startMonotonic localOffset tz interval)
      (fun r _ => ∀ e, r = .raised e → NotCollision e) d := by
    have hseen {name : OsName} {R P : Prog StreamDir Turn SegmentError SegmentState}
        (hname : d[name]? = none)
        (hP : wp anyTurn P (fun r _ => ∀ e, r = .raised e → NotCollision e) d) :
        wp anyTurn ((entryVisible name).bind fun seen => if seen then R else P)
          (fun r _ => ∀ e, r = .raised e → NotCollision e) d := by
      rw [wp_bind]
      refine wp_glance ?_ (fun _ => ?_) (fun _ => by rintro e ⟨⟩)
      · simpa [hname] using hP
      · simpa using hP
    rw [SegmentState.create, wp_bind]
    refine wp_call_barrier ?_ (fun _ => ?_) (fun _ => by rintro e ⟨⟩)
    · exact hseen h.1 (hseen h.2 (hsteps d))
    · rintro e ⟨⟩ path
      simp
  intro hr
  exact wp_run hwp trivial (fun _ _ => trivial) _ hr path rfl

end Create

/-- The names of a second that is free are free. -/
theorem namesFree_of_free {tree : StreamTree} {t : LocalTime} (h : ¬ Taken tree t) :
    NamesFree (tree.day t.date.dateStr) t.stemStr := by
  have hnone : ∀ name, t.stemStr <+: name →
      (tree.day t.date.dateStr)[OsName.str name]? = none := by
    intro name hpre
    by_contra hsome
    exact h ⟨name, Option.isSome_iff_ne_none.mpr hsome, hpre⟩
  exact ⟨hnone _ (List.prefix_append _ _), hnone _ (List.prefix_append _ _)⟩

end SolstoneTmux
