import SolstoneTmux.Foundations.Join
import SolstoneTmux.Indicator
import SolstoneTmux.Serialize
import SolstoneTmux.Tmux.Adapter

/-!
# The windows and panes of a session

tmux prints one row a window and one row a pane, with fields between blanks; the name of a window is
the last field of its row and may hold blanks itself.

* `windowRow` and `paneRow` read a row; `windowRow_print` and `paneRow_print` read printed rows back.
* `parseWindows_printed` and `parsePanes_printed` read whole rosters back, and
  `parseWindows_sound` and `parsePanes_sound` say what is true of any roster that is read.
* `captureSession` returns `none` where the source would panic, which it does not
  (`rosters_read_back`).
-/

namespace SolstoneTmux

open Foundations

/-! ## Fields -/

section Fields

variable {ε : Type}

/-- `parse_active`. -/
def parseActive (value : Str) : Option Bool :=
  if value = ['0'] then some false else if value = ['1'] then some true else none

/-- The text of a flag of tmux. -/
def flagText (flag : Bool) : Str := if flag then ['1'] else ['0']

@[simp] theorem parseActive_flagText (flag : Bool) : parseActive (flagText flag) = some flag := by
  cases flag <;> rfl

/-- `malformed`. -/
def malformed {α : Type} (operation : TmuxOperation) (detail : MalformedDetail) :
    Except (TmuxError ε) α :=
  .error (.malformed operation detail)

/-- A field, or the row is invalid. -/
def orInvalid {α : Type} (operation : TmuxOperation) (row : Str) :
    Option α → Except (TmuxError ε) α
  | some a => .ok a
  | none => malformed operation (.invalidRow row)

@[simp] theorem orInvalid_eq_ok {α : Type} {operation : TmuxOperation} {row : Str}
    {field : Option α} {a : α} :
    (orInvalid operation row field : Except (TmuxError ε) α) = .ok a ↔ field = some a := by
  cases field <;> simp [orInvalid, malformed]

@[simp] theorem orInvalid_some {α : Type} (operation : TmuxOperation) (row : Str) (a : α) :
    (orInvalid operation row (some a) : Except (TmuxError ε) α) = .ok a := rfl

/-- `str::parse::<u32>` of a field. -/
def readU32 (value : Str) : Option UInt32 := (parseU32 value).map UInt32.ofNat

@[simp] theorem readU32_decimal (n : UInt32) : readU32 (decimal n.toNat) = some n := by
  rw [readU32, parseU32_digits n.toNat_lt, Option.map_some, UInt32.ofNat_toNat]

/-- `parse_u32`. -/
def parseU32Field (operation : TmuxOperation) (row value : Str) : Except (TmuxError ε) UInt32 :=
  orInvalid operation row (readU32 value)

/-- `parse_flag`. -/
def parseFlag (operation : TmuxOperation) (row value : Str) : Except (TmuxError ε) Bool :=
  orInvalid operation row (parseActive value)

/-! ## Windows -/

/-- One row of `parse_windows`, with the windows of the rows before it: `ids` and `indexes` of the
source are theirs. -/
def windowRow (operation : TmuxOperation) (windows : List WindowInfo) (row : Str) :
    Except (TmuxError ε) WindowInfo :=
  match splitN 4 ' ' row with
  | [active, id, index, name] =>
    if id.isEmpty || name.isEmpty then malformed operation (.invalidRow row)
    else do
      let active ← orInvalid operation row (parseActive active)
      let index ← orInvalid operation row (readU32 index)
      if id ∈ windows.map WindowInfo.id ∨ index ∈ windows.map WindowInfo.index then
        malformed operation (.duplicate row)
      else .ok ⟨id, index, name, active⟩
  | _ => malformed operation (.invalidRow row)

/-- `parse_windows`. -/
def parseWindows (stdout : Str) (operation : TmuxOperation) :
    Except (TmuxError ε) (List WindowInfo) :=
  if stdout.isEmpty then malformed operation .emptyOutput
  else do
    let windows ← collectRows (windowRow operation) (rows stdout) []
    if windows.isEmpty then malformed operation .emptyOutput
    else if windows.countP WindowInfo.active ≠ 1 then malformed operation .activeWindow
    else .ok windows

/-! ## Panes -/

/-- One row of `parse_panes`, with the panes of the rows before it. -/
def paneRow (operation : TmuxOperation) (panes : List PaneInfo) (row : Str) :
    Except (TmuxError ε) PaneInfo :=
  match row.splitOn ' ' with
  | [id, index, left, top, width, height, active, cursorX, cursorY, cursorVisible, alternateOn,
      paneInMode] =>
    if id.isEmpty then malformed operation (.invalidRow row)
    else do
      let index ← parseU32Field operation row index
      let left ← parseU32Field operation row left
      let top ← parseU32Field operation row top
      let width ← parseU32Field operation row width
      let height ← parseU32Field operation row height
      if width = 0 ∨ height = 0 then malformed operation (.nonpositiveSize row)
      else do
        let active ← orInvalid operation row (parseActive active)
        if id ∈ panes.map PaneInfo.id ∨ index ∈ panes.map PaneInfo.index then
          malformed operation (.duplicate row)
        else do
          let cursorX ← parseU32Field operation row cursorX
          let cursorY ← parseU32Field operation row cursorY
          let cursorVisible ← parseFlag operation row cursorVisible
          let alternateOn ← parseFlag operation row alternateOn
          let modes ← parseU32Field operation row paneInMode
          .ok ⟨id, index, left, top, width, height, active, cursorX, cursorY, cursorVisible,
            alternateOn, decide (modes ≠ 0), []⟩
  | _ => malformed operation (.invalidRow row)

/-- `parse_panes`. -/
def parsePanes (stdout : Str) (operation : TmuxOperation) :
    Except (TmuxError ε) (List PaneInfo) :=
  if stdout.isEmpty then malformed operation .emptyOutput
  else do
    let panes ← collectRows (paneRow operation) (rows stdout) []
    if panes.isEmpty then malformed operation .emptyOutput
    else if panes.countP PaneInfo.active ≠ 1 then malformed operation .activePane
    else .ok panes

end Fields

/-! ## Capturing a session -/

namespace TmuxAdapter

variable {ε : Type}

/-- `TmuxAdapter::list_windows`. -/
def listWindows (adapter : TmuxAdapter ε) (session : Str) :
    Except (TmuxError ε) (List WindowInfo) := do
  let stdout ← adapter.runText (.listWindows session)
  parseWindows stdout (.listWindows session)

/-- `TmuxAdapter::list_panes`. -/
def listPanes (adapter : TmuxAdapter ε) (windowId : Str) :
    Except (TmuxError ε) (List PaneInfo) := do
  let stdout ← adapter.runText (.listPanes windowId)
  parsePanes stdout (.listPanes windowId)

/-- `TmuxAdapter::capture_pane`. -/
def capturePane (adapter : TmuxAdapter ε) (paneId : Str) : Except (TmuxError ε) Str :=
  adapter.runText (.capturePane paneId)

/-- `TmuxAdapter::capture_session`; `none` is the panic of its `expect`. -/
def captureSession (adapter : TmuxAdapter ε) (session : Str) :
    Option (Except (TmuxError ε) CaptureResult) :=
  match adapter.listWindows session with
  | .error error => some (.error error)
  | .ok windows =>
    match windows.find? WindowInfo.active with
    | none => none
    | some activeWindow => some do
      let panes ← adapter.listPanes activeWindow.id
      let panes ← panes.mapM fun pane => do
        let content ← adapter.capturePane pane.id
        pure { pane with content := content }
      .ok ⟨session, activeWindow, windows, panes, false⟩

end TmuxAdapter

/-! ## What a roster that is read is like -/

section Sound

variable {ε : Type} {operation : TmuxOperation} {row stdout : Str}

theorem bind_eq_ok {α β : Type} {x : Except (TmuxError ε) α} {f : α → Except (TmuxError ε) β}
    {b : β} : x >>= f = .ok b ↔ ∃ a, x = .ok a ∧ f a = .ok b := by
  cases x <;> simp [bind, Except.bind]

@[simp] theorem malformed_ne_ok {α : Type} {detail : MalformedDetail} {a : α} :
    (malformed operation detail : Except (TmuxError ε) α) ≠ .ok a := by
  simp [malformed]

theorem windowRow_fresh {windows : List WindowInfo} {w : WindowInfo}
    (h : (windowRow operation windows row : Except (TmuxError ε) _) = .ok w) :
    w.id ∉ windows.map WindowInfo.id ∧ w.index ∉ windows.map WindowInfo.index := by
  unfold windowRow at h
  split at h
  · split at h
    · exact absurd h malformed_ne_ok
    · obtain ⟨active, -, h⟩ := bind_eq_ok.mp h
      obtain ⟨index, -, h⟩ := bind_eq_ok.mp h
      split at h
      · exact absurd h malformed_ne_ok
      · rename_i hfresh
        rw [not_or] at hfresh
        cases h
        exact hfresh
  · exact absurd h malformed_ne_ok

theorem paneRow_fresh {panes : List PaneInfo} {p : PaneInfo}
    (h : (paneRow operation panes row : Except (TmuxError ε) _) = .ok p) :
    p.id ∉ panes.map PaneInfo.id ∧ p.index ∉ panes.map PaneInfo.index ∧
      p.width ≠ 0 ∧ p.height ≠ 0 := by
  unfold paneRow at h
  split at h
  · split at h
    · exact absurd h malformed_ne_ok
    · obtain ⟨index, -, h⟩ := bind_eq_ok.mp h
      obtain ⟨left, -, h⟩ := bind_eq_ok.mp h
      obtain ⟨top, -, h⟩ := bind_eq_ok.mp h
      obtain ⟨width, -, h⟩ := bind_eq_ok.mp h
      obtain ⟨height, -, h⟩ := bind_eq_ok.mp h
      split at h
      · exact absurd h malformed_ne_ok
      · rename_i hsize
        obtain ⟨active, -, h⟩ := bind_eq_ok.mp h
        split at h
        · exact absurd h malformed_ne_ok
        · rename_i hfresh
          obtain ⟨cursorX, -, h⟩ := bind_eq_ok.mp h
          obtain ⟨cursorY, -, h⟩ := bind_eq_ok.mp h
          obtain ⟨cursorVisible, -, h⟩ := bind_eq_ok.mp h
          obtain ⟨alternateOn, -, h⟩ := bind_eq_ok.mp h
          obtain ⟨modes, -, h⟩ := bind_eq_ok.mp h
          rw [not_or] at hsize hfresh
          cases h
          exact ⟨hfresh.1, hfresh.2, hsize⟩
  · exact absurd h malformed_ne_ok

theorem nodup_map_concat {α β : Type} {f : α → β} {l : List α} {a : α} (h : (l.map f).Nodup)
    (ha : f a ∉ l.map f) : ((l ++ [a]).map f).Nodup := by
  rw [List.map_append, List.nodup_append]
  refine ⟨h, by simp, ?_⟩
  rintro b hb c hc rfl
  rw [List.map_singleton, List.mem_singleton] at hc
  exact ha (hc ▸ hb)

theorem parseWindows_sound {windows : List WindowInfo}
    (h : (parseWindows stdout operation : Except (TmuxError ε) _) = .ok windows) :
    (windows.map WindowInfo.id).Nodup ∧ (windows.map WindowInfo.index).Nodup ∧
      windows.countP WindowInfo.active = 1 := by
  unfold parseWindows at h
  split at h
  · exact absurd h malformed_ne_ok
  · obtain ⟨found, hfound, h⟩ := bind_eq_ok.mp h
    have hnodup : (found.map WindowInfo.id).Nodup ∧ (found.map WindowInfo.index).Nodup := by
      refine collectRows_keeps (P := fun found => (found.map WindowInfo.id).Nodup ∧
        (found.map WindowInfo.index).Nodup) ?_ (by simp) hfound
      intro found row w hkept hw
      have hfresh := windowRow_fresh hw
      exact ⟨nodup_map_concat hkept.1 hfresh.1, nodup_map_concat hkept.2 hfresh.2⟩
    split at h
    · exact absurd h malformed_ne_ok
    · split at h
      · exact absurd h malformed_ne_ok
      · rename_i hactive
        cases h
        exact ⟨hnodup.1, hnodup.2, not_not.mp hactive⟩

theorem parsePanes_sound {panes : List PaneInfo}
    (h : (parsePanes stdout operation : Except (TmuxError ε) _) = .ok panes) :
    (panes.map PaneInfo.id).Nodup ∧ (panes.map PaneInfo.index).Nodup ∧
      panes.countP PaneInfo.active = 1 ∧ ∀ p ∈ panes, p.width ≠ 0 ∧ p.height ≠ 0 := by
  unfold parsePanes at h
  split at h
  · exact absurd h malformed_ne_ok
  · obtain ⟨found, hfound, h⟩ := bind_eq_ok.mp h
    have hkept : (found.map PaneInfo.id).Nodup ∧ (found.map PaneInfo.index).Nodup ∧
        ∀ p ∈ found, p.width ≠ 0 ∧ p.height ≠ 0 := by
      refine collectRows_keeps (P := fun found => (found.map PaneInfo.id).Nodup ∧
        (found.map PaneInfo.index).Nodup ∧ ∀ p ∈ found, p.width ≠ 0 ∧ p.height ≠ 0)
        ?_ (by simp) hfound
      intro found row p hkept hp
      obtain ⟨hid, hindex, hsize⟩ := paneRow_fresh hp
      refine ⟨nodup_map_concat hkept.1 hid, nodup_map_concat hkept.2.1 hindex, ?_⟩
      intro q hq
      rcases List.mem_append.mp hq with hq | hq
      · exact hkept.2.2 q hq
      · rw [List.mem_singleton.mp hq]
        exact hsize
    split at h
    · exact absurd h malformed_ne_ok
    · split at h
      · exact absurd h malformed_ne_ok
      · rename_i hactive
        cases h
        exact ⟨hkept.1, hkept.2.1, not_not.mp hactive, hkept.2.2⟩

theorem captureSession_ne_panic (adapter : TmuxAdapter ε) (session : Str) :
    adapter.captureSession session ≠ none := by
  unfold TmuxAdapter.captureSession
  cases hwindows : adapter.listWindows session with
  | error => simp
  | ok windows =>
    obtain ⟨stdout, -, hparsed⟩ := bind_eq_ok.mp hwindows
    obtain ⟨-, -, hactive⟩ := parseWindows_sound hparsed
    have hsome : (windows.find? WindowInfo.active).isSome := by
      rw [List.find?_isSome, ← List.countP_pos_iff]
      omega
    obtain ⟨w, hw⟩ := Option.isSome_iff_exists.mp hsome
    simp [hw]

end Sound

/-! ## What tmux prints -/

theorem not_mem_flagText {c : Char} (h : isDigit c = false) (flag : Bool) : c ∉ flagText flag := by
  intro hc
  have hdigit : isDigit c = true := by
    cases flag with
    | false =>
      have hzero : c = '0' := List.mem_singleton.mp hc
      rw [hzero]
      rfl
    | true =>
      have hone : c = '1' := List.mem_singleton.mp hc
      rw [hone]
      rfl
  simp [h] at hdigit

/-- `#{window_active} #{window_id} #{window_index} #{window_name}`. -/
def WindowInfo.print (w : WindowInfo) : Str :=
  flagText w.active ++ ' ' :: (w.id ++ ' ' :: (decimal w.index.toNat ++ ' ' :: w.name))

/-- A window whose row tmux prints on one line with its fields apart. -/
structure WindowInfo.Printable (w : WindowInfo) : Prop where
  id_ne : w.id ≠ []
  id_plain : ∀ c ∈ w.id, isWhitespace c = false
  name_ne : w.name ≠ []
  name_oneLine : '\n' ∉ w.name ∧ '\r' ∉ w.name

/-- A list of windows that tmux reports. -/
structure WindowRoster (windows : List WindowInfo) : Prop where
  ne : windows ≠ []
  printable : ∀ w ∈ windows, w.Printable
  ids : (windows.map WindowInfo.id).Nodup
  indexes : (windows.map WindowInfo.index).Nodup
  active : windows.countP WindowInfo.active = 1

/-- A pane with the number of its modes, of which `PaneInfo` keeps whether there are any. -/
structure PrintedPane where
  pane : PaneInfo
  modes : UInt32
  inMode : pane.paneInMode = decide (modes ≠ 0)

/-- The fields of the row that tmux prints for a pane. -/
def PrintedPane.fields (p : PrintedPane) : List Str :=
  [p.pane.id, decimal p.pane.index.toNat, decimal p.pane.left.toNat, decimal p.pane.top.toNat,
    decimal p.pane.width.toNat, decimal p.pane.height.toNat, flagText p.pane.active,
    decimal p.pane.cursorX.toNat, decimal p.pane.cursorY.toNat,
    flagText p.pane.cursorVisible, flagText p.pane.alternateOn, decimal p.modes.toNat]

/-- The row that tmux prints for a pane. -/
def PrintedPane.print (p : PrintedPane) : Str := join ' ' p.fields

/-- The pane as it is read: the content is captured later. -/
def PrintedPane.read (p : PrintedPane) : PaneInfo := { p.pane with content := [] }

/-- A pane whose row tmux prints with its fields apart. -/
structure PrintedPane.Printable (p : PrintedPane) : Prop where
  id_ne : p.pane.id ≠ []
  id_plain : ∀ c ∈ p.pane.id, isWhitespace c = false
  size : p.pane.width ≠ 0 ∧ p.pane.height ≠ 0

/-- A list of panes that tmux reports. -/
structure PaneRoster (panes : List PrintedPane) : Prop where
  ne : panes ≠ []
  printable : ∀ p ∈ panes, p.Printable
  ids : (panes.map (·.pane.id)).Nodup
  indexes : (panes.map (·.pane.index)).Nodup
  active : panes.countP (·.pane.active) = 1

section Printed

variable {ε : Type} {operation : TmuxOperation}

theorem windowRow_print {w : WindowInfo} {windows : List WindowInfo} (h : w.Printable)
    (hid : w.id ∉ windows.map WindowInfo.id) (hindex : w.index ∉ windows.map WindowInfo.index) :
    (windowRow operation windows w.print : Except (TmuxError ε) _) = .ok w := by
  have hspace : ' ' ∉ w.id := by
    intro hmem
    exact absurd (h.id_plain _ hmem) (by decide)
  have hsplit : splitN 4 ' ' w.print =
      [flagText w.active, w.id, decimal w.index.toNat, w.name] := by
    rw [WindowInfo.print, splitN_append (not_mem_flagText (by decide) _), splitN_append hspace,
      splitN_append (not_mem_decimal (by decide) _), splitN]
  have hfilled : (w.id.isEmpty || w.name.isEmpty) = false := by
    simp [h.id_ne, h.name_ne]
  simp only [windowRow, hsplit, hfilled, parseActive_flagText, readU32_decimal, orInvalid_some,
    bind, Except.bind, hid, hindex, or_self, if_false, Bool.false_eq_true]

theorem paneRow_print {p : PrintedPane} {panes : List PaneInfo} (h : p.Printable)
    (hid : p.pane.id ∉ panes.map PaneInfo.id)
    (hindex : p.pane.index ∉ panes.map PaneInfo.index) :
    (paneRow operation panes p.print : Except (TmuxError ε) _) = .ok p.read := by
  have hspace : ' ' ∉ p.pane.id := by
    intro hmem
    exact absurd (h.id_plain _ hmem) (by decide)
  have hsplit : p.print.splitOn ' ' = p.fields := by
    refine splitOn_join_of_not_mem (by simp [PrintedPane.fields]) ?_
    simp [PrintedPane.fields, hspace, not_mem_decimal, not_mem_flagText, isDigit]
  have hfilled : p.pane.id.isEmpty = false := by simp [h.id_ne]
  simp only [paneRow, hsplit, PrintedPane.fields, hfilled, parseU32Field, parseFlag,
    parseActive_flagText, readU32_decimal, orInvalid_some, bind, Except.bind, hid, hindex, h.size.1,
    h.size.2, or_self, if_false, Bool.false_eq_true, ← p.inMode]
  rfl

/-- The end of a line is in no field of a window. -/
theorem WindowInfo.Printable.oneLine {w : WindowInfo} (h : w.Printable) :
    '\n' ∉ w.print ∧ w.print.getLast? ≠ some '\r' := by
  have hnot : ∀ c, isWhitespace c = true → isDigit c = false → c ≠ ' ' → c ∉ w.name →
      c ∉ w.print := by
    intro c hspace hdigit hblank hname hmem
    have hid : c ∉ w.id := fun hid => by simp [h.id_plain c hid] at hspace
    simp [WindowInfo.print, not_mem_flagText hdigit, hid, not_mem_decimal hdigit, hblank,
      hname] at hmem
  refine ⟨hnot _ (by decide) (by decide) (by decide) h.name_oneLine.1, fun hlast => ?_⟩
  exact hnot _ (by decide) (by decide) (by decide) h.name_oneLine.2 (List.mem_of_getLast? hlast)

theorem PrintedPane.Printable.oneLine {p : PrintedPane} (h : p.Printable) :
    '\n' ∉ p.print ∧ p.print.getLast? ≠ some '\r' := by
  have hnot : ∀ c, isWhitespace c = true → isDigit c = false → c ≠ ' ' → c ∉ p.print := by
    intro c hspace hdigit hblank hmem
    have hid : c ∉ p.pane.id := fun hid => by simp [h.id_plain c hid] at hspace
    obtain hsep | ⟨field, hfield, hc⟩ := mem_join hmem
    · exact hblank hsep
    · simp only [PrintedPane.fields, List.mem_cons, List.not_mem_nil, or_false] at hfield
      rcases hfield with rfl | rfl | rfl | rfl | rfl | rfl | rfl | rfl | rfl | rfl | rfl | rfl
      · exact hid hc
      all_goals first | exact not_mem_decimal hdigit _ hc | exact not_mem_flagText hdigit _ hc
  refine ⟨hnot _ (by decide) (by decide) (by decide), fun hlast => ?_⟩
  exact hnot _ (by decide) (by decide) (by decide) (List.mem_of_getLast? hlast)

/-- An element of a list without repeats is not among those before it. -/
theorem not_mem_before {α β : Type} {f : α → β} {before after : List α} {a : α}
    (h : ((before ++ a :: after).map f).Nodup) : f a ∉ before.map f := by
  rw [List.map_append, List.map_cons, List.nodup_append] at h
  exact fun hmem => h.2.2 _ hmem _ List.mem_cons_self rfl

theorem parseWindows_printed {windows : List WindowInfo} (h : WindowRoster windows) :
    (parseWindows (printRows (windows.map WindowInfo.print)) operation :
      Except (TmuxError ε) _) = .ok windows := by
  have hrows : rows (printRows (windows.map WindowInfo.print)) = windows.map WindowInfo.print := by
    refine rows_printed fun row hrow => ?_
    obtain ⟨w, hw, rfl⟩ := List.mem_map.mp hrow
    exact (h.printable w hw).oneLine
  have hread : (collectRows (windowRow operation) (windows.map WindowInfo.print) [] :
      Except (TmuxError ε) _) = .ok ([] ++ windows.map id) := collectRows_printed (by
      rintro before w after rfl
      rw [List.nil_append, List.map_id]
      exact windowRow_print (h.printable w (by simp)) (not_mem_before h.ids)
        (not_mem_before h.indexes))
  rw [List.nil_append, List.map_id] at hread
  have hprinted : printRows (windows.map WindowInfo.print) ≠ [] :=
    printRows_ne_nil (by simpa using h.ne)
  simp only [parseWindows, List.isEmpty_iff, hprinted, if_false, hrows, hread, bind, Except.bind,
    h.ne, h.active, ne_eq, not_true_eq_false]

theorem parsePanes_printed {panes : List PrintedPane} (h : PaneRoster panes) :
    (parsePanes (printRows (panes.map PrintedPane.print)) operation :
      Except (TmuxError ε) _) = .ok (panes.map PrintedPane.read) := by
  have hrows : rows (printRows (panes.map PrintedPane.print)) = panes.map PrintedPane.print := by
    refine rows_printed fun row hrow => ?_
    obtain ⟨p, hp, rfl⟩ := List.mem_map.mp hrow
    exact (h.printable p hp).oneLine
  have hread : (collectRows (paneRow operation) (panes.map PrintedPane.print) [] :
      Except (TmuxError ε) _) = .ok ([] ++ panes.map PrintedPane.read) := collectRows_printed (by
      rintro before p after rfl
      refine paneRow_print (h.printable p (by simp)) ?_ ?_
      · rw [List.nil_append, List.map_map]
        exact not_mem_before h.ids
      · rw [List.nil_append, List.map_map]
        exact not_mem_before h.indexes)
  rw [List.nil_append] at hread
  have hprinted : printRows (panes.map PrintedPane.print) ≠ [] :=
    printRows_ne_nil (by simpa using h.ne)
  have hactive : (panes.map PrintedPane.read).countP PaneInfo.active = 1 := by
    rw [List.countP_map]
    exact h.active
  simp only [parsePanes, List.isEmpty_iff, hprinted, if_false, hrows, hread, bind, Except.bind,
    List.map_eq_nil_iff, h.ne, hactive, ne_eq, not_true_eq_false]

end Printed

/-- tmux's rosters are read back as printed; whatever text is read as a roster, its ids and indexes
are distinct, one entry is active and panes have a size; and capturing a session does not panic. -/
theorem rosters_read_back {ε : Type} (adapter : TmuxAdapter ε) :
    (∀ windows operation, WindowRoster windows →
      (parseWindows (printRows (windows.map WindowInfo.print)) operation :
        Except (TmuxError ε) _) = .ok windows) ∧
    (∀ panes operation, PaneRoster panes →
      (parsePanes (printRows (panes.map PrintedPane.print)) operation :
        Except (TmuxError ε) _) = .ok (panes.map PrintedPane.read)) ∧
    (∀ stdout operation windows,
      (parseWindows stdout operation : Except (TmuxError ε) _) = .ok windows →
        (windows.map WindowInfo.id).Nodup ∧ (windows.map WindowInfo.index).Nodup ∧
          windows.countP WindowInfo.active = 1) ∧
    (∀ stdout operation panes,
      (parsePanes stdout operation : Except (TmuxError ε) _) = .ok panes →
        (panes.map PaneInfo.id).Nodup ∧ (panes.map PaneInfo.index).Nodup ∧
          panes.countP PaneInfo.active = 1 ∧ ∀ p ∈ panes, p.width ≠ 0 ∧ p.height ≠ 0) ∧
    ∀ session, adapter.captureSession session ≠ none :=
  ⟨fun _ _ => parseWindows_printed, fun _ _ => parsePanes_printed, fun _ _ _ => parseWindows_sound,
    fun _ _ _ => parsePanes_sound, captureSession_ne_panic adapter⟩

/-- Two windows, one named with blanks. -/
def namedWindows : List WindowInfo :=
  [⟨"@1".toList, 0, "vim  notes".toList, false⟩, ⟨"@2".toList, 4294967295, " ".toList, true⟩]

theorem rosters_read_back_named :
    (parseWindows "0 @1 0 vim  notes\n1 @2 4294967295  \n".toList (.listWindows "main".toList) :
      Except (TmuxError Empty) _) = .ok namedWindows := by
  have hroster : WindowRoster namedWindows := by
    refine ⟨by simp [namedWindows], ?_, by simp [namedWindows], by simp [namedWindows],
      by simp [namedWindows]⟩
    intro w hw
    simp only [namedWindows, List.mem_cons, List.not_mem_nil, or_false] at hw
    rcases hw with rfl | rfl
    · exact ⟨by simp, by simp [isWhitespace], by simp, by simp⟩
    · exact ⟨by simp, by simp [isWhitespace], by simp, by simp⟩
  exact (rosters_read_back ⟨fun _ => .ok ⟨[], [], 0⟩, fun _ => [], []⟩).1 namedWindows (.listWindows "main".toList)
    hroster

end SolstoneTmux
