import SolstoneTmux.Foundations.JsonText

/-!
# The frame format

A captured frame is one line of JSON: an envelope with the frame id first, written with `, ` between
items and `: ` after keys, every character outside ASCII escaped, and a line feed at the end
(`serializeFrame`). `newline_not_mem_envelope` is the fact recovery rests on: the line feed at the
end is the only one in the line.
-/

namespace SolstoneTmux

open Foundations

/-! ## What a poll captures -/

/-- `WindowInfo`. -/
structure WindowInfo where
  id : Str
  index : UInt32
  name : Str
  active : Bool
  deriving DecidableEq

/-- `PaneInfo`. -/
structure PaneInfo where
  id : Str
  index : UInt32
  left : UInt32
  top : UInt32
  width : UInt32
  height : UInt32
  active : Bool
  cursorX : UInt32
  cursorY : UInt32
  cursorVisible : Bool
  alternateOn : Bool
  paneInMode : Bool
  content : Str
  deriving DecidableEq

/-- `CaptureResult`. -/
structure CaptureResult where
  session : Str
  window : WindowInfo
  windows : List WindowInfo
  panes : List PaneInfo
  outputOnly : Bool
  deriving DecidableEq

/-- `f64::MAX`. -/
def maxDouble : ℕ := 17976931348623157 * (10 ^ 146 * 10 ^ 146)

/-- A number that is at most `f64::MAX`: its digits, times a power of ten. -/
def isFiniteNumber (s : Str) : Bool :=
  let (mantissa, exponent) := match splitOnce 'e' (s.map fun c => if c = 'E' then 'e' else c) with
    | none => (s, [])
    | some parts => parts
  let (whole, fraction) := match splitOnce '.' mantissa with
    | none => (mantissa, [])
    | some parts => parts
  let size := digitsValue (dropSign ['+', '-'] exponent)
  let (up, down) := if exponent.head? = some '-' then (0, size) else (size, 0)
  let digits := digitsValue (dropSign ['-'] whole ++ fraction)
  digits * 10 ^ up ≤ maxDouble * 10 ^ (down + fraction.length)

/-- The text of a finite double: a number of at most 24 characters, not above `f64::MAX`. -/
def isF64Text (s : Str) : Bool := isNumberText s && decide (s.length ≤ 24) && isFiniteNumber s

/-- The JSON text of a double: a number, or `null` for one that is not finite. -/
structure F64Text where
  text : Str
  valid : isF64Text text = true ∨ text = "null".toList
  deriving DecidableEq

theorem isNumberText_of_isF64Text {s : Str} (h : isF64Text s = true) : isNumberText s = true := by
  rw [isF64Text, Bool.and_assoc, Bool.and_eq_true] at h
  exact h.1

theorem F64Text.number_or_null (timestamp : F64Text) :
    isNumberText timestamp.text = true ∨ timestamp.text = "null".toList :=
  timestamp.valid.imp_left isNumberText_of_isF64Text

theorem F64Text.valid_zero : isF64Text "0.0".toList = true ∨ "0.0".toList = "null".toList := by
  decide

/-! ## JSON text -/

/-- One character inside a JSON string, as the journal's formatter writes it. -/
def escapeChar (c : Char) : Str :=
  if c = '"' then "\\\"".toList
  else if c = '\\' then "\\\\".toList
  else if c.toNat = 8 then "\\b".toList
  else if c.toNat = 12 then "\\f".toList
  else if c = '\n' then "\\n".toList
  else if c = '\r' then "\\r".toList
  else if c = '\t' then "\\t".toList
  else if c.toNat < 32 then "\\u".toList ++ hex4 c.toNat
  else if c.toNat < 128 then [c]
  else if c.toNat ≤ 0xffff then "\\u".toList ++ hex4 c.toNat
  else
    "\\u".toList ++ hex4 (0xd800 + (c.toNat - 0x10000) / 1024) ++
      ("\\u".toList ++ hex4 (0xdc00 + (c.toNat - 0x10000) % 1024))
where
  /-- `{:04x}` of a number below `2 ^ 16`. -/
  hex4 (n : ℕ) : Str :=
    [hexDigit (n / 4096 % 16), hexDigit (n / 256 % 16), hexDigit (n / 16 % 16), hexDigit (n % 16)]

/-- A JSON string. -/
def jsonString (s : Str) : Str := '"' :: s.flatMap escapeChar ++ ['"']

/-- A JSON boolean. -/
def jsonBool (b : Bool) : Str := if b then "true".toList else "false".toList

/-- Items separated by `, `. -/
def commaSeparated : List Str → Str
  | [] => []
  | [x] => x
  | x :: y :: xs => x ++ ", ".toList ++ commaSeparated (y :: xs)

/-- A JSON array. -/
def jsonArray (items : List Str) : Str := '[' :: commaSeparated items ++ [']']

/-- A JSON object. -/
def jsonObject (fields : List (Str × Str)) : Str :=
  '{' :: commaSeparated (fields.map fun (k, v) => jsonString k ++ ": ".toList ++ v) ++ ['}']

/-! ## The envelope -/

/-- `ActiveWindow`. -/
def jsonActiveWindow (w : WindowInfo) : Str :=
  jsonObject [("id".toList, jsonString w.id), ("index".toList, decimal w.index.toNat),
    ("name".toList, jsonString w.name)]

/-- `Window`. -/
def jsonWindow (w : WindowInfo) : Str :=
  jsonObject [("id".toList, jsonString w.id), ("index".toList, decimal w.index.toNat),
    ("name".toList, jsonString w.name), ("active".toList, jsonBool w.active)]

/-- `Pane`. An output-only frame leaves the cursor out. -/
def jsonPane (withCursor : Bool) (p : PaneInfo) : Str :=
  jsonObject <|
    [("id".toList, jsonString p.id), ("index".toList, decimal p.index.toNat),
      ("left".toList, decimal p.left.toNat), ("top".toList, decimal p.top.toNat),
      ("width".toList, decimal p.width.toNat), ("height".toList, decimal p.height.toNat),
      ("active".toList, jsonBool p.active)] ++
    (if withCursor then
      [("cursor_x".toList, decimal p.cursorX.toNat), ("cursor_y".toList, decimal p.cursorY.toNat),
        ("cursor_visible".toList, jsonBool p.cursorVisible)]
    else []) ++
    [("alternate_on".toList, jsonBool p.alternateOn),
      ("pane_in_mode".toList, jsonBool p.paneInMode), ("content".toList, jsonString p.content)]

/-- The sentence that describes a capture. -/
def visualDescription (r : CaptureResult) : Str :=
  "Terminal session '".toList ++ r.session ++ "' with ".toList ++ decimal r.panes.length ++
    " ".toList ++ (if r.panes.length = 1 then "pane".toList else "panes".toList) ++
    " in window '".toList ++ r.window.name ++ "'".toList

/-- The envelope of a frame, without its line feed. -/
def envelope (r : CaptureResult) (frameId : ℕ) (timestamp : F64Text) : Str :=
  jsonObject
    [("frame_id".toList, decimal frameId), ("timestamp".toList, timestamp.text),
      ("requests".toList, jsonArray []),
      ("analysis".toList, jsonObject
        [("visual_description".toList, jsonString (visualDescription r)),
          ("primary".toList, jsonString "tmux".toList),
          ("secondary".toList, jsonString "none".toList), ("overlap".toList, jsonBool false)]),
      ("content".toList, jsonObject
        [("tmux".toList, jsonObject
          [("session".toList, jsonString r.session), ("window".toList, jsonActiveWindow r.window),
            ("windows".toList, jsonArray (r.windows.map jsonWindow)),
            ("panes".toList, jsonArray (r.panes.map (jsonPane (!r.outputOnly))))])])]

/-- The byte that ends a line. -/
def newline : UInt8 := 10

/-- `serialize_frame`. -/
def serializeFrame (r : CaptureResult) (frameId : ℕ) (timestamp : F64Text) : Bytes :=
  utf8 (envelope r frameId timestamp) ++ [newline]

/-! ## A frame is one line -/

/-- A character of ASCII that is no control character. -/
def isPlain (c : Char) : Bool := 32 ≤ c.toNat && c.toNat < 128

/-- A text of such characters. -/
def IsPlainText (s : Str) : Prop := ∀ c ∈ s, isPlain c = true

theorem isPlainText_append {s t : Str} :
    IsPlainText (s ++ t) ↔ IsPlainText s ∧ IsPlainText t := List.forall_mem_append

theorem isPlainText_cons {c : Char} {s : Str} :
    IsPlainText (c :: s) ↔ isPlain c = true ∧ IsPlainText s := List.forall_mem_cons

theorem isPlainText_of_all {s : Str} (h : s.all isPlain = true) : IsPlainText s :=
  List.all_eq_true.mp h

theorem isPlain_of_isHexDigit {c : Char} (h : isHexDigit c = true) : isPlain c = true := by
  simp only [isHexDigit, Bool.or_eq_true, Bool.and_eq_true, decide_eq_true_eq] at h
  simp only [isPlain, Bool.and_eq_true, decide_eq_true_eq]
  omega

theorem isPlain_of_isDigit {c : Char} (h : isDigit c = true) : isPlain c = true :=
  isPlain_of_isHexDigit (by rw [isHexDigit, ← isDigit, h, Bool.true_or])

theorem isPlainText_hex4 (n : ℕ) : IsPlainText (escapeChar.hex4 n) := by
  intro c hc
  simp only [escapeChar.hex4, List.mem_cons, List.not_mem_nil, or_false] at hc
  rcases hc with rfl | rfl | rfl | rfl <;>
    exact isPlain_of_isHexDigit (isHexDigit_hexDigit _ (by omega))

theorem isPlainText_escapeChar (c : Char) : IsPlainText (escapeChar c) := by
  have hu : ∀ n, IsPlainText ("\\u".toList ++ escapeChar.hex4 n) := fun n =>
    isPlainText_append.mpr ⟨isPlainText_of_all (by decide), isPlainText_hex4 n⟩
  unfold escapeChar
  repeat' split
  all_goals first | exact isPlainText_of_all (by decide) | exact hu _ | skip
  · refine isPlainText_cons.mpr ⟨?_, nofun⟩
    simp only [isPlain, Bool.and_eq_true, decide_eq_true_eq]
    omega
  · exact isPlainText_append.mpr ⟨hu _, hu _⟩

theorem isPlainText_jsonString (s : Str) : IsPlainText (jsonString s) := by
  intro c hc
  simp only [jsonString, List.cons_append, List.mem_cons, List.mem_append, List.mem_flatMap,
    List.not_mem_nil, or_false] at hc
  rcases hc with rfl | ⟨d, -, hc⟩ | rfl
  · decide
  · exact isPlainText_escapeChar d c hc
  · decide

theorem isPlainText_decimal (n : ℕ) : IsPlainText (decimal n) := fun _ hc =>
  isPlain_of_isDigit (isDigit_of_mem_decimal hc)

theorem isPlainText_jsonBool (b : Bool) : IsPlainText (jsonBool b) := by
  cases b <;> exact isPlainText_of_all (by decide)

theorem F64Text.isPlainText (timestamp : F64Text) : IsPlainText timestamp.text := by
  rcases timestamp.number_or_null with h | h
  · intro c hc
    have hnumber := List.all_eq_true.mp (all_isNumberChar h) c hc
    simp only [isNumberChar, Bool.or_eq_true, decide_eq_true_eq] at hnumber
    rcases hnumber with ((((h | rfl) | rfl) | rfl) | rfl) | rfl
    · exact isPlain_of_isDigit h
    all_goals decide
  · rw [h]
    exact isPlainText_of_all (by decide)

theorem isPlainText_commaSeparated {xs : List Str} (h : ∀ x ∈ xs, IsPlainText x) :
    IsPlainText (commaSeparated xs) := by
  induction xs using commaSeparated.induct with
  | case1 => exact nofun
  | case2 x => exact h x List.mem_cons_self
  | case3 x y xs ih =>
    refine isPlainText_append.mpr ⟨isPlainText_append.mpr ⟨h x List.mem_cons_self, ?_⟩, ?_⟩
    · exact isPlainText_of_all (by decide)
    · exact ih fun z hz => h z (List.mem_cons_of_mem _ hz)

theorem isPlainText_jsonArray {xs : List Str} (h : ∀ x ∈ xs, IsPlainText x) :
    IsPlainText (jsonArray xs) :=
  isPlainText_append.mpr ⟨isPlainText_cons.mpr ⟨by decide, isPlainText_commaSeparated h⟩,
    isPlainText_of_all (by decide)⟩

theorem isPlainText_jsonObject {fields : List (Str × Str)} (h : ∀ f ∈ fields, IsPlainText f.2) :
    IsPlainText (jsonObject fields) := by
  refine isPlainText_append.mpr ⟨isPlainText_cons.mpr ⟨by decide, isPlainText_commaSeparated ?_⟩,
    isPlainText_of_all (by decide)⟩
  intro x hx
  obtain ⟨f, hf, rfl⟩ := List.mem_map.mp hx
  exact isPlainText_append.mpr ⟨isPlainText_append.mpr
    ⟨isPlainText_jsonString _, isPlainText_of_all (by decide)⟩, h f hf⟩

theorem isPlainText_jsonWindow (w : WindowInfo) : IsPlainText (jsonWindow w) := by
  refine isPlainText_jsonObject ?_
  simp [isPlainText_jsonString, isPlainText_decimal, isPlainText_jsonBool]

theorem isPlainText_jsonActiveWindow (w : WindowInfo) : IsPlainText (jsonActiveWindow w) := by
  refine isPlainText_jsonObject ?_
  simp [isPlainText_jsonString, isPlainText_decimal]

theorem isPlainText_jsonPane (b : Bool) (p : PaneInfo) : IsPlainText (jsonPane b p) := by
  refine isPlainText_jsonObject ?_
  cases b <;> simp [isPlainText_jsonString, isPlainText_decimal, isPlainText_jsonBool]

theorem isPlainText_envelope (r : CaptureResult) (frameId : ℕ) (timestamp : F64Text) :
    IsPlainText (envelope r frameId timestamp) := by
  have hanalysis : IsPlainText (jsonObject
      [("visual_description".toList, jsonString (visualDescription r)),
        ("primary".toList, jsonString "tmux".toList),
        ("secondary".toList, jsonString "none".toList), ("overlap".toList, jsonBool false)]) := by
    refine isPlainText_jsonObject ?_
    simp [isPlainText_jsonString, isPlainText_jsonBool]
  have hwindows : IsPlainText (jsonArray (r.windows.map jsonWindow)) :=
    isPlainText_jsonArray fun x hx => by
      obtain ⟨w, -, rfl⟩ := List.mem_map.mp hx
      exact isPlainText_jsonWindow w
  have hpanes : IsPlainText (jsonArray (r.panes.map (jsonPane (!r.outputOnly)))) :=
    isPlainText_jsonArray fun x hx => by
      obtain ⟨p, -, rfl⟩ := List.mem_map.mp hx
      exact isPlainText_jsonPane _ p
  have htmux : IsPlainText (jsonObject
      [("session".toList, jsonString r.session), ("window".toList, jsonActiveWindow r.window),
        ("windows".toList, jsonArray (r.windows.map jsonWindow)),
        ("panes".toList, jsonArray (r.panes.map (jsonPane (!r.outputOnly))))]) := by
    refine isPlainText_jsonObject ?_
    simp only [List.forall_mem_cons]
    exact ⟨isPlainText_jsonString _, isPlainText_jsonActiveWindow _, hwindows, hpanes, by simp⟩
  refine isPlainText_jsonObject ?_
  simp only [List.forall_mem_cons]
  exact ⟨isPlainText_decimal _, timestamp.isPlainText, isPlainText_of_all (by decide), hanalysis,
    isPlainText_jsonObject (by simpa using htmux), by simp⟩

theorem newline_not_mem_envelope (r : CaptureResult) (frameId : ℕ) (timestamp : F64Text) :
    '\n' ∉ envelope r frameId timestamp := fun h =>
  absurd (isPlainText_envelope r frameId timestamp _ h) (by decide)

theorem newline_not_mem_utf8 {s : Str} (h : '\n' ∉ s) : newline ∉ utf8 s :=
  fun hm => h ((mem_utf8_iff (a := '\n') (by decide) s).mp hm)

end SolstoneTmux
