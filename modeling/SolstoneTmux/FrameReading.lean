import SolstoneTmux.FrameCodec

/-!
# The frame codec

`readFrame` takes a captured frame out of a JSON value, as a reader of the file would, and
`Decoder.json` is the reading of a frame id that recovery relies on. `frame_codec` joins both ends:
what a poll captured is read back from its line, and a file of such lines that is cut anywhere is
recorded up to the last whole frame.
-/

namespace SolstoneTmux

open Foundations

/-! ## Decoding bytes -/

/-- `serde_json::from_slice`. -/
def jsonFromSlice (b : Bytes) : Option JsonValue := (fromUtf8 b).bind parseDocument

/-- `Value::as_u64` of a number. -/
def numberAsU64 (text : Str) : Option ℕ :=
  if text.all isDigit && digitsValue text < 2 ^ 64 then some (digitsValue text) else none

mutual

/-- A value as `serde_json::Value` keeps it. -/
def valueToJson : JsonValue → Json
  | .null => .null
  | .bool b => .bool b
  | .number text => .number (numberAsU64 text)
  | .string s => .string s
  | .array items => .array (itemsToJson items)
  | .object fields => .object (fieldsToJson fields)

/-- The items of an array. -/
def itemsToJson : List JsonValue → List Json
  | [] => []
  | item :: items => valueToJson item :: itemsToJson items

/-- The fields of an object. -/
def fieldsToJson : List (Str × JsonValue) → List (Str × Json)
  | [] => []
  | (key, value) :: fields => (key, valueToJson value) :: fieldsToJson fields

end

theorem jsonFromSlice_envelope (r : CaptureResult) (frameId : ℕ) (timestamp : F64Text) :
    jsonFromSlice (utf8 (envelope r frameId timestamp)) =
      some (envelopeValue r frameId timestamp.value) := by
  rw [jsonFromSlice, fromUtf8_utf8, Option.bind_some]
  have hread : parseDocument (envelope r frameId timestamp ++ []) = _ :=
    (reads_envelope r frameId timestamp).parseDocument_append rfl nofun
  rwa [List.append_nil] at hread

/-- The line feed at the end of a frame is white space to a JSON reader. -/
theorem jsonFromSlice_serializeFrame (r : CaptureResult) (frameId : ℕ) (timestamp : F64Text) :
    jsonFromSlice (serializeFrame r frameId timestamp) =
      some (envelopeValue r frameId timestamp.value) := by
  have hline : serializeFrame r frameId timestamp = utf8 (envelope r frameId timestamp ++ ['\n']) := by
    rw [utf8_append]
    rfl
  rw [jsonFromSlice, hline, fromUtf8_utf8, Option.bind_some]
  refine (reads_envelope r frameId timestamp).parseDocument_append rfl ?_
  intro c hc
  rw [List.head?_cons, Option.mem_some_iff] at hc
  rw [← hc]
  rfl

theorem numberAsU64_decimal {n : ℕ} (h : n < 2 ^ 64) : numberAsU64 (decimal n) = some n := by
  have hall : (decimal n).all isDigit = true :=
    List.all_eq_true.mpr fun c hc => isDigit_of_mem_decimal hc
  rw [numberAsU64, digitsValue_decimal, hall, decide_eq_true h]
  rfl

/-- The decoder that reads JSON; what it makes of a metadata file is left open. -/
def Decoder.json (metadataFromSlice : Bytes → Option SegmentMetadata) : Decoder where
  metadataFromSlice := metadataFromSlice
  valueFromSlice := fun b => (jsonFromSlice b).map valueToJson
  frameId_of_envelope := by
    intro capture frameId timestamp h
    rw [jsonFromSlice_envelope]
    exact numberAsU64_decimal h

/-! ## Reading a frame -/

/-- A field that has to be there. -/
def field {α : Type} (key : String) (read : JsonValue → Option α) (value : JsonValue) : Option α :=
  (value.get key.toList).bind read

/-- A field that may be absent. -/
def optionalField {α : Type} (key : String) (read : JsonValue → Option α) (value : JsonValue) :
    Option (Option α) :=
  match value.get key.toList with
  | none => some none
  | some found => (read found).map some

/-- A list of items that are all read. -/
def readItems {α : Type} (read : JsonValue → Option α) (value : JsonValue) : Option (List α) :=
  value.asArray.bind fun items => items.mapM read

/-- A number of 32 bits. -/
def asU32 (value : JsonValue) : Option UInt32 :=
  (value.asNat.filter fun n => n < 2 ^ 32).map UInt32.ofNat

/-- What is read of a pane. -/
structure PaneReading where
  id : Str
  index : UInt32
  left : UInt32
  top : UInt32
  width : UInt32
  height : UInt32
  active : Bool
  cursorX : Option UInt32
  cursorY : Option UInt32
  cursorVisible : Option Bool
  alternateOn : Bool
  paneInMode : Bool
  content : Str
  deriving DecidableEq

/-- What is read of a frame. Of the active window the record has no `active` flag. -/
structure FrameReading (F : Type) where
  frameId : ℕ
  timestamp : F
  session : Str
  windowId : Str
  windowIndex : UInt32
  windowName : Str
  windows : List WindowInfo
  panes : List PaneReading

/-- Reading a window. -/
def readWindow (value : JsonValue) : Option WindowInfo := do
  let id ← field "id" JsonValue.asString value
  let index ← field "index" asU32 value
  let name ← field "name" JsonValue.asString value
  let active ← field "active" JsonValue.asBool value
  some ⟨id, index, name, active⟩

/-- Reading a pane. -/
def readPane (value : JsonValue) : Option PaneReading := do
  let id ← field "id" JsonValue.asString value
  let index ← field "index" asU32 value
  let left ← field "left" asU32 value
  let top ← field "top" asU32 value
  let width ← field "width" asU32 value
  let height ← field "height" asU32 value
  let active ← field "active" JsonValue.asBool value
  let cursorX ← optionalField "cursor_x" asU32 value
  let cursorY ← optionalField "cursor_y" asU32 value
  let cursorVisible ← optionalField "cursor_visible" JsonValue.asBool value
  let alternateOn ← field "alternate_on" JsonValue.asBool value
  let paneInMode ← field "pane_in_mode" JsonValue.asBool value
  let content ← field "content" JsonValue.asString value
  some ⟨id, index, left, top, width, height, active, cursorX, cursorY, cursorVisible, alternateOn,
    paneInMode, content⟩

/-- Reading a number's text. -/
def readNumber {F : Type} (read : Str → Option F) : JsonValue → Option F
  | .number text => read text
  | _ => none

/-- Reading a frame, with a reading of doubles. -/
def readFrame {F : Type} (read : Str → Option F) (value : JsonValue) :
    Option (FrameReading F) := do
  let frameId ← field "frame_id" JsonValue.asNat value
  let timestamp ← field "timestamp" (readNumber read) value
  let tmux ← field "content" (field "tmux" some) value
  let session ← field "session" JsonValue.asString tmux
  let window ← field "window" some tmux
  let windowId ← field "id" JsonValue.asString window
  let windowIndex ← field "index" asU32 window
  let windowName ← field "name" JsonValue.asString window
  let windows ← field "windows" (readItems readWindow) tmux
  let panes ← field "panes" (readItems readPane) tmux
  some ⟨frameId, timestamp, session, windowId, windowIndex, windowName, windows, panes⟩

/-- What is to be read of a pane. -/
def PaneReading.of (withCursor : Bool) (p : PaneInfo) : PaneReading where
  id := p.id
  index := p.index
  left := p.left
  top := p.top
  width := p.width
  height := p.height
  active := p.active
  cursorX := if withCursor then some p.cursorX else none
  cursorY := if withCursor then some p.cursorY else none
  cursorVisible := if withCursor then some p.cursorVisible else none
  alternateOn := p.alternateOn
  paneInMode := p.paneInMode
  content := p.content

/-- What is to be read of a frame. -/
def FrameReading.of {F : Type} (r : CaptureResult) (frameId : ℕ) (timestamp : F) :
    FrameReading F where
  frameId := frameId
  timestamp := timestamp
  session := r.session
  windowId := r.window.id
  windowIndex := r.window.index
  windowName := r.window.name
  windows := r.windows
  panes := r.panes.map (PaneReading.of !r.outputOnly)

theorem asNat_decimal (n : ℕ) : (JsonValue.number (decimal n)).asNat = some n := by
  have hall : (decimal n).all isDigit = true :=
    List.all_eq_true.mpr fun c hc => isDigit_of_mem_decimal hc
  rw [JsonValue.asNat, if_pos hall, digitsValue_decimal]

theorem asU32_decimal (n : UInt32) : asU32 (.number (decimal n.toNat)) = some n := by
  rw [asU32, asNat_decimal, Option.filter_some, if_pos (decide_eq_true n.toNat_lt), Option.map_some,
    UInt32.ofNat_toNat]

theorem readWindow_windowValue (w : WindowInfo) : readWindow (windowValue w) = some w := by
  have hindex : field "index" asU32 (windowValue w) = some w.index := asU32_decimal w.index
  rw [readWindow, hindex]
  rfl

theorem mapM_map {α β γ : Type} {f : α → β} {read : β → Option γ} {g : α → γ}
    (h : ∀ a, read (f a) = some (g a)) (xs : List α) :
    (xs.map f).mapM read = some (xs.map g) := by
  induction xs with
  | nil => rfl
  | cons x xs ih =>
    rw [List.map_cons, List.mapM_cons, h x, ih]
    rfl

theorem readPane_paneValue (withCursor : Bool) (p : PaneInfo) :
    readPane (paneValue withCursor p) = some (PaneReading.of withCursor p) := by
  have hnat : ∀ n : UInt32, asU32 (.number (decimal n.toNat)) = some n := asU32_decimal
  cases withCursor
  · have hindex : field "index" asU32 (paneValue false p) = some p.index := hnat _
    have hleft : field "left" asU32 (paneValue false p) = some p.left := hnat _
    have htop : field "top" asU32 (paneValue false p) = some p.top := hnat _
    have hwidth : field "width" asU32 (paneValue false p) = some p.width := hnat _
    have hheight : field "height" asU32 (paneValue false p) = some p.height := hnat _
    rw [readPane, hindex, hleft, htop, hwidth, hheight]
    rfl
  · have hindex : field "index" asU32 (paneValue true p) = some p.index := hnat _
    have hleft : field "left" asU32 (paneValue true p) = some p.left := hnat _
    have htop : field "top" asU32 (paneValue true p) = some p.top := hnat _
    have hwidth : field "width" asU32 (paneValue true p) = some p.width := hnat _
    have hheight : field "height" asU32 (paneValue true p) = some p.height := hnat _
    have hx : optionalField "cursor_x" asU32 (paneValue true p) = some (some p.cursorX) :=
      congrArg (Option.map some) (hnat _)
    have hy : optionalField "cursor_y" asU32 (paneValue true p) = some (some p.cursorY) :=
      congrArg (Option.map some) (hnat _)
    rw [readPane, hindex, hleft, htop, hwidth, hheight, hx, hy]
    rfl

/-- A frame is read back from its value. -/
theorem readFrame_envelopeValue {F : Type} {read : Str → Option F} {text : Str} {timestamp : F}
    (h : read text = some timestamp) (r : CaptureResult) (frameId : ℕ) :
    readFrame read (envelopeValue r frameId (.number text)) =
      some (FrameReading.of r frameId timestamp) := by
  have hframeId : field "frame_id" JsonValue.asNat (envelopeValue r frameId (.number text)) =
      some frameId := asNat_decimal _
  have htimestamp : field "timestamp" (readNumber read) (envelopeValue r frameId (.number text)) =
      some timestamp := h
  have hindex : field "index" asU32 (activeWindowValue r.window) =
      some r.window.index := asU32_decimal _
  have hwindows : (r.windows.map windowValue).mapM readWindow = some r.windows := by
    simpa using mapM_map readWindow_windowValue r.windows
  have hpanes := mapM_map (readPane_paneValue !r.outputOnly) r.panes
  rw [readFrame, hframeId, htimestamp]
  -- The fields that are no numbers compute.
  change (field "index" asU32 (activeWindowValue r.window)).bind (fun windowIndex =>
    ((r.windows.map windowValue).mapM readWindow).bind fun windows =>
      ((r.panes.map (paneValue !r.outputOnly)).mapM readPane).bind fun panes =>
        some (FrameReading.mk frameId timestamp r.session r.window.id windowIndex r.window.name
          windows panes)) = _
  rw [hindex, hwindows, hpanes]
  rfl

/-! ## A file of frames -/

/-- The number format of the serializer on finite doubles: it writes a number, which is read
back. -/
structure F64Format (F : Type) where
  write : F → Str
  read : Str → Option F
  isF64Text_write : ∀ x, isF64Text (write x) = true
  read_write : ∀ x, read (write x) = some x

/-- The text of a finite double. -/
def F64Format.text {F : Type} (format : F64Format F) (x : F) : F64Text :=
  ⟨format.write x, .inl (format.isF64Text_write x)⟩

/-- The doubles from `0.0` to `9.0`. -/
def F64Format.digits : F64Format (Fin 10) where
  write := fun d => decimal d ++ ".0".toList
  read := fun s => (List.finRange 10).find? fun d => decimal d ++ ".0".toList = s
  isF64Text_write := by decide
  read_write := by decide

/-- What `serialize_frame` is called with. -/
structure CapturedFrame (F : Type) where
  capture : CaptureResult
  frameId : ℕ
  timestamp : F
  frameId_lt : frameId < 2 ^ 64

section CapturedFrame

variable {F : Type} (format : F64Format F)

/-- The line of a frame. -/
def CapturedFrame.line (f : CapturedFrame F) : Bytes :=
  serializeFrame f.capture f.frameId (format.text f.timestamp)

/-- The file of a list of frames. -/
def framesBytes (frames : List (CapturedFrame F)) : Bytes :=
  (frames.map (CapturedFrame.line format)).flatten

/-- The length of the first frames of a list. -/
def frameEnd (frames : List (CapturedFrame F)) (n : ℕ) : ℕ :=
  (framesBytes format (frames.take n)).length

/-- One frame is written as a line of ASCII and is read back from it. -/
structure LineDecodes (f : CapturedFrame F) : Prop where
  ascii : ∀ b ∈ f.line format, b < 128
  isLine : IsLine newline (f.line format)
  decodes : (jsonFromSlice (f.line format)).bind (readFrame format.read) =
    some (FrameReading.of f.capture f.frameId f.timestamp)

theorem lineDecodes (f : CapturedFrame F) : LineDecodes format f where
  ascii := by
    intro b hb
    rcases List.mem_append.mp hb with hb | hb
    · have hplain := isPlainText_envelope f.capture f.frameId (format.text f.timestamp)
      have hlt : ∀ c ∈ envelope f.capture f.frameId (format.text f.timestamp), c.toNat < 128 := by
        intro c hc
        have := hplain c hc
        rw [isPlain, Bool.and_eq_true, decide_eq_true_eq, decide_eq_true_eq] at this
        exact this.2
      rw [utf8_ascii hlt] at hb
      obtain ⟨c, hc, rfl⟩ := List.mem_map.mp hb
      rw [UInt8.lt_iff_toNat_lt, toNat_ofNat_of_lt (by have := hlt c hc; omega)]
      exact hlt c hc
    · rw [List.mem_singleton.mp hb]
      decide
  isLine := ⟨_, rfl, newline_not_mem_utf8 (newline_not_mem_envelope _ _ _)⟩
  decodes := by
    rw [CapturedFrame.line, jsonFromSlice_serializeFrame, Option.bind_some, F64Text.value,
      F64Format.text, if_pos (isNumberText_of_isF64Text (format.isF64Text_write f.timestamp))]
    exact readFrame_envelopeValue (format.read_write f.timestamp) f.capture f.frameId

theorem linesRead_frames (decoder : Decoder) (frames : List (CapturedFrame F)) :
    LinesRead decoder (frames.map (CapturedFrame.line format))
      (frames.map CapturedFrame.frameId) := by
  induction frames with
  | nil => exact .nil
  | cons f frames ih =>
    refine .cons ⟨(lineDecodes format f).isLine, ?_⟩ ih
    rw [CapturedFrame.line, serializeFrame, List.dropLast_concat]
    exact decoder.frameId_of_envelope f.capture f.frameId _ f.frameId_lt

/-- A file of frames that is cut after `k` bytes is recorded up to the last frame end. -/
structure PrefixRecorded (decoder : Decoder) (frames : List (CapturedFrame F)) (k n : ℕ) :
    Prop where
  count : n ≤ frames.length
  within : frameEnd format frames n ≤ k
  last : ∀ m, n < m → m ≤ frames.length → k < frameEnd format frames m
  recorded : ∃ torn, parseRecordedPrefix decoder ((framesBytes format frames).take k) =
      (frameEnd format frames n, (frames.take n).map CapturedFrame.frameId, torn) ∧
    (torn = true ↔ ∀ m ≤ frames.length, frameEnd format frames m ≠ k)

theorem frameEnd_mono (frames : List (CapturedFrame F)) {m n : ℕ} (h : m ≤ n) :
    frameEnd format frames m ≤ frameEnd format frames n := by
  obtain ⟨t, ht⟩ := List.take_prefix_take_left h (l := frames)
  rw [frameEnd, frameEnd, ← ht, framesBytes, framesBytes, List.map_append, List.flatten_append,
    List.length_append]
  exact Nat.le_add_right _ _

theorem exists_prefixRecorded (decoder : Decoder) {frames : List (CapturedFrame F)}
    (hinc : frames.Pairwise fun f g => f.frameId < g.frameId) {k : ℕ}
    (hk : k ≤ (framesBytes format frames).length) :
    ∃ n, PrefixRecorded format decoder frames k n := by
  have hlines : ∀ l ∈ frames.map (CapturedFrame.line format), IsLine newline l :=
    (linesRead_frames format decoder frames).isLine
  rw [framesBytes] at hk
  obtain ⟨n, t, hn, htake, ht, hlast⟩ := exists_cut hlines hk
  rw [List.length_map] at hn hlast
  have hend : ∀ m, ((frames.map (CapturedFrame.line format)).take m).flatten.length =
      frameEnd format frames m := fun m => by rw [← List.map_take]; rfl
  have hlen : k = frameEnd format frames n + t.length := by
    have hlength := congrArg List.length htake
    rwa [List.length_append, hend, List.length_take_of_le hk] at hlength
  refine ⟨n, hn, by omega, fun m hm hle => hend m ▸ hlast m hm hle, decide (t ≠ []), ?_, ?_⟩
  · have hread := linesRead_frames format decoder (frames.take n)
    have hinc' : ((frames.take n).map CapturedFrame.frameId).Pairwise (· < ·) :=
      List.pairwise_map.mpr (hinc.sublist (List.take_sublist n frames))
    rw [framesBytes, htake, ← List.map_take]
    exact parseRecordedPrefix_lines hread hinc' ht
  · rw [decide_eq_true_iff, ← List.length_pos_iff]
    constructor
    · intro hpos m hm heq
      rcases Nat.lt_or_ge n m with hlt | hge
      · have := hend m ▸ hlast m hlt hm
        omega
      · have := frameEnd_mono format frames hge
        omega
    · intro hne
      have := hne n hn
      omega

end CapturedFrame

/-- Frames are written as lines of ASCII from which what was captured is read back, with the
formatter's own text for every string, and a file of frames that is cut anywhere is recorded up to
its last whole frame. -/
theorem frame_codec {F : Type} (format : F64Format F)
    (metadataFromSlice : Bytes → Option SegmentMetadata) :
    (∀ s, jsonString s = '"' :: formatEscapedStr [] s ++ ['"']) ∧
    (∀ f : CapturedFrame F, LineDecodes format f) ∧
    ∀ (frames : List (CapturedFrame F)) (k : ℕ),
      frames.Pairwise (fun f g => f.frameId < g.frameId) → k ≤ (framesBytes format frames).length →
        ∃ n, PrefixRecorded format (Decoder.json metadataFromSlice) frames k n :=
  ⟨fun s => by rw [formatEscapedStr_eq]; rfl, lineDecodes format,
    fun _ _ hinc hk => exists_prefixRecorded format _ hinc hk⟩

/-- A capture without panes. -/
def emptyCapture : CaptureResult := ⟨"s".toList, ⟨[], 0, [], true⟩, [], [], false⟩

theorem frame_codec_twoFrames :
    ∃ n, PrefixRecorded F64Format.digits (Decoder.json fun _ => none)
      [⟨emptyCapture, 1, 5, by decide⟩, ⟨emptyCapture, 2, 6, by decide⟩] 1 n :=
  (frame_codec F64Format.digits fun _ => none).2.2 _ 1 (by simp)
    (List.length_pos_iff.mpr (by simp [framesBytes, CapturedFrame.line, serializeFrame]))

end SolstoneTmux
