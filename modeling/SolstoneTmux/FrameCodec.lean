import SolstoneTmux.Recovery.Reading

/-!
# Frames are read back

A frame is one line of ASCII that decodes to what was captured, every character restored from its
escapes (`jsonFromSlice_envelope`). The writer hands the formatter strings in fragments and escapes
(`formatEscapedStr`); `formatEscapedStr_eq` joins them to the text of `escapeChar`, and
`unescape_escapeChar` reads one character of it back.
-/

namespace SolstoneTmux

open Foundations

/-! ## The formatter -/

/-- `CharEscape`. -/
inductive CharEscape
  | quote
  | reverseSolidus
  | solidus
  | backspace
  | formFeed
  | lineFeed
  | carriageReturn
  | tab
  | asciiControl (byte : ℕ)
  deriving DecidableEq

/-- `SpacedFormatter::write_char_escape`. -/
def writeCharEscape : CharEscape → Str
  | .quote => "\\\"".toList
  | .reverseSolidus => "\\\\".toList
  | .solidus => "/".toList
  | .backspace => "\\b".toList
  | .formFeed => "\\f".toList
  | .lineFeed => "\\n".toList
  | .carriageReturn => "\\r".toList
  | .tab => "\\t".toList
  | .asciiControl byte => "\\u".toList ++ escapeChar.hex4 byte

/-- `SpacedFormatter::write_string_fragment`. -/
def writeStringFragment (fragment : Str) : Str :=
  fragment.flatMap fun c =>
    if c.toNat < 128 then [c]
    else if c.toNat ≤ 0xffff then "\\u".toList ++ escapeChar.hex4 c.toNat
    else
      let adjusted := c.toNat - 0x10000
      let high := 0xd800 + adjusted / 1024
      let low := 0xdc00 + adjusted % 1024
      "\\u".toList ++ escapeChar.hex4 high ++ ("\\u".toList ++ escapeChar.hex4 low)

/-- The escape that the serializer asks for, if the character needs one. -/
def CharEscape.ofChar (c : Char) : Option CharEscape :=
  if c = '"' then some .quote
  else if c = '\\' then some .reverseSolidus
  else if c.toNat = 8 then some .backspace
  else if c.toNat = 12 then some .formFeed
  else if c = '\n' then some .lineFeed
  else if c = '\r' then some .carriageReturn
  else if c = '\t' then some .tab
  else if c.toNat < 32 then some (.asciiControl c.toNat)
  else none

/-- The serializer's writing of a string's content: the characters up to an escape are one
fragment. `fragment` is what is read of the current one. -/
def formatEscapedStr (fragment : Str) : Str → Str
  | [] => writeStringFragment fragment
  | c :: s =>
    match CharEscape.ofChar c with
    | none => formatEscapedStr (fragment ++ [c]) s
    | some escape =>
      writeStringFragment fragment ++ writeCharEscape escape ++ formatEscapedStr [] s

theorem escapeChar_of_escape {c : Char} {escape : CharEscape}
    (h : CharEscape.ofChar c = some escape) : escapeChar c = writeCharEscape escape := by
  unfold CharEscape.ofChar at h
  unfold escapeChar
  repeat' split at h
  all_goals cases h
  all_goals simp_all [writeCharEscape]

theorem escapeChar_of_no_escape {c : Char} (h : CharEscape.ofChar c = none) :
    escapeChar c = writeStringFragment [c] := by
  unfold CharEscape.ofChar at h
  unfold escapeChar
  repeat' split at h
  all_goals cases h
  all_goals simp_all [writeStringFragment]

/-- The fragments and escapes of a string are the texts of its characters. -/
theorem formatEscapedStr_eq (fragment s : Str) :
    formatEscapedStr fragment s = writeStringFragment fragment ++ s.flatMap escapeChar := by
  induction s generalizing fragment with
  | nil => simp [formatEscapedStr]
  | cons c s ih =>
    rw [formatEscapedStr]
    cases h : CharEscape.ofChar c with
    | none =>
      simp only [ih, List.flatMap_cons, escapeChar_of_no_escape h, writeStringFragment,
        List.flatMap_append, List.append_assoc]
    | some escape =>
      simp only [ih, List.flatMap_cons, escapeChar_of_escape h, writeStringFragment,
        List.flatMap_nil, List.nil_append, List.append_assoc]

/-! ## One character -/

theorem hexValue_hexDigit : ∀ n < 16, hexValue (hexDigit n) = some n := by
  decide

theorem codeUnit_hex4 {n : ℕ} (h : n < 65536) :
    codeUnit (hexDigit (n / 4096 % 16)) (hexDigit (n / 256 % 16)) (hexDigit (n / 16 % 16))
      (hexDigit (n % 16)) = some n := by
  rw [codeUnit, hexValue_hexDigit _ (by omega), hexValue_hexDigit _ (by omega),
    hexValue_hexDigit _ (by omega), hexValue_hexDigit _ (by omega)]
  simp only [Option.bind_some, Option.map_some, Option.some.injEq]
  omega

/-- An escape of one code unit. -/
theorem unescape_hex4 {n : ℕ} (h : n < 65536) (hhigh : isHighSurrogate n = false)
    (hlow : isLowSurrogate n = false) (rest : Str) :
    unescape ("\\u".toList ++ escapeChar.hex4 n ++ rest) =
      consRead (Char.ofNat n) (unescape rest) := by
  change unescape ('\\' :: 'u' :: _ :: _ :: _ :: _ :: rest) = _
  rw [unescape, codeUnit_hex4 h]
  simp only [hhigh, hlow, Bool.false_eq_true, if_false]

/-- An escape of a surrogate pair. -/
theorem unescape_surrogates {m n : ℕ} (hm : m < 65536) (hn : n < 65536)
    (hhigh : isHighSurrogate m = true) (hlow : isLowSurrogate n = true) (rest : Str) :
    unescape ("\\u".toList ++ escapeChar.hex4 m ++ ("\\u".toList ++ escapeChar.hex4 n) ++ rest) =
      consRead (surrogatePair m n) (unescape rest) := by
  have hnot : isLowSurrogate m = false := by
    simp only [isHighSurrogate, isLowSurrogate, Bool.and_eq_true, decide_eq_true_eq,
      Bool.and_eq_false_iff, decide_eq_false_iff_not] at hhigh ⊢
    omega
  change unescape ('\\' :: 'u' :: _ :: _ :: _ :: _ :: '\\' :: 'u' :: _ :: _ :: _ :: _ :: rest) = _
  rw [unescape, codeUnit_hex4 hm]
  simp only [hhigh, hnot, Bool.false_eq_true, if_false, if_true, codeUnit_hex4 hn, hlow]

theorem char_toNat_range (c : Char) : c.toNat < 0xd800 ∨ (0xdfff < c.toNat ∧ c.toNat < 0x110000) :=
  c.valid

theorem ofNat_of_toNat_eq {c : Char} {n : ℕ} (h : c.toNat = n) : Char.ofNat n = c := by
  rw [← h, Char.ofNat_toNat]

/-- A character is read back from its text in a string. -/
theorem unescape_escapeChar (c : Char) (rest : Str) :
    unescape (escapeChar c ++ rest) = consRead c (unescape rest) := by
  have hrange := char_toNat_range c
  unfold escapeChar
  split
  · rename_i h
    rw [h]
    rfl
  split
  · rename_i h
    rw [h]
    rfl
  split
  · rename_i h
    rw [← ofNat_of_toNat_eq h]
    rfl
  split
  · rename_i h
    rw [← ofNat_of_toNat_eq h]
    rfl
  split
  · rename_i h
    rw [h]
    rfl
  split
  · rename_i h
    rw [h]
    rfl
  split
  · rename_i h
    rw [h]
    rfl
  split
  · rw [unescape_hex4 (by omega) (by simp [isHighSurrogate]; omega)
      (by simp [isLowSurrogate]; omega), Char.ofNat_toNat]
  split
  · rename_i hquote hslash _ _ _ _ _ hcontrol hascii
    rw [List.singleton_append, unescape.eq_def]
    split
    · rename_i h
      cases h
    · rename_i h
      injection h with h _
      exact absurd h hquote
    · rename_i h
      injection h with h _
      exact absurd h hslash
    · rename_i h
      injection h with h _
      exact absurd h hslash
    · rename_i h
      injection h with hc hrest
      subst hc hrest
      rw [if_neg]
      simp [hslash]
      omega
  split
  · rename_i hbmp
    rw [unescape_hex4 (by omega) (by simp [isHighSurrogate]; omega)
      (by simp [isLowSurrogate]; omega), Char.ofNat_toNat]
  · have hpair : surrogatePair (0xd800 + (c.toNat - 0x10000) / 1024)
        (0xdc00 + (c.toNat - 0x10000) % 1024) = c := by
      rw [surrogatePair]
      refine ofNat_of_toNat_eq ?_
      omega
    rw [unescape_surrogates (by omega) (by omega) (by simp [isHighSurrogate]; omega)
      (by simp [isLowSurrogate]; omega), hpair]

/-- A string is read back from its text. -/
theorem unescape_flatMap (s rest : Str) :
    unescape (s.flatMap escapeChar ++ '"' :: rest) = some (s, rest) := by
  induction s with
  | nil => rfl
  | cons c s ih =>
    rw [List.flatMap_cons, List.append_assoc, unescape_escapeChar, ih]
    rfl

/-! ## Values -/

theorem reads_jsonString (s : Str) : Reads (jsonString s) (.string s) :=
  reads_string fun rest => unescape_flatMap s rest

theorem reads_jsonBool (b : Bool) : Reads (jsonBool b) (.bool b) := by
  cases b
  · exact reads_false
  · exact reads_true

theorem decimal_head (n : ℕ) : decimal n = ['0'] ∨ (decimal n).head? ≠ some '0' := by
  induction n using Nat.strongRecOn with
  | ind n ih =>
    rw [decimal, Nat.toDigits_eq_if (by decide)]
    split
    · rename_i hn
      interval_cases n <;> decide
    · rename_i hn
      right
      have hne : decimal (n / 10) ≠ [] := Nat.toDigits_ne_nil
      have hhead : (decimal (n / 10) ++ [Nat.digitChar (n % 10)]).head? =
          (decimal (n / 10)).head? := by
        rw [List.head?_append]
        cases hd : decimal (n / 10) with
        | nil => exact absurd hd hne
        | cons c s => rfl
      change (decimal (n / 10) ++ [Nat.digitChar (n % 10)]).head? ≠ some '0'
      rw [hhead]
      rcases ih (n / 10) (by omega) with hzero | hnonzero
      · have hvalue := digitsValue_decimal (n / 10)
        rw [hzero] at hvalue
        have : n / 10 = 0 := hvalue.symm
        omega
      · exact hnonzero

/-- A text of digits without a superfluous zero is a number. -/
theorem isNumberText_of_digits {s : Str} (hne : s ≠ []) (hdigit : ∀ c ∈ s, isDigit c = true)
    (hzero : s = ['0'] ∨ s.head? ≠ some '0') : isNumberText s = true := by
  have hnot : ∀ d, isDigit d = false → d ∉ s := fun d hd hmem =>
    Bool.false_ne_true (hd.symm.trans (hdigit d hmem))
  have hmap : (s.map fun c => if c = 'E' then 'e' else c) = s := by
    conv_rhs => rw [← List.map_id s]
    refine List.map_congr_left fun c hc => if_neg ?_
    rintro rfl
    exact hnot 'E' (by decide) hc
  have hsign : dropSign ['-'] s = s := by
    cases s with
    | nil => rfl
    | cons c rest =>
      refine if_neg ?_
      rw [List.contains_iff_mem, List.mem_singleton]
      rintro rfl
      exact hnot '-' (by decide) List.mem_cons_self
  have hnumber : s.all isNumberChar = true :=
    List.all_eq_true.mpr fun c hc => by simp [isNumberChar, hdigit c hc]
  have hall : s.all isDigit = true := List.all_eq_true.mpr hdigit
  have hunsigned : isUnsigned s = true := by
    rw [isUnsigned, isDigits, hall]
    simpa [hne] using hzero
  simp only [isNumberText, hmap, splitOnce_eq_none (hnot 'e' (by decide)),
    splitOnce_eq_none (hnot '.' (by decide)), hsign, hnumber, hunsigned, Option.all_none,
    Bool.and_self]

theorem isNumberText_decimal (n : ℕ) : isNumberText (decimal n) = true :=
  isNumberText_of_digits Nat.toDigits_ne_nil (fun _ hc => isDigit_of_mem_decimal hc)
    (decimal_head n)

theorem reads_decimal (n : ℕ) : Reads (decimal n) (.number (decimal n)) :=
  reads_number (isNumberText_decimal n)

theorem length_commaSeparated (x y : Str) (xs : List Str) :
    (commaSeparated (x :: y :: xs)).length =
      x.length + 2 + (commaSeparated (y :: xs)).length := by
  simp [commaSeparated]
  omega

theorem commaSeparated_append (x y : Str) (xs : List Str) (s : Str) :
    commaSeparated (x :: y :: xs) ++ s = x ++ ',' :: ' ' :: (commaSeparated (y :: xs) ++ s) := by
  simp [commaSeparated]

theorem parseItems_commaSeparated {text : Str} {texts : List Str} {item : JsonValue}
    {items : List JsonValue} (hfirst : Reads text item) (hrest : List.Forall₂ Reads texts items)
    (fuel : ℕ) (rest : Str) (hfuel : (commaSeparated (text :: texts)).length + 1 < fuel) :
    parseItems fuel (commaSeparated (text :: texts) ++ ']' :: rest) =
      some (item :: items, rest) := by
  obtain ⟨fuel, rfl⟩ : ∃ n, fuel = n + 1 := ⟨fuel - 1, by omega⟩
  induction hrest generalizing text item fuel with
  | nil => exact hfirst.parseItems_last (Nat.lt_of_succ_lt_succ hfuel) rest
  | @cons second item' texts items hsecond _ ih =>
    rw [length_commaSeparated] at hfuel
    obtain ⟨fuel, rfl⟩ : ∃ n, fuel = n + 1 := ⟨fuel - 1, by omega⟩
    rw [commaSeparated_append, hfirst.parseItems_cons (by omega), parseItems_space, ih hsecond _ (by omega)]
    rfl

/-- The text of an array is read when those of its items are. -/
theorem reads_jsonArray {texts : List Str} {items : List JsonValue}
    (h : List.Forall₂ Reads texts items) : Reads (jsonArray texts) (.array items) := by
  cases h with
  | nil => exact reads_emptyArray
  | cons hfirst hrest =>
    refine reads_array ?_ (parseItems_commaSeparated hfirst hrest)
    obtain ⟨c, s, rfl, hc⟩ := hfirst.start
    cases hrest with
    | nil => exact ⟨c, s, rfl, hc⟩
    | cons hsecond hmore => exact ⟨c, _, rfl, hc⟩

/-- The text of a field, and what it is read as. -/
structure FieldReads (field : Str × Str) (read : Str × JsonValue) : Prop where
  key : field.1 = read.1
  value : Reads field.2 read.2

theorem FieldReads.readsField {field : Str × Str} {read : Str × JsonValue}
    (h : FieldReads field read) :
    ReadsField (jsonString field.1 ++ ": ".toList ++ field.2) read.1 read.2 := by
  refine ⟨field.1.flatMap escapeChar, field.2, ?_, ?_, h.value⟩
  · simp [jsonString]
  · rw [← h.key]
    exact unescape_flatMap field.1

theorem parseFields_commaSeparated {field : Str × Str} {fields : List (Str × Str)}
    {read : Str × JsonValue} {reads : List (Str × JsonValue)} (hfirst : FieldReads field read)
    (hrest : List.Forall₂ FieldReads fields reads) (fuel : ℕ) (rest : Str)
    (hfuel : (commaSeparated ((field :: fields).map fun (k, v) =>
      jsonString k ++ ": ".toList ++ v)).length + 1 < fuel) :
    parseFields fuel (commaSeparated ((field :: fields).map fun (k, v) =>
      jsonString k ++ ": ".toList ++ v) ++ '\x7d' :: rest) = some (read :: reads, rest) := by
  obtain ⟨fuel, rfl⟩ : ∃ n, fuel = n + 1 := ⟨fuel - 1, by omega⟩
  induction hrest generalizing field read fuel with
  | nil => exact hfirst.readsField.parseFields_last (Nat.lt_of_succ_lt_succ hfuel) rest
  | @cons second read' fields reads hsecond _ ih =>
    simp only [List.map_cons] at hfuel ih ⊢
    generalize hmore : fields.map (fun (k, v) => jsonString k ++ ": ".toList ++ v) = more at *
    generalize htext : jsonString field.1 ++ ": ".toList ++ field.2 = text at *
    have hread := hfirst.readsField
    have hnext := ih hsecond
    generalize hsecondText : jsonString second.1 ++ ": ".toList ++ second.2 = secondText at *
    rw [htext] at hread
    rw [length_commaSeparated] at hfuel
    obtain ⟨fuel, rfl⟩ : ∃ n, fuel = n + 1 := ⟨fuel - 1, by omega⟩
    rw [commaSeparated_append, hread.parseFields_cons (by omega), parseFields_space, hnext _ (by omega)]
    rfl

/-- The text of an object is read when those of its fields are. -/
theorem reads_jsonObject {fields : List (Str × Str)} {reads : List (Str × JsonValue)}
    (hne : fields ≠ []) (h : List.Forall₂ FieldReads fields reads) :
    Reads (jsonObject fields) (.object reads) := by
  cases h with
  | nil => exact absurd rfl hne
  | cons hfirst hrest =>
    refine reads_object ?_ (parseFields_commaSeparated hfirst hrest)
    cases hrest with
    | nil => exact ⟨_, rfl⟩
    | cons hsecond hmore => exact ⟨_, rfl⟩

/-! ## The envelope as a value -/

/-- What the text of an active window is read as. -/
def activeWindowValue (w : WindowInfo) : JsonValue :=
  .object [("id".toList, .string w.id), ("index".toList, .number (decimal w.index.toNat)),
    ("name".toList, .string w.name)]

/-- What the text of a window is read as. -/
def windowValue (w : WindowInfo) : JsonValue :=
  .object [("id".toList, .string w.id), ("index".toList, .number (decimal w.index.toNat)),
    ("name".toList, .string w.name), ("active".toList, .bool w.active)]

/-- What the text of a pane is read as. -/
def paneValue (withCursor : Bool) (p : PaneInfo) : JsonValue :=
  .object <|
    [("id".toList, .string p.id), ("index".toList, .number (decimal p.index.toNat)),
      ("left".toList, .number (decimal p.left.toNat)),
      ("top".toList, .number (decimal p.top.toNat)),
      ("width".toList, .number (decimal p.width.toNat)),
      ("height".toList, .number (decimal p.height.toNat)),
      ("active".toList, .bool p.active)] ++
    (if withCursor then
      [("cursor_x".toList, .number (decimal p.cursorX.toNat)),
        ("cursor_y".toList, .number (decimal p.cursorY.toNat)),
        ("cursor_visible".toList, .bool p.cursorVisible)]
    else []) ++
    [("alternate_on".toList, .bool p.alternateOn), ("pane_in_mode".toList, .bool p.paneInMode),
      ("content".toList, .string p.content)]

/-- What the text of an envelope is read as. -/
def envelopeValue (r : CaptureResult) (frameId : ℕ) (timestamp : JsonValue) : JsonValue :=
  .object
    [("frame_id".toList, .number (decimal frameId)), ("timestamp".toList, timestamp),
      ("requests".toList, .array []),
      ("analysis".toList, .object
        [("visual_description".toList, .string (visualDescription r)),
          ("primary".toList, .string "tmux".toList), ("secondary".toList, .string "none".toList),
          ("overlap".toList, .bool false)]),
      ("content".toList, .object
        [("tmux".toList, .object
          [("session".toList, .string r.session), ("window".toList, activeWindowValue r.window),
            ("windows".toList, .array (r.windows.map windowValue)),
            ("panes".toList, .array (r.panes.map (paneValue (!r.outputOnly))))])])]

theorem fieldReads_string (key s : Str) : FieldReads (key, jsonString s) (key, .string s) :=
  ⟨rfl, reads_jsonString s⟩

theorem fieldReads_decimal (key : Str) (n : ℕ) :
    FieldReads (key, decimal n) (key, .number (decimal n)) := ⟨rfl, reads_decimal n⟩

theorem fieldReads_bool (key : Str) (b : Bool) : FieldReads (key, jsonBool b) (key, .bool b) :=
  ⟨rfl, reads_jsonBool b⟩

theorem reads_jsonActiveWindow (w : WindowInfo) :
    Reads (jsonActiveWindow w) (activeWindowValue w) :=
  reads_jsonObject (List.cons_ne_nil _ _)
    (.cons (fieldReads_string _ _) (.cons (fieldReads_decimal _ _)
      (.cons (fieldReads_string _ _) .nil)))

theorem reads_jsonWindow (w : WindowInfo) : Reads (jsonWindow w) (windowValue w) :=
  reads_jsonObject (List.cons_ne_nil _ _)
    (.cons (fieldReads_string _ _) (.cons (fieldReads_decimal _ _)
      (.cons (fieldReads_string _ _) (.cons (fieldReads_bool _ _) .nil))))

theorem reads_jsonPane (withCursor : Bool) (p : PaneInfo) :
    Reads (jsonPane withCursor p) (paneValue withCursor p) := by
  refine reads_jsonObject (List.cons_ne_nil _ _) ?_
  refine .cons (fieldReads_string _ _) (.cons (fieldReads_decimal _ _)
    (.cons (fieldReads_decimal _ _) (.cons (fieldReads_decimal _ _)
    (.cons (fieldReads_decimal _ _) (.cons (fieldReads_decimal _ _)
    (.cons (fieldReads_bool _ _) ?_))))))
  cases withCursor
  · exact .cons (fieldReads_bool _ _) (.cons (fieldReads_bool _ _)
      (.cons (fieldReads_string _ _) .nil))
  · exact .cons (fieldReads_decimal _ _) (.cons (fieldReads_decimal _ _)
      (.cons (fieldReads_bool _ _) (.cons (fieldReads_bool _ _) (.cons (fieldReads_bool _ _)
      (.cons (fieldReads_string _ _) .nil)))))

theorem forall₂_map {α : Type} {f : α → Str} {g : α → JsonValue} (h : ∀ a, Reads (f a) (g a))
    (xs : List α) : List.Forall₂ Reads (xs.map f) (xs.map g) := by
  induction xs with
  | nil => exact .nil
  | cons x xs ih => exact .cons (h x) ih

/-- What the text of a double is read as. -/
def F64Text.value (timestamp : F64Text) : JsonValue :=
  if isNumberText timestamp.text then .number timestamp.text else .null

theorem F64Text.reads (timestamp : F64Text) : Reads timestamp.text timestamp.value := by
  rw [F64Text.value]
  split
  · rename_i h
    exact reads_number h
  · rename_i h
    rw [timestamp.number_or_null.resolve_left h]
    exact reads_null

/-- An envelope is read as its value. -/
theorem reads_envelope (r : CaptureResult) (frameId : ℕ) (timestamp : F64Text) :
    Reads (envelope r frameId timestamp) (envelopeValue r frameId timestamp.value) := by
  have htmux : Reads (jsonObject
        [("session".toList, jsonString r.session), ("window".toList, jsonActiveWindow r.window),
          ("windows".toList, jsonArray (r.windows.map jsonWindow)),
          ("panes".toList, jsonArray (r.panes.map (jsonPane (!r.outputOnly))))]) (.object
      [("session".toList, .string r.session), ("window".toList, activeWindowValue r.window),
        ("windows".toList, .array (r.windows.map windowValue)),
        ("panes".toList, .array (r.panes.map (paneValue (!r.outputOnly))))]) :=
    reads_jsonObject (List.cons_ne_nil _ _)
      (.cons (fieldReads_string _ _) (.cons ⟨rfl, reads_jsonActiveWindow r.window⟩
        (.cons ⟨rfl, reads_jsonArray (forall₂_map reads_jsonWindow r.windows)⟩
          (.cons ⟨rfl, reads_jsonArray (forall₂_map (reads_jsonPane (!r.outputOnly)) r.panes)⟩
            .nil))))
  have hanalysis : Reads (jsonObject
        [("visual_description".toList, jsonString (visualDescription r)),
          ("primary".toList, jsonString "tmux".toList),
          ("secondary".toList, jsonString "none".toList), ("overlap".toList, jsonBool false)])
      (.object
      [("visual_description".toList, .string (visualDescription r)),
        ("primary".toList, .string "tmux".toList), ("secondary".toList, .string "none".toList),
        ("overlap".toList, .bool false)]) :=
    reads_jsonObject (List.cons_ne_nil _ _)
      (.cons (fieldReads_string _ _) (.cons (fieldReads_string _ _)
        (.cons (fieldReads_string _ _) (.cons (fieldReads_bool _ _) .nil))))
  exact reads_jsonObject (List.cons_ne_nil _ _)
    (.cons (fieldReads_decimal _ _) (.cons ⟨rfl, timestamp.reads⟩
      (.cons ⟨rfl, reads_emptyArray⟩ (.cons ⟨rfl, hanalysis⟩
        (.cons ⟨rfl, reads_jsonObject (List.cons_ne_nil _ _) (.cons ⟨rfl, htmux⟩ .nil)⟩ .nil)))))

end SolstoneTmux
