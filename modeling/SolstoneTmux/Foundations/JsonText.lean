import SolstoneTmux.Foundations.Text

/-!
# JSON texts

`parseDocument` reads a JSON text. Strings are decoded, surrogate pairs included; of a number the
text is kept (`JsonValue.number`), and `isNumberText` is the grammar of these.

`Reads text value` says that a value is read from the start of any continuation of the text. Its
rules (`reads_string`, `reads_number`, `reads_items`, `reads_fields`) compose texts: a parser is run
once for each kind of value, and never on a concrete document.
-/

namespace SolstoneTmux.Foundations

/-- A JSON value. -/
inductive JsonValue
  | null
  | bool (b : Bool)
  | number (text : Str)
  | string (s : Str)
  | array (items : List JsonValue)
  | object (fields : List (Str × JsonValue))

namespace JsonValue

/-- The value of a key. -/
def get (key : Str) : JsonValue → Option JsonValue
  | object fields => (fields.find? fun f => f.1 = key).map Prod.snd
  | _ => none

/-- A string. -/
def asString : JsonValue → Option Str
  | string s => some s
  | _ => none

/-- A boolean. -/
def asBool : JsonValue → Option Bool
  | bool b => some b
  | _ => none

/-- A number that is written in digits alone. -/
def asNat : JsonValue → Option ℕ
  | number text => if text.all isDigit then some (digitsValue text) else none
  | _ => none

/-- An array. -/
def asArray : JsonValue → Option (List JsonValue)
  | array items => some items
  | _ => none

end JsonValue

/-! ## Characters -/

/-- The white space of JSON. -/
def isJsonSpace (c : Char) : Bool := c = ' ' || c = '\t' || c = '\n' || c = '\r'

/-- The text after its leading white space. -/
def skipSpace (s : Str) : Str := s.dropWhile isJsonSpace

/-- The value of a hexadecimal digit. -/
def hexValue (c : Char) : Option ℕ :=
  if 48 ≤ c.toNat ∧ c.toNat ≤ 57 then some (c.toNat - 48)
  else if 97 ≤ c.toNat ∧ c.toNat ≤ 102 then some (c.toNat - 87)
  else if 65 ≤ c.toNat ∧ c.toNat ≤ 70 then some (c.toNat - 55)
  else none

/-- The UTF-16 code unit that four hexadecimal digits spell. -/
def codeUnit (a b c d : Char) : Option ℕ :=
  (hexValue a).bind fun a => (hexValue b).bind fun b => (hexValue c).bind fun c =>
    (hexValue d).map fun d => a * 4096 + b * 256 + c * 16 + d

/-- The first unit of a surrogate pair. -/
def isHighSurrogate (u : ℕ) : Bool := 0xd800 ≤ u && u < 0xdc00

/-- The second unit of a surrogate pair. -/
def isLowSurrogate (u : ℕ) : Bool := 0xdc00 ≤ u && u < 0xe000

/-- The character of a surrogate pair. -/
def surrogatePair (high low : ℕ) : Char :=
  Char.ofNat (0x10000 + (high - 0xd800) * 1024 + (low - 0xdc00))

/-- The character that is escaped by one letter. -/
def simpleEscape (c : Char) : Option Char :=
  if c = '"' then some '"'
  else if c = '\\' then some '\\'
  else if c = '/' then some '/'
  else if c = 'b' then some (Char.ofNat 8)
  else if c = 'f' then some (Char.ofNat 12)
  else if c = 'n' then some '\n'
  else if c = 'r' then some '\r'
  else if c = 't' then some '\t'
  else none

/-- One more character in front of a string that is read. -/
def consRead {α : Type} (c : α) : Option (List α × Str) → Option (List α × Str) :=
  Option.map fun (s, rest) => (c :: s, rest)

/-- The rest of a string after its opening quote, and what follows the closing one. -/
def unescape : Str → Option (Str × Str)
  | [] => none
  | '"' :: rest => some ([], rest)
  | '\\' :: 'u' :: a :: b :: c :: d :: rest =>
    match codeUnit a b c d with
    | none => none
    | some high =>
      if isLowSurrogate high then none
      else if isHighSurrogate high then
        match rest with
        | '\\' :: 'u' :: a :: b :: c :: d :: rest =>
          match codeUnit a b c d with
          | none => none
          | some low =>
            if isLowSurrogate low then consRead (surrogatePair high low) (unescape rest) else none
        | _ => none
      else consRead (Char.ofNat high) (unescape rest)
  | '\\' :: c :: rest =>
    match simpleEscape c with
    | none => none
    | some e => consRead e (unescape rest)
  | c :: rest => if c.toNat < 32 || c = '\\' then none else consRead c (unescape rest)

/-! ## Numbers -/

/-- A character of a number. -/
def isNumberChar (c : Char) : Bool :=
  isDigit c || c = '-' || c = '+' || c = '.' || c = 'e' || c = 'E'

/-- Digits, at least one. -/
def isDigits (s : Str) : Bool := !s.isEmpty && s.all isDigit

/-- An integer without its sign: no superfluous zero in front. -/
def isUnsigned (s : Str) : Bool := isDigits s && (s = ['0'] || s.head? ≠ some '0')

/-- A text without one leading character, if it has it. -/
def dropSign (signs : List Char) (s : Str) : Str :=
  match s with
  | [] => []
  | c :: rest => if signs.contains c then rest else c :: rest

/-- The grammar of numbers: an integer, a fraction and an exponent. -/
def isNumberText (s : Str) : Bool :=
  let (mantissa, exponent) := match splitOnce 'e' (s.map fun c => if c = 'E' then 'e' else c) with
    | none => (s, none)
    | some (mantissa, exponent) => (mantissa, some exponent)
  let (whole, fraction) := match splitOnce '.' mantissa with
    | none => (mantissa, none)
    | some (whole, fraction) => (whole, some fraction)
  s.all isNumberChar && isUnsigned (dropSign ['-'] whole) && fraction.all isDigits &&
    exponent.all fun exponent => isDigits (dropSign ['+', '-'] exponent)

/-- A number at the start of a text. -/
def parseNumber (s : Str) : Option (JsonValue × Str) :=
  if isNumberText (s.takeWhile isNumberChar) then
    some (.number (s.takeWhile isNumberChar), s.dropWhile isNumberChar)
  else none

/-! ## Values -/

mutual

/-- A value at the start of a text, and what follows it. -/
def parseValue : ℕ → Str → Option (JsonValue × Str)
  | 0, _ => none
  | fuel + 1, s =>
    match s with
    | '"' :: rest => (unescape rest).map fun (t, rest) => (.string t, rest)
    | '[' :: rest =>
      match skipSpace rest with
      | ']' :: rest => some (.array [], rest)
      | rest => (parseItems fuel rest).map fun (items, rest) => (.array items, rest)
    | '\x7b' :: rest =>
      match skipSpace rest with
      | '\x7d' :: rest => some (.object [], rest)
      | rest => (parseFields fuel rest).map fun (fields, rest) => (.object fields, rest)
    | 't' :: 'r' :: 'u' :: 'e' :: rest => some (.bool true, rest)
    | 'f' :: 'a' :: 'l' :: 's' :: 'e' :: rest => some (.bool false, rest)
    | 'n' :: 'u' :: 'l' :: 'l' :: rest => some (.null, rest)
    | s => parseNumber s

/-- The items of an array, at least one, and what follows the closing bracket. -/
def parseItems : ℕ → Str → Option (List JsonValue × Str)
  | 0, _ => none
  | fuel + 1, s =>
    match parseValue fuel (skipSpace s) with
    | none => none
    | some (item, rest) =>
      match skipSpace rest with
      | ',' :: rest => consRead item (parseItems fuel rest)
      | ']' :: rest => some ([item], rest)
      | _ => none

/-- The fields of an object, at least one, and what follows the closing brace. -/
def parseFields : ℕ → Str → Option (List (Str × JsonValue) × Str)
  | 0, _ => none
  | fuel + 1, s =>
    match skipSpace s with
    | '"' :: rest =>
      match unescape rest with
      | none => none
      | some (key, rest) =>
        match skipSpace rest with
        | ':' :: rest =>
          match parseValue fuel (skipSpace rest) with
          | none => none
          | some (value, rest) =>
            match skipSpace rest with
            | ',' :: rest => consRead (key, value) (parseFields fuel rest)
            | '\x7d' :: rest => some ([(key, value)], rest)
            | _ => none
        | _ => none
    | _ => none

end

/-- A whole JSON text. -/
def parseDocument (s : Str) : Option JsonValue :=
  match parseValue (s.length + 1) (skipSpace s) with
  | none => none
  | some (value, rest) => if (skipSpace rest).isEmpty then some value else none

/-! ## Reading composed texts -/

/-- A character that a value can begin with. -/
def startsValue (c : Char) : Bool := !isJsonSpace c && c ≠ ']'

/-- A text that is read as a value wherever no number goes on after it. -/
structure Reads (text : Str) (value : JsonValue) : Prop where
  start : ∃ c s, text = c :: s ∧ startsValue c = true
  parse : ∀ (fuel : ℕ) (rest : Str), text.length < fuel →
    (∀ c ∈ rest.head?, isNumberChar c = false) →
      parseValue fuel (text ++ rest) = some (value, rest)

section Reads

variable {text rest : Str} {value : JsonValue} {fuel : ℕ}

theorem skipSpace_cons_of_not_space {c : Char} (h : isJsonSpace c = false) (s : Str) :
    skipSpace (c :: s) = c :: s := by
  rw [skipSpace, List.dropWhile_cons_of_neg]
  rw [h]
  exact Bool.false_ne_true

theorem skipSpace_space (s : Str) : skipSpace (' ' :: s) = skipSpace s :=
  List.dropWhile_cons_of_pos rfl

theorem Reads.skipSpace_append (h : Reads text value) (rest : Str) :
    skipSpace (text ++ rest) = text ++ rest := by
  obtain ⟨c, s, rfl, hc⟩ := h.start
  rw [startsValue, Bool.and_eq_true, Bool.not_eq_true'] at hc
  exact skipSpace_cons_of_not_space hc.1 _

/-- A string is read from what its body decodes to. -/
theorem reads_string {body s : Str}
    (h : ∀ rest, unescape (body ++ '"' :: rest) = some (s, rest)) :
    Reads ('"' :: body ++ ['"']) (.string s) := by
  refine ⟨⟨'"', _, rfl, by decide⟩, fun fuel rest hfuel _ => ?_⟩
  obtain ⟨fuel, rfl⟩ : ∃ n, fuel = n + 1 := ⟨fuel - 1, by omega⟩
  have htext : '"' :: body ++ ['"'] ++ rest = '"' :: (body ++ '"' :: rest) := by simp
  rw [htext, parseValue, h rest]
  rfl

theorem reads_true : Reads "true".toList (.bool true) := by
  refine ⟨⟨'t', _, rfl, by decide⟩, fun fuel rest hfuel _ => ?_⟩
  obtain ⟨fuel, rfl⟩ : ∃ n, fuel = n + 1 := ⟨fuel - 1, by omega⟩
  exact parseValue.eq_def _ _

theorem reads_false : Reads "false".toList (.bool false) := by
  refine ⟨⟨'f', _, rfl, by decide⟩, fun fuel rest hfuel _ => ?_⟩
  obtain ⟨fuel, rfl⟩ : ∃ n, fuel = n + 1 := ⟨fuel - 1, by omega⟩
  exact parseValue.eq_def _ _

theorem reads_null : Reads "null".toList .null := by
  refine ⟨⟨'n', _, rfl, by decide⟩, fun fuel rest hfuel _ => ?_⟩
  obtain ⟨fuel, rfl⟩ : ∃ n, fuel = n + 1 := ⟨fuel - 1, by omega⟩
  exact parseValue.eq_def _ _

theorem all_isNumberChar (h : isNumberText text = true) : text.all isNumberChar = true := by
  simp only [isNumberText, Bool.and_eq_true] at h
  exact h.1.1.1

theorem takeWhile_append_of_all {p : Char → Bool} (h : text.all p = true)
    (hrest : ∀ c ∈ rest.head?, p c = false) :
    (text ++ rest).takeWhile p = text ∧ (text ++ rest).dropWhile p = rest := by
  rw [List.all_eq_true] at h
  rw [List.takeWhile_append_of_pos h, List.dropWhile_append_of_pos h]
  cases rest with
  | nil => simp
  | cons c rest => simp [hrest c rfl]

/-- A character of a number begins no other value. -/
theorem parseValue_of_isNumberChar {c : Char} (h : isNumberChar c = true) (fuel : ℕ) (s : Str) :
    parseValue (fuel + 1) (c :: s) = parseNumber (c :: s) := by
  unfold parseValue
  split
  all_goals first | rfl | skip
  all_goals
    rename_i heq
    injection heq with hc _
    rw [hc] at h
    exact absurd h (by decide)

/-- A number is read from its own text. -/
theorem reads_number (h : isNumberText text = true) : Reads text (.number text) := by
  have hall := all_isNumberChar h
  cases text with
  | nil => exact absurd h (by decide)
  | cons c s =>
    have hc : isNumberChar c = true := by
      rw [List.all_cons, Bool.and_eq_true] at hall
      exact hall.1
    refine ⟨⟨c, s, rfl, ?_⟩, fun fuel rest hfuel hrest => ?_⟩
    · have hne : ∀ d, isNumberChar d = false → c ≠ d := by
        rintro d hd rfl
        exact Bool.false_ne_true (hd.symm.trans hc)
      have hspace : isJsonSpace c = false := by
        rw [isJsonSpace, decide_eq_false (hne ' ' (by decide)),
          decide_eq_false (hne '\t' (by decide)), decide_eq_false (hne '\n' (by decide)),
          decide_eq_false (hne '\r' (by decide))]
        rfl
      rw [startsValue, hspace, Bool.not_false, Bool.true_and, decide_eq_true_eq]
      exact hne ']' (by decide)
    · obtain ⟨fuel, rfl⟩ : ∃ n, fuel = n + 1 := ⟨fuel - 1, by omega⟩
      obtain ⟨htake, hdrop⟩ := takeWhile_append_of_all hall hrest
      rw [List.cons_append, parseValue_of_isNumberChar hc, ← List.cons_append, parseNumber, htake,
        hdrop, if_pos h]

/-! ### Arrays and objects -/

theorem not_isNumberChar_head {c : Char} (h : isNumberChar c = false) (s : Str) :
    ∀ d ∈ (c :: s).head?, isNumberChar d = false := by
  intro d hd
  rw [List.head?_cons, Option.mem_some_iff] at hd
  rwa [← hd]

theorem parseItems_space (fuel : ℕ) (s : Str) : parseItems fuel (' ' :: s) = parseItems fuel s := by
  cases fuel with
  | zero => rfl
  | succ fuel => rw [parseItems, parseItems, skipSpace_space]

theorem parseFields_space (fuel : ℕ) (s : Str) :
    parseFields fuel (' ' :: s) = parseFields fuel s := by
  cases fuel with
  | zero => rfl
  | succ fuel => rw [parseFields, parseFields, skipSpace_space]

/-- An item with more items after it. -/
theorem Reads.parseItems_cons (h : Reads text value) (hfuel : text.length < fuel) (rest : Str) :
    parseItems (fuel + 1) (text ++ ',' :: rest) = consRead value (parseItems fuel rest) := by
  rw [parseItems, h.skipSpace_append, h.parse fuel _ hfuel (not_isNumberChar_head (by decide) _)]
  rfl

/-- The last item. -/
theorem Reads.parseItems_last (h : Reads text value) (hfuel : text.length < fuel) (rest : Str) :
    parseItems (fuel + 1) (text ++ ']' :: rest) = some ([value], rest) := by
  rw [parseItems, h.skipSpace_append, h.parse fuel _ hfuel (not_isNumberChar_head (by decide) _)]
  rfl

/-- The text of a field: its key as a string, and its value. -/
structure ReadsField (text : Str) (key : Str) (value : JsonValue) : Prop where
  split : ∃ body valueText, text = '"' :: body ++ "\": ".toList ++ valueText ∧
    (∀ rest, unescape (body ++ '"' :: rest) = some (key, rest)) ∧ Reads valueText value

theorem ReadsField.parse {key : Str} (h : ReadsField text key value) (hfuel : text.length < fuel)
    {c : Char} (hc : isNumberChar c = false) (rest : Str) :
    ∃ s, text ++ c :: rest = '"' :: s ∧ ∃ s', unescape s = some (key, ':' :: ' ' :: s') ∧
      skipSpace s' = s' ∧ parseValue fuel s' = some (value, c :: rest) := by
  obtain ⟨body, valueText, rfl, hkey, hvalue⟩ := h.split
  refine ⟨body ++ '"' :: ':' :: ' ' :: (valueText ++ c :: rest), ?_, valueText ++ c :: rest,
    hkey _, hvalue.skipSpace_append _, ?_⟩
  · simp
  · refine hvalue.parse fuel _ ?_ (not_isNumberChar_head hc _)
    refine Nat.lt_of_le_of_lt ?_ hfuel
    simp only [List.length_append]
    omega

/-- A field with more fields after it. -/
theorem ReadsField.parseFields_cons {key : Str} (h : ReadsField text key value)
    (hfuel : text.length < fuel) (rest : Str) :
    parseFields (fuel + 1) (text ++ ',' :: rest) =
      consRead (key, value) (parseFields fuel rest) := by
  obtain ⟨s, htext, s', hkey, hspace, hvalue⟩ := h.parse hfuel (c := ',') (by decide) rest
  rw [htext, parseFields, skipSpace_cons_of_not_space (by decide)]
  simp only [hkey, skipSpace_cons_of_not_space (c := ':') (by decide), skipSpace_space, hspace,
    hvalue, skipSpace_cons_of_not_space (c := ',') (by decide)]

/-- The last field. -/
theorem ReadsField.parseFields_last {key : Str} (h : ReadsField text key value)
    (hfuel : text.length < fuel) (rest : Str) :
    parseFields (fuel + 1) (text ++ '\x7d' :: rest) = some ([(key, value)], rest) := by
  obtain ⟨s, htext, s', hkey, hspace, hvalue⟩ := h.parse hfuel (c := '\x7d') (by decide) rest
  rw [htext, parseFields, skipSpace_cons_of_not_space (by decide)]
  simp only [hkey, skipSpace_cons_of_not_space (c := ':') (by decide), skipSpace_space, hspace,
    hvalue, skipSpace_cons_of_not_space (c := '\x7d') (by decide)]

theorem reads_emptyArray : Reads "[]".toList (.array []) := by
  refine ⟨⟨'[', _, rfl, by decide⟩, fun fuel rest hfuel _ => ?_⟩
  obtain ⟨fuel, rfl⟩ : ∃ n, fuel = n + 1 := ⟨fuel - 1, by omega⟩
  exact parseValue.eq_def _ _

/-- An array is read from what its items are read as. -/
theorem reads_array {items : List JsonValue} {body : Str}
    (hstart : ∃ c s, body = c :: s ∧ startsValue c = true)
    (h : ∀ (fuel : ℕ) (rest : Str), body.length + 1 < fuel →
      parseItems fuel (body ++ ']' :: rest) = some (items, rest)) :
    Reads ('[' :: body ++ [']']) (.array items) := by
  refine ⟨⟨'[', _, rfl, by decide⟩, fun fuel rest hfuel _ => ?_⟩
  obtain ⟨fuel, rfl⟩ : ∃ n, fuel = n + 1 := ⟨fuel - 1, by omega⟩
  have hitems := h fuel rest (by simp at hfuel; omega)
  obtain ⟨c, s, rfl, hc⟩ := hstart
  rw [startsValue, Bool.and_eq_true, Bool.not_eq_true', decide_eq_true_eq] at hc
  have htext : '[' :: (c :: s) ++ [']'] ++ rest = '[' :: c :: (s ++ ']' :: rest) := by simp
  rw [htext, parseValue, skipSpace_cons_of_not_space hc.1]
  split
  · rename_i heq
    exact absurd (List.cons.inj heq).1 hc.2
  · rw [← List.cons_append, hitems]
    rfl

/-- An object is read from what its fields are read as. -/
theorem reads_object {fields : List (Str × JsonValue)} {body : Str}
    (hstart : ∃ s, body = '"' :: s)
    (h : ∀ (fuel : ℕ) (rest : Str), body.length + 1 < fuel →
      parseFields fuel (body ++ '\x7d' :: rest) = some (fields, rest)) :
    Reads ('\x7b' :: body ++ ['\x7d']) (.object fields) := by
  refine ⟨⟨'\x7b', _, rfl, by decide⟩, fun fuel rest hfuel _ => ?_⟩
  obtain ⟨fuel, rfl⟩ : ∃ n, fuel = n + 1 := ⟨fuel - 1, by omega⟩
  have hfields := h fuel rest (by simp at hfuel; omega)
  obtain ⟨s, rfl⟩ := hstart
  have htext : '\x7b' :: ('"' :: s) ++ ['\x7d'] ++ rest = '\x7b' :: '"' :: (s ++ '\x7d' :: rest) := by
    simp
  rw [htext, parseValue, skipSpace_cons_of_not_space (by decide)]
  change (parseFields fuel ('"' :: s ++ '\x7d' :: rest)).map _ = _
  rw [hfields]
  rfl

/-- A text that is read as a value, with white space around it, is a document of this value. -/
theorem Reads.parseDocument_append (h : Reads text value) (hrest : (skipSpace rest).isEmpty = true)
    (hnumber : ∀ c ∈ rest.head?, isNumberChar c = false) :
    parseDocument (text ++ rest) = some value := by
  have hlength : text.length < (text ++ rest).length + 1 := by
    rw [List.length_append]
    omega
  rw [parseDocument, h.skipSpace_append, h.parse _ _ hlength hnumber]
  simp only [hrest, if_true]

end Reads

end SolstoneTmux.Foundations
