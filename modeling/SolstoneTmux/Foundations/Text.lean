import Mathlib.Data.List.Sort
import Mathlib.Data.List.TakeDrop
import Mathlib.Tactic.IntervalCases

/-!
# Text as characters and as bytes

Rust's `str` is a sequence of Unicode scalar values stored as UTF-8. A text is modelled as its list
of characters, and the bytes are computed from it:

* `utf8 s` is the stored form of `s`; `utf8_injective` says that the bytes determine the text, and
  `mem_utf8_iff` that an ASCII byte of the stored form is an ASCII character of the text.
* `stripPrefix`, `stripSuffix`, `splitOnce` are the `str` methods of those names.
* `hexBytes` writes bytes as two lower-case hexadecimal digits each, injectively
  (`hexBytes_injective`).
* `decimal` writes a number and `padLeft` fills a text with zeros on the left, as `{:03}` does;
  `digitsValue` reads digits back.
-/

namespace SolstoneTmux.Foundations

/-- A Rust `str`: its characters in order. -/
abbrev Str := List Char

instance : LawfulBEq Str := inferInstance

/-- The contents of a file or a wire buffer. -/
abbrev Bytes := List UInt8

/-- The order of texts, character by character, which is also the order of their bytes. -/
def strLe (a b : Str) : Bool := (compare a b).isLE

/-! ## White space -/

/-- `char::is_whitespace`. -/
def isWhitespace (c : Char) : Bool :=
  (9 ≤ c.toNat && c.toNat ≤ 13) || (0x2000 ≤ c.toNat && c.toNat ≤ 0x200a) ||
    [0x20, 0x85, 0xa0, 0x1680, 0x2028, 0x2029, 0x202f, 0x205f, 0x3000].contains c.toNat

/-- `str::trim`. -/
def trim (s : Str) : Str := ((s.dropWhile isWhitespace).reverse.dropWhile isWhitespace).reverse

/-! ## UTF-8 -/

/-- The stored bytes of a text. -/
def utf8 (s : Str) : Bytes := s.flatMap String.utf8EncodeChar

@[simp] theorem utf8_nil : utf8 [] = [] := rfl

@[simp] theorem utf8_cons (c : Char) (s : Str) :
    utf8 (c :: s) = String.utf8EncodeChar c ++ utf8 s := rfl

@[simp] theorem utf8_append (s t : Str) : utf8 (s ++ t) = utf8 s ++ utf8 t :=
  List.flatMap_append

theorem utf8_injective : Function.Injective utf8 := by
  intro s t h
  have hb : s.utf8Encode = t.utf8Encode := congrArg List.toByteArray h
  have hs := List.utf8Decode?_utf8Encode (l := s)
  have ht := List.utf8Decode?_utf8Encode (l := t)
  rw [hb, ht] at hs
  simpa using hs.symm

/-- The text that bytes store, if they store one. -/
def fromUtf8 (b : Bytes) : Option Str := b.toByteArray.utf8Decode?.map Array.toList

theorem fromUtf8_utf8 (s : Str) : fromUtf8 (utf8 s) = some s := by
  have hs := List.utf8Decode?_utf8Encode (l := s)
  rw [fromUtf8]
  change (ByteArray.utf8Decode? s.utf8Encode).map Array.toList = some s
  rw [hs]
  rfl

theorem utf8_of_fromUtf8 {b : Bytes} {s : Str} (h : fromUtf8 b = some s) : utf8 s = b := by
  obtain ⟨chars, hchars, rfl⟩ := Option.map_eq_some_iff.mp h
  have hencoded : chars.toList.utf8Encode = b.toByteArray := by
    have hget := ByteArray.utf8Encode_get_utf8Decode? (b := b.toByteArray)
      (h := Option.isSome_iff_exists.mpr ⟨chars, hchars⟩)
    simpa only [hchars, Option.get_some] using hget
  exact List.toByteArray_inj.mp hencoded

theorem utf8EncodeChar_ascii {c : Char} (h : c.toNat < 128) :
    String.utf8EncodeChar c = [UInt8.ofNat c.toNat] := by
  have hle : c.val.toNat ≤ 0x7f := by simpa using Nat.le_of_lt_succ h
  simp only [String.utf8EncodeChar, if_pos hle]
  rfl

theorem toNat_ofNat_of_lt {n : ℕ} (h : n < 256) : (UInt8.ofNat n).toNat = n := by
  rw [UInt8.toNat_ofNat']
  exact Nat.mod_eq_of_lt h

theorem le_ofNat {n : ℕ} (h : 128 ≤ n) (h' : n < 256) : (128 : UInt8) ≤ UInt8.ofNat n := by
  rw [UInt8.le_iff_toNat_le, toNat_ofNat_of_lt h']
  exact h

/-- Every byte of a character outside ASCII has its high bit set. -/
theorem utf8EncodeChar_high {c : Char} (h : 128 ≤ c.toNat) :
    ∀ b ∈ String.utf8EncodeChar c, 128 ≤ b := by
  have hgt : ¬ c.val.toNat ≤ 0x7f := by
    have : 128 ≤ c.val.toNat := h
    omega
  intro b hb
  simp only [String.utf8EncodeChar, if_neg hgt] at hb
  split at hb
  · simp only [List.mem_cons, List.not_mem_nil, or_false] at hb
    rcases hb with rfl | rfl <;> exact le_ofNat (by omega) (by omega)
  · split at hb
    · simp only [List.mem_cons, List.not_mem_nil, or_false] at hb
      rcases hb with rfl | rfl | rfl <;> exact le_ofNat (by omega) (by omega)
    · simp only [List.mem_cons, List.not_mem_nil, or_false] at hb
      rcases hb with rfl | rfl | rfl | rfl <;> exact le_ofNat (by omega) (by omega)

theorem ofNat_toNat_inj {c d : Char} (hc : c.toNat < 128) (hd : d.toNat < 128)
    (h : UInt8.ofNat c.toNat = UInt8.ofNat d.toNat) : c = d := by
  have hn := congrArg UInt8.toNat h
  rw [toNat_ofNat_of_lt (by omega), toNat_ofNat_of_lt (by omega)] at hn
  exact Char.toNat_inj.mp hn

/-- A stored ASCII byte is an ASCII character of the text: no other character contains it. -/
theorem mem_utf8_iff {a : Char} (ha : a.toNat < 128) (s : Str) :
    UInt8.ofNat a.toNat ∈ utf8 s ↔ a ∈ s := by
  induction s with
  | nil => simp
  | cons c s ih =>
    rw [utf8_cons, List.mem_append, ih, List.mem_cons]
    refine or_congr ?_ Iff.rfl
    rcases Nat.lt_or_ge c.toNat 128 with hc | hc
    · rw [utf8EncodeChar_ascii hc, List.mem_singleton]
      exact ⟨ofNat_toNat_inj ha hc, fun h => by rw [h]⟩
    · constructor
      · intro hm
        have hhigh := utf8EncodeChar_high hc _ hm
        rw [UInt8.le_iff_toNat_le, toNat_ofNat_of_lt (by omega)] at hhigh
        have : (128 : UInt8).toNat = 128 := rfl
        omega
      · rintro rfl
        omega

theorem utf8_ascii {s : Str} (h : ∀ c ∈ s, c.toNat < 128) :
    utf8 s = s.map fun c => UInt8.ofNat c.toNat := by
  induction s with
  | nil => rfl
  | cons c s ih =>
    rw [utf8_cons, utf8EncodeChar_ascii (h c List.mem_cons_self),
      ih fun d hd => h d (List.mem_cons_of_mem _ hd)]
    rfl

theorem length_utf8_ascii {s : Str} (h : ∀ c ∈ s, c.toNat < 128) :
    (utf8 s).length = s.length := by
  rw [utf8_ascii h, List.length_map]

theorem length_le_length_utf8 (s : Str) : s.length ≤ (utf8 s).length := by
  induction s with
  | nil => simp
  | cons c s ih =>
    rw [utf8_cons, List.length_append, List.length_cons, String.length_utf8EncodeChar]
    have := c.utf8Size_pos
    omega

/-! ## Prefixes, suffixes and separators -/

/-- `str::strip_prefix`. -/
def stripPrefix (p s : Str) : Option Str :=
  if p.isPrefixOf s then some (s.drop p.length) else none

/-- `str::strip_suffix`. -/
def stripSuffix (p s : Str) : Option Str :=
  if p.isSuffixOf s then some (s.take (s.length - p.length)) else none

theorem stripPrefix_eq_some {p s t : Str} : stripPrefix p s = some t ↔ s = p ++ t := by
  unfold stripPrefix
  constructor
  · intro h
    split at h
    · rename_i hp
      obtain ⟨r, rfl⟩ := List.isPrefixOf_iff_prefix.mp hp
      simpa using h
    · simp at h
  · rintro rfl
    simp

@[simp] theorem stripPrefix_append (p t : Str) : stripPrefix p (p ++ t) = some t :=
  stripPrefix_eq_some.mpr rfl

theorem stripSuffix_eq_some {p s t : Str} : stripSuffix p s = some t ↔ s = t ++ p := by
  unfold stripSuffix
  constructor
  · intro h
    split at h
    · rename_i hp
      obtain ⟨r, rfl⟩ := List.isSuffixOf_iff_suffix.mp hp
      simp at h
      rw [h]
    · simp at h
  · rintro rfl
    simp

@[simp] theorem stripSuffix_append (p t : Str) : stripSuffix p (t ++ p) = some t :=
  stripSuffix_eq_some.mpr rfl

theorem stripSuffix_eq_none {p s : Str} : stripSuffix p s = none ↔ ∀ t, s ≠ t ++ p := by
  rw [Option.eq_none_iff_forall_ne_some]
  exact forall_congr' fun t => not_congr stripSuffix_eq_some

/-- `str::split_once`: the text before and after the first separator. -/
def splitOnce (sep : Char) : Str → Option (Str × Str)
  | [] => none
  | c :: s => if c = sep then some ([], s) else (splitOnce sep s).map fun (a, b) => (c :: a, b)

theorem splitOnce_append {sep : Char} {a : Str} (h : sep ∉ a) (b : Str) :
    splitOnce sep (a ++ sep :: b) = some (a, b) := by
  induction a with
  | nil => simp [splitOnce]
  | cons c a ih =>
    have hc : c ≠ sep := fun hc => h (hc ▸ List.mem_cons_self)
    simp [splitOnce, hc, ih fun hm => h (List.mem_cons_of_mem _ hm)]

theorem splitOnce_eq_none {sep : Char} {s : Str} (h : sep ∉ s) : splitOnce sep s = none := by
  induction s with
  | nil => rfl
  | cons c s ih =>
    rw [List.mem_cons, not_or] at h
    rw [splitOnce, if_neg (Ne.symm h.1), ih h.2, Option.map_none]

/-! ## Hexadecimal -/

/-- A lower-case hexadecimal digit. -/
def hexDigit (n : ℕ) : Char := Char.ofNat (if n < 10 then 48 + n else 87 + n)

/-- `{:02x}` of one byte. -/
def hexByte (b : UInt8) : Str := [hexDigit (b.toNat / 16), hexDigit (b.toNat % 16)]

/-- `{:02x}` of every byte in order. -/
def hexBytes (bs : Bytes) : Str := bs.flatMap hexByte

theorem hexDigit_injOn : ∀ m < 16, ∀ n < 16, hexDigit m = hexDigit n → m = n := by
  decide

theorem hexByte_injective : Function.Injective hexByte := by
  intro a b h
  simp only [hexByte, List.cons.injEq, and_true] at h
  have ha := a.toNat_lt
  have hb := b.toNat_lt
  have hdiv := hexDigit_injOn _ (by omega) _ (by omega) h.1
  have hmod := hexDigit_injOn _ (by omega) _ (by omega) h.2
  exact UInt8.toNat_inj.mp (by omega)

theorem hexBytes_injective : Function.Injective hexBytes := by
  intro xs
  induction xs with
  | nil =>
    intro ys h
    cases ys with
    | nil => rfl
    | cons y ys => simp [hexBytes, hexByte] at h
  | cons x xs ih =>
    intro ys h
    cases ys with
    | nil => simp [hexBytes, hexByte] at h
    | cons y ys =>
      have hsplit : hexByte x ++ hexBytes xs = hexByte y ++ hexBytes ys := h
      obtain ⟨hx, hxs⟩ := List.append_inj hsplit rfl
      rw [hexByte_injective hx, ih hxs]

/-- A digit or a letter from `a` to `f`. -/
def isHexDigit (c : Char) : Bool :=
  (48 ≤ c.toNat && c.toNat ≤ 57) || (97 ≤ c.toNat && c.toNat ≤ 102)

theorem isHexDigit_hexDigit : ∀ n < 16, isHexDigit (hexDigit n) = true := by
  decide

theorem isHexDigit_of_mem_hexBytes {bs : Bytes} {c : Char} (h : c ∈ hexBytes bs) :
    isHexDigit c = true := by
  obtain ⟨b, -, hc⟩ := List.mem_flatMap.mp h
  have hb := b.toNat_lt
  simp only [hexByte, List.mem_cons, List.not_mem_nil, or_false] at hc
  rcases hc with rfl | rfl <;> exact isHexDigit_hexDigit _ (by omega)

/-! ## Decimal numbers -/

/-- A decimal digit. -/
def isDigit (c : Char) : Bool := 48 ≤ c.toNat && c.toNat ≤ 57

/-- `{}` of a natural number. -/
def decimal (n : ℕ) : Str := Nat.toDigits 10 n

/-- `{:0width}`: zeros on the left up to the given width. -/
def padLeft (width : ℕ) (s : Str) : Str := List.replicate (width - s.length) '0' ++ s

/-- The number that decimal digits spell. -/
def digitsValue (s : Str) : ℕ := Nat.ofDigitChars 10 s 0

@[simp] theorem digitsValue_decimal (n : ℕ) : digitsValue (decimal n) = n :=
  Nat.ofDigitChars_ten_toDigits

theorem decimal_injective : Function.Injective decimal := by
  intro m n h
  rw [← digitsValue_decimal m, h, digitsValue_decimal]

theorem isDigit_of_mem_decimal {n : ℕ} {c : Char} (h : c ∈ decimal n) : isDigit c = true := by
  have hd : c.isDigit = true := Nat.isDigit_of_mem_toDigits (by omega) (by omega) h
  simp only [Char.isDigit, ge_iff_le, UInt32.le_iff_toNat_le, Bool.and_eq_true,
    decide_eq_true_eq] at hd
  simp only [isDigit, Bool.and_eq_true, decide_eq_true_eq]
  exact hd

theorem isDigit_of_mem_padLeft {w : ℕ} {s : Str} (hs : ∀ c ∈ s, isDigit c = true) {c : Char}
    (h : c ∈ padLeft w s) : isDigit c = true := by
  rcases List.mem_append.mp h with h | h
  · rw [List.eq_of_mem_replicate h]
    decide
  · exact hs c h

theorem le_length_padLeft (w : ℕ) (s : Str) : w ≤ (padLeft w s).length := by
  simp only [padLeft, List.length_append, List.length_replicate]
  omega

end SolstoneTmux.Foundations
