import SolstoneTmux.Foundations.Lines
import SolstoneTmux.Foundations.Text

/-!
# Rows of text

Text that a command prints, one row a line with fields between separators.

* `rows` is `str::lines`; `rows_printed` reads printed rows back.
* `rsplitOnce` and `splitN` are the `str` methods of those names, with one rule for a text whose
  fields hold no separator.
* `parseI64` reads the integers that `intText` writes (`parseI64_intText`).
* `collectRows` reads rows one after the other, each with what was read before it in sight.
-/

namespace SolstoneTmux.Foundations

/-! ## Lines -/

/-- A line without its end, which is a line feed or a carriage return and a line feed. -/
def chomp (line : Str) : Str :=
  match stripSuffix ['\n'] line with
  | none => line
  | some line => (stripSuffix ['\r'] line).getD line

/-- `str::lines`. -/
def rows (s : Str) : List Str := (splitInclusive '\n' s).map chomp

/-- Rows as a command prints them, each with its line feed. -/
def printRows (rs : List Str) : Str := (rs.map (· ++ ['\n'])).flatten

theorem chomp_printed {row : Str} (h : row.getLast? ≠ some '\r') : chomp (row ++ ['\n']) = row := by
  rw [chomp, stripSuffix_append]
  have hnone : stripSuffix ['\r'] row = none := by
    rw [stripSuffix_eq_none]
    rintro t rfl
    exact h (by simp)
  simp only [hnone, Option.getD_none]

theorem rows_printed {rs : List Str} (h : ∀ row ∈ rs, '\n' ∉ row ∧ row.getLast? ≠ some '\r') :
    rows (printRows rs) = rs := by
  have hlines : ∀ line ∈ rs.map (· ++ ['\n']), IsLine '\n' line := by
    intro line hline
    obtain ⟨row, hrow, rfl⟩ := List.mem_map.mp hline
    exact ⟨row, rfl, (h row hrow).1⟩
  rw [rows, printRows, splitInclusive_flatten hlines, List.map_map]
  calc rs.map (chomp ∘ (· ++ ['\n'])) = rs.map id :=
        List.map_congr_left fun row hrow => chomp_printed (h row hrow).2
    _ = rs := List.map_id rs

theorem printRows_ne_nil {rs : List Str} (h : rs ≠ []) : printRows rs ≠ [] := by
  obtain ⟨row, rs, rfl⟩ := List.exists_cons_of_ne_nil h
  simp [printRows]

/-! ## Fields -/

/-- `str::rsplit_once`: the text before and after the last separator. -/
def rsplitOnce (sep : Char) (s : Str) : Option (Str × Str) :=
  (splitOnce sep s.reverse).map fun (b, a) => (a.reverse, b.reverse)

theorem rsplitOnce_append {sep : Char} {b : Str} (h : sep ∉ b) (a : Str) :
    rsplitOnce sep (a ++ sep :: b) = some (a, b) := by
  have hreverse : (a ++ sep :: b).reverse = b.reverse ++ sep :: a.reverse := by simp
  rw [rsplitOnce, hreverse, splitOnce_append (by simpa using h)]
  simp

/-- `str::splitn`. -/
def splitN : ℕ → Char → Str → List Str
  | 0, _, _ => []
  | 1, _, s => [s]
  | n + 2, sep, s =>
    match splitOnce sep s with
    | none => [s]
    | some (a, b) => a :: splitN (n + 1) sep b

theorem splitN_append {sep : Char} {a : Str} (h : sep ∉ a) (n : ℕ) (b : Str) :
    splitN (n + 2) sep (a ++ sep :: b) = a :: splitN (n + 1) sep b := by
  rw [splitN, splitOnce_append h]

/-! ## Integers -/

/-- `{}` of an integer. -/
def intText (n : ℤ) : Str := if n < 0 then '-' :: decimal n.natAbs else decimal n.natAbs

/-- The number that digits spell, if they are digits and some. -/
def parseDigits (s : Str) : Option ℕ :=
  if !s.isEmpty && s.all isDigit then some (digitsValue s) else none

/-- `str::parse::<i64>`. -/
def parseI64 (s : Str) : Option ℤ :=
  let value : Option ℤ :=
    match s with
    | '-' :: digits => (parseDigits digits).map fun (n : ℕ) => -(n : ℤ)
    | '+' :: digits => (parseDigits digits).map fun (n : ℕ) => (n : ℤ)
    | digits => (parseDigits digits).map fun (n : ℕ) => (n : ℤ)
  value.filter fun n => -(2 ^ 63) ≤ n ∧ n < 2 ^ 63

theorem decimal_ne_nil (n : ℕ) : decimal n ≠ [] := by
  intro h
  have := digitsValue_decimal n
  rw [h] at this
  have hzero : n = 0 := this.symm
  rw [hzero] at h
  exact absurd h (by decide)

theorem all_isDigit_decimal (n : ℕ) : (decimal n).all isDigit = true :=
  List.all_eq_true.mpr fun _ hc => isDigit_of_mem_decimal hc

theorem not_mem_decimal {c : Char} (h : isDigit c = false) (n : ℕ) : c ∉ decimal n := by
  intro hc
  rw [isDigit_of_mem_decimal hc] at h
  exact absurd h (by simp)

theorem parseDigits_decimal (n : ℕ) : parseDigits (decimal n) = some n := by
  have hdigits : (!(decimal n).isEmpty && (decimal n).all isDigit) = true := by
    rw [all_isDigit_decimal]
    simpa using decimal_ne_nil n
  rw [parseDigits, if_pos hdigits, digitsValue_decimal]

theorem not_mem_intText {c : Char} (h : isDigit c = false) (hsign : c ≠ '-') (n : ℤ) :
    c ∉ intText n := by
  rw [intText]
  split
  · rw [List.mem_cons, not_or]
    exact ⟨hsign, not_mem_decimal h _⟩
  · exact not_mem_decimal h _

theorem parseI64_intText {n : ℤ} (h : -(2 ^ 63) ≤ n ∧ n < 2 ^ 63) :
    parseI64 (intText n) = some n := by
  have hfilter : (some n).filter (fun n : ℤ => -(2 ^ 63) ≤ n ∧ n < 2 ^ 63) = some n := by
    simpa [Option.filter] using h
  rw [intText]
  split
  · rename_i hneg
    have hvalue : -(n.natAbs : ℤ) = n := by omega
    simp only [parseI64, parseDigits_decimal, Option.map_some, hvalue, hfilter]
  · rename_i hpos
    have hvalue : (n.natAbs : ℤ) = n := by omega
    obtain ⟨c, digits, hdecimal⟩ := List.exists_cons_of_ne_nil (decimal_ne_nil n.natAbs)
    have hc : isDigit c = true := isDigit_of_mem_decimal (n := n.natAbs) (by simp [hdecimal])
    have hsign : ∀ sign : Char, isDigit sign = false → c ≠ sign := by
      rintro _ hsign rfl
      simp [hsign] at hc
    have hparse := parseDigits_decimal n.natAbs
    rw [hdecimal] at hparse ⊢
    unfold parseI64
    split
    · exact absurd (List.cons.inj ‹_›).1 (hsign '-' rfl)
    · exact absurd (List.cons.inj ‹_›).1 (hsign '+' rfl)
    · simp only [hparse, Option.map_some, hvalue, hfilter]

/-! ## Reading rows in order -/

section Collect

variable {ρ β ε : Type}

/-- Read the rows in order; each is read with what the rows before it gave. -/
def collectRows (read : List β → ρ → Except ε β) : List ρ → List β → Except ε (List β)
  | [], found => .ok found
  | row :: rs, found =>
    match read found row with
    | .ok b => collectRows read rs (found ++ [b])
    | .error e => .error e

/-- What each row keeps of the rows so far is kept by all of them. -/
theorem collectRows_keeps {read : List β → ρ → Except ε β} {P : List β → Prop}
    (hread : ∀ found row b, P found → read found row = .ok b → P (found ++ [b])) {rs : List ρ}
    {found all : List β} (hfound : P found) (h : collectRows read rs found = .ok all) : P all := by
  induction rs generalizing found with
  | nil =>
    rw [collectRows, Except.ok.injEq] at h
    exact h ▸ hfound
  | cons row rs ih =>
    rw [collectRows] at h
    split at h
    · rename_i b hb
      exact ih (hread found row b hfound hb) h
    · simp at h

/-- Rows that are each read as expected are read as the whole list. -/
theorem collectRows_printed {γ : Type} {read : List β → ρ → Except ε β} {print : γ → ρ}
    {value : γ → β} {found : List β} {all : List γ}
    (h : ∀ before c after, all = before ++ c :: after →
      read (found ++ before.map value) (print c) = .ok (value c)) :
    collectRows read (all.map print) found = .ok (found ++ all.map value) := by
  induction all generalizing found with
  | nil => simp [collectRows]
  | cons c all ih =>
    have hc := h [] c all rfl
    rw [List.map_nil, List.append_nil] at hc
    rw [List.map_cons, collectRows, hc]
    have hrest : collectRows read (all.map print) (found ++ [value c]) =
        .ok (found ++ [value c] ++ all.map value) := ih fun before c' after hall => by
      have hnext := h (c :: before) c' after (by rw [hall]; rfl)
      simpa using hnext
    simpa using hrest

end Collect

end SolstoneTmux.Foundations
