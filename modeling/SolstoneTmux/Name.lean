import SolstoneTmux.Foundations.Text

/-!
# Names derived from session and stream identities

`name.rs` turns an identity chosen by somebody else (a tmux session name, a host name) into one
path component. A lower-case portable name is kept as it is; any other name has its foreign
characters replaced and its bytes appended in hexadecimal after a `~`, so that distinct identities
keep distinct components (`deriveComponent_injective`).

The uploader accepts a component only when deriving it again gives the same text
(`exactComponent`). `exactComponent_isSome_iff` computes which texts these are: the canonical ones
within the length limit, so never one that was escaped.
-/

namespace SolstoneTmux

open Foundations

/-- `MAX_COMPONENT_BYTES`. -/
def maxComponentBytes : ℕ := 200

/-! ## Character classes -/

/-- `u8::is_ascii_lowercase` or `u8::is_ascii_digit`. -/
def isLeadByte (b : UInt8) : Bool := (97 ≤ b && b ≤ 122) || (48 ≤ b && b ≤ 57)

/-- A byte that may follow the first one of a canonical identity: also `.`, `_` and `-`. -/
def isRestByte (b : UInt8) : Bool := isLeadByte b || b == 46 || b == 95 || b == 45

/-- `char::is_ascii_alphanumeric`. -/
def isAsciiAlphanumeric (c : Char) : Bool :=
  (48 ≤ c.toNat && c.toNat ≤ 57) || (65 ≤ c.toNat && c.toNat ≤ 90) ||
    (97 ≤ c.toNat && c.toNat ≤ 122)

/-- A character that a component keeps. -/
def isKept (c : Char) : Bool := isAsciiAlphanumeric c || c == '.' || c == '_' || c == '-'

/-- A character that can appear in a component. -/
def isNameChar (c : Char) : Bool := isKept c || c == '~'

theorem isNameChar_ascii {c : Char} (h : isNameChar c = true) : c.toNat < 128 := by
  simp only [isNameChar, isKept, isAsciiAlphanumeric, Bool.or_eq_true, Bool.and_eq_true,
    decide_eq_true_eq, beq_iff_eq] at h
  rcases h with ((((((h | h) | h) | rfl) | rfl) | rfl) | rfl)
  all_goals first | omega | decide

/-! ## Deriving a component -/

/-- One path component derived from an identity. It is never empty, fits the limit and holds only
name characters; in particular it has no separator, so it stays inside the directory it is joined
to. -/
structure DerivedName where
  asStr : Str
  nonempty : asStr ≠ []
  bounded : (utf8 asStr).length ≤ maxComponentBytes
  nameChars : ∀ c ∈ asStr, isNameChar c = true
  deriving DecidableEq

/-- `NameError`. -/
inductive NameError
  | empty
  | containsNul
  | absolute
  | traversal
  | tooLong (actual limit : ℕ)
  | escapesParent
  deriving DecidableEq, Repr

/-- The identity is already a portable lower-case name. The test reads bytes. -/
def canonical (raw : Str) : Bool :=
  match utf8 raw with
  | [] => true
  | b :: bs => isLeadByte b && bs.all isRestByte

/-- Every character outside the kept ones replaced by `_`. -/
def sanitize (raw : Str) : Str := raw.map fun c => if isKept c then c else '_'

/-- The component before its length is checked. -/
def component (raw : Str) : Str :=
  if canonical raw then sanitize raw else sanitize raw ++ '~' :: hexBytes (utf8 raw)

theorem nameChar_of_mem_sanitize {raw : Str} {c : Char} (h : c ∈ sanitize raw) :
    isKept c = true := by
  obtain ⟨d, -, rfl⟩ := List.mem_map.mp h
  split
  · assumption
  · decide

theorem isKept_of_isHexDigit {c : Char} (h : isHexDigit c = true) : isKept c = true := by
  simp only [isHexDigit, Bool.or_eq_true, Bool.and_eq_true, decide_eq_true_eq] at h
  simp only [isKept, isAsciiAlphanumeric, Bool.or_eq_true, Bool.and_eq_true, decide_eq_true_eq]
  omega

theorem isNameChar_of_mem_component {raw : Str} {c : Char} (h : c ∈ component raw) :
    isNameChar c = true := by
  unfold component at h
  split at h
  · simp [isNameChar, nameChar_of_mem_sanitize h]
  · simp only [List.mem_append, List.mem_cons] at h
    rcases h with h | rfl | h
    · simp [isNameChar, nameChar_of_mem_sanitize h]
    · decide
    · simp [isNameChar, isKept_of_isHexDigit (isHexDigit_of_mem_hexBytes h)]

theorem component_ne_nil {raw : Str} (h : raw ≠ []) : component raw ≠ [] := by
  unfold component
  split
  · simpa [sanitize] using h
  · simp

/-- `derive_component`. On this platform a path's components beyond its `/`-separated parts are
only the root, which makes it absolute, so the two traversal tests are one test on the parts. -/
def deriveComponent (raw : Str) : Except NameError DerivedName :=
  if hne : raw = [] then .error .empty
  else if Char.ofNat 0 ∈ raw then .error .containsNul
  else if raw.head? = some '/' then .error .absolute
  else if (raw.splitOn '/').any fun part => part = ".".toList || part = "..".toList then
    .error .traversal
  else if hlen : (utf8 (component raw)).length > maxComponentBytes then
    .error (.tooLong (utf8 (component raw)).length maxComponentBytes)
  else
    .ok ⟨component raw, component_ne_nil hne, Nat.le_of_not_lt hlen,
      fun _ => isNameChar_of_mem_component⟩

theorem deriveComponent_ok {raw : Str} {n : DerivedName} (h : deriveComponent raw = .ok n) :
    raw ≠ [] ∧ n.asStr = component raw := by
  unfold deriveComponent at h
  split at h
  · cases h
  · rename_i hne
    refine ⟨hne, ?_⟩
    split at h
    · cases h
    · split at h
      · cases h
      · split at h
        · cases h
        · split at h
          · cases h
          · cases h
            rfl

/-! ## Canonical identities -/

/-- A character whose stored byte may lead a canonical identity. -/
def isLead (c : Char) : Bool :=
  (97 ≤ c.toNat && c.toNat ≤ 122) || (48 ≤ c.toNat && c.toNat ≤ 57)

/-- A character whose stored byte may follow in a canonical identity. -/
def isRest (c : Char) : Bool := isLead c || c == '.' || c == '_' || c == '-'

theorem isRest_of_isLead {c : Char} (h : isLead c = true) : isRest c = true := by
  simp [isRest, h]

theorem isAsciiAlphanumeric_of_isLead {c : Char} (h : isLead c = true) :
    isAsciiAlphanumeric c = true := by
  simp only [isLead, isAsciiAlphanumeric, Bool.or_eq_true, Bool.and_eq_true,
    decide_eq_true_eq] at h ⊢
  omega

theorem isKept_of_isRest {c : Char} (h : isRest c = true) : isKept c = true := by
  simp only [isRest, isKept, Bool.or_eq_true] at h ⊢
  rcases h with ((h | h) | h) | h
  · exact .inl (.inl (.inl (isAsciiAlphanumeric_of_isLead h)))
  · exact .inl (.inl (.inr h))
  · exact .inl (.inr h)
  · exact .inr h

theorem isRest_ascii {c : Char} (h : isRest c = true) : c.toNat < 128 :=
  isNameChar_ascii (by simp [isNameChar, isKept_of_isRest h])

theorem isLeadByte_ofNat {c : Char} (h : c.toNat < 128) :
    isLeadByte (UInt8.ofNat c.toNat) = isLead c := by
  simp only [isLeadByte, isLead, UInt8.le_iff_toNat_le,
    toNat_ofNat_of_lt (n := c.toNat) (by omega)]
  rfl

theorem ofNat_beq {c d : Char} (h : c.toNat < 128) (hd : d.toNat < 128) :
    (UInt8.ofNat c.toNat == UInt8.ofNat d.toNat) = (c == d) := by
  rw [Bool.eq_iff_iff, beq_iff_eq, beq_iff_eq]
  exact ⟨ofNat_toNat_inj h hd, fun h => by rw [h]⟩

theorem isRestByte_ofNat {c : Char} (h : c.toNat < 128) :
    isRestByte (UInt8.ofNat c.toNat) = isRest c := by
  simp only [isRestByte, isRest, isLeadByte_ofNat h]
  rw [← ofNat_beq (d := '.') h (by decide), ← ofNat_beq (d := '_') h (by decide),
    ← ofNat_beq (d := '-') h (by decide)]
  rfl

theorem isRestByte_lt {b : UInt8} (h : isRestByte b = true) : b < 128 := by
  simp only [isRestByte, isLeadByte, Bool.or_eq_true, Bool.and_eq_true, decide_eq_true_eq,
    beq_iff_eq, UInt8.le_iff_toNat_le, UInt8.lt_iff_toNat_lt, ← UInt8.toNat_inj,
    UInt8.reduceToNat] at h ⊢
  omega

theorem all_utf8EncodeChar (c : Char) : (String.utf8EncodeChar c).all isRestByte = isRest c := by
  rcases Nat.lt_or_ge c.toNat 128 with hc | hc
  · rw [utf8EncodeChar_ascii hc]
    simp [isRestByte_ofNat hc]
  · have hf : isRest c = false := by
      by_contra hr
      have := isRest_ascii (Bool.eq_true_of_not_eq_false hr)
      omega
    rw [hf, Bool.eq_false_iff]
    intro hall
    obtain ⟨b, hb⟩ := List.exists_mem_of_ne_nil _ String.utf8EncodeChar_ne_nil
    have hlt := isRestByte_lt (List.all_eq_true.mp hall b hb)
    have hge := utf8EncodeChar_high hc b hb
    rw [UInt8.lt_iff_toNat_lt] at hlt
    rw [UInt8.le_iff_toNat_le] at hge
    omega

theorem all_utf8 (s : Str) : (utf8 s).all isRestByte = s.all isRest := by
  induction s with
  | nil => rfl
  | cons c s ih => rw [utf8_cons, List.all_append, ih, all_utf8EncodeChar, List.all_cons]

/-- The test on bytes is a test on characters: a lead character followed by portable ones. -/
theorem canonical_cons (c : Char) (s : Str) : canonical (c :: s) = (isLead c && s.all isRest) := by
  rcases Nat.lt_or_ge c.toNat 128 with hc | hc
  · simp only [canonical, utf8_cons, utf8EncodeChar_ascii hc, List.singleton_append,
      isLeadByte_ofNat hc, all_utf8]
  · have hf : isLead c = false := by
      by_contra hl
      have := isRest_ascii (isRest_of_isLead (Bool.eq_true_of_not_eq_false hl))
      omega
    rw [hf, Bool.false_and]
    cases henc : String.utf8EncodeChar c with
    | nil => exact absurd henc String.utf8EncodeChar_ne_nil
    | cons b bs =>
      have hge := utf8EncodeChar_high hc b (henc ▸ List.mem_cons_self)
      have hb : isLeadByte b = false := by
        by_contra hl
        have hlt : b < 128 :=
          isRestByte_lt (by simp [isRestByte, Bool.eq_true_of_not_eq_false hl])
        rw [UInt8.lt_iff_toNat_lt] at hlt
        rw [UInt8.le_iff_toNat_le] at hge
        omega
      simp [canonical, henc, hb]

theorem all_isRest_of_canonical {s : Str} (h : canonical s = true) : s.all isRest = true := by
  cases s with
  | nil => rfl
  | cons c s =>
    rw [canonical_cons, Bool.and_eq_true] at h
    rw [List.all_cons, isRest_of_isLead h.1, h.2, Bool.and_self]

theorem canonical_append {s t : Str} (hs : s ≠ []) :
    canonical (s ++ t) = (canonical s && t.all isRest) := by
  cases s with
  | nil => exact absurd rfl hs
  | cons c s => rw [List.cons_append, canonical_cons, canonical_cons, List.all_append, Bool.and_assoc]

theorem sanitize_of_all_isRest {s : Str} (h : s.all isRest = true) : sanitize s = s := by
  conv_rhs => rw [← List.map_id s]
  refine List.map_congr_left fun c hc => ?_
  rw [if_pos (isKept_of_isRest (List.all_eq_true.mp h c hc)), id]

theorem component_of_canonical {s : Str} (h : canonical s = true) : component s = s := by
  rw [component, if_pos h, sanitize_of_all_isRest (all_isRest_of_canonical h)]

theorem length_component_of_not_canonical {s : Str} (h : canonical s = false) :
    s.length < (component s).length := by
  rw [component, if_neg (by simp [h])]
  simp only [sanitize, List.length_append, List.length_map, List.length_cons]
  omega

/-! ## Which components are exact -/

/-- `exact_component`: the component derived from a text, when it is the text itself. -/
def exactComponent (value : Str) : Option DerivedName :=
  match deriveComponent value with
  | .ok n => if n.asStr = value then some n else none
  | .error _ => none

theorem not_mem_of_all_isRest {s : Str} (h : s.all isRest = true) {c : Char}
    (hc : isRest c = false) : c ∉ s := by
  intro hm
  have := List.all_eq_true.mp h c hm
  rw [hc] at this
  cases this

theorem splitOn_of_not_mem {s : Str} (h : '/' ∉ s) : s.splitOn '/' = [s] :=
  List.splitOnP_eq_singleton fun _ hc => beq_eq_false_iff_ne.mpr fun hcs => h (hcs ▸ hc)

theorem deriveComponent_of_canonical {s : Str} (hne : s ≠ []) (h : canonical s = true)
    (hlen : s.length ≤ maxComponentBytes) :
    ∃ n, deriveComponent s = .ok n ∧ n.asStr = s := by
  have hrest := all_isRest_of_canonical h
  have hslash : '/' ∉ s := not_mem_of_all_isRest hrest (by decide)
  have hnul : Char.ofNat 0 ∉ s := not_mem_of_all_isRest hrest (by decide)
  have hhead : s.head? ≠ some '/' := fun hh => hslash (List.mem_of_head? hh)
  have hlead : ∀ t : Str, t.head? = some '.' → s ≠ t := by
    rintro t ht rfl
    cases s with
    | nil => exact hne rfl
    | cons c s =>
      rw [canonical_cons, Bool.and_eq_true] at h
      simp only [List.head?_cons, Option.some.injEq] at ht
      rw [ht] at h
      exact absurd h.1 (by decide)
  have hparts : ¬ ((s.splitOn '/').any fun part =>
      part = ".".toList || part = "..".toList) = true := by
    rw [splitOn_of_not_mem hslash, List.any_cons, List.any_nil, Bool.or_false, Bool.or_eq_true,
      decide_eq_true_eq, decide_eq_true_eq, not_or]
    exact ⟨hlead _ rfl, hlead _ rfl⟩
  have hcomp : component s = s := component_of_canonical h
  have hascii : (utf8 s).length = s.length :=
    length_utf8_ascii fun c hc => isRest_ascii (List.all_eq_true.mp hrest c hc)
  have hfits : ¬ (utf8 (component s)).length > maxComponentBytes := by
    rw [hcomp, hascii]
    omega
  unfold deriveComponent
  rw [dif_neg hne, if_neg hnul, if_neg hhead, if_neg hparts, dif_neg hfits]
  exact ⟨_, rfl, hcomp⟩

theorem exactComponent_eq_some {value : Str} {n : DerivedName}
    (h : exactComponent value = some n) :
    deriveComponent value = .ok n ∧ n.asStr = value := by
  unfold exactComponent at h
  split at h
  · rename_i m hm
    split at h
    · rename_i hv
      cases h
      exact ⟨hm, hv⟩
    · cases h
  · cases h

/-- A text is an exact component precisely when it is a canonical identity within the limit. -/
theorem exactComponent_isSome_iff (value : Str) :
    (exactComponent value).isSome ↔
      value ≠ [] ∧ canonical value = true ∧ value.length ≤ maxComponentBytes := by
  constructor
  · intro h
    obtain ⟨n, hn⟩ := Option.isSome_iff_exists.mp h
    obtain ⟨hd, hv⟩ := exactComponent_eq_some hn
    obtain ⟨hne, hc⟩ := deriveComponent_ok hd
    have hfix : component value = value := hc ▸ hv
    refine ⟨hne, ?_, ?_⟩
    · by_contra hcan
      have := length_component_of_not_canonical (Bool.eq_false_iff.mpr hcan)
      rw [hfix] at this
      omega
    · have hb := n.bounded
      rw [hv] at hb
      exact (length_le_length_utf8 value).trans hb
  · rintro ⟨hne, hcan, hlen⟩
    obtain ⟨n, hn, hv⟩ := deriveComponent_of_canonical hne hcan hlen
    simp [exactComponent, hn, hv]

/-! ## Distinct identities have distinct components -/

theorem tilde_not_mem_sanitize (s : Str) : '~' ∉ sanitize s := by
  intro h
  exact absurd (nameChar_of_mem_sanitize h) (by decide)

theorem component_injective : Function.Injective component := by
  intro s t h
  unfold component at h
  split at h <;> split at h
  · rename_i hs ht
    rwa [sanitize_of_all_isRest (all_isRest_of_canonical hs),
      sanitize_of_all_isRest (all_isRest_of_canonical ht)] at h
  · exact absurd (h ▸ by simp) (tilde_not_mem_sanitize s)
  · exact absurd (h ▸ by simp) (tilde_not_mem_sanitize t)
  · have hsplit := congrArg (splitOnce '~') h
    rw [splitOnce_append (tilde_not_mem_sanitize s), splitOnce_append (tilde_not_mem_sanitize t)]
      at hsplit
    have hhex := (Prod.mk.inj (Option.some.inj hsplit)).2
    exact utf8_injective (hexBytes_injective hhex)

theorem deriveComponent_injective {s t : Str} {m n : DerivedName}
    (hs : deriveComponent s = .ok m) (ht : deriveComponent t = .ok n) (h : m.asStr = n.asStr) :
    s = t := by
  rw [(deriveComponent_ok hs).2, (deriveComponent_ok ht).2] at h
  exact component_injective h

/-! ## File names inside a segment -/

/-- `DerivedName::session_filename`. -/
def DerivedName.sessionFilename (n : DerivedName) : Str :=
  "tmux_".toList ++ n.asStr ++ "_screen.jsonl".toList

/-- The name of a segment's activity file, as the writer forms it. -/
def activityFilename (stem : Str) : Str := stem ++ "_desktop_activity.jsonl".toList

/-- The activity file is not a session's: its name ends differently. -/
theorem activityFilename_ne_sessionFilename (stem : Str) (n : DerivedName) :
    activityFilename stem ≠ n.sessionFilename := by
  intro h
  have hends : (stem ++ "_desktop_activit".toList) ++ "y.jsonl".toList =
      ("tmux_".toList ++ n.asStr ++ "_scree".toList) ++ "n.jsonl".toList := by
    rw [List.append_assoc, List.append_assoc]
    exact h
  exact absurd (List.append_inj_right' hends rfl) (by decide)

/-- `valid_activity_filename`: the plain activity file, or one that carries a writer's id. -/
def validActivityFilename (name stem : Str) : Bool :=
  if name = activityFilename stem then (exactComponent name).isSome
  else
    match (stripPrefix (stem ++ ['_']) name).bind (stripSuffix "_desktop_activity.jsonl".toList) with
    | none => false
    | some id => !id.isEmpty && (exactComponent name).isSome

theorem DerivedName.sessionFilename_injective {m n : DerivedName}
    (h : m.sessionFilename = n.sessionFilename) : m.asStr = n.asStr := by
  unfold DerivedName.sessionFilename at h
  exact List.append_cancel_left (List.append_cancel_right h)

end SolstoneTmux
