import SolstoneTmux.Foundations.Codes
import SolstoneTmux.Service.Controller

/-!
# Service definitions tell their plans apart

An install leaves the definition in place when its bytes are those of its own plan. A unit has the
executable and the `PATH` of its plan, a property list also its home and its `TMUX_TMPDIR`
(`values`); each is escaped, so that no value ends its field or begins another. A definition is made
exactly for values that are text, without control characters in a unit, and definitions with the
same bytes have the same values (`definition_eq_iff`).
-/

namespace SolstoneTmux

open Foundations

/-! ## Escaped values -/

/-- The character that a word of an escaped unit value stands for. -/
def readUnitChar : Str → Option Char
  | '\\' :: c :: _ => some c
  | c :: _ => some c
  | [] => none

theorem readable_escapeUnitChar : Readable escapeUnitChar := by
  refine ⟨readUnitChar, rfl, fun c rest => ?_⟩
  unfold escapeUnitChar
  split
  · rfl
  · rfl
  · rfl
  · rename_i hslash _ _
    rw [List.singleton_append, readUnitChar]
    exact fun _ _ h _ => hslash h

/-- A character as `xml_escape` writes it. -/
def xmlEscapeChar (c : Char) : Str :=
  if c = '&' then "&amp;".toList
  else if c = '<' then "&lt;".toList
  else if c = '>' then "&gt;".toList
  else if c = '"' then "&quot;".toList
  else if c = '\'' then "&apos;".toList
  else [c]

/-- The replacements of `xml_escape` do not meet each other. -/
theorem xmlEscape_eq (value : Str) : xmlEscape value = value.flatMap xmlEscapeChar := by
  simp only [xmlEscape, replaceChar, List.flatMap_assoc]
  congr 1
  funext c
  unfold xmlEscapeChar
  by_cases hamp : c = '&'
  · subst hamp
    decide
  by_cases hlt : c = '<'
  · subst hlt
    decide
  by_cases hgt : c = '>'
  · subst hgt
    decide
  by_cases hquot : c = '"'
  · subst hquot
    decide
  by_cases hapos : c = '\''
  · subst hapos
    decide
  simp only [if_neg hamp, if_neg hlt, if_neg hgt, if_neg hquot, if_neg hapos,
    List.flatMap_cons, List.flatMap_nil, List.append_nil]

/-- The character that a word of an escaped XML value stands for. -/
def readXmlChar : Str → Option Char
  | '&' :: 'a' :: 'm' :: _ => some '&'
  | '&' :: 'l' :: _ => some '<'
  | '&' :: 'g' :: _ => some '>'
  | '&' :: 'q' :: _ => some '"'
  | '&' :: _ => some '\''
  | c :: _ => some c
  | [] => none

theorem readable_xmlEscapeChar : Readable xmlEscapeChar := by
  refine ⟨readXmlChar, rfl, fun c rest => ?_⟩
  unfold xmlEscapeChar
  split_ifs with hamp hlt hgt hquot hapos
  · rw [hamp]
    rfl
  · rw [hlt]
    rfl
  · rw [hgt]
    rfl
  · rw [hquot]
    rfl
  · rw [hapos]
    rfl
  · rw [List.singleton_append]
    unfold readXmlChar
    split
    on_goal 6 => rename_i h; exact congrArg some (List.cons.inj h).1.symm
    on_goal 6 => rename_i h; cases h
    all_goals rename_i h; exact absurd (List.cons.inj h).1 hamp

theorem xmlEscape_injective {a b : Str} (h : xmlEscape a = xmlEscape b) : a = b := by
  rw [xmlEscape_eq, xmlEscape_eq] at h
  exact flatMap_injective readable_xmlEscapeChar h

theorem not_mem_xmlEscape (value : Str) : '>' ∉ xmlEscape value := by
  rw [xmlEscape_eq]
  intro hmem
  obtain ⟨c, -, hmem⟩ := List.mem_flatMap.mp hmem
  unfold xmlEscapeChar at hmem
  split_ifs at hmem with hamp hlt hgt hquot hapos
  on_goal 6 => exact hgt (List.mem_singleton.mp hmem).symm
  all_goals exact absurd hmem (by decide)

/-! ## Units -/

theorem not_mem_escaped {c : Char} (hc : c ≠ '\\' ∧ c ≠ '"' ∧ c ≠ '%') {value : Str}
    (h : c ∉ value) : c ∉ value.flatMap escapeUnitChar := by
  intro hmem
  obtain ⟨d, hd, hmem⟩ := List.mem_flatMap.mp hmem
  unfold escapeUnitChar at hmem
  split at hmem
  · simp [hc] at hmem
  · simp [hc] at hmem
  · simp [hc] at hmem
  · rw [List.mem_singleton] at hmem
    exact h (hmem ▸ hd)

theorem lineFeed_not_mem {value : Str} (h : value.any isControl = false) :
    '\n' ∉ value.flatMap escapeUnitChar := by
  refine not_mem_escaped (by decide) fun hmem => ?_
  have := List.any_eq_false.mp h _ hmem
  exact this (by decide)

/-- The lines of a unit whose values have no line feed are read as they are. -/
theorem rows_unitText {binary servicePath : Str} (hbinary : '\n' ∉ binary)
    (hpath : '\n' ∉ servicePath) :
    rows (unitText binary servicePath) = unitLines binary servicePath := by
  have hquoted :
      ("Environment".toList ++ '=' :: ("\"PATH=".toList ++ servicePath ++ ['"'])).getLast? =
        some '"' := by
    rw [← List.cons_append, ← List.append_assoc, List.getLast?_concat]
  have hcommand : ("ExecStart".toList ++ '=' :: ('"' :: binary ++ "\" run".toList)).getLast? =
      some 'n' := by
    rw [← List.cons_append, ← List.append_assoc, List.getLast?_append]
    simp
  refine rows_printed fun row hrow => ?_
  simp only [unitLines, markerLine, unitBody, assignment, List.mem_cons, List.not_mem_nil,
    or_false] at hrow
  rcases hrow with rfl | rfl | rfl | rfl | rfl | rfl | rfl | rfl | rfl | rfl | rfl | rfl | rfl |
    rfl | rfl
  on_goal 10 => exact ⟨by simp [hbinary], by rw [hcommand]; decide⟩
  on_goal 9 => exact ⟨by simp [hpath], by rw [hquoted]; decide⟩
  all_goals simp

/-- The lines of a unit tell its values. -/
theorem unitLines_injective {binary binary' path path' : Str}
    (h : unitLines binary path = unitLines binary' path') : binary = binary' ∧ path = path' := by
  have hcommand : assignment "ExecStart" ('"' :: binary ++ "\" run".toList) =
      assignment "ExecStart" ('"' :: binary' ++ "\" run".toList) :=
    Option.some.inj (congrArg (fun lines : List Str => lines[9]?) h)
  have henvironment : assignment "Environment" ("\"PATH=".toList ++ path ++ ['"']) =
      assignment "Environment" ("\"PATH=".toList ++ path' ++ ['"']) :=
    Option.some.inj (congrArg (fun lines : List Str => lines[8]?) h)
  unfold assignment at hcommand henvironment
  constructor
  · have hquoted := (List.cons.inj (List.append_cancel_left hcommand)).2
    exact (List.cons.inj (List.append_cancel_right hquoted)).2
  · have hquoted := (List.cons.inj (List.append_cancel_left henvironment)).2
    exact List.append_cancel_left (List.append_cancel_right hquoted)

theorem utf8Path_eq_ok {path : Bytes} {text : Str} :
    utf8Path path = .ok text ↔ fromUtf8 path = some text := by
  unfold utf8Path
  cases fromUtf8 path <;> simp

theorem escapeUnitValue_eq_ok {value escaped : Str} :
    escapeUnitValue value = .ok escaped ↔
      value.any isControl = false ∧ value.flatMap escapeUnitChar = escaped := by
  unfold escapeUnitValue
  split
  · rename_i hcontrol
    simp [hcontrol]
  · rename_i hcontrol
    simp [hcontrol]

/-- A unit is rendered from values that can be escaped. -/
theorem renderUnit_eq_ok {binary servicePath bytes : Bytes} :
    renderUnit binary servicePath = .ok bytes ↔
      ∃ b p, fromUtf8 binary = some b ∧ b.any isControl = false ∧ fromUtf8 servicePath = some p ∧
        p.any isControl = false ∧
        utf8 (unitText (b.flatMap escapeUnitChar) (p.flatMap escapeUnitChar)) = bytes := by
  constructor
  · intro h
    simp only [renderUnit, bind, Except.bind, pure, Except.pure] at h
    split at h
    · cases h
    rename_i b hb
    split at h
    · cases h
    rename_i escaped hescaped
    split at h
    · cases h
    rename_i p hp
    split at h
    · cases h
    rename_i escapedPath hescapedPath
    obtain ⟨hbinary, rfl⟩ := escapeUnitValue_eq_ok.mp hescaped
    obtain ⟨hpath, rfl⟩ := escapeUnitValue_eq_ok.mp hescapedPath
    exact ⟨b, p, utf8Path_eq_ok.mp hb, hbinary, utf8Path_eq_ok.mp hp, hpath, Except.ok.inj h⟩
  · rintro ⟨b, p, hb, hbinary, hp, hpath, rfl⟩
    simp only [renderUnit, bind, Except.bind, pure, Except.pure, utf8Path_eq_ok.mpr hb,
      utf8Path_eq_ok.mpr hp, escapeUnitValue_eq_ok.mpr ⟨hbinary, rfl⟩,
      escapeUnitValue_eq_ok.mpr ⟨hpath, rfl⟩]

/-- Units with the same bytes have the same values. -/
theorem renderUnit_injective {binary binary' path path' bytes : Bytes}
    (h : renderUnit binary path = .ok bytes) (h' : renderUnit binary' path' = .ok bytes) :
    binary = binary' ∧ path = path' := by
  obtain ⟨b, p, hb, hcontrolb, hp, hcontrolp, rfl⟩ := renderUnit_eq_ok.mp h
  obtain ⟨b', p', hb', hcontrolb', hp', hcontrolp', htext⟩ := renderUnit_eq_ok.mp h'
  have hlines := congrArg rows (utf8_injective htext)
  rw [rows_unitText (lineFeed_not_mem hcontrolb') (lineFeed_not_mem hcontrolp'),
    rows_unitText (lineFeed_not_mem hcontrolb) (lineFeed_not_mem hcontrolp)] at hlines
  obtain ⟨hbinary, hpath⟩ := unitLines_injective hlines
  have hbinary := flatMap_injective readable_escapeUnitChar hbinary
  have hpath := flatMap_injective readable_escapeUnitChar hpath
  rw [← utf8_of_fromUtf8 hb, ← utf8_of_fromUtf8 hb', ← utf8_of_fromUtf8 hp,
    ← utf8_of_fromUtf8 hp', hbinary, hpath]
  exact ⟨rfl, rfl⟩

/-! ## Property lists -/

section Fields

variable {a b u v tag dirTag closing : Str} {dir dir' : Option Str}

/-- A field that follows a tag, and has no bracket. -/
theorem field_inj (htag : tag.getLast? = some '>') (hu : '>' ∉ u) (hv : '>' ∉ v)
    (h : a ++ tag ++ u = b ++ tag ++ v) : a = b ∧ u = v := by
  have hlast : ∀ s : Str, (s ++ tag).getLast? = some '>' := fun s => by
    rw [List.getLast?_append, htag]
    rfl
  obtain ⟨hbefore, hfield⟩ := append_inj_of_last (hlast a) (hlast b) hu hv h
  exact ⟨List.append_cancel_right hbefore, hfield⟩

/-- Fields that follow different tags. -/
theorem field_ne (htag : tag.getLast? = some '>') (hdirTag : dirTag.getLast? = some '>')
    (hapart : ¬ tag <:+ dirTag ∧ ¬ dirTag <:+ tag) (hu : '>' ∉ u) (hv : '>' ∉ v) :
    a ++ dirTag ++ u ≠ b ++ tag ++ v := by
  intro h
  have hlast : ∀ s t : Str, t.getLast? = some '>' → (s ++ t).getLast? = some '>' :=
    fun s t ht => by
      rw [List.getLast?_append, ht]
      rfl
  have hbefore := (append_inj_of_last (hlast a _ hdirTag) (hlast b _ htag) hu hv h).1
  have hsuffix : tag <:+ a ++ dirTag := hbefore ▸ List.suffix_append b tag
  rcases List.suffix_or_suffix_of_suffix hsuffix (List.suffix_append a dirTag) with hin | hin
  · exact hapart.1 hin
  · exact hapart.2 hin

/-- A field and one after it that may be missing. -/
theorem fields_inj (entry : Option Str → Str)
    (hsome : ∀ text, entry (some text) = dirTag ++ text ++ closing) (hnone : entry none = [])
    (htag : tag.getLast? = some '>') (hdirTag : dirTag.getLast? = some '>')
    (hapart : ¬ tag <:+ dirTag ∧ ¬ dirTag <:+ tag) (hu : '>' ∉ u) (hv : '>' ∉ v)
    (hdir : ∀ text ∈ dir, '>' ∉ text) (hdir' : ∀ text ∈ dir', '>' ∉ text)
    (h : a ++ tag ++ u ++ closing ++ entry dir = b ++ tag ++ v ++ closing ++ entry dir') :
    a = b ∧ u = v ∧ dir = dir' := by
  have hassoc : ∀ s d : Str, s ++ (dirTag ++ d ++ closing) = s ++ dirTag ++ d ++ closing :=
    fun s d => by simp only [List.append_assoc]
  cases dir with
  | none =>
    cases dir' with
    | none =>
      rw [hnone, List.append_nil, List.append_nil] at h
      obtain ⟨hbefore, hfield⟩ := field_inj htag hu hv (List.append_cancel_right h)
      exact ⟨hbefore, hfield, rfl⟩
    | some text =>
      rw [hnone, hsome, List.append_nil, hassoc] at h
      exact absurd (List.append_cancel_right h).symm
        (field_ne htag hdirTag hapart (hdir' text rfl) hu)
  | some text =>
    cases dir' with
    | none =>
      rw [hnone, hsome, List.append_nil, hassoc] at h
      exact absurd (List.append_cancel_right h) (field_ne htag hdirTag hapart (hdir text rfl) hv)
    | some text' =>
      rw [hsome, hsome, hassoc, hassoc] at h
      obtain ⟨hbefore, htext⟩ := field_inj hdirTag (hdir text rfl) (hdir' text' rfl)
        (List.append_cancel_right h)
      obtain ⟨hbefore, hfield⟩ := field_inj htag hu hv (List.append_cancel_right hbefore)
      exact ⟨hbefore, hfield, congrArg some htext⟩

end Fields

/-- The text of a property list tells its values, if they have no bracket. -/
theorem plistText_injective {binary binary' path path' home home' : Str} {dir dir' : Option Str}
    (hbinary : '>' ∉ binary) (hbinary' : '>' ∉ binary') (hpath : '>' ∉ path) (hpath' : '>' ∉ path')
    (hhome : '>' ∉ home) (hhome' : '>' ∉ home') (hdir : ∀ text ∈ dir, '>' ∉ text)
    (hdir' : ∀ text ∈ dir', '>' ∉ text)
    (h : plistText binary path home dir = plistText binary' path' home' dir') :
    binary = binary' ∧ path = path' ∧ home = home' ∧ dir = dir' := by
  have hbody := List.append_cancel_left h
  unfold plistBody at hbody
  -- From the end: the log, then what follows the temporary directory.
  obtain ⟨hlog, rfl⟩ := field_inj (by decide) hhome hhome' (List.append_cancel_right hbody)
  have hentry := List.append_cancel_right <| List.append_cancel_right <|
    List.append_cancel_right <| List.append_cancel_right <| List.append_cancel_right <|
    List.append_cancel_right <| List.append_cancel_right <| List.append_cancel_right hlog
  obtain ⟨hvalues, rfl, rfl⟩ := fields_inj tmpdirEntry (fun _ => rfl) rfl (by decide)
    (by decide) (by decide) hpath hpath' hdir hdir' hentry
  have hcommand := List.append_cancel_right <| List.append_cancel_right <|
    List.append_cancel_right hvalues
  exact ⟨(field_inj (a := []) (b := []) (by decide) hbinary hbinary' hcommand).2, rfl, rfl, rfl⟩

theorem utf8Tmpdir_eq_ok {dir : Option Bytes} {escaped : Option Str} :
    utf8Tmpdir dir = .ok escaped ↔
      ∃ text : Option Str, text.map utf8 = dir ∧ text.map xmlEscape = escaped := by
  cases dir with
  | none =>
    constructor
    · intro h
      exact ⟨none, rfl, Except.ok.inj h⟩
    · rintro ⟨text, htext, rfl⟩
      rw [Option.map_eq_none_iff.mp htext]
      rfl
  | some dir =>
    constructor
    · intro h
      simp only [utf8Tmpdir] at h
      split at h
      · rename_i text htext
        refine ⟨some text, ?_, Except.ok.inj h⟩
        rw [Option.map_some, utf8_of_fromUtf8 (utf8Path_eq_ok.mp htext)]
      · cases h
    · rintro ⟨text, htext, rfl⟩
      obtain ⟨text, rfl, rfl⟩ := Option.map_eq_some_iff.mp htext
      rw [utf8Tmpdir, utf8Path_eq_ok.mpr (fromUtf8_utf8 text)]
      rfl

/-- A property list is rendered from values that are text. -/
theorem renderPlist_eq_ok {binary path home bytes : Bytes} {dir : Option Bytes} :
    renderPlist binary path home dir = .ok bytes ↔
      ∃ b p h d, utf8 b = binary ∧ utf8 p = path ∧ utf8 h = home ∧ Option.map utf8 d = dir ∧
        utf8 (plistText (xmlEscape b) (xmlEscape p) (xmlEscape h) (d.map xmlEscape)) = bytes := by
  constructor
  · intro h
    simp only [renderPlist, bind, Except.bind, pure, Except.pure] at h
    split at h
    · cases h
    rename_i b hb
    split at h
    · cases h
    rename_i p hp
    split at h
    · cases h
    rename_i home' hhome
    split at h
    · cases h
    rename_i d hd
    obtain ⟨text, hdir, rfl⟩ := utf8Tmpdir_eq_ok.mp hd
    exact ⟨b, p, home', text, utf8_of_fromUtf8 (utf8Path_eq_ok.mp hb),
      utf8_of_fromUtf8 (utf8Path_eq_ok.mp hp), utf8_of_fromUtf8 (utf8Path_eq_ok.mp hhome), hdir,
      Except.ok.inj h⟩
  · rintro ⟨b, p, h, d, rfl, rfl, rfl, rfl, rfl⟩
    simp only [renderPlist, bind, Except.bind, pure, Except.pure,
      utf8Path_eq_ok.mpr (fromUtf8_utf8 _), utf8Tmpdir_eq_ok.mpr ⟨d, rfl, rfl⟩]

/-- Property lists with the same bytes have the same values. -/
theorem renderPlist_injective {binary binary' path path' home home' bytes : Bytes}
    {dir dir' : Option Bytes} (h : renderPlist binary path home dir = .ok bytes)
    (h' : renderPlist binary' path' home' dir' = .ok bytes) :
    binary = binary' ∧ path = path' ∧ home = home' ∧ dir = dir' := by
  obtain ⟨b, p, u, d, rfl, rfl, rfl, rfl, rfl⟩ := renderPlist_eq_ok.mp h
  obtain ⟨b', p', u', d', rfl, rfl, rfl, rfl, htext⟩ := renderPlist_eq_ok.mp h'
  have henclosed : ∀ d : Option Str, ∀ text ∈ d.map xmlEscape, '>' ∉ text := by
    intro d text hmem
    obtain ⟨value, -, rfl⟩ := Option.map_eq_some_iff.mp hmem
    exact not_mem_xmlEscape value
  obtain ⟨hb, hp, hu, hd⟩ := plistText_injective (not_mem_xmlEscape b') (not_mem_xmlEscape b)
    (not_mem_xmlEscape p') (not_mem_xmlEscape p) (not_mem_xmlEscape u') (not_mem_xmlEscape u)
    (henclosed d') (henclosed d) (utf8_injective htext)
  rw [xmlEscape_injective hb, xmlEscape_injective hp, xmlEscape_injective hu,
    Option.map_injective (fun _ _ => xmlEscape_injective) hd]
  exact ⟨rfl, rfl, rfl, rfl⟩

/-! ## Plans -/

namespace ServiceController

/-- The values of a plan that its definition has. -/
def Plan.values (plan : Plan) : PlatformKind → Bytes × Bytes × Option (Bytes × Option Bytes)
  | .linux => (plan.binary, plan.servicePath, none)
  | .macos => (plan.binary, plan.servicePath, some (plan.home, plan.tmuxTmpdir))

/-- The values of a plan can be written: they are text, without control characters in a unit. -/
def Plan.Writable (plan : Plan) : PlatformKind → Prop
  | .linux => (∃ text, utf8 text = plan.binary ∧ text.any isControl = false) ∧
      ∃ text, utf8 text = plan.servicePath ∧ text.any isControl = false
  | .macos => (∃ text, utf8 text = plan.binary) ∧ (∃ text, utf8 text = plan.servicePath) ∧
      (∃ text, utf8 text = plan.home) ∧ ∀ dir ∈ plan.tmuxTmpdir, ∃ text, utf8 text = dir

theorem definition_ok_iff (c : ServiceController) (plan : Plan) :
    (∃ bytes, c.definition plan = .ok bytes) ↔ plan.Writable c.platform := by
  unfold definition
  cases c.platform with
  | linux =>
    simp only [renderUnit_eq_ok, Plan.Writable]
    constructor
    · rintro ⟨_, b, p, hb, hcontrolb, hp, hcontrolp, -⟩
      exact ⟨⟨b, utf8_of_fromUtf8 hb, hcontrolb⟩, p, utf8_of_fromUtf8 hp, hcontrolp⟩
    · rintro ⟨⟨b, hb, hcontrolb⟩, p, hp, hcontrolp⟩
      exact ⟨_, b, p, hb ▸ fromUtf8_utf8 b, hcontrolb, hp ▸ fromUtf8_utf8 p, hcontrolp, rfl⟩
  | macos =>
    simp only [renderPlist_eq_ok, Plan.Writable]
    constructor
    · rintro ⟨_, b, p, h, d, hb, hp, hh, hd, -⟩
      refine ⟨⟨b, hb⟩, ⟨p, hp⟩, ⟨h, hh⟩, fun dir hdir => ?_⟩
      rw [← hd] at hdir
      obtain ⟨text, -, rfl⟩ := Option.map_eq_some_iff.mp hdir
      exact ⟨text, rfl⟩
    · rintro ⟨⟨b, hb⟩, ⟨p, hp⟩, ⟨h, hh⟩, hd⟩
      cases hdir : plan.tmuxTmpdir with
      | none => exact ⟨_, b, p, h, none, hb, hp, hh, rfl, rfl⟩
      | some dir =>
        obtain ⟨text, rfl⟩ := hd dir hdir
        exact ⟨_, b, p, h, some text, hb, hp, hh, rfl, rfl⟩

/-- **Definitions tell their plans apart.** Two plans have the same definition exactly when their
values can be written and are the same. -/
theorem definition_eq_iff (c : ServiceController) (plan plan' : Plan) :
    (∃ bytes, c.definition plan = .ok bytes ∧ c.definition plan' = .ok bytes) ↔
      plan.Writable c.platform ∧ plan.values c.platform = plan'.values c.platform := by
  constructor
  · rintro ⟨bytes, h, h'⟩
    refine ⟨(definition_ok_iff c plan).mp ⟨bytes, h⟩, ?_⟩
    unfold definition at h h'
    cases hplatform : c.platform with
    | linux =>
      rw [hplatform] at h h'
      obtain ⟨hbinary, hpath⟩ := renderUnit_injective h h'
      rw [Plan.values, Plan.values, hbinary, hpath]
    | macos =>
      rw [hplatform] at h h'
      obtain ⟨hbinary, hpath, hhome, hdir⟩ := renderPlist_injective h h'
      rw [Plan.values, Plan.values, hbinary, hpath, hhome, hdir]
  · rintro ⟨hwritable, hvalues⟩
    obtain ⟨bytes, hbytes⟩ := (definition_ok_iff c plan).mpr hwritable
    refine ⟨bytes, hbytes, ?_⟩
    unfold definition at hbytes ⊢
    cases hplatform : c.platform with
    | linux =>
      rw [hplatform] at hbytes hvalues
      obtain ⟨hbinary, hpath⟩ := Prod.mk.inj hvalues
      rw [← hbinary, ← (Prod.mk.inj hpath).1]
      exact hbytes
    | macos =>
      rw [hplatform] at hbytes hvalues
      obtain ⟨hbinary, hrest⟩ := Prod.mk.inj hvalues
      obtain ⟨hpath, hrest⟩ := Prod.mk.inj hrest
      obtain ⟨hhome, hdir⟩ := Prod.mk.inj (Option.some.inj hrest)
      rw [← hbinary, ← hpath, ← hhome, ← hdir]
      exact hbytes

end ServiceController

end SolstoneTmux
