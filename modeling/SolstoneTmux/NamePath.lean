import SolstoneTmux.Name

/-!
# Components as directory entries

A derived component names a direct child of any directory (`joinChecked_ok`), and two identities
whose components agree up to the case of ASCII letters are the same (`component_fold_injective`), so
their files differ on a volume that ignores case too. `deriveComponent_safe` collects what a derived
component is good for.

A path is its bytes. `pathComponents` reads it the way `Path` compares paths: parts that are empty
or a single dot do not count, except for a dot at the beginning.
-/

namespace SolstoneTmux

open Foundations

/-! ## Paths -/

/-- `Component`, as far as this platform has them. -/
inductive PathComponent
  | rootDir
  | curDir
  | parentDir
  | normal (name : Bytes)
  deriving DecidableEq

/-- The byte of a path separator. -/
def slash : UInt8 := 47

/-- What one part of a path counts as. -/
def partComponent (part : Bytes) : Option PathComponent :=
  if part = [] || part = [46] then none
  else if part = [46, 46] then some .parentDir
  else some (.normal part)

/-- The component in front of the parts. -/
def firstComponent (path : Bytes) : List PathComponent :=
  if path.head? = some slash then [.rootDir]
  else if (path.splitOn slash).head? = some [46] then [.curDir]
  else []

/-- `Path::components`. -/
def pathComponents (path : Bytes) : List PathComponent :=
  firstComponent path ++ (path.splitOn slash).filterMap partComponent

/-- `Path::join`. -/
def joinPath (parent child : Bytes) : Bytes :=
  if child.head? = some slash then child
  else if parent = [] || parent.getLast? = some slash then parent ++ child
  else parent ++ slash :: child

/-- `Path::parent`, up to the equality of paths. -/
def parentComponents (path : Bytes) : Option (List PathComponent) :=
  match (pathComponents path).getLast? with
  | none | some .rootDir => none
  | some _ => some (pathComponents path).dropLast

/-- `DerivedName::join_checked`. -/
def DerivedName.joinChecked (n : DerivedName) (parent : Bytes) : Except NameError Bytes :=
  let child := joinPath parent (utf8 n.asStr)
  if parentComponents child ≠ some (pathComponents parent) then .error .escapesParent
  else .ok child

/-- The bytes of one path component that is neither a dot nor two dots. -/
structure IsEntryName (name : Bytes) : Prop where
  noSlash : slash ∉ name
  counts : partComponent name = some (.normal name)

theorem IsEntryName.ne_nil {name : Bytes} (h : IsEntryName name) : name ≠ [] := by
  rintro rfl
  cases h.counts

theorem IsEntryName.ne_dot {name : Bytes} (h : IsEntryName name) : name ≠ [46] := by
  rintro rfl
  cases h.counts

theorem IsEntryName.head?_ne {name : Bytes} (h : IsEntryName name) : name.head? ≠ some slash :=
  fun hhead => h.noSlash (List.mem_of_head? hhead)

/-- A separator and a name add one component. -/
theorem pathComponents_append {parent name : Bytes} (hparent : parent ≠ []) (h : IsEntryName name) :
    pathComponents (parent ++ slash :: name) = pathComponents parent ++ [.normal name] := by
  have hsplit : (parent ++ slash :: name).splitOn slash = parent.splitOn slash ++ [name] := by
    rw [List.splitOn_append_cons_self, List.splitOn_eq_singleton h.noSlash]
  obtain ⟨part, parts, hparts⟩ :=
    List.exists_cons_of_ne_nil (List.splitOn_ne_nil slash parent)
  have hfirst : firstComponent (parent ++ slash :: name) = firstComponent parent := by
    unfold firstComponent
    rw [List.head?_append_of_ne_nil _ hparent, hsplit, hparts]
    rfl
  rw [pathComponents, pathComponents, hfirst, hsplit, List.filterMap_append, List.append_assoc]
  simp [h.counts]

/-- A path that ends in a separator has the components of the path before it. -/
theorem pathComponents_append_slash {parent : Bytes} (hparent : parent ≠ []) :
    pathComponents (parent ++ [slash]) = pathComponents parent := by
  have hsplit : (parent ++ [slash]).splitOn slash = parent.splitOn slash ++ [[]] := by
    rw [List.splitOn_append_cons_self, List.splitOn_nil]
  obtain ⟨part, parts, hparts⟩ :=
    List.exists_cons_of_ne_nil (List.splitOn_ne_nil slash parent)
  have hfirst : firstComponent (parent ++ [slash]) = firstComponent parent := by
    unfold firstComponent
    rw [List.head?_append_of_ne_nil _ hparent, hsplit, hparts]
    rfl
  rw [pathComponents, pathComponents, hfirst, hsplit, List.filterMap_append]
  simp [partComponent]

theorem pathComponents_name {name : Bytes} (h : IsEntryName name) :
    pathComponents name = [.normal name] := by
  have hne : (some name : Option Bytes) ≠ some [46] := fun heq => h.ne_dot (Option.some.inj heq)
  rw [pathComponents, firstComponent, List.splitOn_eq_singleton h.noSlash, if_neg h.head?_ne,
    List.head?_cons, if_neg hne, List.filterMap_cons_some h.counts]
  rfl

theorem pathComponents_root_name {name : Bytes} (h : IsEntryName name) :
    pathComponents (slash :: name) = [.rootDir, .normal name] := by
  have hsplit : (slash :: name).splitOn slash = [[], name] := by
    have happend := @List.splitOn_append_cons_self _ _ _ slash [] name
    rwa [List.nil_append, List.splitOn_nil, List.splitOn_eq_singleton h.noSlash] at happend
  rw [pathComponents, firstComponent, hsplit, List.head?_cons, if_pos rfl,
    List.filterMap_cons_none rfl, List.filterMap_cons_some h.counts]
  rfl

/-- Joining a name adds one component to any path. -/
theorem pathComponents_joinPath (parent : Bytes) {name : Bytes} (h : IsEntryName name) :
    pathComponents (joinPath parent name) = pathComponents parent ++ [.normal name] := by
  rw [joinPath, if_neg h.head?_ne]
  by_cases hempty : parent = []
  · subst hempty
    simpa [pathComponents, firstComponent, partComponent] using pathComponents_name h
  · by_cases hlast : parent.getLast? = some slash
    · obtain ⟨front, rfl⟩ : ∃ front, parent = front ++ [slash] :=
        ⟨parent.dropLast, (List.dropLast_append_getLast? _ hlast).symm⟩
      rw [if_pos (by simp), List.append_assoc, List.singleton_append]
      by_cases hfront : front = []
      · subst hfront
        rw [List.nil_append, List.nil_append, pathComponents_root_name h]
        rfl
      · rw [pathComponents_append hfront h, pathComponents_append_slash hfront]
    · rw [if_neg (by simp [hempty, hlast]), pathComponents_append hempty h]

/-! ## Components -/

/-- A name character is one ASCII byte, which is no separator. -/
theorem DerivedName.isEntryName (n : DerivedName) (hdot : n.asStr ≠ ['.'])
    (hdots : n.asStr ≠ ['.', '.']) : IsEntryName (utf8 n.asStr) := by
  have hbytes : ∀ t : Str, utf8 n.asStr = utf8 t → n.asStr = t := fun t ht => utf8_injective ht
  refine ⟨fun hmem => ?_, ?_⟩
  · have hchar : '/' ∈ n.asStr := (mem_utf8_iff (by decide) n.asStr).mp hmem
    exact absurd (n.nameChars _ hchar) (by decide)
  · have hnil : utf8 n.asStr ≠ [] := fun h => n.nonempty (hbytes [] h)
    have hone : utf8 n.asStr ≠ [46] := fun h => hdot (hbytes ['.'] h)
    have htwo : utf8 n.asStr ≠ [46, 46] := fun h => hdots (hbytes ['.', '.'] h)
    rw [partComponent, if_neg (by simp [hnil, hone]), if_neg htwo]

/-- A derived component is no dot: a canonical one begins with a letter or digit, and any other one
has a tilde. -/
theorem component_ne_of_dots {raw s : Str} (hraw : raw ≠ []) (hs : ∀ c ∈ s, c = '.')
    (hne : s ≠ []) : component raw ≠ s := by
  intro h
  by_cases hcan : canonical raw = true
  · rw [component_of_canonical hcan] at h
    subst h
    cases raw with
    | nil => exact hraw rfl
    | cons c t =>
      rw [canonical_cons, Bool.and_eq_true, hs c List.mem_cons_self] at hcan
      exact absurd hcan.1 (by decide)
  · rw [component, if_neg hcan] at h
    have htilde : '~' ∈ s := h ▸ by simp
    exact absurd (hs _ htilde) (by decide)

theorem isEntryName_of_deriveComponent {raw : Str} {n : DerivedName}
    (h : deriveComponent raw = .ok n) : IsEntryName (utf8 n.asStr) := by
  obtain ⟨hraw, hn⟩ := deriveComponent_ok h
  refine n.isEntryName ?_ ?_ <;> rw [hn]
  · exact component_ne_of_dots hraw (by simp) (by simp)
  · exact component_ne_of_dots hraw (by simp) (by simp)

/-- A derived component names a direct child of every directory. -/
theorem joinChecked_ok {raw : Str} {n : DerivedName} (h : deriveComponent raw = .ok n)
    (parent : Bytes) :
    n.joinChecked parent = .ok (joinPath parent (utf8 n.asStr)) ∧
      pathComponents (joinPath parent (utf8 n.asStr)) =
        pathComponents parent ++ [.normal (utf8 n.asStr)] := by
  have hjoin := pathComponents_joinPath parent (isEntryName_of_deriveComponent h)
  refine ⟨?_, hjoin⟩
  have hparent : parentComponents (joinPath parent (utf8 n.asStr)) =
      some (pathComponents parent) := by
    rw [parentComponents, hjoin, List.getLast?_concat, List.dropLast_concat]
  rw [DerivedName.joinChecked, hparent]
  exact if_neg (not_not_intro rfl)

/-! ## Case folding -/

/-- `str::to_ascii_lowercase`. -/
def asciiLowercase (s : Str) : Str := s.map Char.toLower

theorem toLower_of_not_upper {c : Char} (h : ¬ (65 ≤ c.toNat ∧ c.toNat ≤ 90)) : c.toLower = c := by
  unfold Char.toLower
  split
  · rename_i hupper
    simp only [ge_iff_le, UInt32.le_iff_toNat_le] at hupper
    exact absurd hupper h
  · rfl

theorem toLower_of_isRest {c : Char} (h : isRest c = true) : c.toLower = c := by
  refine toLower_of_not_upper fun hupper => ?_
  simp only [isRest, isLead, Bool.or_eq_true, Bool.and_eq_true, decide_eq_true_eq,
    beq_iff_eq] at h
  rcases h with (((h | h) | rfl) | rfl) | rfl
  · omega
  · omega
  all_goals exact absurd hupper (by decide)

theorem toLower_of_isHexDigit {c : Char} (h : isHexDigit c = true) : c.toLower = c := by
  refine toLower_of_not_upper fun hupper => ?_
  simp only [isHexDigit, Bool.or_eq_true, Bool.and_eq_true, decide_eq_true_eq] at h
  omega

theorem eq_tilde_of_toLower {c : Char} (h : c.toLower = '~') : c = '~' := by
  by_cases hupper : 65 ≤ c.toNat ∧ c.toNat ≤ 90
  · have hall : ∀ n < 128, (Char.ofNat n).toLower = '~' → Char.ofNat n = '~' := by decide
    rw [← Char.ofNat_toNat c] at h ⊢
    exact hall _ (by omega) h
  · rwa [toLower_of_not_upper hupper] at h

/-- A text whose characters are their own lower-case ones. -/
theorem asciiLowercase_eq_self {s : Str} (h : ∀ c ∈ s, c.toLower = c) : asciiLowercase s = s := by
  rw [asciiLowercase, List.map_congr_left h, List.map_id']

theorem asciiLowercase_of_canonical {s : Str} (h : canonical s = true) : asciiLowercase s = s :=
  asciiLowercase_eq_self fun c hc =>
    toLower_of_isRest (List.all_eq_true.mp (all_isRest_of_canonical h) c hc)

/-- The escaped part of a component is in lower case already. -/
theorem asciiLowercase_escaped (s : Str) :
    asciiLowercase (sanitize s ++ '~' :: hexBytes (utf8 s)) =
      asciiLowercase (sanitize s) ++ '~' :: hexBytes (utf8 s) := by
  have hhex : asciiLowercase (hexBytes (utf8 s)) = hexBytes (utf8 s) :=
    asciiLowercase_eq_self fun c hc => toLower_of_isHexDigit (isHexDigit_of_mem_hexBytes hc)
  rw [asciiLowercase, List.map_append, List.map_cons]
  change asciiLowercase (sanitize s) ++ '~' :: asciiLowercase (hexBytes (utf8 s)) = _
  rw [hhex]

theorem tilde_not_mem_asciiLowercase (s : Str) : '~' ∉ asciiLowercase (sanitize s) := by
  intro h
  obtain ⟨c, hc, htilde⟩ := List.mem_map.mp h
  exact tilde_not_mem_sanitize s (eq_tilde_of_toLower htilde ▸ hc)

/-- Components that agree up to case come from one identity. -/
theorem component_fold_injective {s t : Str}
    (h : asciiLowercase (component s) = asciiLowercase (component t)) : s = t := by
  have hplain : ∀ {a b : Str}, canonical a = true → canonical b = false →
      asciiLowercase (component a) = asciiLowercase (component b) → a = b := by
    intro a b ha hb hab
    rw [component_of_canonical ha, asciiLowercase_of_canonical ha, component,
      if_neg (by simp [hb]), asciiLowercase_escaped] at hab
    have htilde : '~' ∈ a := hab ▸ by simp
    exact absurd htilde (not_mem_of_all_isRest (all_isRest_of_canonical ha) (by decide))
  cases hs : canonical s <;> cases ht : canonical t
  · rw [component, component, if_neg (by simp [hs]), if_neg (by simp [ht]),
      asciiLowercase_escaped, asciiLowercase_escaped] at h
    have hsplit := congrArg (splitOnce '~') h
    rw [splitOnce_append (tilde_not_mem_asciiLowercase s),
      splitOnce_append (tilde_not_mem_asciiLowercase t)] at hsplit
    exact utf8_injective (hexBytes_injective (Prod.mk.inj (Option.some.inj hsplit)).2)
  · exact (hplain ht hs h.symm).symm
  · exact hplain hs ht h
  · rwa [component_of_canonical hs, component_of_canonical ht, asciiLowercase_of_canonical hs,
      asciiLowercase_of_canonical ht] at h

/-- **Derived components.** They tell identities apart even where case does not count, they are
short plain ASCII names of direct children, and a canonical identity within the limit is its own
component. So two sessions have different files. -/
theorem deriveComponent_safe :
    (∀ a b m n, deriveComponent a = .ok m → deriveComponent b = .ok n →
      asciiLowercase m.asStr = asciiLowercase n.asStr → a = b) ∧
    (∀ raw n, deriveComponent raw = .ok n →
      n.asStr ≠ [] ∧ (utf8 n.asStr).length ≤ 200 ∧ (∀ c ∈ n.asStr, c.toNat < 128) ∧
        '/' ∉ n.asStr ∧ Char.ofNat 0 ∉ n.asStr ∧ n.asStr ≠ ".".toList ∧ n.asStr ≠ "..".toList ∧
          ∀ parent, ∃ child, n.joinChecked parent = .ok child ∧
            pathComponents child = pathComponents parent ++ [.normal (utf8 n.asStr)]) ∧
    (∀ c rest, isLead c = true → rest.all isRest = true → (utf8 (c :: rest)).length ≤ 200 →
      ∃ n, deriveComponent (c :: rest) = .ok n ∧ n.asStr = c :: rest) ∧
    (∀ a b m n, deriveComponent a = .ok m → deriveComponent b = .ok n →
      asciiLowercase m.sessionFilename = asciiLowercase n.sessionFilename → a = b) := by
  have hfold : ∀ a b m n, deriveComponent a = .ok m → deriveComponent b = .ok n →
      asciiLowercase m.asStr = asciiLowercase n.asStr → a = b := by
    intro a b m n ha hb h
    rw [(deriveComponent_ok ha).2, (deriveComponent_ok hb).2] at h
    exact component_fold_injective h
  refine ⟨hfold, ?_, ?_, ?_⟩
  · intro raw n h
    have hchar : ∀ {c}, isNameChar c = false → c ∉ n.asStr := fun hc hmem => by
      rw [n.nameChars _ hmem] at hc
      cases hc
    obtain ⟨hraw, hn⟩ := deriveComponent_ok h
    refine ⟨n.nonempty, n.bounded, fun c hc => isNameChar_ascii (n.nameChars c hc),
      hchar (by decide), hchar (by decide), ?_, ?_, fun parent => ⟨_, joinChecked_ok h parent⟩⟩
    · exact hn ▸ component_ne_of_dots hraw (by simp) (by simp)
    · exact hn ▸ component_ne_of_dots hraw (by simp) (by simp)
  · intro c rest hc hrest hlen
    have hcan : canonical (c :: rest) = true := by rw [canonical_cons, hc, hrest]; rfl
    exact deriveComponent_of_canonical (by simp) hcan ((length_le_length_utf8 _).trans hlen)
  · intro a b m n ha hb h
    refine hfold a b m n ha hb ?_
    simp only [DerivedName.sessionFilename, asciiLowercase, List.map_append] at h
    exact List.append_cancel_left (List.append_cancel_right h)

end SolstoneTmux
