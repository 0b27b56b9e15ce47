import Std.Data.ExtTreeMap.Lemmas
import Mathlib.Logic.Basic
import Mathlib.Data.List.Basic

/-!
# Finite tables

`Table κ ν` maps finitely many keys to values: a directory, a `BTreeMap`. It is the extensional tree
map of the standard library, so two tables with the same entries are equal (`Table.ext`) and a
concrete table can be compared and looked up by evaluation. The lemmas restate its lookups with
equality of keys.
-/

namespace SolstoneTmux.Foundations

/-- A finite map. -/
abbrev Table (κ ν : Type) [Ord κ] := Std.ExtTreeMap κ ν compare

namespace Table

variable {κ ν μ : Type} [Ord κ] [Std.TransOrd κ] [Std.LawfulEqOrd κ]

theorem ext {t u : Table κ ν} (h : ∀ k : κ, t[k]? = u[k]?) : t = u :=
  Std.ExtTreeMap.ext_getElem? h

omit [Std.LawfulEqOrd κ] in
theorem get_empty (a : κ) : (∅ : Table κ ν)[a]? = none := Std.ExtTreeMap.getElem?_empty

/-! ## Entries in order -/

theorem mem_toList {t : Table κ ν} {k : κ} {v : ν} : (k, v) ∈ t.toList ↔ t[k]? = some v :=
  Std.ExtTreeMap.mem_toList_iff_getElem?_eq_some

/-- The values in the order of their keys. -/
def vals (t : Table κ ν) : List ν := t.toList.map Prod.snd

theorem mem_vals {t : Table κ ν} {v : ν} : v ∈ t.vals ↔ ∃ k : κ, t[k]? = some v := by
  rw [vals, List.mem_map]
  constructor
  · rintro ⟨⟨k, w⟩, h, rfl⟩
    exact ⟨k, mem_toList.mp h⟩
  · rintro ⟨k, h⟩
    exact ⟨(k, v), mem_toList.mpr h, rfl⟩

omit [Std.LawfulEqOrd κ] in
theorem vals_map (t : Table κ ν) (f : ν → μ) :
    Table.vals (Std.ExtTreeMap.map (fun _ v => f v) t : Table κ μ) = t.vals.map f := by
  rw [vals, vals, Std.ExtTreeMap.toList_map, List.map_map, List.map_map]
  rfl

theorem nodup_keys (t : Table κ ν) : (t.toList.map Prod.fst).Nodup := by
  have h : t.toList.Pairwise fun a b => ¬ compare a.1 b.1 = .eq :=
    Std.ExtTreeMap.distinct_keys_toList
  rw [List.Nodup, List.pairwise_map]
  refine h.imp fun hne heq => hne ?_
  rw [heq]
  exact Std.LawfulEqOrd.compare_eq_iff_eq.mpr rfl

/-! ## Insertion and erasure -/

variable [DecidableEq κ]

theorem get_insert (t : Table κ ν) (k a : κ) (v : ν) :
    (t.insert k v)[a]? = if k = a then some v else t[a]? := by
  rw [Std.ExtTreeMap.getElem?_insert]
  simp only [Std.LawfulEqOrd.compare_eq_iff_eq]

theorem get_erase (t : Table κ ν) (k a : κ) :
    (t.erase k)[a]? = if k = a then none else t[a]? := by
  rw [Std.ExtTreeMap.getElem?_erase]
  simp only [Std.LawfulEqOrd.compare_eq_iff_eq]

@[simp] theorem get_insert_self (t : Table κ ν) (k : κ) (v : ν) : (t.insert k v)[k]? = some v := by
  rw [get_insert, if_pos rfl]

theorem get_insert_ne {t : Table κ ν} {k a : κ} {v : ν} (h : k ≠ a) :
    (t.insert k v)[a]? = t[a]? := by
  rw [get_insert, if_neg h]

@[simp] theorem get_erase_self (t : Table κ ν) (k : κ) : (t.erase k)[k]? = none := by
  rw [get_erase, if_pos rfl]

theorem get_erase_ne {t : Table κ ν} {k a : κ} (h : k ≠ a) : (t.erase k)[a]? = t[a]? := by
  rw [get_erase, if_neg h]

theorem insert_insert (t : Table κ ν) (k : κ) (v w : ν) :
    (t.insert k v).insert k w = t.insert k w := by
  refine ext fun a => ?_
  simp only [get_insert]
  split <;> rfl

theorem insert_of_get {t : Table κ ν} {k : κ} {v : ν} (h : t[k]? = some v) :
    t.insert k v = t := by
  refine ext fun a => ?_
  rw [get_insert]
  split
  · rename_i hk
    rw [← hk, h]
  · rfl

theorem erase_insert_self (t : Table κ ν) (k : κ) (v : ν) : (t.insert k v).erase k = t.erase k := by
  refine ext fun a => ?_
  rw [get_erase, get_erase, get_insert]
  split <;> rfl

theorem erase_of_get_none {t : Table κ ν} {k : κ} (h : t[k]? = none) : t.erase k = t := by
  refine ext fun a => ?_
  rw [get_erase]
  split
  · rename_i hk
    rw [← hk, h]
  · rfl

/-- Erasing every key of a list that covers the table empties it. -/
theorem foldl_erase_eq_empty {t : Table κ ν} {ks : List κ} (h : ∀ k v, t[k]? = some v → k ∈ ks) :
    ks.foldl (fun t k => t.erase k) t = ∅ := by
  induction ks generalizing t with
  | nil =>
    refine ext fun a => ?_
    rw [List.foldl_nil, get_empty]
    cases ha : t[a]? with
    | none => rfl
    | some v => cases h a v ha
  | cons k ks ih =>
    refine ih fun a v ha => ?_
    rw [get_erase] at ha
    split at ha
    · cases ha
    · rename_i hne
      exact (List.mem_cons.mp (h a v ha)).resolve_left fun heq => hne heq.symm

/-- A property of all entries, one of them taken out. -/
theorem forall_get_iff {P : κ → ν → Prop} {t : Table κ ν} {k : κ} {v : ν} (h : t[k]? = some v) :
    (∀ a w, t[a]? = some w → P a w) ↔ P k v ∧ ∀ a w, (t.erase k)[a]? = some w → P a w := by
  constructor
  · refine fun hall => ⟨hall k v h, fun a w ha => ?_⟩
    rw [get_erase] at ha
    split at ha
    · cases ha
    · exact hall a w ha
  · rintro ⟨hk, hrest⟩ a w ha
    by_cases hka : k = a
    · subst hka
      rw [h] at ha
      cases ha
      exact hk
    · exact hrest a w (by rwa [get_erase_ne hka])

theorem forall_get_insert_iff {P : κ → ν → Prop} {t : Table κ ν} {k : κ} {v : ν} :
    (∀ a w, (t.insert k v)[a]? = some w → P a w) ↔
      P k v ∧ ∀ a w, (t.erase k)[a]? = some w → P a w := by
  rw [forall_get_iff (get_insert_self t k v), erase_insert_self]

end Table

end SolstoneTmux.Foundations
