import SolstoneTmux.Recovery.Recover
import SolstoneTmux.Recovery.Spared
import SolstoneTmux.Finalize
import Mathlib.Data.List.Perm.Subperm

/-!
# Where recovery leaves a segment

The names that quarantine takes are free (`attemptFree_firstFree`), so recovery only ever gives a
segment a name that nothing had. `Place` lists the names of a segment's directory, `MustKeep` says
which lines recovery has to keep, and `Preserved` what it guarantees of a whole stream directory.

The invariant of one candidate is that its lines are held by the directory at one of its places
(`Placed`) and that no entry that does not belong to it has changed (`Framed`).
-/

namespace SolstoneTmux

open Foundations Foundations.Prog

/-! ## Free names for quarantine -/

theorem failedName_getLast? (stem : Str) (number : ℕ) :
    (failedName stem number).getLast? = some 'd' :=
  getLast?_append_toList _ rfl

theorem failedMetaName_getLast? (stem : Str) (number : ℕ) :
    (failedMetaName stem number).getLast? = some 'a' :=
  getLast?_append_toList _ rfl

theorem numberSuffix_injective :
    Function.Injective fun n : ℕ => if n = 0 then [] else '.' :: decimal n := by
  intro m n h
  dsimp only at h
  split at h
  · split at h
    · omega
    · cases h
  · split at h
    · cases h
    · exact decimal_injective (List.cons.inj h).2

theorem failedName_injective (stem : Str) : Function.Injective (failedName stem) := by
  intro m n h
  rw [failedName, failedName, List.append_left_inj, List.append_right_inj] at h
  exact numberSuffix_injective h

theorem failedMetaName_injective (stem : Str) : Function.Injective (failedMetaName stem) := by
  intro m n h
  rw [failedMetaName, failedMetaName, List.append_left_inj, List.append_right_inj] at h
  exact numberSuffix_injective h

/-- The entry that stands in the way of an attempt. -/
def occupant (d : StreamDir) (stem : Str) (number : ℕ) : OsName :=
  if d[OsName.str (failedName stem number)]?.isSome then .str (failedName stem number)
  else .str (failedMetaName stem number)

theorem occupant_injective (d : StreamDir) (stem : Str) : Function.Injective (occupant d stem) := by
  have hcross : ∀ m n, failedName stem m ≠ failedMetaName stem n := fun m n h =>
    str_ne (failedName_getLast? stem m) (failedMetaName_getLast? stem n) (by decide) (by rw [h])
  intro m n h
  unfold occupant at h
  split at h
  · split at h
    · exact failedName_injective stem (OsName.str.inj h)
    · exact absurd (OsName.str.inj h) (hcross m n)
  · split at h
    · exact absurd (OsName.str.inj h).symm (hcross n m)
    · exact failedMetaName_injective stem (OsName.str.inj h)

theorem occupant_mem {d : StreamDir} {stem : Str} {number : ℕ}
    (h : attemptFree d stem number = false) : occupant d stem number ∈ d.keys := by
  rw [Std.ExtTreeMap.mem_keys, ← Std.ExtTreeMap.isSome_getElem?_iff_mem]
  unfold occupant
  split
  · assumption
  · rename_i hnone
    rw [attemptFree, Bool.and_eq_false_iff] at h
    rcases h with h | h
    · rw [Option.isNone_eq_false_iff] at h
      exact absurd h hnone
    · rwa [Option.isNone_eq_false_iff] at h

/-- There are fewer occupied attempts than entries. -/
theorem exists_attemptFree (d : StreamDir) (stem : Str) :
    ∃ n ≤ d.size, attemptFree d stem n = true := by
  by_contra hall
  have hused : ∀ n ≤ d.size, attemptFree d stem n = false := by
    intro n hn
    by_contra hfree
    exact hall ⟨n, hn, by simpa using hfree⟩
  have hsub : (List.range (d.size + 1)).map (occupant d stem) ⊆ d.keys := by
    intro name hname
    obtain ⟨n, hn, rfl⟩ := List.mem_map.mp hname
    exact occupant_mem (hused n (Nat.le_of_lt_succ (List.mem_range.mp hn)))
  have hnodup : ((List.range (d.size + 1)).map (occupant d stem)).Nodup :=
    List.nodup_range.map (occupant_injective d stem)
  have hlength := (List.subperm_of_subset hnodup hsub).length_le
  rw [List.length_map, List.length_range, Std.ExtTreeMap.length_keys] at hlength
  omega

theorem attemptFree_firstFreeFrom {d : StreamDir} {stem : Str} {fuel number n : ℕ}
    (hle : number ≤ n) (hlt : n ≤ number + fuel) (h : attemptFree d stem n = true) :
    attemptFree d stem (firstFreeFrom d stem fuel number) = true := by
  induction fuel generalizing number with
  | zero =>
    obtain rfl : n = number := by omega
    exact h
  | succ fuel ih =>
    rw [firstFreeFrom]
    split
    · assumption
    · rename_i hused
      have hne : n ≠ number := by
        rintro rfl
        exact hused h
      exact ih (by omega) (by omega)

/-- The names that quarantine takes are free. -/
theorem attemptFree_firstFree (d : StreamDir) (stem : Str) :
    attemptFree d stem (firstFree d stem) = true := by
  obtain ⟨n, hn, h⟩ := exists_attemptFree d stem
  exact attemptFree_firstFreeFrom (Nat.zero_le n) (by omega) h

/-! ## Places -/

/-- The names the directory of a segment can have. -/
inductive Place (stem : Str) : Str → Prop
  | incomplete : Place stem (incompleteName stem)
  | finalized (length : ℕ) : Place stem (finalizedName stem length)
  | failed (number : ℕ) : Place stem (failedName stem number)

/-- A zone record's name. -/
def IsZone (name : OsName) : Prop := ∃ finalized, name = captureTimePath finalized

theorem str_ne_captureTimePath {place : Str} {c : Char} (h : place.getLast? = some c)
    (hc : c ≠ 'n') (finalized : Str) : OsName.str place ≠ captureTimePath finalized :=
  str_ne h (zoneName_getLast? finalized) hc

theorem Place.ne_zone {stem place : Str} (h : Place stem place) (finalized : Str) :
    OsName.str place ≠ captureTimePath finalized := by
  cases h with
  | incomplete => exact str_ne_captureTimePath (incompleteName_getLast? stem) (by decide) _
  | finalized length =>
    exact fun heq => finalizedName_ne (zoneName_getLast? finalized) (by decide) (OsName.str.inj heq)
  | failed number => exact str_ne_captureTimePath (failedName_getLast? stem number) (by decide) _

theorem Place.ne_meta {stem place : Str} (h : Place stem place) (other : Str) :
    OsName.str place ≠ .str (incompleteMetaName other) := by
  cases h with
  | incomplete =>
    exact str_ne (incompleteName_getLast? stem) (incompleteMetaName_getLast? other) (by decide)
  | finalized length =>
    exact fun heq => finalizedName_ne (incompleteMetaName_getLast? other) (by decide) (OsName.str.inj heq)
  | failed number =>
    exact str_ne (failedName_getLast? stem number) (incompleteMetaName_getLast? other) (by decide)

theorem Place.ne_incomplete {stem place other : Str} (h : Place stem place) (hne : stem ≠ other) :
    OsName.str place ≠ .str (incompleteName other) := by
  cases h with
  | incomplete => exact fun heq => hne (List.append_cancel_right (OsName.str.inj heq))
  | finalized length =>
    exact fun heq => finalizedName_ne (incompleteName_getLast? other) (by decide) (OsName.str.inj heq)
  | failed number =>
    exact str_ne (failedName_getLast? stem number) (incompleteName_getLast? other) (by decide)

/-! ## What is to be kept -/

/-- The activity offset that the metadata of a segment records, zero when it cannot be read. -/
def recordedActivity (decoder : Decoder) (d : StreamDir) (stem : Str) : ℕ :=
  match d[OsName.str (incompleteMetaName stem)]? with
  | some (.file content) =>
    ((decoder.metadata content).map SegmentMetadata.activityDurableOffset).getD 0
  | _ => 0

/-- `l` is the beginning of the member `name` of an incomplete segment, up to the end of a line that
recovery has to keep. -/
def MustKeep (decoder : Decoder) (d : StreamDir) (stem : Str) (name : OsName) (l : Bytes) : Prop :=
  ∃ b, memberAt d (.str (incompleteName stem)) name = some (.file b) ∧
    ToKeep stem (recordedActivity decoder d stem) name b l

/-- The directory at a name has all of `kept` at the beginning of its members. -/
def HeldAt (kept : OsName → Bytes → Prop) (d : StreamDir) (place : OsName) : Prop :=
  ∃ members, d[place]? = some (.directory members) ∧
    ∀ name l, kept name l → ∃ b, members[name]? = some (.file b) ∧ l <+: b

/-- What is to be kept of the segment of a stem is still in its directory, under one of its names. -/
def LinesKept (decoder : Decoder) (base : StreamDir) (stem : Str) (d : StreamDir) : Prop :=
  (∀ name l, ¬ MustKeep decoder base stem name l) ∨
    ∃ place, Place stem place ∧ HeldAt (MustKeep decoder base stem) d (.str place)

/-- An entry is what it was; a zone record may have been written again. -/
def EntryKept (base d : StreamDir) (name : OsName) : Prop :=
  ∀ node, base[name]? = some node →
    d[name]? = some node ∨ (IsZone name ∧ ∃ t, d[name]? = some (.file (.captureTime t)))

/-- The lines of every open segment are kept, and so is every entry that belongs to none. -/
structure Preserved (decoder : Decoder) (base d : StreamDir) : Prop where
  lines : ∀ stem, LinesKept decoder base stem d
  entries : ∀ name, name.toStr.bind candidateStem = none → EntryKept base d name

/-! ## The invariant of one candidate -/

theorem EntryKept.refl (base : StreamDir) (name : OsName) : EntryKept base base name :=
  fun _ h => .inl h

theorem EntryKept.trans {base d d' : StreamDir} {name : OsName} (h : EntryKept base d name)
    (h' : EntryKept d d' name) : EntryKept base d' name := by
  intro node hnode
  rcases h node hnode with hd | ⟨hzone, t, hd⟩
  · exact h' node hd
  · refine .inr ⟨hzone, ?_⟩
    rcases h' _ hd with hd' | ⟨-, hd'⟩
    · exact ⟨t, hd'⟩
    · exact hd'

/-- No entry outside the candidate of a stem has changed. -/
def Framed (stem : Str) (base d : StreamDir) : Prop :=
  ∀ name, name ≠ .str (incompleteName stem) → name ≠ .str (incompleteMetaName stem) →
    EntryKept base d name

section Framed

variable {stem : Str} {base d : StreamDir} {name : OsName}

theorem Framed.base_none (h : Framed stem base d) (hinc : name ≠ .str (incompleteName stem))
    (hmeta : name ≠ .str (incompleteMetaName stem)) (hfree : d[name]? = none) :
    base[name]? = none := by
  cases hbase : base[name]? with
  | none => rfl
  | some node =>
    rcases h name hinc hmeta node hbase with hd | ⟨-, t, hd⟩
    · rw [hfree] at hd
      cases hd
    · rw [hfree] at hd
      cases hd

/-- A new entry changes none that was there. -/
theorem Framed.insert_free (h : Framed stem base d) (hfree : d[name]? = none)
    (node : Node Contents SegmentDir) : Framed stem base (d.insert name node) := by
  intro other hinc hmeta before hbefore
  have hne : name ≠ other := by
    rintro rfl
    rw [h.base_none hinc hmeta hfree] at hbefore
    cases hbefore
  rw [Table.get_insert_ne hne]
  exact h other hinc hmeta before hbefore

theorem Framed.insert_own (h : Framed stem base d)
    (hown : name = .str (incompleteName stem) ∨ name = .str (incompleteMetaName stem))
    (node : Node Contents SegmentDir) : Framed stem base (d.insert name node) := by
  intro other hinc hmeta before hbefore
  have hne : name ≠ other := by
    rintro rfl
    exact hown.elim hinc hmeta
  rw [Table.get_insert_ne hne]
  exact h other hinc hmeta before hbefore

theorem Framed.erase_own (h : Framed stem base d)
    (hown : name = .str (incompleteName stem) ∨ name = .str (incompleteMetaName stem)) :
    Framed stem base (d.erase name) := by
  intro other hinc hmeta before hbefore
  have hne : name ≠ other := by
    rintro rfl
    exact hown.elim hinc hmeta
  rw [Table.get_erase_ne hne]
  exact h other hinc hmeta before hbefore

theorem Framed.erase_new (h : Framed stem base d) (hnew : base[name]? = none) :
    Framed stem base (d.erase name) := by
  intro other hinc hmeta before hbefore
  have hne : name ≠ other := by
    rintro rfl
    rw [hnew] at hbefore
    cases hbefore
  rw [Table.get_erase_ne hne]
  exact h other hinc hmeta before hbefore

theorem Framed.insert_zone (h : Framed stem base d) (finalized : Str) (t : CaptureTime) :
    Framed stem base (d.insert (captureTimePath finalized) (.file (.captureTime t))) := by
  intro other hinc hmeta before hbefore
  rw [Table.get_insert]
  split
  · rename_i heq
    exact .inr ⟨⟨finalized, heq.symm⟩, t, rfl⟩
  · exact h other hinc hmeta before hbefore

end Framed

theorem HeldAt.of_get {kept : OsName → Bytes → Prop} {d d' : StreamDir} {place place' : OsName}
    (h : HeldAt kept d place) (hget : d'[place']? = d[place]?) : HeldAt kept d' place' := by
  obtain ⟨members, hmembers, hheld⟩ := h
  exact ⟨members, hget.trans hmembers, hheld⟩

/-- The lines to be kept of a candidate are in the directory at `place`, and nothing outside the
candidate has changed. -/
structure Placed (kept : OsName → Bytes → Prop) (stem : Str) (base : StreamDir) (place : OsName)
    (d : StreamDir) : Prop where
  framed : Framed stem base d
  held : (∀ name l, ¬ kept name l) ∨ HeldAt kept d place

/-- The lines to be kept of a candidate are in its directory, under one of its names. -/
def Safe (kept : OsName → Bytes → Prop) (stem : Str) (base d : StreamDir) : Prop :=
  ∃ place, Place stem place ∧ Placed kept stem base (.str place) d

section Placed

variable {kept : OsName → Bytes → Prop} {stem : Str} {base d : StreamDir} {place : OsName}

theorem Placed.safe {place : Str} (h : Placed kept stem base (.str place) d)
    (hplace : Place stem place) : Safe kept stem base d :=
  ⟨place, hplace, h⟩

/-- Where nothing is to be kept, only the frame matters. -/
theorem safe_of_framed (hnone : ∀ name l, ¬ kept name l) (h : Framed stem base d) :
    Safe kept stem base d :=
  Placed.safe ⟨h, .inl hnone⟩ .incomplete

theorem Placed.of_get {d' : StreamDir} (h : Placed kept stem base place d)
    (hframed : Framed stem base d') (hget : d'[place]? = d[place]?) :
    Placed kept stem base place d' :=
  ⟨hframed, h.held.imp_right fun hheld => hheld.of_get hget⟩

theorem Placed.write_meta (h : Placed kept stem base place d)
    (hne : place ≠ .str (incompleteMetaName stem)) (c : Contents) :
    Placed kept stem base place (d.insert (.str (incompleteMetaName stem)) (.file c)) :=
  h.of_get (h.framed.insert_own (.inr rfl) _) (Table.get_insert_ne hne.symm)

theorem Placed.erase_meta (h : Placed kept stem base place d)
    (hne : place ≠ .str (incompleteMetaName stem)) :
    Placed kept stem base place (d.erase (.str (incompleteMetaName stem))) :=
  h.of_get (h.framed.erase_own (.inr rfl)) (Table.get_erase_ne hne.symm)

theorem Placed.write_zone (h : Placed kept stem base place d) {finalized : Str}
    (hne : place ≠ captureTimePath finalized) (t : CaptureTime) :
    Placed kept stem base place (d.insert (captureTimePath finalized) (.file (.captureTime t))) :=
  h.of_get (h.framed.insert_zone finalized t) (Table.get_insert_ne hne.symm)

/-- The directory is renamed, to a free name or back to the name it had. -/
theorem Placed.move {source target : OsName} {node : Node Contents SegmentDir}
    (h : Placed kept stem base source d) (hnode : d[source]? = some node)
    (hsource : source = .str (incompleteName stem) ∨ base[source]? = none)
    (htarget : target = .str (incompleteName stem) ∨ d[target]? = none) :
    Placed kept stem base target ((d.erase source).insert target node) := by
  have herased : Framed stem base (d.erase source) := by
    rcases hsource with hsource | hsource
    · exact h.framed.erase_own (.inl hsource)
    · exact h.framed.erase_new hsource
  refine ⟨?_, h.held.imp_right fun hheld => hheld.of_get ?_⟩
  · rcases htarget with htarget | htarget
    · exact herased.insert_own (.inl htarget) node
    · refine herased.insert_free ?_ node
      rw [Table.get_erase]
      split
      · rfl
      · exact htarget
  · rw [Table.get_insert_self, hnode]

/-- The metadata is renamed to a free name. -/
theorem Placed.move_meta {target : OsName} {node : Node Contents SegmentDir}
    (h : Placed kept stem base place d) (hmeta : place ≠ .str (incompleteMetaName stem))
    (hne : place ≠ target) (htarget : d[target]? = none) :
    Placed kept stem base place
      ((d.erase (.str (incompleteMetaName stem))).insert target node) := by
  refine h.of_get ((h.framed.erase_own (.inr rfl)).insert_free ?_ node) ?_
  · rw [Table.get_erase]
    split
    · rfl
    · exact htarget
  · rw [Table.get_insert_ne hne.symm, Table.get_erase_ne hmeta.symm]

/-- A member of the source is cut to a length that spares what is to be kept. -/
theorem Placed.resize (h : Placed kept stem base (.str (incompleteName stem)) d) {member : OsName}
    {offset : ℕ} (hspare : ∀ l, kept member l → l.length ≤ offset) :
    Placed kept stem base (.str (incompleteName stem))
      (resizedMember (.str (incompleteName stem)) member offset d).2 := by
  unfold resizedMember
  split
  · rename_i b hb
    obtain ⟨members, hmembers, hb⟩ := Option.bind_eq_some_iff.mp hb
    rw [setMember_of_members hmembers]
    refine ⟨h.framed.insert_own (.inl rfl) _, h.held.imp_right ?_⟩
    rintro ⟨members', hmembers', hheld⟩
    obtain rfl : members = members' := by
      rw [segmentMembers_eq_some, hmembers'] at hmembers
      exact (Node.directory.inj (Option.some.inj hmembers)).symm
    refine ⟨_, Table.get_insert_self _ _ _, fun name l hl => ?_⟩
    obtain ⟨b', hb', hpre⟩ := hheld name l hl
    rw [Table.get_insert]
    split
    · rename_i heq
      subst heq
      rw [hb] at hb'
      cases hb'
      refine ⟨_, rfl, ?_⟩
      have htake : l <+: b.take offset := List.prefix_take_iff.mpr ⟨hpre, hspare l hl⟩
      exact htake.trans (List.prefix_append _ _)
    · exact ⟨b', hb', hpre⟩
  · exact h
  · exact h

/-- Nothing is to be kept of a directory of empty files. -/
theorem Placed.nothing_of_empty (h : Placed kept stem base place d)
    (hne : ∀ name l, kept name l → l ≠ []) {members : SegmentDir}
    (hmembers : d[place]? = some (.directory members))
    (hempty : ∀ (name : OsName) (b : Bytes), members[name]? = some (.file b) → b = []) :
    ∀ name l, ¬ kept name l := by
  rcases h.held with hnone | ⟨members', hmembers', hheld⟩
  · exact hnone
  · intro name l hl
    rw [hmembers] at hmembers'
    cases hmembers'
    obtain ⟨b, hb, hpre⟩ := hheld name l hl
    rw [hempty name b hb] at hpre
    exact hne name l hl (List.prefix_nil.mp hpre)

end Placed

end SolstoneTmux
