import Mathlib.Data.List.Induction
import SolstoneTmux.Sync.Removal

/-!
# A removal is complete or is undone

`segment_deletion`: whatever others do between the calls of `deleteRevalidatedSegment`, an answer
`removed` means that every expected file was unlinked with its acknowledged content and that the
directory is gone, an answer `refused` that nothing was changed, and an answer `failed` that each
expected name was restored (`Settled`). What is restored holds until others touch it: a name that
they touch once its restoration has begun is theirs, as `restoration_races` shows.

`Restoring` is what the rounds of the restoration rely on, and `Staged` what one round knows of its
own name as long as others leave it alone.
-/

namespace SolstoneTmux

open Foundations Foundations.Prog

/-! ## The store -/

namespace Store

variable {s : Store} {name other : Str} {node : Node ℕ ℕ} {file : OpenFile}

theorem lookup_withEntry (s : Store) (name other : Str) (node : Node ℕ ℕ) :
    (s.withEntry name node).lookup other =
      if name = other then s.directory.map fun _ => node else s.lookup other := by
  cases hdir : s.directory with
  | none => simp [lookup, withEntry, hdir]
  | some entries => simp [lookup, withEntry, hdir, Table.get_insert]

theorem lookup_without (s : Store) (name other : Str) :
    (s.without name).lookup other = if name = other then none else s.lookup other := by
  cases hdir : s.directory with
  | none => simp [lookup, without, hdir]
  | some entries => simp [lookup, without, hdir, Table.get_erase]

theorem lookup_withEntry_self (h : s.directory.isSome) :
    (s.withEntry name node).lookup name = some node := by
  obtain ⟨entries, hdir⟩ := Option.isSome_iff_exists.mp h
  rw [lookup_withEntry, if_pos rfl, hdir, Option.map_some]

theorem lookup_withEntry_ne (h : name ≠ other) :
    (s.withEntry name node).lookup other = s.lookup other := by
  rw [lookup_withEntry, if_neg h]

theorem lookup_without_self : (s.without name).lookup name = none := by
  rw [lookup_without, if_pos rfl]

theorem lookup_without_ne (h : name ≠ other) : (s.without name).lookup other = s.lookup other := by
  rw [lookup_without, if_neg h]

theorem lookup_withFile_self (h : s.directory.isSome) :
    (s.withFile name file).lookup name = some (.file s.files.length) :=
  lookup_withEntry_self h

theorem lookup_withFile_ne (h : name ≠ other) :
    (s.withFile name file).lookup other = s.lookup other := lookup_withEntry_ne h

@[simp] theorem directory_withEntry :
    (s.withEntry name node).directory.isSome = s.directory.isSome := Option.isSome_map

@[simp] theorem directory_without : (s.without name).directory.isSome = s.directory.isSome :=
  Option.isSome_map

@[simp] theorem directory_withFile :
    (s.withFile name file).directory.isSome = s.directory.isSome := Option.isSome_map

@[simp] theorem files_withEntry : (s.withEntry name node).files = s.files := rfl

@[simp] theorem files_without : (s.without name).files = s.files := rfl

@[simp] theorem files_withFile : (s.withFile name file).files = s.files ++ [file] := rfl

theorem openRegular_eq_some {number : ℕ} :
    s.openRegular name = some number ↔ s.lookup name = some (.file number) := by
  rw [openRegular]
  split
  · rename_i found heq
    rw [heq, Option.some.injEq, Option.some.injEq, Node.file.injEq]
  · rename_i hne
    exact iff_of_false nofun fun h => hne _ h

end Store

/-! ## The actions of others -/

namespace External

variable {names : List Str} {s : Store} {name : Str} {number : ℕ} {action : External}

/-- An action on a name. -/
def On (name : Str) : External → Prop
  | remove other => other = name
  | replace other _ => other = name
  | change _ _ => False

/-- An action on the content of a file. -/
def Changes (number : ℕ) : External → Prop
  | change other _ => other = number
  | _ => False

theorem lookup_apply (h : ¬ action.On name) : (action.apply s).lookup name = s.lookup name := by
  cases action with
  | remove other => exact Store.lookup_without_ne h
  | replace other node =>
    cases node with
    | file file => exact Store.lookup_withFile_ne h
    | directory n => exact Store.lookup_withEntry_ne h
    | special n => exact Store.lookup_withEntry_ne h
  | change other file => rfl

theorem not_on_of_within (h : action.Within names) (hname : name ∉ names) : ¬ action.On name := by
  cases action with
  | remove other => exact fun heq => hname (heq ▸ h)
  | replace other node => exact fun heq => hname (heq ▸ h)
  | change other file => exact id

@[simp] theorem directory_apply (action : External) (s : Store) :
    (action.apply s).directory.isSome = s.directory.isSome := by
  cases action with
  | remove other => exact Store.directory_without
  | replace other node => cases node <;> simp [apply]
  | change other file => rfl

theorem length_apply (action : External) (s : Store) :
    s.files.length ≤ (action.apply s).files.length := by
  cases action with
  | remove other => exact Nat.le_refl _
  | replace other node => cases node <;> simp [apply]
  | change other file => simp [apply]

/-- A file that is there keeps its content unless an action changes it. -/
theorem files_apply (h : ¬ action.Changes number) {file : OpenFile}
    (hfile : s.files[number]? = some file) : (action.apply s).files[number]? = some file := by
  have hlt : number < s.files.length := (List.getElem?_eq_some_iff.mp hfile).1
  cases action with
  | remove other => exact hfile
  | replace other node =>
    cases node with
    | file new =>
      rw [apply, Store.files_withFile, List.getElem?_append_left hlt]
      exact hfile
    | directory n => exact hfile
    | special n => exact hfile
  | change other new =>
    change (s.files.set other new)[number]? = some file
    rw [List.getElem?_set_ne h]
    exact hfile

end External

/-- What the actions of others keep, they keep over a turn. -/
theorem RemovalTurn.others_induct {names : List Str} {P : World → Prop}
    (hact : ∀ w (action : External), action.Within names → P w → P (w.act action))
    (t : RemovalTurn names) {w : World} (h : P w) : P (t.others w) := by
  obtain ⟨actions, within, works⟩ := t
  rw [others]
  dsimp only
  clear works
  induction actions generalizing w with
  | nil => exact h
  | cons action actions ih =>
    rw [List.forall_mem_cons] at within
    exact ih (hact w action within.1 h) within.2

/-! ## What others leave alone -/

/-- An action on a restored name: on its entry, on its original file, or on the copy that was put
in its place. -/
def Touches (index : ℕ) (expected : FileIdentity) (events : List Event) (action : External) : Prop :=
  action.On expected.name ∨ action.Changes expected.number ∨
    ∃ number, Event.restored index number ∈ events ∧ action.Changes number

/-- Others leave a name alone. -/
def Untouched (index : ℕ) (expected : FileIdentity) (events : List Event) : Prop :=
  ∀ action, Event.external action ∈ events → ¬ Touches index expected events action

/-- Since the restoration of a name began, when it had the given entry, `F` holds if others leave
the name alone. -/
def Staged (index : ℕ) (expected : FileIdentity) (entry : Option (Node ℕ ℕ))
    (F : List Event → Store → Prop) (w : World) : Prop :=
  ∃ before after, w.events = before ++ .restoring index entry :: after ∧
    (Untouched index expected after → F after w.store)

/-- The name has a file with the content of the original one, and what stood in its place is kept
under its name or under its conflict name. -/
structure Kept (index : ℕ) (expected : FileIdentity) (entry : Option (Node ℕ ℕ))
    (after : List Event) (s : Store) : Prop where
  file : ∃ number file original, s.lookup expected.name = some (.file number) ∧
    (number = expected.number ∨ Event.restored index number ∈ after) ∧
    s.files[number]? = some file ∧ s.files[expected.number]? = some original ∧
    file.content = original.content
  found : ∀ node, entry = some node →
    s.lookup expected.name = some node ∨ s.lookup (conflictName index) = some node

/-- A name was restored, and is as it was restored if others leave it alone. -/
def Settled (index : ℕ) (expected : FileIdentity) (w : World) : Prop :=
  ∃ entry, Staged index expected entry (Kept index expected entry) w

section Untouched

variable {index : ℕ} {expected : FileIdentity} {events more : List Event} {action : External}

theorem Touches.mono (h : Touches index expected events action) :
    Touches index expected (events ++ more) action :=
  h.imp_right <| Or.imp_right fun ⟨number, hmem, hchanges⟩ =>
    ⟨number, List.mem_append_left more hmem, hchanges⟩

theorem Untouched.of_append (h : Untouched index expected (events ++ more)) :
    Untouched index expected events := fun action hmem htouches =>
  h action (List.mem_append_left more hmem) htouches.mono

theorem Untouched.last (h : Untouched index expected (events ++ [.external action])) :
    ¬ Touches index expected events action := fun htouches =>
  h action (List.mem_append_right events (List.mem_singleton_self _)) htouches.mono

end Untouched

section Robust

variable {names : List Str} {index : ℕ} {expected : FileIdentity} {entry : Option (Node ℕ ℕ)}
  {F G : List Event → Store → Prop}

/-- What the actions of others keep that leave a name alone. -/
def Robust (names : List Str) (index : ℕ) (expected : FileIdentity)
    (F : List Event → Store → Prop) : Prop :=
  ∀ after s (action : External), action.Within names → ¬ Touches index expected after action →
    F after s → F (after ++ [.external action]) (action.apply s)

theorem Robust.and (hF : Robust names index expected F) (hG : Robust names index expected G) :
    Robust names index expected fun after s => F after s ∧ G after s :=
  fun after s action hwithin hleft h =>
    ⟨hF after s action hwithin hleft h.1, hG after s action hwithin hleft h.2⟩

theorem robust_entry (entry : Option (Node ℕ ℕ)) :
    Robust names index expected fun _ s => s.lookup expected.name = entry := by
  intro after s action _ hleft h
  rw [External.lookup_apply fun hon => hleft (.inl hon), h]

theorem robust_other {name : Str} (hname : name ∉ names) (P : Option (Node ℕ ℕ) → Prop) :
    Robust names index expected fun _ s => P (s.lookup name) := by
  intro after s action hwithin _ h
  rwa [External.lookup_apply (External.not_on_of_within hwithin hname)]

theorem robust_original (P : OpenFile → Prop) :
    Robust names index expected fun _ s => ∃ file, s.files[expected.number]? = some file ∧ P file := by
  rintro after s action - hleft ⟨file, hfile, hP⟩
  exact ⟨file, External.files_apply (fun hchanges => hleft (.inr (.inl hchanges))) hfile, hP⟩

theorem robust_kept (hconflict : conflictName index ∉ names) :
    Robust names index expected (Kept index expected entry) := by
  intro after s action hwithin hleft h
  obtain ⟨number, file, original, hlookup, hnumber, hfile, horiginal, hcontent⟩ := h.file
  have hsame : ¬ action.Changes number := by
    rcases hnumber with rfl | hrestored
    · exact fun hchanges => hleft (.inr (.inl hchanges))
    · exact fun hchanges => hleft (.inr (.inr ⟨number, hrestored, hchanges⟩))
  have hentry := External.lookup_apply (s := s) fun hon => hleft (.inl hon)
  have hkept := External.lookup_apply (s := s) (External.not_on_of_within hwithin hconflict)
  refine ⟨⟨number, file, original, by rw [hentry, hlookup], ?_, External.files_apply hsame hfile,
    External.files_apply (fun hchanges => hleft (.inr (.inl hchanges))) horiginal, hcontent⟩, ?_⟩
  · exact hnumber.imp_right (List.mem_append_left _)
  · rw [hentry, hkept]
    exact h.found

theorem Staged.act (hF : Robust names index expected F) {w : World} {action : External}
    (hwithin : action.Within names) (h : Staged index expected entry F w) :
    Staged index expected entry F (w.act action) := by
  obtain ⟨before, after, hevents, hholds⟩ := h
  refine ⟨before, after ++ [.external action], ?_, fun huntouched => ?_⟩
  · rw [World.act, hevents, List.append_assoc, List.cons_append]
  · exact hF after w.store action hwithin huntouched.last (hholds huntouched.of_append)

/-- A step of the program that leaves a name's own events alone. -/
theorem Staged.step {w w' : World} {more : List Event} (h : Staged index expected entry F w)
    (hevents : w'.events = w.events ++ more)
    (hG : ∀ after, F after w.store → G (after ++ more) w'.store) :
    Staged index expected entry G w' := by
  obtain ⟨before, after, hw, hholds⟩ := h
  refine ⟨before, after ++ more, ?_, fun huntouched => ?_⟩
  · rw [hevents, hw, List.append_assoc, List.cons_append]
  · exact hG after (hholds huntouched.of_append)

end Robust

/-! ## What the rounds rely on -/

/-- The identities are those of the expected names, which differ and are no conflict names. -/
structure Expected (names : List Str) (identities : List FileIdentity) : Prop where
  names_eq : identities.map FileIdentity.name = names
  nodup : names.Nodup
  plain : ∀ index, conflictName index ∉ names

/-- A file has the content that it had at first, or others changed it. -/
def Originals (initial : Store) (w : World) : Prop :=
  ∀ (number : ℕ) file, initial.files[number]? = some file → w.store.files[number]? = some file ∨
    ∃ new, Event.external (.change number new) ∈ w.events

/-- Between two rounds of the restoration: the conflict names from `free` on are not in use, the
originals are there, and the names before `settled` are restored. -/
structure Restoring (initial : Store) (identities : List FileIdentity) (free settled : ℕ) (w : World) :
    Prop where
  directory : w.store.directory.isSome
  free : ∀ index, free ≤ index → w.store.lookup (conflictName index) = none
  held : ∀ identity ∈ identities, identity.number < w.store.files.length
  settled : ∀ index identity, index < settled → identities[index]? = some identity →
    Settled index identity w
  originals : Originals initial w

section Restoring

variable {initial : Store} {names : List Str} {identities : List FileIdentity} {free settled index : ℕ}
  {expected : FileIdentity} {entry : Option (Node ℕ ℕ)} {F : List Event → Store → Prop} {w : World}

theorem getElem?_of_isPrefix {α : Type} {xs ys : List α} {a : α} (h : xs <+: ys)
    (hx : xs[index]? = some a) : ys[index]? = some a := by
  obtain ⟨t, rfl⟩ := h
  rw [List.getElem?_append_left (List.getElem?_eq_some_iff.mp hx).1, hx]

theorem conflictName_inj {m n : ℕ} (h : conflictName m = conflictName n) : m = n :=
  decimal_injective (List.append_cancel_left h)

theorem Expected.mem (h : Expected names identities) (hget : identities[index]? = some expected) :
    expected.name ∈ names := by
  rw [← h.names_eq]
  exact List.mem_map_of_mem (List.mem_of_getElem? hget)

theorem Expected.name_ne (h : Expected names identities) {other : ℕ} {identity : FileIdentity}
    (hget : identities[index]? = some expected) (hother : identities[other]? = some identity)
    (hne : other ≠ index) : expected.name ≠ identity.name := by
  intro heq
  have hnodup := h.names_eq ▸ h.nodup
  have hindex : (identities.map FileIdentity.name)[index]? = some expected.name := by
    rw [List.getElem?_map, hget, Option.map_some]
  have hidentity : (identities.map FileIdentity.name)[other]? = some expected.name := by
    rw [List.getElem?_map, hother, Option.map_some, heq]
  have hlt : other < (identities.map FileIdentity.name).length :=
    (List.getElem?_eq_some_iff.mp hidentity).1
  exact hne ((List.getElem?_inj hlt hnodup).mp (by rw [hindex, hidentity]))

theorem Expected.ne_conflict (h : Expected names identities)
    (hget : identities[index]? = some expected) (other : ℕ) :
    expected.name ≠ conflictName other := fun heq => h.plain other (heq ▸ h.mem hget)

theorem Originals.act (action : External) (h : Originals initial w) :
    Originals initial (w.act action) := by
  intro number file hfile
  rcases h number file hfile with h | ⟨new, h⟩
  · by_cases hchanges : action.Changes number
    · right
      cases action with
      | remove other => cases hchanges
      | replace other node => cases hchanges
      | change other new =>
        cases hchanges
        exact ⟨new, List.mem_append_right _ (List.mem_singleton_self _)⟩
    · exact .inl (External.files_apply hchanges h)
  · exact .inr ⟨new, List.mem_append_left _ h⟩

theorem Restoring.act (hexpected : Expected names identities) {action : External}
    (hwithin : action.Within names) (h : Restoring initial identities free settled w) :
    Restoring initial identities free settled (w.act action) where
  directory := by
    rw [World.act, External.directory_apply]
    exact h.directory
  free := fun index hle => by
    rw [World.act, External.lookup_apply
      (External.not_on_of_within hwithin (hexpected.plain index)), h.free index hle]
  held := fun identity hmem => Nat.lt_of_lt_of_le (h.held identity hmem) (External.length_apply _ _)
  settled := fun index identity hlt hget => by
    obtain ⟨entry, hstaged⟩ := h.settled index identity hlt hget
    exact ⟨entry, hstaged.act (robust_kept (hexpected.plain index)) hwithin⟩
  originals := h.originals.act action

/-- A step of a round leaves the names before it settled when it leaves their entries, their
conflict names and the files alone. -/
theorem Restoring.step {w' : World} {free' : ℕ} {more : List Event}
    (h : Restoring initial identities free settled w)
    (hevents : w'.events = w.events ++ more) (hfree : free ≤ free')
    (hdir : w'.store.directory.isSome) (hfiles : w.store.files <+: w'.store.files)
    (hentry : ∀ other identity, other < settled → identities[other]? = some identity →
      w'.store.lookup identity.name = w.store.lookup identity.name ∧
        w'.store.lookup (conflictName other) = w.store.lookup (conflictName other))
    (hconflict : ∀ other, free' ≤ other →
      w'.store.lookup (conflictName other) = w.store.lookup (conflictName other)) :
    Restoring initial identities free' settled w' where
  directory := hdir
  free := fun other hle => by
    rw [hconflict other hle]
    exact h.free other (Nat.le_trans hfree hle)
  held := fun identity hmem => Nat.lt_of_lt_of_le (h.held identity hmem) hfiles.length_le
  settled := fun other identity hlt hget => by
    obtain ⟨entry, hstaged⟩ := h.settled other identity hlt hget
    obtain ⟨hname, hconf⟩ := hentry other identity hlt hget
    refine ⟨entry, hstaged.step hevents fun after hkept => ?_⟩
    obtain ⟨number, file, original, hlookup, hnumber, hfile, horiginal, hcontent⟩ := hkept.file
    refine ⟨⟨number, file, original, by rw [hname, hlookup], ?_, ?_, ?_, hcontent⟩, ?_⟩
    · exact hnumber.imp_right (List.mem_append_left more)
    · exact getElem?_of_isPrefix hfiles hfile
    · exact getElem?_of_isPrefix hfiles horiginal
    · rw [hname, hconf]
      exact hkept.found
  originals := fun number file hfile => by
    rw [hevents]
    exact (h.originals number file hfile).imp (getElem?_of_isPrefix hfiles)
      fun ⟨new, hnew⟩ => ⟨new, List.mem_append_left more hnew⟩

/-- The state of a round: what the rounds rely on, and what the round knows of its name. -/
structure Round (initial : Store) (names : List Str) (identities : List FileIdentity) (free index : ℕ)
    (expected : FileIdentity) (entry : Option (Node ℕ ℕ)) (F : List Event → Store → Prop)
    (w : World) : Prop where
  restoring : Restoring initial identities free index w
  staged : Staged index expected entry F w

theorem Round.act (hexpected : Expected names identities) (hF : Robust names index expected F)
    {action : External} (hwithin : action.Within names)
    (h : Round initial names identities free index expected entry F w) :
    Round initial names identities free index expected entry F (w.act action) :=
  ⟨h.restoring.act hexpected hwithin, h.staged.act hF hwithin⟩

theorem Round.imp {G : List Event → Store → Prop} (h : Round initial names identities free index expected
    entry F w) (hG : ∀ after, F after w.store → G after w.store) :
    Round initial names identities free index expected entry G w :=
  ⟨h.restoring, h.staged.step (List.append_nil _).symm fun after hF => by
    rw [List.append_nil]
    exact hG after hF⟩

/-- The end of a round. -/
theorem Round.finish (h : Round initial names identities free index expected entry F w)
    (hget : identities[index]? = some expected) (hfree : free ≤ index + 1)
    (hkept : ∀ after, F after w.store → Kept index expected entry after w.store) :
    Restoring initial identities (index + 1) (index + 1) w where
  directory := h.restoring.directory
  free := fun other hle => h.restoring.free other (Nat.le_trans hfree hle)
  held := h.restoring.held
  settled := fun other identity hlt hother => by
    rcases Nat.lt_succ_iff_lt_or_eq.mp hlt with hlt | rfl
    · exact h.restoring.settled other identity hlt hother
    · obtain rfl : expected = identity := Option.some.inj (hget.symm.trans hother)
      exact ⟨entry, (h.imp hkept).staged⟩
  originals := h.restoring.originals

end Restoring

/-! ## Calls among others -/

section Rules

variable {names : List Str} {α : Type} {A : RemovalTurn names → Prop} {P : World → Prop} {w : World}

/-- What the actions of others keep. -/
def Stable (names : List Str) (P : World → Prop) : Prop :=
  ∀ w (action : External), action.Within names → P w → P (w.act action)

theorem wp_see {read : Store → α} {Q : Ended Empty α → World → Prop} (hP : Stable names P)
    (h : P w) (hQ : ∀ w', P w' → Q (.done (read w'.store)) w') :
    wp A (see read : Removal names α) Q w :=
  wp_shared h (fun t _ => t.others_induct hP) fun _ w' => hQ w'

theorem wp_look {read : Store → Option α} {Q : Ended Empty (Option α) → World → Prop}
    (hP : Stable names P) (h : P w) (hnone : ∀ w', P w' → Q (.done none) w')
    (hQ : ∀ w' a, P w' → read w'.store = some a → Q (.done (some a)) w') :
    wp A (look read : Removal names (Option α)) Q w := by
  refine wp_shared h (fun t _ => t.others_induct hP) fun t w' hw' => ?_
  cases t.works with
  | false => exact hnone w' hw'
  | true =>
    cases hread : read w'.store with
    | none => exact hnone w' hw'
    | some a => exact hQ w' a hw' hread

/-- The postcondition of a program that returns in `P`. -/
def returns (P : α → World → Prop) : Ended Empty α → World → Prop := endsIn (fun _ => False) P

end Rules

/-! ## One round -/

section RestoreFile

variable {initial : Store} {names : List Str} {identities : List FileIdentity} {index : ℕ} {expected : FileIdentity}
  {entry : Option (Node ℕ ℕ)} {w : World}

/-- The name is free again, and what stood in its place is kept. -/
def Moved (index : ℕ) (expected : FileIdentity) (entry : Option (Node ℕ ℕ)) (_ : List Event)
    (s : Store) : Prop :=
  s.lookup expected.name = none ∧
    ∀ node, entry = some node → s.lookup (conflictName index) = some node

theorem robust_moved (hexpected : Expected names identities) :
    Robust names index expected (Moved index expected entry) :=
  (robust_entry none).and (robust_other (hexpected.plain index)
    fun found => ∀ node, entry = some node → found = some node)

/-- The name is free again, and the original file has the given content. -/
def Holding (index : ℕ) (expected : FileIdentity) (entry : Option (Node ℕ ℕ)) (bytes : Bytes)
    (after : List Event) (s : Store) : Prop :=
  Moved index expected entry after s ∧
    ∃ file, s.files[expected.number]? = some file ∧ file.content = bytes

theorem robust_holding (hexpected : Expected names identities) (bytes : Bytes) :
    Robust names index expected (Holding index expected entry bytes) :=
  (robust_moved hexpected).and (robust_original fun file => file.content = bytes)

theorem Round.stable (hexpected : Expected names identities) {free : ℕ}
    {F : List Event → Store → Prop} (hF : Robust names index expected F) :
    Stable names (Round initial names identities free index expected entry F) :=
  fun _ _ hwithin h => h.act hexpected hF hwithin

theorem wp_install (hexpected : Expected names identities)
    (hget : identities[index]? = some expected) {bytes : Bytes}
    (h : Round initial names identities (index + 1) index expected entry
      (Holding index expected entry bytes) w) :
    wp (fun _ => True) (install index expected.name bytes : Removal names Bool)
      (returns fun _ => Restoring initial identities (index + 1) (index + 1)) w := by
  refine wp_shared h
    (fun t _ => t.others_induct (Round.stable hexpected (robust_holding hexpected bytes)))
    fun _ w' hw' => ?_
  split
  · rename_i found hfound
    refine hw'.finish hget (Nat.le_refl _) fun after hF => ?_
    rw [hF.1.1] at hfound
    cases hfound
  · have hdir := hw'.restoring.directory
    have hname : ∀ other, conflictName other ≠ expected.name := fun other =>
      (hexpected.ne_conflict hget other).symm
    have hround : Round initial names identities (index + 1) index expected entry
        (Kept index expected entry) ⟨w'.store.withFile expected.name ⟨bytes, 0⟩,
          w'.events ++ [.restored index w'.store.files.length]⟩ := by
      refine ⟨hw'.restoring.step rfl (Nat.le_refl _) (by rwa [Store.directory_withFile])
        (List.prefix_append _ _) (fun other identity hlt hother => ⟨?_, ?_⟩) fun other _ => ?_,
        hw'.staged.step rfl fun after hF => ?_⟩
      · exact Store.lookup_withFile_ne (hexpected.name_ne hget hother (Nat.ne_of_lt hlt))
      · exact Store.lookup_withFile_ne (hname other).symm
      · exact Store.lookup_withFile_ne (hname other).symm
      · obtain ⟨⟨-, hmoved⟩, original, horiginal, hcontent⟩ := hF
        refine ⟨⟨w'.store.files.length, ⟨bytes, 0⟩, original, Store.lookup_withFile_self hdir,
          .inr (List.mem_append_right after (List.mem_singleton_self _)), ?_, ?_, hcontent.symm⟩,
          fun node hnode => .inr ?_⟩
        · rw [Store.files_withFile, List.getElem?_concat_length]
        · exact getElem?_of_isPrefix (List.prefix_append _ _) horiginal
        · rw [Store.lookup_withFile_ne (hname index).symm]
          exact hmoved node hnode
    exact hround.finish hget (Nat.le_refl _) fun _ => id

theorem wp_atomicWriteExpected (hexpected : Expected names identities)
    (hget : identities[index]? = some expected) {bytes : Bytes}
    (h : Round initial names identities (index + 1) index expected entry
      (Holding index expected entry bytes) w) :
    wp (fun _ => True) (atomicWriteExpected index expected.name bytes : Removal names Bool)
      (returns fun _ => Restoring initial identities (index + 1) (index + 1)) w := by
  rw [atomicWriteExpected, wp_bind]
  refine wp_see (Round.stable hexpected (robust_holding hexpected bytes)) h fun w' hw' => ?_
  rw [andThen_done]
  split
  · rename_i found hfound
    refine hw'.finish hget (Nat.le_refl _) fun after hF => ?_
    rw [hF.1.1] at hfound
    cases hfound
  · rename_i found hfound
    refine hw'.finish hget (Nat.le_refl _) fun after hF => ?_
    rw [hF.1.1] at hfound
    cases hfound
  · exact wp_install hexpected hget hw'

theorem wp_rewrite (hexpected : Expected names identities)
    (hget : identities[index]? = some expected)
    (h : Round initial names identities (index + 1) index expected entry (Moved index expected entry) w) :
    wp (fun _ => True) (rewrite index expected.name expected.number : Removal names Bool)
      (returns fun _ => Restoring initial identities (index + 1) (index + 1)) w := by
  rw [rewrite, wp_bind]
  refine wp_see (Round.stable hexpected (robust_moved hexpected)) h fun w' hw' => ?_
  rw [andThen_done]
  have hlt := hw'.restoring.held expected (List.mem_of_getElem? hget)
  rw [List.getElem?_eq_getElem hlt, Option.map_some]
  refine wp_atomicWriteExpected hexpected hget (hw'.imp fun after hF => ⟨hF, _, ?_, rfl⟩)
  exact List.getElem?_eq_getElem hlt

/-- The file under the expected name is the original one. -/
theorem kept_of_matches {number : ℕ} {file : OpenFile} {after : List Event} {s : Store}
    (hmatches : metadataMatches number file expected = true) (hfile : s.files[number]? = some file)
    (hentry : entry = some (.file number)) (hlookup : s.lookup expected.name = entry) :
    Kept index expected entry after s := by
  rw [metadataMatches, Bool.and_eq_true, decide_eq_true_eq, decide_eq_true_eq] at hmatches
  obtain ⟨rfl, -⟩ := hmatches
  exact ⟨⟨_, file, file, hlookup.trans hentry, .inl rfl, hfile, hfile, rfl⟩,
    fun node hnode => .inl (hlookup.trans hnode)⟩

/-- What the round knows of a name in whose place something else stands. -/
def Standing (expected : FileIdentity) (entry : Option (Node ℕ ℕ)) (_ : List Event) (s : Store) :
    Prop :=
  s.lookup expected.name = entry ∧ entry.isSome

theorem robust_standing : Robust names index expected (Standing expected entry) :=
  (robust_entry entry).and fun _ _ _ _ _ h => h

theorem wp_renameat (hexpected : Expected names identities)
    (hget : identities[index]? = some expected)
    (h : Round initial names identities index index expected entry (Standing expected entry) w) :
    wp (fun _ => True) ((renameat expected.name (conflictName index) : Removal names Bool).bind
        fun moved => if !moved then .done false else rewrite index expected.name expected.number)
      (returns fun _ => Restoring initial identities (index + 1) (index + 1)) w := by
  rw [wp_bind]
  refine wp_shared h (fun t _ => t.others_induct (Round.stable hexpected robust_standing))
    fun _ w' hw' => ?_
  have hname := hexpected.ne_conflict hget
  have hdir := hw'.restoring.directory
  have hconflict := hw'.restoring.free index (Nat.le_refl _)
  cases hlookup : w'.store.lookup expected.name with
  | none =>
    refine hw'.finish hget (Nat.le_succ _) fun after hF => ?_
    rw [← hF.1, hlookup] at hF
    cases hF.2
  | some node =>
    simp only [hconflict, Option.isSome_none, Bool.and_false, Bool.false_eq_true, if_false,
      andThen_done, Bool.not_true]
    refine wp_rewrite hexpected hget ⟨hw'.restoring.step (List.append_nil _).symm (Nat.le_succ _)
      ?_ List.prefix_rfl (fun other identity hlt hother => ⟨?_, ?_⟩) fun other hle => ?_,
      hw'.staged.step (List.append_nil _).symm fun after hF => ⟨?_, fun found hfound => ?_⟩⟩
    · rwa [Store.directory_withEntry, Store.directory_without]
    · rw [Store.lookup_withEntry_ne (hexpected.ne_conflict hother index).symm,
        Store.lookup_without_ne (hexpected.name_ne hget hother (Nat.ne_of_lt hlt))]
    · rw [Store.lookup_withEntry_ne fun heq => absurd (conflictName_inj heq) (Nat.ne_of_gt hlt),
        Store.lookup_without_ne (hname other)]
    · rw [Store.lookup_withEntry_ne fun heq => absurd (conflictName_inj heq) (Nat.ne_of_lt hle),
        Store.lookup_without_ne (hname other)]
    · rw [Store.lookup_withEntry_ne (hname index).symm, Store.lookup_without_self]
    · rw [Store.lookup_withEntry_self (by rwa [Store.directory_without]), ← hfound, ← hF.1, hlookup]

/-- A round settles its name. -/
theorem wp_restoreFile (hexpected : Expected names identities)
    (hget : identities[index]? = some expected) (h : Restoring initial identities index index w) :
    wp (fun _ => True) (restoreFile index expected expected.number : Removal names Bool)
      (returns fun _ => Restoring initial identities (index + 1) (index + 1)) w := by
  rw [restoreFile, wp_bind]
  refine wp_shared h (fun t _ => t.others_induct fun _ _ hwithin h => h.act hexpected hwithin)
    fun _ w₁ hw₁ => ?_
  rw [andThen_done, wp_bind]
  generalize hentry : w₁.store.lookup expected.name = entry
  have hround : Round initial names identities index index expected entry
      (fun _ s => s.lookup expected.name = entry)
      { w₁ with events := w₁.events ++ [.restoring index entry] } :=
    ⟨hw₁.step rfl (Nat.le_refl _) hw₁.directory List.prefix_rfl (fun _ _ _ _ => ⟨rfl, rfl⟩)
      fun _ _ => rfl, w₁.events, [], rfl, fun _ => hentry⟩
  refine wp_see (Round.stable hexpected (robust_entry entry)) hround fun w₂ hw₂ => ?_
  rw [andThen_done]
  split
  · rename_i hany
    obtain ⟨⟨number, file⟩, hmetadata, hmatches⟩ := (Option.any_eq_true _ _).mp hany
    obtain ⟨opened, hopened, hstat⟩ := Option.bind_eq_some_iff.mp hmetadata
    obtain ⟨found, hfile, hpair⟩ := Option.map_eq_some_iff.mp hstat
    cases hpair
    have horiginal := hentry.symm.trans (Store.openRegular_eq_some.mp hopened)
    exact hw₂.finish hget (Nat.le_succ _) fun after hF =>
      kept_of_matches hmatches hfile horiginal hF
  · rw [wp_bind]
    refine wp_see (Round.stable hexpected (robust_entry entry)) hw₂ fun w₃ hw₃ => ?_
    rw [andThen_done]
    cases hfound : w₃.store.lookup expected.name with
    | none =>
      refine wp_rewrite hexpected hget ⟨hw₃.restoring.step (List.append_nil _).symm
        (Nat.le_succ _) hw₃.restoring.directory List.prefix_rfl (fun _ _ _ _ => ⟨rfl, rfl⟩)
        fun _ _ => rfl, (hw₃.imp fun after hF => ⟨hfound, fun node hnode => ?_⟩).staged⟩
      rw [← hF, hfound] at hnode
      cases hnode
    | some node =>
      rw [wp_bind]
      have hstanding : Round initial names identities index index expected entry
          (Standing expected entry) w₃ :=
        hw₃.imp fun after hF => ⟨hF, by rw [← hF, hfound]; rfl⟩
      refine wp_see (Round.stable hexpected robust_standing) hstanding fun w₄ hw₄ => ?_
      rw [andThen_done, hw₄.restoring.free index (Nat.le_refl _), Option.isSome_none,
        if_neg Bool.false_ne_true]
      exact wp_renameat hexpected hget hw₄

/-- Every expected name is settled. -/
def Restored (initial : Store) (identities : List FileIdentity) (w : World) : Prop :=
  ∃ settled, identities.length ≤ settled ∧ Restoring initial identities settled settled w

/-- The rounds settle every name. -/
theorem wp_restoreExpectedFiles (hexpected : Expected names identities) {rest : List FileIdentity}
    (hrest : identities.drop index = rest) (h : Restoring initial identities index index w) :
    wp (fun _ => True) (restoreExpectedFiles index
        (rest.map fun identity => (identity, identity.number)) : Removal names Bool)
      (returns fun _ => Restored initial identities) w := by
  induction rest generalizing index w with
  | nil => exact ⟨index, List.drop_eq_nil_iff.mp hrest, h⟩
  | cons expected rest ih =>
    have hget : identities[index]? = some expected := by
      rw [← List.head?_drop, hrest, List.head?_cons]
    have hnext : identities.drop (index + 1) = rest := by
      rw [← List.tail_drop, hrest, List.tail_cons]
    rw [List.map_cons, restoreExpectedFiles]
    refine endsIn_bind (wp_restoreFile hexpected hget h) fun _ w' hw' => ?_
    exact endsIn_bind (ih hnext hw') fun _ _ => id

end RestoreFile

/-! ## The removal -/

section Removal

variable {initial : Store} {names : List Str} {identities : List FileIdentity} {w : World}
  {sha256 : Bytes → Str} {digests : Str → Option Str}

/-- An expected file was unlinked while its content was the acknowledged one. -/
def Unlinked (sha256 : Bytes → Str) (digests : Str → Option Str) (identity : FileIdentity)
    (w : World) : Prop :=
  ∃ content, Event.unlinked identity.name identity.number content ∈ w.events ∧
    digests identity.name = some (sha256 content)

theorem Unlinked.mono {identity : FileIdentity} {w' : World} {more : List Event}
    (h : Unlinked sha256 digests identity w) (hevents : w'.events = w.events ++ more) :
    Unlinked sha256 digests identity w' := by
  obtain ⟨content, hmem, hdigest⟩ := h
  exact ⟨content, by rw [hevents]; exact List.mem_append_left more hmem, hdigest⟩

/-- Before the restoration, when some files are unlinked. -/
def Unlinking (sha256 : Bytes → Str) (digests : Str → Option Str) (initial : Store)
    (identities unlinked : List FileIdentity) (w : World) : Prop :=
  Restoring initial identities 0 0 w ∧ ∀ identity ∈ unlinked, Unlinked sha256 digests identity w

theorem stable_unlinking (hexpected : Expected names identities) (unlinked : List FileIdentity) :
    Stable names (Unlinking sha256 digests initial identities unlinked) :=
  fun _ _ hwithin h => ⟨h.1.act hexpected hwithin, fun identity hmem => (h.2 identity hmem).mono rfl⟩

theorem provesCustody_eq_some {expected : FileIdentity} {s : Store} {content : Bytes}
    (h : provesCustody sha256 digests expected s = some content) :
    digests expected.name = some (sha256 content) := by
  obtain ⟨number, -, hnumber⟩ := Option.bind_eq_some_iff.mp h
  obtain ⟨file, -, hfile⟩ := Option.bind_eq_some_iff.mp hnumber
  split at hfile
  · rename_i hcustody
    rw [Bool.and_eq_true, decide_eq_true_eq] at hcustody
    rw [← Option.some.inj hfile]
    exact hcustody.2
  · cases hfile

/-- The loop goes on exactly when it unlinks the acknowledged content. -/
theorem wp_unlinkFiles (hexpected : Expected names identities) {rest unlinked : List FileIdentity}
    (hrest : unlinked ++ rest = identities)
    (h : Unlinking sha256 digests initial identities unlinked w) :
    wp (fun _ => True) (unlinkFiles sha256 digests rest : Removal names Bool)
      (returns fun all w' => Restoring initial identities 0 0 w' ∧
        (all = true → Unlinking sha256 digests initial identities identities w')) w := by
  induction rest generalizing unlinked w with
  | nil =>
    rw [List.append_nil] at hrest
    exact ⟨h.1, fun _ => hrest ▸ h⟩
  | cons expected rest ih =>
    rw [unlinkFiles, wp_bind]
    refine wp_shared h (fun t _ => t.others_induct (stable_unlinking hexpected unlinked))
      fun t w' hw' => ?_
    have hstop : ((false, w') : Bool × World).1 = true →
        Unlinking sha256 digests initial identities identities w' := nofun
    cases hcustody : provesCustody sha256 digests expected w'.store with
    | none => exact ⟨hw'.1, hstop⟩
    | some content =>
      cases ht : t.works with
      | false => exact ⟨hw'.1, hstop⟩
      | true =>
        simp only [if_true, andThen_done]
        have hmem : identities[unlinked.length]? = some expected := by
          rw [← hrest, List.getElem?_append_right (Nat.le_refl _), Nat.sub_self]
          rfl
        have hnext : (unlinked ++ [expected]) ++ rest = identities := by
          rwa [List.append_assoc]
        refine ih hnext ⟨?_, ?_⟩
        · refine hw'.1.step rfl (Nat.le_refl _) (by
            rw [Store.directory_without]
            exact hw'.1.directory) List.prefix_rfl (fun _ _ hlt => absurd hlt (Nat.not_lt_zero _))
            fun other _ => Store.lookup_without_ne (hexpected.ne_conflict hmem other)
        · intro identity hidentity
          rcases List.mem_append.mp hidentity with hidentity | hidentity
          · exact (hw'.2 identity hidentity).mono rfl
          · rw [List.mem_singleton.mp hidentity]
            exact ⟨content, List.mem_append_right _ (List.mem_singleton_self _),
              provesCustody_eq_some hcustody⟩

/-- Others alone have acted. -/
def Unchanged (initial : Store) (w : World) : Prop :=
  ∃ actions : List External, w.events = actions.map Event.external ∧
    w.store = actions.foldl (fun s action => action.apply s) initial

theorem Unchanged.act (h : Unchanged initial w) (action : External) :
    Unchanged initial (w.act action) := by
  obtain ⟨actions, hevents, hstore⟩ := h
  refine ⟨actions ++ [action], ?_, ?_⟩
  · rw [List.map_append, ← hevents]
    rfl
  · rw [List.foldl_append, ← hstore]
    rfl

theorem Unchanged.originals (h : Unchanged initial w) : Originals initial w := by
  obtain ⟨actions, hevents, hstore⟩ := h
  obtain ⟨store, events⟩ := w
  dsimp only at hevents hstore
  subst hevents hstore
  induction actions using List.reverseRecOn with
  | nil => exact fun number file hfile => .inl hfile
  | append_singleton actions action ih =>
    rw [List.foldl_append, List.map_append]
    exact ih.act action

/-- Before the first file is unlinked, when the segment was resolved. -/
def Prelude (initial : Store) (w : World) : Prop :=
  Unchanged initial w ∧ w.store.directory.isSome ∧
    ∀ index, w.store.lookup (conflictName index) = none

theorem stable_prelude (hplain : ∀ index, conflictName index ∉ names) :
    Stable names (Prelude initial) := by
  rintro w action hwithin ⟨hunchanged, hdir, hfree⟩
  refine ⟨hunchanged.act action, ?_, fun index => ?_⟩
  · rwa [World.act, External.directory_apply]
  · rw [World.act, External.lookup_apply (External.not_on_of_within hwithin (hplain index)),
      hfree index]

theorem wp_fileIdentities {P : World → Prop} (hP : Stable names P) {paths : List Str} (h : P w) :
    wp (fun _ => True) (fileIdentities paths : Removal names (Option (List FileIdentity)))
      (returns fun found w' => P w' ∧ ∀ identities, found = some identities →
        identities.map FileIdentity.name = paths) w := by
  induction paths generalizing w with
  | nil => exact ⟨h, fun identities heq => by cases heq; rfl⟩
  | cons name rest ih =>
    rw [fileIdentities, wp_bind]
    refine wp_look hP h (fun w' hw' => ⟨hw', nofun⟩) fun w' number hw' _ => ?_
    rw [andThen_done, wp_bind]
    refine wp_look hP hw' (fun w' hw' => ⟨hw', nofun⟩) fun w' file hw' _ => ?_
    refine endsIn_bind (ih hw') fun others w' hothers => ⟨hothers.1, fun identities heq => ?_⟩
    obtain ⟨found, hfound, rfl⟩ := Option.map_eq_some_iff.mp heq
    rw [List.map_cons, hothers.2 found hfound]

theorem wp_retainFiles {P : World → Prop} (hP : Stable names P) (identities : List FileIdentity)
    (h : P w) :
    wp (fun _ => True) (retainFiles identities : Removal names (Option (List ℕ)))
      (returns fun found w' => P w' ∧ ∀ retained, found = some retained →
        retained = identities.map FileIdentity.number ∧
          ∀ identity ∈ identities, identity.number < w'.store.files.length) w := by
  induction identities generalizing P w with
  | nil => exact ⟨h, fun retained heq => by cases heq; exact ⟨rfl, nofun⟩⟩
  | cons expected rest ih =>
    rw [retainFiles, wp_bind]
    refine wp_look hP h (fun w' hw' => ⟨hw', nofun⟩) fun w' number hw' _ => ?_
    rw [andThen_done, wp_bind]
    refine wp_look hP hw' (fun w' hw' => ⟨hw', nofun⟩) fun w' file hw' hfile => ?_
    rw [andThen_done]
    dsimp only
    split
    · exact ⟨hw', nofun⟩
    · rename_i hmatches
      rw [Bool.not_eq_true', Bool.not_eq_false, metadataMatches, Bool.and_eq_true,
        decide_eq_true_eq] at hmatches
      obtain ⟨rfl, -⟩ := hmatches
      have hheld : Stable names fun w => P w ∧ expected.number < w.store.files.length :=
        fun w action hwithin h =>
          ⟨hP w action hwithin h.1, Nat.lt_of_lt_of_le h.2 (External.length_apply _ _)⟩
      have hlt := (List.getElem?_eq_some_iff.mp hfile).1
      refine endsIn_bind (ih hheld ⟨hw', hlt⟩) fun others w' hothers => ?_
      refine ⟨hothers.1.1, fun retained heq => ?_⟩
      obtain ⟨found, hfound, rfl⟩ := Option.map_eq_some_iff.mp heq
      obtain ⟨hnumbers, hrest⟩ := hothers.2 found hfound
      exact ⟨by rw [hnumbers, List.map_cons], List.forall_mem_cons.mpr ⟨hothers.1.2, hrest⟩⟩

/-! ## What is resolved -/

theorem conflictName_not_exact (index : ℕ) : (exactComponent (conflictName index)).isSome = false := by
  rw [Bool.eq_false_iff]
  intro hexact
  have hcanonical := ((exactComponent_isSome_iff _).mp hexact).2.1
  have hcons : conflictName index = '.' :: ("retention-conflict-".toList ++ decimal index) := rfl
  rw [hcons, canonical_cons] at hcanonical
  cases hcanonical

/-- The names of a resolved segment differ, and none is a conflict name. -/
theorem resolveEntries_found {segment : Str} {entries : SegmentFiles ℕ} {paths : List Str}
    (h : resolveEntries segment entries.toList = .found paths) :
    paths.Nodup ∧ (∀ index, conflictName index ∉ paths) ∧
      ∀ index, entries[OsName.str (conflictName index)]? = none := by
  have hmembers : resolveMembers segment entries.toList = some paths := by
    unfold resolveEntries at h
    split at h
    · cases h
    · cases h
    · rename_i files hfiles
      rwa [← ResolvedSegmentFiles.found.inj h]
  rw [resolveMembers_eq] at hmembers
  split at hmembers
  · rename_i haccepts
    rw [List.all_eq_true] at haccepts
    have hexact : ∀ name (node : Node ℕ ℕ), entries[OsName.str name]? = some node →
        (exactComponent name).isSome = true := by
      intro name node hget
      have := haccepts _ (Table.mem_toList.mpr hget)
      rw [acceptsEntry, OsName.toStr_str, Bool.and_eq_true] at this
      exact this.2
    have hfree : ∀ index, entries[OsName.str (conflictName index)]? = none := by
      intro index
      cases hget : entries[OsName.str (conflictName index)]? with
      | none => rfl
      | some node =>
        have := hexact _ node hget
        rw [conflictName_not_exact] at this
        cases this
    rw [← Option.some.inj hmembers]
    refine ⟨?_, fun index hmem => ?_, hfree⟩
    · exact nodup_memberNames
    · obtain ⟨node, hnode⟩ := mem_memberNames.mp hmem
      rw [hfree] at hnode
      cases hnode
  · cases hmembers

/-! ## Every run -/

/-- What an answer of a removal says. -/
def Answers (sha256 : Bytes → Str) (digests : Str → Option Str) (initial : Store)
    (names : List Str) (identities : List FileIdentity) : RemovalResult → World → Prop
  | .removed, w => w.store.directory = none ∧ identities.map FileIdentity.name = names ∧
      ∀ identity ∈ identities, Unlinked sha256 digests identity w
  | .failed, w => identities.map FileIdentity.name = names ∧ Originals initial w ∧
      ∀ index identity, identities[index]? = some identity → Settled index identity w
  | .refused, w | .absent, w => Unchanged initial w

theorem Restored.answers (sha256 : Bytes → Str) (digests : Str → Option Str)
    (hexpected : Expected names identities) (h : Restored initial identities w) :
    Answers sha256 digests initial names identities .failed w := by
  obtain ⟨settled, hle, hrestoring⟩ := h
  refine ⟨hexpected.names_eq, hrestoring.originals, fun index identity hget => ?_⟩
  have hlt := (List.getElem?_eq_some_iff.mp hget).1
  exact hrestoring.settled index identity (Nat.lt_of_lt_of_le hlt hle) hget

/-- What follows the resolution of the expected names. -/
theorem wp_unlinkAndRemove (hexpected : Expected names identities)
    (h : Restoring initial identities 0 0 w) :
    wp (fun _ => True) ((unlinkFiles sha256 digests identities : Removal names Bool).bind
      fun unlinked =>
        if !unlinked then
          (restoreExpectedFiles 0 (identities.zip (identities.map FileIdentity.number))).bind
            fun _ => .done .failed
        else
          removeDirectory.bind fun removed =>
            if !removed then
              (restoreExpectedFiles 0 (identities.zip (identities.map FileIdentity.number))).bind
                fun _ => .done .failed
            else .done .removed)
      (returns (Answers sha256 digests initial names identities)) w := by
  have hzip : identities.zip (identities.map FileIdentity.number) =
      identities.map fun identity => (identity, identity.number) := by
    have hpairs : (identities.map id).zip (identities.map FileIdentity.number) = _ := List.zip_map'
    rwa [List.map_id] at hpairs
  have hrestore : ∀ w, Restoring initial identities 0 0 w →
      wp (fun _ => True) ((restoreExpectedFiles 0
        (identities.zip (identities.map FileIdentity.number)) : Removal names Bool).bind
          fun _ => .done .failed) (returns (Answers sha256 digests initial names identities)) w := by
    intro w hw
    rw [hzip]
    exact endsIn_bind (wp_restoreExpectedFiles hexpected List.drop_zero hw)
      fun _ w' hw' => hw'.answers sha256 digests hexpected
  refine endsIn_bind (wp_unlinkFiles hexpected (List.nil_append _) ⟨h, nofun⟩)
    fun unlinked w' hw' => ?_
  cases unlinked with
  | false => exact hrestore w' hw'.1
  | true =>
    rw [Bool.not_true, if_neg Bool.false_ne_true, wp_bind]
    refine wp_shared (hw'.2 rfl) (fun t _ => t.others_induct (stable_unlinking hexpected _))
      fun t w' hw' => ?_
    split
    · exact hrestore w' hw'.1
    · split
      · exact ⟨rfl, hexpected.names_eq, hw'.2⟩
      · exact hrestore w' hw'.1

theorem wp_deleteRevalidatedSegment (above : Above) (candidate : SegmentCandidate) :
    wp (fun _ => True)
      (deleteRevalidatedSegment sha256 digests above candidate names identities)
      (returns (Answers sha256 digests initial names identities)) ⟨initial, []⟩ := by
  rw [deleteRevalidatedSegment, resolveFiles, wp_bind]
  have hstart : Unchanged initial ⟨initial, []⟩ := ⟨[], rfl, rfl⟩
  refine wp_look (fun w action _ h => h.act action) hstart (fun w' hw' => hw')
    fun w' resolved hw' hresolved => ?_
  rw [andThen_done]
  split
  · exact hw'
  · rename_i paths hpaths
    obtain ⟨entries, hdir, hfound⟩ : ∃ entries, w'.store.directory = some entries ∧
        resolveEntries candidate.segment entries.toList = .found paths := by
      rw [hpaths, Option.some.injEq] at hresolved
      split at hresolved
      · cases hresolved
      · cases hresolved
      · cases hresolved
      · rename_i entries hdir
        exact ⟨entries, hdir, hresolved⟩
    obtain ⟨hnodup, hplain, hfree⟩ := resolveEntries_found hfound
    split
    · exact hw'
    · rename_i hsame
      obtain rfl : paths = names := not_not.mp hsame
      have hprelude : Prelude initial w' := by
        refine ⟨hw', by rw [hdir]; rfl, fun index => ?_⟩
        rw [Store.lookup, hdir, Option.bind_some, hfree]
      refine endsIn_bind (wp_fileIdentities (stable_prelude hplain) hprelude) fun found w' hw' => ?_
      split
      · exact hw'.1.1
      · rename_i hfound
        rw [not_not] at hfound
        have hexpected : Expected paths identities := ⟨hw'.2 identities hfound, hnodup, hplain⟩
        split
        · exact hw'.1.1
        · rw [wp_bind]
          refine wp_look (stable_prelude hplain) hw'.1 (fun w' hw' => hw'.1) fun w' _ hw' _ => ?_
          rw [andThen_done, Option.isNone_some, if_neg Bool.false_ne_true, wp_bind]
          refine wp_look (stable_prelude hplain) hw' (fun w' hw' => hw'.1) fun w' _ hw' _ => ?_
          rw [andThen_done, Option.isNone_some, if_neg Bool.false_ne_true]
          refine endsIn_bind (wp_retainFiles (stable_prelude hplain) identities hw')
            fun retained w' hw' => ?_
          split
          · exact hw'.1.1
          · obtain ⟨rfl, hheld⟩ := hw'.2 _ rfl
            obtain ⟨⟨hunchanged, hdir, hfree⟩, -⟩ := hw'
            exact wp_unlinkAndRemove hexpected ⟨hdir, fun index _ => hfree index, hheld,
              fun _ _ hlt => absurd hlt (Nat.not_lt_zero _), hunchanged.originals⟩
  · exact hw'

end Removal

/-- A removal is complete or is undone, whatever others do between its calls. -/
theorem segment_deletion (sha256 : Bytes → Str) (digests : Str → Option Str)
    (above : Above) (candidate : SegmentCandidate) (names : List Str)
    (identities : List FileIdentity) (initial : Store) (ts : List (RemovalTurn names)) :
    ∃ (answer : RemovalResult) (w : World),
      run ts (deleteRevalidatedSegment sha256 digests above candidate names identities)
        ⟨initial, []⟩ = (.done answer, w) ∧
      Answers sha256 digests initial names identities answer w := by
  have h : returns (Answers sha256 digests initial names identities)
      (run ts (deleteRevalidatedSegment sha256 digests above candidate names identities)
        ⟨initial, []⟩).1 _ :=
    wp_run (wp_deleteRevalidatedSegment above candidate) trivial fun _ _ => trivial
  rcases hrun : run ts (deleteRevalidatedSegment sha256 digests above candidate names identities)
    ⟨initial, []⟩ with ⟨ended, w⟩
  rw [hrun] at h
  cases ended with
  | done answer => exact ⟨answer, w, rfl, h⟩
  | raised e => cases h
  | killed => cases h

/-! ## Races with the restoration -/

/-- The name of a capture. -/
def soleName : Str := "tmux_a_screen.jsonl".toList

/-- A segment of one file. -/
def soleSegment : World :=
  ⟨⟨some ((∅ : SegmentFiles ℕ).insert (.str soleName) (.file 0)), [⟨[65], 0⟩]⟩, []⟩

/-- Its removal, when every content has the acknowledged digest. -/
def soleRemoval : Removal [soleName] RemovalResult :=
  deleteRevalidatedSegment (fun _ => []) (fun _ => some []) .found
    ⟨"20260701".toList, "s".toList, "120000_300".toList⟩ [soleName] [⟨soleName, 0, 1, 0⟩]

/-- Turns in which others do nothing. -/
def quietTurns (n : ℕ) : List (RemovalTurn [soleName]) := List.replicate n default

/-- A turn in which others do nothing and the call fails. -/
def failingTurn : RemovalTurn [soleName] := ⟨[], nofun, false⟩

/-- The file could not be unlinked. Others remove it once the restoration has seen it. -/
def removedAfterRound : List (RemovalTurn [soleName]) :=
  quietTurns 7 ++ [failingTurn, default, ⟨[.remove soleName], by simp [External.Within], true⟩]

/-- The directory could not be removed. Others create a file under the free name just before the
original content is put there. -/
def replacedBeforeInstall : List (RemovalTurn [soleName]) :=
  quietTurns 8 ++ [failingTurn] ++ quietTurns 5 ++
    [⟨[.replace soleName (.file ⟨[66], 1⟩)], by simp [External.Within], true⟩]

theorem restoration_races :
    ((run removedAfterRound soleRemoval soleSegment).1 = .done .failed ∧
      (run removedAfterRound soleRemoval soleSegment).2.store.lookup soleName = none) ∧
    (run replacedBeforeInstall soleRemoval soleSegment).1 = .done .failed ∧
      (run replacedBeforeInstall soleRemoval soleSegment).2.store.files[1]? = some ⟨[66], 1⟩ ∧
      ∀ name ∈ [soleName, conflictName 0],
        (run replacedBeforeInstall soleRemoval soleSegment).2.store.lookup name ≠ some (.file 1) := by
  decide

end SolstoneTmux
