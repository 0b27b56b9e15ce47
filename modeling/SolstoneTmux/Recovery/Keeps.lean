import SolstoneTmux.Recovery.Places

/-!
# Recovery loses nothing

Whatever a stream directory holds and wherever startup recovery is stopped, the lines it has to keep
are still there: `recoverStream_keeps`. The proof carries `Placed` through the calls of
`recoverCandidate`; recovery empties a file or removes one only where nothing was to be kept.
-/

namespace SolstoneTmux

open Foundations Foundations.Prog

/-! ## Calls that keep an invariant -/

section Calls

variable {A : Turn → Prop} {I : StreamDir → Prop} {d : StreamDir} {ε : Type}

theorem keeps_atomicWriteBytes {name : OsName} {content : Contents} (h : I d)
    (hnew : I (d.insert name (.file content))) :
    wp A (atomicWriteBytes name content) (endsIn I fun _ => I) d :=
  wp_atomicWriteBytes (fun _ => hnew) (fun _ _ => h) (fun _ _ _ => hnew) (fun _ => h)
    fun _ _ => hnew

theorem keeps_recoverySync {path : RelPath} (h : I d) :
    wp A (recoverySync path) (endsIn I fun _ => I) d :=
  endsIn_rethrow (endsIn_call_barrier h h)

theorem keeps_removeFile {err : IoKind → ε} {name : OsName} (h : I d) (hnew : I (d.erase name)) :
    wp A (call err (removeFile name)) (endsIn I fun _ => I) d := by
  have hafter : I (unlinked name d).2 := by
    unfold unlinked
    split
    · exact h
    · exact h
    · exact hnew
  exact endsIn_call_atomic h (fun _ _ => hafter) fun _ _ => hafter

theorem keeps_removeDir {err : IoKind → ε} {name : OsName} (h : I d) (hnew : I (d.erase name)) :
    wp A (call err (removeDir name)) (endsIn I fun _ => I) d := by
  have hafter : I (withoutDir name d).2 := by
    unfold withoutDir
    split
    · exact h
    · split
      · exact hnew
      · exact h
    · exact h
  exact endsIn_call_atomic h (fun _ _ => hafter) fun _ _ => hafter

theorem endsIn_entryExists {name : OsName} {P : Bool → StreamDir → Prop} (h : I d)
    (hP : P d[name]?.isSome d) : wp A (entryExists name) (endsIn I P) d := by
  refine endsIn_bind (P := fun r d' => d' = d ∧
    (r = .error .notFound ∧ d[name]? = none ∨ (∃ node, r = .ok node ∧ d[name]? = some node) ∨
      r = .error .other)) (endsIn_query h ⟨rfl, ?_⟩ fun _ => ⟨rfl, .inr (.inr rfl)⟩) ?_
  · cases hd : d[name]? with
    | none => exact .inl ⟨rfl, rfl⟩
    | some node => exact .inr (.inl ⟨node, rfl, rfl⟩)
  · rintro r d' ⟨rfl, ⟨rfl, hd⟩ | ⟨node, rfl, hd⟩ | rfl⟩
    · rw [hd] at hP
      exact hP
    · rw [hd] at hP
      exact hP
    · exact h

theorem endsIn_readMembers {operation : String} {segment : OsName}
    {P : SegmentDir → StreamDir → Prop} (h : I d)
    (hP : ∀ members, d[segment]? = some (.directory members) → P members d) :
    wp A (readMembers operation segment) (endsIn I P) d := by
  refine endsIn_call_query h fun members hr => hP members ?_
  cases hm : segmentMembers d segment with
  | none => simp [hm] at hr
  | some found =>
    simp only [hm, Except.ok.injEq] at hr
    exact segmentMembers_eq_some.mp (hr ▸ hm)

theorem keeps_setLen {err : IoKind → ε} {segment member : OsName} {offset : ℕ} (h : I d)
    (hnew : I (resizedMember segment member offset d).2) :
    wp A (call err (setLen segment member offset)) (endsIn I fun _ => I) d :=
  endsIn_call_atomic h (fun _ _ => hnew) fun _ _ => hnew

theorem keeps_barrier {err : IoKind → ε} (h : I d) :
    wp A (call err barrier) (endsIn I fun _ => I) d :=
  endsIn_call_barrier h h

theorem keeps_removeMember {err : IoKind → ε} {segment member : OsName} (h : I d)
    (hnew : ∀ members, I (d.insert segment (.directory members))) :
    wp A (call err (removeMember segment member)) (endsIn I fun _ => I) d := by
  have hafter : I (unlinkedMember segment member d).2 := by
    unfold unlinkedMember
    split
    · exact h
    · split
      · exact h
      · exact h
      · exact hnew _
  exact endsIn_call_atomic h (fun _ _ => hafter) fun _ _ => hafter

end Calls

/-! ## The parts of one candidate's recovery -/

section Parts

variable {A : Turn → Prop} {kept : OsName → Bytes → Prop} {stem : Str} {base d : StreamDir}

/-- Quarantine moves the directory to a free name, and back when its metadata cannot follow. -/
theorem quarantine_keeps {detail : String}
    (h : Placed kept stem base (.str (incompleteName stem)) d) :
    wp A (quarantine stem detail) (endsIn (Safe kept stem base) fun _ => Safe kept stem base) d := by
  have hsafe := h.safe .incomplete
  have hfree := attemptFree_firstFree d stem
  rw [attemptFree, Bool.and_eq_true, Option.isNone_iff_eq_none, Option.isNone_iff_eq_none] at hfree
  rw [quarantine]
  refine endsIn_bind (P := fun number d' => d' = d ∧ number = firstFree d stem)
    (endsIn_call_query hsafe ?_) ?_
  · rintro number ⟨⟩
    exact ⟨rfl, rfl⟩
  rintro number d ⟨rfl, hnumber⟩
  rw [← hnumber] at hfree
  have hplace : Place stem (failedName stem number) := .failed number
  have hne : OsName.str (failedName stem number) ≠ .str (failedMetaName stem number) :=
    str_ne (failedName_getLast? stem _) (failedMetaName_getLast? stem _) (by decide)
  have hincfailed : OsName.str (incompleteName stem) ≠ .str (failedName stem number) :=
    str_ne (incompleteName_getLast? stem) (failedName_getLast? stem _) (by decide)
  have hincmeta : OsName.str (incompleteName stem) ≠ .str (failedMetaName stem number) :=
    str_ne (incompleteName_getLast? stem) (failedMetaName_getLast? stem _) (by decide)
  have hnew : base[OsName.str (failedName stem number)]? = none :=
    h.framed.base_none hincfailed.symm (hplace.ne_meta stem) hfree.1
  refine endsIn_bind (P := fun r d' => d' = d ∧ r = d[OsName.str (incompleteName stem)]?.isSome)
    (endsIn_entryExists hsafe ⟨rfl, rfl⟩) ?_
  rintro sourceExists d ⟨rfl, hsource⟩
  refine endsIn_bind (P := fun _ d' => d' = d) (endsIn_entryExists hsafe rfl) ?_
  rintro metadataExists d rfl
  refine endsIn_bind (P := fun _ d' => d'[OsName.str (failedMetaName stem number)]? = none ∧
    Placed kept stem base (.str (failedName stem number)) d') ?_ ?_
  · cases hd : d[OsName.str (incompleteName stem)]? with
    | none =>
      rw [hd] at hsource
      subst hsource
      refine ⟨hfree.2, h.framed, .inl (h.held.resolve_right ?_)⟩
      rintro ⟨members, hmembers, -⟩
      rw [hd] at hmembers
      cases hmembers
    | some node =>
      rw [hd] at hsource
      subst hsource
      have hmoved := renamed_of_free hd hincfailed hfree.1
      have hplaced := h.move hd (.inl rfl) (.inr hfree.1)
      refine endsIn_call_atomic hsafe ?_ ?_
      · rw [hmoved]
        refine fun _ _ => ⟨?_, hplaced⟩
        rw [Table.get_insert_ne hne, Table.get_erase_ne hincmeta]
        exact hfree.2
      · rw [hmoved]
        exact fun _ _ => hplaced.safe hplace
  · rintro _ d₁ ⟨hfree₁, h₁⟩
    refine endsIn_bind (P := fun _ => Safe kept stem base) ?_ fun _ d₂ h₂ =>
      endsIn_bind (P := fun _ => Safe kept stem base) (keeps_recoverySync h₂) fun _ d₃ h₃ => h₃
    split
    · refine endsIn_bind (P := fun _ => Placed kept stem base (.str (failedName stem number)))
        (endsIn_atomic (h₁.safe hplace) ?_ fun _ => h₁) ?_
      · rcases renamed_cases (.str (incompleteMetaName stem)) (.str (failedMetaName stem number)) d₁
          with hsame | ⟨node, -, -, -, hmoved⟩
        · rw [hsame]
          exact h₁
        · rw [hmoved]
          exact h₁.move_meta (hplace.ne_meta stem) hne hfree₁
      · intro r d₂ h₂
        cases r with
        | ok _ => exact h₂.safe hplace
        | error kind =>
          refine endsIn_bind (P := fun _ => Safe kept stem base) ?_ fun _ d₃ h₃ => h₃
          split
          · refine endsIn_atomic (h₂.safe hplace) ?_ fun _ => h₂.safe hplace
            rcases renamed_cases (.str (failedName stem number)) (.str (incompleteName stem)) d₂
              with hsame | ⟨node, hnode, -, -, hmoved⟩
            · rw [hsame]
              exact h₂.safe hplace
            · rw [hmoved]
              exact (h₂.move hnode (.inr hnew) (.inl rfl)).safe .incomplete
          · exact h₂.safe hplace
    · exact h₁.safe hplace

/-- The source is where it was and the name it is to get is free. -/
def Ready (kept : OsName → Bytes → Prop) (stem : Str) (base : StreamDir) (finalized : Str)
    (d : StreamDir) : Prop :=
  Placed kept stem base (.str (incompleteName stem)) d ∧ d[OsName.str finalized]? = none

/-- After the rename only the zone record and the metadata change. -/
theorem finishRecovered_keeps {options : RecoveryOptions} {m : SegmentMetadata} {repaired : Bool}
    (h : Safe kept stem base d) :
    wp A (finishRecovered stem options m repaired)
      (endsIn (Safe kept stem base) fun _ => Safe kept stem base) d := by
  rw [finishRecovered]
  refine endsIn_bind (P := fun _ => Safe kept stem base) ?_ fun _ d₁ h₁ => ?_
  · split
    · exact h
    · exact keeps_recoverySync h
  obtain ⟨place, hplace, h₁⟩ := h₁
  refine endsIn_bind (P := fun _ => Safe kept stem base)
    (endsIn_rethrow (keeps_atomicWriteBytes (h₁.safe hplace)
      ((h₁.write_zone (hplace.ne_zone _) _).safe hplace))) fun _ d₂ h₂ => ?_
  obtain ⟨place, hplace, h₂⟩ := h₂
  refine endsIn_bind (P := fun _ => Safe kept stem base)
    (keeps_removeFile (h₂.safe hplace) ((h₂.erase_meta (hplace.ne_meta stem)).safe hplace))
    fun _ d₃ h₃ => ?_
  refine endsIn_bind (P := fun _ => Safe kept stem base) (keeps_recoverySync h₃) fun _ d₄ h₄ => ?_
  split
  · exact h₄
  · exact h₄

theorem finalizeRecovered_keeps {options : RecoveryOptions} {length : ℕ} {original : Contents}
    {m : SegmentMetadata} {repaired : Bool} (h : Ready kept stem base (finalizedName stem length) d) :
    wp A (finalizeRecovered stem options (finalizedName stem length) original m repaired)
      (endsIn (Safe kept stem base) fun _ => Safe kept stem base) d := by
  have hmeta : OsName.str (incompleteName stem) ≠ .str (incompleteMetaName stem) :=
    Place.incomplete.ne_meta stem
  have hne : OsName.str (incompleteMetaName stem) ≠ .str (finalizedName stem length) :=
    ((Place.finalized length).ne_meta stem).symm
  rw [finalizeRecovered]
  refine endsIn_bind (P := fun _ => Ready kept stem base (finalizedName stem length)) ?_ ?_
  · refine endsIn_mono (endsIn_rethrow (keeps_atomicWriteBytes h
      ⟨h.1.write_meta hmeta _, ?_⟩)) (fun d' h' => h'.1.safe .incomplete) fun _ _ h' => h'
    rw [Table.get_insert_ne hne]
    exact h.2
  rintro _ d₁ ⟨h₁, hfree⟩
  refine endsIn_bind (P := fun r d' => Safe kept stem base d' ∧
    (∀ k, r = .error k → Placed kept stem base (.str (incompleteName stem)) d'))
    (endsIn_atomic (h₁.safe .incomplete) ?_ fun _ => ⟨h₁.safe .incomplete, fun _ _ => h₁⟩) ?_
  · rcases renamed_cases (.str (incompleteName stem)) (.str (finalizedName stem length)) d₁
      with hsame | ⟨node, hnode, -, -, hmoved⟩
    · rw [hsame]
      exact ⟨h₁.safe .incomplete, fun _ _ => h₁⟩
    · rw [hmoved]
      exact ⟨(h₁.move hnode (.inl rfl) (.inr hfree)).safe (.finalized length), by rintro k ⟨⟩⟩
  · rintro r d₂ ⟨hsafe, herr⟩
    cases r with
    | ok _ => exact finishRecovered_keeps hsafe
    | error k =>
      have h₂ := herr k rfl
      refine endsIn_bind (P := fun _ => Safe kept stem base)
        (endsIn_rethrow (keeps_atomicWriteBytes hsafe ?_)) fun _ d₃ h₃ => h₃
      exact (h₂.write_meta hmeta _).safe .incomplete

theorem Ready.resize {length : ℕ} {member : OsName} {offset : ℕ}
    (h : Ready kept stem base (finalizedName stem length) d)
    (hspare : ∀ l, kept member l → l.length ≤ offset) :
    Ready kept stem base (finalizedName stem length)
      (resizedMember (.str (incompleteName stem)) member offset d).2 := by
  refine ⟨h.1.resize hspare, ?_⟩
  have hne := (closeNames stem length).finalized_incomplete
  unfold resizedMember setMember
  split
  · split
    · rw [Table.get_insert_ne hne.symm]
      exact h.2
    · exact h.2
  · exact h.2
  · exact h.2

/-- Cutting members of the source to lengths that spare what is to be kept. -/
theorem applyRepairs_keeps {options : RecoveryOptions} {length : ℕ} {repairs : List FileRepair}
    (h : Ready kept stem base (finalizedName stem length) d)
    (hspare : ∀ r ∈ repairs, ∀ l, kept (.str r.name) l → l.length ≤ r.offset) :
    wp A (applyRepairs (.str (incompleteName stem)) options repairs)
      (endsIn (Ready kept stem base (finalizedName stem length))
        fun _ => Ready kept stem base (finalizedName stem length)) d := by
  refine endsIn_forEach h fun r hr d' h' => ?_
  refine endsIn_bind (P := fun _ => Ready kept stem base (finalizedName stem length))
    (keeps_setLen h' (h'.resize (hspare r hr))) fun _ d'' h'' => ?_
  split
  · exact h''
  · exact keeps_barrier h''

/-- What recovery keeps of the segment that `kept` describes: every element ends a line, and of the
activity file it lies within the offset that `m` records. -/
def KeptBy (kept : OsName → Bytes → Prop) (stem : Str) (m : SegmentMetadata) : Prop :=
  ∀ name l, kept name l → l.getLast? = some newline ∧
    (name = .str (activityFilename stem) → l.length ≤ m.activityDurableOffset)

theorem KeptBy.ne_nil {m : SegmentMetadata} (h : KeptBy kept stem m) :
    ∀ name l, kept name l → l ≠ [] := by
  rintro name l hl rfl
  cases (h name [] hl).1

/-- The repairs that validation answers spare what is held. -/
theorem Placed.repairs_spare {decoder : Decoder} {listing : Listing} {m : SegmentMetadata}
    {members : SegmentDir} (h : Placed kept stem base (.str (incompleteName stem)) d)
    (hkept : KeptBy kept stem m) (hstem : segmentStem m.incompleteDir = stem)
    (hmembers : d[OsName.str (incompleteName stem)]? = some (.directory members)) :
    ∀ r ∈ (validateFiles decoder listing members m).repairs,
      ∀ l, kept (.str r.name) l → l.length ≤ r.offset := by
  intro r hr l hl
  rcases h.held with hnone | ⟨members', hmembers', hheld⟩
  · exact absurd hl (hnone _ _)
  · rw [hmembers] at hmembers'
    cases hmembers'
    obtain ⟨b, hb, hpre⟩ := hheld _ l hl
    refine validateFiles_spares hr b l hb ⟨hpre, (hkept _ l hl).1, ?_⟩
    rw [hstem]
    exact (hkept _ l hl).2

theorem validateAndFinalize_keeps {decoder : Decoder} {listing : Listing}
    {options : RecoveryOptions} {length : ℕ} {original : Contents} {m : SegmentMetadata}
    (h : Ready kept stem base (finalizedName stem length) d) (hkept : KeptBy kept stem m)
    (hstem : segmentStem m.incompleteDir = stem) (hfin : m.finalizedDir = finalizedName stem length) :
    wp A (validateAndFinalize decoder listing stem options original m)
      (endsIn (Safe kept stem base) fun _ => Safe kept stem base) d := by
  have hsafe := h.1.safe .incomplete
  rw [validateAndFinalize, hfin]
  refine endsIn_bind (P := fun validation d' => Ready kept stem base (finalizedName stem length) d' ∧
    ∀ r ∈ validation.repairs, ∀ l, kept (.str r.name) l → l.length ≤ r.offset)
    (endsIn_bind (endsIn_readMembers (P := fun members d' => d' = d ∧
      d[OsName.str (incompleteName stem)]? = some (.directory members)) hsafe fun members hm =>
        ⟨rfl, hm⟩) ?_) ?_
  · rintro members d ⟨rfl, hmembers⟩
    exact ⟨h, h.1.repairs_spare hkept hstem hmembers⟩
  · rintro validation d₁ ⟨h₁, hspare⟩
    split
    · exact quarantine_keeps h₁.1
    · exact finalizeRecovered_keeps h₁
    · refine endsIn_bind (endsIn_mono (applyRepairs_keeps h₁ hspare)
        (fun d' h' => h'.1.safe .incomplete) fun _ _ h' => h') fun _ d₂ h₂ => ?_
      exact finalizeRecovered_keeps h₂

/-- The activity file is emptied only where the metadata records nothing of it. -/
theorem truncateUncommittedActivityWriter_keeps {length : ℕ} {m : SegmentMetadata}
    (h : Ready kept stem base (finalizedName stem length) d) (hkept : KeptBy kept stem m)
    (hzero : m.activityDurableOffset = 0) :
    wp A (truncateUncommittedActivityWriter (.str (incompleteName stem)) stem)
      (endsIn (Ready kept stem base (finalizedName stem length))
        fun _ => Ready kept stem base (finalizedName stem length)) d := by
  have hspare : ∀ l, kept (.str (activityFilename stem)) l → l.length ≤ 0 := by
    intro l hl
    rw [← hzero]
    exact (hkept _ l hl).2 rfl
  rw [truncateUncommittedActivityWriter]
  refine endsIn_bind (P := fun _ => Ready kept stem base (finalizedName stem length))
    (endsIn_query h h fun _ => h) fun r d₁ h₁ => ?_
  cases r with
  | error kind => cases kind <;> exact h₁
  | ok node =>
    dsimp only
    split
    · exact h₁
    · exact endsIn_bind (keeps_setLen h₁ (h₁.resize hspare)) fun _ d₂ h₂ =>
        endsIn_bind (keeps_barrier h₂) fun _ d₃ h₃ => keeps_recoverySync h₃

theorem isEmptyFile_nil {members : SegmentDir} {name : OsName} {b : Bytes}
    (h : isEmptyFile members name = true) (hb : members[name]? = some (.file b)) : b = [] := by
  simpa [isEmptyFile, hb, Node.isFile, Node.memberLength] using h

/-- The files of a directory are removed only when all of them are empty. -/
theorem removeValidatedEmptyFiles_keeps {listing : Listing} {validated : List OsName}
    {length : ℕ} (h : Ready kept stem base (finalizedName stem length) d)
    (hne : ∀ name l, kept name l → l ≠ []) :
    wp A (removeValidatedEmptyFiles listing (.str (incompleteName stem)) validated)
      (endsIn (Safe kept stem base) fun removed d' => Framed stem base d' ∧
        ((∀ name l, ¬ kept name l) ∨ removed = false ∧ Safe kept stem base d')) d := by
  have hsafe := h.1.safe .incomplete
  rw [removeValidatedEmptyFiles]
  refine endsIn_bind (P := fun members d' => d' = d ∧
    d[OsName.str (incompleteName stem)]? = some (.directory members))
    (endsIn_readMembers hsafe fun members hm => ⟨rfl, hm⟩) ?_
  rintro members d ⟨rfl, hmembers⟩
  dsimp only
  split
  · exact ⟨h.1.framed, .inr ⟨rfl, hsafe⟩⟩
  · rename_i hall
    have hnone : ∀ name l, ¬ kept name l := by
      refine h.1.nothing_of_empty hne hmembers fun name b hb => ?_
      have hlisted : name ∈ listing.order members := by
        rw [listing.mem, hb]
        rfl
      simp only [Bool.or_eq_true, Bool.not_eq_true', not_or, Bool.not_eq_false,
        List.all_eq_true, Bool.and_eq_true] at hall
      exact isEmptyFile_nil (hall.1 name hlisted).2 hb
    refine endsIn_bind (P := fun _ => Framed stem base)
      (endsIn_mono (endsIn_forEach (I := Framed stem base) h.1.framed fun name _ d' h' =>
        keeps_removeMember h' fun _ => h'.insert_own (.inl rfl) _)
        (fun d' h' => safe_of_framed hnone h') fun _ _ h' => h') fun _ d₁ h₁ => ?_
    exact ⟨h₁, .inl hnone⟩

theorem removeConfirmedEmptySource_keeps {listing : Listing} {length : ℕ}
    (h : Ready kept stem base (finalizedName stem length) d)
    (hne : ∀ name l, kept name l → l ≠ []) :
    wp A (removeConfirmedEmptySource listing stem)
      (endsIn (Safe kept stem base) fun _ => Safe kept stem base) d := by
  have hsafe := h.1.safe .incomplete
  rw [removeConfirmedEmptySource]
  refine endsIn_bind (P := fun _ => Ready kept stem base (finalizedName stem length))
    (endsIn_bind (endsIn_readMembers (P := fun _ => Ready kept stem base (finalizedName stem length))
      hsafe fun _ _ => h) fun _ _ h' => h') fun validated d₁ h₁ => ?_
  cases validated with
  | none => exact quarantine_keeps h₁.1
  | some validated =>
    refine endsIn_bind (removeValidatedEmptyFiles_keeps h₁ hne) fun removed d₂ h₂ => ?_
    split
    · rename_i hremoved
      rcases h₂.2 with hnone | ⟨-, hsafe₂⟩
      · exact safe_of_framed hnone h₂.1
      · exact hsafe₂
    · rename_i hremoved
      have hnone := h₂.2.resolve_right fun hr => hremoved (by rw [hr.1]; rfl)
      refine endsIn_mono (I := Framed stem base) (P := fun _ => Framed stem base) ?_
        (fun _ h' => safe_of_framed hnone h') fun _ _ h' => safe_of_framed hnone h'
      refine endsIn_bind (keeps_removeDir h₂.1 (h₂.1.erase_own (.inl rfl))) fun _ d₃ h₃ => ?_
      refine endsIn_bind (keeps_removeFile h₃ (h₃.erase_own (.inr rfl))) fun _ d₄ h₄ => ?_
      exact endsIn_bind (keeps_recoverySync h₄) fun _ d₅ h₅ => h₅

theorem recoverSource_keeps {decoder : Decoder} {listing : Listing} {options : RecoveryOptions}
    {length : ℕ} {original : Contents} {m : SegmentMetadata}
    (h : Placed kept stem base (.str (incompleteName stem)) d) (hkept : KeptBy kept stem m)
    (hstem : segmentStem m.incompleteDir = stem) (hfin : m.finalizedDir = finalizedName stem length) :
    wp A (recoverSource decoder listing stem options original m)
      (endsIn (Safe kept stem base) fun _ => Safe kept stem base) d := by
  have hsafe := h.safe .incomplete
  rw [recoverSource, hfin]
  refine endsIn_bind (P := fun collision d' => d' = d ∧
    collision = d[OsName.str (finalizedName stem length)]?.isSome)
    (endsIn_entryExists hsafe ⟨rfl, rfl⟩) ?_
  rintro collision d ⟨rfl, hcollision⟩
  split
  · exact hsafe
  · rename_i hfree
    have hready : Ready kept stem base (finalizedName stem length) d := by
      refine ⟨h, ?_⟩
      rwa [hcollision, Option.isSome_iff_ne_none, not_not] at hfree
    split
    · exact hsafe
    · split
      · rename_i hempty
        have hzero : m.activityDurableOffset = 0 := by
          simp only [confirmsEmpty, Bool.and_eq_true, decide_eq_true_eq] at hempty
          exact hempty.1.2
        refine endsIn_bind (endsIn_mono (truncateUncommittedActivityWriter_keeps hready hkept hzero)
          (fun _ h' => h'.1.safe .incomplete) fun _ _ h' => h') fun _ d₁ h₁ => ?_
        refine endsIn_bind (P := fun _ => Ready kept stem base (finalizedName stem length))
          (endsIn_bind (endsIn_readMembers
            (P := fun _ => Ready kept stem base (finalizedName stem length))
            (h₁.1.safe .incomplete) fun _ _ => h₁) fun members d₂ h₂ =>
              endsIn_glance (h₂.1.safe .incomplete) h₂ fun _ => h₂) fun idActivity d₂ h₂ => ?_
        split
        · exact validateAndFinalize_keeps h₂ hkept hstem hfin
        · exact removeConfirmedEmptySource_keeps h₂ hkept.ne_nil
      · exact validateAndFinalize_keeps hready hkept hstem hfin

/-- Metadata without a source is removed, and the zone record written: no directory changes. -/
theorem recoverOrphan_keeps {decoder : Decoder} {listing : Listing} {m : SegmentMetadata}
    (h : Placed kept stem base (.str (incompleteName stem)) d) :
    wp A (recoverOrphan decoder listing stem m)
      (endsIn (Safe kept stem base) fun _ => Safe kept stem base) d := by
  have hmeta : OsName.str (incompleteName stem) ≠ .str (incompleteMetaName stem) :=
    Place.incomplete.ne_meta stem
  refine endsIn_mono (I := Placed kept stem base (.str (incompleteName stem)))
    (P := fun _ => Placed kept stem base (.str (incompleteName stem))) ?_
    (fun _ h' => h'.safe .incomplete) fun _ _ h' => h'.safe .incomplete
  rw [recoverOrphan]
  split
  · exact endsIn_bind (keeps_removeFile h (h.erase_meta hmeta)) fun _ d₁ h₁ =>
      endsIn_bind (keeps_recoverySync h₁) fun _ d₂ h₂ => h₂
  · refine endsIn_bind (P := fun _ => Placed kept stem base (.str (incompleteName stem)))
      (endsIn_query h h fun _ => h) fun entry d₁ h₁ => ?_
    split
    · exact h₁
    · refine endsIn_bind (P := fun _ => Placed kept stem base (.str (incompleteName stem)))
        (endsIn_bind (endsIn_readMembers
          (P := fun _ => Placed kept stem base (.str (incompleteName stem))) h₁ fun _ _ => h₁)
          fun _ _ h' => h') fun validation d₂ h₂ => ?_
      split
      · refine endsIn_bind (endsIn_rethrow (keeps_atomicWriteBytes h₂
          (h₂.write_zone (Place.incomplete.ne_zone _) _))) fun _ d₃ h₃ => ?_
        exact endsIn_bind (keeps_removeFile h₃ (h₃.erase_meta hmeta)) fun _ d₄ h₄ =>
          endsIn_bind (keeps_recoverySync h₄) fun _ d₅ h₅ => h₅
      · exact h₂
    · exact h₁

end Parts

/-! ## One candidate -/

theorem recordedActivity_of_get {decoder : Decoder} {d : StreamDir} {stem : Str}
    {content : Contents} {m : SegmentMetadata}
    (h : d[OsName.str (incompleteMetaName stem)]? = some (.file content))
    (hm : decoder.metadata content = some m) :
    recordedActivity decoder d stem = m.activityDurableOffset := by
  rw [recordedActivity, h]
  simp [hm]

theorem placed_start (decoder : Decoder) (base : StreamDir) (stem : Str) :
    Placed (MustKeep decoder base stem) stem base (.str (incompleteName stem)) base := by
  refine ⟨fun name _ _ => EntryKept.refl base name, ?_⟩
  cases hm : segmentMembers base (.str (incompleteName stem)) with
  | none =>
    refine .inl ?_
    rintro name l ⟨b, hb, -⟩
    rw [memberAt, hm] at hb
    cases hb
  | some members =>
    refine .inr ⟨members, segmentMembers_eq_some.mp hm, ?_⟩
    rintro name l ⟨b, hb, hl⟩
    rw [memberAt_of_members hm] at hb
    exact ⟨b, hb, hl.isPrefix⟩

theorem rejectSpecialTarget_keeps {A : Turn → Prop} {I : StreamDir → Prop} {d : StreamDir}
    {name : OsName} {isMeta : Bool} (h : I d) :
    wp A (rejectSpecialTarget name isMeta) (endsIn I fun _ d' => d' = d) d := by
  refine endsIn_bind (P := fun _ d' => d' = d) (endsIn_query h rfl fun _ => rfl) ?_
  rintro r d rfl
  cases r with
  | ok node =>
    dsimp only
    by_cases hkind : (if isMeta then node.isFile else node.isDir) = true
    · rw [if_pos hkind]
      rfl
    · rw [if_neg hkind]
      exact h
  | error kind =>
    cases kind with
    | notFound => rfl
    | other => exact h

/-- Recovering one candidate keeps its lines and everything else. -/
theorem recoverCandidate_keeps {A : Turn → Prop} (decoder : Decoder) (listing : Listing)
    (stem : Str) (options : RecoveryOptions) (segmentInterval : ℕ) (base : StreamDir) :
    wp A (recoverCandidate decoder listing stem options segmentInterval)
      (endsIn (Safe (MustKeep decoder base stem) stem base)
        fun _ => Safe (MustKeep decoder base stem) stem base) base := by
  have hstart := placed_start decoder base stem
  have hsafe := hstart.safe .incomplete
  rw [recoverCandidate]
  refine endsIn_bind (rejectSpecialTarget_keeps hsafe) ?_
  rintro _ base rfl
  refine endsIn_bind (rejectSpecialTarget_keeps hsafe) ?_
  rintro _ base rfl
  split
  · exact quarantine_keeps hstart
  refine endsIn_bind (P := fun r d' => d' = base ∧ ∀ content, r = .ok content →
    base[OsName.str (incompleteMetaName stem)]? = some (.file content))
    (endsIn_query hsafe ⟨rfl, ?_⟩ fun _ => ⟨rfl, by rintro content ⟨⟩⟩) ?_
  · intro content hr
    split at hr
    · cases hr
      assumption
    · cases hr
    · cases hr
  rintro r base ⟨rfl, hcontent⟩
  cases r with
  | error kind =>
    cases kind with
    | other => exact hsafe
    | notFound =>
      refine endsIn_bind (P := fun _ => Safe (MustKeep decoder base stem) stem base)
        (endsIn_glance hsafe hsafe fun _ => hsafe) fun _ d₁ h₁ => ?_
      refine endsIn_bind (P := fun _ => Safe (MustKeep decoder base stem) stem base)
        (endsIn_call_query h₁ fun _ _ => h₁) fun _ d₂ h₂ => h₂
  | ok content =>
    refine endsIn_bind (P := fun _ d' => d' = base) (endsIn_glance hsafe rfl fun _ => rfl) ?_
    rintro sourceExists base rfl
    split
    · exact quarantine_keeps hstart
    · rename_i m hm
      rw [Option.filter_eq_some_iff] at hm
      have hrecorded := recordedActivity_of_get (hcontent content rfl) hm.1
      split
      · have hstem := (consistent_of_metadataIsConsistent hm.2).segmentStem
        have hfin : (recordLength m m.elapsedNanos segmentInterval).finalizedDir =
            finalizedName stem
              (segmentLength m.elapsedNanos segmentInterval * nanosPerSecond) := by
          rw [recordLength, hstem]
        refine recoverSource_keeps hstart ?_ hstem hfin
        rintro name l ⟨b, -, hl⟩
        refine ⟨hl.terminated, fun hname => ?_⟩
        have := hl.recorded hname
        rwa [hrecorded] at this
      · exact recoverOrphan_keeps hstart

/-! ## One stream -/

theorem candidateStem_incompleteName (stem : Str) :
    candidateStem (incompleteName stem) = some stem := by
  rw [candidateStem, incompleteName, stripSuffix_append]

theorem candidateStem_incompleteMetaName (stem : Str) :
    candidateStem (incompleteMetaName stem) = some stem := by
  have hnone : stripSuffix ".incomplete".toList (incompleteMetaName stem) = none := by
    rw [stripSuffix_eq_none]
    intro t h
    exact str_ne (incompleteMetaName_getLast? stem) (incompleteName_getLast? t) (by decide)
      (by rw [h]; rfl)
  rw [candidateStem, hnone, incompleteMetaName]
  exact stripSuffix_append _ _

/-- What recovery has done to a stream directory when the stems of a list are still to come. -/
structure Swept (decoder : Decoder) (base : StreamDir) (stems : List Str) (d : StreamDir) : Prop
    where
  todo : ∀ stem ∈ stems, EntryKept base d (.str (incompleteName stem)) ∧
    EntryKept base d (.str (incompleteMetaName stem))
  lines : ∀ stem, LinesKept decoder base stem d
  entries : ∀ name, name.toStr.bind candidateStem = none → EntryKept base d name

theorem Swept.preserved {decoder : Decoder} {base d : StreamDir} {stems : List Str}
    (h : Swept decoder base stems d) : Preserved decoder base d :=
  ⟨h.lines, h.entries⟩

theorem swept_start (decoder : Decoder) (base : StreamDir) (stems : List Str) :
    Swept decoder base stems base where
  todo _ _ := ⟨EntryKept.refl base _, EntryKept.refl base _⟩
  lines stem := (placed_start decoder base stem).held.imp_right fun h => ⟨_, .incomplete, h⟩
  entries name _ := EntryKept.refl base name

/-- An open segment or its metadata is no zone record. -/
theorem EntryKept.get {base d : StreamDir} {name : Str} {c : Char}
    {node : Node Contents SegmentDir} (h : EntryKept base d (.str name))
    (hlast : name.getLast? = some c) (hc : c ≠ 'n') (hnode : base[OsName.str name]? = some node) :
    d[OsName.str name]? = some node := by
  rcases h node hnode with hd | ⟨⟨finalized, heq⟩, -⟩
  · exact hd
  · exact absurd heq (str_ne_captureTimePath hlast hc finalized)

/-- What is to be kept of a segment is to be kept while nothing has touched it. -/
theorem mustKeep_of_kept {decoder : Decoder} {base d : StreamDir} {stem : Str}
    (hinc : EntryKept base d (.str (incompleteName stem)))
    (hmeta : EntryKept base d (.str (incompleteMetaName stem))) {name : OsName} {l : Bytes}
    (h : MustKeep decoder base stem name l) : MustKeep decoder d stem name l := by
  obtain ⟨b, hb, hl⟩ := h
  obtain ⟨members, hmembers, hb⟩ := Option.bind_eq_some_iff.mp hb
  have hd := hinc.get (incompleteName_getLast? stem) (by decide)
    (segmentMembers_eq_some.mp hmembers)
  refine ⟨b, ?_, hl.isPrefix, hl.terminated, fun hname => ?_⟩
  · rw [memberAt_of_members (segmentMembers_eq_some.mpr hd)]
    exact hb
  · have hle := hl.recorded hname
    unfold recordedActivity at hle ⊢
    split at hle
    · rename_i content hcontent
      rw [hmeta.get (incompleteMetaName_getLast? stem) (by decide) hcontent]
      exact hle
    · omega

/-- Recovering one stem carries the account of the others over. -/
theorem Swept.round {decoder : Decoder} {base d d' : StreamDir} {stem : Str} {stems : List Str}
    (h : Swept decoder base (stem :: stems) d) (hnot : stem ∉ stems)
    (hsafe : Safe (MustKeep decoder d stem) stem d d') : Swept decoder base stems d' := by
  obtain ⟨place, hplace, hplaced⟩ := hsafe
  obtain ⟨hinc, hmeta⟩ := h.todo stem List.mem_cons_self
  have hother : ∀ name : Str, ∀ other, candidateStem name = some other → other ≠ stem →
      EntryKept d d' (.str name) := by
    intro name other hname hne
    refine hplaced.framed (.str name) ?_ ?_
    · intro heq
      rw [OsName.str.inj heq, candidateStem_incompleteName] at hname
      exact hne (Option.some.inj hname).symm
    · intro heq
      rw [OsName.str.inj heq, candidateStem_incompleteMetaName] at hname
      exact hne (Option.some.inj hname).symm
  refine ⟨fun other hmem => ?_, fun other => ?_, fun name hname => ?_⟩
  · have hne : other ≠ stem := by
      rintro rfl
      exact hnot hmem
    obtain ⟨hinc', hmeta'⟩ := h.todo other (List.mem_cons_of_mem _ hmem)
    exact ⟨hinc'.trans (hother _ other (candidateStem_incompleteName other) hne),
      hmeta'.trans (hother _ other (candidateStem_incompleteMetaName other) hne)⟩
  · by_cases hne : other = stem
    · subst hne
      rcases hplaced.held with hnone | ⟨members, hmembers, hheld⟩
      · exact .inl fun name l hl => hnone name l (mustKeep_of_kept hinc hmeta hl)
      · exact .inr ⟨place, hplace, members, hmembers,
          fun name l hl => hheld name l (mustKeep_of_kept hinc hmeta hl)⟩
    · refine (h.lines other).imp_right ?_
      rintro ⟨place', hplace', members, hmembers, hheld⟩
      refine ⟨place', hplace', members, ?_, hheld⟩
      rcases hplaced.framed (.str place') (hplace'.ne_incomplete hne) (hplace'.ne_meta stem) _
        hmembers with hd | ⟨⟨finalized, heq⟩, -⟩
      · exact hd
      · exact absurd heq (hplace'.ne_zone finalized)
  · refine (h.entries name hname).trans (hplaced.framed name ?_ ?_)
    · rintro rfl
      rw [OsName.toStr_str, Option.bind_some, candidateStem_incompleteName] at hname
      cases hname
    · rintro rfl
      rw [OsName.toStr_str, Option.bind_some, candidateStem_incompleteMetaName] at hname
      cases hname

theorem recoverStems_keeps {A : Turn → Prop} {decoder : Decoder} {listing : Listing}
    {options : RecoveryOptions} {segmentInterval : ℕ} {base d : StreamDir} {stems : List Str}
    (hnodup : stems.Nodup) (h : Swept decoder base stems d) :
    wp A (recoverStems decoder listing options segmentInterval stems)
      (endsIn (Preserved decoder base) fun _ => Preserved decoder base) d := by
  induction stems generalizing d with
  | nil => exact h.preserved
  | cons stem stems ih =>
    rw [List.nodup_cons] at hnodup
    refine endsIn_bind (endsIn_mono
      (recoverCandidate_keeps decoder listing stem options segmentInterval d)
      (fun d' h' => (h.round hnodup.1 h').preserved)
      fun _ d' h' => h.round hnodup.1 h') fun first d₁ h₁ => ?_
    exact endsIn_bind (ih hnodup.2 h₁) fun rest d₂ h₂ => h₂

theorem nodup_candidateStems (d : StreamDir) : (candidateStems d).Nodup :=
  (List.perm_insertionSort _ _).nodup_iff.mpr (List.nodup_dedup _)

/-- Startup recovery, whatever it finds and wherever it stops, keeps every terminated line of an
open segment's session files and every recorded line of its activity file under one of the
segment's names, and overwrites nothing else. -/
theorem recoverStream_keeps (decoder : Decoder) (listing : Listing) (options : RecoveryOptions)
    (segmentInterval : ℕ) (d : StreamDir) (ts : List Turn) :
    Preserved decoder d (run ts (recoverStream decoder listing options segmentInterval) d).2 := by
  have hstart := swept_start decoder d []
  refine endsIn_run (A := anyTurn) ?_ trivial fun _ _ => trivial
  refine endsIn_bind (P := fun _ d' => d' = d) (wp_call_barrier rfl (fun _ => hstart.preserved)
    fun _ => hstart.preserved) ?_
  rintro _ d rfl
  refine endsIn_bind (P := fun stems d' => d' = d ∧ stems.Nodup)
    (endsIn_call_query hstart.preserved ?_) ?_
  · rintro stems hstems
    cases hstems
    exact ⟨rfl, nodup_candidateStems d⟩
  · rintro stems d ⟨rfl, hnodup⟩
    exact recoverStems_keeps hnodup (swept_start decoder d stems)

end SolstoneTmux
