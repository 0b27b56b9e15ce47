import SolstoneTmux.Recovery.Reading

/-!
# What the repairs leave

Recovery cuts the files of a segment to the lengths that `validateFiles` answers. None of these cuts
reaches into a line that recovery has to keep (`validateFiles_spares`): a session file keeps all its
terminated lines, the activity file those within its recorded offset.
-/

namespace SolstoneTmux

open Foundations

/-- `l` is the beginning of a member with content `b`, up to the end of a line that is to be kept:
any terminated line, and of the activity file only one within the recorded offset. -/
structure ToKeep (stem : Str) (recorded : ℕ) (name : OsName) (b l : Bytes) : Prop where
  isPrefix : l <+: b
  terminated : l.getLast? = some newline
  recorded : name = .str (activityFilename stem) → l.length ≤ recorded

/-- A repair cuts nothing off that is to be kept. -/
def Spares (stem : Str) (recorded : ℕ) (members : SegmentDir) (repair : FileRepair) : Prop :=
  ∀ b l, members[OsName.str repair.name]? = some (.file b) →
    ToKeep stem recorded (.str repair.name) b l → l.length ≤ repair.offset

theorem spares_of_completePart {stem : Str} {recorded : ℕ} {members : SegmentDir}
    {repair : FileRepair} {bytes : Bytes}
    (hfile : members[OsName.str repair.name]? = some (.file bytes))
    (h : (completePart newline bytes).length ≤ repair.offset) :
    Spares stem recorded members repair := by
  intro b l hb hl
  rw [hfile] at hb
  cases hb
  exact Nat.le_trans (isPrefix_completePart hl.isPrefix hl.terminated).length_le h

/-! ## Session files -/

/-- No line ends after an offset behind which there is no line feed. -/
theorem completePart_take {bytes : Bytes} {n : ℕ} (h : newline ∉ bytes.drop n) :
    completePart newline bytes = completePart newline (bytes.take n) := by
  conv_lhs => rw [← List.take_append_drop n bytes]
  exact completePart_append_of_not_mem h

/-- A session is repaired in its own file only, behind the last line. -/
theorem sessionRepairs_spares {decoder : Decoder} {stem : Str} {recorded : ℕ}
    {members : SegmentDir} {session : SessionMetadata} (h : SessionReads decoder members session) :
    ∀ r ∈ sessionRepairs members session, Spares stem recorded members r := by
  have hlines : completePart newline (sessionBytes members session) =
      recordedLines members session := completePart_take h.tail
  have hle : (recordedLines members session).length ≤ session.durableOffset := by
    rw [← recordedPart_length h.long]
    exact (completePart_isPrefix _).length_le
  have hspares : ∀ n, (recordedLines members session).length ≤ n →
      Spares stem recorded members ⟨session.filename, n⟩ := fun n hn =>
    spares_of_completePart h.file (by rwa [hlines])
  intro r hr
  rcases List.mem_append.mp hr with hr | hr
  · split at hr
    · rw [List.mem_singleton.mp hr]
      exact hspares _ (Nat.le_refl _)
    · cases hr
  · split at hr
    · rw [List.mem_singleton.mp hr]
      exact hspares _ hle
    · cases hr

theorem validateSessions_spares {decoder : Decoder} {stem : Str} {recorded : ℕ}
    {members : SegmentDir} {sessions : List SessionMetadata} {g g' : Gathered}
    (h : validateSessions decoder members sessions g = .ok g')
    (hg : ∀ r ∈ g.repairs, Spares stem recorded members r) :
    ∀ r ∈ g'.repairs, Spares stem recorded members r := by
  obtain ⟨hreads, rfl⟩ := validateSessions_iff.mp h
  intro r hr
  rcases List.mem_append.mp hr with hr | hr
  · exact hg r hr
  · obtain ⟨session, hs, hr⟩ := List.mem_flatMap.mp hr
    exact sessionRepairs_spares (hreads session hs) r hr

/-! ## The activity file -/

theorem spares_repairedActivity {stem : Str} {recorded : ℕ} {members : SegmentDir} {bytes : Bytes}
    (hfile : members[OsName.str (activityFilename stem)]? = some (.file bytes)) :
    Spares stem recorded members
      ⟨activityFilename stem, repairedActivityOffset (bytes.take recorded)⟩ := by
  intro b l hb hl
  obtain rfl : bytes = b := Node.file.inj (Option.some.inj (hfile.symm.trans hb))
  have hrecorded : l <+: bytes.take recorded :=
    List.prefix_take_iff.mpr ⟨hl.isPrefix, hl.recorded rfl⟩
  exact (isPrefix_completePart hrecorded hl.terminated).length_le

theorem validateActivity_spares {m : SegmentMetadata} {stem : Str} {members : SegmentDir}
    {g g' : Gathered} (h : validateActivity m stem members g = .ok g')
    (hg : ∀ r ∈ g.repairs, Spares stem m.activityDurableOffset members r) :
    ∀ r ∈ g'.repairs, Spares stem m.activityDurableOffset members r := by
  unfold validateActivity at h
  split at h
  · rename_i bytes hfile
    dsimp only at h
    split at h
    · cases h
    · split at h
      · cases h
        intro r hr
        rcases List.mem_append.mp hr with hr | hr
        · exact hg r hr
        · rw [List.mem_singleton.mp hr]
          exact spares_repairedActivity hfile
      · cases h
        exact hg
  · cases h
  · split at h
    · cases h
    · cases h
      exact hg

/-! ## All repairs -/

theorem validateIds_repairs {m : SegmentMetadata} {g : Gathered} {r : FileRepair}
    (h : r ∈ (validateIds m g).repairs) : r ∈ g.repairs := by
  unfold validateIds at h
  dsimp only at h
  split at h
  · cases h
  · split at h
    · cases h
    · split at h
      · cases h
      · exact h

/-- The repairs that validation answers cut off nothing that is to be kept. -/
theorem validateFiles_spares {decoder : Decoder} {listing : Listing} {members : SegmentDir}
    {m : SegmentMetadata} {r : FileRepair}
    (h : r ∈ (validateFiles decoder listing members m).repairs) :
    Spares (segmentStem m.incompleteDir) m.activityDurableOffset members r := by
  unfold validateFiles at h
  dsimp only at h
  split at h
  · cases h
  · split at h
    · cases h
    · rename_i g hsessions
      split at h
      · cases h
      · rename_i g' hactivity
        refine validateActivity_spares hactivity ?_ r (validateIds_repairs h)
        exact validateSessions_spares hsessions fun r hr => by cases hr

end SolstoneTmux
