import SolstoneTmux.Recovery.Others

/-!
# How far a segment has come

A process that is killed leaves the entries of its segment at one of a few stages: nothing, the
metadata of a creation or of an empty segment, an open segment, a finalized directory whose metadata
was not yet removed, or a closed segment. `Remnant` lists these stages, with the log of what was
reported. No other segment's operations change the stage (`Remnant.undisturbed`), and recovery brings each
stage to an end: `Remnant.recovered` for one candidate and `recoverStream_finishes` for all that a
directory holds.
-/

namespace SolstoneTmux

open Foundations Foundations.Prog SegmentLog

/-! ## Names of a segment -/

/-- Of the names of a stem's segment a directory has at most these. -/
def NamesWithin (stem : Str) (names : List Str) (d : StreamDir) : Prop :=
  ∀ name, SegmentName stem name → d[OsName.str name]?.isSome = true → name ∈ names

namespace NamesWithin

variable {stem : Str} {names names' : List Str} {d : StreamDir}

theorem mono (h : NamesWithin stem names d) (hsub : names ⊆ names') : NamesWithin stem names' d :=
  fun name hname hsome => hsub (h name hname hsome)

theorem insert (h : NamesWithin stem names d) (name : Str) (node : Node Contents SegmentDir) :
    NamesWithin stem (name :: names) (d.insert (.str name) node) := by
  intro other hother hsome
  rw [Table.get_insert] at hsome
  split at hsome
  · rename_i heq
    rw [OsName.str.inj heq]
    exact List.mem_cons_self
  · exact List.mem_cons_of_mem _ (h other hother hsome)

theorem insert_mem (h : NamesWithin stem names d) {name : Str} (hname : name ∈ names)
    (node : Node Contents SegmentDir) : NamesWithin stem names (d.insert (.str name) node) :=
  (h.insert name node).mono (List.cons_subset.mpr ⟨hname, List.Subset.refl _⟩)

theorem erase (h : NamesWithin stem (names ++ [name]) d) :
    NamesWithin stem names (d.erase (.str name)) := by
  intro other hother hsome
  rw [Table.get_erase] at hsome
  split at hsome
  · cases hsome
  · rename_i hne
    refine (List.mem_append.mp (h other hother hsome)).resolve_right fun hmem => hne ?_
    rw [List.mem_singleton.mp hmem]

theorem get_none (h : NamesWithin stem names d) {name : Str} (hname : SegmentName stem name)
    (hnot : name ∉ names) : d[OsName.str name]? = none := by
  by_contra hsome
  exact hnot (h name hname (Option.isSome_iff_ne_none.mpr hsome))

end NamesWithin

/-- The entries of a segment are as they were, and it has no new one. -/
structure Undisturbed (stem : Str) (base d : StreamDir) : Prop where
  spared : Spared stem base d
  fresh : ∀ name, SegmentName stem name → d[OsName.str name]?.isSome = true →
    base[OsName.str name]?.isSome = true

namespace Undisturbed

variable {stem : Str} {base d d' : StreamDir}

theorem refl (stem : Str) (base : StreamDir) : Undisturbed stem base base :=
  ⟨Spared.refl stem base, fun _ _ h => h⟩

theorem trans (h : Undisturbed stem base d) (h' : Undisturbed stem d d') :
    Undisturbed stem base d' :=
  ⟨h.spared.trans h'.spared, fun name hname hsome => h.fresh name hname (h'.fresh name hname hsome)⟩

/-- An entry that has none of the segment's names. -/
theorem of_get (h : ∀ name, SegmentName stem name → d[OsName.str name]? = base[OsName.str name]?) :
    Undisturbed stem base d where
  spared :=
    { kept := fun name hname node hnode => .inl ((h name hname).trans hnode)
      fresh := fun name hname hsome => by rwa [← h name hname.segmentName] }
  fresh := fun name hname hsome => by rwa [← h name hname]

theorem within (h : Undisturbed stem base d) {names : List Str}
    (hwithin : NamesWithin stem names base) : NamesWithin stem names d :=
  fun name hname hsome => hwithin name hname (h.fresh name hname hsome)

end Undisturbed

/-- Only entries under names of a stem's segment differ. -/
def Apart (stem : Str) (base d : StreamDir) : Prop :=
  ∀ name, ¬ OwnName stem name → d[name]? = base[name]?

namespace Apart

variable {stem other : Str} {base d d' : StreamDir}

theorem refl (stem : Str) (base : StreamDir) : Apart stem base base := fun _ _ => rfl

theorem trans (h : Apart stem base d) (h' : Apart stem d d') : Apart stem base d' :=
  fun name hname => (h' name hname).trans (h name hname)

theorem insert (h : Apart stem base d) {name : Str} (hname : SegmentName stem name)
    (node : Node Contents SegmentDir) : Apart stem base (d.insert (.str name) node) := by
  intro other hother
  rw [Table.get_insert_ne, h other hother]
  rintro rfl
  exact hother hname.own

theorem erase (h : Apart stem base d) {name : Str} (hname : SegmentName stem name) :
    Apart stem base (d.erase (.str name)) := by
  intro other hother
  rw [Table.get_erase_ne, h other hother]
  rintro rfl
  exact hother hname.own

/-- What happens to one segment leaves the others alone. -/
theorem undisturbed (h : Apart stem base d) (hne : other ≠ stem)
    (hlength : other.length = stem.length) : Undisturbed other base d := by
  refine .of_get fun name hname => h (.str name) ?_
  rintro ⟨_, ⟨⟩, hown⟩
  exact hne (hname.stem_eq hown hlength)

end Apart

/-! ## Stages -/

/-- The segment of a stem is closed with a log: a directory under its name with a length of at most
the interval holds the log, its zone record is there, and nothing else is. -/
structure Delivered (stem : Str) (interval : ℕ) (log : SegmentLog) (d : StreamDir) (elapsed : ℕ)
    (members : SegmentDir) : Prop where
  holds : HoldsLog log stem members
  segment : d[OsName.str (closedName stem interval elapsed)]? = some (.directory members)
  zone : ∃ t, d[captureTimePath (closedName stem interval elapsed)]? =
    some (.file (.captureTime t))
  within : NamesWithin stem [closedName stem interval elapsed,
    closedName stem interval elapsed ++ ".zone.json".toList] d

/-- The segment of a stem whose log is empty has no entry, and one with a log is closed with it. -/
def Finished (stem : Str) (interval : ℕ) (log : SegmentLog) (d : StreamDir) : Prop :=
  (log = .empty ∧ NamesWithin stem [] d) ∨
    (log ≠ .empty ∧ ∃ elapsed members, Delivered stem interval log d elapsed members)

/-- What there is of the segment of a stem with a log when its process ends anywhere. -/
inductive Remnant (decoder : Decoder) (stem : Str) (interval : ℕ) (log : SegmentLog)
    (d : StreamDir) : Prop
  /-- The metadata of a creation, or of a segment to which nothing was appended. -/
  | stub {m : SegmentMetadata} (empty : log = .empty)
      (consistent : metadataIsConsistent m stem = true) (confirms : confirmsEmpty m = true)
      (source : d[OsName.str (incompleteName stem)]? = none ∨
        d[OsName.str (incompleteName stem)]? = some (.directory ∅))
      (metaFile : d[OsName.str (incompleteMetaName stem)]? = some (.file (.metadata m)))
      (within : NamesWithin stem [incompleteName stem, incompleteMetaName stem] d)
  | open_ {m : SegmentMetadata} {members : SegmentDir} (nonempty : log ≠ .empty)
      (disk : OnDisk decoder stem log m members d) (holds : HoldsLog log stem members)
      (within : NamesWithin stem [incompleteName stem, incompleteMetaName stem] d)
  /-- The directory has its final name, and the metadata is still there. -/
  | renamed {m : SegmentMetadata} {members : SegmentDir} {elapsed : ℕ} (nonempty : log ≠ .empty)
      (wellFormed : log.WellFormed decoder) (metadata : MetadataOf log stem m)
      (recorded : m.finalizedDir = finalizedName stem m.elapsedNanos)
      (name : m.finalizedDir = closedName stem interval elapsed)
      (holds : HoldsLog log stem members)
      (source : d[OsName.str (incompleteName stem)]? = none)
      (metaFile : d[OsName.str (incompleteMetaName stem)]? = some (.file (.metadata m)))
      (segment : d[OsName.str m.finalizedDir]? = some (.directory members))
      (plain : PlainTarget d (captureTimePath m.finalizedDir))
      (within : NamesWithin stem [m.finalizedDir, m.finalizedDir ++ ".zone.json".toList,
        incompleteMetaName stem] d)
  | finished (finished : Finished stem interval log d)

section Names

variable {stem : Str} {m : SegmentMetadata} {members : SegmentDir} {d : StreamDir}

theorem NamesWithin.renamedDir (h : NamesWithin stem [incompleteName stem, incompleteMetaName stem] d) :
    NamesWithin stem [m.finalizedDir, m.finalizedDir ++ ".zone.json".toList, incompleteMetaName stem]
      (renamedDir stem m members (createdMeta stem m d)) := by
  have hmeta : NamesWithin stem ([incompleteMetaName stem] ++ [incompleteName stem])
      (createdMeta stem m d) :=
    (h.insert_mem (by simp) _).mono (by simp)
  exact (hmeta.erase.insert _ _).mono (by simp)

theorem NamesWithin.settled
    (h : NamesWithin stem [m.finalizedDir, m.finalizedDir ++ ".zone.json".toList,
      incompleteMetaName stem] d) :
    NamesWithin stem [m.finalizedDir, m.finalizedDir ++ ".zone.json".toList]
      ((zonedDir m d).erase (.str (incompleteMetaName stem))) := by
  have hzoned : NamesWithin stem ([m.finalizedDir, m.finalizedDir ++ ".zone.json".toList] ++
      [incompleteMetaName stem]) (zonedDir m d) :=
    h.insert_mem (by simp) _
  exact hzoned.erase

end Names

section Undisturbed

variable {decoder : Decoder} {stem : Str} {interval elapsed : ℕ} {log : SegmentLog}
  {members : SegmentDir} {base d : StreamDir}

theorem Delivered.undisturbed (h : Delivered stem interval log base elapsed members)
    (hd : Undisturbed stem base d) : Delivered stem interval log d elapsed members where
  holds := h.holds
  segment := (hd.spared.get_finalized _).trans h.segment
  zone := by
    obtain ⟨t, ht⟩ := h.zone
    rcases hd.spared.kept _ (.zone _) _ ht with hkept | ⟨-, t', hkept⟩
    · exact ⟨t, hkept⟩
    · exact ⟨t', hkept⟩
  within := hd.within h.within

theorem Finished.undisturbed (h : Finished stem interval log base) (hd : Undisturbed stem base d) :
    Finished stem interval log d := by
  rcases h with ⟨hempty, hwithin⟩ | ⟨hne, elapsed, members, hdelivered⟩
  · exact .inl ⟨hempty, hd.within hwithin⟩
  · exact .inr ⟨hne, elapsed, members, hdelivered.undisturbed hd⟩

theorem Remnant.undisturbed (h : Remnant decoder stem interval log base)
    (hd : Undisturbed stem base d) : Remnant decoder stem interval log d := by
  have hinc := hd.spared.get_incomplete
  have hmeta := hd.spared.get_meta
  cases h with
  | stub empty consistent confirms source metaFile within =>
    exact .stub empty consistent confirms (by rwa [hinc]) (hmeta.trans metaFile) (hd.within within)
  | open_ nonempty disk holds within =>
    exact .open_ nonempty (disk.of_spared hd.spared) holds (hd.within within)
  | renamed nonempty wellFormed metadata recorded name holds source metaFile segment plain within =>
    refine .renamed nonempty wellFormed metadata recorded name holds (hinc.trans source)
      (hmeta.trans metaFile) ?_ ?_ (hd.within within)
    · rw [name] at segment ⊢
      exact (hd.spared.get_finalized _).trans segment
    · rw [name] at plain ⊢
      exact hd.spared.plainTarget plain
  | finished h => exact .finished (h.undisturbed hd)

/-- Of a segment without entries nothing was reported. -/
theorem Remnant.log_eq_empty (h : Remnant decoder stem interval log d)
    (hnone : NamesWithin stem [] d) : log = .empty := by
  have habsent {name : Str} {node : Node Contents SegmentDir} (hname : SegmentName stem name)
      (hnode : d[OsName.str name]? = some node) : False := by
    rw [hnone.get_none hname List.not_mem_nil] at hnode
    cases hnode
  cases h with
  | stub empty => exact empty
  | open_ nonempty disk => exact (habsent .incomplete disk.source).elim
  | renamed _ _ _ _ _ _ _ metaFile => exact (habsent .incompleteMeta metaFile).elim
  | finished h =>
    rcases h with ⟨hempty, -⟩ | ⟨-, elapsed, members, hdelivered⟩
    · exact hempty
    · exact (habsent (.finalized _) hdelivered.segment).elim

/-- A segment that is finished is no candidate of recovery. -/
theorem Finished.not_candidate (h : Finished stem interval log d) :
    d[OsName.str (incompleteName stem)]? = none ∧
      d[OsName.str (incompleteMetaName stem)]? = none := by
  rcases h with ⟨-, hwithin⟩ | ⟨-, elapsed, members, hdelivered⟩
  · exact ⟨hwithin.get_none .incomplete List.not_mem_nil,
      hwithin.get_none .incompleteMeta List.not_mem_nil⟩
  · have names : CloseNames stem (closedName stem interval elapsed) := closeNames _ _
    refine ⟨hdelivered.within.get_none .incomplete fun hmem => ?_,
      hdelivered.within.get_none .incompleteMeta fun hmem => ?_⟩
    · rcases List.mem_pair.mp hmem with heq | heq
      · exact names.finalized_incomplete (congrArg OsName.str heq.symm)
      · exact names.zone_incomplete (congrArg OsName.str heq.symm)
    · rcases List.mem_pair.mp hmem with heq | heq
      · exact names.finalized_meta (congrArg OsName.str heq.symm)
      · exact names.zone_meta (congrArg OsName.str heq.symm)

/-- What is no candidate of recovery is finished. -/
theorem Remnant.finished_of_not_candidate (h : Remnant decoder stem interval log d)
    (hmeta : d[OsName.str (incompleteMetaName stem)]? = none) : Finished stem interval log d := by
  have habsent {node : Node Contents SegmentDir}
      (hnode : d[OsName.str (incompleteMetaName stem)]? = some node) : False := by
    rw [hmeta] at hnode
    cases hnode
  cases h with
  | stub _ _ _ _ metaFile => exact (habsent metaFile).elim
  | open_ _ disk => exact (habsent disk.metaFile).elim
  | renamed _ _ _ _ _ _ _ metaFile => exact (habsent metaFile).elim
  | finished h => exact h

end Undisturbed

/-! ## Recovery of a stage -/

section Recovery

variable {decoder : Decoder} {listing : Listing} {stem : Str} {interval elapsed : ℕ}
  {log : SegmentLog} {m : SegmentMetadata} {members : SegmentDir} {d : StreamDir}

/-- Recovery of a stem with consistent metadata. -/
theorem run_recoverCandidate_consistent (hstem : validTimeName stem = true)
    (hconsistent : metadataIsConsistent m stem = true)
    (hsource : ∀ node, d[OsName.str (incompleteName stem)]? = some node → node.isDir = true)
    (hmeta : d[OsName.str (incompleteMetaName stem)]? = some (.file (.metadata m))) :
    run [] (recoverCandidate decoder listing stem .default interval) d =
      run [] (if d[OsName.str (incompleteName stem)]?.any Node.isDir = true then
          recoverSource decoder listing stem .default (.metadata m)
            (recordLength m m.elapsedNanos interval)
        else recoverOrphan decoder listing stem m) d := by
  have hdir : run [] (rejectSpecialTarget (.str (incompleteName stem)) false) d = (.done (), d) :=
    run_rejectSpecialTarget fun node hnode => hsource node hnode
  have hfile : run [] (rejectSpecialTarget (.str (incompleteMetaName stem)) true) d =
      (.done (), d) :=
    run_rejectSpecialTarget fun node hnode => by
      rw [hmeta] at hnode
      cases hnode
      rfl
  have hshape : ((exactComponent stem).isNone || !validTimeName stem) = false := by
    rw [hstem, Bool.not_true, Bool.or_false, Option.isNone_eq_false_iff]
    exact exactComponent_stem hstem
  have hread : (decoder.metadata (.metadata m)).filter (metadataIsConsistent · stem) = some m := by
    rw [Decoder.metadata, Option.filter_some, hconsistent, if_pos rfl]
  rw [recoverCandidate, run_bind, hdir, quietThen_done, run_bind, hfile, quietThen_done, hshape,
    if_neg (by simp), run_bind, run_readFile hmeta, quietThen_done]
  dsimp only
  rw [run_bind, run_isDirectory, quietThen_done, hread]

/-- A stub without its directory loses its metadata. -/
theorem run_recoverOrphan_stub (hconfirms : confirmsEmpty m = true) {c : Contents}
    (hmeta : d[OsName.str (incompleteMetaName stem)]? = some (.file c)) :
    ∃ record, run [] (recoverOrphan decoder listing stem m) d =
      (.done record, d.erase (.str (incompleteMetaName stem))) := by
  refine ⟨⟨[.str (incompleteName stem)], .remove, "removed orphan creating metadata"⟩, ?_⟩
  rw [recoverOrphan, if_pos (by simp [hconfirms]), run_bind, removeFile,
    run_call_atomic (unlinked_of_file hmeta)]
  rfl

/-- An empty directory lists nothing. -/
theorem Listing.order_empty (listing : Listing) : listing.order ∅ = [] := by
  refine List.eq_nil_iff_forall_not_mem.mpr fun name hname => ?_
  have := (listing.mem ∅ name).mp hname
  rw [Table.get_empty] at this
  cases this

/-- A stub with an empty directory is removed. -/
theorem run_recoverSource_stub (original : Contents) (hconfirms : confirmsEmpty m = true)
    (hfree : d[OsName.str m.finalizedDir]? = none) {c : Contents}
    (hsource : d[OsName.str (incompleteName stem)]? = some (.directory ∅))
    (hmeta : d[OsName.str (incompleteMetaName stem)]? = some (.file c)) :
    ∃ record, run [] (recoverSource decoder listing stem .default original m) d =
      (.done record,
        (d.erase (.str (incompleteName stem))).erase (.str (incompleteMetaName stem))) := by
  have hnoMember : (∅ : SegmentDir)[OsName.str (activityFilename stem)]? = none := Table.get_empty _
  have htruncate : run [] (truncateUncommittedActivityWriter (.str (incompleteName stem)) stem) d =
      (.done (), d) := by
    rw [truncateUncommittedActivityWriter, memberMetadata, run_bind, run_query, quietThen_done,
      memberAt_of_members (segmentMembers_eq_some.mpr hsource), hnoMember]
    rfl
  have hidle : run [] (hasNonemptyIdActivityFile listing (.str (incompleteName stem)) stem) d =
      (.done false, d) := by
    rw [hasNonemptyIdActivityFile, run_bind, run_readMembers hsource, quietThen_done, run_glance,
      listing.order_empty]
    rfl
  have hempty : AllEmpty ∅ := by
    intro name node hnode
    rw [Table.get_empty] at hnode
    cases hnode
  obtain ⟨record, -, hremove⟩ := run_removeConfirmedEmptySource listing hempty hsource hmeta
  refine ⟨record, ?_⟩
  rw [recoverSource, run_bind, run_entryExists, quietThen_done, RecoveryOptions.default, hfree,
    if_neg (by simp), if_neg (by simp), if_pos hconfirms, run_bind, htruncate, quietThen_done,
    run_bind, hidle, quietThen_done, if_neg (by simp), hremove]

/-- A segment whose directory has its final name gets its zone record and loses its metadata. -/
theorem run_recoverOrphan_renamed (hstem : validTimeName stem = true) (hne : log ≠ .empty)
    (hlog : log.WellFormed decoder) (hm : MetadataOf log stem m) (hholds : HoldsLog log stem members)
    (names : CloseNames stem m.finalizedDir) {c : Contents}
    (hmeta : d[OsName.str (incompleteMetaName stem)]? = some (.file c))
    (hsegment : d[OsName.str m.finalizedDir]? = some (.directory members))
    (hplain : PlainTarget d (captureTimePath m.finalizedDir)) :
    ∃ record, run [] (recoverOrphan decoder listing stem m) d =
      (.done record, (zonedDir m d).erase (.str (incompleteMetaName stem))) := by
  have hnonempty : ¬ (m.lifecycle = .creating || confirmsEmpty m) = true := by
    rw [Bool.or_eq_true, decide_eq_true_eq, not_or]
    exact ⟨hm.started, fun h => hne ((confirmsEmpty_of_log hm).mp h)⟩
  have hexact : (validateFiles decoder listing members m).kind = .exact := by
    have hnil : tornRepairs m stem (fun _ => []) [] = [] :=
      List.eq_nil_iff_forall_not_mem.mpr fun r hr => by
        rcases mem_tornRepairs.mp hr with ⟨_, _, hbad, _⟩ | ⟨hbad, _⟩ <;> exact hbad rfl
    rw [validateFiles_of_with listing hstem hlog hm hholds, hnil]
    rfl
  have hzoned : (zonedDir m d)[OsName.str (incompleteMetaName stem)]? = some (.file c) := by
    rw [zonedDir, Table.get_insert_ne names.zone_meta, hmeta]
  refine ⟨⟨[.str m.finalizedDir], .remove, "removed metadata left after finalized rename"⟩, ?_⟩
  rw [recoverOrphan, if_neg hnonempty, run_bind, symlinkMetadata, run_query, quietThen_done,
    hsegment]
  dsimp only
  rw [run_bind, validateDirectory, run_bind, run_readMembers hsegment, quietThen_done, run_done,
    quietThen_done, if_pos hexact, run_bind, run_rethrow, run_writeCaptureTime hplain, mapRaised,
    quietThen_done, run_bind, removeFile, run_call_atomic (unlinked_of_file hzoned)]
  rfl

/-- **Recovery finishes a segment at any stage.** -/
theorem Remnant.recovered (hstem : validTimeName stem = true)
    (h : Remnant decoder stem interval log d)
    (hcandidate : d[OsName.str (incompleteName stem)]? ≠ none ∨
      d[OsName.str (incompleteMetaName stem)]? ≠ none) :
    ∃ record d', run [] (recoverCandidate decoder listing stem .default interval) d =
      (.done record, d') ∧ Finished stem interval log d' := by
  cases h with
  | @stub m empty consistent confirms source metaFile within =>
    have hdir : ∀ node, d[OsName.str (incompleteName stem)]? = some node → node.isDir = true := by
      intro node hnode
      rcases source with hnone | hsome
      · rw [hnone] at hnode
        cases hnode
      · rw [hsome] at hnode
        cases hnode
        rfl
    rw [run_recoverCandidate_consistent hstem consistent hdir metaFile]
    have hgone {d' : StreamDir} (hwithin : NamesWithin stem [] d') : Finished stem interval log d' :=
      .inl ⟨empty, hwithin⟩
    rcases source with hnone | hsome
    · rw [hnone, if_neg (by simp)]
      obtain ⟨record, hrun⟩ : ∃ record, run [] (recoverOrphan decoder listing stem m) d =
          (.done record, d.erase (.str (incompleteMetaName stem))) :=
        run_recoverOrphan_stub confirms metaFile
      refine ⟨record, _, hrun, hgone fun name hname hsome => ?_⟩
      rw [Table.get_erase] at hsome
      split at hsome
      · cases hsome
      · rename_i hne
        rcases List.mem_pair.mp (within name hname hsome) with rfl | rfl
        · rw [hnone] at hsome
          cases hsome
        · exact absurd rfl hne
    · rw [hsome, if_pos (by rfl)]
      have hname : (recordLength m m.elapsedNanos interval).finalizedDir =
          closedName stem interval m.elapsedNanos := by
        have hinc : m.incompleteDir = incompleteName stem := by
          simp only [metadataIsConsistent, Bool.and_eq_true, decide_eq_true_eq] at consistent
          tauto
        exact (lengthOf_recordLength hinc m.elapsedNanos interval).finalized
      have names := closeNames stem
        (segmentLength m.elapsedNanos interval * nanosPerSecond)
      have hfree : d[OsName.str (recordLength m m.elapsedNanos interval).finalizedDir]? = none := by
        rw [hname]
        refine within.get_none (.finalized _) fun hmem => ?_
        rcases List.mem_pair.mp hmem with heq | heq
        · exact names.finalized_incomplete (congrArg OsName.str heq)
        · exact names.finalized_meta (congrArg OsName.str heq)
      obtain ⟨record, hrun⟩ : ∃ record, run [] (recoverSource decoder listing stem .default
            (.metadata m) (recordLength m m.elapsedNanos interval)) d =
          (.done record,
            (d.erase (.str (incompleteName stem))).erase (.str (incompleteMetaName stem))) :=
        run_recoverSource_stub _ confirms hfree hsome metaFile
      have hwithin : NamesWithin stem ([incompleteMetaName stem] ++ [incompleteName stem]) d :=
        within.mono (by simp)
      exact ⟨record, _, hrun, hgone (hwithin.erase).erase⟩
  | @open_ m members nonempty disk holds within =>
    have hfree (elapsed : ℕ) : d[OsName.str (closedName stem interval elapsed)]? = none := by
      have names := closeNames stem (segmentLength elapsed interval * nanosPerSecond)
      refine within.get_none (.finalized _) fun hmem => ?_
      rcases List.mem_pair.mp hmem with heq | heq
      · exact names.finalized_incomplete (congrArg OsName.str heq)
      · exact names.finalized_meta (congrArg OsName.str heq)
    have hrecovered : Recovered stem interval log d
        (run [] (recoverCandidate decoder listing stem .default interval) d) :=
      disk.recovered hstem (by rw [if_neg nonempty]; exact ⟨_, _, holds⟩)
    generalize run [] (recoverCandidate decoder listing stem .default interval) d = r at hrecovered
    cases hrecovered with
    | @finalized m' members' elapsed _ name free holds' closes =>
      have names : CloseNames stem m'.finalizedDir := name ▸ closeNames _ _
      have hnoZone : d[captureTimePath m'.finalizedDir]? = none := by
        rw [name]
        refine within.get_none (.zone _) fun hmem => ?_
        rw [← name] at hmem
        rcases List.mem_pair.mp hmem with heq | heq
        · exact names.zone_incomplete (congrArg OsName.str heq)
        · exact names.zone_meta (congrArg OsName.str heq)
      have hplain : PlainTarget (d.insert (.str (incompleteName stem)) (.directory members'))
          (captureTimePath m'.finalizedDir) := by
        intro node hnode
        rw [Table.get_insert_ne names.zone_incomplete.symm, hnoZone] at hnode
        cases hnode
      cases closes with
      | closed =>
        refine ⟨_, _, rfl, .inr ⟨nonempty, elapsed, members', holds', ?_, ?_, ?_⟩⟩
        · rw [← name]
          exact CloseStage.settled_finalized names
        · rw [← name]
          exact ⟨_, CloseStage.settled_zone names⟩
        · rw [← name]
          exact ((within.insert_mem (by simp) _).renamedDir).settled
      | zoneBlocked blocked => exact absurd hplain blocked
    | removed empty => exact absurd empty nonempty
    | occupied _ taken =>
      rw [hfree] at taken
      cases taken
  | @renamed m members elapsed nonempty wellFormed metadata recorded name holds source metaFile segment plain
      within =>
    have names : CloseNames stem m.finalizedDir := name ▸ closeNames _ _
    have hdir : ∀ node, d[OsName.str (incompleteName stem)]? = some node → node.isDir = true := by
      intro node hnode
      rw [source] at hnode
      cases hnode
    rw [run_recoverCandidate_consistent hstem
      (metadataIsConsistent_of_log hstem wellFormed metadata recorded) hdir metaFile, source,
      if_neg (by simp)]
    obtain ⟨record, hrun⟩ : ∃ record, run [] (recoverOrphan decoder listing stem m) d =
        (.done record, (zonedDir m d).erase (.str (incompleteMetaName stem))) :=
      run_recoverOrphan_renamed hstem nonempty wellFormed metadata holds names metaFile segment plain
    refine ⟨record, _, hrun, .inr ⟨nonempty, elapsed, members, holds, ?_, ?_, ?_⟩⟩
    · rw [← name, Table.get_erase_ne names.finalized_meta.symm, zonedDir,
        Table.get_insert_ne names.zone_finalized, segment]
    · rw [← name]
      refine ⟨SegmentState.captureTime m, ?_⟩
      rw [Table.get_erase_ne names.zone_meta.symm, zonedDir, Table.get_insert_self]
    · rw [← name]
      exact within.settled
  | finished h =>
    obtain ⟨hinc, hmeta⟩ := h.not_candidate
    rcases hcandidate with hsome | hsome
    · exact absurd hinc hsome
    · exact absurd hmeta hsome

/-! ## Recovery of a stream -/

/-- Every entry is a temporary file, or has a name of the segment of some time. -/
def Timely (d : StreamDir) : Prop :=
  ∀ name, d[name]?.isSome = true →
    IsTemporary name ∨ ∃ stem, validTimeName stem = true ∧ OwnName stem name

theorem Timely.of_addsOwn (h : Timely d) (hstem : validTimeName stem = true) {d' : StreamDir}
    (hadds : AddsOwn stem d d') : Timely d' := by
  intro name hsome
  rcases hadds name hsome with hold | hown
  · exact h name hold
  · exact .inr ⟨stem, hstem, hown⟩

theorem temporaryName_getLast? (name : Str) (process counter : ℕ) :
    (temporaryName name process counter).getLast? = some 'p' :=
  List.getLast?_append_of_ne_nil _ (by decide)

/-- Recovery does not take a temporary file for a candidate. -/
theorem candidateStem_temporaryName (name : Str) (process counter : ℕ) :
    candidateStem (temporaryName name process counter) = none :=
  SegmentName.candidateStem_eq_none (temporaryName_getLast? name process counter) (by decide)
    (by decide)

/-- A temporary file is not an entry of a segment. -/
theorem ne_temporaryName (hstem : validTimeName stem = true) {name : OsName}
    (hname : OwnName stem name) (target : Str) (process counter : ℕ) : name ≠ .str (temporaryName target process counter) := by
  obtain ⟨text, rfl, hown⟩ := hname
  intro heq
  obtain ⟨rest, hrest⟩ := OsName.str.inj heq ▸ hown.isPrefix
  cases stem with
  | nil => cases validTimeName_length hstem
  | cons c stem =>
    have hdot : c = '.' := (List.cons.inj hrest).1
    have hdigit := validTimeName_isDigit hstem c List.mem_cons_self
    rw [hdot] at hdigit
    cases hdigit

theorem get_leftTemporary (hstem : validTimeName stem = true) {name : OsName}
    (hname : OwnName stem name) (target : Str) (process counter : ℕ) (content : Contents) :
    (leftTemporary d target process counter content)[name]? = d[name]? :=
  Table.get_insert_ne (ne_temporaryName hstem hname target process counter).symm

theorem Timely.left (h : Timely d) (target : Str) (process counter : ℕ) (content : Contents) :
    Timely (leftTemporary d target process counter content) := by
  intro name hsome
  rw [leftTemporary, Table.get_insert] at hsome
  split at hsome
  · rename_i heq
    exact .inl ⟨target, process, counter, heq.symm⟩
  · exact h name hsome

/-- Recovering one candidate does not disturb another. -/
theorem undisturbed_recoverCandidate {other : Str} {options : RecoveryOptions} (hne : other ≠ stem)
    (hlength : other.length = stem.length) :
    Undisturbed stem d (run [] (recoverCandidate decoder listing other options interval) d).2 where
  spared := spared_recoverCandidate hne
  fresh := by
    intro name hname hsome
    rcases addsOwn_of_run confined_recoverCandidate rfl (.str name) hsome with hold | ⟨_, ⟨⟩, hown⟩
    · exact hold
    · exact absurd (hown.stem_eq hname hlength) hne

/-- The loop over the candidates finishes each of them. -/
theorem recoverStems_finishes {logs : Str → SegmentLog} {stems : List Str} (hnodup : stems.Nodup)
    (hvalid : ∀ stem ∈ stems, validTimeName stem = true)
    (hcandidate : ∀ stem ∈ stems, d[OsName.str (incompleteName stem)]? ≠ none ∨
      d[OsName.str (incompleteMetaName stem)]? ≠ none)
    (hremnant : ∀ stem ∈ stems, Remnant decoder stem interval (logs stem) d) :
    ∃ records d', run [] (recoverStems decoder listing .default interval stems) d =
        (.done records, d') ∧
      (∀ stem ∈ stems, Finished stem interval (logs stem) d') ∧
      (∀ stem, validTimeName stem = true → stem ∉ stems → Undisturbed stem d d') ∧
      (Timely d → Timely d') := by
  induction stems generalizing d with
  | nil => exact ⟨[], d, rfl, fun _ h => absurd h List.not_mem_nil,
      fun stem _ _ => Undisturbed.refl stem d, id⟩
  | cons first stems ih =>
    obtain ⟨hnot, hnodup⟩ := List.nodup_cons.mp hnodup
    have hfirst := hvalid first List.mem_cons_self
    obtain ⟨record, d₁, hrun, hfinished⟩ : ∃ record d₁,
        run [] (recoverCandidate decoder listing first .default interval) d = (.done record, d₁) ∧
          Finished first interval (logs first) d₁ :=
      (hremnant first List.mem_cons_self).recovered hfirst (hcandidate first List.mem_cons_self)
    have hrest : ∀ stem, validTimeName stem = true → stem ≠ first → Undisturbed stem d d₁ := by
      intro stem hstem hne
      have hstep : Undisturbed stem d
          (run [] (recoverCandidate decoder listing first .default interval) d).2 :=
        undisturbed_recoverCandidate (Ne.symm hne)
          ((validTimeName_length hfirst).trans (validTimeName_length hstem).symm)
      rwa [hrun] at hstep
    have hne {stem : Str} (hmem : stem ∈ stems) : stem ≠ first := fun heq => hnot (heq ▸ hmem)
    obtain ⟨records, d', hrun', hfinished', hothers, htimely⟩ := ih (d := d₁) hnodup
      (fun stem hmem => hvalid stem (List.mem_cons_of_mem _ hmem))
      (fun stem hmem => by
        have hsame := hrest stem (hvalid stem (List.mem_cons_of_mem _ hmem)) (hne hmem)
        rw [hsame.spared.get_incomplete, hsame.spared.get_meta]
        exact hcandidate stem (List.mem_cons_of_mem _ hmem))
      fun stem hmem => (hremnant stem (List.mem_cons_of_mem _ hmem)).undisturbed
        (hrest stem (hvalid stem (List.mem_cons_of_mem _ hmem)) (hne hmem))
    refine ⟨record :: records, d', ?_, ?_, ?_, fun h => htimely (h.of_addsOwn hfirst ?_)⟩
    · rw [recoverStems, run_bind, hrun, quietThen_done, run_bind, hrun']
      rfl
    · intro stem hmem
      rcases List.mem_cons.mp hmem with rfl | hmem
      · exact hfinished.undisturbed (hothers _ hfirst hnot)
      · exact hfinished' stem hmem
    · intro stem hstem hmem
      rw [List.mem_cons, not_or] at hmem
      exact (hrest stem hstem hmem.1).trans (hothers stem hstem hmem.2)
    · exact addsOwn_of_run confined_recoverCandidate hrun

theorem mem_candidateStems_iff :
    stem ∈ candidateStems d ↔ ∃ name, d[OsName.str name]?.isSome = true ∧
      candidateStem name = some stem := by
  rw [candidateStems, (List.perm_insertionSort _ _).mem_iff, List.mem_dedup, List.mem_filterMap]
  constructor
  · rintro ⟨name, hname, hstem⟩
    obtain ⟨text, htext, hstem⟩ := Option.bind_eq_some_iff.mp hstem
    obtain rfl : name = .str text := by
      cases name with
      | str _ => exact congrArg OsName.str (Option.some.inj htext)
      | nonUtf8 _ => cases htext
    refine ⟨text, ?_, hstem⟩
    rwa [Std.ExtTreeMap.mem_keys, ← Std.ExtTreeMap.isSome_getElem?_iff_mem] at hname
  · rintro ⟨text, hname, hstem⟩
    refine ⟨.str text, ?_, hstem⟩
    rwa [Std.ExtTreeMap.mem_keys, ← Std.ExtTreeMap.isSome_getElem?_iff_mem]

theorem eq_of_candidateStem {name : Str} (h : candidateStem name = some stem) :
    name = incompleteName stem ∨ name = incompleteMetaName stem := by
  rw [candidateStem] at h
  split at h
  · rename_i found hfound
    rw [Option.some.inj h] at hfound
    exact .inl (stripSuffix_eq_some.mp hfound)
  · exact .inr (stripSuffix_eq_some.mp h)

/-- **Recovery finishes every segment of a stream directory.** -/
theorem recoverStream_finishes {logs : Str → SegmentLog} (htimely : Timely d)
    (hremnant : ∀ stem, validTimeName stem = true → Remnant decoder stem interval (logs stem) d) :
    ∃ records d', run [] (recoverStream decoder listing .default interval) d =
        (.done records, d') ∧ Timely d' ∧
      ∀ stem, validTimeName stem = true → Finished stem interval (logs stem) d' := by
  have hscan : run [] (call (.io "scan stream directory" [])
      (query fun d => .ok (candidateStems d)) : RecoveryProg (List Str)) d =
        (.done (candidateStems d), d) := run_call_query rfl
  have hvalid : ∀ stem ∈ candidateStems d, validTimeName stem = true := by
    intro stem hmem
    obtain ⟨name, hname, hcandidate⟩ := mem_candidateStems_iff.mp hmem
    rcases htimely _ hname with ⟨target, process, counter, heq⟩ | ⟨owner, howner, _, ⟨⟩, hown⟩
    · rw [OsName.str.inj heq, candidateStem_temporaryName] at hcandidate
      cases hcandidate
    · rwa [hown.candidateStem_eq hcandidate]
  have hcandidate : ∀ stem ∈ candidateStems d, d[OsName.str (incompleteName stem)]? ≠ none ∨
      d[OsName.str (incompleteMetaName stem)]? ≠ none := by
    intro stem hmem
    obtain ⟨name, hname, hcandidate⟩ := mem_candidateStems_iff.mp hmem
    have hsome := Option.isSome_iff_ne_none.mp hname
    rcases eq_of_candidateStem hcandidate with rfl | rfl
    · exact .inl hsome
    · exact .inr hsome
  obtain ⟨records, d', hrun, hfinished, hothers, hkeep⟩ : ∃ records d',
      run [] (recoverStems decoder listing .default interval (candidateStems d)) d =
          (.done records, d') ∧
        (∀ stem ∈ candidateStems d, Finished stem interval (logs stem) d') ∧
        (∀ stem, validTimeName stem = true → stem ∉ candidateStems d → Undisturbed stem d d') ∧
        (Timely d → Timely d') :=
    recoverStems_finishes (nodup_candidateStems d) hvalid hcandidate
      fun stem hmem => hremnant stem (hvalid stem hmem)
  refine ⟨records, d', ?_, hkeep htimely, fun stem hstem => ?_⟩
  · rw [recoverStream, run_bind, run_call_barrier, quietThen_done, run_bind, hscan, quietThen_done,
      hrun]
  · by_cases hmem : stem ∈ candidateStems d
    · exact hfinished stem hmem
    · have hmeta : d[OsName.str (incompleteMetaName stem)]? = none := by
        by_contra hsome
        exact hmem (mem_candidateStems_iff.mpr
          ⟨_, Option.isSome_iff_ne_none.mpr hsome, candidateStem_incompleteMetaName stem⟩)
      exact ((hremnant stem hstem).finished_of_not_candidate hmeta).undisturbed
        (hothers stem hstem hmem)

end Recovery

end SolstoneTmux
