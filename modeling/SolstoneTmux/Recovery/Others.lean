import SolstoneTmux.Recovery.Outcome
import SolstoneTmux.SegmentNames

/-!
# Recovery among other candidates

What the recovery of a stream makes of one segment is what `recoverCandidate` makes of it, whatever
else the stream directory holds: `recoverStream_arrives`. The other candidates spare the entries of
the segment (`Spared`), and only an error of one that comes before keeps recovery from reaching it.
-/

namespace SolstoneTmux

open Foundations Foundations.Prog SegmentLog

/-! ## Names that no other segment takes -/

/-- The names of an open segment's entries and of the entries it gets when it is finalized. -/
inductive LiveName (stem : Str) : Str → Prop
  | incomplete : LiveName stem (incompleteName stem)
  | incompleteMeta : LiveName stem (incompleteMetaName stem)
  | finalized (length : ℕ) : LiveName stem (finalizedName stem length)
  | zone (length : ℕ) : LiveName stem (finalizedName stem length ++ ".zone.json".toList)

theorem LiveName.segmentName {stem name : Str} (h : LiveName stem name) : SegmentName stem name := by
  cases h with
  | incomplete => exact .incomplete
  | incompleteMeta => exact .incompleteMeta
  | finalized length => exact .finalized length
  | zone length => exact .zone length

/-- The stem of a finalized name ends at its last underscore. -/
theorem finalizedName_stem {stem stem' : Str} {length length' : ℕ}
    (h : finalizedName stem length = finalizedName stem' length') : stem = stem' := by
  have hsplit (stem : Str) (length : ℕ) : splitOnce '_' (finalizedName stem length).reverse =
      some ((padLeft 3 (decimal (asSecs length))).reverse, stem.reverse) := by
    rw [finalizedName, List.reverse_append, List.reverse_cons, List.append_assoc,
      List.singleton_append]
    refine splitOnce_append (fun hmem => ?_) _
    have hdigit := isDigit_of_mem_padLeft (fun _ => isDigit_of_mem_decimal) (List.mem_reverse.mp hmem)
    exact absurd hdigit (by decide)
  have hboth := hsplit stem length
  rw [h, hsplit] at hboth
  exact (List.reverse_inj.mp (Prod.ext_iff.mp (Option.some.inj hboth)).2).symm

/-- No other segment has an entry under a live name of this one. -/
theorem LiveName.stem_eq {stem stem' name : Str} (h : LiveName stem name)
    (h' : SegmentName stem' name) : stem = stem' := by
  cases h with
  | incomplete => exact h'.candidateStem_eq (candidateStem_incompleteName stem)
  | incompleteMeta => exact h'.candidateStem_eq (candidateStem_incompleteMetaName stem)
  | finalized length =>
    generalize hname : finalizedName stem length = name at h'
    cases h' with
    | incomplete => exact absurd hname (finalizedName_ne (incompleteName_getLast? _) (by decide))
    | incompleteMeta =>
      exact absurd hname (finalizedName_ne (incompleteMetaName_getLast? _) (by decide))
    | finalized length' => exact finalizedName_stem hname
    | zone length' => exact absurd hname (finalizedName_ne (zoneName_getLast? _) (by decide))
    | failed number => exact absurd hname (finalizedName_ne (failedName_getLast? _ _) (by decide))
    | failedMeta number =>
      exact absurd hname (finalizedName_ne (failedMetaName_getLast? _ _) (by decide))
  | zone length =>
    have hlast := zoneName_getLast? (finalizedName stem length)
    generalize hname : finalizedName stem length ++ ".zone.json".toList = name at h' hlast
    cases h' with
    | incomplete =>
      exact absurd rfl (str_ne hlast (incompleteName_getLast? stem') (by decide))
    | incompleteMeta =>
      exact absurd rfl (str_ne hlast (incompleteMetaName_getLast? stem') (by decide))
    | finalized length' =>
      exact absurd rfl (finalizedName_ne hlast (by decide))
    | zone length' => exact finalizedName_stem (List.append_cancel_right hname)
    | failed number =>
      exact absurd rfl (str_ne hlast (failedName_getLast? stem' number) (by decide))
    | failedMeta number =>
      exact absurd rfl (str_ne hlast (failedMetaName_getLast? stem' number) (by decide))

/-! ## Other candidates -/

/-- The entries of a segment are as they were, and nothing new has a live name of it. -/
structure Spared (stem : Str) (base d : StreamDir) : Prop where
  kept : ∀ name, SegmentName stem name → EntryKept base d (.str name)
  fresh : ∀ name, LiveName stem name → d[OsName.str name]?.isSome = true →
    base[OsName.str name]?.isSome = true

namespace Spared

variable {stem : Str} {base d d' : StreamDir}

theorem refl (stem : Str) (base : StreamDir) : Spared stem base base :=
  ⟨fun _ _ => EntryKept.refl base _, fun _ _ h => h⟩

theorem trans (h : Spared stem base d) (h' : Spared stem d d') : Spared stem base d' :=
  ⟨fun name hname => (h.kept name hname).trans (h'.kept name hname),
    fun name hname hsome => h.fresh name hname (h'.fresh name hname hsome)⟩

theorem get_none (h : Spared stem base d) {name : Str} (hname : LiveName stem name)
    (hnone : base[OsName.str name]? = none) : d[OsName.str name]? = none := by
  have hfresh := h.fresh name hname
  rw [hnone] at hfresh
  simpa using hfresh

/-- An entry under a live name other than that of a zone record is what it was. -/
theorem get (h : Spared stem base d) {name : Str} (hname : LiveName stem name) {c : Char}
    (hlast : name.getLast? = some c) (hc : c ≠ 'n') :
    d[OsName.str name]? = base[OsName.str name]? := by
  cases hbase : base[OsName.str name]? with
  | none => exact h.get_none hname hbase
  | some node => exact (h.kept name hname.segmentName).get hlast hc hbase

theorem get_incomplete (h : Spared stem base d) :
    d[OsName.str (incompleteName stem)]? = base[OsName.str (incompleteName stem)]? :=
  h.get .incomplete (incompleteName_getLast? stem) (by decide)

theorem get_meta (h : Spared stem base d) :
    d[OsName.str (incompleteMetaName stem)]? = base[OsName.str (incompleteMetaName stem)]? :=
  h.get .incompleteMeta (incompleteMetaName_getLast? stem) (by decide)

theorem get_finalized (h : Spared stem base d) (length : ℕ) :
    d[OsName.str (finalizedName stem length)]? = base[OsName.str (finalizedName stem length)]? := by
  obtain ⟨c, hlast, hdigit⟩ := finalizedName_getLast? stem length
  refine h.get (.finalized length) hlast ?_
  rintro rfl
  cases hdigit

theorem plainTarget (h : Spared stem base d) {length : ℕ}
    (hplain : PlainTarget base (captureTimePath (finalizedName stem length))) :
    PlainTarget d (captureTimePath (finalizedName stem length)) := by
  intro node hnode
  cases hbase : base[captureTimePath (finalizedName stem length)]? with
  | none =>
    rw [captureTimePath, h.get_none (.zone length) hbase] at hnode
    cases hnode
  | some before =>
    rcases h.kept _ (.zone length) before hbase with hd | ⟨-, t, hd⟩
    · rw [captureTimePath, hd] at hnode
      cases hnode
      exact hplain _ hbase
    · rw [captureTimePath, hd] at hnode
      cases hnode
      rfl

end Spared

section Stream

variable {decoder : Decoder} {listing : Listing} {options : RecoveryOptions} {interval : ℕ}
  {stem other : Str} {base d : StreamDir}

/-- Recovering another candidate spares a segment. -/
theorem spared_recoverCandidate (hne : other ≠ stem) :
    Spared stem d (run [] (recoverCandidate decoder listing other options interval) d).2 := by
  have hkeeps : Safe (MustKeep decoder d other) other d
      (run [] (recoverCandidate decoder listing other options interval) d).2 :=
    endsIn_run (recoverCandidate_keeps decoder listing other options interval d)
      (A := anyTurn) trivial fun _ _ => trivial
  obtain ⟨_, -, hplaced⟩ := hkeeps
  refine ⟨fun name hname => hplaced.framed (.str name) ?_ ?_, fun name hname hsome => ?_⟩
  · intro heq
    rw [OsName.str.inj heq] at hname
    exact hne (hname.candidateStem_eq (candidateStem_incompleteName other))
  · intro heq
    rw [OsName.str.inj heq] at hname
    exact hne (hname.candidateStem_eq (candidateStem_incompleteMetaName other))
  · rcases addsOwn_of_run confined_recoverCandidate rfl (.str name) hsome with hbase | ⟨_, heq, hown⟩
    · exact hbase
    · cases heq
      exact absurd (hname.stem_eq hown).symm hne

/-- The run over stems that do not include a segment's spares it. -/
theorem spared_recoverStems {stems : List Str} (hnot : stem ∉ stems) :
    Spared stem d (run [] (recoverStems decoder listing options interval stems) d).2 := by
  induction stems generalizing d with
  | nil => exact Spared.refl stem d
  | cons other stems ih =>
    rw [List.mem_cons, not_or] at hnot
    have hfirst : Spared stem d
        (run [] (recoverCandidate decoder listing other options interval) d).2 :=
      spared_recoverCandidate (Ne.symm hnot.1)
    rw [recoverStems, run_bind]
    cases hrun : run [] (recoverCandidate decoder listing other options interval) d with
    | mk r d₁ =>
      rw [hrun] at hfirst
      cases r with
      | done record =>
        have hrest := ih (d := d₁) hnot.2
        rw [quietThen_done, run_bind]
        cases hstems : run [] (recoverStems decoder listing options interval stems) d₁ with
        | mk r d₂ =>
          rw [hstems] at hrest
          cases r <;> exact hfirst.trans hrest
      | raised e => exact hfirst
      | killed => exact hfirst

/-- The recovery of a stream reached the segment of a stem and left it in `P`, or it ended before,
without success, at another candidate. -/
def Arrives (stem : Str) (base : StreamDir) (stems : List Str) (P : StreamDir → Prop)
    (r : Ended RecoveryError (List RecoveryRecord) × StreamDir) : Prop :=
  P r.2 ∨ (∃ other ∈ stems, other ≠ stem) ∧ Spared stem base r.2 ∧ ∀ records, r.1 ≠ .done records

theorem recoverStems_arrives {P : StreamDir → Prop} {stems : List Str} (hmem : stem ∈ stems)
    (hnodup : stems.Nodup) (hspared : Spared stem base d)
    (hcandidate : ∀ d, Spared stem base d →
      P (run [] (recoverCandidate decoder listing stem options interval) d).2)
    (hkeep : ∀ d d', P d → Spared stem d d' → P d') :
    Arrives stem base stems P (run [] (recoverStems decoder listing options interval stems) d) := by
  induction stems generalizing d with
  | nil => cases hmem
  | cons first stems ih =>
    rw [List.nodup_cons] at hnodup
    rw [recoverStems, run_bind]
    by_cases hfirst : first = stem
    · subst hfirst
      refine .inl ?_
      have hown := hcandidate d hspared
      cases hrun : run [] (recoverCandidate decoder listing first options interval) d with
      | mk r d₁ =>
        rw [hrun] at hown
        cases r with
        | done record =>
          have hrest : P (run [] (recoverStems decoder listing options interval stems) d₁).2 :=
            hkeep _ _ hown (spared_recoverStems hnodup.1)
          rw [quietThen_done, run_bind]
          cases hstems : run [] (recoverStems decoder listing options interval stems) d₁ with
          | mk r d₂ =>
            rw [hstems] at hrest
            cases r <;> exact hrest
        | raised e => exact hown
        | killed => exact hown
    · have hstep : Spared stem base
          (run [] (recoverCandidate decoder listing first options interval) d).2 :=
        hspared.trans (spared_recoverCandidate hfirst)
      have hother : ∃ other ∈ first :: stems, other ≠ stem := ⟨first, List.mem_cons_self, hfirst⟩
      have hmem := (List.mem_cons.mp hmem).resolve_left (Ne.symm hfirst)
      cases hrun : run [] (recoverCandidate decoder listing first options interval) d with
      | mk r d₁ =>
        rw [hrun] at hstep
        cases r with
        | done record =>
          have hrest := ih (d := d₁) hmem hnodup.2 hstep
          rw [quietThen_done, run_bind]
          cases hstems : run [] (recoverStems decoder listing options interval stems) d₁ with
          | mk r d₂ =>
            rw [hstems] at hrest
            rcases hrest with hP | ⟨-, hspared', hnot⟩
            · cases r <;> exact .inl hP
            · cases r with
              | done records => exact absurd rfl (hnot records)
              | raised e => exact .inr ⟨hother, hspared', fun _ hdone => by cases hdone⟩
              | killed => exact .inr ⟨hother, hspared', fun _ hdone => by cases hdone⟩
        | raised e => exact .inr ⟨hother, hstep, fun _ hdone => by cases hdone⟩
        | killed => exact .inr ⟨hother, hstep, fun _ hdone => by cases hdone⟩

theorem mem_candidateStems (h : base[OsName.str (incompleteName stem)]?.isSome = true) :
    stem ∈ candidateStems base := by
  rw [candidateStems, (List.perm_insertionSort _ _).mem_iff, List.mem_dedup, List.mem_filterMap]
  refine ⟨.str (incompleteName stem), ?_, candidateStem_incompleteName stem⟩
  rwa [Std.ExtTreeMap.mem_keys, ← Std.ExtTreeMap.isSome_getElem?_iff_mem]

/-- **The recovery of a stream does to a segment what recovering it alone does.** -/
theorem recoverStream_arrives {P : StreamDir → Prop}
    (hmem : base[OsName.str (incompleteName stem)]?.isSome = true)
    (hcandidate : ∀ d, Spared stem base d →
      P (run [] (recoverCandidate decoder listing stem options interval) d).2)
    (hkeep : ∀ d d', P d → Spared stem d d' → P d') :
    Arrives stem base (candidateStems base) P
      (run [] (recoverStream decoder listing options interval) base) := by
  have hscan : run [] (call (.io "scan stream directory" [])
      (query fun d => .ok (candidateStems d)) : RecoveryProg (List Str)) base =
        (.done (candidateStems base), base) := run_call_query rfl
  rw [recoverStream, run_bind, run_call_barrier, quietThen_done, run_bind, hscan, quietThen_done]
  exact recoverStems_arrives (mem_candidateStems hmem) (nodup_candidateStems base)
    (Spared.refl stem base) hcandidate hkeep

end Stream

/-! ## The directory afterwards -/

/-- What recovery leaves of the segment of a stem that holds a log: a finalized directory with the
log, and its zone record unless that cannot be written; nothing, when the log is empty; or all of
it, where something has the name that it should get. -/
inductive Concluded (stem : Str) (interval : ℕ) (log : SegmentLog) (before d : StreamDir) : Prop
  | finalized {elapsed : ℕ} {members : SegmentDir} (holds : HoldsLog log stem members)
      (segment : d[OsName.str (closedName stem interval elapsed)]? = some (.directory members))
      (zone : ∃ t, d[captureTimePath (closedName stem interval elapsed)]? =
        some (.file (.captureTime t)))
      (source : d[OsName.str (incompleteName stem)]? = none)
      (metaFile : d[OsName.str (incompleteMetaName stem)]? = none)
  | zoneBlocked {elapsed : ℕ} {members : SegmentDir} (holds : HoldsLog log stem members)
      (segment : d[OsName.str (closedName stem interval elapsed)]? = some (.directory members))
      (blocked : ¬ PlainTarget before (captureTimePath (closedName stem interval elapsed)))
      (source : d[OsName.str (incompleteName stem)]? = none)
  | removed (empty : log = .empty) (source : d[OsName.str (incompleteName stem)]? = none)
      (metaFile : d[OsName.str (incompleteMetaName stem)]? = none)
  | occupied {elapsed : ℕ}
      (taken : before[OsName.str (closedName stem interval elapsed)]?.isSome = true)
      (source : d[OsName.str (incompleteName stem)]? = before[OsName.str (incompleteName stem)]?)
      (metaFile : d[OsName.str (incompleteMetaName stem)]? =
        before[OsName.str (incompleteMetaName stem)]?)

/-- What recovery leaves of a segment that it does not accept: its directory and its metadata file
under failed names, or all of it, where something has the name that it would get. -/
inductive LeftAside (stem : Str) (interval : ℕ) (before d : StreamDir) : Prop
  | quarantined {number : ℕ}
      (segment : d[OsName.str (failedName stem number)]? =
        before[OsName.str (incompleteName stem)]?)
      (record : d[OsName.str (failedMetaName stem number)]? =
        before[OsName.str (incompleteMetaName stem)]?)
      (source : d[OsName.str (incompleteName stem)]? = none)
      (metaFile : d[OsName.str (incompleteMetaName stem)]? = none)
  | occupied {elapsed : ℕ}
      (taken : before[OsName.str (closedName stem interval elapsed)]?.isSome = true)
      (source : d[OsName.str (incompleteName stem)]? = before[OsName.str (incompleteName stem)]?)
      (metaFile : d[OsName.str (incompleteMetaName stem)]? =
        before[OsName.str (incompleteMetaName stem)]?)

section Afterwards

variable {decoder : Decoder} {listing : Listing} {interval : ℕ} {stem : Str} {log : SegmentLog}
  {m : SegmentMetadata} {members : SegmentDir} {base d d' : StreamDir}

theorem Concluded.of_recovered {r : Ended RecoveryError RecoveryRecord × StreamDir}
    (hspared : Spared stem base d) (h : Recovered stem interval log d r) :
    Concluded stem interval log base r.2 := by
  cases h with
  | @finalized m members elapsed r name free holds closes =>
    have names : CloseNames stem m.finalizedDir := name ▸ closeNames _ _
    cases closes with
    | closed =>
      generalize d.insert (.str (incompleteName stem)) (.directory members) = d₁
      have hsegment : (CloseStage.settled.dir stem m members d₁)[
          OsName.str (closedName stem interval elapsed)]? = some (.directory members) := by
        rw [← name]
        exact CloseStage.settled_finalized names
      have hzone : (CloseStage.settled.dir stem m members d₁)[
          captureTimePath (closedName stem interval elapsed)]? =
            some (.file (.captureTime (SegmentState.captureTime m))) := by
        rw [← name]
        exact CloseStage.settled_zone names
      obtain ⟨hsource, hmeta⟩ := @CloseStage.settled_open stem m members d₁ names
      exact .finalized holds hsegment ⟨_, hzone⟩ hsource hmeta
    | zoneBlocked blocked =>
      have hblocked : ¬ PlainTarget base (captureTimePath (closedName stem interval elapsed)) := by
        refine fun hplain => blocked ?_
        rw [name, PlainTarget, Table.get_insert_ne
          (str_ne_captureTimePath (incompleteName_getLast? stem) (by decide) _)]
        exact hspared.plainTarget hplain
      refine .zoneBlocked holds ?_ hblocked ?_
      · rw [← name, CloseStage.dir, renamedDir, Table.get_insert_self]
      · rw [CloseStage.dir, renamedDir, Table.get_insert_ne names.finalized_incomplete,
          Table.get_erase_self]
  | removed empty action =>
    refine .removed empty ?_ (Table.get_erase_self _ _)
    rw [Table.get_erase_ne (incomplete_ne_meta _ _).symm, Table.get_erase_self]
  | occupied action taken =>
    exact .occupied (hspared.fresh _ (.finalized _) taken) hspared.get_incomplete hspared.get_meta

theorem Concluded.spared (h : Concluded stem interval log base d) (hspared : Spared stem d d') :
    Concluded stem interval log base d' := by
  cases h with
  | finalized holds segment zone source metaFile =>
    obtain ⟨t, ht⟩ := zone
    refine .finalized holds ((hspared.get_finalized _).trans segment) ?_
      (hspared.get_incomplete.trans source) (hspared.get_meta.trans metaFile)
    rcases hspared.kept _ (.zone _) _ ht with hd | ⟨-, t', hd⟩
    · exact ⟨t, hd⟩
    · exact ⟨t', hd⟩
  | zoneBlocked holds segment blocked source =>
    exact .zoneBlocked holds ((hspared.get_finalized _).trans segment) blocked
      (hspared.get_incomplete.trans source)
  | removed empty source metaFile =>
    exact .removed empty (hspared.get_incomplete.trans source) (hspared.get_meta.trans metaFile)
  | occupied taken source metaFile =>
    exact .occupied taken (hspared.get_incomplete.trans source) (hspared.get_meta.trans metaFile)

theorem OnDisk.of_spared (h : OnDisk decoder stem log m members base)
    (hspared : Spared stem base d) : OnDisk decoder stem log m members d where
  wellFormed := h.wellFormed
  metadata := h.metadata
  recorded := h.recorded
  source := hspared.get_incomplete.trans h.source
  metaFile := hspared.get_meta.trans h.metaFile

/-- **Recovering a stream finalizes a segment whose files hold a recorded log, or removes it.** -/
theorem OnDisk.concluded (hstem : validTimeName stem = true)
    (h : OnDisk decoder stem log m members base)
    (hmembers : if log = .empty then OnlyActivity stem members
      else ∃ tail activityTail, MembersWith log stem tail activityTail members) :
    Arrives stem base (candidateStems base) (Concluded stem interval log base)
      (run [] (recoverStream decoder listing .default interval) base) :=
  recoverStream_arrives (by rw [h.source]; rfl)
    (fun _ hspared => .of_recovered hspared ((h.of_spared hspared).recovered hstem hmembers))
    fun _ _ hd hspared => hd.spared hspared

theorem LeftAside.of_movedAside {c : Contents}
    {r : Ended RecoveryError RecoveryRecord × StreamDir} (hspared : Spared stem base d)
    (hsource : base[OsName.str (incompleteName stem)]? = some (.directory members))
    (hmeta : base[OsName.str (incompleteMetaName stem)]? = some (.file c))
    (h : MovedAside stem interval members c d r) : LeftAside stem interval base r.2 := by
  cases h with
  | @quarantined number record action =>
    refine @LeftAside.quarantined _ _ _ _ number ?_ ?_ ?_ ?_
    · rw [hsource, asideDir, Table.get_insert_ne (failed_ne_failedMeta stem number).symm,
        Table.get_erase_ne (metaName_ne_failed stem number), Table.get_insert_self]
    · rw [hmeta, asideDir, Table.get_insert_self]
    · rw [asideDir, Table.get_insert_ne (incompleteName_ne_failedMeta stem number).symm,
        Table.get_erase_ne (incomplete_ne_meta _ _).symm,
        Table.get_insert_ne (incompleteName_ne_failed stem number).symm, Table.get_erase_self]
    · rw [asideDir, Table.get_insert_ne (metaName_ne_failedMeta stem number).symm,
        Table.get_erase_self]
  | occupied action taken =>
    exact .occupied (hspared.fresh _ (.finalized _) taken) hspared.get_incomplete hspared.get_meta

theorem LeftAside.spared {node : Node Contents SegmentDir} {c : Contents}
    (hsource : base[OsName.str (incompleteName stem)]? = some node)
    (hmeta : base[OsName.str (incompleteMetaName stem)]? = some (.file c))
    (h : LeftAside stem interval base d) (hspared : Spared stem d d') :
    LeftAside stem interval base d' := by
  cases h with
  | @quarantined number segment record source metaFile =>
    rw [hsource] at segment
    rw [hmeta] at record
    refine @LeftAside.quarantined _ _ _ _ number ?_ ?_ (hspared.get_incomplete.trans source)
      (hspared.get_meta.trans metaFile)
    · rw [hsource]
      exact (hspared.kept _ (.failed number)).get (failedName_getLast? stem number) (by decide) segment
    · rw [hmeta]
      exact (hspared.kept _ (.failedMeta number)).get (failedMetaName_getLast? stem number)
        (by decide) record
  | occupied taken source metaFile =>
    exact .occupied taken (hspared.get_incomplete.trans source) (hspared.get_meta.trans metaFile)

/-- **Recovering a stream moves a segment aside when a complete line is behind the recorded bytes of
a session's file.** -/
theorem OnDisk.leftAside (hstem : validTimeName stem = true)
    (h : OnDisk decoder stem log m members base) {session : SessionMetadata}
    (hs : session ∈ m.sessions.vals) {b : Bytes}
    (hfile : members[OsName.str session.filename]? = some (.file b))
    (hline : newline ∈ b.drop session.durableOffset) :
    Arrives stem base (candidateStems base) (LeftAside stem interval base)
      (run [] (recoverStream decoder listing .default interval) base) :=
  recoverStream_arrives (by rw [h.source]; rfl)
    (fun _ hspared => .of_movedAside hspared h.source h.metaFile
      ((h.of_spared hspared).movedAside hstem hs hfile hline))
    fun _ _ hd hspared => hd.spared h.source h.metaFile hspared

end Afterwards

end SolstoneTmux
