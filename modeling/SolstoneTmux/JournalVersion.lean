import Mathlib.Data.List.Induction
import SolstoneTmux.Health
import SolstoneTmux.Sync.Sweep

/-!
# The version cache

`journal-version.json` keeps what a journal reported last: its version, its name and its host facts,
under the journal's instance id and CA prefix. Sessions of any journal update it, each for its own
identity, and a new pairing removes it, which may fail.

Name and host facts are carried over from the record before in different ways. Host facts are
carried over only within one identity and one version. A name is carried over whenever the answer
brings none, whatever identity the record before is filed under.

* `VersionCache.step` is one update, with the accepted facts recorded beside the file.
* `notCarried_iff`: what an update stores owes nothing to another identity's record exactly when the
  update brings a name or finds none that is another identity's (`Clean`); and such updates keep
  every fact with the identity it was accepted for (`FactsBelong.step`).
* `facts_belong_iff` is the same for runs, and `foreign_name_kept` a run in which it fails.
-/

namespace SolstoneTmux

open Foundations

/-! ## Host facts -/

/-- `char::is_control`. -/
def isControl (c : Char) : Bool := c.toNat < 32 || (127 ≤ c.toNat && c.toNat ≤ 159)

/-- `str::trim_start_matches('v')`. -/
def trimVs (version : Str) : Str := version.dropWhile (· = 'v')

/-- `About`. -/
structure About where
  protocolVersion : ℕ
  version : Str
  build : Option Str
  os : Str
  osVersion : Str
  arch : Str
  about : Str
  deriving DecidableEq

/-- `normalize_arch`. -/
def normalizeArch (raw : Str) : Str :=
  if raw ∈ ["aarch64", "ARM64", "arm64-v8a", "arm64"].map String.toList then "arm64".toList
  else if raw ∈ ["amd64", "x64", "AMD64", "x86_64"].map String.toList then "x86_64".toList
  else raw

/-- `render_line`. -/
def renderLine (name version : Str) (build : Option Str) (os osVersion arch : Str) : Str :=
  let separator := " · ".toList
  let line := name ++ ' ' :: trimVs version
  let line :=
    match build.filter (!·.isEmpty) with
    | some build => line ++ " (".toList ++ build ++ ")".toList
    | none => line
  let line :=
    if os.isEmpty then line
    else
      let line := line ++ separator ++ os
      if osVersion.isEmpty then line else line ++ ' ' :: osVersion
  if arch.isEmpty then line else line ++ separator ++ normalizeArch arch

/-- `About::valid`. -/
def About.valid (a : About) : Bool :=
  a.protocolVersion = 1 && !a.version.isEmpty && a.build.all (!·.isEmpty) &&
    ([a.version, a.os, a.osVersion, a.arch, a.about] ++ a.build.toList).all
      (fun value => !value.any isControl) &&
    (utf8 a.about).length ≤ 8192 &&
    a.about = renderLine "journal".toList a.version a.build a.os a.osVersion a.arch

/-! ## Records -/

/-- `JournalVersionRecord`. -/
structure JournalVersionRecord where
  schemaVersion : ℕ
  instanceId : Str
  caFpPrefixHex : Str
  version : Str
  journalName : Option Str
  about : Option About
  versionSeenAt : Option ℕ
  confirmed : Bool
  runId : Str
  lockInode : ℕ
  deriving DecidableEq

/-- The journal that a record is filed under. -/
def JournalVersionRecord.identity (r : JournalVersionRecord) : Str × Str :=
  (r.instanceId, r.caFpPrefixHex)

/-- `VersionRefreshState` of one session, with the current value of its generation. -/
structure VersionRefreshState where
  instanceId : Str
  caFpPrefixHex : Str
  runIdentity : RunIdentity
  generation : UInt64

/-- The journal that a session is with. -/
def VersionRefreshState.identity (refresh : VersionRefreshState) : Str × Str :=
  (refresh.instanceId, refresh.caFpPrefixHex)

/-- What an update finds around it: the cache's lock, the instance lock, the instance id and CA
prefix of the stored credential if it can be loaded, whether the cache can be read, how its writing
ends, and the clock in seconds. -/
structure CacheTurn where
  lockOpens : Bool
  lock : ExistingLock
  credential : Option (Str × Bytes)
  readable : Bool
  write : Write
  wallNow : ℤ

/-- `identity_and_credential_live`. -/
def VersionRefreshState.identityAndCredentialLive (refresh : VersionRefreshState)
    (turn : CacheTurn) : Bool :=
  (match turn.lock with
    | .locked identity => decide (identity = refresh.runIdentity)
    | _ => false) &&
    turn.credential.any fun (instanceId, caFpPrefix) =>
      instanceId = refresh.instanceId && hexBytes caFpPrefix = refresh.caFpPrefixHex

/-- `read_record`, of the record that the cache holds. -/
def CacheTurn.readRecord (turn : CacheTurn) (file : Option JournalVersionRecord) :
    Option JournalVersionRecord :=
  if turn.readable then file else none

/-- `store_record`, with what the cache holds afterwards. -/
def CacheTurn.storeRecord (turn : CacheTurn) (file : Option JournalVersionRecord)
    (record : JournalVersionRecord) : Bool × Option JournalVersionRecord :=
  match turn.write with
  | .failed => (false, file)
  | .landed => (false, some record)
  | .done => (true, some record)

/-- The version that `apply_validated_journal_info_for_attempt` accepts. -/
def validVersion (version : Str) : Bool :=
  let trimmed := trim version
  !trimmed.isEmpty && !trimmed.any isControl

namespace VersionRefreshState

/-- The checks that both updates make under the lock. -/
def admits (refresh : VersionRefreshState) (attempt : UInt64) (turn : CacheTurn) : Bool :=
  turn.lockOpens && refresh.generation = attempt && refresh.identityAndCredentialLive turn

/-- The record that `apply_validated_journal_info_for_attempt` stores. -/
def infoRecord (refresh : VersionRefreshState) (journalName : Option (Option Str)) (version : Str)
    (wallNow : ℤ) (existing : Option JournalVersionRecord) : JournalVersionRecord :=
  let previousName := existing.bind JournalVersionRecord.journalName
  let trimmed := trim version
  { schemaVersion := 1
    instanceId := refresh.instanceId
    caFpPrefixHex := refresh.caFpPrefixHex
    version := trimmed
    about := (existing.filter fun record =>
      record.instanceId = refresh.instanceId && record.caFpPrefixHex = refresh.caFpPrefixHex &&
        trimVs record.version = trimVs trimmed).bind JournalVersionRecord.about
    versionSeenAt := if 0 ≤ wallNow then some wallNow.toNat else none
    journalName := journalName.getD previousName
    confirmed := true
    runId := refresh.runIdentity.runId
    lockInode := refresh.runIdentity.lockInode }

/-- `apply_validated_journal_info_for_attempt`, with what the cache holds afterwards. -/
def applyValidatedJournalInfoForAttempt (refresh : VersionRefreshState) (attempt : UInt64)
    (journalName : Option (Option Str)) (version : Str) (turn : CacheTurn)
    (file : Option JournalVersionRecord) : Bool × Option JournalVersionRecord :=
  if !validVersion version then (false, file)
  else if !refresh.admits attempt turn then (false, file)
  else
    turn.storeRecord file
      (refresh.infoRecord journalName version turn.wallNow (turn.readRecord file))

/-- `apply_about_for_attempt`, with what the cache holds afterwards. -/
def applyAboutForAttempt (refresh : VersionRefreshState) (attempt : UInt64) (about : About)
    (turn : CacheTurn) (file : Option JournalVersionRecord) :
    Bool × Option JournalVersionRecord :=
  if !about.valid then (false, file)
  else if !refresh.admits attempt turn then (false, file)
  else
    match turn.readRecord file with
    | none => (false, file)
    | some record =>
      if record.instanceId ≠ refresh.instanceId ∨ record.caFpPrefixHex ≠ refresh.caFpPrefixHex ∨
          trimVs record.version ≠ trimVs about.version then (false, file)
      else turn.storeRecord file { record with about := some about }

end VersionRefreshState

/-! ## Runs -/

/-- The cache, with what was accepted: names under the identity they were accepted for, and host
facts under the identity and the version. -/
structure VersionCache where
  file : Option JournalVersionRecord
  names : List ((Str × Str) × Str)
  abouts : List ((Str × Str) × Str × About)

/-- A call that touches the cache; `clear` is `clear_cached_version`, which ignores its failure. -/
inductive CacheCall
  | info (refresh : VersionRefreshState) (attempt : UInt64) (journalName : Option (Option Str))
      (version : Str) (turn : CacheTurn)
  | about (refresh : VersionRefreshState) (attempt : UInt64) (about : About) (turn : CacheTurn)
  | clear (works : Bool)

/-- The facts of a record, as accepted for its own identity and version. -/
def VersionCache.start (file : Option JournalVersionRecord) : VersionCache where
  file := file
  names := (file.bind fun r => r.journalName.map fun name => (r.identity, name)).toList
  abouts := (file.bind fun r => r.about.map fun a => (r.identity, trimVs r.version, a)).toList

/-- Whether an update's record lands in the cache. -/
def CacheTurn.lands (turn : CacheTurn) : Bool := turn.write ≠ .failed

namespace VersionCache

/-- Whether the call stores a record for its own identity. -/
def storesInfo (refresh : VersionRefreshState) (attempt : UInt64) (version : Str)
    (turn : CacheTurn) : Bool :=
  validVersion version && refresh.admits attempt turn && turn.lands

/-- Whether the call stores host facts in the record that is there. -/
def storesAbout (refresh : VersionRefreshState) (attempt : UInt64) (about : About)
    (turn : CacheTurn) (file : Option JournalVersionRecord) : Bool :=
  about.valid && refresh.admits attempt turn && turn.lands &&
    (turn.readRecord file).any fun record =>
      record.identity = refresh.identity && trimVs record.version = trimVs about.version

/-- One call. Facts are recorded as accepted when their record lands. -/
def step (cache : VersionCache) : CacheCall → VersionCache
  | .info refresh attempt journalName version turn =>
    { cache with
      file := (refresh.applyValidatedJournalInfoForAttempt attempt journalName version turn
        cache.file).2
      names :=
        if storesInfo refresh attempt version turn then
          (journalName.join.map fun name => (refresh.identity, name)).toList ++ cache.names
        else cache.names }
  | .about refresh attempt about turn =>
    { cache with
      file := (refresh.applyAboutForAttempt attempt about turn cache.file).2
      abouts :=
        if storesAbout refresh attempt about turn cache.file then
          (refresh.identity, trimVs about.version, about) :: cache.abouts
        else cache.abouts }
  | .clear works => { cache with file := if works then none else cache.file }

/-- The cache after the calls. -/
def after (file : Option JournalVersionRecord) (calls : List CacheCall) : VersionCache :=
  calls.foldl step (start file)

end VersionCache

/-! ## Whose facts a record holds -/

/-- What the cache holds was accepted for the identity that its record names, and host facts for
the record's version. -/
structure FactsBelong (cache : VersionCache) : Prop where
  name : ∀ r ∈ cache.file, ∀ name ∈ r.journalName, (r.identity, name) ∈ cache.names
  about : ∀ r ∈ cache.file, ∀ a ∈ r.about, (r.identity, trimVs r.version, a) ∈ cache.abouts

/-- Nothing is carried over from another identity's record: a record that is stored where one of
another identity was is the record that would be stored in an empty cache. -/
def NotCarried (cache : VersionCache) (c : CacheCall) : Prop :=
  ∀ r ∈ cache.file, ∀ r' ∈ (cache.step c).file, r'.identity ≠ r.identity →
    ({ cache with file := none }.step c).file = some r'

/-- An update that brings no name does not find another identity's name. -/
def Clean (cache : VersionCache) : CacheCall → Prop
  | .info refresh attempt none version turn =>
    VersionCache.storesInfo refresh attempt version turn →
      ∀ r ∈ turn.readRecord cache.file, r.identity ≠ refresh.identity → r.journalName = none
  | _ => True

section Steps

variable {cache : VersionCache} {refresh : VersionRefreshState} {attempt : UInt64}
  {turn : CacheTurn} {file : Option JournalVersionRecord} {record : JournalVersionRecord}

theorem storeRecord_file : (turn.storeRecord file record).2 =
    if turn.lands then some record else file := by
  unfold CacheTurn.storeRecord CacheTurn.lands
  cases turn.write <;> rfl

theorem mem_of_mem_readRecord (h : record ∈ turn.readRecord file) : record ∈ file := by
  unfold CacheTurn.readRecord at h
  split at h
  · exact h
  · cases h

theorem info_file (cache : VersionCache) (refresh : VersionRefreshState) (attempt : UInt64)
    (turn : CacheTurn) (journalName : Option (Option Str)) (version : Str) :
    (cache.step (.info refresh attempt journalName version turn)).file =
      if VersionCache.storesInfo refresh attempt version turn then
        some (refresh.infoRecord journalName version turn.wallNow (turn.readRecord cache.file))
      else cache.file := by
  simp only [VersionCache.step, VersionRefreshState.applyValidatedJournalInfoForAttempt,
    VersionCache.storesInfo]
  by_cases hvalid : validVersion version = true
  · by_cases hadmits : refresh.admits attempt turn = true
    · simp [hvalid, hadmits, storeRecord_file]
    · simp [hvalid, hadmits]
  · simp [hvalid]

theorem about_file (cache : VersionCache) (refresh : VersionRefreshState) (attempt : UInt64)
    (turn : CacheTurn) (about : About) :
    (cache.step (.about refresh attempt about turn)).file =
      if VersionCache.storesAbout refresh attempt about turn cache.file then
        (turn.readRecord cache.file).map fun record => { record with about := some about }
      else cache.file := by
  simp only [VersionCache.step, VersionRefreshState.applyAboutForAttempt, VersionCache.storesAbout]
  by_cases hvalid : about.valid = true
  · by_cases hadmits : refresh.admits attempt turn = true
    · obtain hread | ⟨record, hread⟩ := Option.eq_none_or_eq_some (turn.readRecord cache.file)
      · simp [hvalid, hadmits, hread]
      · by_cases hown : record.identity = refresh.identity ∧
            trimVs record.version = trimVs about.version
        · have hfields := Prod.mk.inj hown.1
          simp [hvalid, hadmits, hread, hown.1, hown.2, hfields.1, hfields.2, storeRecord_file]
        · have hfields : record.instanceId ≠ refresh.instanceId ∨
              record.caFpPrefixHex ≠ refresh.caFpPrefixHex ∨
                trimVs record.version ≠ trimVs about.version := by
            by_contra hsame
            simp only [not_or, not_not] at hsame
            exact hown ⟨Prod.ext hsame.1 hsame.2.1, hsame.2.2⟩
          rw [not_and_or] at hown
          rcases hown with hown | hown <;> simp [hvalid, hadmits, hread, hfields, hown]
    · simp [hvalid, hadmits]
  · simp [hvalid]

/-- Host facts are carried over within one identity and one version. -/
theorem about_infoRecord {journalName : Option (Option Str)} {version : Str} {wallNow : ℤ}
    {a : About} (h : a ∈ (refresh.infoRecord journalName version wallNow file).about) :
    ∃ r ∈ file, r.identity = refresh.identity ∧ trimVs r.version = trimVs (trim version) ∧
      a ∈ r.about := by
  obtain ⟨r, hr, ha⟩ := Option.bind_eq_some_iff.mp h
  obtain ⟨hfile, hsame⟩ := Option.filter_eq_some_iff.mp hr
  simp only [Bool.and_eq_true, decide_eq_true_eq] at hsame
  exact ⟨r, hfile, Prod.ext hsame.1.1 hsame.1.2, hsame.2, ha⟩

theorem factsBelong_start (file : Option JournalVersionRecord) : FactsBelong (.start file) := by
  constructor
  · rintro r rfl name hname
    rw [Option.mem_def] at hname
    simp [VersionCache.start, hname]
  · rintro r rfl a ha
    rw [Option.mem_def] at ha
    simp [VersionCache.start, ha]

theorem FactsBelong.clear (h : FactsBelong cache) (works : Bool) :
    FactsBelong (cache.step (.clear works)) := by
  cases works with
  | true =>
    constructor
    · rintro r ⟨⟩
    · rintro r ⟨⟩
  | false => exact h

theorem FactsBelong.storeAbout (h : FactsBelong cache) (about : About) :
    FactsBelong (cache.step (.about refresh attempt about turn)) := by
  have hfile := about_file cache refresh attempt turn about
  by_cases hstores : VersionCache.storesAbout refresh attempt about turn cache.file = true
  · rw [if_pos hstores] at hfile
    simp only [VersionCache.storesAbout, Bool.and_eq_true, Option.any_eq_true,
      decide_eq_true_eq] at hstores
    obtain ⟨hchecks, r, hr, hidentity, hversion⟩ := hstores
    rw [hr, Option.map_some] at hfile
    constructor
    · intro r' hr' name hname
      rw [hfile, Option.mem_some_iff] at hr'
      subst hr'
      exact h.name r (mem_of_mem_readRecord hr) name hname
    · intro r' hr' a ha
      rw [hfile, Option.mem_some_iff] at hr'
      subst hr'
      rw [Option.mem_some_iff] at ha
      subst ha
      have habouts : (cache.step (.about refresh attempt about turn)).abouts =
          (refresh.identity, trimVs about.version, about) :: cache.abouts := by
        simp only [VersionCache.step, VersionCache.storesAbout, hchecks, hr, hidentity, hversion,
          Option.any_some, decide_true, Bool.and_self, if_true]
      rw [habouts, ← hversion]
      exact List.mem_cons.mpr (Or.inl (by rw [← hidentity]; rfl))
  · rw [if_neg hstores] at hfile
    have habouts : (cache.step (.about refresh attempt about turn)).abouts = cache.abouts :=
      if_neg hstores
    constructor
    · intro r hr
      exact h.name r (hfile ▸ hr)
    · intro r hr
      rw [habouts]
      exact h.about r (hfile ▸ hr)

/-- What an update of version and name keeps, by whose name its record has. -/
theorem factsBelong_info_iff (h : FactsBelong cache) (journalName : Option (Option Str))
    (version : Str) :
    FactsBelong (cache.step (.info refresh attempt journalName version turn)) ↔
      (VersionCache.storesInfo refresh attempt version turn →
        ∀ name ∈ journalName.getD
            ((turn.readRecord cache.file).bind JournalVersionRecord.journalName),
          (refresh.identity, name) ∈
            (cache.step (.info refresh attempt journalName version turn)).names) := by
  have hfile := info_file cache refresh attempt turn journalName version
  by_cases hstores : VersionCache.storesInfo refresh attempt version turn = true
  · rw [if_pos hstores] at hfile
    constructor
    · exact fun hkept _ name hname => hkept.name _ hfile name hname
    · intro hnames
      constructor
      · intro r hr name hname
        rw [hfile, Option.mem_some_iff] at hr
        subst hr
        exact hnames hstores name hname
      · intro r hr a ha
        rw [hfile, Option.mem_some_iff] at hr
        subst hr
        obtain ⟨r', hr', hidentity, hversion, ha'⟩ := about_infoRecord ha
        have hmem := h.about r' (mem_of_mem_readRecord hr') a ha'
        rw [hidentity, hversion] at hmem
        exact hmem
  · rw [if_neg hstores] at hfile
    refine ⟨fun _ hcontra => absurd hcontra hstores, fun _ => ⟨?_, ?_⟩⟩
    · intro r hr name hname
      have hmem := h.name r (hfile ▸ hr) name hname
      simpa [VersionCache.step, hstores] using hmem
    · intro r hr
      exact h.about r (hfile ▸ hr)

/-- A clean update keeps the facts with their identities. -/
theorem FactsBelong.step (h : FactsBelong cache) {c : CacheCall} (hclean : Clean cache c) :
    FactsBelong (cache.step c) := by
  cases c with
  | clear works => exact h.clear works
  | about refresh attempt about turn => exact h.storeAbout about
  | info refresh attempt journalName version turn =>
    rw [factsBelong_info_iff h]
    cases journalName with
    | some journalName =>
      intro hstores name hname
      rw [Option.getD_some, Option.mem_def] at hname
      simp [VersionCache.step, hstores, hname]
    | none =>
      have hsame : (cache.step (.info refresh attempt none version turn)).names = cache.names := by
        simp [VersionCache.step]
      rw [hsame, Option.getD_none]
      intro hstores name hname
      obtain ⟨r, hr, hname⟩ := Option.bind_eq_some_iff.mp hname
      by_cases hidentity : r.identity = refresh.identity
      · rw [← hidentity]
        exact h.name r (mem_of_mem_readRecord hr) name hname
      · rw [hclean hstores r hr hidentity] at hname
        cases hname

/-- Of another identity's record an update carries over the name that it does not bring. -/
theorem infoRecord_of_ne {r : JournalVersionRecord} (hne : r.identity ≠ refresh.identity)
    (journalName : Option (Option Str)) (version : Str) (wallNow : ℤ) :
    refresh.infoRecord journalName version wallNow (some r) =
      { refresh.infoRecord journalName version wallNow none with
        journalName := journalName.getD r.journalName } := by
  simp only [VersionRefreshState.infoRecord, Option.bind_some, Option.bind_none,
    Option.filter_none, JournalVersionRecord.mk.injEq, and_true, true_and]
  refine Option.bind_eq_none_iff.mpr fun record hrecord => ?_
  obtain ⟨hsome, hsame⟩ := Option.filter_eq_some_iff.mp hrecord
  obtain rfl := Option.some.inj hsome
  simp only [Bool.and_eq_true, decide_eq_true_eq] at hsame
  exact absurd (Prod.ext hsame.1.1 hsame.1.2) hne

theorem notCarried_info_iff (journalName : Option (Option Str)) (version : Str) :
    NotCarried cache (.info refresh attempt journalName version turn) ↔
      (VersionCache.storesInfo refresh attempt version turn →
        ∀ r ∈ turn.readRecord cache.file, r.identity ≠ refresh.identity →
          journalName.getD r.journalName = journalName.getD none) := by
  have hfile := info_file cache refresh attempt turn journalName version
  have hempty := info_file { cache with file := none } refresh attempt turn journalName version
  have hnone : turn.readRecord none = none := by
    unfold CacheTurn.readRecord
    split <;> rfl
  by_cases hstores : VersionCache.storesInfo refresh attempt version turn = true
  · rw [if_pos hstores] at hfile hempty
    rw [hnone] at hempty
    constructor
    · intro hkept _ r hr hne
      rw [Option.mem_def.mp hr] at hfile
      have hsame := hkept r (mem_of_mem_readRecord hr) _ hfile hne.symm
      rw [hempty, infoRecord_of_ne hne, Option.some_inj] at hsame
      exact (congrArg JournalVersionRecord.journalName hsame).symm
    · intro hnames r hr r' hr' hne
      rw [hfile, Option.mem_some_iff] at hr'
      subst hr'
      rw [hempty]
      by_cases hread : turn.readable = true
      · have hr : turn.readRecord cache.file = some r := by
          rw [CacheTurn.readRecord, if_pos hread]
          exact hr
        have hforeign : r.identity ≠ refresh.identity := fun heq => hne heq.symm
        rw [hr, infoRecord_of_ne hforeign, hnames hstores r hr hforeign]
        rfl
      · rw [CacheTurn.readRecord, if_neg hread]
  · rw [if_neg hstores] at hfile
    refine ⟨fun _ hcontra => absurd hcontra hstores, fun _ r hr r' hr' hne => ?_⟩
    rw [hfile, Option.mem_def.mp hr, Option.mem_some_iff] at hr'
    exact absurd (congrArg JournalVersionRecord.identity hr').symm hne

/-- Host facts are only stored in a record of their own identity. -/
theorem notCarried_about (about : About) :
    NotCarried cache (.about refresh attempt about turn) := by
  intro r hr r' hr' hne
  have hfile := about_file cache refresh attempt turn about
  rw [hfile] at hr'
  split at hr'
  · obtain ⟨r'', hread, rfl⟩ := Option.map_eq_some_iff.mp hr'
    obtain rfl : r'' = r := Option.some.inj ((mem_of_mem_readRecord hread).symm.trans hr)
    exact absurd rfl hne
  · exact absurd (congrArg JournalVersionRecord.identity (Option.some.inj (hr'.symm.trans hr))) hne

/-- An update carries nothing over from another identity exactly when it is clean. -/
theorem notCarried_iff (c : CacheCall) : NotCarried cache c ↔ Clean cache c := by
  cases c with
  | clear works =>
    refine ⟨fun _ => trivial, fun _ r hr r' hr' hne => ?_⟩
    cases works with
    | true => cases hr'
    | false =>
      exact absurd (congrArg JournalVersionRecord.identity
        (Option.some.inj (Eq.trans (Eq.symm hr') hr))) hne
  | about refresh attempt about turn => exact ⟨fun _ => trivial, fun _ => notCarried_about about⟩
  | info refresh attempt journalName version turn =>
    rw [notCarried_info_iff]
    cases journalName with
    | some journalName => exact ⟨fun _ => trivial, fun _ _ _ _ _ => rfl⟩
    | none => exact Iff.rfl

end Steps

/-- In every state of a run the facts belong to the identity they are filed under, and no update of
the run carries anything over from another identity's record, exactly when no update that brings no
name finds the name of another identity. -/
theorem facts_belong_iff (file : Option JournalVersionRecord) (calls : List CacheCall) :
    ((∀ before, before <+: calls → FactsBelong (.after file before)) ∧
      ∀ before c, before ++ [c] <+: calls → NotCarried (.after file before) c) ↔
      ∀ before c, before ++ [c] <+: calls → Clean (.after file before) c := by
  constructor
  · rintro ⟨-, hkept⟩ before c hprefix
    exact (notCarried_iff c).mp (hkept before c hprefix)
  · intro hclean
    refine ⟨fun before => ?_, fun before c hprefix =>
      (notCarried_iff c).mpr (hclean before c hprefix)⟩
    induction before using List.reverseRecOn with
    | nil => exact fun _ => factsBelong_start file
    | append_singleton before c ih =>
      intro hprefix
      have hbefore := ih ((List.prefix_append before [c]).trans hprefix)
      have hstep : VersionCache.after file (before ++ [c]) =
          (VersionCache.after file before).step c := by
        simp [VersionCache.after]
      rw [hstep]
      exact hbefore.step (hclean before c hprefix)

/-- A record of one journal, and a session with another. -/
def oldRecord : JournalVersionRecord :=
  ⟨1, "old".toList, "aa".toList, "1.2.3".toList, some "home".toList, none, none, true,
    "run".toList, 1⟩

/-- The session's update: the journal answers with its version alone. -/
def namelessUpdate : CacheCall :=
  .info ⟨"new".toList, "bb".toList, ⟨"run".toList, 2⟩, 1⟩ 1 none "2.0.1".toList
    ⟨true, .locked ⟨"run".toList, 2⟩, some ("new".toList, [0xbb]), true, .done, 100⟩

/-- The new journal's record gets the old journal's name. -/
theorem foreign_name_kept :
    (VersionCache.after (some oldRecord) [namelessUpdate]).file =
        some ⟨1, "new".toList, "bb".toList, "2.0.1".toList, some "home".toList, none, some 100, true,
          "run".toList, 2⟩ ∧
      ¬ FactsBelong (.after (some oldRecord) [namelessUpdate]) ∧
      ¬ NotCarried (.after (some oldRecord) []) namelessUpdate := by
  have hfile : (VersionCache.after (some oldRecord) [namelessUpdate]).file =
      some ⟨1, "new".toList, "bb".toList, "2.0.1".toList, some "home".toList, none, some 100, true,
        "run".toList, 2⟩ := by decide
  refine ⟨hfile, fun hkept => ?_, fun hkept => ?_⟩
  · have hname := hkept.name _ hfile "home".toList rfl
    revert hname
    decide
  · have hsame := hkept oldRecord rfl _ hfile (by decide)
    revert hsame
    decide

end SolstoneTmux
