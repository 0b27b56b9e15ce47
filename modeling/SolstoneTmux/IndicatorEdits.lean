import SolstoneTmux.Indicator
import SolstoneTmux.Foundations.Lease
import Mathlib.Tactic.Set

/-!
# The owner's edits under the indicator

While the indicator is installed the owner of the server may change its options at any time. To
the indicator each option is a `Lease` (`leaseOf`): it knows what the option was and what it has
written, and infers from the current value whether that is still in place. `Leased.step` says that
every operation changes each of the leases as a lease changes; `edits_survive` follows for every
order of operations and edits.
-/

namespace SolstoneTmux

open Foundations Foundations.Prog

/-! ## Operations and edits -/

/-- What happens on a server while the indicator is installed: an operation of the indicator, or an
edit by the owner, who may clear an option too. -/
inductive ServerAct
  | refresh
  | setWorking (working : Bool)
  | edit (option : TmuxOption) (value : Option Str)

/-- The indicator and the options after an operation. -/
def afterOperation {α : Type} (indicator : ServerIndicator) :
    Ended Empty (ServerIndicator × α) × TmuxOptions → ServerIndicator × TmuxOptions
  | (.done (indicator, _), o) => (indicator, o)
  | (_, o) => (indicator, o)

/-- The indicator and the options after one act, when every command works. -/
def afterAct (server : Str) (s : ServerIndicator × TmuxOptions) : ServerAct → ServerIndicator × TmuxOptions
  | .refresh => afterOperation s.1 (run [] (s.1.refresh server) s.2)
  | .setWorking working => afterOperation s.1 (run [] (s.1.setWorking working) s.2)
  | .edit option value => (s.1, s.2.set option value)

/-- The indicator and the options after a number of acts. -/
def afterActs (server : Str) (s : ServerIndicator × TmuxOptions) (acts : List ServerAct) :
    ServerIndicator × TmuxOptions := acts.foldl (afterAct server) s

/-- The options once the indicator is gone. -/
def restoredOptions (s : ServerIndicator × TmuxOptions) : TmuxOptions :=
  (afterOperation s.1 (run [] s.1.restore s.2)).2

/-! ## Options as leases -/

/-- The value of an option. -/
def OptionValue.value : OptionValue → Option Str
  | .absent => none
  | .present value => some value

/-- The options without what a run of the indicator has left in them. -/
def normalized (o : TmuxOptions) : TmuxOption → Option Str
  | .statusLeft => o.statusLeft.bind fun left => (normalizeStatusLeft (.present left)).value
  | .statusLeftLength =>
    let widened : Bool := o.statusLeft.any fun left =>
      normalizeStatusLeft (.present left) ≠ .present left
    o.statusLeftLength.bind fun length => (parseU32 (trim length)).map fun columns =>
      decimal (if widened then columns - 1 else columns)
  | .solstone => o.solstone.bind fun value => (normalizeSolstone (.present value)).value

/-- What an option is to an indicator that leases it. -/
def leaseOf (ownership : IndicatorOwnership) (length : LengthOwnership) (o : TmuxOptions) :
    TmuxOption → Lease (Option Str)
  | .statusLeft =>
    { original := ownership.originalStatusLeft.value
      written := some ownership.writtenStatusLeft
      current := o.statusLeft
      held := true }
  | .statusLeftLength =>
    { original := some length.original
      written := some length.written
      current := o.statusLeftLength
      held := true }
  | .solstone =>
    { original := ownership.originalSolstone.value
      written := some ownership.writtenSolstone
      current := o.solstone
      held := ownership.solstoneOwned }

/-- What the indicator's own option is rewritten to changes the lease of that option only. -/
def solstoneActs (value : Str) (option : TmuxOption) : List (LeaseAct (Option Str)) :=
  if option = .solstone then [.update (some value)] else []

/-- What `setWorking` writes. -/
def workingValue (working : Bool) : Str := if working then syncingValue else observingValue

/-- What an act does to the lease of an option. -/
def leaseActs (option : TmuxOption) : ServerAct → List (LeaseAct (Option Str))
  | .refresh => []
  | .setWorking working => solstoneActs (workingValue working) option
  | .edit edited value => if edited = option then [.edit value] else []

section Leases

variable {server : Str} {ownership : IndicatorOwnership} {length : LengthOwnership}
  {o : TmuxOptions}

/-- What a read of an option answers. -/
def readAnswer (o : TmuxOptions) (option : TmuxOption) : Except IndicatorError OptionValue :=
  match o.get option with
  | some value => .ok (.present value)
  | none => if option = .solstone then .ok .absent else .error (.nonzero option.name 1 [])

@[simp] theorem run_readOption {ε : Type} (option : TmuxOption) (o : TmuxOptions) :
    run [] (readOption option : IndicatorProg ε _) o = (.done (readAnswer o option), o) := rfl

theorem readAnswer_some {option : TmuxOption} {value : Str} (h : o.get option = some value) :
    readAnswer o option = .ok (.present value) := by
  rw [readAnswer, h]

theorem readAnswer_none {option : TmuxOption} (h : o.get option = none) :
    readAnswer o option =
      if option = .solstone then .ok .absent else .error (.nonzero option.name 1 []) := by
  rw [readAnswer, h]

@[simp] theorem run_serverIdentity {ε : Type} (server : Str) (o : TmuxOptions) :
    run [] (serverIdentity server : IndicatorProg ε _) o = (.done (.ok server), o) := rfl

@[simp] theorem run_writeOption {ε : Type} (option : TmuxOption) (value : Str) (o : TmuxOptions) :
    run [] (writeOption option value : IndicatorProg ε _) o =
      (.done (.ok ()), o.set option (some value)) := rfl

@[simp] theorem run_restoreValue {ε : Type} (option : TmuxOption) (value : OptionValue)
    (o : TmuxOptions) : run [] (restoreValue option value : IndicatorProg ε _) o =
      (.done (.ok ()), o.set option value.value) := by
  cases value <;> rfl

/-- Rewriting the indicator's option is an update of its lease. -/
theorem run_updateSolstone (ownership : IndicatorOwnership) (length : LengthOwnership)
    (o : TmuxOptions) (value : Str) : ∃ ownership' answer o',
    run [] (ownership.updateSolstone value : IndicatorProg Empty _) o =
        (.done (ownership', .ok answer), o') ∧ ownership'.length = ownership.length ∧
      ∀ option, leaseOf ownership' length o' option =
        (leaseOf ownership length o option).after (solstoneActs value option) := by
  by_cases howned : ownership.solstoneOwned = true
  · by_cases hcurrent : o.solstone = some ownership.writtenSolstone
    · have hread : readAnswer o .solstone = .ok (.present ownership.writtenSolstone) :=
        readAnswer_some hcurrent
      by_cases hvalue : value = ownership.writtenSolstone
      · refine ⟨ownership, true, o, ?_, rfl, fun option => ?_⟩
        · simp [IndicatorOwnership.updateSolstone, howned, hread, hvalue]
        · cases option <;>
          simp [leaseOf, solstoneActs, Lease.after, Lease.step, howned, hcurrent, hvalue]
      · refine ⟨{ ownership with writtenSolstone := value }, true,
          o.set .solstone (some value), ?_, rfl, fun option => ?_⟩
        · simp [IndicatorOwnership.updateSolstone, howned, hread, hvalue]
        · cases option <;>
          simp [leaseOf, solstoneActs, Lease.after, Lease.step, TmuxOptions.set, howned, hcurrent]
    · refine ⟨{ ownership with solstoneOwned := false }, false, o, ?_, rfl, fun option => ?_⟩
      · have hread : ∃ now, readAnswer o .solstone = .ok now ∧
            now ≠ .present ownership.writtenSolstone := by
          cases hnow : o.solstone with
          | none => exact ⟨.absent, readAnswer_none hnow, fun h => by cases h⟩
          | some now =>
            exact ⟨.present now, readAnswer_some hnow, fun h => by cases h; exact hcurrent hnow⟩
        obtain ⟨now, hread, hother⟩ := hread
        simp [IndicatorOwnership.updateSolstone, howned, hread, hother]
      · cases option <;>
        simp [leaseOf, solstoneActs, Lease.after, Lease.step, howned, hcurrent]
  · refine ⟨ownership, false, o, ?_, rfl, fun option => ?_⟩
    · simp [IndicatorOwnership.updateSolstone, howned]
    · cases option <;>
      simp [leaseOf, solstoneActs, Lease.after, Lease.step, howned]

/-- The indicator is installed, and these are its leases. -/
def Leased (server : Str) (s : ServerIndicator × TmuxOptions)
    (lease : TmuxOption → Lease (Option Str)) : Prop :=
  ∃ ownership length, s.1.installed = some (server, ownership) ∧ ownership.length = some length ∧
    ∀ option, leaseOf ownership length s.2 option = lease option

variable {s : ServerIndicator × TmuxOptions} {lease : TmuxOption → Lease (Option Str)}

/-- Every act changes each option as its lease says. -/
theorem Leased.step (h : Leased server s lease) (a : ServerAct) :
    Leased server (afterAct server s a) fun option => (lease option).after (leaseActs option a) := by
  obtain ⟨ownership, length, hinstalled, hlength, hlease⟩ := h
  cases a with
  | refresh =>
    have hrun : run [] (s.1.refresh server : IndicatorProg Empty _) s.2 =
        (.done (s.1, .ok ()), s.2) := by
      simp [ServerIndicator.refresh, hinstalled]
    refine ⟨ownership, length, ?_, hlength, fun option => ?_⟩
    · rw [afterAct, hrun]
      exact hinstalled
    · rw [afterAct, hrun]
      exact hlease option
  | setWorking working =>
    obtain ⟨ownership', answer, o', hrun, hlength', hlease'⟩ :=
      run_updateSolstone ownership length s.2 (workingValue working)
    have hset : run [] (s.1.setWorking working : IndicatorProg Empty _) s.2 =
        (.done ({ installed := some (server, ownership'), working := working }, .ok ()), o') := by
      rw [workingValue] at hrun
      simp [ServerIndicator.setWorking, hinstalled, hrun]
    refine ⟨ownership', length, ?_, hlength'.trans hlength, fun option => ?_⟩
    · rw [afterAct, hset]
      rfl
    · rw [afterAct, hset]
      exact (hlease' option).trans (congrArg (Lease.after · _) (hlease option))
  | edit edited value =>
    refine ⟨ownership, length, hinstalled, hlength, fun option => ?_⟩
    refine Eq.trans ?_ (congrArg (Lease.after · _) (hlease option))
    cases edited <;> cases option <;> rfl

theorem Leased.steps (h : Leased server s lease) (acts : List ServerAct) :
    Leased server (afterActs server s acts) fun option =>
      (lease option).after (acts.flatMap (leaseActs option)) := by
  induction acts generalizing s lease with
  | nil => exact h
  | cons a acts ih =>
    have hrest := ih (h.step a)
    simp only [← Lease.after_append] at hrest
    exact hrest

/-- The options with one of them set back, when the indicator's value is in place. -/
def setBack (o : TmuxOptions) (option : TmuxOption) (written : Str) (original : OptionValue) :
    TmuxOptions :=
  if o.get option = some written then o.set option original.value else o

/-- One option of `restore`. -/
theorem run_restoreOption (o : TmuxOptions) (option : TmuxOption) (written : Str)
    (original : OptionValue) : ∃ failures,
      run [] (restoreOption option written original (readAnswer o option)) o =
        (.done failures, setBack o option written original) := by
  rw [setBack]
  cases hvalue : o.get option with
  | none =>
    rw [readAnswer_none hvalue]
    by_cases hoption : option = .solstone
    · exact ⟨[], by simp [restoreOption, hoption]⟩
    · exact ⟨[restoreFailure option true (.nonzero option.name 1 [])],
        by simp [restoreOption, hoption]⟩
  | some value =>
    rw [readAnswer_some hvalue]
    by_cases hown : value = written
    · exact ⟨[], by simp [restoreOption, hown]⟩
    · exact ⟨[], by simp [restoreOption, hown]⟩

/-- The options after `restore`. -/
def afterRestore (ownership : IndicatorOwnership) (length : LengthOwnership) (o : TmuxOptions) :
    TmuxOptions :=
  let o := setBack o .statusLeft ownership.writtenStatusLeft ownership.originalStatusLeft
  let o := setBack o .statusLeftLength length.written (.present length.original)
  if ownership.solstoneOwned then
    setBack o .solstone ownership.writtenSolstone ownership.originalSolstone
  else o

theorem run_restore (hlength : ownership.length = some length) (o : TmuxOptions) :
    (run [] ownership.restore o).2 = afterRestore ownership length o := by
  obtain ⟨first, hfirst⟩ := run_restoreOption o .statusLeft ownership.writtenStatusLeft
    ownership.originalStatusLeft
  obtain ⟨second, hsecond⟩ := run_restoreOption (setBack o .statusLeft ownership.writtenStatusLeft
    ownership.originalStatusLeft) .statusLeftLength length.written (.present length.original)
  rw [afterRestore]
  generalize setBack o .statusLeft _ _ = o₁ at *
  obtain ⟨third, hthird⟩ := run_restoreOption (setBack o₁ .statusLeftLength length.written
    (.present length.original)) .solstone ownership.writtenSolstone ownership.originalSolstone
  generalize setBack o₁ .statusLeftLength _ _ = o₂ at *
  have hrest (left : Except IndicatorError OptionValue) (hne : left ≠ .error .noServer)
      (hread : readAnswer o .statusLeft = left) : run [] ownership.restore o =
        run [] ((restoreOption .statusLeft ownership.writtenStatusLeft ownership.originalStatusLeft
          left).bind fun failures =>
            ((readOption .statusLeftLength).bind (restoreOption .statusLeftLength length.written
              (.present length.original))).bind fun lengthFailures =>
            (if ownership.solstoneOwned then
              (readOption .solstone).bind
                (restoreOption .solstone ownership.writtenSolstone ownership.originalSolstone)
            else done []).bind fun solstoneFailures =>
            if (failures ++ lengthFailures ++ solstoneFailures).isEmpty then done ()
            else raise (failures ++ lengthFailures ++ solstoneFailures)) o := by
    rw [IndicatorOwnership.restore, run_bind, run_readOption, quietThen_done, hread, hlength]
    cases left with
    | ok current => rfl
    | error error =>
      cases error with
      | noServer => exact absurd rfl hne
      | _ => rfl
  rw [hrest _ ?_ rfl]
  · simp only [run_bind, hfirst, quietThen_done, run_readOption, hsecond]
    cases ownership.solstoneOwned with
    | true =>
      simp only [if_true, run_bind, run_readOption, quietThen_done, hthird]
      split <;> rfl
    | false =>
      simp only [Bool.false_eq_true, if_false, run_done, quietThen_done]
      split <;> rfl
  · rw [readAnswer]
    split <;> simp

/-- Restoring ends every lease. -/
theorem Leased.get_restored (h : Leased server s lease) (option : TmuxOption) :
    (restoredOptions s).get option = (lease option).restored := by
  obtain ⟨ownership, length, hinstalled, hlength, hlease⟩ := h
  rw [← hlease option]
  have hgone : restoredOptions s = afterRestore ownership length s.2 := by
    rw [← run_restore hlength, restoredOptions, ServerIndicator.restore, hinstalled]
    simp only [run_bind, run_attempt]
    generalize run [] ownership.restore s.2 = ended
    obtain ⟨r, o⟩ := ended
    cases r <;> rfl
  rw [hgone, afterRestore]
  obtain ⟨indicator, left, columns, solstone⟩ := s
  cases hheld : ownership.solstoneOwned <;> cases option <;>
  simp only [setBack, leaseOf, Lease.restored, TmuxOptions.get, hheld] <;>
  grind [TmuxOptions.set, OptionValue.value]

/-- The value that the indicator last wrote to an option. -/
def lastWritten (indicator : ServerIndicator) : TmuxOption → Option Str
  | .statusLeft => indicator.installed.map fun installed => installed.2.writtenStatusLeft
  | .statusLeftLength => indicator.installed.bind fun installed =>
    installed.2.length.map LengthOwnership.written
  | .solstone => indicator.installed.map fun installed => installed.2.writtenSolstone

theorem Leased.written (h : Leased server s lease) (option : TmuxOption) :
    lastWritten s.1 option = (lease option).written := by
  obtain ⟨ownership, length, hinstalled, hlength, hlease⟩ := h
  rw [← hlease option]
  cases option <;> simp [lastWritten, leaseOf, hinstalled, hlength]

theorem Leased.get (h : Leased server s lease) (option : TmuxOption) :
    s.2.get option = (lease option).current := by
  obtain ⟨ownership, length, -, -, hlease⟩ := h
  rw [← hlease option]
  cases option <;> rfl

/-- What an operation of the indicator changes, it has last written. -/
theorem Leased.operation (h : Leased server s lease) {a : ServerAct}
    (ha : ∀ option value, a ≠ .edit option value) (option : TmuxOption) :
    ((afterAct server s a).2.get option = s.2.get option ∧
        lastWritten (afterAct server s a).1 option =
          lastWritten s.1 option) ∨
      (afterAct server s a).2.get option =
        lastWritten (afterAct server s a).1 option := by
  rw [(h.step a).get option, (h.step a).written option, h.get option,
    h.written option]
  cases a with
  | refresh => exact .inl ⟨rfl, rfl⟩
  | setWorking working =>
    rw [leaseActs, solstoneActs]
    split
    · exact (lease option).step_update _
    · exact .inl ⟨rfl, rfl⟩
  | edit edited value => exact absurd rfl (ha edited value)

/-- What an installation remembers. -/
def takenOver (o : TmuxOptions) (left : Str) (length : LengthOwnership) : IndicatorOwnership where
  originalStatusLeft := normalizeStatusLeft (.present left)
  originalSolstone := match o.solstone with
    | some value => normalizeSolstone (.present value)
    | none => .absent
  writtenStatusLeft := markedStatusLeft (normalizeStatusLeft (.present left))
  writtenSolstone := observingValue
  solstoneOwned := true
  length := some length

/-- The options after an installation. -/
def takenOptions (left : Str) (length : LengthOwnership) : TmuxOptions where
  statusLeft := some (markedStatusLeft (normalizeStatusLeft (.present left)))
  statusLeftLength := some length.written
  solstone := some observingValue

theorem run_installDefault {left columns : Str} {length : LengthOwnership}
    (hleft : o.statusLeft = some left) (hcolumns : o.statusLeftLength = some columns)
    (hlength : LengthOwnership.fromCurrent (.present columns)
      (decide (normalizeStatusLeft (.present left) ≠ .present left)) = some length) :
    run [] installDefault o = (.done (takenOver o left length), takenOptions left length) := by
  have hsolstone : ∃ solstone, readAnswer o .solstone = .ok solstone ∧
      normalizeSolstone solstone = match o.solstone with
        | some value => normalizeSolstone (.present value)
        | none => .absent := by
    cases hvalue : o.solstone with
    | none => exact ⟨.absent, readAnswer_none hvalue, rfl⟩
    | some value => exact ⟨.present value, readAnswer_some hvalue, rfl⟩
  obtain ⟨solstone, hread, hnormal⟩ := hsolstone
  have hreadLeft : readAnswer o .statusLeft = .ok (.present left) := readAnswer_some hleft
  have hreadColumns : readAnswer o .statusLeftLength = .ok (.present columns) :=
    readAnswer_some hcolumns
  simp only [installDefault, run_bind, run_readOption, quietThen_done, orRaise_ok, run_done,
    hreadLeft, hreadColumns, hread, hnormal, hlength, installWithOriginals, run_writeOption,
    installSolstone]
  rfl

/-- The leases after an installation. -/
theorem leased_start (server : Str) {left columns : Str} {n : ℕ}
    (hleft : o.statusLeft = some left) (hcolumns : o.statusLeftLength = some columns)
    (numeric : parseU32 (trim columns) = some n) :
    ∃ indicator o', ∃ written : TmuxOption → Option Str,
      run [] (ServerIndicator.start server) o = (.done indicator, o') ∧
        Leased server (indicator, o') fun option =>
          Lease.taken (normalized o option) (written option) := by
  have hlength : ∃ length, LengthOwnership.fromCurrent (.present columns)
      (decide (normalizeStatusLeft (.present left) ≠ .present left)) = some length ∧
        normalized o .statusLeftLength = some length.original := by
    simp [LengthOwnership.fromCurrent, numeric, normalized, hleft, hcolumns, indicatorWidth]
  obtain ⟨length, hlength, hcolumnsBefore⟩ := hlength
  have hinstall := run_installDefault hleft hcolumns hlength
  refine ⟨⟨some (server, takenOver o left length), false⟩, takenOptions left length,
    (takenOptions left length).get, ?_, takenOver o left length, length, rfl, rfl,
    fun option => ?_⟩
  · simp [ServerIndicator.start, ServerIndicator.refresh, ServerIndicator.install, hinstall,
      returned]
  · cases option with
    | statusLeft =>
      simp [leaseOf, takenOver, takenOptions, Lease.taken, normalized, hleft, TmuxOptions.get]
    | statusLeftLength =>
      simp [leaseOf, takenOptions, Lease.taken, hcolumnsBefore, TmuxOptions.get]
    | solstone =>
      cases hvalue : o.solstone <;>
      simp [leaseOf, takenOver, takenOptions, Lease.taken, normalized, hvalue, TmuxOptions.get,
        OptionValue.value]

end Leases

/-- **The indicator never undoes the owner's edits.** After any operations and edits, each option
holds what it was before the installation or what the owner gave it; and an owner's last edit stays
when it is not the value that the indicator had last written. -/
theorem edits_survive (server : Str) {o : TmuxOptions} {left columns : Str} {n : ℕ}
    (hleft : o.statusLeft = some left) (hcolumns : o.statusLeftLength = some columns)
    (numeric : parseU32 (trim columns) = some n) :
    ∃ indicator o', run [] (ServerIndicator.start server) o = (.done indicator, o') ∧
      ∀ (acts : List ServerAct) (option : TmuxOption),
        let final := (restoredOptions (afterActs server (indicator, o') acts)).get option
        (final = normalized o option ∨ .edit option final ∈ acts) ∧
          ∀ before value after, acts = before ++ .edit option value :: after →
            (∀ other, .edit option other ∉ after) →
            lastWritten (afterActs server (indicator, o') before).1 option ≠ value →
            final = value := by
  obtain ⟨indicator, o', written, hrun, hleased⟩ := leased_start server hleft hcolumns numeric
  refine ⟨indicator, o', hrun, fun acts option => ?_⟩
  have hedits : ∀ {acts : List ServerAct} {value : Option Str},
      LeaseAct.edit value ∈ acts.flatMap (leaseActs option) → ServerAct.edit option value ∈ acts := by
    intro acts value hmem
    obtain ⟨a, ha, hedit⟩ := List.mem_flatMap.mp hmem
    cases a with
    | refresh => cases hedit
    | setWorking working =>
      simp only [leaseActs, solstoneActs] at hedit
      split at hedit <;> simp at hedit
    | edit edited other =>
      simp only [leaseActs] at hedit
      split at hedit
      · rename_i hsame
        simp only [List.mem_singleton, LeaseAct.edit.injEq] at hedit
        rwa [hedit, ← hsame]
      · cases hedit
  dsimp only
  rw [(hleased.steps acts).get_restored option]
  refine ⟨(Lease.restored_cases _ _ _).imp_right hedits, ?_⟩
  rintro before value after rfl hlast hwritten
  rw [(hleased.steps before).written option] at hwritten
  rw [List.flatMap_append, List.flatMap_cons]
  simp only [leaseActs, if_true, List.singleton_append]
  exact Lease.restored_of_last_edit hwritten fun other hother => hlast other (hedits hother)

/-- Options with what is left of a run that was killed. -/
def leftBehind : TmuxOptions := ⟨some "x".toList, some "10".toList, some syncingValue⟩

theorem edits_survive_leftBehind : ∃ indicator o',
    run [] (ServerIndicator.start "1 0".toList) leftBehind = (.done indicator, o') ∧
      ∀ value, (restoredOptions (afterActs "1 0".toList (indicator, o')
          [.setWorking true, .edit .solstone value, .setWorking false])).get .solstone = none ∨
        (restoredOptions (afterActs "1 0".toList (indicator, o')
          [.setWorking true, .edit .solstone value, .setWorking false])).get .solstone = value := by
  have hnumeric : parseU32 (trim "10".toList) = some 10 := by decide
  obtain ⟨indicator, o', hrun, hacts⟩ := edits_survive "1 0".toList
    (rfl : leftBehind.statusLeft = some "x".toList)
    (rfl : leftBehind.statusLeftLength = some "10".toList) hnumeric
  refine ⟨indicator, o', hrun, fun value => ?_⟩
  obtain ⟨hcases, -⟩ := hacts [.setWorking true, .edit .solstone value, .setWorking false] .solstone
  refine hcases.imp id fun hedit => ?_
  simpa using hedit

end SolstoneTmux
