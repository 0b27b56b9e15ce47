import SolstoneTmux.Indicator

/-!
# Interrupted runs of the indicator

A run installs the indicator and restores the options; it may be stopped at any of its commands.
`run_keeps_inStep` says which stops keep `status-left` and `status-left-length` in step, and
`restored_of_unseparated` that after any number of such runs an undisturbed one restores both. The
other stops fall between the two commands of a pair (`Separates`).
-/

namespace SolstoneTmux

open Foundations Foundations.Prog

/-! ## Lengths and marks -/

theorem isWhitespace_of_isDigit {c : Char} (h : isDigit c = true) : isWhitespace c = false := by
  rw [isDigit, Bool.and_eq_true, decide_eq_true_eq, decide_eq_true_eq] at h
  simp only [isWhitespace, Bool.or_eq_false_iff, Bool.and_eq_false_iff, decide_eq_false_iff_not,
    List.contains_eq_mem, List.mem_cons, List.not_mem_nil, or_false]
  omega

theorem trim_of_digits {s : Str} (h : ∀ c ∈ s, isDigit c = true) : trim s = s := by
  have hdrop : ∀ t : Str, (∀ c ∈ t, isDigit c = true) → t.dropWhile isWhitespace = t := by
    intro t ht
    cases t with
    | nil => rfl
    | cons c t =>
      rw [List.dropWhile_cons_of_neg]
      rw [isWhitespace_of_isDigit (ht c List.mem_cons_self)]
      exact Bool.false_ne_true
  rw [trim, hdrop s h, hdrop _ fun c hc => h c (List.mem_reverse.mp hc), List.reverse_reverse]

theorem parseU32_decimal {n : ℕ} (h : n < 2 ^ 32) : parseU32 (trim (decimal n)) = some n := by
  rw [trim_of_digits fun c hc => isDigit_of_mem_decimal hc]
  exact parseU32_digits h

theorem fromCurrent_narrow {n : ℕ} (h : n + 1 < 2 ^ 32) :
    LengthOwnership.fromCurrent (.present (decimal n)) false =
      some ⟨decimal n, decimal (n + 1)⟩ := by
  have hmin : min (n + indicatorWidth) (2 ^ 32 - 1) = n + 1 := by
    rw [indicatorWidth]
    omega
  simp only [LengthOwnership.fromCurrent, parseU32_decimal (Nat.lt_of_succ_lt h), Option.map_some,
    Bool.false_eq_true, if_false, hmin]

theorem fromCurrent_widened {n : ℕ} (h : n + 1 < 2 ^ 32) :
    LengthOwnership.fromCurrent (.present (decimal (n + 1))) true =
      some ⟨decimal n, decimal (n + 1)⟩ := by
  have hmin : min (n + 1 - indicatorWidth + indicatorWidth) (2 ^ 32 - 1) = n + 1 := by
    rw [indicatorWidth]
    omega
  simp only [LengthOwnership.fromCurrent, parseU32_decimal h, Option.map_some, if_true, hmin]
  rfl

theorem stripMarks_of_not_marked {left : Str} (h : ¬ indicatorMark <+: left) (fuel : ℕ) :
    stripMarks fuel left = left := by
  cases fuel with
  | zero => rfl
  | succ fuel =>
    rw [stripMarks]
    split
    · rename_i rest hrest
      exact absurd ⟨rest, (stripPrefix_eq_some.mp hrest).symm⟩ h
    · rfl

theorem normalizeStatusLeft_plain {left : Str} (h : ¬ indicatorMark <+: left) :
    normalizeStatusLeft (.present left) = .present left := by
  rw [normalizeStatusLeft, stripMarks_of_not_marked h]

theorem normalizeStatusLeft_marked {left : Str} (h : ¬ indicatorMark <+: left) :
    normalizeStatusLeft (.present (indicatorMark ++ left)) = .present left := by
  obtain ⟨fuel, hfuel⟩ : ∃ fuel, (indicatorMark ++ left).length = fuel + 1 :=
    ⟨_, (Nat.succ_pred_eq_of_pos (by
      rw [List.length_append]
      exact Nat.add_pos_left (by decide) _)).symm⟩
  rw [normalizeStatusLeft, hfuel, stripMarks, stripPrefix_append]
  simp only [stripMarks_of_not_marked h]

theorem indicatorMark_ne_nil : indicatorMark ≠ [] := by decide

/-! ## Stops -/

/-- The commands of an undisturbed run, in order. -/
inductive RunCommand
  | readLeft
  | readLength
  | readSolstone
  | writeLeft
  | writeLength
  | writeSolstone
  | rereadLeft
  | restoreLeft
  | rereadLength
  | restoreLength
  | rereadSolstone
  | restoreSolstone
  deriving DecidableEq

/-- The number of commands before one. -/
def RunCommand.position : RunCommand → ℕ
  | readLeft => 0
  | readLength => 1
  | readSolstone => 2
  | writeLeft => 3
  | writeLength => 4
  | writeSolstone => 5
  | rereadLeft => 6
  | restoreLeft => 7
  | rereadLength => 8
  | restoreLength => 9
  | rereadSolstone => 10
  | restoreSolstone => 11

/-- How a run goes: to its end, until it is killed before a command, or with a command that
fails. -/
inductive RunCourse
  | undisturbed
  | killed (command : RunCommand)
  | failed (command : RunCommand) (error : IndicatorError)
  deriving DecidableEq

/-- What becomes of the commands of a run. -/
def RunCourse.turns : RunCourse → List CommandTurn
  | undisturbed => []
  | killed command => List.replicate command.position .ok ++ [.kill]
  | failed command error => List.replicate command.position .ok ++ [.fail error]

/-- The options after a run. -/
def afterRun (o : TmuxOptions) (course : RunCourse) : TmuxOptions :=
  (run course.turns indicatorRun o).2

/-- The options after a number of runs. -/
def afterRuns (o : TmuxOptions) (courses : List RunCourse) : TmuxOptions := courses.foldl afterRun o

/-- The indicator stands in front of `status-left`. -/
def isMarked (o : TmuxOptions) : Bool :=
  o.statusLeft.any fun left => (stripPrefix indicatorMark left).isSome

/-- A run is stopped between its commands for the two options: it is killed when only one of them
has taken effect, or one of the two fails and the other one is carried out. -/
def Separates (o : TmuxOptions) : RunCourse → Prop
  | .undisturbed => False
  | .killed command =>
    (command = .writeLength ∧ isMarked o = false) ∨ command = .rereadLength ∨
      command = .restoreLength
  | .failed command error =>
    (command = .writeLength ∧ (isMarked o = true ↔ error ≠ .noServer)) ∨
      (command = .rereadLeft ∧ error ≠ .noServer) ∨ command = .restoreLeft ∨
      command = .rereadLength ∨ command = .restoreLength

/-- No run is stopped between its commands for the two options. -/
def Unseparated (o : TmuxOptions) : List RunCourse → Prop
  | [] => True
  | course :: courses => ¬ Separates o course ∧ Unseparated (afterRun o course) courses

/-! ## Options in step -/

/-- The options that the owner set. -/
structure Plain (left : Str) (length : ℕ) (o : TmuxOptions) : Prop where
  left : o.statusLeft = some left
  length : o.statusLeftLength = some (decimal length)

/-- The owner's options with the indicator. -/
structure Marked (left : Str) (length : ℕ) (o : TmuxOptions) : Prop where
  left : o.statusLeft = some (indicatorMark ++ left)
  length : o.statusLeftLength = some (decimal (length + 1))

/-- Either both options are the owner's or both carry the indicator. -/
def InStep (left : Str) (length : ℕ) (o : TmuxOptions) : Prop :=
  Plain left length o ∨ Marked left length o

/-- What an installation remembers. -/
def remembered (left : Str) (length : ℕ) (o : TmuxOptions) : IndicatorOwnership where
  originalStatusLeft := .present left
  originalSolstone := match o.solstone with
    | some value => normalizeSolstone (.present value)
    | none => .absent
  writtenStatusLeft := indicatorMark ++ left
  writtenSolstone := observingValue
  solstoneOwned := true
  length := some ⟨decimal length, decimal (length + 1)⟩

/-- The options after an installation. -/
def installed (left : Str) (length : ℕ) : TmuxOptions where
  statusLeft := some (indicatorMark ++ left)
  statusLeftLength := some (decimal (length + 1))
  solstone := some observingValue

section InStep

variable {left : Str} {length : ℕ} {o : TmuxOptions} {ε : Type}

theorem isMarked_plain (hleft : ¬ indicatorMark <+: left) (h : Plain left length o) :
    isMarked o = false := by
  rw [isMarked, h.left, Option.any_some, ← Bool.not_eq_true, Option.isSome_iff_exists]
  rintro ⟨rest, hrest⟩
  exact hleft ⟨rest, (stripPrefix_eq_some.mp hrest).symm⟩

theorem isMarked_marked (h : Marked left length o) : isMarked o = true := by
  rw [isMarked, h.left, Option.any_some, stripPrefix_append]
  rfl

theorem plain_iff : Plain left length o ↔
    o.statusLeft = some left ∧ o.statusLeftLength = some (decimal length) :=
  ⟨fun h => ⟨h.left, h.length⟩, fun h => ⟨h.1, h.2⟩⟩

theorem marked_iff : Marked left length o ↔
    o.statusLeft = some (indicatorMark ++ left) ∧ o.statusLeftLength = some (decimal (length + 1)) :=
  ⟨fun h => ⟨h.left, h.length⟩, fun h => ⟨h.1, h.2⟩⟩

theorem decimal_succ_ne (n : ℕ) : decimal (n + 1) ≠ decimal n := fun h =>
  Nat.succ_ne_self n (decimal_injective h)

theorem default_turn : (default : CommandTurn) = .ok := rfl

/-- An installation's writes and the restoration after them. -/
def writesAndRestores (ownership : IndicatorOwnership) : IndicatorProg Unit Unit :=
  ((installWithOriginals ownership).rethrow fun _ => ()).bind fun ownership =>
    ownership.restore.rethrow fun _ => ()

/-- The three reads of an installation recognise the owner's options. -/
theorem run_reads (hleft : ¬ indicatorMark <+: left) (hlength : length + 1 < 2 ^ 32)
    (h : InStep left length o) (ts : List CommandTurn) :
    run (.ok :: .ok :: .ok :: ts) indicatorRun o =
      run ts (writesAndRestores (remembered left length o)) o := by
  obtain ⟨a, b, c⟩ := o
  rcases h with ⟨rfl, rfl⟩ | ⟨rfl, rfl⟩
  · cases c <;>
    simp [indicatorRun, writesAndRestores, installDefault, readOption, optionCommand, Prog.bind,
      Prog.rethrow, run, TmuxOptions.get, normalizeStatusLeft_plain hleft,
      fromCurrent_narrow hlength, markedStatusLeft, remembered, normalizeSolstone]
  · cases c <;>
    simp [indicatorRun, writesAndRestores, installDefault, readOption, optionCommand, Prog.bind,
      Prog.rethrow, run, TmuxOptions.get, normalizeStatusLeft_marked hleft,
      fromCurrent_widened hlength, markedStatusLeft, remembered, normalizeSolstone,
      indicatorMark_ne_nil]

/-- The three writes of an installation. -/
theorem run_writes (left : Str) (length : ℕ) (o : TmuxOptions) (ts : List CommandTurn) :
    run (.ok :: .ok :: .ok :: ts) (writesAndRestores (remembered left length o)) o =
      run ts ((remembered left length o).restore.rethrow fun _ => ()) (installed left length) := by
  obtain ⟨a, b, c⟩ := o
  simp [writesAndRestores, installWithOriginals, installSolstone, writeOption, optionCommand,
    orRaise, Prog.bind, Prog.rethrow, run, TmuxOptions.set, remembered, installed]

theorem run_install (hleft : ¬ indicatorMark <+: left) (hlength : length + 1 < 2 ^ 32)
    (h : InStep left length o) (ts : List CommandTurn) :
    run (.ok :: .ok :: .ok :: .ok :: .ok :: .ok :: ts) indicatorRun o =
      run ts ((remembered left length o).restore.rethrow fun _ => ()) (installed left length) :=
  (run_reads hleft hlength h _).trans (run_writes left length o ts)

/-- A run that is stopped at one of its reads has changed nothing. -/
theorem run_stopped_reading (h : InStep left length o) {t : CommandTurn} (ht : t ≠ .ok) {n : ℕ}
    (hn : n < 3) : (run (List.replicate n .ok ++ [t]) indicatorRun o).2 = o := by
  obtain ⟨a, b, c⟩ := o
  obtain ⟨a, rfl⟩ : ∃ x, a = some x := h.elim (fun h => ⟨_, h.left⟩) fun h => ⟨_, h.left⟩
  obtain ⟨b, rfl⟩ : ∃ x, b = some x := h.elim (fun h => ⟨_, h.length⟩) fun h => ⟨_, h.length⟩
  cases t with
  | ok => exact absurd rfl ht
  | fail error =>
    interval_cases n <;>
    simp [indicatorRun, installDefault, readOption, optionCommand, Prog.bind, Prog.rethrow, run,
      TmuxOptions.get, orRaise, List.replicate]
  | kill =>
    interval_cases n <;>
    simp [indicatorRun, installDefault, readOption, optionCommand, Prog.bind, Prog.rethrow, run,
      TmuxOptions.get, List.replicate]

/-- A run that is stopped at a write of its installation keeps the options in step, except between
the first two writes: there a kill leaves just the indicator written, and a failure sets
`status-left` back, whatever the length was. -/
theorem inStep_stopped_writing (hleft : ¬ indicatorMark <+: left) (h : InStep left length o)
    {t : CommandTurn} (ht : t ≠ .ok) {n : ℕ} (hn : n < 3) :
    InStep left length
        (run (List.replicate n .ok ++ [t]) (writesAndRestores (remembered left length o)) o).2 ↔
      ¬ (n = 1 ∧ ((t = .kill ∧ isMarked o = false) ∨
        ∃ error, t = .fail error ∧ (isMarked o = true ↔ error ≠ .noServer))) := by
  have hne := decimal_succ_ne length
  rcases h with h | h
  · rw [isMarked_plain hleft h]
    obtain ⟨a, b, c⟩ := o
    obtain ⟨rfl, rfl⟩ := h
    rcases t with _ | error | _
    · exact absurd rfl ht
    · interval_cases n <;> cases error <;>
      simp [writesAndRestores, installWithOriginals, installSolstone, abandonInstall, rollBack,
        writeOption, restoreValue, optionCommand, orRaise, Prog.bind, Prog.rethrow, run,
        TmuxOptions.set, remembered, InStep, plain_iff, marked_iff, hne.symm, indicatorMark_ne_nil,
        List.replicate, default_turn]
    · interval_cases n <;>
      simp [writesAndRestores, installWithOriginals, installSolstone, writeOption, optionCommand,
        orRaise, Prog.bind, Prog.rethrow, run, TmuxOptions.set, remembered, InStep, plain_iff,
        marked_iff, hne.symm, indicatorMark_ne_nil, List.replicate]
  · rw [isMarked_marked h]
    obtain ⟨a, b, c⟩ := o
    obtain ⟨rfl, rfl⟩ := h
    rcases t with _ | error | _
    · exact absurd rfl ht
    · interval_cases n <;> cases error <;>
      simp [writesAndRestores, installWithOriginals, installSolstone, abandonInstall, rollBack,
        writeOption, restoreValue, optionCommand, orRaise, Prog.bind, Prog.rethrow, run,
        TmuxOptions.set, remembered, InStep, plain_iff, marked_iff, hne, indicatorMark_ne_nil,
        List.replicate, default_turn]
    · interval_cases n <;>
      simp [writesAndRestores, installWithOriginals, installSolstone, writeOption, optionCommand,
        orRaise, Prog.bind, Prog.rethrow, run, TmuxOptions.set, remembered, InStep, plain_iff,
        marked_iff, List.replicate]

/-- A restoration that is stopped sets both options back or neither, except when it is killed with
only the text set back, or one of the two options fails and the other does not. -/
theorem inStep_stopped_restoring (o : TmuxOptions) {t : CommandTurn} (ht : t ≠ .ok) {n : ℕ}
    (hn : n < 6) :
    InStep left length (run (List.replicate n .ok ++ [t])
        ((remembered left length o).restore.rethrow fun _ => ()) (installed left length)).2 ↔
      ¬ ((t = .kill ∧ (n = 2 ∨ n = 3)) ∨
        ∃ error, t = .fail error ∧ ((n = 0 ∧ error ≠ .noServer) ∨ n = 1 ∨ n = 2 ∨ n = 3)) := by
  have hne := decimal_succ_ne length
  rw [remembered]
  generalize (match o.solstone with
    | some value => normalizeSolstone (.present value)
    | none => .absent) = solstone
  rcases t with _ | error | _
  · exact absurd rfl ht
  · interval_cases n <;> cases error <;> cases solstone <;>
    simp [IndicatorOwnership.restore, restoreOption, restoreValue, readOption, writeOption,
      clearOption, optionCommand, Prog.bind, Prog.rethrow, run, TmuxOptions.set, TmuxOptions.get,
      installed, InStep, plain_iff, marked_iff, hne, hne.symm, indicatorMark_ne_nil, List.replicate,
      default_turn]
  · interval_cases n <;> cases solstone <;>
    simp [IndicatorOwnership.restore, restoreOption, restoreValue, readOption, writeOption,
      clearOption, optionCommand, Prog.bind, Prog.rethrow, run, TmuxOptions.set, TmuxOptions.get,
      installed, InStep, plain_iff, marked_iff, hne, hne.symm, indicatorMark_ne_nil, List.replicate]

/-- An undisturbed restoration. -/
theorem plain_restored (left : Str) (length : ℕ) (o : TmuxOptions) :
    Plain left length (run [] ((remembered left length o).restore.rethrow fun _ => ())
      (installed left length)).2 := by
  rw [remembered]
  generalize (match o.solstone with
    | some value => normalizeSolstone (.present value)
    | none => .absent) = solstone
  cases solstone <;>
  simp [IndicatorOwnership.restore, restoreOption, restoreValue, readOption, writeOption,
    clearOption, optionCommand, Prog.bind, Prog.rethrow, run, TmuxOptions.set, TmuxOptions.get,
    installed, plain_iff, default_turn]

/-- An undisturbed run from options in step sets both of them back. -/
theorem plain_undisturbed (hleft : ¬ indicatorMark <+: left) (hlength : length + 1 < 2 ^ 32)
    (h : InStep left length o) : Plain left length (afterRun o .undisturbed) := by
  have hrun : run [] indicatorRun o =
      run [] ((remembered left length o).restore.rethrow fun _ => ()) (installed left length) :=
    (run_replicate_default 6 _ _).symm.trans (run_install hleft hlength h [])
  rw [afterRun, RunCourse.turns, hrun]
  exact plain_restored left length o

/-- The stops after which a run leaves the options in step. -/
theorem inStep_afterRun_iff (hleft : ¬ indicatorMark <+: left) (hlength : length + 1 < 2 ^ 32)
    (h : InStep left length o) (course : RunCourse) :
    InStep left length (afterRun o course) ↔ ¬ Separates o course := by
  have hreading (t : CommandTurn) (n : ℕ) (ht : t ≠ .ok) (hn : n < 3) :
      InStep left length (run (List.replicate n .ok ++ [t]) indicatorRun o).2 := by
    rwa [run_stopped_reading h ht hn]
  have hwriting (t : CommandTurn) (n : ℕ) (ht : t ≠ .ok) (hn : n < 3) :=
    (iff_of_eq (congrArg (fun r => InStep left length r.2)
      (run_reads hleft hlength h (List.replicate n .ok ++ [t])))).trans
      (inStep_stopped_writing hleft h ht hn)
  have hrestoring (t : CommandTurn) (n : ℕ) (ht : t ≠ .ok) (hn : n < 6) :=
    (iff_of_eq (congrArg (fun r => InStep left length r.2)
      (run_install hleft hlength h (List.replicate n .ok ++ [t])))).trans
      (inStep_stopped_restoring o ht hn)
  cases course with
  | undisturbed => exact iff_of_true (.inl (plain_undisturbed hleft hlength h)) id
  | killed command =>
    have ht : CommandTurn.kill ≠ .ok := by decide
    cases command with
    | readLeft => exact iff_of_true (hreading _ 0 ht (by decide)) (by simp [Separates])
    | readLength => exact iff_of_true (hreading _ 1 ht (by decide)) (by simp [Separates])
    | readSolstone => exact iff_of_true (hreading _ 2 ht (by decide)) (by simp [Separates])
    | writeLeft => exact (hwriting _ 0 ht (by decide)).trans (by simp [Separates])
    | writeLength => exact (hwriting _ 1 ht (by decide)).trans (by simp [Separates])
    | writeSolstone => exact (hwriting _ 2 ht (by decide)).trans (by simp [Separates])
    | rereadLeft => exact (hrestoring _ 0 ht (by decide)).trans (by simp [Separates])
    | restoreLeft => exact (hrestoring _ 1 ht (by decide)).trans (by simp [Separates])
    | rereadLength => exact (hrestoring _ 2 ht (by decide)).trans (by simp [Separates])
    | restoreLength => exact (hrestoring _ 3 ht (by decide)).trans (by simp [Separates])
    | rereadSolstone => exact (hrestoring _ 4 ht (by decide)).trans (by simp [Separates])
    | restoreSolstone => exact (hrestoring _ 5 ht (by decide)).trans (by simp [Separates])
  | failed command error =>
    have ht : CommandTurn.fail error ≠ .ok := nofun
    cases command with
    | readLeft => exact iff_of_true (hreading _ 0 ht (by decide)) (by simp [Separates])
    | readLength => exact iff_of_true (hreading _ 1 ht (by decide)) (by simp [Separates])
    | readSolstone => exact iff_of_true (hreading _ 2 ht (by decide)) (by simp [Separates])
    | writeLeft => exact (hwriting _ 0 ht (by decide)).trans (by simp [Separates])
    | writeLength => exact (hwriting _ 1 ht (by decide)).trans (by simp [Separates])
    | writeSolstone => exact (hwriting _ 2 ht (by decide)).trans (by simp [Separates])
    | rereadLeft => exact (hrestoring _ 0 ht (by decide)).trans (by simp [Separates])
    | restoreLeft => exact (hrestoring _ 1 ht (by decide)).trans (by simp [Separates])
    | rereadLength => exact (hrestoring _ 2 ht (by decide)).trans (by simp [Separates])
    | restoreLength => exact (hrestoring _ 3 ht (by decide)).trans (by simp [Separates])
    | rereadSolstone => exact (hrestoring _ 4 ht (by decide)).trans (by simp [Separates])
    | restoreSolstone => exact (hrestoring _ 5 ht (by decide)).trans (by simp [Separates])

/-- Runs that are not stopped between their commands for the two options keep them in step. -/
theorem inStep_afterRuns (hleft : ¬ indicatorMark <+: left) (hlength : length + 1 < 2 ^ 32)
    (courses : List RunCourse) (h : InStep left length o) (hruns : Unseparated o courses) :
    InStep left length (afterRuns o courses) := by
  induction courses generalizing o with
  | nil => exact h
  | cons course courses ih =>
    exact ih ((inStep_afterRun_iff hleft hlength h course).mpr hruns.1) hruns.2

end InStep

/-- After runs that are not stopped between their commands for the two options, an undisturbed run
restores what the owner had set. -/
theorem restored_of_unseparated {left : Str} {length : ℕ} {o : TmuxOptions}
    {courses : List RunCourse} (hleft : ¬ indicatorMark <+: left) (hlength : length + 1 < 2 ^ 32)
    (hplain : Plain left length o) (hruns : Unseparated o courses) :
    Plain left length (afterRun (afterRuns o courses) .undisturbed) :=
  plain_undisturbed hleft hlength (inStep_afterRuns hleft hlength courses (.inl hplain) hruns)

/-- Options as an owner may have set them. -/
def tenColumns : TmuxOptions := ⟨some "x".toList, some (decimal 10), none⟩

theorem restored_of_unseparated_tenColumns :
    Plain "x".toList 10 (afterRun (afterRuns tenColumns
      [.killed .writeSolstone, .failed .rereadSolstone .noServer]) .undisturbed) :=
  restored_of_unseparated (by decide) (by decide) ⟨rfl, rfl⟩
    ⟨by simp [Separates], by simp [Separates], trivial⟩

/-- A run that is killed between its first two writes costs the owner a column. -/
theorem column_lost_by_kill :
    ¬ indicatorMark <+: "x".toList ∧ Plain "x".toList 10 tenColumns ∧
      (afterRun (afterRuns tenColumns [.killed .writeLength]) .undisturbed).statusLeftLength =
        some (decimal 9) ∧
      ¬ Plain "x".toList 10 (afterRun (afterRuns tenColumns [.killed .writeLength]) .undisturbed) := by
  have hlength : (afterRun (afterRuns tenColumns [.killed .writeLength]) .undisturbed).statusLeftLength
      = some (decimal 9) := by decide +kernel
  refine ⟨by decide, ⟨rfl, rfl⟩, hlength, fun h => ?_⟩
  have hsame := Option.some.inj (hlength.symm.trans h.length)
  exact absurd hsame (by decide)

end SolstoneTmux
