import SolstoneTmux.Foundations.Glob
import SolstoneTmux.Time
import SolstoneTmux.Tmux.Adapter

/-!
# Which sessions are taken in

`list_output_sessions` takes in the sessions of recent output whose names match a configured
pattern, in which a star stands for any run of characters.

* `matchesSessionPattern_iff`: the greedy matcher decides the language of the pattern.
* `listOutputSessions_printed`: of the sessions that tmux prints, exactly the recent matching ones
  are taken in, in their order and without a warning.
-/

namespace SolstoneTmux

open Foundations

/-! ## Patterns -/

/-- `matches_session_pattern`. -/
def matchesSessionPattern (pattern session : Str) : Bool :=
  let parts := pattern.splitOn '*'
  match stripPrefix (parts.headD []) session with
  | none => false
  | some rest =>
    match parts.tail.getLast? with
    | none => rest.isEmpty
    | some last =>
      match findAllAfter parts.tail.dropLast rest with
      | none => false
      | some rest => (utf8 last).length ≤ (utf8 rest).length && last.isSuffixOf rest

/-- What ends a text is no longer than the text. -/
theorem length_utf8_le_of_suffix {last rest : Str} (h : last <:+ rest) :
    (utf8 last).length ≤ (utf8 rest).length := by
  obtain ⟨t, rfl⟩ := h
  rw [utf8_append, List.length_append]
  exact Nat.le_add_left _ _

theorem matchesSessionPattern_iff (pattern session : Str) :
    matchesSessionPattern pattern session = true ↔ Fits '*' pattern session := by
  obtain ⟨first, parts, hparts⟩ := List.exists_cons_of_ne_nil (List.splitOn_ne_nil '*' pattern)
  rw [fits_iff_parts, matchesSessionPattern, hparts, List.headD_cons, List.tail_cons]
  cases hstrip : stripPrefix first session with
  | none =>
    simp only [Bool.false_eq_true, false_iff]
    rintro ⟨rest, rfl, -⟩
    simp at hstrip
  | some rest =>
    have hsession := stripPrefix_eq_some.mp hstrip
    have hfit : PartsFit (first :: parts) session ↔ Gaps parts rest := by
      constructor
      · rintro ⟨rest', hrest', hgaps⟩
        rw [hsession, List.append_cancel_left_eq] at hrest'
        exact hrest' ▸ hgaps
      · exact fun hgaps => ⟨rest, hsession, hgaps⟩
    rw [hfit]
    rcases List.eq_nil_or_concat parts with rfl | ⟨middle, last, rfl⟩
    · simp [Gaps]
    · rw [List.concat_eq_append, gaps_append_singleton]
      simp only [List.getLast?_append, List.getLast?_singleton, Option.some_or,
        List.dropLast_concat]
      cases findAllAfter middle rest with
      | none => simp
      | some rest' => simpa using length_utf8_le_of_suffix

instance (pattern session : Str) : Decidable (Fits '*' pattern session) :=
  decidable_of_iff _ (matchesSessionPattern_iff pattern session)

-- the last part does not overlap what the part before it took
example : ¬ Fits '*' "a*ba*a".toList "aba".toList := by decide

/-! ## Sessions of recent output -/

/-- A row that was dropped, and why. -/
structure RowWarning where
  row : Str
  reason : Str
  deriving DecidableEq

/-- The session and the activity of a row of list-sessions, or why it is dropped. -/
def readSessionRow (row : Str) : Except Str (Str × ℤ) :=
  match rsplitOnce ' ' row with
  | none => .error "missing activity separator".toList
  | some (session, activity) =>
    match parseI64 activity with
    | none => .error "activity is not an integer".toList
    | some activity => .ok (session, activity)

/-- The rows of `list_output_sessions`: the sessions taken in and the warnings, in order. -/
def takeSessions (outputSessions : List Str) (now maximumAge : ℤ) :
    List Str → List Str × List RowWarning
  | [] => ([], [])
  | row :: rs =>
    let (sessions, warnings) := takeSessions outputSessions now maximumAge rs
    match readSessionRow row with
    | .error reason => (sessions, ⟨row, reason⟩ :: warnings)
    | .ok (session, activity) =>
      if session.isEmpty || now - activity > maximumAge ||
          !outputSessions.any (matchesSessionPattern · session) then
        (sessions, warnings)
      else (session :: sessions, warnings)

/-- `TmuxAdapter::list_output_sessions`, with its warnings. -/
def TmuxAdapter.listOutputSessions {ε : Type} (adapter : TmuxAdapter ε) (now : ℤ)
    (pollInterval : ℕ) : Except (TmuxError ε) (List Str × List RowWarning) :=
  if adapter.outputSessions.isEmpty then .ok ([], [])
  else
    match adapter.runText .listSessions with
    | .ok stdout =>
      .ok (takeSessions adapter.outputSessions now (asSecs pollInterval) (rows stdout))
    | .error (.noServer _) => .ok ([], [])
    | .error error => .error error

/-- A session as tmux lists it: a name of one line and the time of its last output. -/
structure ListedSession where
  session : Str
  activity : ℤ
  named : session ≠ []
  oneLine : '\n' ∉ session
  ranged : -(2 ^ 63) ≤ activity ∧ activity < 2 ^ 63

namespace ListedSession

/-- `#{session_name} #{window_activity}`. -/
def print (listed : ListedSession) : Str := listed.session ++ ' ' :: intText listed.activity

theorem readSessionRow_print (listed : ListedSession) :
    readSessionRow listed.print = .ok (listed.session, listed.activity) := by
  have hspace : ' ' ∉ intText listed.activity := not_mem_intText rfl (by decide) _
  simp only [readSessionRow, print, rsplitOnce_append hspace, parseI64_intText listed.ranged]

theorem print_oneLine (listed : ListedSession) :
    '\n' ∉ listed.print ∧ listed.print.getLast? ≠ some '\r' := by
  constructor
  · rw [print, List.mem_append, List.mem_cons, not_or, not_or]
    exact ⟨listed.oneLine, by decide, not_mem_intText rfl (by decide) _⟩
  · intro hlast
    have hmem : '\r' ∈ ' ' :: intText listed.activity := by
      rw [print, List.getLast?_append_of_ne_nil _ (by simp)] at hlast
      exact List.mem_of_getLast? hlast
    rcases List.mem_cons.mp hmem with h | h
    · exact absurd h (by decide)
    · exact not_mem_intText rfl (by decide) _ h

/-- The session wrote output within the age and matches one of the patterns. -/
def Wanted (outputSessions : List Str) (now maximumAge : ℤ) (listed : ListedSession) : Prop :=
  now - listed.activity ≤ maximumAge ∧ ∃ pattern ∈ outputSessions, Fits '*' pattern listed.session

instance (outputSessions : List Str) (now maximumAge : ℤ) (listed : ListedSession) :
    Decidable (listed.Wanted outputSessions now maximumAge) :=
  inferInstanceAs (Decidable (_ ∧ _))

theorem takeSessions_print (outputSessions : List Str) (now maximumAge : ℤ)
    (roster : List ListedSession) :
    takeSessions outputSessions now maximumAge (roster.map print) =
      ((roster.filter (·.Wanted outputSessions now maximumAge)).map session, []) := by
  induction roster with
  | nil => rfl
  | cons listed roster ih =>
    rw [List.map_cons, takeSessions, ih, readSessionRow_print]
    have hskip : (listed.session.isEmpty || decide (now - listed.activity > maximumAge) ||
        !outputSessions.any (matchesSessionPattern · listed.session)) = true ↔
          ¬ listed.Wanted outputSessions now maximumAge := by
      simp only [Wanted, Bool.or_eq_true, List.isEmpty_iff, listed.named, false_or,
        decide_eq_true_eq, Bool.not_eq_true', List.any_eq_false, matchesSessionPattern_iff,
        not_and_or, not_le, gt_iff_lt, not_exists, imp_iff_not_or]
    by_cases hwanted : listed.Wanted outputSessions now maximumAge
    · rw [List.filter_cons_of_pos (by simpa using hwanted)]
      simp only [if_neg (fun h => hskip.mp h hwanted)]
      rfl
    · rw [List.filter_cons_of_neg (by simpa using hwanted)]
      simp only [if_pos (hskip.mpr hwanted)]

end ListedSession

theorem listOutputSessions_printed {ε : Type} (adapter : TmuxAdapter ε) (now : ℤ)
    (pollInterval : ℕ) (roster : List ListedSession) :
    (adapter.printing .listSessions
        (printRows (roster.map ListedSession.print))).listOutputSessions now pollInterval =
      .ok ((roster.filter
        (·.Wanted adapter.outputSessions now (asSecs pollInterval))).map ListedSession.session,
          []) := by
  have hrows : rows (printRows (roster.map ListedSession.print)) =
      roster.map ListedSession.print := by
    refine rows_printed fun row hrow => ?_
    obtain ⟨listed, -, rfl⟩ := List.mem_map.mp hrow
    exact listed.print_oneLine
  rw [TmuxAdapter.listOutputSessions, TmuxAdapter.runText_printing]
  split
  · rename_i hnone
    rw [TmuxAdapter.printing_outputSessions, List.isEmpty_iff] at hnone
    have hnobody : roster.filter
        (·.Wanted adapter.outputSessions now (asSecs pollInterval)) = [] := by
      rw [List.filter_eq_nil_iff]
      simp [ListedSession.Wanted, hnone]
    rw [hnobody]
    rfl
  · simp only [hrows, TmuxAdapter.printing_outputSessions, ListedSession.takeSessions_print]

/-- Session patterns are globs: the matcher decides their language, and the sessions taken in are
the recent ones that match some configured pattern. -/
theorem session_patterns_are_globs {ε : Type} (adapter : TmuxAdapter ε) (now : ℤ)
    (pollInterval : ℕ) (roster : List ListedSession) :
    (∀ pattern session, matchesSessionPattern pattern session = true ↔
        Fits '*' pattern session) ∧
      (adapter.printing .listSessions
          (printRows (roster.map ListedSession.print))).listOutputSessions now pollInterval =
        .ok ((roster.filter (·.Wanted adapter.outputSessions now (asSecs pollInterval))).map
          ListedSession.session, []) :=
  ⟨matchesSessionPattern_iff, listOutputSessions_printed adapter now pollInterval roster⟩

end SolstoneTmux
