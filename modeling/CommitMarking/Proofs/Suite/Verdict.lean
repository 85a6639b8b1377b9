import CommitMarking.Testing
import CommitMarking.Proofs.Lists

namespace CommitMarking

section Steps

variable {α β : Type} {f : α → StateM World β}

theorem run_mapM_cons (f : α → StateM World β) (a : α) (as : List α) (w : World) :
    ((a :: as).mapM f).run w =
      (((f a).run w).1 :: ((as.mapM f).run ((f a).run w).2).1,
        ((as.mapM f).run ((f a).run w).2).2) := by
  rw [List.mapM_cons]
  rfl

/-- Every step is judged as it ends in the world that the steps before it have left. -/
theorem all_mapM_iff {p : β → Bool} {as : List α} {w : World} :
    ((as.mapM f).run w).1.all p = true ↔
      ∀ before a after, as = before ++ a :: after →
        p ((f a).run ((before.mapM f).run w).2).1 = true := by
  induction as generalizing w with
  | nil =>
      refine iff_of_true rfl fun before a after h => ?_
      cases (List.append_eq_nil_iff.1 h.symm).2
  | cons a as ih =>
      rw [run_mapM_cons, List.all_cons, Bool.and_eq_true, ih]
      constructor
      · rintro ⟨ha, has⟩ before b after h
        cases before with
        | nil =>
            obtain ⟨rfl, -⟩ := List.cons_eq_cons.1 h
            exact ha
        | cons c before =>
            obtain ⟨rfl, hs⟩ := List.cons_eq_cons.1 h
            rw [run_mapM_cons]
            exact has before b after hs
      · intro h
        refine ⟨h [] a as rfl, fun before b after hs => ?_⟩
        have hb := h (a :: before) b after (by rw [hs, List.cons_append])
        rwa [run_mapM_cons] at hb

end Steps

theorem CaseOutcome.passed_eq (c : CaseOutcome) : c.passed = decide (c.failure = none) := by
  rw [passed, Bool.eq_iff_iff, Option.isNone_iff_eq_none, decide_eq_true_iff]

namespace SuiteOutcome

def LastLine (s line : String) : Prop :=
  ∃ above below, Text.lines s = above ++ line :: below ∧ Text.blank line = false ∧
    ∀ l ∈ below, Text.blank l = true

theorem lastLine?_eq_some_iff {s line : String} : lastLine? s = some line ↔ LastLine s line := by
  rw [lastLine?, find?_reverse_eq_some_iff]
  simp only [Bool.not_eq_true', Bool.not_eq_false']
  constructor
  · rintro ⟨hb, above, below, hs, hblank⟩
    exact ⟨above, below, hs, hb, hblank⟩
  · rintro ⟨above, below, hs, hb, hblank⟩
    exact ⟨hb, above, below, hs, hblank⟩

theorem lastLine?_eq_none_iff {s : String} :
    lastLine? s = none ↔ ∀ l ∈ Text.lines s, Text.blank l = true := by
  simp [lastLine?]

/-- A host that ends like this lets its suite pass. -/
inductive Clears (policy : EmptySuite) (suite : String) : Except ProcessError Execution → Prop
  | intro {e : Execution} {line : String} {report : SuiteReport} (exit : e.exitCode = some 0)
      (last : LastLine e.stdoutText line) (reads : SuiteReport.read? line = some report)
      (named : report.suite = suite) (clean : ∀ c ∈ report.cases, c.failure = none)
      (counts : report.cases ≠ [] ∨ policy = .pass) : Clears policy suite (.ok e)

/-- The ways in which a host fails its suite that have nothing to do with its cases. -/
inductive Spoils (suite : String) : Except ProcessError Execution → Prop
  | unstarted (error : ProcessError) : Spoils suite (.error error)
  | hung {e : Execution} (exit : e.exitCode = none) : Spoils suite (.ok e)
  | crashed {e : Execution} {code : Int} (exit : e.exitCode = some code) (nonzero : code ≠ 0) :
      Spoils suite (.ok e)
  | silent {e : Execution} (blank : ∀ l ∈ Text.lines e.stdoutText, Text.blank l = true) :
      Spoils suite (.ok e)
  | garbled {e : Execution} {line : String} (last : LastLine e.stdoutText line)
      (unread : SuiteReport.read? line = none) : Spoils suite (.ok e)
  | misnamed {e : Execution} {line : String} {report : SuiteReport}
      (last : LastLine e.stdoutText line) (reads : SuiteReport.read? line = some report)
      (other : report.suite ≠ suite) : Spoils suite (.ok e)

variable {policy : EmptySuite} {suite : String} {e : Execution}

theorem LastLine.unique {s line other : String} (h : LastLine s line) (ho : LastLine s other) :
    line = other :=
  Option.some.inj ((lastLine?_eq_some_iff.2 h).symm.trans (lastLine?_eq_some_iff.2 ho))

theorem Spoils.not_clears {result : Except ProcessError Execution} (h : Spoils suite result) :
    ¬Clears policy suite result := by
  rintro ⟨exit, last, reads, named, -, -⟩
  cases h with
  | hung none => cases none.symm.trans exit
  | crashed some nonzero => exact nonzero (Option.some.inj (some.symm.trans exit))
  | silent blank => cases (lastLine?_eq_none_iff.2 blank).symm.trans (lastLine?_eq_some_iff.2 last)
  | garbled last' unread =>
      rw [last'.unique last, reads] at unread
      cases unread
  | misnamed last' reads' other =>
      rw [last'.unique last, reads] at reads'
      cases reads'
      exact other named

theorem passed_completed {cases : List CaseOutcome} :
    (completed cases).passed policy = true ↔
      (∀ c ∈ cases, c.failure = none) ∧ (cases ≠ [] ∨ policy = .pass) := by
  cases cases with
  | nil => simp [passed]
  | cons c cs => simp [passed, CaseOutcome.passed_eq]

theorem passed_ofExecution : (ofExecution suite e).passed policy = true ↔
    Clears policy suite (.ok e) := by
  constructor
  · intro h
    unfold ofExecution at h
    cases exit : e.exitCode with
    | none => rw [exit] at h; cases h
    | some code =>
        rw [exit] at h
        dsimp only at h
        split at h
        next hc =>
            subst hc
            unfold ofOutput at h
            cases last : lastLine? e.stdoutText with
            | none => rw [last] at h; cases h
            | some line =>
                rw [last] at h
                cases reads : SuiteReport.read? line with
                | none => simp only [reads] at h; cases h
                | some report =>
                    simp only [reads] at h
                    split at h
                    next named =>
                        obtain ⟨clean, counts⟩ := passed_completed.1 h
                        exact ⟨exit, lastLine?_eq_some_iff.1 last, reads, named, clean, counts⟩
                    next => cases h
        next => cases h
  · rintro ⟨exit, last, reads, named, clean, counts⟩
    simp only [ofExecution, exit, if_true, ofOutput, lastLine?_eq_some_iff.2 last, reads, named]
    exact passed_completed.2 ⟨clean, counts⟩

end SuiteOutcome

namespace Testing

open SuiteOutcome

variable (t : Testing) (m : Machine) (dir : Location)

def hosted (before : List String) (suite : String) (w : World) : Except ProcessError Execution :=
  let v := ((before.mapM (t.runSuite m dir)).run w).2
  ((m.execute (.ok dir) t.timeout (t.host ++ [suite, dir.text])).run v).1

theorem passed_runSuite (suite : String) (w : World) :
    ((t.runSuite m dir suite).run w).1.2.passed t.emptySuite = true ↔
      Clears t.emptySuite suite
        ((m.execute (.ok dir) t.timeout (t.host ++ [suite, dir.text])).run w).1 := by
  rw [runSuite, Act.run_run_bind]
  cases ((m.execute (.ok dir) t.timeout (t.host ++ [suite, dir.text])).run w).1 with
  | error e => exact iff_of_false Bool.false_ne_true (Spoils.unstarted e).not_clears
  | ok e => exact passed_ofExecution

theorem holds_iff {outcomes : List (String × SuiteOutcome)} :
    t.holds outcomes = true ↔
      outcomes = [] ∧ t.emptySuite = .pass ∨
        outcomes ≠ [] ∧ outcomes.all (·.2.passed t.emptySuite) = true := by
  cases outcomes with
  | nil => simp [holds]
  | cons o os => simp [holds]

/-- Tests always end with a verdict. They are passed exactly if there are none and that counts as a
pass, or if each suite has a host that lets it pass; a host that is not started, does not end in
time, crashes, prints nothing, ends with anything but a report or reports on another suite does
not. -/
theorem passes_iff_cleared (commit : Commit) (w : World) :
    ∃ a v, (t.runner.run m commit dir).run w = (.ok a, v) ∧
      (a.value = true ↔
        t.suites = [] ∧ t.emptySuite = .pass ∨
          t.suites ≠ [] ∧ ∀ before suite after, t.suites = before ++ suite :: after →
            Clears t.emptySuite suite (t.hosted m dir before suite w)) ∧
      ∀ before suite after, t.suites = before ++ suite :: after →
        Spoils suite (t.hosted m dir before suite w) → a.value = false := by
  let outcomes := (t.suites.mapM (t.runSuite m dir)).run w
  have hrun : (t.runner.run m commit dir).run w =
      (.ok (.ofVerdict ⟨t.holds outcomes.1, provenance outcomes.1⟩), outcomes.2) := rfl
  have hnil : outcomes.1 = [] ↔ t.suites = [] := by
    cases hs : t.suites with
    | nil => simp only [outcomes, hs]; exact iff_true_intro rfl
    | cons suite suites => simp only [outcomes, hs, run_mapM_cons, reduceCtorEq]
  have hvalue : t.holds outcomes.1 = true ↔
      t.suites = [] ∧ t.emptySuite = .pass ∨
        t.suites ≠ [] ∧ ∀ before suite after, t.suites = before ++ suite :: after →
          Clears t.emptySuite suite (t.hosted m dir before suite w) := by
    rw [holds_iff, hnil, ne_eq, hnil, all_mapM_iff]
    simp only [passed_runSuite]
    rfl
  refine ⟨_, _, hrun, hvalue, fun before suite after hs spoils => ?_⟩
  refine Bool.eq_false_iff.2 fun hholds => ?_
  rcases hvalue.1 hholds with ⟨hempty, -⟩ | ⟨-, hclears⟩
  · rw [hempty] at hs
    cases (List.append_eq_nil_iff.1 hs.symm).2
  · exact spoils.not_clears (hclears before suite after hs)

end Testing

end CommitMarking
