import CommitMarking.Compiler
import CommitMarking.Proofs.Nesting
import CommitMarking.Proofs.Provenance
import CommitMarking.Proofs.SchemeMarks
import CommitMarking.Proofs.Suite.Verdict
import CommitMarking.Proofs.Text.Blocks

namespace CommitMarking

open Text

namespace SuiteOutcome

def caseBlocks (width : Nat) (c : CaseOutcome) : List Block :=
  match c.failure with
  | none => []
  | some message => [⟨failedRow c.name width, message ++ "\n"⟩]

def blocks (width : Nat) (suite : String) : SuiteOutcome → List Block
  | completed cases =>
      (if cases = [] then [⟨suite ++ ": (no test cases found)\n", ""⟩] else []) ++
        cases.flatMap (caseBlocks width) ++ [⟨countRow cases, ""⟩]
  | failed code stderr =>
      [⟨failedRow suite width, "(exit status " ++ Decimal.ofInt code ++ ")\n" ++ stderr⟩]
  | timeout => [⟨failedRow suite width, "(timeout)\n"⟩]
  | exception message => [⟨failedRow suite width, message ++ "\n"⟩]

def Tidy (o : SuiteOutcome) : Prop := ∀ code stderr, o = failed code stderr → EndsLine stderr

variable (width : Nat) (suite : String)

theorem printed_caseBlocks (c : CaseOutcome) : printed (caseBlocks width c) = caseRow width c := by
  rw [caseBlocks, caseRow]
  cases c.failure with
  | none => rfl
  | some message => simp [printed, Block.text, String.append_assoc]

theorem printed_blocks (o : SuiteOutcome) : printed (o.blocks width suite) = o.text width suite := by
  cases o with
  | completed cases =>
      rw [blocks, text, printed_append, printed_append, printed_flatMap (printed_caseBlocks width)]
      split <;> simp [printed, Block.text]
  | failed code stderr | timeout | exception message =>
      simp [blocks, text, printed, Block.text, String.append_assoc]

theorem blocks_ne_nil (o : SuiteOutcome) : o.blocks width suite ≠ [] := by
  cases o <;> simp [blocks]

theorem endsLine_failedRow : EndsLine (failedRow suite width) := endsLine_append _ rfl

theorem endsLine_countRow (cases : List CaseOutcome) : EndsLine (countRow cases) :=
  endsLine_append _ rfl

theorem endsLine_caseBlocks {c : CaseOutcome} {b : Block} (hb : b ∈ caseBlocks width c) :
    EndsLine b.opening ∧ EndsLine b.below := by
  rw [caseBlocks] at hb
  split at hb
  · cases hb
  · obtain rfl := List.mem_singleton.1 hb
    exact ⟨endsLine_failedRow width c.name, endsLine_append _ rfl⟩

theorem endsLine_completed (cases : List CaseOutcome) {b : Block}
    (hb : b ∈ (completed cases).blocks width suite) :
    EndsLine b.opening ∧ EndsLine b.below := by
  rw [blocks, List.mem_append, List.mem_append, List.mem_flatMap, List.mem_singleton] at hb
  rcases hb with (hnote | ⟨c, -, hc⟩) | rfl
  · split at hnote
    · obtain rfl := List.mem_singleton.1 hnote
      exact ⟨endsLine_append _ rfl, .inl rfl⟩
    · cases hnote
  · exact endsLine_caseBlocks width hc
  · exact ⟨endsLine_countRow cases, .inl rfl⟩

theorem endsLine_opening (o : SuiteOutcome) {b : Block} (hb : b ∈ o.blocks width suite) :
    EndsLine b.opening := by
  cases o with
  | completed cases => exact (endsLine_completed width suite cases hb).1
  | failed code stderr | timeout | exception message =>
      obtain rfl := List.mem_singleton.1 hb
      exact endsLine_failedRow width suite

theorem endsLine_below_iff (o : SuiteOutcome) :
    (∀ b ∈ o.blocks width suite, EndsLine b.below) ↔ o.Tidy := by
  cases o with
  | completed cases =>
      exact iff_of_true (fun b hb => (endsLine_completed width suite cases hb).2) nofun
  | failed code stderr =>
      have hstatus : EndsLine ("(exit status " ++ Decimal.ofInt code ++ ")\n") :=
        endsLine_append _ rfl
      rw [blocks, List.forall_mem_singleton, hstatus.append_iff]
      exact ⟨fun h code' stderr' he => by cases he; exact h, fun h => h code stderr rfl⟩
  | timeout =>
      rw [blocks, List.forall_mem_singleton]
      exact iff_of_true (show EndsLine "(timeout)\n" by decide) nofun
  | exception message =>
      rw [blocks, List.forall_mem_singleton]
      exact iff_of_true (endsLine_append _ rfl) nofun

theorem endsLine_below_dropLast (o : SuiteOutcome) {b : Block}
    (hb : b ∈ (o.blocks width suite).dropLast) : EndsLine b.below := by
  cases o with
  | completed cases =>
      exact (endsLine_completed width suite cases (List.dropLast_subset _ hb)).2
  | failed code stderr | timeout | exception message => cases hb

theorem tidy_of_passed {policy : EmptySuite} {o : SuiteOutcome} (h : o.passed policy = true) :
    o.Tidy := by
  rintro code stderr rfl
  cases h

end SuiteOutcome

namespace Testing

def headBlock (outcomes : List (String × SuiteOutcome)) (width : Nat) : Block :=
  ⟨heading "Test" width, if outcomes = [] then "(no test suites configured)\n" else ""⟩

def blocks (outcomes : List (String × SuiteOutcome)) (width : Nat) : List Block :=
  headBlock outcomes width :: outcomes.flatMap fun o => o.2.blocks width o.1

variable (outcomes : List (String × SuiteOutcome)) (width : Nat)

theorem printed_blocks : printed (blocks outcomes width) = provenance outcomes width := by
  rw [blocks, printed_cons, printed_flatMap fun o => o.2.printed_blocks width o.1]
  rfl

theorem endsLine_opening {b : Block} (hb : b ∈ blocks outcomes width) : EndsLine b.opening := by
  rcases List.mem_cons.1 hb with rfl | hb
  · exact endsLine_heading "Test" width
  · obtain ⟨o, -, ho⟩ := List.mem_flatMap.1 hb
    exact o.2.endsLine_opening width o.1 ho

theorem endsLine_headBlock : EndsLine (headBlock outcomes width).below := by
  rw [headBlock]
  split
  · exact (show EndsLine "(no test suites configured)\n" by decide)
  · exact .inl rfl

theorem endsLine_below_iff :
    (∀ b ∈ blocks outcomes width, EndsLine b.below) ↔ ∀ o ∈ outcomes, o.2.Tidy := by
  rw [blocks, List.forall_mem_cons, List.forall_mem_flatMap]
  simp only [SuiteOutcome.endsLine_below_iff]
  exact and_iff_right (endsLine_headBlock outcomes width)

theorem endsLine_below_dropLast_iff :
    (∀ b ∈ (blocks outcomes width).dropLast, EndsLine b.below) ↔
      ∀ o ∈ outcomes.dropLast, o.2.Tidy := by
  rcases List.eq_nil_or_concat outcomes with rfl | ⟨init, last, rfl⟩
  · exact iff_of_true nofun nofun
  rw [List.concat_eq_append, List.dropLast_concat]
  have hne : last.2.blocks width last.1 ≠ [] := last.2.blocks_ne_nil width last.1
  have hdrop : (blocks (init ++ [last]) width).dropLast =
      headBlock (init ++ [last]) width ::
        (init.flatMap (fun o => o.2.blocks width o.1) ++ (last.2.blocks width last.1).dropLast) := by
    rw [blocks, List.flatMap_append, List.flatMap_singleton, ← List.cons_append,
      List.dropLast_append_of_ne_nil hne, List.cons_append]
  rw [hdrop, List.forall_mem_cons, List.forall_mem_append, List.forall_mem_flatMap]
  simp only [SuiteOutcome.endsLine_below_iff]
  exact ⟨fun h => h.2.1, fun h => ⟨endsLine_headBlock _ width, h, fun b hb =>
    last.2.endsLine_below_dropLast width last.1 hb⟩⟩

end Testing

namespace Compiler

def block (c : Compiler) (e : Execution) (width : Nat) : Block :=
  ⟨heading c.name width, (if e.timedOut then "(timeout)\n" else "") ++ e.stdoutText ++ e.stderrText⟩

theorem text_block (c : Compiler) (e : Execution) (width : Nat) :
    (c.block e width).text = c.provenance e width := by
  simp only [Block.text, block, provenance, String.append_assoc]

theorem endsLine_below_iff {c : Compiler} {e : Execution} (h : e.exitCode = some 0) (width : Nat) :
    EndsLine (c.block e width).below ↔ EndsLine (e.stdoutText ++ e.stderrText) := by
  simp [block, Execution.timedOut, h]

theorem exists_of_run {c : Compiler} {m : Machine} {commit : Commit} {dir : Location}
    {b : Evaluation .bool} {w v : World} (h : (c.runner.run m commit dir).run w = (.ok b, v)) :
    ∃ files u e, (checkout dir c.accepts commit.entries).run w = (.ok files, u) ∧
      (m.execute (.ok dir) c.timeout (c.command dir.text files)).run u = (.ok e, v) ∧
      b = .ofVerdict ⟨e.succeeded, c.provenance e⟩ := by
  change Act.run (Evaluation.ofVerdict <$> (c.build m commit dir).mapError MarkError.process) w = _ at h
  rw [Act.run_map, Act.run_mapError] at h
  rcases hb : (c.build m commit dir).run w with ⟨x | verdict, u⟩
  · rw [hb] at h
    cases h
  rw [hb] at h
  cases h
  obtain ⟨files, u, hfiles, hnext⟩ := Act.exists_of_run_bind hb
  obtain ⟨e, u', he, hlast⟩ := Act.exists_of_run_bind hnext
  cases hlast
  exact ⟨files, u, e, hfiles, he, rfl⟩

end Compiler

namespace Commit

def sizeBlock (c : Commit) (width : Nat) : Block :=
  ⟨heading "Commit size" width,
    String.join (c.changes.map fun e => sizeRow width e.path (Entry.sizeText e.size)) ++
      sizeRow width "" ("= " ++ Decimal.ofInt c.changedSize.toInt ++ " bytes")⟩

theorem text_sizeBlock (c : Commit) (width : Nat) :
    (c.sizeBlock width).text = c.sizeProvenance width := by
  simp only [Block.text, sizeBlock, sizeProvenance, String.append_assoc]

end Commit

namespace Expr

variable {m : Machine} {commit : Commit} {scope : Scope} {w v : World}

theorem exists_of_cond_run {k : Kind} {condition : Expr .bool} {yes no : Expr k} {a : Evaluation k}
    (h : ((Expr.cond condition yes no).apply m commit scope).run w = (.ok a, v)) :
    ∃ c u b, (condition.apply m commit scope).run w = (.ok c, u) ∧
      ((if c.value then yes else no).apply m commit scope).run u = (.ok b, v) ∧
      ∀ width, a.account.provenance width =
        c.account.provenance width ++ b.account.provenance width := by
  rw [Expr.apply, Act.branch] at h
  obtain ⟨c, u, hc, hbranch⟩ := Act.exists_of_run_bind h
  have hsay (b : Evaluation k) (width : Nat) :
      (Evaluation.afterCondition condition.name c b).account.provenance width =
        c.account.provenance width ++ b.account.provenance width := by
    simp [Evaluation.afterCondition]
  cases hv : c.value with
  | true =>
      simp only [hv] at hbranch
      obtain ⟨b, u', hb, hpure⟩ := Act.exists_of_run_bind hbranch
      cases hpure
      exact ⟨c, u, b, hc, by rwa [hv, if_pos rfl], hsay b⟩
  | false =>
      simp only [hv] at hbranch
      obtain ⟨b, u', hb, hpure⟩ := Act.exists_of_run_bind hbranch
      cases hpure
      exact ⟨c, u, b, hc, by rwa [hv, if_neg Bool.false_ne_true], hsay b⟩

theorem provenance_of_leafless {k : Kind} {e : Expr k} (he : e.leaves = []) {a : Evaluation k}
    (h : (e.apply m commit scope).run w = (.ok a, v)) (width : Nat) :
    a.account.provenance width = "" := by
  obtain ⟨reached, hsub, happlied⟩ := e.course_reaches m commit scope w
  rw [he, List.sublist_nil] at hsub
  rw [hsub, List.forall₂_nil_left_iff] at happlied
  have htells := e.course_tells m commit width scope w a v h
  rwa [← provenanceOf_filter, happlied, provenanceOf_nil, String.append_empty] at htells

end Expr

namespace Scheme

variable {m : Machine} {commit : Commit} {scope : Scope} {w v : World}

theorem provenance_size {a : Evaluation .int}
    (h : ((Expr.abs .size).apply m commit scope).run w = (.ok a, v)) (width : Nat) :
    a.account.provenance width = commit.sizeProvenance width := by
  rw [Expr.apply] at h
  obtain ⟨i, u, hi, ha⟩ := Act.exists_of_run_bind h
  cases hi
  rw [Act.run_lift] at ha
  exact Evaluation.provenance_of_absolute (Prod.mk.inj ha).1

/-- Once the gate is passed, only the size of a commit is reported, and that of the first one is
not. -/
theorem provenance_afterGate {a : Evaluation .int}
    (h : (afterGate.apply m commit scope).run w = (.ok a, v)) (width : Nat) :
    a.account.provenance width =
      if commit.parent = none then "" else commit.sizeProvenance width := by
  obtain ⟨c, u, b, hc, hb, ha⟩ := Expr.exists_of_cond_run h
  cases hc
  rw [ha width, Account.provenance_nothing, String.empty_append]
  by_cases hp : commit.parent = none
  · have hfirst : commit.isFirst = true := by rw [Commit.isFirst, hp]; rfl
    simp only [hfirst, if_true] at hb
    rw [if_pos hp]
    exact Expr.provenance_of_leafless rfl hb width
  · simp only [isFirst_eq_false commit hp] at hb
    rw [if_neg Bool.false_ne_true, Expr.apply] at hb
    obtain ⟨i, u, hi, hnext⟩ := Act.exists_of_run_bind hb
    obtain ⟨body, u', hbody, hpure⟩ := Act.exists_of_run_bind hnext
    cases hpure
    rw [if_neg hp, Evaluation.inBinding, Account.provenance_binding, provenance_size hi,
      Expr.provenance_of_leafless rfl hbody, String.append_empty]

/-- What a build and the tests after it say in their container, and how the tests are started. -/
theorem exists_of_gate_run {c : Compiler} {t : Testing} {g : Evaluation .bool}
    (h : ((Expr.container (.andAll (.runner c.runner) (.runner t.runner))).apply m commit scope).run w =
      (.ok g, v)) :
    let dir := m.scratch.directory w
    ∃ files u e u', (checkout dir c.accepts commit.entries).run
        (m.scratch.opened w) = (.ok files, u) ∧
      (m.execute (.ok dir) c.timeout (c.command dir.text files)).run u = (.ok e, u') ∧
      let outcomes := ((t.suites.mapM (t.runSuite m dir)).run u').1
      g.value = (e.succeeded && t.holds outcomes) ∧
      ∀ width, g.account.provenance width = c.provenance e width ++
        if e.succeeded then Testing.provenance outcomes width else "" := by
  intro dir
  obtain ⟨htold, -⟩ := Nesting.told_container m commit scope
    (.both (.one (.runner c.runner)) (.one (.runner t.runner))) w
  have hgenerator : (Nesting.both (.one (.runner c.runner)) (.one (.runner t.runner))).generator =
      .andAll (.runner c.runner) (.runner t.runner) := rfl
  have hjoint : applyJoint m commit scope dir
      (Nesting.both (.one (.runner c.runner)) (.one (.runner t.runner))).parts =
        applyInTurn m commit scope dir [.runner c.runner, .runner t.runner] := rfl
  have happly (r : Runner .bool) :
      (Generator.runner r).apply m commit scope dir = r.run m commit dir := by rw [Generator.apply]
  rw [hgenerator, h, hjoint] at htold
  rcases hb : ((Generator.runner c.runner).apply m commit scope dir).run
    (m.scratch.opened w) with ⟨x | b, u'⟩
  · rw [run_applyInTurn_error hb] at htold
    cases htold
  obtain ⟨files, u, e, hfiles, he, rfl⟩ := Compiler.exists_of_run (happly c.runner ▸ hb)
  refine ⟨files, u, e, u', hfiles, he, ?_⟩
  cases hv : e.succeeded with
  | false =>
      rw [run_applyInTurn_false hb hv] at htold
      obtain ⟨hvalue, hsay⟩ := of_told_eq (Except.ok.inj htold)
      exact ⟨by simp [hvalue, Evaluation.ofVerdict, hv], fun width => by
        simp [hsay, Evaluation.ofVerdict, Account.provenance]⟩
  | true =>
      have htest : ((Generator.runner t.runner).apply m commit scope dir).run u' =
          (.ok (.ofVerdict ⟨t.holds ((t.suites.mapM (t.runSuite m dir)).run u').1,
            Testing.provenance ((t.suites.mapM (t.runSuite m dir)).run u').1⟩),
              ((t.suites.mapM (t.runSuite m dir)).run u').2) := by
        rw [happly]
        rfl
      rw [run_applyInTurn_true hb hv, applyInTurn_singleton, Act.run_map, htest] at htold
      obtain ⟨hvalue, hsay⟩ := of_told_eq (Except.ok.inj htold)
      exact ⟨by simp [hvalue, Evaluation.ofVerdict, hv], fun width => by
        simp [hsay, Evaluation.ofVerdict, Account.provenance]⟩

/-- The sections of a report: the build, the tests if it succeeded, and the size of a commit that has
passed and is not the first one. -/
def sections (commit : Commit) (c : Compiler) (t : Testing) (e : Execution)
    (outcomes : List (String × SuiteOutcome)) (width : Nat) : List Block :=
  c.block e width ::
    if e.exitCode = some 0 then
      Testing.blocks outcomes width ++
        if t.holds outcomes = true ∧ commit.parent ≠ none then [commit.sizeBlock width] else []
    else []

section Sections

variable (c : Compiler) (t : Testing) (e : Execution) (outcomes : List (String × SuiteOutcome))
  (width : Nat)

theorem printed_sections :
    printed (sections commit c t e outcomes width) =
      c.provenance e width ++ (if e.succeeded then Testing.provenance outcomes width else "") ++
        if (e.succeeded && t.holds outcomes) = true ∧ commit.parent ≠ none then
          commit.sizeProvenance width
        else "" := by
  rw [sections, printed_cons, Compiler.text_block, Execution.succeeded]
  by_cases he : e.exitCode = some 0
  · simp only [he, decide_true, Bool.true_and, if_true, printed_append, Testing.printed_blocks]
    split <;> simp [printed_cons, printed_nil, Commit.text_sizeBlock, String.append_assoc]
  · simp [he, printed_nil]

theorem endsLine_opening {b : Block} (hb : b ∈ sections commit c t e outcomes width) :
    EndsLine b.opening := by
  rcases List.mem_cons.1 hb with rfl | hb
  · exact endsLine_heading c.name width
  split at hb
  · rcases List.mem_append.1 hb with hb | hb
    · exact Testing.endsLine_opening outcomes width hb
    · split at hb
      · obtain rfl := List.mem_singleton.1 hb
        exact endsLine_heading "Commit size" width
      · cases hb
  · cases hb

theorem tidy_of_holds {t : Testing} {outcomes : List (String × SuiteOutcome)}
    (h : t.holds outcomes = true) : ∀ o ∈ outcomes, o.2.Tidy := by
  rcases t.holds_iff.1 h with ⟨rfl, -⟩ | ⟨-, hall⟩
  · exact nofun
  · exact fun o ho => SuiteOutcome.tidy_of_passed (List.all_eq_true.1 hall o ho)

theorem separated_sections_iff :
    Separated (sections commit c t e outcomes width) ↔
      (e.exitCode = some 0 → EndsLine (e.stdoutText ++ e.stderrText) ∧
        ∀ o ∈ outcomes.dropLast, o.2.Tidy) := by
  rw [separated_iff fun b hb => endsLine_opening c t e outcomes width hb, sections]
  by_cases he : e.exitCode = some 0
  case neg =>
    rw [if_neg he]
    exact iff_of_true nofun fun h => absurd h he
  have hne : Testing.blocks outcomes width ≠ [] := List.cons_ne_nil _ _
  simp only [he, if_true, forall_const]
  split
  next hsize =>
      have hall := tidy_of_holds hsize.1
      rw [List.dropLast_cons_of_ne_nil (by simp), List.dropLast_concat, List.forall_mem_cons,
        Compiler.endsLine_below_iff he, Testing.endsLine_below_iff]
      exact and_congr_right fun _ =>
        iff_of_true hall fun o ho => hall o (List.dropLast_subset outcomes ho)
  next =>
      rw [List.append_nil, List.dropLast_cons_of_ne_nil hne, List.forall_mem_cons,
        Compiler.endsLine_below_iff he, Testing.endsLine_below_dropLast_iff]

end Sections

/-- The report on a commit comes in sections, and within them in rows and notes about suites and their
cases. All of them begin on a line of their own exactly if, once the build has succeeded, its output
ends a line, and so does what is left behind by each host that fails, unless its suite is the last. -/
theorem standard_sections (m : Machine) (commit : Commit) (scope : Scope) (c : Compiler) (t : Testing)
    {w v : World} {a : Evaluation .int}
    (h : ((standard (.runner c.runner) (.runner t.runner)).apply m commit scope).run w = (.ok a, v)) :
    let dir := m.scratch.directory w
    ∃ files u e u', (checkout dir c.accepts commit.entries).run
        (m.scratch.opened w) = (.ok files, u) ∧
      (m.execute (.ok dir) c.timeout (c.command dir.text files)).run u = (.ok e, u') ∧
      let outcomes := ((t.suites.mapM (t.runSuite m dir)).run u').1
      ∀ width, let blocks := sections commit c t e outcomes width
        a.account.provenance width = printed blocks ∧
        (Separated blocks ↔ (e.exitCode = some 0 → EndsLine (e.stdoutText ++ e.stderrText) ∧
          ∀ o ∈ outcomes.dropLast, ∀ code stderr, o.2 = .failed code stderr → EndsLine stderr)) := by
  intro dir
  obtain ⟨g, x, b, hg, hb, ha⟩ := Expr.exists_of_cond_run h
  obtain ⟨files, u, e, u', hfiles, he, hvalue, hsay⟩ := exists_of_gate_run hg
  refine ⟨files, u, e, u', hfiles, he, fun width => ⟨?_, separated_sections_iff c t e _ width⟩⟩
  have hbranch : b.account.provenance width =
      if g.value = true ∧ commit.parent ≠ none then commit.sizeProvenance width else "" := by
    cases hv : g.value with
    | false =>
        rw [hv] at hb
        exact Expr.provenance_of_leafless rfl hb width
    | true =>
        rw [hv] at hb
        rw [provenance_afterGate hb width]
        by_cases hp : commit.parent = none <;> simp [hp]
  rw [ha, hsay, hbranch, hvalue, printed_sections]

/-- A compiler and a host that do not end their last lines. -/
theorem standard_sections_unended :
    let javac : Rule :=
      { Rule.unmatched "javac" with stdout := Utf8.encode "note", stderr := [], ending := .exit 0 }
    let host : Rule := { Rule.unmatched "host" with stderr := Utf8.encode "boom", ending := .exit 1 }
    let m : Machine := .ofRules [javac, host]
    let tests : Testing := { Testing.standard with suites := ["one", "two"], host := ["host"] }
    let commit : Commit := ⟨"c", "", none, none, []⟩
    let w : World := .fresh ⟨[(["tmp"], .directory)]⟩
    let run := ((standard (.runner Compiler.standard.runner) (.runner tests.runner)).apply m commit
      .empty).run w
    ∃ a v, run = (.ok a, v) ∧
      a.account.provenance 8 =
        "--------\nJava Build:\n\nnote--------\nTest:\n\none  FAILED\n(exit status 1)\n" ++
          "boomtwo  FAILED\n(exit status 1)\nboom" ∧
      ∃ blocks, a.account.provenance 8 = printed blocks ∧
        (∀ b ∈ blocks, EndsLine b.opening) ∧ ¬Separated blocks := by
  intro javac host m tests commit w run
  have htext : (run.1.map fun a => a.account.provenance 8).toOption = some
      ("--------\nJava Build:\n\nnote--------\nTest:\n\none  FAILED\n(exit status 1)\n" ++
        "boomtwo  FAILED\n(exit status 1)\nboom") := by
    decide +kernel
  rcases hrun : run with ⟨x | a, v⟩
  · rw [hrun] at htext
    cases htext
  rw [hrun] at htext
  obtain ⟨files, u, e, u', hfiles, he, hblocks⟩ :=
    standard_sections m commit .empty Compiler.standard tests hrun
  obtain ⟨hprinted, hseparated⟩ := hblocks 8
  cases hfiles
  let dir := m.scratch.directory w
  have hexecution : ((m.execute (.ok dir) 10000 (Compiler.standard.command dir.text [])).run
      (m.scratch.opened w)).1.toOption =
        some ⟨some 0, Utf8.encode "note", [], 0⟩ := by
    decide +kernel
  have hsome : some e = some ⟨some 0, Utf8.encode "note", [], 0⟩ :=
    (congrArg (fun r => r.1.toOption) he).symm.trans hexecution
  obtain rfl := Option.some.inj hsome
  refine ⟨a, v, rfl, Option.some.inj htext, _, hprinted, fun b hb => endsLine_opening _ _ _ _ _ hb,
    fun hall => ?_⟩
  exact absurd (hseparated.1 hall rfl).1 (by decide +kernel)

end Scheme

end CommitMarking
