import CommitMarking.Marking
import CommitMarking.Proofs.Checkout
import CommitMarking.Proofs.History.Steps
import CommitMarking.Proofs.Keeping
import CommitMarking.Proofs.SchemeMarks

namespace CommitMarking

namespace Machine

variable {m : Machine} {t : FileTree} {call : Call}

def starts (m : Machine) (t : FileTree) (call : Call) : Bool :=
  (m.attempt t (.ok call.dir) call.program call.args).isOk

theorem run_execute (hm : m.residents = []) {timeout : Nat} (ht : 0 < timeout) (dir : Location)
    (program : String) (args : List String) (w : World) :
    (m.execute (.ok dir) timeout (program :: args)).run w =
      match m.attempt w.files (.ok dir) program args with
      | .error e => (.error (.spawn program e), w)
      | .ok (call, p) =>
          (.ok (p.execution (some timeout) .own), { w with calls := w.calls ++ [call] }) := by
  have hp : m.resident? program = none := by simp [resident?, hm]
  rw [execute, executeWith_cons ht, Act.run_mapError, run_start_listed hp]
  cases m.attempt w.files (.ok dir) program args <;> rfl

end Machine

section Steps

variable {α β : Type} {t : FileTree}

theorem run_mapM_calls {f : α → StateM World β} {calls : α → List Call} {judged : α → β → Prop}
    (h : ∀ a w, w.files = t →
      ∃ b, (f a).run w = (b, { w with calls := w.calls ++ calls a }) ∧ judged a b)
    (as : List α) (w : World) (hw : w.files = t) :
    ∃ bs, (as.mapM f).run w = (bs, { w with calls := w.calls ++ as.flatMap calls }) ∧
      List.Forall₂ judged as bs := by
  induction as generalizing w with
  | nil => exact ⟨[], by rw [List.flatMap_nil, List.append_nil]; rfl, .nil⟩
  | cons a as ih =>
      obtain ⟨b, hb, ha⟩ := h a w hw
      obtain ⟨bs, hbs, has⟩ := ih { w with calls := w.calls ++ calls a } hw
      refine ⟨b :: bs, ?_, .cons ha has⟩
      rw [List.mapM_cons, StateT.run_bind, hb]
      change (as.mapM f >>= fun bs => pure (b :: bs)).run _ = _
      rw [StateT.run_bind, hbs, List.flatMap_cons, ← List.append_assoc]
      rfl

end Steps

section Checkout

variable (dir : Location) (keep : Entry → Bool) (entries : List Entry)

theorem run_checkoutEntry_fresh (e : Entry) (w : World) :
    (checkoutEntry dir e).run w =
      let run := (checkoutEntry dir e).run (.fresh w.files)
      (run.1, { w with files := run.2.files }) := by
  by_cases he : Escapes e.path
  · rw [run_checkoutEntry_of_escapes he, run_checkoutEntry_of_escapes he]
    rfl
  · simp only [run_checkoutEntry he, World.files_fresh]

theorem run_checkout_fresh (w : World) :
    (checkout dir keep entries).run w =
      let run := (checkout dir keep entries).run (.fresh w.files)
      (run.1, { w with files := run.2.files }) := by
  unfold checkout
  induction entries.filter fun e => !e.isDeletion && keep e generalizing w with
  | nil => rfl
  | cons e es ih =>
      rw [Act.run_mapM_cons, Act.run_mapM_cons, run_checkoutEntry_fresh dir e w]
      rcases (checkoutEntry dir e).run (.fresh w.files) with ⟨x | path, v⟩
      · rfl
      · dsimp only
        rw [ih { w with files := v.files }, ih v]

theorem checkout_silent (w : World) :
    ((checkout dir keep entries).run w).2 =
      { w with files := ((checkout dir keep entries).run w).2.files } := by
  rw [run_checkout_fresh]

end Checkout

namespace Compiler

variable (c : Compiler) (m : Machine) (dir : Location) (files : FileTree) (commit : Commit)

def checkedOut : Except ProcessError (List String) × FileTree :=
  let run := (checkout dir c.accepts commit.entries).run (.fresh (files.put dir .directory))
  (run.1, run.2.files)

/-- The call of the compiler and how it ended. The commit cannot be checked out or the compiler cannot
be started if there is none. -/
def compiled : Except ProcessError (Call × Execution) := do
  let paths ← (c.checkedOut dir files commit).1
  let started ← (m.attempt (c.checkedOut dir files commit).2 (.ok dir) c.program
    (c.command dir.text paths).tail).mapError (.spawn c.program)
  return (started.1, started.2.execution (some c.timeout) .own)

theorem dir_of_compiled {call : Call} {e : Execution}
    (h : c.compiled m dir files commit = .ok (call, e)) : call.dir = dir := by
  unfold compiled at h
  obtain ⟨paths, -, h⟩ := exists_of_bind_ok h
  obtain ⟨started, hstarted, h⟩ := exists_of_bind_ok h
  cases h
  obtain ⟨l, hl, hcall⟩ := Machine.eq_of_attempt (of_mapError_ok hstarted)
  cases hl
  rw [hcall]

theorem remove_checkedOut (w : World) :
    (c.checkedOut (m.scratch.directory w) w.files commit).2.remove (m.scratch.directory w) =
      w.files := by
  have h := (checkout_keeps (m.scratch.directory w) c.accepts commit.entries).view_files
    (.fresh (m.scratch.opened w).files)
  exact h.trans (m.scratch.remove_directory w)

variable {c m}

theorem run_build (hm : m.residents = []) (hc : 0 < c.timeout) (w : World) :
    let dir := m.scratch.directory w
    let compiled := c.compiled m dir w.files commit
    ∃ built, (c.build m commit dir).run (m.scratch.opened w) =
        (built, { m.scratch.opened w with
          files := (c.checkedOut dir w.files commit).2
          calls := w.calls ++ compiled.toOption.toList.map (·.1) }) ∧
      built.map (·.holds) = compiled.map (·.2.succeeded) := by
  intro dir compiled
  have hcheckout : (checkout dir c.accepts commit.entries).run (m.scratch.opened w) =
      ((c.checkedOut dir w.files commit).1,
        { m.scratch.opened w with files := (c.checkedOut dir w.files commit).2 }) :=
    run_checkout_fresh ..
  rw [build, Act.run_bind, hcheckout]
  rcases hp : (c.checkedOut dir w.files commit).1 with x | paths
  · exact ⟨.error x, by simp [compiled, Compiler.compiled, hp, bind, Except.bind, Except.toOption],
      by simp [compiled, Compiler.compiled, hp, bind, Except.bind, Except.map]⟩
  have hcompiled : compiled = do
      let started ← (m.attempt (c.checkedOut dir w.files commit).2 (.ok dir) c.program
        (c.command dir.text paths).tail).mapError (.spawn c.program)
      return (started.1, started.2.execution (some c.timeout) .own) := by
    simp only [compiled, Compiler.compiled, hp, bind, Except.bind, dir]
  have hcommand : c.command dir.text paths = c.program :: (c.command dir.text paths).tail := rfl
  dsimp only
  rw [Act.run_bind, hcommand, Machine.run_execute hm hc, hcompiled]
  dsimp only [List.tail_cons]
  rcases m.attempt (c.checkedOut dir w.files commit).2 (.ok dir) c.program
    (c.command dir.text paths).tail with x | ⟨call, p⟩
  · exact ⟨.error (.spawn c.program x), by simp [bind, Except.bind, Except.toOption], rfl⟩
  · let e := p.execution (some c.timeout) .own
    exact ⟨.ok ⟨e.succeeded, c.provenance e⟩,
      by simp [bind, Except.bind, pure, Except.pure, Except.toOption]; rfl, rfl⟩

end Compiler

namespace Testing

variable {t : Testing} {m : Machine}

def call (t : Testing) (dir : Location) (suite : String) : Call :=
  ⟨t.host.headD "", t.host.tail ++ [suite, dir.text], dir⟩

theorem run_runSuite (hm : m.residents = []) (ht : 0 < t.timeout) (hh : t.host ≠ [])
    (dir : Location) (suite : String) (w : World) :
    ∃ outcome, (t.runSuite m dir suite).run w =
      (outcome, { w with calls := w.calls ++ [t.call dir suite].filter (m.starts w.files) }) := by
  obtain ⟨program, args, hhost⟩ := List.exists_cons_of_ne_nil hh
  have hcall : t.call dir suite = ⟨program, args ++ [suite, dir.text], dir⟩ := by
    rw [call, hhost]
    rfl
  rw [runSuite, Act.run_run_bind, hhost, List.cons_append, Machine.run_execute hm ht, hcall,
    List.filter_singleton, Machine.starts]
  rcases ha : m.attempt w.files (.ok dir) program (args ++ [suite, dir.text]) with x | ⟨made, p⟩
  · exact ⟨(suite, .exception (ProcessError.spawn program x).message),
      by simp only [Except.isOk, Except.toBool, cond_false, List.append_nil]; rfl⟩
  · obtain ⟨l, hl, rfl⟩ := Machine.eq_of_attempt ha
    cases hl
    exact ⟨(suite, .ofExecution suite (p.execution (some t.timeout) .own)), rfl⟩

theorem run_test (hm : m.residents = []) (ht : 0 < t.timeout) (hh : t.host ≠ []) (dir : Location)
    (w : World) :
    ∃ verdict, (t.test m dir).run w =
      (verdict, { w with
        calls := w.calls ++ (t.suites.map (t.call dir)).filter (m.starts w.files) }) := by
  have hstep (suite : String) (v : World) (hv : v.files = w.files) :
      ∃ outcome, (t.runSuite m dir suite).run v = (outcome, { v with
        calls := v.calls ++ [t.call dir suite].filter (m.starts w.files) }) ∧ True := by
    obtain ⟨outcome, hrun⟩ := run_runSuite hm ht hh dir suite v
    exact ⟨outcome, by rw [hrun, hv], trivial⟩
  obtain ⟨outcomes, hrun, -⟩ := run_mapM_calls hstep t.suites w rfl
  refine ⟨⟨t.holds outcomes, provenance outcomes⟩, ?_⟩
  rw [test, StateT.run_bind, hrun, List.map_eq_flatMap, List.filter_flatMap]
  rfl

end Testing

namespace Scheme

open Act

/-- The calls that marking a commit comes to. If it can be checked out and its compiler started, there
is that of the compiler, and if it exits with 0, in its directory one of the host for each suite. -/
def calls (m : Machine) (c : Compiler) (t : Testing) (dir : Location) (files : FileTree)
    (commit : Commit) : List Call :=
  match c.compiled m dir files commit with
  | .error _ => []
  | .ok (build, e) =>
      build ::
        if e.exitCode = some 0 then
          (t.suites.map (t.call build.dir)).filter (m.starts (c.checkedOut dir files commit).2)
        else []

variable {m : Machine} {c : Compiler} {t : Testing}

theorem apply_build (hm : m.residents = []) (hc : 0 < c.timeout) (commit : Commit) (scope : Scope)
    (w : World) :
    let dir := m.scratch.directory w
    let compiled := c.compiled m dir w.files commit
    ∃ r, ((Generator.runner c.runner).apply m commit scope dir).run (m.scratch.opened w) =
        (r, { m.scratch.opened w with
          files := (c.checkedOut dir w.files commit).2
          calls := w.calls ++ compiled.toOption.toList.map (·.1) }) ∧
      r.map (·.value) = (compiled.mapError .process).map (·.2.succeeded) := by
  intro dir compiled
  obtain ⟨built, hrun, hbuilt⟩ := Compiler.run_build commit hm hc w
  refine ⟨(built.mapError .process).map .ofVerdict, ?_, ?_⟩
  · rw [Generator.apply]
    change (Evaluation.ofVerdict <$> mapError MarkError.process (c.build m commit dir)).run _ = _
    rw [run_map, run_mapError, hrun]
  · calc
      _ = (built.map (·.holds)).mapError MarkError.process := by cases built <;> rfl
      _ = (compiled.map (·.2.succeeded)).mapError MarkError.process := by rw [hbuilt]
      _ = _ := by cases compiled <;> rfl

theorem apply_test (hm : m.residents = []) (ht : 0 < t.timeout) (hh : t.host ≠ []) (commit : Commit)
    (scope : Scope) (dir : Location) (w : World) :
    ∃ a, ((Generator.runner t.runner).apply m commit scope dir).run w =
      (.ok a, { w with
        calls := w.calls ++ (t.suites.map (t.call dir)).filter (m.starts w.files) }) := by
  obtain ⟨verdict, hrun⟩ := Testing.run_test hm ht hh dir w
  refine ⟨.ofVerdict verdict, ?_⟩
  rw [Generator.apply]
  change Act.run (Evaluation.ofVerdict <$> (ExceptT.lift (t.test m dir) : Act MarkError Verdict)) w = _
  have hlift : Act.run (ExceptT.lift (t.test m dir) : Act MarkError Verdict) w =
      (.ok ((t.test m dir).run w).1, ((t.test m dir).run w).2) := rfl
  rw [run_map, hlift, hrun]
  rfl

/-- What is called up to the end of the gate, and that it ends with a verdict once the compiler was
started. -/
theorem Gate.calls_eq (hm : m.residents = []) (hc : 0 < c.timeout) (ht : 0 < t.timeout)
    (hh : t.host ≠ []) {commit : Commit} {scope : Scope} {w v : World} {dir : Location}
    {gate : Except MarkError Bool} (hdir : dir = m.scratch.directory w)
    (h : Gate m commit scope dir (.runner c.runner) (.runner t.runner) (m.scratch.opened w) gate v) :
    v = { m.scratch.opened w with
        files := (c.checkedOut dir w.files commit).2
        calls := w.calls ++ calls m c t dir w.files commit } ∧
      ∃ passed, gate = ((c.compiled m dir w.files commit).mapError .process).map fun _ => passed := by
  subst hdir
  obtain ⟨r, hbuild, hvalue⟩ := apply_build hm hc commit scope w
  have hgate := h.eq_of_prepared rfl rfl
  rw [hbuild] at hgate
  rcases hcompiled : c.compiled m (m.scratch.directory w) w.files commit with x | ⟨build, e⟩
  · rw [hcompiled] at hvalue hgate
    cases r <;> cases hvalue
    cases hgate
    exact ⟨by simp [calls, hcompiled, Except.toOption], false, rfl⟩
  rw [hcompiled] at hvalue hgate
  rcases r with y | b
  · cases hvalue
  have hb : b.value = decide (e.exitCode = some 0) := Except.ok.inj hvalue
  by_cases hexit : e.exitCode = some 0
  · obtain ⟨a, ha⟩ := apply_test hm ht hh commit scope (m.scratch.directory w)
      { m.scratch.opened w with
        files := (c.checkedOut (m.scratch.directory w) w.files commit).2
        calls := w.calls ++ [build] }
    simp only [hb, hexit, decide_true, if_true, Except.toOption, Option.toList_some, List.map_cons,
      List.map_nil, ha] at hgate
    cases hgate
    have hbuilt : build.dir = m.scratch.directory w := c.dir_of_compiled m _ w.files commit hcompiled
    exact ⟨by simp [calls, hcompiled, hexit, hbuilt], a.value, rfl⟩
  · simp only [hb, hexit, decide_false, Bool.false_eq_true, if_false] at hgate
    cases hgate
    exact ⟨by simp [calls, hcompiled, Except.toOption, hexit], false, rfl⟩

/-- A commit has no mark exactly if it cannot be checked out or its compiler cannot be started. Any
other error takes contents of 2⁶³ bytes. -/
structure Judged (m : Machine) (c : Compiler) (dir : Location) (files : FileTree) (commit : Commit)
    (r : Report) : Prop where
  commit_eq : r.commit = commit
  outcome_eq : ∀ e, c.compiled m dir files commit = .error e → r.outcome = .error (.process e)
  unmarked_iff : r.mark = none ↔ (∃ e, c.compiled m dir files commit = .error e) ∨
    2 ^ 63 ≤ commit.contentLength ∧
      r.outcome = .error (.arithmetic (.overflow (Expr.abs .size).name))

section Judgement

variable {dir : Location} {files : FileTree} {commit : Commit}

theorem Judged.aborted {e : ProcessError} (h : c.compiled m dir files commit = .error e) :
    Judged m c dir files commit ⟨commit, .error (.process e)⟩ where
  commit_eq := rfl
  outcome_eq x hx := by rw [h] at hx; cases hx; rfl
  unmarked_iff := iff_of_true rfl (.inl ⟨e, h⟩)

theorem Judged.marked {built : Call × Execution} (h : c.compiled m dir files commit = .ok built)
    (a : Evaluation .int) :
    Judged m c dir files commit ⟨commit, .ok a⟩ where
  commit_eq := rfl
  outcome_eq x hx := by rw [h] at hx; cases hx
  unmarked_iff := iff_of_false (fun hr => by cases hr) fun hr => by
    rcases hr with ⟨x, hx⟩ | ⟨-, hx⟩
    · rw [h] at hx; cases hx
    · cases hx

theorem Judged.overflowed {built : Call × Execution} (h : c.compiled m dir files commit = .ok built)
    (hl : 2 ^ 63 ≤ commit.contentLength) :
    Judged m c dir files commit
      ⟨commit, .error (.arithmetic (.overflow (Expr.abs .size).name))⟩ where
  commit_eq := rfl
  outcome_eq x hx := by rw [h] at hx; cases hx
  unmarked_iff := iff_of_true rfl (.inr ⟨hl, rfl⟩)

end Judgement

section Runs

variable (hm : m.residents = []) (hc : 0 < c.timeout) (ht : 0 < t.timeout) (hh : t.host ≠ [])
include hm hc ht hh

theorem standard_judged (commit : Commit) (w : World) :
    let dir := m.scratch.directory w
    let run := ((standard (.runner c.runner) (.runner t.runner)).apply m commit .empty).run w
    run.2 = { w with
        calls := w.calls ++ calls m c t dir w.files commit
        made := w.made ++ [m.scratch.name w] } ∧
      Judged m c dir w.files commit ⟨commit, run.1⟩ := by
  intro dir run
  obtain ⟨r, gate, v, hcontainer, hgate, hsteps⟩ :=
    exists_container_gate m commit .empty (.runner c.runner) (.runner t.runner) w
  obtain ⟨rfl, passed, hpassed⟩ := hsteps.calls_eq hm hc ht hh rfl
  dsimp only at hcontainer
  rw [c.remove_checkedOut m commit w] at hcontainer
  rw [hpassed] at hgate
  rcases hcompiled : c.compiled m dir w.files commit with x | built
  · obtain rfl : r = .error (.process x) := by
      rw [hcompiled] at hgate
      cases r <;> cases hgate
      rfl
    have hrun : run = (.error (.process x), _) := Expr.cond_run_error hcontainer
    rw [hrun]
    exact ⟨rfl, .aborted hcompiled⟩
  obtain ⟨verdict, rfl⟩ : ∃ verdict, r = .ok verdict := by
    rw [hcompiled] at hgate
    cases r with
    | error y => cases hgate
    | ok verdict => exact ⟨verdict, rfl⟩
  cases hv : verdict.value with
  | false =>
      obtain ⟨a, hrun, -⟩ : ∃ a, run = (.ok a, _) ∧ a.value = -1 :=
        Expr.cond_run hcontainer (by rw [hv]; exact Expr.gives_int (-1))
      rw [hrun]
      exact ⟨rfl, .marked hcompiled a⟩
  | true =>
      rcases afterGate_gives_or_overflows m commit .empty _ with ⟨mark, hgives⟩ | ⟨hl, hover⟩
      · obtain ⟨a, hrun, -⟩ : ∃ a, run = (.ok a, _) ∧ a.value = mark :=
          Expr.cond_run hcontainer (by rw [hv]; exact hgives)
        rw [hrun]
        exact ⟨rfl, .marked hcompiled a⟩
      · have hrun : run = (.error (.arithmetic (.overflow (Expr.abs .size).name)), _) :=
          Expr.cond_run_branch_error hcontainer (by rw [hv]; exact hover)
        rw [hrun]
        exact ⟨rfl, .overflowed hcompiled hl⟩

/-- A marking run makes the calls of one commit after the other, those of the compiler and of the
suites that the scheme asks for, each commit's in a directory of its own, and nothing else that it
does is left. -/
theorem standard_calls (commits : List Commit) (w : World) :
    let e := standard (.runner c.runner) (.runner t.runner)
    let run := (e.markAll m commits).run w
    ∃ names : List String, names.length = commits.length ∧ names.Nodup ∧
      (∀ name ∈ names, name ∉ w.made ∧ name ∉ w.files.names m.scratch.parent) ∧
      let placed := (names.map fun name => m.scratch.parent ++ [name]).zip commits
      run.2 = { w with
        calls := w.calls ++ placed.flatMap fun p => calls m c t p.1 w.files p.2
        made := w.made ++ names } ∧
      List.Forall₂ (fun p report => Judged m c p.1 w.files p.2 report) placed run.1 := by
  intro e
  induction commits generalizing w with
  | nil => exact ⟨[], rfl, .nil, by simp, by simp [e, Expr.markAll]; rfl, .nil⟩
  | cons commit commits ih =>
      let v : World := { w with
        calls := w.calls ++ calls m c t (m.scratch.directory w) w.files commit
        made := w.made ++ [m.scratch.name w] }
      obtain ⟨hworld, hjudged⟩ := standard_judged hm hc ht hh commit w
      obtain ⟨names, hlength, hnodup, hnew, hrest, hreports⟩ := ih v
      have hfirst : m.scratch.name w ∉ names := fun h =>
        (hnew _ h).1 (List.mem_append_right _ (List.mem_singleton_self _))
      have hrun : (e.markAll m (commit :: commits)).run w =
          (⟨commit, ((e.apply m commit .empty).run w).1⟩ :: ((e.markAll m commits).run v).1,
            ((e.markAll m commits).run v).2) := by
        have hone : (e.markOne m commit).run w = (⟨commit, ((e.apply m commit .empty).run w).1⟩, v) :=
          congrArg (Prod.mk _) hworld
        rw [Expr.markAll, List.mapM_cons, StateT.run_bind, hone]
        rfl
      refine ⟨m.scratch.name w :: names, congrArg (· + 1) hlength, List.nodup_cons.2 ⟨hfirst, hnodup⟩,
        ?_, ?_, ?_⟩
      · rintro name (_ | ⟨_, h⟩)
        · exact ⟨m.scratch.name_not_mem_made w, m.scratch.name_not_mem_names w⟩
        · exact ⟨fun hmade => (hnew name h).1 (List.mem_append_left _ hmade), (hnew name h).2⟩
      · rw [hrun, hrest]
        simp [v, Scratch.directory]
      · rw [hrun]
        exact .cons hjudged hreports

end Runs

/-- The first commit compiles, and the host of one of its suites cannot be started; the second one
cannot be checked out, and the third one does not compile. -/
theorem standard_calls_mixed :
    let javac : Rule := { Rule.unmatched "javac" with ending := .exit 0 }
    let refusing : Rule := { javac with has := ["/tmp/gitmark-02/B.java"], ending := .signal 9 }
    let host : Rule := { Rule.unmatched "host" with ending := .exit 3 }
    let m : Machine := .ofRules [refusing, javac, host]
    let t : Testing :=
      { Testing.standard with suites := ["unit", "\x00", "deep"], host := ["host", "-v"] }
    let commit (path : String) : Commit := ⟨path, "", none, none, [⟨path, [], [97]⟩]⟩
    let commits := [commit "A.java", commit "../A.java", commit "B.java"]
    let e := standard (.runner Compiler.standard.runner) (.runner t.runner)
    let run := (e.markAll m commits).run (.fresh ⟨[(["tmp"], .directory)]⟩)
    let first (program : String) (args : List String) : Call := ⟨program, args, ["tmp", "gitmark-00"]⟩
    run.2.calls =
      [first "javac" ["-nowarn", "-d", "/tmp/gitmark-00", "/tmp/gitmark-00/A.java"],
        first "host" ["-v", "unit", "/tmp/gitmark-00"], first "host" ["-v", "deep", "/tmp/gitmark-00"],
        ⟨"javac", ["-nowarn", "-d", "/tmp/gitmark-02", "/tmp/gitmark-02/B.java"],
          ["tmp", "gitmark-02"]⟩] ∧
      run.1.map Report.mark = [some (-1), none, some (-1)] ∧
      List.Forall₂ (fun p r => Judged m .standard p.1 ⟨[(["tmp"], .directory)]⟩ p.2 r)
        (["gitmark-00", "gitmark-01", "gitmark-02"].map (["tmp", ·]) |>.zip commits) run.1 := by
  intro javac refusing host m t commit commits e run first
  obtain ⟨names, -, -, -, hworld, hjudged⟩ := standard_calls (m := m) (c := .standard) (t := t) rfl
    (by decide) (by decide) (by decide) commits (.fresh ⟨[(["tmp"], .directory)]⟩)
  have hrun : run.2 = _ := hworld
  have hmade : run.2.made = ["gitmark-00", "gitmark-01", "gitmark-02"] := by decide +kernel
  rw [hrun] at hmade
  change names = _ at hmade
  subst hmade
  refine ⟨?_, by decide +kernel, hjudged⟩
  rw [hrun]
  decide +kernel

end Scheme

end CommitMarking
