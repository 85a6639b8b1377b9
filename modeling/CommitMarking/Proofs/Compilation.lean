import CommitMarking.Proofs.Checkout.Completion
import CommitMarking.Proofs.SchemeCalls

namespace CommitMarking

open Text

namespace Compiler

variable {c : Compiler} {m : Machine} {commit : Commit} {dir : Location} {w v : World}

def sources (c : Compiler) (entries : List Entry) : List Entry :=
  entries.filter fun e => decide (¬(e.after = [] ∧ e.before ≠ []) ∧
    ∃ extension ∈ c.extensions, extension.toList <:+ e.path.toList)

def arguments (c : Compiler) (dir : Location) (sources : List Entry) : List String :=
  c.flags ++
    (if c.classpath ≠ [] ∧ c.classpathFlag ≠ "" then
      [c.classpathFlag, ":".intercalate c.classpath] else []) ++
    (if c.outputFlag ≠ "" then [c.outputFlag, dir.text] else []) ++
    sources.map fun e => dir.join e.path

theorem accepts_iff {e : Entry} :
    c.accepts e = true ↔ ∃ extension ∈ c.extensions, extension.toList <:+ e.path.toList := by
  simp only [accepts, endsWith, List.any_eq_true, List.isSuffixOf_iff_suffix]

theorem filter_accepts (c : Compiler) (entries : List Entry) :
    (entries.filter fun e => !e.isDeletion && c.accepts e) = c.sources entries := by
  refine List.filter_congr fun e _ => ?_
  have hkept : (!e.isDeletion) = true ↔ ¬(e.after = [] ∧ e.before ≠ []) := by
    simp [Entry.isDeletion, imp_iff_not_or]
  rw [Bool.eq_iff_iff, Bool.and_eq_true, hkept, accepts_iff, decide_eq_true_iff]

theorem command_target (c : Compiler) (dir : Location) (sources : List Entry) :
    c.command dir.text (sources.map (·.target dir)) = c.program :: c.arguments dir sources := rfl

theorem provenance_eq (c : Compiler) (e : Execution) (width : Nat) :
    c.provenance e width =
      heading c.name width ++ (if e.exitCode = none then "(timeout)\n" else "") ++
        Utf8.lossy e.stdout ++ Utf8.lossy e.stderr := by
  simp only [provenance, Execution.timedOut, Option.isNone_iff_eq_none]
  rfl

theorem run_runner_of_unwritten {x : ProcessError}
    (h : (checkout dir c.accepts commit.entries).run w = (.error x, v)) :
    (c.runner.run m commit dir).run w = (.error (.process x), v) := by
  change Act.run (Evaluation.ofVerdict <$> (c.build m commit dir).mapError MarkError.process) w = _
  rw [Act.run_map, Act.run_mapError, build, Act.run_bind, h]
  rfl

theorem run_runner_of_written (ht : 0 < c.timeout)
    (h : (checkout dir c.accepts commit.entries).run w =
      (.ok ((c.sources commit.entries).map (·.target dir)), v)) :
    (c.runner.run m commit dir).run w =
      let started := (m.start (.ok dir) (some c.timeout) .own c.program
        (c.arguments dir (c.sources commit.entries))).run v
      ((started.1.mapError fun x => .process (.spawn c.program x)).map fun e =>
        .ofVerdict ⟨e.succeeded, c.provenance e⟩, started.2) := by
  change Act.run (Evaluation.ofVerdict <$> (c.build m commit dir).mapError MarkError.process) w = _
  rw [Act.run_map, Act.run_mapError, build, Act.run_bind, h]
  dsimp only
  rw [Act.run_bind, command_target, Machine.execute, Machine.executeWith_cons ht, Act.run_mapError]
  rcases (m.start (.ok dir) (some c.timeout) .own c.program
    (c.arguments dir (c.sources commit.entries))).run v with ⟨x | e, u⟩ <;> rfl

/-- The compiler is started where the files are the sources of the commit, the last one for a path
counting, and is told about all of them in the order of the commit. How it ends is the judgement,
and what it writes is reported. It is not started if the sources cannot be checked out. -/
theorem runner_compiles_sources (m : Machine) (commit : Commit) (ht : 0 < c.timeout)
    (vacant : Vacant dir w.files) :
    let sources := c.sources commit.entries
    let checkedOut := (checkout dir c.accepts commit.entries).run w
    let run := (c.runner.run m commit dir).run w
    (∀ x, checkedOut.1 = .error x →
      run = (.error (.process x), { w with files := checkedOut.2.files })) ∧
    ∀ paths, checkedOut.1 = .ok paths → ∃ t r v,
      (∀ steps content, t.content? (dir ++ steps) = some content ↔
        ∃ before e after, sources = before ++ e :: after ∧ e.names = steps ∧ e.after = content ∧
          ∀ d ∈ after, d.names ≠ steps) ∧
      (m.start (.ok dir) (some c.timeout) .own c.program (c.arguments dir sources)).run
        { w with files := t } = (r, v) ∧
      ((∃ x, r = .error x ∧ run = (.error (.process (.spawn c.program x)), v)) ∨
        ∃ e a, r = .ok e ∧ run = (.ok a, v) ∧ (a.value = true ↔ e.exitCode = some 0) ∧
          ∀ width, a.account.provenance width =
            heading c.name width ++ (if e.exitCode = none then "(timeout)\n" else "") ++
              Utf8.lossy e.stdout ++ Utf8.lossy e.stderr) := by
  intro sources checkedOut run
  rcases hc : checkedOut with ⟨x | paths, v⟩
  · refine ⟨fun y hy => ?_, nofun⟩
    cases hy
    have hsilent : checkedOut.2 = { w with files := checkedOut.2.files } := checkout_silent ..
    rw [hc] at hsilent
    exact (run_runner_of_unwritten hc).trans (Prod.ext rfl hsilent)
  · refine ⟨nofun, fun _ _ => ?_⟩
    have hwritten : (sources.mapM (checkoutEntry dir)).run w = (.ok paths, v) := by
      rw [← hc]
      change _ = (checkout dir c.accepts commit.entries).run w
      rw [checkout, filter_accepts]
    obtain ⟨-, rfl, hv, hall⟩ := of_run_eq_ok hwritten
    have hrun := run_runner_of_written (m := m) ht hc
    rw [hv] at hrun
    have hfiles := hall.content?_eq_some_iff_last vacant
    rcases hstart : (m.start (.ok dir) (some c.timeout) .own c.program
      (c.arguments dir sources)).run { w with files := v.files } with ⟨x | e, u⟩
    · rw [hstart] at hrun
      exact ⟨v.files, .error x, u, hfiles, hstart, .inl ⟨x, rfl, hrun⟩⟩
    · rw [hstart] at hrun
      refine ⟨v.files, .ok e, u, hfiles, hstart, .inr ⟨e, .ofVerdict _, rfl, hrun, ?_, ?_⟩⟩
      · exact decide_eq_true_iff
      · exact c.provenance_eq e

/-- Between two entries for one file there are one that is deleted and one that is no source. The
compiler lists the files that it finds. -/
theorem runner_compiles_sources_overwritten :
    let javac : Rule := { Rule.unmatched "javac" with
      listFiles := true, stderr := Utf8.encode "1 warning\n", ending := .exit 0 }
    let m : Machine := .ofRules [javac]
    let commit : Commit := ⟨"c", "", none, none, [⟨"src//A.java", [], [1]⟩, ⟨"B.java", [7], []⟩,
      ⟨"notes", [], [2]⟩, ⟨"src/./A.java", [1], [3, 4]⟩]⟩
    let dir : Location := ["work"]
    let w : World := .fresh ⟨[(dir, .directory)]⟩
    let run := (standard.runner.run m commit dir).run w
    0 < standard.timeout ∧ Vacant dir w.files ∧ ∃ t e a v,
      (t.content? ["work", "src", "A.java"] = some [3, 4] ∧
        t.content? ["work", "B.java"] = none) ∧
      (m.start (.ok dir) (some 10000) .own "javac"
        ["-nowarn", "-d", "/work", "/work/src//A.java", "/work/src/./A.java"]).run
          { w with files := t } = (.ok e, v) ∧
      run = (.ok a, v) ∧ e.exitCode = some 0 ∧ a.value = true ∧
      a.account.provenance 24 =
        "------------------------\nJava Build:\n\nsrc/A.java 2\n1 warning\n" := by
  intro javac m commit dir w run
  have vacant : Vacant dir w.files :=
    ⟨rfl, fun steps hs => by simp [w, World.fresh, FileTree.find?, hs]⟩
  have hpaths : ((checkout dir standard.accepts commit.entries).run w).1 =
      .ok ["/work/src//A.java", "/work/src/./A.java"] := by decide +kernel
  have hsources : standard.sources commit.entries =
      [⟨"src//A.java", [], [1]⟩] ++ [⟨"src/./A.java", [1], [3, 4]⟩] := by decide +kernel
  have hnames : ∀ e ∈ standard.sources commit.entries, e.names = ["src", "A.java"] := by
    decide +kernel
  have harguments : standard.arguments dir (standard.sources commit.entries) =
      ["-nowarn", "-d", "/work", "/work/src//A.java", "/work/src/./A.java"] := by decide +kernel
  obtain ⟨t, r, v, hfiles, hstart, hrun⟩ :=
    (runner_compiles_sources m commit (by decide) vacant).2 _ hpaths
  rw [harguments] at hstart
  have hvalue : (run.1.map (·.value)).toOption = some true := by decide +kernel
  have hprovenance : (run.1.map (·.account.provenance 24)).toOption = some
      "------------------------\nJava Build:\n\nsrc/A.java 2\n1 warning\n" := by decide +kernel
  obtain ⟨x, -, hx⟩ | ⟨e, a, rfl, ha, hiff, -⟩ := hrun
  · rw [show run = _ from hx] at hvalue
    cases hvalue
  rw [show run = _ from ha] at hvalue hprovenance
  have hpassed : a.value = true := Option.some.inj hvalue
  refine ⟨by decide, vacant, t, e, a, v, ⟨?_, ?_⟩, hstart, ha, hiff.1 hpassed, hpassed,
    Option.some.inj hprovenance⟩
  · have hlast : ∀ d ∈ ([] : List Entry), d.names ≠ ["src", "A.java"] :=
      fun _ hd => absurd hd List.not_mem_nil
    exact (hfiles ["src", "A.java"] [3, 4]).2
      ⟨_, _, [], hsources, hnames _ (by simp [hsources]), rfl, hlast⟩
  · refine Option.eq_none_iff_forall_ne_some.2 fun content hc => ?_
    obtain ⟨before, e, after, hsplit, hname, -⟩ := (hfiles ["B.java"] content).1 hc
    exact absurd ((hnames e (by simp [hsplit])).symm.trans hname) (by decide)

end Compiler

end CommitMarking
