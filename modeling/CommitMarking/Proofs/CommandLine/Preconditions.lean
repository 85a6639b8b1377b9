import CommitMarking.CommandLine.Session
import CommitMarking.Proofs.Checkout
import CommitMarking.Proofs.Execution
import CommitMarking.Proofs.SchemeMarks
import CommitMarking.Proofs.Suite.Order

namespace CommitMarking

section Building

variable (dir : Location) (keep : Entry → Bool) (entries : List Entry) (w : World)

theorem not_rejected_checkoutEntry (e : Entry) : ¬Rejected ((checkoutEntry dir e).run w).1 := by
  rintro ⟨reason, h⟩
  by_cases he : Escapes e.path
  · rw [run_checkoutEntry_of_escapes he] at h
    cases h
  · rw [run_checkoutEntry he] at h
    dsimp only at h
    split at h <;> cases h

theorem not_rejected_checkout : ¬Rejected ((checkout dir keep entries).run w).1 := by
  rintro ⟨reason, h⟩
  unfold checkout at h
  rcases Act.run_mapM_cases (checkoutEntry dir) (entries.filter fun e => !e.isDeletion && keep e) w
    with ⟨bs, v, hrun⟩ | ⟨_, e, _, _, v, x, u, -, -, hentry, hrun⟩
  · rw [hrun] at h
    cases h
  · rw [hrun] at h
    cases h
    exact not_rejected_checkoutEntry dir v e ⟨reason, by rw [hentry]⟩

theorem Compiler.rejected_build_iff (c : Compiler) (m : Machine) (commit : Commit) :
    Rejected ((c.build m commit dir).run w).1 ↔
      c.timeout = 0 ∧ ∃ paths, ((checkout dir c.accepts commit.entries).run w).1 = .ok paths := by
  rw [build, Act.run_bind]
  rcases hc : (checkout dir c.accepts commit.entries).run w with ⟨e | paths, v⟩
  · refine iff_of_false ?_ (by simp)
    have h := not_rejected_checkout dir c.accepts commit.entries w
    rw [hc] at h
    exact fun ⟨reason, he⟩ => h ⟨reason, by cases he; rfl⟩
  · have h := m.rejected_executeWith_iff .own (.ok dir) c.timeout (c.command dir.text paths) v
    have hcommand : c.command dir.text paths ≠ [] := List.cons_ne_nil _ _
    simp only [hcommand, or_false] at h
    simp only [Except.ok.injEq, exists_eq', and_true, ← h, Act.run_bind]
    rcases (m.execute (.ok dir) c.timeout (c.command dir.text paths)).run v with ⟨e | execution, u⟩
    · exact ⟨fun ⟨reason, he⟩ => ⟨reason, by cases he; rfl⟩,
        fun ⟨reason, he⟩ => ⟨reason, by cases he; rfl⟩⟩
    · exact iff_of_false (not_rejected_ok _) (not_rejected_ok _)

end Building

namespace Scheme

variable (m : Machine) (commit : Commit) (scope : Scope) (w : World)

theorem standard_error_process_iff (build test : Generator .bool) (e : ProcessError) :
    (((standard build test).apply m commit scope).run w).1 = .error (.process e) ↔
      (((Expr.container (.andAll build test)).apply m commit scope).run w).1 =
        .error (.process e) := by
  have hstandard : standard build test =
      .cond (.container (.andAll build test)) afterGate (.int (-1)) := rfl
  rw [hstandard]
  rcases hc : ((Expr.container (.andAll build test)).apply m commit scope).run w with ⟨x | c, u⟩
  · rw [Expr.cond_run_error hc]
    exact ⟨fun h => by cases h; rfl, fun h => by cases h; rfl⟩
  · refine iff_of_false ?_ (fun h => by cases h)
    cases hv : c.value with
    | false =>
        have hno : Expr.Gives m commit scope u (if c.value then afterGate else .int (-1)) (-1) := by
          rw [hv]
          exact Expr.gives_int (-1)
        obtain ⟨a, ha, -⟩ := Expr.cond_run hc hno
        rw [ha]
        exact fun h => by cases h
    | true =>
        rcases afterGate_gives_or_overflows m commit scope u with ⟨mark, hm⟩ | ⟨-, ho⟩
        · have hyes :
              Expr.Gives m commit scope u (if c.value then afterGate else .int (-1)) mark := by
            rw [hv]
            exact hm
          obtain ⟨a, ha, -⟩ := Expr.cond_run hc hyes
          rw [ha]
          exact fun h => by cases h
        · have herror : ((if c.value then afterGate else .int (-1)).apply m commit scope).run u =
              (.error (.arithmetic (.overflow (Expr.abs .size).name)), u) := by
            rw [hv]
            exact ho
          rw [Expr.cond_run_branch_error hc herror]
          exact fun h => by cases h

/-- Marking a commit stops with an error of a process exactly if the build does: tests have none. -/
theorem standard_error_process_iff_build (c : Compiler) (t : Testing) (e : ProcessError) :
    let dir := m.scratch.directory w
    (((standard (.runner c.runner) (.runner t.runner)).apply m commit scope).run w).1 =
        .error (.process e) ↔
      ((c.build m commit dir).run (m.scratch.opened w)).1 = .error e := by
  intro dir
  rw [standard_error_process_iff]
  obtain ⟨r, gate, v, hrun, hgate, hsteps⟩ := exists_container_gate m commit scope
    (.runner c.runner) (.runner t.runner) w
  have hend := hsteps.eq_of_prepared rfl rfl
  have hbuild : ∀ u, ((Generator.runner c.runner).apply m commit scope dir).run u =
      ((((c.build m commit dir).run u).1.mapError .process).map .ofVerdict,
        ((c.build m commit dir).run u).2) := fun u => by
    change (Evaluation.ofVerdict <$> (c.build m commit dir).mapError MarkError.process).run u = _
    rw [Act.run_map, Act.run_mapError]
  have htest : ∀ u, (((Generator.runner t.runner).apply m commit scope dir).run u).1 =
      .ok (.ofVerdict ((t.test m dir).run u).1) := fun u => rfl
  rw [hbuild] at hend
  rw [hrun]
  rcases hb : (c.build m commit dir).run (m.scratch.opened w)
    with ⟨x | b, u⟩
  · rw [hb] at hend
    cases hend
    cases r <;> cases hgate
    exact ⟨fun h => by cases h; rfl, fun h => by cases h; rfl⟩
  · refine iff_of_false (fun h => ?_) (fun h => by cases h)
    rw [hb] at hend
    dsimp only [Except.mapError, Except.map] at hend
    split at hend
    · cases hend
      rw [htest] at hgate
      rw [show r = _ from h] at hgate
      cases hgate
    · cases hend
      rw [show r = _ from h] at hgate
      cases hgate

end Scheme

namespace Registry

theorem mem_suites_ofSuites {suites : List TestSuite} {s : TestSuite} :
    s ∈ (ofSuites suites).suites ↔ s ∈ suites := by
  rw [suites_ofSuites, List.mem_reverse]

end Registry

namespace Config

theorem eq_of_check {c d : Config} (h : c.check = .ok d) : c = d ∧ d.fault? = none := by
  unfold check at h
  cases hf : c.fault? with
  | some e => rw [hf] at h; cases h
  | none => rw [hf] at h; cases h; exact ⟨rfl, hf⟩

theorem fault?_of_parse {text : String} {c : Config} (h : parse text = .ok c) :
    c.fault? = none := by
  unfold parse at h
  split at h
  · cases h
  · exact (eq_of_check h).2

theorem timeout_pos_of_fault? {c : Config} (h : c.fault? = none) {s : SuiteConfig}
    (hs : s ∈ c.suites) {case : CaseConfig} (hc : case ∈ s.cases) : 0 < case.timeout := by
  unfold fault? at h
  split at h
  · cases h
  · have hz := List.findSome?_eq_none_iff.1 h s hs
    have hcase := List.find?_eq_none.1 (Option.map_eq_none_iff.1 hz) case hc
    exact Nat.pos_of_ne_zero (by simpa using hcase)

theorem exists_case_of_mem_registry {c : Config} {s : TestSuite} (hs : s ∈ c.registry.suites)
    {case : TestCase} (hc : case ∈ s.cases) :
    ∃ suite ∈ c.suites, ∃ d ∈ suite.cases, case = ⟨d.name, .command d.command d.timeout⟩ := by
  obtain ⟨suite, hsuite, rfl⟩ := List.mem_map.1 (Registry.mem_suites_ofSuites.1 hs)
  obtain ⟨d, hd, rfl⟩ := List.mem_map.1 (List.mem_mergeSort.1 hc)
  exact ⟨suite, hsuite, d, hd, rfl⟩

end Config

namespace Session

theorem timeout_testing (s : Session) (settings : Settings) :
    (s.testing settings).timeout = settings.config.testing.timeout := by
  unfold testing
  dsimp only
  split <;> rfl

/-- Of a configuration that is accepted, the compiler is rejected exactly where it is given no time,
which ends each commit that can be written, a host exactly where it is given no time, and a case
exactly where its command is empty. -/
theorem rejected_iff_of_parse {text : String} {settings : Settings}
    (h : Config.parse text = .ok settings.config) (s : Session) :
    let compiler := settings.config.compiler
    let testing := s.testing settings
    (∀ (m : Machine) (commit : Commit) (scope : Scope) (w : World),
      let dir := m.scratch.directory w
      (∃ reason, (((s.scheme settings).apply m commit scope).run w).1 =
          .error (.process (.invalidCommand reason))) ↔
        compiler.timeout = 0 ∧ ∃ paths, ((checkout dir compiler.accepts commit.entries).run
          (m.scratch.opened w)).1 = .ok paths) ∧
      (∀ (m : Machine) (dir : Location) (suite : String) (w : World),
        Rejected
            ((m.execute (.ok dir) testing.timeout (testing.host ++ [suite, dir.text])).run w).1 ↔
          settings.config.testing.timeout = 0) ∧
      ∀ suite ∈ settings.config.registry.suites, ∀ c ∈ suite.cases, ∃ command timeout,
        c.body = .command command timeout ∧ 0 < timeout ∧
          ∀ (m : Machine) (group : ProcessGroup) (place : Place) (w : World),
            Rejected ((m.executeWith group place timeout command).run w).1 ↔ command = [] := by
  intro compiler testing
  refine ⟨fun m commit scope w => ?_, fun m dir suite w => ?_, fun suite hsuite c hc => ?_⟩
  · have hiff := Scheme.standard_error_process_iff_build m commit scope w compiler testing
    exact (exists_congr fun reason => hiff _).trans
      (Compiler.rejected_build_iff _ _ compiler m commit)
  · rw [Machine.rejected_executeWith_iff, s.timeout_testing]
    simp
  · obtain ⟨source, hsource, d, hd, rfl⟩ := Config.exists_case_of_mem_registry hsuite hc
    have ht := Config.timeout_pos_of_fault? (Config.fault?_of_parse h) hsource hd
    refine ⟨d.command, d.timeout, rfl, ht, fun m group place w => ?_⟩
    rw [Machine.rejected_executeWith_iff]
    simp [Nat.ne_of_gt ht]

/-- A configuration that is accepted although nothing that it configures can be run. -/
theorem rejected_iff_of_parse_zero :
    let text := "[build]\ntimeout_ms = 0\n[test]\ntimeout_ms = 0\n" ++
      "[[suite]]\nname = 's'\n[[suite.case]]\nname = 'a'\ncommand = []\n"
    let config : Config := { Config.standard with
      compiler := { Compiler.standard with timeout := 0 }
      testing := { Testing.standard with timeout := 0 }
      suites := [⟨"s", [⟨"a", [], 10000⟩]⟩] }
    let s : Session := ⟨.bare, [], "/bin/gitmark", none⟩
    let w : World := .fresh ⟨[]⟩
    Config.parse text = .ok config ∧
      (∃ reason,
        (((s.scheme ⟨none, config⟩).apply .bare ⟨"c1", "one", none, none, []⟩ .empty).run w).1 =
          .error (.process (.invalidCommand reason))) ∧
      Rejected ((Machine.bare.execute (.ok []) 0 ["/bin/gitmark", "run-suite", "s", "/"]).run w).1 ∧
      Rejected ((Machine.bare.executeWith .inherit (.ok []) 10000 []).run w).1 := by
  intro text config s w
  have h : Config.parse text = .ok config := by decide +kernel
  obtain ⟨hmark, hhost, hcase⟩ := @rejected_iff_of_parse text ⟨none, config⟩ h s
  refine ⟨h, (hmark .bare _ _ w).2 ⟨rfl, [], rfl⟩, (hhost .bare [] "s" w).2 rfl, ?_⟩
  obtain ⟨command, timeout, hbody, -, hiff⟩ :=
    hcase _ (Registry.mem_suites_ofSuites.2 (List.mem_singleton_self _)) _
      (List.mem_mergeSort.2 (List.mem_singleton_self _))
  cases hbody
  exact (hiff .bare .inherit (.ok []) w).2 rfl

end Session

end CommitMarking
