import CommitMarking.Proofs.CommandLine.Hosting
import CommitMarking.Proofs.CommandLine.Preconditions
import CommitMarking.Proofs.FileSystem.Canonical
import CommitMarking.Proofs.Suite.Delivery

namespace CommitMarking

namespace Machine

variable {m : Machine} {resident : Resident} {program : String} {args : List String}
  {dir : Location} {w : World}

def deliverable (arg : String) : Bool := !hasNul arg && !argumentTooLong arg

theorem all_deliverable_iff :
    args.all deliverable = true ↔ args.any hasNul = false ∧ args.any argumentTooLong = false := by
  simp [deliverable, forall_and]

theorem start_resident (hr : m.resident? program = some resident) (hp : hasNul program = false)
    (hdir : w.files.directory? dir = .ok dir) (hargs : args.all deliverable = true)
    (hroom : argumentSize (program :: args) ≤ m.argumentRoom) (limit : Option Nat)
    (group : ProcessGroup) :
    (m.start (.ok dir) limit group program args).run w =
      let ran := (resident.run limit args dir).run
        { w with calls := w.calls ++ [⟨program, args, dir⟩] }
      (.ok (ran.1.execution limit group), ran.2) := by
  obtain ⟨hnul, hlong⟩ := all_deliverable_iff.1 hargs
  have hrefusal : m.refusal? w.files ⟨program, args, dir⟩ = none := by
    simp [refusal?, lacksRoom, hr, hlong, hroom]
  have hadmission : m.admission w.files (.ok dir) program args = .ok ⟨program, args, dir⟩ := by
    have hplace : ((.ok dir : Place).mapError SystemError.inArgument) >>= w.files.directory? =
        .ok dir := hdir
    unfold admission
    rw [if_neg (by simp [hp, hnul]), hplace]
    dsimp only [bind, Except.bind]
    rw [hrefusal]
    rfl
  rw [run_start, hadmission]
  simp only [launch, hr]

theorem start_undeliverable
    (h : ¬(args.all deliverable = true ∧ argumentSize (program :: args) ≤ m.argumentRoom))
    (place : Place) (limit : Option Nat) (group : ProcessGroup) :
    ∃ e, ((m.start place limit group program args).run w).1 = .error e := by
  obtain ⟨-, source, hrun⟩ | ⟨hs, -⟩ := m.run_start_cases place limit group program args w
  · exact ⟨source, congrArg Prod.fst hrun⟩
  · have hnul := (Bool.or_eq_false_iff.1 (not_any_hasNul_iff.2 hs.nul)).2
    have hlong : args.any argumentTooLong = false := by
      simpa [argumentTooLong] using hs.short
    exact absurd ⟨all_deliverable_iff.2 ⟨hnul, hlong⟩, hs.room⟩ h

end Machine

theorem FileTree.Spelled.deliverable_text {t : FileTree} {l : Location} (h : t.Spelled l) :
    Machine.deliverable l.text = true := by
  have hshort : Machine.argumentTooLong l.text = false := by
    have hfits := h.fits_text
    simp only [pathTooLong, decide_eq_false_iff_not] at hfits
    simp only [Machine.argumentTooLong, decide_eq_false_iff_not]
    omega
  rw [Machine.deliverable, Location.hasNul_text h.properStep, hshort]
  rfl

namespace Testing

variable {t : Testing} {m : Machine} {dir : Location} {suite : String} {w : World}

theorem runSuite_of_ok {e : Execution}
    (h : ((m.execute (.ok dir) t.timeout (t.host ++ [suite, dir.text])).run w).1 = .ok e) :
    ((t.runSuite m dir suite).run w).1 = (suite, .ofExecution suite e) := by
  rw [runSuite, Act.run_run_bind, h]
  rfl

theorem runSuite_of_error {e : ProcessError}
    (h : ((m.execute (.ok dir) t.timeout (t.host ++ [suite, dir.text])).run w).1 = .error e) :
    ((t.runSuite m dir suite).run w).1 = (suite, .exception e.message) := by
  rw [runSuite, Act.run_run_bind, h]
  rfl

end Testing

/-- A reply is written at once, however little time there is. -/
theorem Reply.execution_process (r : Reply) (limit : Nat) :
    r.process.execution (some limit) .own =
      ⟨some (r.exitCode : Int), Text.Utf8.encode r.stdout, Text.Utf8.encode r.stderr, 0⟩ := by
  simp [Process.execution, Process.endsWithin, Process.lasts, Process.elapsed, Process.written,
    Process.writtenWithin, Write.onto, Reply.process, Ending.exitCode?]

namespace SuiteOutcome

theorem ofOutput_ne_completed {suite stdout : String}
    (h : (lastLine? stdout).bind SuiteReport.read? = none) (cases : List CaseOutcome) :
    ofOutput suite stdout ≠ completed cases := by
  intro hc
  unfold ofOutput at hc
  cases hl : lastLine? stdout with
  | none => rw [hl] at hc; cases hc
  | some line =>
      rw [hl, Option.bind_some] at h
      simp only [hl, h] at hc
      cases hc

/-- What is printed where a command line is not understood is no report. -/
theorem ofExecution_stopped_ne_completed (suite : String) (stop : Stop) (limit : Nat)
    (cases : List CaseOutcome) :
    ofExecution suite ((Reply.stopped stop).process.execution (some limit) .own) ≠
      completed cases := by
  have hprinted (text : String) (h : (lastLine? text).bind SuiteReport.read? = none)
      (stderr : Bytes) :
      ofExecution suite ⟨some 0, Text.Utf8.encode text, stderr, 0⟩ ≠ completed cases := by
    simp only [ofExecution, if_true, Execution.stdoutText, Text.Utf8.lossy_encode]
    exact ofOutput_ne_completed h cases
  rw [Reply.execution_process]
  cases stop with
  | help => exact hprinted Reply.usageText (by decide +kernel) _
  | version => exact hprinted Reply.versionText (by decide +kernel) _
  | usage => exact fun h => by cases h
  | noValue a => exact fun h => by cases h

end SuiteOutcome

theorem Request.env_eq_none {env : Option String} {args : List String} {r : Request}
    (h : Request.parse env args = .ok r) (hc : r.config = none) : env = none := by
  obtain ⟨⟨outer, next⟩, -, h⟩ := exists_of_bind_ok h
  rcases next with _ | ⟨command, rest⟩
  · obtain ⟨outer, -, h⟩ := exists_of_bind_ok h
    cases h
    simp only [marking, Option.orElse_eq_orElse, Option.orElse_eq_or,
      Option.or_eq_none_iff] at hc
    exact hc.2
  · dsimp only at h
    split at h
    next =>
        obtain ⟨read, -, h⟩ := exists_of_bind_ok h
        obtain ⟨inner, -, h⟩ := exists_of_bind_ok h
        split at h
        next =>
            obtain ⟨outer, -, h⟩ := exists_of_bind_ok h
            cases h
            simp only [hosting, Option.orElse_eq_orElse, Option.orElse_eq_or,
              Option.or_eq_none_iff] at hc
            exact hc.2.2
        next => cases h
    next => cases h

namespace Session

variable {s : Session} {args : List String} {r : Request} {settings : Settings} {w v : World}
  {dir : Location} {suite : String} {registered : TestSuite}

theorem replyWithin_stopped {stop : Stop} (h : Request.parse s.configEnv args = .error stop)
    (limit : Option Nat) : (s.replyWithin limit args).run w = (some (.stopped stop), w) := by
  unfold replyWithin
  rw [h]
  rfl

theorem replyWithin_host {limit : Nat} {report : SuiteReport}
    (h : Request.parse s.configEnv args = .ok r) (htask : r.task = .host suite dir.text)
    (hsettings : s.settings w.files r.config = .ok settings)
    (hplace : w.files.locate s.dir dir.text = .ok dir)
    (hsuite : settings.config.registry.get? suite = some registered)
    (hran : (registered.runWithin s.machine (.ok dir) limit).run w = (some report, v)) :
    (s.replyWithin (some limit) args).run w =
      (some (.printed (Text.Utf8.lossy report.printed)), v) := by
  have hserved := Registry.run_serveWithin hsuite hran
  have hhost : (s.hostWithin limit settings suite dir.text).run w =
      (some (.ok (Text.Utf8.lossy report.printed)), v) := by
    have hrun : (s.hostWithin limit settings suite dir.text).run w =
        let served := (settings.config.registry.serveWithin s.machine limit suite
          (w.files.locate s.dir dir.text)).run w
        (served.1.map (hosted suite), served.2) := rfl
    simp only [hrun, hplace, hserved, Option.map_some, hosted]
  have hanswer : (s.answerWithin limit r).run w =
      (s.hostWithin limit settings suite dir.text).run w := by
    simp only [answerWithin, htask, StateT.run_bind, StateT.run_get, pure_bind, hsettings]
  have hreply : (s.replyWithin (some limit) args).run w =
      let answered := (s.answerWithin limit r).run w
      (answered.1.map .ofResult, answered.2) := by
    unfold replyWithin
    rw [h]
    rfl
  simp only [hreply, hanswer, hhost, Option.map_some, Reply.ofResult]

theorem source_of_readSettings {files : FileTree} {path : Location}
    (h : readSettings files path = .ok settings) : settings.source = some path := by
  obtain ⟨content, -, h⟩ := exists_of_bind_ok h
  split at h
  next => cases h
  next text =>
      obtain ⟨config, -, h⟩ := exists_of_bind_ok h
      cases h
      rfl

theorem exists_source_of_settings {files : FileTree} {path : String}
    (h : s.settings files (some path) = .ok settings) :
    ∃ l, settings.source = some l ∧ files.canonical s.dir path = .ok l ∧
      readSettings files l = .ok settings := by
  obtain ⟨l, hl, hread⟩ := exists_of_bind_ok h
  exact ⟨l, source_of_readSettings hread, of_mapError_ok hl, hread⟩

theorem spelled_source (hsettings : s.settings w.files r.config = .ok settings)
    (hhere : w.files.Spelled s.dir) : ∀ path ∈ settings.source, w.files.Spelled path := by
  cases hconfig : r.config with
  | none =>
      rw [hconfig] at hsettings
      cases hsettings
      exact fun path hp => by cases hp
  | some given =>
      rw [hconfig] at hsettings
      obtain ⟨l, hsource, hl, -⟩ := exists_source_of_settings hsettings
      rw [hsource]
      rintro path ⟨⟩
      exact FileTree.spelled_of_canonical hhere hl

/-- Hosting a suite elsewhere, the executable reads the configuration that it was given itself. -/
theorem settings_hosted (hr : Request.parse s.configEnv args = .ok r)
    (hsettings : s.settings w.files r.config = .ok settings) (hhere : w.files.Spelled s.dir)
    (other : Location) :
    { s with dir := other }.settings w.files (settings.source.map Location.text <|> s.configEnv) =
      .ok settings := by
  have hspelled := spelled_source hsettings hhere
  cases hconfig : r.config with
  | none =>
      rw [hconfig] at hsettings
      cases hsettings
      rw [Request.env_eq_none hr hconfig]
      rfl
  | some path =>
      rw [hconfig] at hsettings
      obtain ⟨l, hsource, -, hread⟩ := exists_source_of_settings hsettings
      have hfound := (hspelled l hsource).canonical_text other
      have hagain : { s with dir := other }.settings w.files (some l.text) =
          ((w.files.canonical other l.text).mapError (.configNotFound l.text) >>=
            readSettings w.files) := rfl
      rw [hsource]
      exact hagain.trans (by rw [hfound]; exact hread)

theorem resident?_marker (s : Session) : s.marker.resident? s.executable = some s.resident := by
  simp [marker, Machine.resident?, resident]

theorem host_testing (s : Session) (h : settings.config.testing.host = []) :
    (s.testing settings).host = s.hostCommand settings.source := by
  rw [testing, if_pos h]

def hostArgs (s : Session) (settings : Settings) (suite : String) (dir : Location) : List String :=
  (s.hostCommand settings.source).tail ++ [suite, dir.text]

def hosting (s : Session) (settings : Settings) (suite : String) (dir : Location) (w : World) :
    World :=
  { w with calls := w.calls ++ [⟨s.executable, s.hostArgs settings suite dir, dir⟩] }

/-- The executable hosts the suites of a configuration itself, in a directory that exists, and the
paths that this takes are spelled out. -/
structure SelfHosting (s : Session) (settings : Settings) (w : World) (dir : Location) : Prop where
  host : settings.config.testing.host = []
  executable : hasNul s.executable = false
  source : ∀ path ∈ settings.source, w.files.Spelled path
  spelled : w.files.Spelled dir
  found : w.files.directory? dir = .ok dir

theorem runSuite_untimed (h : (s.testing settings).timeout = 0) (cases : List CaseOutcome) :
    (((s.testing settings).runSuite s.marker dir suite).run w).1 ≠ (suite, .completed cases) := by
  obtain ⟨reason, hrejected⟩ := (s.marker.rejected_executeWith_iff .own (.ok dir)
    (s.testing settings).timeout ((s.testing settings).host ++ [suite, dir.text]) w).2 (.inl h)
  rw [Testing.runSuite_of_error hrejected]
  exact fun h => by cases h

namespace SelfHosting

variable (h : s.SelfHosting settings w dir)
include h

theorem all_deliverable (suite : String) :
    (s.hostArgs settings suite dir).all Machine.deliverable = Machine.deliverable suite := by
  have hoption : Machine.deliverable "--config" = true := by decide +kernel
  have hcommand : Machine.deliverable Reading.runSuite = true := by decide +kernel
  have hdir := h.spelled.deliverable_text
  cases hsource : settings.source with
  | none => simp [hostArgs, hsource, hostCommand, hcommand, hdir]
  | some path =>
      have hpath := (h.source path hsource).deliverable_text
      simp [hostArgs, hsource, hostCommand, hoption, hcommand, hpath, hdir]

theorem command_eq (suite : String) :
    (s.testing settings).host ++ [suite, dir.text] =
      s.executable :: s.hostArgs settings suite dir := by
  rw [s.host_testing h.host]
  rfl

theorem runSuite_undeliverable
    (hargs : ¬(Machine.deliverable suite = true ∧
      Machine.argumentSize ((s.testing settings).host ++ [suite, dir.text]) ≤
        s.machine.argumentRoom)) (cases : List CaseOutcome) :
    (((s.testing settings).runSuite s.marker dir suite).run w).1 ≠ (suite, .completed cases) := by
  rw [h.command_eq, ← h.all_deliverable] at hargs
  have hfails : ∃ e, ((s.marker.execute (.ok dir) (s.testing settings).timeout
      ((s.testing settings).host ++ [suite, dir.text])).run w).1 = .error e := by
    rw [h.command_eq]
    by_cases hlimit : (s.testing settings).timeout = 0
    · exact ⟨_, by rw [Machine.execute, Machine.executeWith, if_pos hlimit, Act.run_throw]⟩
    · obtain ⟨e, he⟩ := Machine.start_undeliverable (m := s.marker) (w := w) hargs (.ok dir)
        (some (s.testing settings).timeout) .own
      refine ⟨.spawn s.executable e, ?_⟩
      rw [Machine.execute, Machine.executeWith_cons (Nat.pos_of_ne_zero hlimit), Act.run_mapError,
        he]
      rfl
  obtain ⟨e, he⟩ := hfails
  rw [Testing.runSuite_of_error he]
  exact fun h => by cases h

section Delivered

variable (hsuite : Machine.deliverable suite = true)
  (hroom : Machine.argumentSize ((s.testing settings).host ++ [suite, dir.text]) ≤
    s.machine.argumentRoom)
  (hlimit : (s.testing settings).timeout ≠ 0)
include hsuite hroom hlimit

/-- The outcome of a suite is decided by what the executable replies when it is to host it. -/
theorem runSuite_replied {reply : Reply}
    (hreply : (({ s with dir }.replyWithin (some (s.testing settings).timeout)
      (s.hostArgs settings suite dir)).run (s.hosting settings suite dir w)).1 = some reply) :
    (((s.testing settings).runSuite s.marker dir suite).run w).1 =
      (suite, .ofExecution suite
        (reply.process.execution (some (s.testing settings).timeout) .own)) := by
  have hargs := h.all_deliverable suite
  rw [hsuite] at hargs
  rw [h.command_eq] at hroom
  have hrun (limit : Nat) (args : List String) (v : World) :
      ((s.resident.run (some limit) args dir).run v).1 =
        (({ s with dir }.replyWithin (some limit) args).run v).1.elim .silent Reply.process := rfl
  refine Testing.runSuite_of_ok ?_
  rw [h.command_eq, Machine.execute, Machine.executeWith_cons (Nat.pos_of_ne_zero hlimit),
    Act.run_mapError, Machine.start_resident s.resident?_marker h.executable h.found hargs hroom]
  dsimp only
  rw [hrun, ← hosting, hreply, Option.elim_some, mapError_ok]

theorem runSuite_misread (hread : ¬(¬OptionLike suite ∧ s.configEnv ≠ some ""))
    (cases : List CaseOutcome) :
    (((s.testing settings).runSuite s.marker dir suite).run w).1 ≠ (suite, .completed cases) := by
  obtain ⟨stop, hstop⟩ := s.parse_hostCommand_stops settings.source hread dir
  have hreply := @replyWithin_stopped { s with dir } _ (s.hosting settings suite dir w) stop hstop
    (some (s.testing settings).timeout)
  rw [h.runSuite_replied hsuite hroom hlimit (congrArg Prod.fst hreply)]
  intro hc
  exact SuiteOutcome.ofExecution_stopped_ne_completed suite stop _ cases (congrArg Prod.snd hc)

theorem runSuite_hosted (hword : ¬OptionLike suite) (henv : s.configEnv ≠ some "")
    (hsettings : { s with dir }.settings w.files
      (settings.source.map Location.text <|> s.configEnv) = .ok settings)
    (hregistered : settings.config.registry.get? suite = some registered) {report : SuiteReport}
    (hran : (registered.runWithin s.machine (.ok dir) (s.testing settings).timeout).run
      (s.hosting settings suite dir w) = (some report, v)) :
    (((s.testing settings).runSuite s.marker dir suite).run w).1 =
      (suite, .completed ((registered.run s.machine (.ok dir)).run
        (s.hosting settings suite dir w)).1.cases) := by
  have hreply := @replyWithin_host { s with dir } _ _ settings (s.hosting settings suite dir w) v
    dir suite registered _ report (s.parse_hostCommand settings.source hword henv dir) rfl hsettings
    (h.spelled.locate_text dir) hregistered hran
  have hrun := TestSuite.run_of_within hran
  have hname : report.suite = suite := by
    rw [← Registry.name_of_get? hregistered]
    exact (congrArg (SuiteReport.suite ·.1) hrun).symm
  have hcompleted := SuiteOutcome.ofExecution_append_printed report (.inl rfl) [] 0
  rw [List.nil_append, hname] at hcompleted
  have htext : Text.Utf8.encode (Text.Utf8.lossy report.printed) = report.printed := by
    rw [SuiteReport.printed, Text.Utf8.lossy_encode]
  rw [h.runSuite_replied hsuite hroom hlimit (congrArg Prod.fst hreply), hrun,
    Reply.execution_process, ← hcompleted]
  change (suite, SuiteOutcome.ofExecution suite
    ⟨some 0, Text.Utf8.encode (Text.Utf8.lossy report.printed), Text.Utf8.encode "", 0⟩) = _
  rw [htext]
  rfl

end Delivered

end SelfHosting

/-- An executable that hosts the suites of a configuration itself understands its own command in the
same configuration exactly if the suite is a word and the environment does not name an empty path.
The outcome of a suite that can be hosted in time is that of running it exactly if, besides, the
suite's name and the command as a whole can be handed over and the host is given time. -/
theorem hosts_itself_iff (hr : Request.parse s.configEnv args = .ok r)
    (hsettings : s.settings w.files r.config = .ok settings)
    (hhost : settings.config.testing.host = [])
    (hhere : w.files.canonical [] s.dir.text = .ok s.dir) (hexe : hasNul s.executable = false) :
    let testing := s.testing settings
    (∀ (suite : String) (dir : Location),
      (∃ request,
        Request.parse s.configEnv ((testing.host ++ [suite, dir.text]).tail) = .ok request ∧
        request.task = .host suite dir.text ∧
          { s with dir := dir }.settings w.files request.config = .ok settings) ↔
        ¬OptionLike suite ∧ s.configEnv ≠ some "") ∧
      ∀ (suite : String) (registered : TestSuite) (dir : Location),
        let command := testing.host ++ [suite, dir.text]
        let hosting := s.hosting settings suite dir w
        settings.config.registry.get? suite = some registered →
        w.files.canonical [] dir.text = .ok dir → w.files.directory? dir = .ok dir →
        ((registered.runWithin s.machine (.ok dir) testing.timeout).run hosting).1 ≠ none →
        (((testing.runSuite s.marker dir suite).run w).1 =
            (suite, .completed ((registered.run s.machine (.ok dir)).run hosting).1.cases) ↔
          (¬OptionLike suite ∧ s.configEnv ≠ some "") ∧ Machine.deliverable suite = true ∧
            Machine.argumentSize command ≤ s.machine.argumentRoom ∧ testing.timeout ≠ 0) := by
  intro testing
  have hspelled := FileTree.spelled_of_canonical .root hhere
  refine ⟨fun suite dir => ?_, ?_⟩
  · have hcommand : (testing.host ++ [suite, dir.text]).tail = s.hostArgs settings suite dir := by
      rw [s.host_testing hhost]
      rfl
    rw [hcommand]
    constructor
    · rintro ⟨request, hparse, -⟩
      by_contra hstops
      obtain ⟨stop, hstop⟩ := s.parse_hostCommand_stops settings.source hstops dir
      cases hparse.symm.trans hstop
    · rintro ⟨hword, henv⟩
      exact ⟨_, s.parse_hostCommand settings.source hword henv dir, rfl,
        settings_hosted hr hsettings hspelled dir⟩
  · intro suite registered dir command hosting hsuite hthere hdir htime
    have h : s.SelfHosting settings w dir := {
      host := hhost
      executable := hexe
      source := spelled_source hsettings hspelled
      spelled := FileTree.spelled_of_canonical .root hthere
      found := hdir }
    constructor
    · intro hcompleted
      have hlimit : testing.timeout ≠ 0 := fun hzero => runSuite_untimed hzero _ hcompleted
      obtain ⟨hdeliver, hroom⟩ := not_not.1 fun hlost =>
        h.runSuite_undeliverable hlost _ hcompleted
      refine ⟨?_, hdeliver, hroom, hlimit⟩
      by_contra hread
      exact h.runSuite_misread hdeliver hroom hlimit hread _ hcompleted
    · rintro ⟨⟨hword, henv⟩, hdeliver, hroom, hlimit⟩
      obtain ⟨report, hreport⟩ := Option.ne_none_iff_exists'.1 htime
      exact h.runSuite_hosted hdeliver hroom hlimit hword henv
        (settings_hosted hr hsettings hspelled dir) hsuite (Prod.ext hreport rfl)

/-- Of two suites that differ in their names alone, only the one that is a word is reported on. -/
theorem hosts_itself_iff_dashed :
    let text := "[test]\nsuites = ['smoke', '--help']\n" ++
      "[[suite]]\nname = 'smoke'\n[[suite.case]]\nname = 'a'\ncommand = ['chk']\n" ++
      "[[suite]]\nname = '--help'\n[[suite.case]]\nname = 'a'\ncommand = ['chk']\n"
    let case : CaseConfig := ⟨"a", ["chk"], 10000⟩
    let config : Config := { Config.standard with
      testing := { Testing.standard with suites := ["smoke", "--help"] }
      suites := [⟨"smoke", [case]⟩, ⟨"--help", [case]⟩] }
    let settings : Settings := ⟨some ["g.toml"], config⟩
    let s : Session :=
      ⟨.ofRules [{ Rule.unmatched "chk" with ending := .exit 0 }], [], "/bin/gitmark", none⟩
    let w : World := .fresh ⟨[(["g.toml"], .file (Text.Utf8.encode text))]⟩
    let hosted suite := (((s.testing settings).runSuite s.marker [] suite).run w).1
    s.settings w.files (some "g.toml") = .ok settings ∧
      hosted "smoke" = ("smoke", .completed [⟨"a", none⟩]) ∧
      hosted "--help" ≠ ("--help", .completed [⟨"a", none⟩]) := by
  intro text case config settings s w hosted
  have hr : Request.parse s.configEnv ["-c", "g.toml"] =
      .ok ⟨false, false, some "g.toml", .mark "." false none⟩ := by decide +kernel
  have hsettings : s.settings w.files (some "g.toml") = .ok settings := by decide +kernel
  have hran (suite : String) : (((Config.testSuite ⟨suite, [case]⟩).run s.machine (.ok [])).run
      (s.hosting settings suite [] w)).1.cases = [⟨"a", none⟩] := by
    simp only [Config.testSuite, TestSuite.ofCases, List.map_cons, List.map_nil,
      List.mergeSort_singleton]
    rfl
  have hiff := (hosts_itself_iff hr hsettings rfl (by decide +kernel) (by decide +kernel)).2
  refine ⟨hsettings, ?_, fun h => ?_⟩
  · rw [← hran "smoke"]
    exact (hiff "smoke" _ [] rfl (by decide +kernel) rfl (by decide +kernel)).2
      ⟨by decide +kernel, by decide +kernel, by decide +kernel, by decide +kernel⟩
  · rw [← hran "--help"] at h
    have hword := (hiff "--help" _ [] rfl (by decide +kernel) rfl (by decide +kernel)).1 h
    exact hword.1.1 (by decide +kernel)

end Session

end CommitMarking
