import CommitMarking.Proofs.Keeping
import CommitMarking.Proofs.Lists
import CommitMarking.Proofs.Suite.Verdict
import CommitMarking.Proofs.Text.ByteOrder
import Mathlib.Data.List.Forall2

namespace CommitMarking

open Text

variable {m : Machine} {place : Place}

theorem Machine.executeWith_eq_ok_iff {group : ProcessGroup} {timeout : Nat}
    {command : List String} {w : World} {e : Execution} :
    ((m.executeWith group place timeout command).run w).1 = .ok e ↔
      0 < timeout ∧ ∃ program args, command = program :: args ∧
        ((m.start place (some timeout) group program args).run w).1 = .ok e := by
  unfold executeWith
  split
  next ht => exact iff_of_false nofun (by simp [ht])
  next ht =>
      cases command with
      | nil => exact iff_of_false nofun (by simp)
      | cons program args =>
          rw [Act.run_mapError]
          constructor
          · intro h
            exact ⟨Nat.pos_of_ne_zero ht, program, args, rfl, of_mapError_ok h⟩
          · rintro ⟨-, program', args', hcommand, h⟩
            obtain ⟨rfl, rfl⟩ := List.cons_eq_cons.1 hcommand
            rw [h, mapError_ok]

namespace TestCase

def Succeeds (m : Machine) (place : Place) (w : World) (timeout : Nat) (command : List String) :
    Prop :=
  0 < timeout ∧ ∃ program args e, command = program :: args ∧
    ((m.start place (some timeout) .inherit program args).run w).1 = .ok e ∧ e.exitCode = some 0

/-- The outcome of a case that is run alone, by how its check or its command ends. -/
inductive Ends (m : Machine) (place : Place) (w : World) : TestCase → CaseOutcome → Prop
  | passed {name : String} {check : FileTree → Place → CheckResult}
      (run : check w.files place = .passed) : Ends m place w ⟨name, .check check⟩ ⟨name, none⟩
  | failed {name message : String} {check : FileTree → Place → CheckResult}
      (run : check w.files place = .failed message) :
      Ends m place w ⟨name, .check check⟩ ⟨name, some message⟩
  | panicked {name message : String} {check : FileTree → Place → CheckResult}
      (run : check w.files place = .panicked (some message)) :
      Ends m place w ⟨name, .check check⟩ ⟨name, some ("panicked: " ++ message)⟩
  | textless {name : String} {check : FileTree → Place → CheckResult}
      (run : check w.files place = .panicked none) :
      Ends m place w ⟨name, .check check⟩ ⟨name, some "panicked: unknown panic payload"⟩
  | succeeded {name : String} {command : List String} {timeout : Nat}
      (success : Succeeds m place w timeout command) :
      Ends m place w ⟨name, .command command timeout⟩ ⟨name, none⟩
  | broke {name message : String} {command : List String} {timeout : Nat}
      (failure : ¬Succeeds m place w timeout command) (told : message ≠ "") :
      Ends m place w ⟨name, .command command timeout⟩ ⟨name, some message⟩

variable {w v : World} {program : String} {timeout : Nat} {e : Execution}

theorem exitFailure_eq_none_iff {code : Option Int} :
    exitFailure program timeout code = none ↔ code = some 0 := by
  cases code with
  | none => simp [exitFailure]
  | some code => simp [exitFailure]

theorem exitFailure_ne_empty {code : Option Int} {message : String}
    (h : exitFailure program timeout code = some message) : message ≠ "" := by
  cases code with
  | none =>
      cases h
      simp
  | some code =>
      rw [exitFailure] at h
      split at h
      · cases h
      · cases h
        simp

theorem executionFailure_eq_none_iff :
    executionFailure program timeout e = none ↔ e.exitCode = some 0 := by
  rw [executionFailure, Option.map_eq_none_iff, exitFailure_eq_none_iff]

theorem executionFailure_ne_empty {message : String}
    (h : executionFailure program timeout e = some message) : message ≠ "" := by
  obtain ⟨reason, hreason, rfl⟩ := Option.map_eq_some_iff.1 h
  have hne := exitFailure_ne_empty hreason
  split
  · exact hne
  · simp

theorem succeeds_iff {command : List String} :
    Succeeds m place w timeout command ↔
      ∃ e, ((m.executeWith .inherit place timeout command).run w).1 = .ok e ∧
        e.exitCode = some 0 := by
  simp only [Machine.executeWith_eq_ok_iff]
  constructor
  · rintro ⟨ht, program, args, e, hcommand, hstart, hcode⟩
    exact ⟨e, ⟨ht, program, args, hcommand, hstart⟩, hcode⟩
  · rintro ⟨e, ⟨ht, program, args, hcommand, hstart⟩, hcode⟩
    exact ⟨ht, program, args, e, hcommand, hstart, hcode⟩

theorem ends_command (name : String) (command : List String) (timeout : Nat) (w : World) :
    Ends m place w ⟨name, .command command timeout⟩
      ⟨name, ((runCommand m place timeout command).run w).1.1⟩ := by
  rw [runCommand, Act.run_run_bind]
  cases hrun : ((m.executeWith .inherit place timeout command).run w).1 with
  | error x =>
      refine .broke (fun h => ?_) (by simp)
      obtain ⟨e, he, -⟩ := succeeds_iff.1 h
      cases hrun.symm.trans he
  | ok e =>
      have hsuccess : Succeeds m place w timeout command ↔ e.exitCode = some 0 := by
        simp [succeeds_iff, hrun]
      dsimp only
      cases hfailure : executionFailure (command.headD "command") timeout e with
      | none => exact .succeeded (hsuccess.2 (executionFailure_eq_none_iff.1 hfailure))
      | some message =>
          refine .broke (fun h => ?_) (executionFailure_ne_empty hfailure)
          rw [executionFailure_eq_none_iff.2 (hsuccess.1 h)] at hfailure
          cases hfailure

theorem ends_run (c : TestCase) (w : World) : Ends m place w c ((c.run m place).run w).1.1 := by
  obtain ⟨name, check | ⟨command, timeout⟩⟩ := c
  case check =>
    change Ends m place w _ ⟨name, (check w.files place).failure⟩
    cases hrun : check w.files place with
    | passed => exact .passed hrun
    | failed message => exact .failed hrun
    | panicked message =>
        cases message with
        | none => exact .textless hrun
        | some message => exact .panicked hrun
  case command => exact ends_command name command timeout w

section Keeping

variable {view : FileTree → FileTree}

theorem runCommand_keeps
    (h : ∀ r ∈ m.residents, ∀ limit args dir, place = .ok dir → Keeps view (r.run limit args dir))
    (timeout : Nat) (command : List String) :
    Keeps view (runCommand m place timeout command) := by
  refine Keeps.bind (Machine.executeWith_keeps h .inherit timeout command) fun result => ?_
  cases result <;> exact Keeps.pure _

theorem run_keeps
    (h : ∀ r ∈ m.residents, ∀ limit args dir, place = .ok dir → Keeps view (r.run limit args dir))
    (c : TestCase) : Keeps view (c.run m place) := by
  have hb : Keeps view (runBody m place c.body) := by
    cases c.body with
    | check run => exact Keeps.get_bind (fun _ _ => rfl) fun w => Keeps.pure _
    | command command timeout => exact runCommand_keeps h timeout command
  exact hb.bind fun _ => .pure _

end Keeping

theorem run_congr (hm : m.Contained) (place : Place) (c : TestCase) (ha : v.anew = w.anew) :
    ((c.run m place).run v).1 = ((c.run m place).run w).1 ∧
      ((c.run m place).run v).2.anew = ((c.run m place).run w).2.anew := by
  cases place with
  | error x =>
      have h : Keeps id (c.run m (.error x)) := c.run_keeps fun _ _ _ _ _ hdir => by cases hdir
      exact h.run_congr ha
  | ok dir =>
      have h : Keeps (·.remove dir) (c.run m (.ok dir)) := by
        refine c.run_keeps fun r hr limit args _ hdir => ?_
        cases hdir
        exact hm r hr limit args dir
      exact h.run_congr ha

/-- A case leaves the files as they are and makes no scratch directories. -/
structure Still (m : Machine) (place : Place) (w : World) (c : TestCase) : Prop where
  files_eq : ((c.run m place).run w).2.files = w.files
  made_eq : ((c.run m place).run w).2.made = w.made

theorem Still.anew_eq (h : Still m place w c) : ((c.run m place).run w).2.anew = w.anew := by
  rw [World.anew, World.anew, h.files_eq, h.made_eq]

/-- Such cases do not know of each other. -/
theorem run_mapM_of_still (hm : m.Contained) {cs : List TestCase}
    (still : ∀ c ∈ cs, Still m place w c) (ha : v.anew = w.anew) :
    ((cs.mapM (TestCase.run m place)).run v).1 =
      cs.map fun c => ((c.run m place).run w).1 := by
  induction cs generalizing v with
  | nil => rfl
  | cons c cs ih =>
      obtain ⟨hc, hcs⟩ := List.forall_mem_cons.1 still
      obtain ⟨hrun, hafter⟩ := run_congr hm place c ha
      rw [run_mapM_cons, List.map_cons, hrun, ih hcs (hafter.trans hc.anew_eq)]

end TestCase

namespace TestSuite

/-- The cases that are given, in the byte order of their names and, where these are the same, in the
order in which they are given. -/
structure InNameOrder (given listed : List TestCase) : Prop where
  perm : listed.Perm given
  ordered : listed.Pairwise fun a b => Utf8.encode a.name ≤ Utf8.encode b.name
  stable : ∀ name, listed.filter (·.name = name) = given.filter (·.name = name)

theorem inNameOrder_ofCases (name : String) (cases : List TestCase) :
    InNameOrder cases (ofCases name cases).cases := by
  have trans (a b c : TestCase) : decide (a.name ≤ b.name) = true →
      decide (b.name ≤ c.name) = true → decide (a.name ≤ c.name) = true := by
    simp only [decide_eq_true_eq]
    exact String.le_trans
  have total (a b : TestCase) : (decide (a.name ≤ b.name) || decide (b.name ≤ a.name)) = true := by
    simpa using String.le_total a.name b.name
  refine ⟨List.mergeSort_perm .., ?_, fun n => filter_mergeSort trans total ?_ cases⟩
  · refine (List.pairwise_mergeSort trans total cases).imp fun h => ?_
    exact Utf8.encode_le_encode_iff.2 (of_decide_eq_true h)
  · simp only [decide_eq_true_eq]
    rintro a b rfl hb
    rw [hb]

end TestSuite

namespace Registry

theorem suites_ofSuites (registered : List TestSuite) :
    (ofSuites registered).suites = registered.reverse := by
  have h : ∀ r : Registry, (registered.foldl register r).suites = registered.reverse ++ r.suites := by
    induction registered with
    | nil => exact fun r => rfl
    | cons s registered ih =>
        intro r
        rw [List.foldl_cons, ih, List.reverse_cons, List.append_assoc]
        rfl
  exact (h empty).trans (List.append_nil _)

theorem get?_ofSuites_eq_some_iff {registered : List TestSuite} {id : String} {s : TestSuite} :
    (ofSuites registered).get? id = some s ↔
      s.name = id ∧ ∃ before after, registered = before ++ s :: after ∧ ∀ t ∈ after, t.name ≠ id := by
  rw [get?, suites_ofSuites, find?_reverse_eq_some_iff]
  simp only [decide_eq_true_eq, decide_eq_false_iff_not, ne_eq]

/-- The suite of a name is the one that is registered last under it. Suites list all of their cases
in the order of their names, and running one has an outcome for each of these: as long as the cases
leave the files as they are, it is the outcome of the case that is run alone. -/
theorem suites_run_in_order :
    (∀ registered id s, (ofSuites registered).get? id = some s ↔
      s.name = id ∧ ∃ before after, registered = before ++ s :: after ∧ ∀ t ∈ after, t.name ≠ id) ∧
    ∀ name cases, let suite := TestSuite.ofCases name cases
      TestSuite.InNameOrder cases suite.cases ∧
      ∀ (m : Machine) place w, m.Contained →
        (∀ c ∈ cases, c.Still m place w) →
        ∃ report v, (suite.run m place).run w = (report, v) ∧ report.suite = name ∧
          report.cases = suite.cases.map (fun c => ((c.run m place).run w).1.1) ∧
          List.Forall₂ (TestCase.Ends m place w) suite.cases report.cases ∧
          report.countPassed = (report.cases.filter (·.failure = none)).length := by
  refine ⟨fun _ _ _ => get?_ofSuites_eq_some_iff, fun name cases => ?_⟩
  intro suite
  have horder := TestSuite.inNameOrder_ofCases name cases
  refine ⟨horder, fun m place w hm still => ?_⟩
  have hrun : (((suite.cases.mapM (TestCase.run m place)).run w).1.map (·.1)) =
      suite.cases.map fun c => ((c.run m place).run w).1.1 := by
    rw [TestCase.run_mapM_of_still hm (fun c hc => still c (horder.perm.mem_iff.1 hc)) rfl,
      List.map_map]
    rfl
  refine ⟨_, _, rfl, rfl, hrun, ?_, ?_⟩
  · change List.Forall₂ _ _ (((suite.cases.mapM (TestCase.run m place)).run w).1.map (·.1))
    rw [hrun, List.forall₂_map_right_iff, List.forall₂_same]
    exact fun c _ => c.ends_run w
  · rw [SuiteReport.countPassed, List.countP_eq_length_filter]
    exact congrArg List.length (List.filter_congr fun c _ => c.passed_eq)

/-- Between two cases of the same name there are commands that pass, that cannot be started and that
are not done in time. -/
theorem suites_run_in_order_mixed :
    let ls : Rule := { Rule.unmatched "ls" with stderr := [], ending := .exit 0 }
    let slow : Rule := { ls with program := "slow", rest := 6 }
    let m : Machine := .ofRules [ls, slow]
    let cases : List TestCase := [⟨"b", .check fun _ _ => .panicked none⟩,
      ⟨"d", .command ["slow"] 5⟩, ⟨"a", .command ["make"] 5⟩, ⟨"c", .command ["ls"] 5⟩,
      ⟨"b", .check fun _ _ => .failed "missing"⟩]
    let suite := TestSuite.ofCases "s" cases
    let place : Place := .ok []
    let w : World := .fresh ⟨[]⟩
    m.Contained ∧ (∀ c ∈ cases, c.Still m place w) ∧
      (ofSuites [⟨"s", []⟩, suite, ⟨"t", []⟩]).get? "s" = some suite ∧
      ∃ report v, (suite.run m place).run w = (report, v) ∧ report.suite = "s" ∧
        List.Forall₂ (TestCase.Ends m place w) suite.cases report.cases ∧
        report.cases = [
          ⟨"a", some ("failed to start make: failed to start make: " ++
            "No such file or directory (os error 2)")⟩,
          ⟨"b", some "panicked: unknown panic payload"⟩, ⟨"b", some "missing"⟩, ⟨"c", none⟩,
          ⟨"d", some "slow timed out after 5 ms"⟩] ∧
        report.countPassed = 1 := by
  intro ls slow m cases suite place w
  have hm : m.Contained := fun r hr => by cases hr
  have still : ∀ c ∈ cases, c.Still m place w := by
    simp only [cases, List.forall_mem_cons]
    exact ⟨⟨rfl, rfl⟩, ⟨rfl, rfl⟩, ⟨rfl, rfl⟩, ⟨rfl, rfl⟩, ⟨rfl, rfl⟩, by simp⟩
  have hsorted : suite.cases = [⟨"a", .command ["make"] 5⟩, ⟨"b", .check fun _ _ => .panicked none⟩,
      ⟨"b", .check fun _ _ => .failed "missing"⟩, ⟨"c", .command ["ls"] 5⟩,
      ⟨"d", .command ["slow"] 5⟩] := by
    simp [suite, cases, TestSuite.ofCases, List.mergeSort, List.MergeSort.Internal.splitInTwo]
  obtain ⟨report, v, hrun, hname, hcases, hends, hcount⟩ :=
    (suites_run_in_order.2 "s" cases).2 m place w hm still
  have houtcomes : report.cases = [
      ⟨"a", some ("failed to start make: failed to start make: " ++
        "No such file or directory (os error 2)")⟩,
      ⟨"b", some "panicked: unknown panic payload"⟩, ⟨"b", some "missing"⟩, ⟨"c", none⟩,
      ⟨"d", some "slow timed out after 5 ms"⟩] := by
    rw [hcases]
    change suite.cases.map _ = _
    rw [hsorted]
    decide +kernel
  refine ⟨hm, still, (suites_run_in_order.1 _ "s" suite).2 ⟨rfl, [⟨"s", []⟩], [⟨"t", []⟩], rfl, ?_⟩,
    report, v, hrun, hname, hends, houtcomes, ?_⟩
  · simp
  · rw [hcount, houtcomes]
    decide

end Registry

end CommitMarking
