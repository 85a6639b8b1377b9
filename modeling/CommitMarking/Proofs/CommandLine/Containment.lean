import CommitMarking.CommandLine.Session
import CommitMarking.Proofs.Restoring
import CommitMarking.Proofs.Suite.Order

namespace CommitMarking

variable {m : Machine}

theorem Machine.start_keeps_id (h : m.residents = []) (place : Place) (limit : Option Nat)
    (group : ProcessGroup) (program : String) (args : List String) :
    Act.Keeps id (m.start place limit group program args) := by
  refine Machine.start_keeps (fun r hr => ?_) group program
  rw [h] at hr
  cases hr

theorem Machine.contained_of_none (h : m.residents = []) : m.Contained := by
  intro r hr
  rw [h] at hr
  cases hr

namespace Repository

variable {r : Repository}

theorem git_keeps (h : r.machine.residents = []) (args : List String) :
    Act.Keeps id (r.git args) := by
  refine Act.Keeps.bind (Act.Keeps.mapError _ (Machine.start_keeps_id h ..)) fun e => ?_
  split
  · exact Act.Keeps.pure _
  · exact Act.Keeps.throw _

theorem isRepository_keeps (h : r.machine.residents = []) : Keeps id r.isRepository := by
  refine Keeps.bind (git_keeps h _) fun result => ?_
  cases result <;> exact Keeps.pure _

theorem gitText_keeps (h : r.machine.residents = []) (args : List String) :
    Act.Keeps id (r.gitText args) :=
  (git_keeps h args).bind fun _ => .pure _

theorem blob_keeps (h : r.machine.residents = []) (name : String) : Act.Keeps id (r.blob name) := by
  unfold blob
  split
  · exact Act.Keeps.pure _
  · exact git_keeps h _

theorem entries_keeps (h : r.machine.residents = []) (parent : Option String) (name : String) :
    Act.Keeps id (r.entries parent name) := by
  refine (git_keeps h _).bind fun raw => (Act.Keeps.lift _).bind fun changes => ?_
  refine Act.Keeps.mapM fun c _ => ?_
  exact (blob_keeps h _).bind fun _ => (blob_keeps h _).bind fun _ => .pure _

theorem commit_keeps (h : r.machine.residents = []) (parent : Option String) (name : String) :
    Act.Keeps id (r.commit parent name) :=
  (gitText_keeps h _).bind fun _ => (gitText_keeps h _).bind fun _ =>
    (entries_keeps h parent name).bind fun _ => .pure _

theorem commits_keeps (h : r.machine.residents = []) (parent : Option String)
    (names : List String) : Act.Keeps id (r.commits parent names) := by
  induction names generalizing parent with
  | nil => exact Act.Keeps.pure _
  | cons name names ih =>
      exact (commit_keeps h parent name).bind fun _ => (ih (some name)).bind fun _ => .pure _

theorem history_keeps (h : r.machine.residents = []) : Act.Keeps id r.history :=
  (gitText_keeps h _).bind fun _ => commits_keeps h none _

end Repository

theorem TestCase.run_keeps_id (h : m.residents = []) (place : Place) (c : TestCase) :
    Keeps id (c.run m place) := by
  refine c.run_keeps fun r hr => ?_
  rw [h] at hr
  cases hr

namespace TestSuite

theorem run_keeps (h : m.residents = []) (place : Place) (s : TestSuite) :
    Keeps id (s.run m place) :=
  (Keeps.mapM (TestCase.run_keeps_id h place) s.cases).bind fun _ => .pure _

theorem runCasesWithin_keeps (h : m.residents = []) (place : Place) (limit : Nat)
    (cases : List TestCase) : Keeps id (runCasesWithin m place limit cases) := by
  induction cases generalizing limit with
  | nil => exact Keeps.pure _
  | cons c cs ih =>
      refine (c.run_keeps_id h place).bind fun ran => ?_
      dsimp only
      split
      · exact Keeps.pure _
      · exact (ih _).bind fun _ => .pure _

theorem runWithin_keeps (h : m.residents = []) (place : Place) (limit : Nat) (s : TestSuite) :
    Keeps id (s.runWithin m place limit) :=
  (runCasesWithin_keeps h place limit s.cases).bind fun _ => .pure _

end TestSuite

namespace Registry

theorem serve_keeps (h : m.residents = []) (r : Registry) (sink : Sink) (suite : String)
    (place : Place) : Keeps id (r.serve m sink suite place) := by
  unfold serve
  cases r.get? suite with
  | none => exact Keeps.pure _
  | some s => exact (s.run_keeps h place).bind fun _ => .pure _

theorem serveWithin_keeps (h : m.residents = []) (r : Registry) (limit : Nat) (suite : String)
    (place : Place) : Keeps id (r.serveWithin m limit suite place) := by
  unfold serveWithin
  cases r.get? suite with
  | none => exact Keeps.pure _
  | some s => exact (s.runWithin_keeps h place limit).bind fun _ => .pure _

end Registry

namespace Session

variable {s : Session}

theorem scheme_contained (s : Session) (settings : Settings) : (s.scheme settings).Contained m :=
  ⟨⟨.compiler _, .testing _⟩, ⟨trivial, trivial, trivial, ⟨trivial, trivial⟩, trivial,
    ⟨trivial, trivial⟩, ⟨trivial, trivial⟩, trivial⟩, trivial⟩

theorem mark_keeps (h : s.machine.residents = []) (settings : Settings) (path : String)
    (last : Bool) (width : Option Nat) :
    Act.Keeps id (s.mark s.machine settings path last width) := by
  have hm := Machine.contained_of_none h
  have he := s.scheme_contained (m := s.machine) settings
  unfold mark
  refine Act.Keeps.get_bind (fun _ _ => rfl) fun w => ?_
  refine Act.Keeps.bind (Act.Keeps.monadLift (Repository.isRepository_keeps h)) fun found => ?_
  cases found with
  | false => exact Act.Keeps.throw _
  | true =>
      simp only [Bool.not_true, Bool.false_eq_true, if_false]
      split
      · exact Act.Keeps.throw _
      · refine Act.Keeps.bind ((Repository.history_keeps h).mapError _) fun commits => ?_
        split <;> exact (Act.Keeps.monadLift (Expr.markAll_keeps hm he _)).bind fun _ => .pure _

theorem host_keeps (h : s.machine.residents = []) (settings : Settings) (suite dir : String) :
    Act.Keeps id (s.host settings suite dir) := by
  refine Act.Keeps.get_bind (fun _ _ => rfl) fun w => ?_
  exact (Act.Keeps.monadLift (Registry.serve_keeps h ..)).bind fun _ => .lift _

theorem answer_keeps (h : s.machine.residents = []) (r : Request) :
    Act.Keeps id (s.answer s.machine r) := by
  refine Act.Keeps.get_bind (fun _ _ => rfl) fun w => (Act.Keeps.lift _).bind fun settings => ?_
  cases r.task with
  | mark path last width => exact mark_keeps h settings path last width
  | host suite dir => exact host_keeps h settings suite dir

theorem hostWithin_keeps (h : s.machine.residents = []) (limit : Nat) (settings : Settings)
    (suite dir : String) : Keeps id (s.hostWithin limit settings suite dir) := by
  refine Keeps.get_bind (fun _ _ => rfl) fun w => ?_
  exact (Registry.serveWithin_keeps h ..).bind fun _ => .pure _

theorem answerWithin_keeps (h : s.machine.residents = []) (limit : Nat) (r : Request) :
    Keeps id (s.answerWithin limit r) := by
  refine Keeps.get_bind (fun _ _ => rfl) fun w => ?_
  split
  · exact hostWithin_keeps h ..
  · exact Keeps.bind (answer_keeps h r) fun _ => .pure _

theorem replyWithin_keeps (h : s.machine.residents = []) (limit : Option Nat)
    (args : List String) : Keeps id (s.replyWithin limit args) := by
  unfold replyWithin
  split
  · exact Keeps.pure _
  · exact Keeps.bind (answer_keeps h _) fun _ => .pure _
  · exact (answerWithin_keeps h ..).bind fun _ => .pure _

/-- The executable, started as a program to host suites, leaves all files as they are. -/
theorem marker_contained (h : s.machine.residents = []) : s.marker.Contained := by
  intro r hr limit args dir
  have hs := replyWithin_keeps (s := { s with dir }) h limit args
  rw [marker, h] at hr
  obtain rfl : r = s.resident := List.mem_singleton.1 hr
  exact hs.of_id.bind fun _ => .pure _

end Session

end CommitMarking
