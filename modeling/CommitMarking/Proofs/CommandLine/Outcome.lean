import CommitMarking.CommandLine.Session
import CommitMarking.Proofs.History.Loading

namespace CommitMarking

namespace Repository

variable {r : Repository} {u v w : World}

/-- All that was done between two worlds is to ask git about the repository. -/
def Asked (r : Repository) (w v : World) : Prop :=
  ∃ questions : List (List String),
    v = { w with calls := w.calls ++ questions.flatMap (r.started w.files) }

theorem Asked.refl (r : Repository) (w : World) : r.Asked w w := ⟨[], by simp⟩

theorem Asked.trans (h : r.Asked u v) (hw : r.Asked v w) : r.Asked u w := by
  obtain ⟨first, rfl⟩ := h
  obtain ⟨second, rfl⟩ := hw
  exact ⟨first ++ second, by simp⟩

theorem Asked.files_eq (h : r.Asked w v) : v.files = w.files := by
  obtain ⟨_, rfl⟩ := h
  rfl

theorem exists_questions (t : FileTree) (steps : List Step) :
    ∃ questions : List (List String),
      steps.flatMap (Step.started r t) = questions.flatMap (r.started t) := by
  induction steps with
  | nil => exact ⟨[], rfl⟩
  | cons step steps ih =>
      obtain ⟨questions, hq⟩ := ih
      cases step with
      | ask args => exact ⟨args :: questions, by rw [List.flatMap_cons, hq]; rfl⟩
      | read raw => exact ⟨questions, by rw [List.flatMap_cons, hq]; rfl⟩

variable (h : r.machine.resident? "git" = none)
include h

theorem asked_isRepository (w : World) : r.Asked w (r.isRepository.run w).2 := by
  refine ⟨[["rev-parse", "--is-inside-work-tree"]], ?_⟩
  rw [List.flatMap_cons, List.flatMap_nil, List.append_nil, isRepository, Act.run_run_bind, run_git h]
  cases r.answer w.files ["rev-parse", "--is-inside-work-tree"] <;> rfl

theorem asked_history (w : World) : r.Asked w (r.history.run w).2 := by
  obtain ⟨questions, hq⟩ := exists_questions w.files (r.taken w.files (r.steps w.files))
  exact ⟨questions, by rw [history_takes h w rfl, hq]⟩

/-- Only the files decide what comes of loading a history. -/
theorem history_of_files (hf : v.files = w.files) : (r.history.run v).1 = (r.history.run w).1 := by
  rw [history_takes h v rfl, history_takes h w rfl, hf]

end Repository

theorem Report.texts_eq_mapIdx (width index : Nat) (reports : List Report) :
    texts width index reports = reports.mapIdx fun i r => r.text width (index + i) := by
  induction reports generalizing index with
  | nil => rfl
  | cons r rs ih =>
      rw [texts, ih, List.mapIdx_cons]
      simp only [Nat.add_zero, Nat.add_assoc, Nat.add_comm 1]

theorem Expr.map_commit_markAll (m : Machine) (e : Expr .int) (commits : List Commit) (w : World) :
    ((e.markAll m commits).run w).1.map Report.commit = commits := by
  induction commits generalizing w with
  | nil => rfl
  | cons c cs ih =>
      have hcons : ((e.markAll m (c :: cs)).run w).1 =
          ⟨c, ((e.apply m c .empty).run w).1⟩ ::
            ((e.markAll m cs).run ((e.apply m c .empty).run w).2).1 := by
        rw [markAll, List.mapM_cons]
        rfl
      rw [hcons, List.map_cons, ih]

namespace Session

def repository (s : Session) (files : FileTree) (path : String) : Repository :=
  ⟨s.machine, files.locate s.dir path⟩

inductive Configured (s : Session) (files : FileTree) : Option String → Settings → Prop
  | standard : Configured s files none ⟨none, .standard⟩
  | named {path : String} {l : Location} {content : Bytes} {text : String} {config : Config}
      (found : files.canonical s.dir path = .ok l) (read : files.read l = .ok content)
      (isText : Text.Utf8.strict? content = some text) (accepted : Config.parse text = .ok config) :
      Configured s files (some path) ⟨some l, config⟩

structure Loads (s : Session) (w : World) (path : String) (columns : Nat) (commits : List Commit) :
    Prop where
  found : ((s.repository w.files path).isRepository.run w).1 = true
  positive : 0 < columns
  loaded : ((s.repository w.files path).history.run w).1 = .ok commits

/-- All is in order for marking commits with certain settings, in a report of so many columns. -/
inductive Ready (s : Session) (w : World) (args : List String) :
    Settings → Nat → List Commit → Prop
  | intro {r : Request} {path : String} {last : Bool} {width : Option Nat} {settings : Settings}
      {commits : List Commit} (parsed : Request.parse s.configEnv args = .ok r)
      (task : r.task = .mark path last width) (configured : s.Configured w.files r.config settings)
      (loads : s.Loads w path (width.getD settings.config.width) commits) :
      Ready s w args settings (width.getD settings.config.width)
        (if last then commits.getLast?.toList else commits)

def asksForMarking (s : Session) (args : List String) : Bool :=
  match Request.parse s.configEnv args with
  | .ok r =>
      match r.task with
      | .mark _ _ _ => true
      | .host _ _ => false
  | .error .help | .error .version => false
  | .error _ => true

variable {s : Session} {w : World}

theorem settings_eq_ok_iff {files : FileTree} {config : Option String} {settings : Settings} :
    s.settings files config = .ok settings ↔ s.Configured files config settings := by
  constructor
  · intro h
    cases config with
    | none =>
        cases h
        exact .standard
    | some path =>
        simp only [Session.settings, readSettings, bind, Except.bind, pure, Except.pure] at h
        rcases found : files.canonical s.dir path with e | l
        · simp [found] at h
        rcases read : files.read l with e | content
        · simp [found, read] at h
        rcases isText : Text.Utf8.strict? content with _ | text
        · simp [found, read, isText, throw, throwThe, MonadExceptOf.throw] at h
        rcases accepted : Config.parse text with e | c
        · simp [found, read, isText, accepted] at h
        · simp only [found, read, isText, accepted, mapError_ok, Except.ok.injEq] at h
          subst h
          exact .named found read isText accepted
  · intro h
    cases h with
    | standard => rfl
    | named found read isText accepted =>
        simp only [Session.settings, found, readSettings, read, isText, accepted, mapError_ok, bind,
          Except.bind, pure, Except.pure]

theorem run_mark (s : Session) (m : Machine) (settings : Settings) (path : String) (last : Bool)
    (width : Option Nat) (w : World) :
    (s.mark m settings path last width).run w =
      let columns := width.getD settings.config.width
      let found := (s.repository w.files path).isRepository.run w
      if found.1 = false then (.error (.notRepository path), found.2)
      else if columns = 0 then (.error .zeroWidth, found.2)
      else
        match (s.repository w.files path).history.run found.2 with
        | (.error e, v) => (.error (.historyUnreadable path e), v)
        | (.ok commits, v) =>
            let marked := ((s.scheme settings).markAll m
              (if last then commits.getLast?.toList else commits)).run v
            (.ok (report columns marked.1), marked.2) := by
  have hget : (get : Act Failure World).run w = (.ok w, w) := rfl
  have hlift {α : Type} (act : StateM World α) (v : World) :
      Act.run (liftM act : Act Failure α) v = (.ok (act.run v).1, (act.run v).2) := rfl
  rw [mark, Act.run_bind, hget]
  dsimp only
  rw [Act.run_bind, ← repository, hlift]
  dsimp only
  cases ((s.repository w.files path).isRepository.run w).1 with
  | false => rfl
  | true =>
      simp only [Bool.not_true, Bool.false_eq_true, Bool.true_eq_false, if_false]
      split
      · rfl
      · rw [Act.run_bind, Act.run_mapError]
        rcases (s.repository w.files path).history.run _ with ⟨e | commits, v⟩
        · rfl
        · cases last <;> rfl

theorem Ready.unique {args : List String} {settings settings' : Settings} {columns columns' : Nat}
    {commits commits' : List Commit} (h : s.Ready w args settings columns commits)
    (h' : s.Ready w args settings' columns' commits') :
    settings = settings' ∧ columns = columns' ∧ commits = commits' := by
  obtain ⟨parsed, task, configured, loads⟩ := h
  obtain ⟨parsed', task', configured', loads'⟩ := h'
  cases parsed.symm.trans parsed'
  cases task.symm.trans task'
  cases (settings_eq_ok_iff.2 configured).symm.trans (settings_eq_ok_iff.2 configured')
  cases loads.loaded.symm.trans loads'.loaded
  exact ⟨rfl, rfl, rfl⟩

def replyOn (s : Session) (m : Machine) (args : List String) : StateM World Reply :=
  match Request.parse s.configEnv args with
  | .error stop => return .stopped stop
  | .ok r => return .ofResult (← (s.answer m r).run)

theorem reply_eq_replyOn (s : Session) (args : List String) :
    s.reply args = s.replyOn s.marker args := rfl

theorem run_replyOn_of_error (s : Session) {args : List String} {stop : Stop}
    (h : Request.parse s.configEnv args = .error stop) (w : World) (m : Machine) :
    (s.replyOn m args).run w = (.stopped stop, w) := by
  rw [replyOn, h]
  rfl

theorem run_replyOn_of_mark (s : Session) {args : List String} {r : Request} {path : String}
    {last : Bool} {width : Option Nat} (h : Request.parse s.configEnv args = .ok r)
    (ht : r.task = .mark path last width) (w : World) (m : Machine) :
    (s.replyOn m args).run w =
      match s.settings w.files r.config with
      | .error failure => (.failed failure, w)
      | .ok settings =>
          let run := (s.mark m settings path last width).run w
          (.ofResult run.1, run.2) := by
  have hget : (get : Act Failure World).run w = (.ok w, w) := rfl
  have hanswer : (s.answer m r).run w =
      match s.settings w.files r.config with
      | .error failure => (.error failure, w)
      | .ok settings => (s.mark m settings path last width).run w := by
    rw [answer, Act.run_bind, hget]
    dsimp only
    rw [Act.run_bind, Act.run_lift]
    cases s.settings w.files r.config with
    | error failure => rfl
    | ok settings => rw [ht]
  rw [replyOn, h]
  change (Reply.ofResult ((s.answer m r).run w).1, ((s.answer m r).run w).2) = _
  rw [hanswer]
  cases s.settings w.files r.config <;> rfl

section Replies

variable (hg : s.machine.resident? "git" = none)
include hg

/-- Marking either marks and reports, or it fails before anything but git is started. -/
theorem run_mark_cases (settings : Settings) (path : String) (last : Bool) (width : Option Nat)
    (w : World) :
    let columns := width.getD settings.config.width
    (∃ commits v, s.Loads w path columns commits ∧ (s.repository w.files path).Asked w v ∧
      ∀ m, (s.mark m settings path last width).run w =
        let marked := ((s.scheme settings).markAll m
          (if last then commits.getLast?.toList else commits)).run v
        (.ok (report columns marked.1), marked.2)) ∨
    (∀ commits, ¬s.Loads w path columns commits) ∧
      ∃ failure v, (s.repository w.files path).Asked w v ∧
        ∀ m, (s.mark m settings path last width).run w = (.error failure, v) := by
  intro columns
  have hasked := Repository.asked_isRepository (r := s.repository w.files path) hg w
  have hrun (m : Machine) := s.run_mark m settings path last width w
  rcases hfound : (s.repository w.files path).isRepository.run w with ⟨found, v⟩
  rw [hfound] at hasked hrun
  cases found with
  | false =>
      refine .inr ⟨fun commits hl => ?_, _, v, hasked, hrun⟩
      have hf := hl.found
      rw [hfound] at hf
      cases hf
  | true =>
      simp only [Bool.true_eq_false, if_false] at hrun
      by_cases hcolumns : width.getD settings.config.width = 0
      · simp only [if_pos hcolumns] at hrun
        exact .inr ⟨fun commits hl => absurd hcolumns (Nat.ne_of_gt hl.positive), _, v, hasked, hrun⟩
      simp only [if_neg hcolumns] at hrun
      have hhistory := Repository.asked_history (r := s.repository w.files path) hg v
      have hresult := Repository.history_of_files (r := s.repository w.files path) hg hasked.files_eq
      rcases hloaded : (s.repository w.files path).history.run v with ⟨e | commits, u⟩
      · rw [hloaded] at hrun hhistory hresult
        refine .inr ⟨fun commits hl => ?_, _, u, hasked.trans hhistory, hrun⟩
        cases hresult.trans hl.loaded
      · rw [hloaded] at hrun hhistory hresult
        have hl : s.Loads w path columns commits :=
          ⟨by rw [hfound], Nat.pos_of_ne_zero hcolumns, hresult.symm⟩
        exact .inl ⟨commits, u, hl, hasked.trans hhistory, hrun⟩

theorem replyOn_cases {args : List String} (h : s.asksForMarking args = true) (w : World) :
    (∃ settings columns commits path v, s.Ready w args settings columns commits ∧
      (s.repository w.files path).Asked w v ∧
      ∀ m, (s.replyOn m args).run w =
        let marked := ((s.scheme settings).markAll m commits).run v
        (.printed (report columns marked.1), marked.2)) ∨
    (¬∃ settings columns commits, s.Ready w args settings columns commits) ∧
      ∃ reply path v, reply.exitCode ≠ 0 ∧ reply.stdout = "" ∧
        (s.repository w.files path).Asked w v ∧ ∀ m, (s.replyOn m args).run w = (reply, v) := by
  rw [asksForMarking] at h
  rcases hparse : Request.parse s.configEnv args with stop | r
  · rw [hparse] at h
    have hstop : (Reply.stopped stop).exitCode ≠ 0 ∧ (Reply.stopped stop).stdout = "" := by
      cases stop with
      | help | version => cases h
      | usage | noValue a => exact ⟨by simp [Reply.exitCode], rfl⟩
    refine .inr ⟨?_, _, "", w, hstop.1, hstop.2, .refl _ w, s.run_replyOn_of_error hparse w⟩
    rintro ⟨_, _, _, ⟨parsed, -, -, -⟩⟩
    cases hparse.symm.trans parsed
  rcases htask : r.task with ⟨path, last, width⟩ | ⟨suite, dir⟩
  · have hreply := s.run_replyOn_of_mark hparse htask w
    rcases hsettings : s.settings w.files r.config with failure | settings
    · rw [hsettings] at hreply
      refine .inr ⟨?_, .failed failure, path, w, Nat.one_ne_zero, rfl, .refl _ w, hreply⟩
      rintro ⟨_, _, _, ⟨parsed, task, configured, -⟩⟩
      cases hparse.symm.trans parsed
      cases hsettings.symm.trans (settings_eq_ok_iff.2 configured)
    rw [hsettings] at hreply
    dsimp only at hreply
    rcases run_mark_cases hg settings path last width w with
      ⟨commits, v, hl, hasked, hrun⟩ | ⟨hnone, failure, v, hasked, hrun⟩
    · refine .inl ⟨settings, _, _, path, v,
        .intro hparse htask (settings_eq_ok_iff.1 hsettings) hl, hasked, fun m => ?_⟩
      rw [hreply, hrun]
      rfl
    · refine .inr ⟨?_, .failed failure, path, v, Nat.one_ne_zero, rfl, hasked, fun m => ?_⟩
      · rintro ⟨_, _, _, ⟨parsed, task, configured, loads⟩⟩
        cases hparse.symm.trans parsed
        cases htask.symm.trans task
        cases hsettings.symm.trans (settings_eq_ok_iff.2 configured)
        exact hnone _ loads
      · rw [hreply, hrun]
        rfl
  · rw [hparse] at h
    simp [htask] at h

/-- A command line that asks for marking is answered in full or not at all. It exits with 0 exactly if
the configuration is accepted, there is a repository, the report has columns and the history can be
loaded; then it prints the reports on the commits, numbered in their order, and the summary, whatever
became of the commits. Otherwise it prints nothing, and nothing but git was started: on any machine
that commits might be marked on, the answer is the same. -/
theorem reply_all_or_nothing {args : List String} (h : s.asksForMarking args = true) (w : World) :
    let reply := (s.reply args).run w
    (reply.1.exitCode = 0 ↔
      ∃ settings columns commits, s.Ready w args settings columns commits) ∧
    (∀ settings columns commits, s.Ready w args settings columns commits →
      ∃ path v, (s.repository w.files path).Asked w v ∧
        let marked := ((s.scheme settings).markAll s.marker commits).run v
        marked.1.map Report.commit = commits ∧ reply.2 = marked.2 ∧
          reply.1.stdout =
            String.join (marked.1.mapIdx fun i r => r.text columns (i + 1)) ++ "\n\n" ++
              Report.summary columns marked.1) ∧
    (reply.1.exitCode ≠ 0 →
      reply.1.stdout = "" ∧ (∃ path, (s.repository w.files path).Asked w reply.2) ∧
        ∀ m, (s.replyOn m args).run w = reply) := by
  intro reply
  have hreply : reply = (s.replyOn s.marker args).run w := by rw [← reply_eq_replyOn]
  rcases replyOn_cases hg h w with
    ⟨settings, columns, commits, path, v, hready, hasked, hrun⟩ |
      ⟨hnone, answered, path, v, hexit, hout, hasked, hrun⟩
  · rw [hrun] at hreply
    rw [hreply]
    refine ⟨iff_of_true rfl ⟨settings, columns, commits, hready⟩, ?_, fun hexit => absurd rfl hexit⟩
    intro settings' columns' commits' hready'
    obtain ⟨rfl, rfl, rfl⟩ := hready.unique hready'
    refine ⟨path, v, hasked, Expr.map_commit_markAll .., rfl, ?_⟩
    change report columns _ = _
    rw [report, Report.texts_eq_mapIdx]
    simp only [Nat.add_comm 1]
  · rw [hrun] at hreply
    rw [hreply]
    refine ⟨iff_of_false hexit hnone, ?_, fun _ => ⟨hout, ⟨path, hasked⟩, hrun⟩⟩
    intro settings columns commits hready
    exact absurd ⟨settings, columns, commits, hready⟩ hnone

end Replies

/-- The newest of two commits cannot be marked, since there is no compiler; a report on it is printed
all the same. Where there is no directory, there is no report, whatever could have been started. -/
theorem reply_all_or_nothing_last :
    let answers (args out : String) : Rule :=
      { Rule.unmatched "git" with
        args := some args, stdout := Text.Utf8.encode out, stderr := [], ending := .exit 0 }
    let git : Machine := .ofRules [answers "rev-parse --is-inside-work-tree" "true\n",
      answers "rev-list --reverse --first-parent HEAD" "c1\nc2\n",
      answers "log -1 --format=%s c1" "one\n", answers "log -1 --format=%ct c1" "0\n",
      answers "diff-tree -r -z --no-renames --no-commit-id --root c1" "",
      answers "log -1 --format=%s c2" "two\n", answers "log -1 --format=%ct c2" "never\n",
      answers "diff-tree -r -z --no-renames --no-commit-id c1 c2" ""]
    let s : Session := ⟨git, [], "/bin/gitmark", none⟩
    let w : World := .fresh ⟨[]⟩
    let reply (args : List String) := (s.reply args).run w
    ((∃ settings columns commits, s.Ready w ["--last", "-w", "24"] settings columns commits) ∧
      (reply ["--last", "-w", "24"]).1.stdout =
        "\n\n========================\nCOMMIT#1: c2       ERROR\n========================\n" ++
        "\"two\"\n\nevaluation aborted: process error: failed to start javac: " ++
        "No such file or directory (os error 2)\n\n\n------------------------\nSummary\n" ++
        "------------------------\nc2 ............. [error]\n------------------------\n" ++
        "GitMark Total: 0\n") ∧
    (reply ["elsewhere"]).1.exitCode = 1 ∧ (reply ["elsewhere"]).1.stdout = "" ∧
      ∀ m, (s.replyOn m ["elsewhere"]).run w = reply ["elsewhere"] := by
  intro answers git s w reply
  have hlast : s.asksForMarking ["--last", "-w", "24"] = true := by decide +kernel
  have helse : s.asksForMarking ["elsewhere"] = true := by decide +kernel
  have hexit : (reply ["elsewhere"]).1.exitCode = 1 := by decide +kernel
  have hfound := (reply_all_or_nothing (s := s) rfl hlast w).1.1 (by decide +kernel)
  obtain ⟨hout, -, hsame⟩ := (reply_all_or_nothing (s := s) rfl helse w).2.2 (by decide +kernel)
  exact ⟨⟨hfound, by decide +kernel⟩, hexit, hout, hsame⟩

end Session

end CommitMarking
