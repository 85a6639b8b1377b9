import CommitMarking.Marking
import CommitMarking.Proofs.Keeping

namespace CommitMarking

/-- The runners that compile and test, and all others that do the same whatever was started before
and change nothing outside of the directory that they are given. -/
inductive Runner.Contained (m : Machine) : {k : Kind} → Runner k → Prop
  | compiler (c : Compiler) : Contained m c.runner
  | testing (t : Testing) : Contained m t.runner
  | other {k : Kind} {r : Runner k} (prepare : ∀ dir, Act.Keeps (·.remove dir) (r.prepare m dir))
      (run : ∀ commit dir, Act.Keeps (·.remove dir) (r.run m commit dir)) : Contained m r

abbrev Expr.Contained (m : Machine) {k : Kind} (e : Expr k) : Prop :=
  e.AllRunners (Runner.Contained m)

abbrev Generator.Contained (m : Machine) {k : Kind} (g : Generator k) : Prop :=
  g.AllRunners (Runner.Contained m)

section Steps

variable {k : Kind} {view : FileTree → FileTree}

theorem Act.Keeps.branch (name : String) {condition : Act MarkError (Evaluation .bool)}
    {yes no : Act MarkError (Evaluation k)} (hc : Act.Keeps view condition)
    (hy : Act.Keeps view yes) (hn : Act.Keeps view no) :
    Act.Keeps view (Act.branch name condition yes no) := by
  refine hc.bind fun c => ?_
  split
  · exact hy.bind fun _ => .pure _
  · exact hn.bind fun _ => .pure _

theorem Act.Keeps.conjoin (lname rname : String) {lhs rhs : Act MarkError (Evaluation .bool)}
    (hl : Act.Keeps view lhs) (hr : Act.Keeps view rhs) :
    Act.Keeps view (Act.conjoin lname rname lhs rhs) := by
  refine hl.bind fun l => ?_
  dsimp only
  split
  · exact .pure _
  · exact hr.bind fun _ => .pure _

theorem Act.Keeps.leaf {α : Type} (name : String) (ending : Except MarkError α) :
    Act.Keeps view (Act.leaf name ending) :=
  (Act.Keeps.monadLift (.record name)).bind fun _ => .lift ending

end Steps

namespace Runner

variable {m : Machine} {k : Kind} {r : Runner k}

theorem Contained.prepare_keeps (h : r.Contained m) (dir : Location) :
    Act.Keeps (·.remove dir) (r.prepare m dir) := by
  cases h with
  | compiler c => exact Act.Keeps.pure ()
  | testing t => exact Act.Keeps.pure ()
  | other prepare _ => exact prepare dir

theorem Contained.run_keeps (hm : m.Contained) (h : r.Contained m) (commit : Commit)
    (dir : Location) : Act.Keeps (·.remove dir) (r.run m commit dir) := by
  cases h with
  | compiler c => exact ((hm.build c commit dir).mapError MarkError.process).map Evaluation.ofVerdict
  | testing t => exact (Act.Keeps.monadLift (hm.test t dir)).map Evaluation.ofVerdict
  | other _ run => exact run commit dir

theorem touch_contained (m : Machine) (name : String) {file : String}
    (hi : (Route.ofText file).inside = true) : (touch name file).Contained m := by
  refine .other (fun dir => Act.Keeps.pure ()) fun commit dir => ?_
  refine Act.Keeps.get_bind (fun _ _ => rfl) fun w => ?_
  refine Act.Keeps.bind (Act.Keeps.mapError _ ?_) fun _ => .pure _
  exact Act.Keeps.onFiles fun t => FileTree.remove_store hi t []

end Runner

variable {m : Machine}

theorem Generator.prepare_keeps (dir : Location) : {k : Kind} → (g : Generator k) →
    g.Contained m → Act.Keeps (·.remove dir) (g.prepare m dir)
  | _, .task _ _, _ => .pure ()
  | _, .refuse name error, _ => .leaf name (.error error)
  | _, .runner _, h => Runner.Contained.prepare_keeps h dir
  | _, .andAll lhs rhs, h =>
      (lhs.prepare_keeps dir h.1).bind fun _ => rhs.prepare_keeps dir h.2

mutual

/-- An evaluation leaves all files as it found them: what it does to them it does in scratch
directories. -/
theorem Expr.apply_keeps (hm : m.Contained) (commit : Commit) : {k : Kind} →
    (e : Expr k) → e.Contained m → (scope : Scope) → Act.Keeps id (e.apply m commit scope)
  | _, .int _, _, _ | _, .size, _, _ | _, .first, _, _ => by
      rw [Expr.apply]
      exact Act.Keeps.pure _
  | _, .var k name, _, scope => by
      rw [Expr.apply]
      exact (Act.Keeps.lift _).bind fun _ => .pure _
  | _, .leaf name ending, _, _ => by
      rw [Expr.apply]
      exact Act.Keeps.leaf name ending
  | _, .div lhs rhs, h, scope => by
      rw [Expr.apply]
      exact (lhs.apply_keeps hm commit h.1 scope).bind fun _ =>
        (rhs.apply_keeps hm commit h.2 scope).bind fun _ => .lift _
  | _, .compare op lhs rhs, h, scope => by
      rw [Expr.apply]
      exact (lhs.apply_keeps hm commit h.1 scope).bind fun _ =>
        (rhs.apply_keeps hm commit h.2 scope).bind fun _ => .pure _
  | _, .and lhs rhs, h, scope => by
      rw [Expr.apply]
      exact Act.Keeps.conjoin _ _ (lhs.apply_keeps hm commit h.1 scope)
        (rhs.apply_keeps hm commit h.2 scope)
  | _, .abs inner, h, scope => by
      rw [Expr.apply]
      exact (inner.apply_keeps hm commit h scope).bind fun _ => .lift _
  | _, .letIn name init body, h, scope => by
      rw [Expr.apply]
      exact (init.apply_keeps hm commit h.1 scope).bind fun i =>
        (body.apply_keeps hm commit h.2 (scope.bind name (.of _ i.value))).bind fun _ => .pure _
  | _, .cond condition yes no, h, scope => by
      rw [Expr.apply]
      exact Act.Keeps.branch _ (condition.apply_keeps hm commit h.1 scope)
        (yes.apply_keeps hm commit h.2.1 scope) (no.apply_keeps hm commit h.2.2 scope)
  | _, .container g, h, scope => by
      rw [Expr.apply]
      exact Act.Keeps.inScratch fun dir =>
        (g.prepare_keeps dir h).bind fun _ => g.apply_keeps hm commit h scope dir

theorem Generator.apply_keeps (hm : m.Contained) (commit : Commit) : {k : Kind} →
    (g : Generator k) → g.Contained m → (scope : Scope) → (dir : Location) →
    Act.Keeps (·.remove dir) (g.apply m commit scope dir)
  | _, .task _ expr, h, scope, _ => by
      rw [Generator.apply]
      exact (expr.apply_keeps hm commit h scope).of_id
  | _, .refuse _ error, _, _, _ => by
      rw [Generator.apply]
      exact Act.Keeps.throw error
  | _, .runner r, h, _, dir => by
      rw [Generator.apply]
      exact Runner.Contained.run_keeps hm h commit dir
  | _, .andAll lhs rhs, h, scope, dir => by
      rw [Generator.apply]
      exact Act.Keeps.conjoin _ _ (lhs.apply_keeps hm commit h.1 scope dir)
        (rhs.apply_keeps hm commit h.2 scope dir)

end

section Runs

variable {e : Expr .int}

theorem Expr.markOne_keeps (hm : m.Contained) (he : e.Contained m) (commit : Commit) :
    Keeps id (e.markOne m commit) :=
  Keeps.bind (e.apply_keeps hm commit he .empty) fun _ => .pure _

theorem Expr.markAll_keeps (hm : m.Contained) (he : e.Contained m) (commits : List Commit) :
    Keeps id (e.markAll m commits) :=
  Keeps.mapM (Expr.markOne_keeps hm he) commits

end Runs

end CommitMarking
