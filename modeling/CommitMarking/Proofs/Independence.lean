import CommitMarking.Proofs.Arithmetic
import CommitMarking.Proofs.Lists
import CommitMarking.Proofs.Locality
import CommitMarking.Proofs.Restoring

namespace CommitMarking

/-- The runners that compile and test with local programs, and all others that do the same in two
scratch directories with the same contents, whatever they are called. -/
inductive Runner.Local (m : Machine) (length : Nat) : {k : Kind} → Runner k → Prop
  | compiler (c : Compiler) (h : m.Local length c.program) : Local m length c.runner
  | testing (t : Testing)
      (h : ∀ suite ∈ t.suites, ∀ program ∈ (t.host ++ [suite]).head?, m.Local length program) :
      Local m length t.runner
  | other {k : Kind} {r : Runner k}
      (prepare : ∀ dir dir', m.scratch.Twins dir dir' →
        Act.Tracks m.scratch length (m.scratch.SameWithin dir dir') (r.prepare m dir)
          (r.prepare m dir'))
      (run : ∀ commit dir dir', m.scratch.Twins dir dir' →
        Act.Tracks m.scratch length (m.scratch.SameWithin dir dir') (r.run m commit dir)
          (r.run m commit dir')) : Local m length r

abbrev Expr.Local (m : Machine) (length : Nat) {k : Kind} (e : Expr k) : Prop :=
  e.AllRunners (Runner.Local m length)

abbrev Generator.Local (m : Machine) (length : Nat) {k : Kind} (g : Generator k) : Prop :=
  g.AllRunners (Runner.Local m length)

section Steps

variable {s : Scratch} {length : Nat} {p : FileTree → FileTree → Prop} {k : Kind}

theorem Act.Tracks.branch (name : String) {condition condition' : Act MarkError (Evaluation .bool)}
    {yes yes' no no' : Act MarkError (Evaluation k)}
    (hc : Act.Tracks s length p condition condition') (hy : Act.Tracks s length p yes yes')
    (hn : Act.Tracks s length p no no') :
    Act.Tracks s length p (Act.branch name condition yes no)
      (Act.branch name condition' yes' no') := by
  refine hc.bind fun c => ?_
  split
  · exact hy.bind fun _ => .pure _
  · exact hn.bind fun _ => .pure _

theorem Act.Tracks.conjoin (lname rname : String) {lhs lhs' rhs rhs' : Act MarkError (Evaluation .bool)}
    (hl : Act.Tracks s length p lhs lhs') (hr : Act.Tracks s length p rhs rhs') :
    Act.Tracks s length p (Act.conjoin lname rname lhs rhs)
      (Act.conjoin lname rname lhs' rhs') := by
  refine hl.bind fun l => ?_
  dsimp only
  split
  · exact .pure _
  · exact hr.bind fun _ => .pure _

theorem Act.Tracks.leaf {α : Type} (name : String) (ending : Except MarkError α) :
    Act.Tracks s length p (Act.leaf name ending) (Act.leaf name ending) :=
  (Act.Tracks.monadLift (.record name)).bind fun _ => .lift ending

end Steps

namespace Runner

variable {m : Machine} {length : Nat} {k : Kind} {r : Runner k} {dir dir' : Location}

theorem Local.prepare_tracks (h : r.Local m length) (dirs : m.scratch.Twins dir dir') :
    Act.Tracks m.scratch length (m.scratch.SameWithin dir dir') (r.prepare m dir)
      (r.prepare m dir') := by
  cases h with
  | compiler c => exact Act.Tracks.pure ()
  | testing t => exact Act.Tracks.pure ()
  | other prepare _ => exact prepare dir dir' dirs

theorem Local.run_tracks (h : r.Local m length) (commit : Commit)
    (dirs : m.scratch.Twins dir dir') :
    Act.Tracks m.scratch length (m.scratch.SameWithin dir dir') (r.run m commit dir)
      (r.run m commit dir') := by
  cases h with
  | compiler c h => exact ((h.build_tracks dirs commit).mapError MarkError.process).map Evaluation.ofVerdict
  | testing t h =>
      exact (Act.Tracks.monadLift (Machine.Local.test_tracks h dirs)).map Evaluation.ofVerdict
  | other _ run => exact run commit dir dir' dirs

theorem touch_local (m : Machine) (length : Nat) (name : String) {file : String}
    (hi : (Route.ofText file).inside = true) : (touch name file).Local m length := by
  refine .other (fun _ _ _ => Act.Tracks.pure ()) fun commit dir dir' dirs => ?_
  have hbody (found : Bool) : Act.Tracks m.scratch length (m.scratch.SameWithin dir dir')
      (do Act.mapError MarkError.io (Act.onFiles (·.store dir file []))
          return Evaluation.ofVerdict ⟨!found, fun _ => ""⟩)
      (do Act.mapError MarkError.io (Act.onFiles (·.store dir' file []))
          return Evaluation.ofVerdict ⟨!found, fun _ => ""⟩) :=
    ((Act.Tracks.onFiles fun _ _ ht => store_sameWithin dirs hi [] ht).mapError _).bind fun _ =>
      .pure _
  refine Act.Tracks.get_bind (fun w => (hbody _).grows w) (fun w => (hbody _).grows' w)
    fun w w' hw => ?_
  rw [FileTree.exists?_of_inside_eq dirs.level hw.files.inside hi]
  exact hbody _

end Runner

variable {m : Machine} {length : Nat}

theorem Generator.prepare_tracks {dir dir' : Location} (dirs : m.scratch.Twins dir dir') :
    {k : Kind} → (g : Generator k) → g.Local m length →
    Act.Tracks m.scratch length (m.scratch.SameWithin dir dir') (g.prepare m dir) (g.prepare m dir')
  | _, .task _ _, _ => .pure ()
  | _, .refuse name error, _ => .leaf name (.error error)
  | _, .runner _, h => Runner.Local.prepare_tracks h dirs
  | _, .andAll lhs rhs, h =>
      (lhs.prepare_tracks dirs h.1).bind fun _ => rhs.prepare_tracks dirs h.2

mutual

/-- An evaluation does not depend on what scratch directories are called. -/
theorem Expr.apply_tracks (hm : m.Contained) (commit : Commit) : {k : Kind} → (e : Expr k) →
    e.Contained m → e.Local m length → (scope : Scope) →
    Act.Tracks m.scratch length m.scratch.SameOutside (e.apply m commit scope)
      (e.apply m commit scope)
  | _, .int _, _, _, _ | _, .size, _, _, _ | _, .first, _, _, _ => by
      rw [Expr.apply]
      exact Act.Tracks.pure _
  | _, .var k name, _, _, scope => by
      rw [Expr.apply]
      exact (Act.Tracks.lift _).bind fun _ => .pure _
  | _, .leaf name ending, _, _, _ => by
      rw [Expr.apply]
      exact Act.Tracks.leaf name ending
  | _, .div lhs rhs, h, hl, scope => by
      rw [Expr.apply]
      exact (lhs.apply_tracks hm commit h.1 hl.1 scope).bind fun _ =>
        (rhs.apply_tracks hm commit h.2 hl.2 scope).bind fun _ => .lift _
  | _, .compare op lhs rhs, h, hl, scope => by
      rw [Expr.apply]
      exact (lhs.apply_tracks hm commit h.1 hl.1 scope).bind fun _ =>
        (rhs.apply_tracks hm commit h.2 hl.2 scope).bind fun _ => .pure _
  | _, .and lhs rhs, h, hl, scope => by
      rw [Expr.apply]
      exact Act.Tracks.conjoin _ _ (lhs.apply_tracks hm commit h.1 hl.1 scope)
        (rhs.apply_tracks hm commit h.2 hl.2 scope)
  | _, .abs inner, h, hl, scope => by
      rw [Expr.apply]
      exact (inner.apply_tracks hm commit h hl scope).bind fun _ => .lift _
  | _, .letIn name init body, h, hl, scope => by
      rw [Expr.apply]
      exact (init.apply_tracks hm commit h.1 hl.1 scope).bind fun i =>
        (body.apply_tracks hm commit h.2 hl.2 (scope.bind name (.of _ i.value))).bind fun _ =>
          .pure _
  | _, .cond condition yes no, h, hl, scope => by
      rw [Expr.apply]
      exact Act.Tracks.branch _ (condition.apply_tracks hm commit h.1 hl.1 scope)
        (yes.apply_tracks hm commit h.2.1 hl.2.1 scope)
        (no.apply_tracks hm commit h.2.2 hl.2.2 scope)
  | _, .container g, h, hl, scope => by
      rw [Expr.apply]
      refine Act.Tracks.inScratch (fun dir dir' dirs => ?_) fun dir => ?_
      · exact (g.prepare_tracks dirs hl).bind fun _ =>
          g.apply_tracks hm commit h hl scope dirs
      · exact (g.prepare_keeps dir h).bind fun _ => g.apply_keeps hm commit h scope dir

theorem Generator.apply_tracks (hm : m.Contained) (commit : Commit) : {k : Kind} →
    (g : Generator k) → g.Contained m → g.Local m length → (scope : Scope) →
    {dir dir' : Location} → m.scratch.Twins dir dir' →
    Act.Tracks m.scratch length (m.scratch.SameWithin dir dir') (g.apply m commit scope dir)
      (g.apply m commit scope dir')
  | _, .task _ expr, h, hl, scope, _, _, _ => by
      rw [Generator.apply, Generator.apply]
      have hkeeps := expr.apply_keeps hm commit h scope
      exact (expr.apply_tracks hm commit h hl scope).within hkeeps hkeeps
  | _, .refuse _ error, _, _, _, _, _, _ => by
      rw [Generator.apply, Generator.apply]
      exact Act.Tracks.throw error
  | _, .runner r, _, hl, _, _, _, dirs => by
      rw [Generator.apply, Generator.apply]
      exact Runner.Local.run_tracks hl commit dirs
  | _, .andAll lhs rhs, h, hl, scope, _, _, dirs => by
      rw [Generator.apply, Generator.apply]
      exact Act.Tracks.conjoin _ _ (lhs.apply_tracks hm commit h.1 hl.1 scope dirs)
        (rhs.apply_tracks hm commit h.2 hl.2 scope dirs)

end

section Runs

variable {e : Expr .int}

theorem Expr.markAll_append (xs ys : List Commit) (w : World) :
    (e.markAll m (xs ++ ys)).run w =
      let first := (e.markAll m xs).run w
      let second := (e.markAll m ys).run first.2
      (first.1 ++ second.1, second.2) :=
  calc
    _ = (e.markAll m xs >>= fun rs => e.markAll m ys >>= fun ss => pure (rs ++ ss)).run w := by
      rw [Expr.markAll, List.mapM_append]
      rfl
    _ = _ := by
      rw [StateT.run_bind]
      rfl

theorem Expr.markAll_singleton (c : Commit) (w : World) :
    (e.markAll m [c]).run w = ([((e.markOne m c).run w).1], ((e.markOne m c).run w).2) := by
  rw [Expr.markAll, List.mapM_cons, StateT.run_bind]
  rfl

theorem Expr.markLast_eq (cs : List Commit) (w : World) :
    (e.markLast m cs).run w = cs.getLast?.elim ([], w) fun c =>
      ([((e.markOne m c).run w).1], ((e.markOne m c).run w).2) := by
  rw [Expr.markLast]
  cases cs.getLast? with
  | none => rfl
  | some c => exact Expr.markAll_singleton c w

variable (hm : m.Contained) (he : e.Contained m) (hl : e.Local m length)
include hm he hl

theorem Expr.markOne_tracks (commit : Commit) :
    Tracks m.scratch length m.scratch.SameOutside (e.markOne m commit) (e.markOne m commit) :=
  Tracks.bind (e.apply_tracks hm commit he hl .empty) fun _ => .pure _

theorem Expr.markAll_tracks (commits : List Commit) :
    Tracks m.scratch length m.scratch.SameOutside (e.markAll m commits) (e.markAll m commits) :=
  Tracks.mapM fun commit _ => Expr.markOne_tracks hm he hl commit

/-- Each report is that on its commit marked alone, among the same files. -/
theorem Expr.reports_alone (cs : List Commit) {w : World}
    (hw : ((e.markAll m cs).run w).2.Uniform length) :
    List.Forall₂ (fun c r => ∀ u : World, u.files = w.files →
      ((e.markOne m c).run u).2.Uniform length → r = ((e.markOne m c).run u).1)
      cs ((e.markAll m cs).run w).1 := by
  induction cs generalizing w with
  | nil => exact .nil
  | cons c cs ih =>
      have hkeeps := Expr.markOne_keeps hm he c
      rw [← List.singleton_append, Expr.markAll_append, Expr.markAll_singleton] at hw ⊢
      have hafter : ((e.markOne m c).run w).2.files = w.files := hkeeps.view_files w
      have hfirst : ((e.markOne m c).run w).2.Uniform length :=
        hw.mono ((Expr.markAll_keeps hm he cs).made_subset _)
      have hrest := ih hw
      rw [hafter] at hrest
      exact .cons (fun u hu hc =>
        (Expr.markOne_tracks hm he hl c).run_fst_eq hkeeps hu.symm hfirst hc) hrest

end Runs

namespace Report

theorem total_append (rs ss : List Report) : total (rs ++ ss) = total rs + total ss := by
  rw [total, List.filterMap_append, List.sum_append, total, total]

theorem countFailed_append (rs ss : List Report) :
    countFailed (rs ++ ss) = countFailed rs + countFailed ss :=
  List.countP_append

def markSum (rs : List Report) : Int := ((rs.filterMap mark).map Int64.toInt).sum

theorem markSum_append (rs ss : List Report) : markSum (rs ++ ss) = markSum rs + markSum ss := by
  rw [markSum, List.filterMap_append, List.map_append, List.sum_append, markSum, markSum]

def InRange (rs : List Report) : Prop := -2 ^ 63 ≤ markSum rs ∧ markSum rs < 2 ^ 63

theorem InRange.toInt_total {rs : List Report} (h : InRange rs) : (total rs).toInt = markSum rs :=
  toInt_sum h.1 h.2

end Report

/-- Commits are marked independently of each other, by programs that do not depend on what scratch
directories are called. Two lists are marked together as they are marked apart, one after the other,
but for the names of scratch directories; each report is that on its commit alone; and of all commits
the last one can be marked by itself. -/
theorem Expr.marks_independent {e : Expr .int} (hm : m.Contained) (he : e.Contained m)
    (hl : e.Local m length) (w : World) (xs ys : List Commit) (made made' : List String) :
    let first := (e.markAll m xs).run ⟨w.files, [], [], made⟩
    let second := (e.markAll m ys).run ⟨w.files, [], [], made'⟩
    let both := (e.markAll m (xs ++ ys)).run w
    first.2.Uniform length → second.2.Uniform length → both.2.Uniform length →
    (both.1 = first.1 ++ second.1 ∧ both.2.files = w.files ∧
      both.2.trace = w.trace ++ first.2.trace ++ second.2.trace ∧
      ∃ calls, both.2.calls = w.calls ++ calls ∧
        List.Forall₂ (Call.Alike m.scratch) calls (first.2.calls ++ second.2.calls)) ∧
    (Report.total both.1 = Report.total first.1 + Report.total second.1 ∧
      (Report.InRange first.1 → Report.InRange second.1 → Report.InRange both.1 →
        (Report.total both.1).toInt =
          (Report.total first.1).toInt + (Report.total second.1).toInt) ∧
      Report.countFailed both.1 = Report.countFailed first.1 + Report.countFailed second.1) ∧
    List.Forall₂ (fun c r => ∀ u : World, u.files = w.files →
      ((e.markOne m c).run u).2.Uniform length → r = ((e.markOne m c).run u).1)
      (xs ++ ys) both.1 ∧
    (((e.markLast m xs).run w).2.Uniform length →
      ((e.markLast m xs).run w).1 = first.1.getLast?.toList) ∧
    ((e.markLast m xs).run w).2 = xs.getLast?.elim w fun c => ((e.markOne m c).run w).2 := by
  intro first second both hfirst hsecond hboth
  have hkeeps := Expr.markAll_keeps hm he
  have htracks := Expr.markAll_tracks hm he hl
  let before := (e.markAll m xs).run w
  let after := (e.markAll m ys).run before.2
  have hrun : both = (before.1 ++ after.1, after.2) := Expr.markAll_append xs ys w
  have hafter : after.2.Uniform length := by rwa [hrun] at hboth
  have hbefore : before.2.Uniform length := hafter.mono ((hkeeps ys).made_subset before.2)
  obtain ⟨hxs, calls, hcalls, hworld⟩ :=
    (htracks xs).exists_run_eq (hkeeps xs) rfl hbefore hfirst
  obtain ⟨hys, calls', hcalls', hworld'⟩ :=
    (htracks ys).exists_run_eq (hkeeps ys) ((hkeeps xs).view_files w) hafter hsecond
  have hb : both.1 = first.1 ++ second.1 := by
    rw [hrun]
    exact congrArg₂ (· ++ ·) hxs hys
  have hfiles : both.2.files = w.files := (hkeeps (xs ++ ys)).view_files w
  have htrace : both.2.trace = w.trace ++ first.2.trace ++ second.2.trace := by
    rw [hrun]
    exact (congrArg World.trace hworld').trans (congrArg (World.trace · ++ _) hworld)
  have hmade : both.2.calls = w.calls ++ (calls ++ calls') := by
    rw [hrun, ← List.append_assoc]
    exact (congrArg World.calls hworld').trans (congrArg (World.calls · ++ _) hworld)
  refine ⟨⟨hb, hfiles, htrace, calls ++ calls', hmade, List.rel_append hcalls hcalls'⟩,
    ⟨?_, ?_, ?_⟩, Expr.reports_alone hm he hl (xs ++ ys) hboth, fun hu => ?_, ?_⟩
  · rw [hb, Report.total_append]
  · intro hx hy hxy
    rw [hxy.toInt_total, hx.toInt_total, hy.toInt_total, hb, Report.markSum_append]
  · rw [hb, Report.countFailed_append]
  · have hlast : Option.Rel _ xs.getLast? first.1.getLast? :=
      getLast?_of_forall₂ (Expr.reports_alone hm he hl xs hfirst)
    rw [Expr.markLast_eq] at hu ⊢
    generalize xs.getLast? = c at hlast hu ⊢
    generalize first.1.getLast? = r at hlast ⊢
    cases hlast with
    | none => rfl
    | some h => exact congrArg (fun r => [r]) (h w rfl hu).symm
  · rw [Expr.markLast_eq]
    cases xs.getLast? <;> rfl

def FileTree.convert (source target : String) (dir : Location) (t : FileTree) : Process × FileTree :=
  if t.exists? dir source then (⟨[], 0, .exit 0, 0⟩, (t.place dir target []).2)
  else (⟨[], 0, .exit 1, 0⟩, t)

section Convert

variable {source target : String}

theorem FileTree.remove_convert (ht : (Route.ofText target).inside = true) (dir : Location)
    (t : FileTree) : (t.convert source target dir).2.remove dir = t.remove dir := by
  have hplaced := @remove_place dir target ht t []
  unfold convert
  generalize t.place dir target [] = placed at hplaced ⊢
  split
  · exact hplaced
  · rfl

theorem convert_sameWithin {s : Scratch} {dir dir' : Location} (dirs : s.Twins dir dir')
    (hs : (Route.ofText source).inside = true) (ht : (Route.ofText target).inside = true)
    {t t' : FileTree} (h : s.SameWithin dir dir' t t') :
    (t.convert source target dir).1 = (t'.convert source target dir').1 ∧
      s.SameWithin dir dir' (t.convert source target dir).2 (t'.convert source target dir').2 := by
  have hplaced := (place_sameWithin dirs ht [] h).2
  unfold FileTree.convert
  rw [FileTree.exists?_of_inside_eq dirs.level h.inside hs]
  generalize t.place dir target [] = placed at hplaced ⊢
  generalize t'.place dir' target [] = placed' at hplaced ⊢
  split
  · exact ⟨rfl, hplaced⟩
  · exact ⟨rfl, h⟩

end Convert

/-- The first commit has tests that fail, and the second one does not compile. Neither finds what the
compiler or another task has left in a directory before. -/
theorem Expr.marks_independent_failing :
    let javac : Resident := .onFiles "javac" fun _ => FileTree.convert "Main.java" "Main.class"
    let host : Rule := { Rule.unmatched "host" with listFiles := true }
    let m : Machine := { Machine.ofRules [host] with residents := [javac] }
    let tests : Testing := { Testing.standard with suites := ["unit"], host := ["host"] }
    let build := Generator.runner Compiler.standard.runner
    let e : Expr .int :=
      .cond (.container (.andAll (.runner (.touch "Touch" "Main.class")) build))
        (.cond (.container (.andAll build (.runner tests.runner))) (.int 7) (.int 3))
        (.leaf "broken" (.error (.unboundVariable "mark")))
    let commit (path : String) : Commit := ⟨path, "", none, none, [⟨path, [], [97]⟩]⟩
    let marked (paths : List String) :=
      (e.markAll m (paths.map commit)).run (.fresh ⟨[(["tmp"], .directory)]⟩)
    (m.Contained ∧ e.Contained m ∧ e.Local m 10) ∧
      (marked ["Main.java", "Other.java"]).1.map Report.mark = [some 3, none] ∧
      (marked ["Main.java", "Other.java"]).1 =
        (marked ["Main.java"]).1 ++ (marked ["Other.java"]).1 ∧
      (Report.total (marked ["Main.java", "Other.java"]).1).toInt =
        (Report.total (marked ["Main.java"]).1).toInt +
          (Report.total (marked ["Other.java"]).1).toInt ∧
      (marked ["Main.java", "Other.java"]).2.calls.map (·.dir) =
        [["tmp", "gitmark-00"], ["tmp", "gitmark-01"], ["tmp", "gitmark-01"], ["tmp", "gitmark-02"]] := by
  intro javac host m tests build e commit marked
  have hclass : (Route.ofText "Main.class").inside = true := by decide +kernel
  have hm : m.Contained := by
    intro r hr
    cases List.mem_singleton.1 hr
    exact Resident.onFiles_keeps fun _ => FileTree.remove_convert hclass
  have hbuild : m.Local 10 "javac" := Machine.local_of_onFiles rfl fun dirs _ ht =>
    convert_sameWithin dirs (by decide +kernel) hclass ht
  have hhost : m.Local 10 "host" := by
    refine Machine.local_of_rules rfl (by decide) fun r hr => ?_
    cases List.mem_singleton.1 hr
    exact ⟨rfl, fun _ h => (nomatch h), rfl⟩
  have htests : ∀ suite ∈ tests.suites, ∀ program ∈ (tests.host ++ [suite]).head?,
      m.Local 10 program := by
    intro suite _ program hp
    cases hp
    exact hhost
  have he : e.Contained m :=
    ⟨⟨Runner.touch_contained m "Touch" hclass, .compiler .standard⟩,
      ⟨⟨.compiler .standard, .testing tests⟩, trivial, trivial⟩, trivial⟩
  have hl : e.Local m 10 :=
    ⟨⟨Runner.touch_local m 10 "Touch" hclass, .compiler .standard hbuild⟩,
      ⟨⟨.compiler .standard hbuild, .testing tests htests⟩, trivial, trivial⟩, trivial⟩
  obtain ⟨⟨hreports, -⟩, ⟨-, htotal, -⟩, -⟩ :=
    marks_independent hm he hl (.fresh ⟨[(["tmp"], .directory)]⟩) [commit "Main.java"]
      [commit "Other.java"] [] [] (by decide +kernel) (by decide +kernel) (by decide +kernel)
  refine ⟨⟨hm, he, hl⟩, by decide +kernel, hreports, htotal ?_ ?_ ?_, by decide +kernel⟩
  all_goals constructor <;> decide +kernel

end CommitMarking
