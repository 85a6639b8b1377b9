import CommitMarking.Eval
import CommitMarking.Proofs.Checkout

namespace CommitMarking

inductive Nesting
  | one (g : Generator .bool)
  | both (lhs rhs : Nesting)

namespace Nesting

def parts : Nesting → List (Generator .bool)
  | one g => [g]
  | both lhs rhs => lhs.parts ++ rhs.parts

def generator : Nesting → Generator .bool
  | one g => g
  | both lhs rhs => .andAll lhs.generator rhs.generator

end Nesting

def Evaluation.told {k : Kind} (a : Evaluation k) : k.Carrier × (Nat → String) :=
  (a.value, a.account.provenance)

def conjunction (as : List (Evaluation .bool)) : Bool × (Nat → String) :=
  (as.all (·.value), fun width => String.join (as.map fun a => a.account.provenance width))

theorem conjunction_singleton (a : Evaluation .bool) : conjunction [a] = a.told := by
  simp [conjunction, Evaluation.told]

theorem of_told_eq {g : Evaluation .bool} {as : List (Evaluation .bool)}
    (h : g.told = conjunction as) : g.value = as.all (·.value) ∧ ∀ width,
      g.account.provenance width = String.join (as.map fun a => a.account.provenance width) :=
  ⟨congrArg Prod.fst h, fun width => congrFun (congrArg Prod.snd h) width⟩

def goOn (first second : Act MarkError (Bool × (Nat → String))) :
    Act MarkError (Bool × (Nat → String)) := do
  let a ← first
  match a.1 with
  | false => return a
  | true => return (fun b => (b.1, fun width => a.2 width ++ b.2 width)) (← second)

theorem goOn_assoc (first second third : Act MarkError (Bool × (Nat → String))) :
    goOn (goOn first second) third = goOn first (goOn second third) := by
  simp only [goOn, bind_assoc]
  refine bind_congr fun a => ?_
  cases ha : a.1 with
  | false => simp [ha]
  | true =>
      simp only [bind_assoc, pure_bind]
      refine bind_congr fun b => ?_
      cases hb : b.1 <;> simp [hb, String.append_assoc]

theorem nothing_goOn (second : Act MarkError (Bool × (Nat → String))) :
    goOn (pure (conjunction [])) second = second := by
  simp [goOn, conjunction]

theorem told_conjoin (lname rname : String) (lhs rhs : Act MarkError (Evaluation .bool)) :
    Evaluation.told <$> Act.conjoin lname rname lhs rhs =
      goOn (Evaluation.told <$> lhs) (Evaluation.told <$> rhs) := by
  simp only [Act.conjoin, goOn, map_bind, bind_map_left]
  refine bind_congr fun l => ?_
  have hl (account : Account) (name : String) (value : Bool) :
      (account ++ .answer name value).provenance = account.provenance := funext fun width => by simp
  cases hv : l.value with
  | false => simp [Evaluation.told, hv, hl]
  | true =>
      simp only [Evaluation.told, hv, hl, map_bind, map_pure]
      refine bind_congr fun r => congrArg pure (Prod.ext rfl (funext fun width => ?_))
      simp

section Phases

variable (m : Machine) (commit : Commit) (scope : Scope) (dir : Location)

def askEach (gs : List (Generator .bool)) : Act MarkError (List Unit) :=
  gs.mapM fun g => g.prepare m dir

def applyEach (gs : List (Generator .bool)) : Act MarkError (List (Evaluation .bool)) :=
  gs.mapM fun g => g.apply m commit scope dir

/-- The tasks of generators are applied from left to right, up to and including the first that does
not hold or fails. -/
inductive InTurn (gs : List (Generator .bool)) (w : World) :
    Except MarkError (List (Evaluation .bool)) → World → Prop
  | hold {as v} (h : (applyEach m commit scope dir gs).run w = (.ok as, v))
      (ha : ∀ a ∈ as, a.value = true) : InTurn gs w (.ok as) v
  | stops {before g after as a u v} (split : gs = before ++ g :: after)
      (hb : (applyEach m commit scope dir before).run w = (.ok as, u))
      (ha : ∀ a ∈ as, a.value = true) (h : (g.apply m commit scope dir).run u = (.ok a, v))
      (hv : a.value = false) : InTurn gs w (.ok (as ++ [a])) v
  | fails {before g after as e u v} (split : gs = before ++ g :: after)
      (hb : (applyEach m commit scope dir before).run w = (.ok as, u))
      (ha : ∀ a ∈ as, a.value = true) (h : (g.apply m commit scope dir).run u = (.error e, v)) :
      InTurn gs w (.error e) v

/-- How generators end that share a directory. Each is asked for its task before any task is
applied, and the first that cannot make one ends it all. -/
inductive Joint (gs : List (Generator .bool)) (w : World) :
    Except MarkError (List (Evaluation .bool)) → World → Prop
  | unready {before g after made u e v} (split : gs = before ++ g :: after)
      (hb : (askEach m dir before).run w = (.ok made, u))
      (h : (g.prepare m dir).run u = (.error e, v)) : Joint gs w (.error e) v
  | ready {made u result v} (h : (askEach m dir gs).run w = (.ok made, u))
      (ht : InTurn m commit scope dir gs u result v) : Joint gs w result v

def applyInTurn : List (Generator .bool) → Act MarkError (List (Evaluation .bool))
  | [] => return []
  | g :: gs => do
      let a ← g.apply m commit scope dir
      match a.value with
      | false => return [a]
      | true => return a :: (← applyInTurn gs)

variable {m commit scope dir} {g : Generator .bool} {gs : List (Generator .bool)}
  {a : Evaluation .bool} {e : MarkError} {w u v : World}
  {result : Except MarkError (List (Evaluation .bool))}

theorem run_applyInTurn_error (h : (g.apply m commit scope dir).run w = (.error e, v)) :
    (applyInTurn m commit scope dir (g :: gs)).run w = (.error e, v) := by
  rw [applyInTurn, Act.run_bind, h]

theorem run_applyInTurn_false (h : (g.apply m commit scope dir).run w = (.ok a, v))
    (ha : a.value = false) : (applyInTurn m commit scope dir (g :: gs)).run w = (.ok [a], v) := by
  rw [applyInTurn, Act.run_bind, h]
  simp only [ha, Act.run_pure]

theorem run_applyInTurn_true (h : (g.apply m commit scope dir).run w = (.ok a, u))
    (ha : a.value = true) :
    (applyInTurn m commit scope dir (g :: gs)).run w =
      let rest := (applyInTurn m commit scope dir gs).run u
      (rest.1.map (a :: ·), rest.2) := by
  rw [applyInTurn, Act.run_bind, h]
  simp only [ha]
  rw [← map_eq_pure_bind, Act.run_map]

theorem InTurn.cons (h : (g.apply m commit scope dir).run w = (.ok a, u)) (ha : a.value = true)
    (rest : InTurn m commit scope dir gs u result v) :
    InTurn m commit scope dir (g :: gs) w (result.map (a :: ·)) v := by
  have hcons {gs : List (Generator .bool)} {as : List (Evaluation .bool)} {x : World}
      (hb : (applyEach m commit scope dir gs).run u = (.ok as, x)) :
      (applyEach m commit scope dir (g :: gs)).run w = (.ok (a :: as), x) := by
    rw [applyEach, Act.run_mapM_cons, h]
    dsimp only
    rw [show Act.run (gs.mapM _) u = _ from hb]
    rfl
  cases rest with
  | hold hb has => exact .hold (hcons hb) (List.forall_mem_cons.2 ⟨ha, has⟩)
  | stops split hb has hg hv =>
      exact .stops (by rw [split, List.cons_append]) (hcons hb) (List.forall_mem_cons.2 ⟨ha, has⟩) hg hv
  | fails split hb has hg =>
      exact .fails (by rw [split, List.cons_append]) (hcons hb) (List.forall_mem_cons.2 ⟨ha, has⟩) hg

theorem inTurn_applyInTurn (gs : List (Generator .bool)) (w : World) :
    let run := (applyInTurn m commit scope dir gs).run w
    InTurn m commit scope dir gs w run.1 run.2 := by
  induction gs generalizing w with
  | nil => exact .hold rfl nofun
  | cons g gs ih =>
      rcases h : (g.apply m commit scope dir).run w with ⟨e | a, u⟩
      · rw [run_applyInTurn_error h]
        exact .fails (show g :: gs = [] ++ g :: gs from rfl) rfl nofun h
      cases ha : a.value with
      | false =>
          rw [run_applyInTurn_false h ha]
          exact .stops (show g :: gs = [] ++ g :: gs from rfl) rfl nofun h ha
      | true =>
          rw [run_applyInTurn_true h ha]
          exact .cons h ha (ih u)

theorem applyInTurn_singleton (g : Generator .bool) :
    applyInTurn m commit scope dir [g] = (fun a => [a]) <$> g.apply m commit scope dir := by
  rw [applyInTurn, map_eq_pure_bind]
  refine bind_congr fun a => ?_
  cases ha : a.value with
  | false => rfl
  | true => simp [applyInTurn]

theorem conjunction_applyInTurn_cons (g : Generator .bool) (gs : List (Generator .bool)) :
    conjunction <$> applyInTurn m commit scope dir (g :: gs) =
      goOn (Evaluation.told <$> g.apply m commit scope dir)
        (conjunction <$> applyInTurn m commit scope dir gs) := by
  simp only [applyInTurn, goOn, map_bind, bind_map_left]
  refine bind_congr fun a => ?_
  cases ha : a.value with
  | false => simp [Evaluation.told, ha, conjunction]
  | true => simp [Evaluation.told, ha, conjunction]

theorem conjunction_applyInTurn_append (xs ys : List (Generator .bool)) :
    conjunction <$> applyInTurn m commit scope dir (xs ++ ys) =
      goOn (conjunction <$> applyInTurn m commit scope dir xs)
        (conjunction <$> applyInTurn m commit scope dir ys) := by
  induction xs with
  | nil => rw [List.nil_append, applyInTurn, map_pure, nothing_goOn]
  | cons g xs ih =>
      rw [List.cons_append, conjunction_applyInTurn_cons, conjunction_applyInTurn_cons, ih, goOn_assoc]

variable (m commit scope dir) in
def applyJoint (gs : List (Generator .bool)) : Act MarkError (List (Evaluation .bool)) := do
  let _ ← askEach m dir gs
  applyInTurn m commit scope dir gs

theorem calls_askEach (h : ∀ g ∈ gs, ∀ u, ((g.prepare m dir).run u).2.calls = u.calls) (w : World) :
    ((askEach m dir gs).run w).2.calls = w.calls := by
  induction gs generalizing w with
  | nil => rfl
  | cons g gs ih =>
      rw [List.forall_mem_cons] at h
      have hg := h.1 w
      rw [askEach, Act.run_mapM_cons]
      rcases hrun : (g.prepare m dir).run w with ⟨e | _, u⟩
      · rwa [hrun] at hg
      · rw [hrun] at hg
        exact (ih h.2 u).trans hg

theorem run_applyJoint_error (h : (askEach m dir gs).run w = (.error e, v)) :
    (applyJoint m commit scope dir gs).run w = (.error e, v) := by
  rw [applyJoint, Act.run_bind, h]

theorem joint_applyJoint (gs : List (Generator .bool)) (w : World) :
    let run := (applyJoint m commit scope dir gs).run w
    Joint m commit scope dir gs w run.1 run.2 := by
  intro run
  have hrun : run = _ := Act.run_bind ..
  rcases Act.run_mapM_cases (fun g : Generator .bool => g.prepare m dir) gs w with
    ⟨made, u, h⟩ | ⟨before, g, after, made, u, e, v, split, hb, hg, h⟩
  · rw [show (askEach m dir gs).run w = _ from h] at hrun
    rw [hrun]
    exact .ready h (inTurn_applyInTurn gs u)
  · rw [show (askEach m dir gs).run w = _ from h] at hrun
    rw [hrun]
    exact .unready split hb hg

end Phases

namespace Nesting

variable (m : Machine) (commit : Commit) (scope : Scope)

theorem prepare_eq (dir : Location) (t : Nesting) :
    t.generator.prepare m dir = (fun _ => ()) <$> askEach m dir t.parts := by
  induction t with
  | one g => simp [generator, parts, askEach]
  | both lhs rhs ihl ihr =>
      rw [generator, Generator.prepare, ihl, ihr, parts]
      simp [askEach, List.mapM_append]

/-- To combine generators comes to applying their tasks in turn. -/
theorem told_apply (dir : Location) (t : Nesting) :
    Evaluation.told <$> t.generator.apply m commit scope dir =
      conjunction <$> applyInTurn m commit scope dir t.parts := by
  induction t with
  | one g =>
      rw [generator, parts, applyInTurn_singleton, Functor.map_map]
      exact congrArg (· <$> g.apply m commit scope dir) (funext fun a => (conjunction_singleton a).symm)
  | both lhs rhs ihl ihr =>
      rw [generator, parts, Generator.apply, told_conjoin, ihl, ihr, conjunction_applyInTurn_append]

theorem told_container (t : Nesting) (w : World) :
    let dir := m.scratch.directory w
    let run := ((Expr.container t.generator).apply m commit scope).run w
    let joint := (applyJoint m commit scope dir t.parts).run (m.scratch.opened w)
    run.1.map Evaluation.told = joint.1.map conjunction ∧
      run.2 = { joint.2 with files := joint.2.files.remove dir } := by
  intro dir run joint
  have htold : Evaluation.told <$> (do
        t.generator.prepare m dir
        t.generator.apply m commit scope dir : Act MarkError (Evaluation .bool)) =
      conjunction <$> applyJoint m commit scope dir t.parts := by
    simp only [applyJoint, prepare_eq, map_bind, bind_map_left]
    exact bind_congr fun _ => told_apply m commit scope dir t
  have h := congrArg (Act.run · (m.scratch.opened w)) htold
  simp only [Act.run_map, Prod.mk.injEq] at h
  have hrun : run = (World.inScratch m.scratch fun dir => do
      t.generator.prepare m dir
      t.generator.apply m commit scope dir).run w := by
    change ((Expr.container t.generator).apply m commit scope).run w = _
    rw [Expr.apply]
  rw [hrun, World.run_inScratch]
  exact ⟨h.1, congrArg (fun v : World => { v with files := v.files.remove dir }) h.2⟩

/-- How generators are nested does not matter. In a container they are asked for their tasks from left
to right before any task is applied. If one cannot make its task, its error is all that comes of
them, and otherwise the tasks are applied in turn. -/
theorem container_joint (t : Nesting) (w : World) :
    let dir := m.scratch.directory w
    let inside := m.scratch.opened w
    let run (t : Nesting) := ((Expr.container t.generator).apply m commit scope).run w
    (∃ result v, Joint m commit scope dir t.parts inside result v ∧
      (run t).1.map Evaluation.told = result.map conjunction ∧
      (run t).2 = { v with files := v.files.remove dir }) ∧
    (∀ e v, (askEach m dir t.parts).run inside = (.error e, v) →
      run t = (.error e, { v with files := v.files.remove dir }) ∧
      ((∀ g ∈ t.parts, ∀ u, ((g.prepare m dir).run u).2.calls = u.calls) →
        (run t).2.calls = w.calls)) ∧
    ∀ t' : Nesting, t'.parts = t.parts →
      (run t').1.map Evaluation.told = (run t).1.map Evaluation.told ∧ (run t').2 = (run t).2 := by
  intro dir inside run
  have hrun (t : Nesting) : (run t).1.map Evaluation.told = _ ∧ (run t).2 = _ :=
    told_container m commit scope t w
  obtain ⟨htold, hworld⟩ := hrun t
  refine ⟨⟨_, _, joint_applyJoint t.parts inside, htold, hworld⟩, fun e v h => ?_, fun t' ht => ?_⟩
  · have hjoint : (applyJoint m commit scope dir t.parts).run inside = (.error e, v) :=
      run_applyJoint_error h
    rw [hjoint] at htold hworld
    have hresult : (run t).1 = .error e := by
      cases hr : (run t).1 with
      | error x => rw [hr] at htold; cases htold; rfl
      | ok a => rw [hr] at htold; cases htold
    refine ⟨Prod.ext hresult hworld, fun hcalls => ?_⟩
    have hasked := calls_askEach hcalls inside
    rw [h] at hasked
    rw [hworld]
    exact hasked
  · obtain ⟨htold', hworld'⟩ := hrun t'
    rw [ht] at htold' hworld'
    exact ⟨htold'.trans htold.symm, hworld'.trans hworld.symm⟩

/-- Of three tasks the second one does not hold, so the third one is not applied; and if the second
part cannot make its task, none of them is. -/
theorem container_joint_three :
    let say (name : String) (value : Bool) : Generator .bool :=
      .task name (.leaf name (.ok ⟨value, .leaf (fun _ => "") fun _ => name⟩))
    let refuse : Generator .bool := .refuse "sign" (.io .notFound)
    let left (g : Generator .bool) : Nesting :=
      .both (.both (.one (say "lint" true)) (.one g)) (.one (say "test" true))
    let right (g : Generator .bool) : Nesting :=
      .both (.one (say "lint" true)) (.both (.one g) (.one (say "test" true)))
    let run (t : Nesting) := ((Expr.container t.generator).apply .bare ⟨"c", "", none, none, []⟩
      .empty).run (.fresh ⟨[]⟩)
    (∀ g, (right g).parts = (left g).parts) ∧
      ((run (right (say "build" false))).1.map Evaluation.told).toOption.map (fun r => (r.1, r.2 80)) =
        some (false, "lintbuild") ∧
      (run (right (say "build" false))).2.trace = ["lint", "build"] ∧
      run (right refuse) = (.error (.io .notFound), ⟨⟨[]⟩, [], ["sign"], ["gitmark-00"]⟩) := by
  intro say refuse left right run
  have hparts (g : Generator .bool) : (right g).parts = (left g).parts := rfl
  obtain ⟨-, -, hsame⟩ := container_joint .bare ⟨"c", "", none, none, []⟩ .empty
    (left (say "build" false)) (.fresh ⟨[]⟩)
  obtain ⟨htold, hworld⟩ := hsame (right (say "build" false)) (hparts _)
  obtain ⟨-, hrefused, -⟩ := container_joint .bare ⟨"c", "", none, none, []⟩ .empty (right refuse)
    (.fresh ⟨[]⟩)
  refine ⟨hparts, ?_, ?_, (hrefused _ _ rfl).1⟩
  · rw [htold]
    decide +kernel
  · rw [hworld]
    decide +kernel

end Nesting

end CommitMarking
