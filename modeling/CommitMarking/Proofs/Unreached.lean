import CommitMarking.Compiler
import CommitMarking.Eval

namespace CommitMarking

def Act.gives? {α : Type} (act : Act MarkError α) (w : World) : Option (α × World) :=
  match act.run w with
  | (.ok a, v) => some (a, v)
  | (.error _, _) => none

theorem Act.gives?_of_run {α : Type} {act : Act MarkError α} {w v : World} {a : α}
    (h : act.run w = (.ok a, v)) : act.gives? w = some (a, v) := by
  rw [gives?, h]

/-- Where an evaluation comes to an expression, if it ever does: what is bound there, and the world. -/
abbrev Arrival := Option (Scope × World)

abbrev TaskArrival := Option (Location × Scope × World)

section Arrivals

variable (m : Machine) (commit : Commit)

def Expr.gives? {k : Kind} (e : Expr k) (s : Arrival) : Option (Evaluation k × Scope × World) :=
  s.bind fun t => ((e.apply m commit t.1).gives? t.2).map fun r => (r.1, t.1, r.2)

def Generator.gives? {k : Kind} (g : Generator k) (s : TaskArrival) :
    Option (Evaluation k × Location × Scope × World) :=
  s.bind fun t => ((g.apply m commit t.2.1 t.1).gives? t.2.2).map fun r => (r.1, t.1, t.2.1, r.2)

def Expr.past {k : Kind} (e : Expr k) (s : Arrival) : Arrival := (e.gives? m commit s).map (·.2)

def Expr.pastIf (e : Expr .bool) (value : Bool) (s : Arrival) : Arrival :=
  ((e.gives? m commit s).filter (·.1.value = value)).map (·.2)

def Expr.pastBinding {k : Kind} (e : Expr k) (name : String) (s : Arrival) : Arrival :=
  (e.gives? m commit s).map fun r => (r.2.1.bind name (.of k r.1.value), r.2.2)

def Generator.pastIf (g : Generator .bool) (value : Bool) (s : TaskArrival) : TaskArrival :=
  ((g.gives? m commit s).filter (·.1.value = value)).map (·.2)

def Generator.prepared {k : Kind} (g : Generator k) (s : Arrival) : TaskArrival :=
  s.bind fun t =>
    let dir := m.scratch.directory t.2
    ((g.prepare m dir).gives? (m.scratch.opened t.2)).map fun r => (dir, t.1, r.2)

variable (operands : Bool)

mutual

/-- The second expression is the first one with parts exchanged that an evaluation of the first one
never comes to: branches that are not taken, each for any expression whatever, and in the same way
the right operands of conjunctions if `operands` are exchanged too. -/
inductive Expr.Exchanged : {k : Kind} → Arrival → Expr k → Expr k → Prop
  | same {k : Kind} {s : Arrival} (e : Expr k) : Expr.Exchanged s e e
  | div {s : Arrival} {lhs lhs' rhs rhs' : Expr .int} (hl : Expr.Exchanged s lhs lhs')
      (hr : Expr.Exchanged (lhs.past m commit s) rhs rhs') :
      Expr.Exchanged s (.div lhs rhs) (.div lhs' rhs')
  | abs {s : Arrival} {inner inner' : Expr .int} (hi : Expr.Exchanged s inner inner') :
      Expr.Exchanged s (.abs inner) (.abs inner')
  | compare {s : Arrival} {lhs lhs' rhs rhs' : Expr .int} (op : Comparison)
      (hl : Expr.Exchanged s lhs lhs') (hr : Expr.Exchanged (lhs.past m commit s) rhs rhs') :
      Expr.Exchanged s (.compare op lhs rhs) (.compare op lhs' rhs')
  | and {s : Arrival} {lhs lhs' rhs rhs' : Expr .bool} (hl : Expr.Exchanged s lhs lhs')
      (hr : Expr.Exchanged (lhs.pastIf m commit true s) rhs rhs') :
      Expr.Exchanged s (.and lhs rhs) (.and lhs' rhs')
  | operand {s : Arrival} {lhs lhs' : Expr .bool} (rhs rhs' : Expr .bool)
      (ho : operands = true) (hl : Expr.Exchanged s lhs lhs')
      (hr : lhs.pastIf m commit true s = none) : Expr.Exchanged s (.and lhs rhs) (.and lhs' rhs')
  | letIn {i k : Kind} {s : Arrival} (name : String) {init init' : Expr i} {body body' : Expr k}
      (hi : Expr.Exchanged s init init')
      (hb : Expr.Exchanged (init.pastBinding m commit name s) body body') :
      Expr.Exchanged s (.letIn name init body) (.letIn name init' body')
  | cond {k : Kind} {s : Arrival} {condition condition' : Expr .bool} {yes yes' no no' : Expr k}
      (hc : Expr.Exchanged s condition condition')
      (hy : ∀ t, condition.pastIf m commit true s = some t → Expr.Exchanged (some t) yes yes')
      (hn : ∀ t, condition.pastIf m commit false s = some t → Expr.Exchanged (some t) no no') :
      Expr.Exchanged s (.cond condition yes no) (.cond condition' yes' no')
  | container {k : Kind} {s : Arrival} {g g' : Generator k}
      (hg : Generator.Exchanged (g.prepared m s) g g') :
      Expr.Exchanged s (.container g) (.container g')

/-- The same of the tasks that generators make. The tasks of all parts of a generator are made, also
those that are not applied, so a part is exchanged for one that makes its tasks in the same way. -/
inductive Generator.Exchanged : {k : Kind} → TaskArrival → Generator k → Generator k → Prop
  | same {k : Kind} {s : TaskArrival} (g : Generator k) : Generator.Exchanged s g g
  | task {k : Kind} {s : TaskArrival} (name : String) {e e' : Expr k}
      (he : Expr.Exchanged (s.map (·.2)) e e') :
      Generator.Exchanged s (.task name e) (.task name e')
  | andAll {s : TaskArrival} {lhs lhs' rhs rhs' : Generator .bool}
      (hl : Generator.Exchanged s lhs lhs')
      (hr : Generator.Exchanged (lhs.pastIf m commit true s) rhs rhs') :
      Generator.Exchanged s (.andAll lhs rhs) (.andAll lhs' rhs')
  | operand {s : TaskArrival} {lhs lhs' rhs rhs' : Generator .bool} (ho : operands = true)
      (hl : Generator.Exchanged s lhs lhs') (hr : lhs.pastIf m commit true s = none)
      (hp : ∀ dir, rhs'.prepare m dir = rhs.prepare m dir) :
      Generator.Exchanged s (.andAll lhs rhs) (.andAll lhs' rhs')

end

end Arrivals

def ArithmeticFault.unnamed : ArithmeticFault → ArithmeticFault
  | divisionByZero _ => divisionByZero ""
  | overflow _ => overflow ""
  | other message => other message

def MarkError.unnamed : MarkError → MarkError
  | arithmetic fault => arithmetic fault.unnamed
  | e => e

def shown {k : Kind} (result : Except MarkError (Evaluation k)) :
    Except MarkError (k.Carrier × (Nat → String)) :=
  (result.map fun a => (a.value, a.account.provenance)).mapError MarkError.unnamed

/-- Two evaluations with the same value and provenance; they are the same in all if no operands, and
with them names, were exchanged. -/
structure Evaluation.Alike {k : Kind} (operands : Bool) (a b : Evaluation k) : Prop where
  value : b.value = a.value
  provenance (width : Nat) : b.account.provenance width = a.account.provenance width
  eq : operands = false → b = a

inductive Alike {k : Kind} (operands : Bool) :
    Except MarkError (Evaluation k) → Except MarkError (Evaluation k) → Prop
  | ok {a b : Evaluation k} (h : a.Alike operands b) : Alike operands (.ok a) (.ok b)
  | error {e f : MarkError} (h : f.unnamed = e.unnamed) (eq : operands = false → f = e) :
      Alike operands (.error e) (.error f)

variable {operands : Bool} {i k : Kind}

namespace Evaluation.Alike

variable {l l' r r' : Evaluation .int} {task task' : String}

theorem refl (a : Evaluation k) : a.Alike operands a := ⟨rfl, fun _ => rfl, fun _ => rfl⟩

theorem compare (op : Comparison) (hl : l.Alike operands l') (hr : r.Alike operands r') :
    (compare op l r).Alike operands (compare op l' r') where
  value := by simp only [Evaluation.compare, hl.value, hr.value]
  provenance width := by
    simp only [Evaluation.compare, Account.provenance_operation, hl.provenance, hr.provenance]
  eq ho := by rw [hl.eq ho, hr.eq ho]

theorem inBinding {name : String} {a a' : Evaluation i} {b b' : Evaluation k}
    (ha : a.Alike operands a') (hb : b.Alike operands b') :
    (inBinding name a b).Alike operands (inBinding name a' b') where
  value := hb.value
  provenance width := by
    simp only [Evaluation.inBinding, Account.provenance_binding, ha.provenance, hb.provenance]
  eq ho := by rw [ha.eq ho, hb.eq ho]

theorem afterCondition {name name' : String} {c c' : Evaluation .bool} {b b' : Evaluation k}
    (hn : operands = false → name' = name) (hc : c.Alike operands c') (hb : b.Alike operands b') :
    (afterCondition name c b).Alike operands (afterCondition name' c' b') where
  value := hb.value
  provenance width := by
    simp only [Evaluation.afterCondition, Account.provenance_append, Account.provenance_answer,
      hc.provenance, hb.provenance]
  eq ho := by rw [hn ho, hc.eq ho, hb.eq ho]

end Evaluation.Alike

theorem divide_unnamed (task task' : String) (a b : Int64) :
    (divide task' a b).mapError MarkError.unnamed = (divide task a b).mapError MarkError.unnamed := by
  unfold divide
  split
  · rfl
  · split <;> rfl

theorem absolute_unnamed (task task' : String) (a : Int64) :
    (absolute task' a).mapError MarkError.unnamed = (absolute task a).mapError MarkError.unnamed := by
  unfold absolute
  split <;> rfl

namespace Alike

variable {l l' r r' inner inner' : Evaluation .int} {task task' : String}

theorem refl (x : Except MarkError (Evaluation k)) : Alike operands x x := by
  cases x with
  | ok a => exact .ok (.refl a)
  | error e => exact .error rfl fun _ => rfl

theorem shown_eq {x y : Except MarkError (Evaluation k)} (h : Alike operands x y) :
    shown y = shown x := by
  cases h with
  | ok h => exact congrArg Except.ok (Prod.ext h.value (funext h.provenance))
  | error h => exact congrArg Except.error h

theorem eq {x y : Except MarkError (Evaluation k)} (h : Alike operands x y)
    (ho : operands = false) : y = x := by
  cases h with
  | ok h => rw [h.eq ho]
  | error _ he => rw [he ho]

theorem computed {x x' : Except MarkError Int64} {f f' : Int64 → Evaluation .int}
    (hx : x'.mapError MarkError.unnamed = x.mapError MarkError.unnamed)
    (he : operands = false → x' = x) (hf : ∀ v, (f v).Alike operands (f' v)) :
    Alike operands (x >>= fun v => pure (f v)) (x' >>= fun v => pure (f' v)) := by
  cases x with
  | ok v =>
      cases x' with
      | ok v' =>
          cases hx
          exact .ok (hf v)
      | error e' => cases hx
  | error e =>
      cases x' with
      | ok v' => cases hx
      | error e' => exact .error (Except.error.inj hx) fun ho => Except.error.inj (he ho)

theorem quotient (hn : operands = false → task' = task) (hl : l.Alike operands l')
    (hr : r.Alike operands r') : Alike operands (l.quotient task r) (l'.quotient task' r') := by
  unfold Evaluation.quotient
  rw [hl.value, hr.value]
  refine .computed (divide_unnamed ..) (fun ho => by rw [hn ho]) fun v => ⟨rfl, fun width => ?_, ?_⟩
  · simp only [Account.provenance_operation, hl.provenance, hr.provenance]
  · intro ho
    rw [hn ho, hl.eq ho, hr.eq ho]

theorem absolute (hn : operands = false → task' = task) (hi : inner.Alike operands inner') :
    Alike operands (inner.absolute task) (inner'.absolute task') := by
  unfold Evaluation.absolute
  rw [hi.value]
  refine .computed (absolute_unnamed ..) (fun ho => by rw [hn ho]) fun v => ⟨rfl, fun width => ?_, ?_⟩
  · simp only [Account.provenance_append, Account.provenance_line, hi.provenance]
  · intro ho
    rw [hi.eq ho]

end Alike

structure AlikeRuns (operands : Bool) (x y : Except MarkError (Evaluation k) × World) : Prop where
  outcome : Alike operands x.1 y.1
  world : y.2 = x.2

namespace AlikeRuns

variable {w : World}

theorem refl (x : Except MarkError (Evaluation k) × World) : AlikeRuns operands x x :=
  ⟨.refl x.1, rfl⟩

theorem bind {act act' : Act MarkError (Evaluation i)}
    {next next' : Evaluation i → Act MarkError (Evaluation k)}
    (h : AlikeRuns operands (act.run w) (act'.run w))
    (hn : ∀ a a' u, act.run w = (.ok a, u) → a.Alike operands a' →
      AlikeRuns operands ((next a).run u) ((next' a').run u)) :
    AlikeRuns operands ((act >>= next).run w) ((act' >>= next').run w) := by
  rw [Act.run_bind, Act.run_bind]
  rcases hx : act.run w with ⟨x, u⟩
  rcases hy : act'.run w with ⟨y, u'⟩
  rw [hx, hy] at h
  obtain ⟨ho, rfl⟩ := h
  cases ho with
  | ok ha => exact hn _ _ _ hx ha
  | error he heq => exact ⟨.error he heq, rfl⟩

theorem bind_same {α : Type} {act : Act MarkError α} {next next' : α → Act MarkError (Evaluation k)}
    (hn : ∀ a u, act.run w = (.ok a, u) → AlikeRuns operands ((next a).run u) ((next' a).run u)) :
    AlikeRuns operands ((act >>= next).run w) ((act >>= next').run w) := by
  rw [Act.run_bind, Act.run_bind]
  rcases hx : act.run w with ⟨e | a, u⟩
  · exact .refl _
  · exact hn a u hx

theorem pure {a b : Evaluation k} (h : a.Alike operands b) :
    AlikeRuns operands ((Pure.pure a : Act MarkError _).run w)
      ((Pure.pure b : Act MarkError _).run w) := ⟨.ok h, rfl⟩

theorem lift {x y : Except MarkError (Evaluation k)} (h : Alike operands x y) :
    AlikeRuns operands ((Act.lift x).run w) ((Act.lift y).run w) := by
  rw [Act.run_lift, Act.run_lift]
  exact ⟨h, rfl⟩

theorem inScratch {act act' : Location → Act MarkError (Evaluation k)} (s : Scratch)
    (h : let dir := s.directory w
      let u := s.opened w
      AlikeRuns operands ((act dir).run u) ((act' dir).run u)) :
    AlikeRuns operands ((World.inScratch s act).run w) ((World.inScratch s act').run w) := by
  let tidy (v : World) : World := { v with files := v.files.remove (s.directory w) }
  exact ⟨h.outcome, congrArg tidy h.world⟩

end AlikeRuns

section Names

variable {m : Machine} {commit : Commit}

mutual

theorem Expr.Exchanged.name_eq (ho : operands = false) : {k : Kind} → {s : Arrival} →
    {e e' : Expr k} → Expr.Exchanged m commit operands s e e' → e'.name = e.name
  | _, _, _, _, .same _ => rfl
  | _, _, _, _, .div hl hr | _, _, _, _, .compare _ hl hr | _, _, _, _, .and hl hr => by
      rw [Expr.name, Expr.name, hl.name_eq ho, hr.name_eq ho]
  | _, _, _, _, .operand _ _ h _ _ => nomatch ho.symm.trans h
  | _, _, _, _, .abs hi => by rw [Expr.name, Expr.name, hi.name_eq ho]
  | _, _, _, _, .letIn _ hi hb => by rw [Expr.name, Expr.name, hi.name_eq ho, hb.name_eq ho]
  | _, _, _, _, .cond hc _ _ => by rw [Expr.name, Expr.name, hc.name_eq ho]
  | _, _, _, _, .container hg => by rw [Expr.name, Expr.name, hg.name_eq ho]

theorem Generator.Exchanged.name_eq (ho : operands = false) : {k : Kind} → {s : TaskArrival} →
    {g g' : Generator k} → Generator.Exchanged m commit operands s g g' → g'.name = g.name
  | _, _, _, _, .same _ | _, _, _, _, .task _ _ => rfl
  | _, _, _, _, .andAll hl hr => by
      rw [Generator.name, Generator.name, hl.name_eq ho, hr.name_eq ho]
  | _, _, _, _, .operand h _ _ _ => nomatch ho.symm.trans h

end

theorem Generator.Exchanged.taskName_eq (ho : operands = false) : {k : Kind} → {s : TaskArrival} →
    {g g' : Generator k} → Generator.Exchanged m commit operands s g g' → g'.taskName = g.taskName
  | _, _, _, _, .same _ => rfl
  | _, _, _, _, .task _ he => he.name_eq ho
  | _, _, _, _, .andAll hl hr => by
      rw [Generator.taskName, Generator.taskName, hl.taskName_eq ho, hr.taskName_eq ho]
  | _, _, _, _, .operand h _ _ _ => nomatch ho.symm.trans h

theorem Generator.Exchanged.prepare_eq (dir : Location) : {k : Kind} → {s : TaskArrival} →
    {g g' : Generator k} → Generator.Exchanged m commit operands s g g' →
    g'.prepare m dir = g.prepare m dir
  | _, _, _, _, .same _ | _, _, _, _, .task _ _ => rfl
  | _, _, _, _, .andAll hl hr => by
      rw [Generator.prepare, Generator.prepare, hl.prepare_eq dir, hr.prepare_eq dir]
  | _, _, _, _, .operand _ hl _ hp => by
      rw [Generator.prepare, Generator.prepare, hl.prepare_eq dir, hp dir]

end Names

section Runs

variable {m : Machine} {commit : Commit} {scope : Scope} {w u : World}

theorem Expr.gives?_of_run {e : Expr k} {a : Evaluation k}
    (h : (e.apply m commit scope).run w = (.ok a, u)) :
    e.gives? m commit (some (scope, w)) = some (a, scope, u) := by
  rw [gives?, Option.bind_some, Act.gives?_of_run h, Option.map_some]

theorem Expr.pastIf_of_run {e : Expr .bool} {a : Evaluation .bool}
    (h : (e.apply m commit scope).run w = (.ok a, u)) (value : Bool) :
    e.pastIf m commit value (some (scope, w)) = if a.value = value then some (scope, u) else none := by
  rw [pastIf, gives?_of_run h, Option.filter_some]
  by_cases hv : a.value = value <;> simp [hv]

theorem Generator.prepared_of_run {g : Generator k}
    (h : (g.prepare m (m.scratch.directory w)).run (m.scratch.opened w) = (.ok (), u)) :
    g.prepared m (some (scope, w)) = some (m.scratch.directory w, scope, u) := by
  rw [prepared, Option.bind_some]
  exact congrArg (Option.map _) (Act.gives?_of_run h)

theorem Generator.pastIf_of_run {g : Generator .bool} {dir : Location} {a : Evaluation .bool}
    (h : (g.apply m commit scope dir).run w = (.ok a, u)) (value : Bool) :
    g.pastIf m commit value (some (dir, scope, w)) =
      if a.value = value then some (dir, scope, u) else none := by
  rw [pastIf, gives?, Option.bind_some, Act.gives?_of_run h, Option.map_some, Option.filter_some]
  by_cases hv : a.value = value <;> simp [hv]

theorem AlikeRuns.conjoin {lname lname' rname rname' : String}
    {lhs lhs' rhs rhs' : Act MarkError (Evaluation .bool)}
    (hln : operands = false → lname' = lname) (hrn : operands = false → rname' = rname)
    (hl : AlikeRuns operands (lhs.run w) (lhs'.run w))
    (hr : ∀ l u, lhs.run w = (.ok l, u) → l.value = true →
      AlikeRuns operands (rhs.run u) (rhs'.run u)) :
    AlikeRuns operands ((Act.conjoin lname rname lhs rhs).run w)
      ((Act.conjoin lname' rname' lhs' rhs').run w) := by
  refine hl.bind fun l l' u hrun ha => ?_
  dsimp only
  rw [ha.value]
  cases hv : l.value with
  | false =>
      refine .pure ⟨rfl, fun width => ?_, fun ho => by rw [hln ho, ha.eq ho]⟩
      simp only [Account.provenance_append, Account.provenance_answer, ha.provenance]
  | true =>
      refine (hr l u hrun hv).bind fun r r' v _ hb => .pure ⟨hb.value, fun width => ?_, fun ho => ?_⟩
      · simp only [Account.provenance_append, Account.provenance_answer, ha.provenance, hb.provenance]
      · rw [hln ho, hrn ho, ha.eq ho, hb.eq ho]

theorem AlikeRuns.branch {name name' : String} {condition condition' : Act MarkError (Evaluation .bool)}
    {yes yes' no no' : Act MarkError (Evaluation k)} (hn : operands = false → name' = name)
    (hc : AlikeRuns operands (condition.run w) (condition'.run w))
    (hb : ∀ c u, condition.run w = (.ok c, u) →
      AlikeRuns operands ((if c.value then yes else no).run u)
        ((if c.value then yes' else no').run u)) :
    AlikeRuns operands ((Act.branch name condition yes no).run w)
      ((Act.branch name' condition' yes' no').run w) := by
  refine hc.bind fun c c' u hrun ha => ?_
  have hbranch := hb c u hrun
  rw [ha.value]
  cases hv : c.value with
  | true =>
      rw [hv] at hbranch
      exact hbranch.bind fun b b' v _ h => .pure (.afterCondition hn ha h)
  | false =>
      rw [hv] at hbranch
      exact hbranch.bind fun b b' v _ h => .pure (.afterCondition hn ha h)

mutual

theorem Expr.Exchanged.runs_alike : {k : Kind} → {e e' : Expr k} → {scope : Scope} → {w : World} →
    Expr.Exchanged m commit operands (some (scope, w)) e e' →
    AlikeRuns operands ((e.apply m commit scope).run w) ((e'.apply m commit scope).run w)
  | _, _, _, _, _, .same _ => .refl _
  | _, _, _, scope, w, .div hl hr => by
      have hname (ho : operands = false) := (Expr.Exchanged.div hl hr).name_eq ho
      rw [Expr.apply, Expr.apply]
      refine hl.runs_alike.bind fun l l' u hrun ha => ?_
      rw [Expr.past, Expr.gives?_of_run hrun] at hr
      exact hr.runs_alike.bind fun r r' v _ hb => .lift (.quotient hname ha hb)
  | _, _, _, scope, w, .abs hi => by
      have hname (ho : operands = false) := (Expr.Exchanged.abs hi).name_eq ho
      rw [Expr.apply, Expr.apply]
      exact hi.runs_alike.bind fun a a' u _ ha => .lift (.absolute hname ha)
  | _, _, _, scope, w, .compare op hl hr => by
      rw [Expr.apply, Expr.apply]
      refine hl.runs_alike.bind fun l l' u hrun ha => ?_
      rw [Expr.past, Expr.gives?_of_run hrun] at hr
      exact hr.runs_alike.bind fun r r' v _ hb => .pure (ha.compare op hb)
  | _, _, _, scope, w, .and hl hr => by
      rw [Expr.apply, Expr.apply]
      refine hl.runs_alike.conjoin (fun ho => hl.name_eq ho) (fun ho => hr.name_eq ho)
        fun l u hrun hv => ?_
      rw [Expr.pastIf_of_run hrun, if_pos hv] at hr
      exact hr.runs_alike
  | _, _, _, scope, w, .operand rhs rhs' ho hl hr => by
      have hrename {p : Prop} (h : operands = false) : p := nomatch h.symm.trans ho
      rw [Expr.apply, Expr.apply]
      refine hl.runs_alike.conjoin hrename hrename fun l u hrun hv => ?_
      rw [Expr.pastIf_of_run hrun, if_pos hv] at hr
      cases hr
  | _, _, _, scope, w, .letIn name hi hb => by
      rw [Expr.apply, Expr.apply]
      refine hi.runs_alike.bind fun i i' u hrun ha => ?_
      rw [Expr.pastBinding, Expr.gives?_of_run hrun] at hb
      rw [ha.value]
      exact hb.runs_alike.bind fun b b' v _ h => .pure (ha.inBinding h)
  | _, _, _, scope, w, .cond hc hy hn => by
      rw [Expr.apply, Expr.apply]
      refine hc.runs_alike.branch (fun ho => hc.name_eq ho) fun c u hrun => ?_
      cases hv : c.value with
      | true => exact (hy (scope, u) (by rw [Expr.pastIf_of_run hrun, if_pos hv])).runs_alike
      | false => exact (hn (scope, u) (by rw [Expr.pastIf_of_run hrun, if_pos hv])).runs_alike
  | _, _, _, scope, w, .container hg => by
      rw [Expr.apply, Expr.apply]
      refine .inScratch m.scratch ?_
      intro dir u
      rw [hg.prepare_eq]
      refine .bind_same fun _ v hrun => ?_
      rw [Generator.prepared_of_run hrun] at hg
      exact hg.runs_alike

theorem Generator.Exchanged.runs_alike : {k : Kind} → {g g' : Generator k} → {dir : Location} →
    {scope : Scope} → {w : World} →
    Generator.Exchanged m commit operands (some (dir, scope, w)) g g' →
    AlikeRuns operands ((g.apply m commit scope dir).run w) ((g'.apply m commit scope dir).run w)
  | _, _, _, _, _, _, .same _ => .refl _
  | _, _, _, _, _, _, .task _ he => by
      rw [Generator.apply, Generator.apply]
      exact he.runs_alike
  | _, _, _, _, _, _, .andAll hl hr => by
      rw [Generator.apply, Generator.apply]
      refine hl.runs_alike.conjoin (fun ho => hl.taskName_eq ho) (fun ho => hr.taskName_eq ho)
        fun l u hrun hv => ?_
      rw [Generator.pastIf_of_run hrun, if_pos hv] at hr
      exact hr.runs_alike
  | _, _, _, _, _, _, .operand ho hl hr _ => by
      have hrename {p : Prop} (h : operands = false) : p := nomatch h.symm.trans ho
      rw [Generator.apply, Generator.apply]
      refine hl.runs_alike.conjoin hrename hrename fun l u hrun hv => ?_
      rw [Generator.pastIf_of_run hrun, if_pos hv] at hr
      cases hr

end

/-- What is not evaluated has no influence. If parts of an expression that an evaluation never comes to
are exchanged for others, the evaluation does the same, with the same value and provenance or an
error of the same kind; and if only branches are exchanged, it is the same in all, down to the
summary, the name and the text of the error. -/
theorem Expr.unreached_no_influence {e e' : Expr k}
    (h : Expr.Exchanged m commit operands (some (scope, w)) e e') :
    let run := (e.apply m commit scope).run w
    let run' := (e'.apply m commit scope).run w
    (run'.2 = run.2 ∧ shown run'.1 = shown run.1) ∧
      (operands = false → e'.name = e.name ∧ run' = run) := by
  intro run run'
  have hruns : AlikeRuns operands run run' := h.runs_alike
  refine ⟨⟨hruns.world, hruns.outcome.shown_eq⟩, fun ho => ⟨h.name_eq ho, ?_⟩⟩
  exact Prod.ext (hruns.outcome.eq ho) hruns.world

/-- Tests that are never applied give way to a compiler, and branches that are never taken to an
error and to a container. -/
theorem Expr.unreached_no_influence_failed_build :
    let build : Generator .bool :=
      .task "Build" (.leaf "build" (.ok ⟨false, .leaf (fun _ => "") fun _ => "[build]\n"⟩))
    let e (test : Generator .bool) (yes no : Expr .int) : Expr .int :=
      .cond (.container (.andAll build test)) yes
        (.letIn "x" (.abs .size) (.div (.int 7) (.cond .first (.var .int "x") no)))
    let commit : Commit := ⟨"c", "", none, none, [⟨"A.java", [1, 2], []⟩]⟩
    let run (e : Expr .int) := (e.apply .bare commit .empty).run (.fresh ⟨[]⟩)
    let test : Generator .bool := .task "Test" (.var .bool "unbound")
    let compile : Generator .bool := .runner Compiler.standard.runner
    let raise : Expr .int := .leaf "raise" (.error (.io .notFound))
    let again : Expr .int := .cond (.container compile) (.int 1) raise
    (∀ operands test', Generator.Exchanged .bare commit operands
        ((Generator.andAll build test).prepared .bare (some (.empty, .fresh ⟨[]⟩)))
        (.andAll build test) (.andAll build test') →
      Expr.Exchanged .bare commit operands (some (.empty, .fresh ⟨[]⟩)) (e test (.int 1) (.int 0))
        (e test' raise again)) ∧
    (shown (run (e compile raise again)).1).toOption.map (·.1) = some (3 : Int64) ∧
      (run (e compile raise again)).2 = (run (e test (.int 1) (.int 0))).2 ∧
      run (e test raise again) = run (e test (.int 1) (.int 0)) := by
  intro build e commit run test compile raise again
  have hfirst (s : Arrival) : Expr.first.pastIf .bare commit false s = none := by
    cases s <;> rfl
  have hbranches : ∀ operands test', Generator.Exchanged .bare commit operands
        ((Generator.andAll build test).prepared .bare (some (.empty, .fresh ⟨[]⟩)))
        (.andAll build test) (.andAll build test') →
      Expr.Exchanged .bare commit operands (some (.empty, .fresh ⟨[]⟩)) (e test (.int 1) (.int 0))
        (e test' raise again) := by
    intro operands test' hg
    refine .cond (.container hg) (fun t ht => nomatch ht) fun t _ => ?_
    refine .letIn "x" (.same _) (.div (.same _) (.cond (.same _) (fun _ _ => .same _) fun t ht => ?_))
    rw [hfirst] at ht
    cases ht
  have hall := Expr.unreached_no_influence
    (hbranches true compile (.operand rfl (.same _) rfl fun _ => rfl))
  have hsome := Expr.unreached_no_influence (hbranches false test (.same _))
  refine ⟨hbranches, ?_, hall.1.1, (hsome.2 rfl).2⟩
  rw [show shown (run (e compile raise again)).1 = _ from hall.1.2]
  decide +kernel

end Runs

end CommitMarking
