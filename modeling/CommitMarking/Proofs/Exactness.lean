import CommitMarking.Proofs.Reckoning

namespace CommitMarking

def Event.ideal? : Event → Option Ideal
  | .measured commit => some (.int commit.changedSize.toInt)
  | .looked k _ (.ok v) => some (.of k (k.ideal v))
  | .computed (k := k) (.ok v) => some (.of k (k.ideal v))
  | _ => none

/-- The machine does as the evaluation without bounds does, up to the first fault of that. -/
structure Agrees {k : Kind} (w : World) (events : List Event)
    (run : Except MarkError (Evaluation k) × World) (r : Reckoning k.Ideal) : Prop where
  world : run.2 = w
  result : run.1.map (fun e => k.ideal e.value) = r.bounded
  values : events.filterMap Event.ideal? = r.values

open Reckoning

namespace Agrees

variable {i k : Kind} {w : World} {xs : List Event} {r : Reckoning k.Ideal}

theorem single {ev : Event} {result : Except MarkError (Evaluation k)}
    (hresult : result.map (fun e => k.ideal e.value) = r.bounded)
    (hvalues : ev.ideal?.toList = r.values) : Agrees w [ev] (result, w) r := by
  refine ⟨rfl, hresult, ?_⟩
  rw [← hvalues, List.filterMap_cons]
  cases ev.ideal? <;> rfl

theorem bind {act : Act MarkError (Evaluation i)} {r : Reckoning i.Ideal}
    {next : Evaluation i → Act MarkError (Evaluation k)} {ys : Evaluation i → World → List Event}
    {rest : i.Ideal → Reckoning k.Ideal} (h : Agrees w xs (act.run w) r)
    (hn : ∀ e, Agrees w (ys e w) ((next e).run w) (rest (i.ideal e.value))) :
    Agrees w (xs ++ act.onward w ys) ((act >>= next).run w) (r >>= rest) := by
  obtain ⟨hworld, hresult, hvalues⟩ := h
  rw [Act.run_bind, Act.onward]
  rcases hr : act.run w with ⟨err | e, u⟩ <;> rw [hr] at hworld hresult
  -- after a fault the other evaluation may go on, but nothing of that counts any more
  · obtain ⟨hb, hv⟩ := bind_of_bounded_error hresult.symm rest
    exact ⟨hworld, hb.symm, by rw [List.append_nil, hv, hvalues]⟩
  · obtain ⟨hb, hv⟩ := bind_of_bounded_ok hresult.symm rest
    obtain rfl : u = w := hworld
    obtain ⟨hworld', hresult', hvalues'⟩ := hn e
    exact ⟨hworld', hresult'.trans hb.symm, by rw [List.filterMap_append, hvalues, hvalues', hv]⟩

/-- Nothing but the account depends on how the evaluation goes on. -/
theorem map {act : Act MarkError (Evaluation k)} {f : Evaluation k → Evaluation k}
    (h : Agrees w xs (act.run w) r) (hf : ∀ e, (f e).value = e.value) :
    Agrees w xs ((act >>= fun e => pure (f e)).run w) r := by
  obtain ⟨hworld, hresult, hvalues⟩ := h
  rw [Act.run_bind]
  rcases hr : act.run w with ⟨err | e, u⟩ <;> rw [hr] at hworld hresult
  · exact ⟨hworld, hresult, hvalues⟩
  · exact ⟨hworld, by rw [← hresult]; exact congrArg (Except.ok <| k.ideal ·) (hf e), hvalues⟩

end Agrees

variable {w : World}

theorem agrees_gives {k : Kind} {ev : Event} {e : Evaluation k}
    (h : ev.ideal? = some (.of k (k.ideal e.value))) :
    Agrees w [ev] (.ok e, w) (gives k (k.ideal e.value)) :=
  .single rfl (by rw [h]; rfl)

theorem result_of_toInt (task : String) (v : Int64) : result task v.toInt = gives .int v.toInt :=
  if_pos ⟨v.le_toInt, Int.le_sub_one_of_lt v.toInt_lt⟩

theorem result_of_overflow (task : String) :
    result task (2 ^ 63) = ⟨[.fault (.overflow task), .value (.int (2 ^ 63))], .ok (2 ^ 63)⟩ :=
  if_neg (by decide)

theorem agrees_computed {e : Evaluation .int} (task : String) {n : Int} (h : e.value.toInt = n) :
    Agrees w [.computed (k := .int) (.ok e.value)] (.ok e, w) (result task n) := by
  rw [← h, result_of_toInt]
  exact agrees_gives (k := .int) rfl

theorem agrees_overflow (task : String) :
    Agrees (k := .int) w [.computed (k := .int) (.error (.arithmetic (.overflow task)))]
      (.error (.arithmetic (.overflow task)), w) (result task (2 ^ 63)) := by
  rw [result_of_overflow]
  exact .single rfl rfl

theorem agrees_quotient (task : String) (l r : Evaluation .int) :
    Agrees w [.computed (k := .int) (divide task l.value r.value)] (l.quotient task r, w)
      (quotient task l.value.toInt r.value.toInt) := by
  unfold Evaluation.quotient divide quotient
  by_cases hzero : r.value = 0
  · rw [if_pos hzero, if_pos (by rw [hzero]; rfl)]
    exact .single rfl rfl
  · have hne : r.value.toInt ≠ 0 := fun h => hzero (Int64.toInt_inj.1 h)
    rw [if_neg hzero, if_neg hne]
    by_cases hmin : l.value = Int64.minValue ∧ r.value = -1
    · rw [if_pos hmin, hmin.1, hmin.2]
      exact agrees_overflow task
    · rw [if_neg hmin]
      refine agrees_computed (e := ⟨l.value / r.value, _⟩) task ?_
      rcases not_and_or.1 hmin with hl | hr
      · exact Int64.toInt_div_of_ne_left _ _ hl
      · exact Int64.toInt_div_of_ne_right _ _ hr

theorem agrees_absolute (task : String) (e : Evaluation .int) :
    Agrees w [.computed (k := .int) (absolute task e.value)] (e.absolute task, w)
      (result task |e.value.toInt|) := by
  by_cases hmin : e.value = Int64.minValue
  · rw [Evaluation.absolute, absolute, if_pos hmin, hmin]
    exact agrees_overflow task
  · have hne : e.value.toInt ≠ Int64.minValue.toInt := fun h => hmin (Int64.toInt_inj.1 h)
    have hrange : e.value.toInt.natAbs < 2 ^ 63 := by
      have := e.value.le_toInt
      have := e.value.toInt_lt
      rw [Int64.toInt_minValue] at hne
      omega
    obtain ⟨b, hb, hv⟩ := absolute_eq_ok task hrange
    rw [Evaluation.absolute, hb]
    exact agrees_computed (e := ⟨b, _⟩) task (hv.trans (Int.natCast_natAbs _))

theorem Comparison.holdsIdeal_toInt (op : Comparison) (a b : Int64) :
    op.holdsIdeal a.toInt b.toInt = op.holds a b := by
  cases op <;> simp [holdsIdeal, holds, Int64.lt_iff_toInt_lt]

theorem agrees_looked {k : Kind} (name : String) (scope : Scope) (f : k.Carrier → Evaluation k)
    (hf : ∀ v, (f v).value = v) :
    Agrees w [.looked k name (scope.get k name)]
      ((Act.lift (scope.get k name) >>= fun v => pure (f v)).run w)
      (looked k (scope.ideal.get k name)) := by
  rw [Act.run_bind, Act.run_lift, Scope.get_ideal]
  cases scope.get k name with
  | error e => exact .single rfl rfl
  | ok v =>
      have h : Agrees w [.looked k name (.ok v)] (.ok (f v), w) (gives k (k.ideal (f v).value)) :=
        agrees_gives (by rw [hf]; rfl)
      rwa [hf] at h

theorem Expr.course_agrees (m : Machine) {commit : Commit} (small : commit.contentLength < 2 ^ 63) :
    {k : Kind} → (e : Expr k) → (plain : e.Plain) → (scope : Scope) → (w : World) →
    Agrees w (e.course m commit scope w) ((e.apply m commit scope).run w)
      (e.reckon commit plain scope.ideal)
  | _, .int n, _, _, w => by
      rw [Expr.apply, Expr.course, Expr.reckon]
      exact agrees_gives (k := .int) rfl
  | _, .first, _, _, w => by
      rw [Expr.apply, Expr.course, Expr.reckon]
      exact agrees_gives (k := .bool) rfl
  | _, .size, _, _, w => by
      rw [Expr.apply, Expr.course, Expr.reckon, ← Commit.toInt_changedSize small]
      exact agrees_gives (k := .int) rfl
  | _, .var k name, _, scope, w => by
      rw [Expr.apply, Expr.course, Expr.reckon]
      exact agrees_looked name scope _ fun _ => rfl
  | _, .div lhs rhs, h, scope, w => by
      rw [Expr.apply, Expr.course, Expr.reckon]
      refine (lhs.course_agrees m small h.1 scope w).bind fun l =>
        (rhs.course_agrees m small h.2 scope w).bind fun r => ?_
      rw [Act.run_lift]
      exact agrees_quotient ..
  | _, .abs inner, h, scope, w => by
      rw [Expr.apply, Expr.course, Expr.reckon]
      refine (inner.course_agrees m small h scope w).bind fun e => ?_
      rw [Act.run_lift]
      exact agrees_absolute ..
  | _, .compare op lhs rhs, h, scope, w => by
      rw [Expr.apply, Expr.course, Expr.reckon]
      refine (lhs.course_agrees m small h.1 scope w).bind fun l =>
        (rhs.course_agrees m small h.2 scope w).bind fun r => ?_
      rw [Kind.ideal_int, Kind.ideal_int, Comparison.holdsIdeal_toInt]
      exact agrees_gives (k := .bool) rfl
  | _, .and lhs rhs, h, scope, w => by
      rw [Expr.apply, Expr.course, Expr.reckon, Act.conjoin]
      refine (lhs.course_agrees m small h.1 scope w).bind fun l => ?_
      cases hl : l.value with
      | false => exact ⟨rfl, rfl, rfl⟩
      | true => exact (rhs.course_agrees m small h.2 scope w).map fun _ => rfl
  | _, .letIn (i := i) name init body, h, scope, w => by
      rw [Expr.apply, Expr.course, Expr.reckon]
      refine (init.course_agrees m small h.1 scope w).bind fun v => ?_
      rw [← Scope.ideal_bind]
      exact (body.course_agrees m small h.2 _ w).map fun _ => rfl
  | _, .cond condition yes no, h, scope, w => by
      rw [Expr.apply, Expr.course, Expr.reckon]
      refine (condition.course_agrees m small h.1 scope w).bind fun c => ?_
      cases hc : c.value with
      | true => exact (yes.course_agrees m small h.2.1 scope w).map fun _ => rfl
      | false => exact (no.course_agrees m small h.2.2 scope w).map fun _ => rfl
  | _, .leaf _ _, h, _, _ => h.elim
  | _, .container _, h, _, _ => h.elim

theorem Commit.toInt_sum_size {c : Commit} (small : c.contentLength < 2 ^ 63) {es : List Entry}
    (hs : es.Sublist c.entries) : (es.map Entry.size).sum.toInt = (es.map Entry.growth).sum := by
  let part : Commit := { c with entries := es }
  have hpart : part.contentLength ≤ c.contentLength :=
    (hs.map _).sum_le_sum fun _ _ => Nat.zero_le _
  have hgrowth := part.natAbs_growth_le
  change part.size.toInt = part.growth
  rw [Commit.size_eq_ofInt_growth, Int64.toInt_ofInt_of_le (by omega) (by omega)]

/-- Machine arithmetic is exact. Where the evaluation over numbers without bounds meets no fault,
the machine ends as it does, with the same value or the same error of a look-up; else with the first
fault met. All values that the machine comes to before that, and all sums of sizes, are exact. -/
theorem Expr.arithmetic_exact (m : Machine) (commit : Commit) {k : Kind} (e : Expr k)
    (plain : e.Plain) (scope : Scope) (w : World) (small : commit.contentLength < 2 ^ 63) :
    let unbounded := e.reckon commit plain scope.ideal
    let run := (e.apply m commit scope).run w
    run.2 = w ∧
    (unbounded.fault? = none →
      run.1.map (fun r => k.ideal r.value) = unbounded.outcome ∧
        ∀ error, run.1 = .error error → ∃ x, error.variable? = some x) ∧
    (∀ fault, unbounded.fault? = some fault → run.1 = .error (.arithmetic fault)) ∧
    (e.course m commit scope w).filterMap Event.ideal? = unbounded.values ∧
    ∀ es : List Entry, es.Sublist commit.entries →
      (es.map Entry.size).sum.toInt = (es.map Entry.growth).sum := by
  intro unbounded run
  have hagrees : Agrees w (e.course m commit scope w) run unbounded :=
    e.course_agrees m small plain scope w
  have hresult := hagrees.result
  refine ⟨hagrees.world, fun hnone => ?_, fun fault hfault => ?_, hagrees.values,
    fun es => Commit.toInt_sum_size small⟩
  · rw [bounded, hnone] at hresult
    refine ⟨hresult, fun error herror => ?_⟩
    rw [herror] at hresult
    exact e.reckon_regular commit plain scope.ideal error hresult.symm hnone
  · rw [bounded, hfault] at hresult
    cases hrun : run.1 with
    | ok r => simp [hrun, Except.map] at hresult
    | error error =>
        rw [hrun] at hresult
        exact congrArg _ (Except.error.inj hresult)

/-- The absolute value of the least number is a fault, though the quotient that comes of it would be
in range again. The same fault on the branch not taken is none. -/
theorem Expr.arithmetic_exact_overflowing :
    let least : Int64 := -2 ^ 63
    let e : Expr .int :=
      .letIn "x" (.div .size (.int (-2)))
        (.cond (.compare .less (.var .int "x") (.int 0)) (.div (.int least) (.int (-1)))
          (.div (.abs (.var .int "least")) (.int 2)))
    let commit : Commit := ⟨"c", "", none, none, [⟨"a", [1, 2, 3], []⟩, ⟨"b", [], [4]⟩]⟩
    let run := (e.apply .bare commit (.bind .empty "least" (.int least))).run (.fresh ⟨[]⟩)
    commit.contentLength < 2 ^ 63 ∧ e.Plain ∧
      run.1 = .error (.arithmetic (.overflow "abs(least)")) := by
  intro least e commit run
  have small : commit.contentLength < 2 ^ 63 := by decide
  refine ⟨small, by simp [e, Expr.Plain], ?_⟩
  exact (e.arithmetic_exact .bare commit (by simp [e, Expr.Plain]) _ _ small).2.2.1 _
    (by decide +kernel)

end CommitMarking
