import CommitMarking.Proofs.Arithmetic
import CommitMarking.Proofs.Effectless
import CommitMarking.Scheme

namespace CommitMarking

def Commit.worth (c : Commit) : Int :=
  if c.parent = none then 0
  else if c.growth.natAbs < 500 then 1
  else if c.growth.natAbs ≤ 1000 then 0
  else -(c.growth.natAbs / 1000 : Nat)

namespace Scheme

open Act

/-- How the steps of a build and its tests end in a directory, and what they leave behind. Both are
made ready before the build is applied, the tests are applied only where it holds, and nothing
happens after a step that fails. -/
inductive Gate (m : Machine) (commit : Commit) (scope : Scope) (dir : Location)
    (build test : Generator .bool) : World → Except MarkError Bool → World → Prop
  | buildUnready {w v e} (h : (build.prepare m dir).run w = (.error e, v)) :
      Gate m commit scope dir build test w (.error e) v
  | testUnready {w w₁ v e} (hb : (build.prepare m dir).run w = (.ok (), w₁))
      (h : (test.prepare m dir).run w₁ = (.error e, v)) :
      Gate m commit scope dir build test w (.error e) v
  | buildError {w w₁ w₂ v e} (hb : (build.prepare m dir).run w = (.ok (), w₁))
      (ht : (test.prepare m dir).run w₁ = (.ok (), w₂))
      (h : (build.apply m commit scope dir).run w₂ = (.error e, v)) :
      Gate m commit scope dir build test w (.error e) v
  | buildFails {w w₁ w₂ v b} (hb : (build.prepare m dir).run w = (.ok (), w₁))
      (ht : (test.prepare m dir).run w₁ = (.ok (), w₂))
      (h : (build.apply m commit scope dir).run w₂ = (.ok b, v)) (hv : b.value = false) :
      Gate m commit scope dir build test w (.ok false) v
  | testError {w w₁ w₂ w₃ v b e} (hb : (build.prepare m dir).run w = (.ok (), w₁))
      (ht : (test.prepare m dir).run w₁ = (.ok (), w₂))
      (hr : (build.apply m commit scope dir).run w₂ = (.ok b, w₃)) (hv : b.value = true)
      (h : (test.apply m commit scope dir).run w₃ = (.error e, v)) :
      Gate m commit scope dir build test w (.error e) v
  | tested {w w₁ w₂ w₃ v b t} (hb : (build.prepare m dir).run w = (.ok (), w₁))
      (ht : (test.prepare m dir).run w₁ = (.ok (), w₂))
      (hr : (build.apply m commit scope dir).run w₂ = (.ok b, w₃)) (hv : b.value = true)
      (h : (test.apply m commit scope dir).run w₃ = (.ok t, v)) :
      Gate m commit scope dir build test w (.ok t.value) v

variable (m : Machine) (commit : Commit) (scope : Scope)

/-- Preparing and applying a conjunction of generators takes the steps of a gate. -/
theorem exists_gate (dir : Location) (build test : Generator .bool) (w : World) :
    ∃ r gate v, (do
        (Generator.andAll build test).prepare m dir
        (Generator.andAll build test).apply m commit scope dir : Act MarkError _).run w = (r, v) ∧
      r.map (·.value) = gate ∧ Gate m commit scope dir build test w gate v := by
  rcases hb : (build.prepare m dir).run w with ⟨e | _, w₁⟩
  · exact ⟨.error e, _, w₁, by simp [Generator.prepare, run_bind, hb], rfl, .buildUnready hb⟩
  rcases ht : (test.prepare m dir).run w₁ with ⟨e | _, w₂⟩
  · exact ⟨.error e, _, w₂, by simp [Generator.prepare, run_bind, hb, ht], rfl, .testUnready hb ht⟩
  have hp : ((Generator.andAll build test).prepare m dir).run w = (.ok (), w₂) := by
    simp [Generator.prepare, run_bind, hb, ht]
  rw [run_bind, hp]
  simp only [Generator.apply, conjoin, run_bind]
  rcases hr : (build.apply m commit scope dir).run w₂ with ⟨e | b, w₃⟩
  · exact ⟨_, _, _, rfl, rfl, .buildError hb ht hr⟩
  cases hv : b.value with
  | false =>
      simp only [hv]
      exact ⟨_, _, _, rfl, rfl, .buildFails hb ht hr hv⟩
  | true =>
      simp only [hv, run_bind]
      rcases hs : (test.apply m commit scope dir).run w₃ with ⟨e | t, v⟩
      · exact ⟨_, _, _, rfl, rfl, .testError hb ht hr hv hs⟩
      · exact ⟨_, .ok t.value, v, rfl, rfl, .tested hb ht hr hv hs⟩

variable {m commit scope} in
/-- Where there is nothing to make ready, the build is applied at once, and the tests after it. -/
theorem Gate.eq_of_prepared {dir : Location} {build test : Generator .bool} {w v : World}
    {gate : Except MarkError Bool} (hb : (build.prepare m dir).run w = (.ok (), w))
    (ht : (test.prepare m dir).run w = (.ok (), w))
    (h : Gate m commit scope dir build test w gate v) :
    (gate, v) =
      match (build.apply m commit scope dir).run w with
      | (.error e, u) => (.error e, u)
      | (.ok b, u) =>
          if b.value then
            let tested := (test.apply m commit scope dir).run u
            (tested.1.map (·.value), tested.2)
          else (.ok false, u) := by
  cases h with
  | buildUnready h => cases hb.symm.trans h
  | testUnready h ht' =>
      cases hb.symm.trans h
      cases ht.symm.trans ht'
  | buildError h ht' hr =>
      cases hb.symm.trans h
      cases ht.symm.trans ht'
      rw [hr]
  | buildFails h ht' hr hv =>
      cases hb.symm.trans h
      cases ht.symm.trans ht'
      rw [hr]
      simp [hv]
  | testError h ht' hr hv hs | tested h ht' hr hv hs =>
      cases hb.symm.trans h
      cases ht.symm.trans ht'
      rw [hr]
      simp [hv, hs, Except.map]

theorem bySize_gives (w : World) {size : Int64} {n : Nat} (hsize : size.toInt = n)
    (hget : scope.get .int sizeName = .ok size) :
    ∃ mark, Expr.Gives m commit scope w bySize mark ∧
      mark.toInt = if n < 500 then 1 else if n ≤ 1000 then 0 else -((n / 1000 : Nat) : Int) := by
  have hvar : Expr.Gives m commit scope w (.var .int sizeName) size := Expr.gives_var hget
  have hless := hvar.compare .less (Expr.gives_int small)
  have hgreater := hvar.compare .greater (Expr.gives_int large)
  have hsmall : small.toInt = 500 := rfl
  have hlarge : large.toInt = 1000 := rfl
  simp only [Comparison.holds, Int64.lt_iff_toInt_lt, hsmall, hlarge] at hless hgreater
  by_cases h1 : n < 500
  · refine ⟨1, hless.cond ?_, by rw [if_pos h1]; rfl⟩
    rw [decide_eq_true (by omega)]
    exact Expr.gives_int 1
  by_cases h2 : n ≤ 1000
  · refine ⟨0, hless.cond ?_, by rw [if_neg h1, if_pos h2]; rfl⟩
    rw [decide_eq_false (by omega)]
    refine hgreater.cond ?_
    rw [decide_eq_false (by omega)]
    exact Expr.gives_int 0
  · obtain ⟨q, hq, hv⟩ := divide_eq_ok (Expr.div (.var .int sizeName) (.int (-large))).name size
      (b := -large) (by decide) (by decide)
    refine ⟨q, hless.cond ?_, ?_⟩
    · rw [decide_eq_false (by omega)]
      refine hgreater.cond ?_
      rw [decide_eq_true (by omega)]
      exact hvar.div (Expr.gives_int _) hq
    · have hneg : (-large).toInt = -1000 := rfl
      rw [if_neg h1, if_neg h2, hv, hsize, hneg, Int.tdiv_neg,
        Int.tdiv_eq_ediv_of_nonneg (Int.natCast_nonneg n), Int.natCast_ediv]
      rfl

def afterGate : Expr .int := .cond .first (.int 0) (.letIn sizeName (.abs .size) bySize)

theorem afterGate_gives_first (w : World) (hf : commit.parent = none) :
    Expr.Gives m commit scope w afterGate (0 : Int64) := by
  refine Expr.gives_first.cond ?_
  simp only [Commit.isFirst, hf]
  exact Expr.gives_int 0

theorem isFirst_eq_false (hf : commit.parent ≠ none) : commit.isFirst = false :=
  Option.isNone_eq_false_iff.2 (Option.isSome_iff_ne_none.2 hf)

theorem afterGate_gives_sized (w : World) (hf : commit.parent ≠ none) {size : Int64} {n : Nat}
    (habs : absolute (Expr.abs .size).name commit.changedSize = .ok size) (hsize : size.toInt = n) :
    ∃ mark, Expr.Gives m commit scope w afterGate mark ∧
      mark.toInt = if n < 500 then 1 else if n ≤ 1000 then 0 else -((n / 1000 : Nat) : Int) := by
  obtain ⟨mark, hm, hv⟩ := bySize_gives m commit (scope.bind sizeName (.of .int size)) w hsize
    (by simp [Scope.get, Scope.lookup_bind])
  refine ⟨mark, Expr.gives_first.cond ?_, hv⟩
  rw [isFirst_eq_false commit hf]
  exact (Expr.gives_size.abs habs).letIn hm

theorem afterGate_gives (w : World) (h : commit.contentLength < 2 ^ 63) :
    ∃ mark, Expr.Gives m commit scope w afterGate mark ∧ mark.toInt = commit.worth := by
  have hg := commit.natAbs_growth_le
  have hexact := Commit.toInt_changedSize h
  obtain ⟨size, habs, hsize⟩ := absolute_eq_ok (Expr.abs .size).name
    (show commit.changedSize.toInt.natAbs < 2 ^ 63 by omega)
  rw [hexact] at hsize
  by_cases hf : commit.parent = none
  · exact ⟨0, afterGate_gives_first m commit scope w hf, by simp [Commit.worth, hf]⟩
  · obtain ⟨mark, hm, hv⟩ := afterGate_gives_sized m commit scope w hf habs hsize
    exact ⟨mark, hm, by rw [hv, Commit.worth, if_neg hf]⟩

/-- Only the size of a commit can be out of range, and none that its contents can bring about. -/
theorem afterGate_gives_or_overflows (w : World) :
    (∃ mark, Expr.Gives m commit scope w afterGate mark) ∨
      2 ^ 63 ≤ commit.contentLength ∧ (afterGate.apply m commit scope).run w =
        (.error (.arithmetic (.overflow (Expr.abs .size).name)), w) := by
  by_cases h : commit.contentLength < 2 ^ 63
  · obtain ⟨mark, hm, -⟩ := afterGate_gives m commit scope w h
    exact .inl ⟨mark, hm⟩
  by_cases hf : commit.parent = none
  · exact .inl ⟨0, afterGate_gives_first m commit scope w hf⟩
  by_cases hmin : commit.changedSize = Int64.minValue
  · have habs : ((Expr.abs .size).apply m commit scope).run w =
        (.error (.arithmetic (.overflow (Expr.abs .size).name)), w) := by
      simp only [Expr.apply, run_bind, run_pure, run_lift, Evaluation.absolute, absolute, hmin, if_true]
      rfl
    refine .inr ⟨by omega, Expr.cond_run_branch_error (c := ⟨commit.isFirst, .nothing⟩) rfl ?_⟩
    rw [isFirst_eq_false commit hf, if_neg Bool.false_ne_true, Expr.apply, run_bind, habs]
  · obtain ⟨size, habs, hsize⟩ := absolute_eq_ok (Expr.abs .size).name (natAbs_toInt_lt hmin)
    obtain ⟨mark, hm, -⟩ := afterGate_gives_sized m commit scope w hf habs hsize
    exact .inl ⟨mark, hm⟩

theorem exists_container_gate (build test : Generator .bool) (w : World) :
    let dir := m.scratch.directory w
    ∃ r gate v, ((Expr.container (.andAll build test)).apply m commit scope).run w =
        (r, { v with files := v.files.remove dir }) ∧ r.map (·.value) = gate ∧
      Gate m commit scope dir build test (m.scratch.opened w) gate v := by
  intro dir
  obtain ⟨r, gate, v, hrun, hgate, hsteps⟩ := exists_gate m commit scope dir build test
    (m.scratch.opened w)
  refine ⟨r, gate, v, ?_, hgate, hsteps⟩
  rw [Expr.apply, World.run_inScratch]
  exact congrArg (fun p : _ × World => (p.1, { p.2 with files := p.2.files.remove dir })) hrun

/-- The standard scheme ends as its gate does: with the error of the step that failed, with -1 if a
verdict is false, and otherwise with what the commit is worth. -/
theorem standard_marks (m : Machine) (commit : Commit) (scope : Scope) (build test : Generator .bool)
    (w : World) (h : commit.contentLength < 2 ^ 63) :
    let dir := m.scratch.directory w
    let run := ((standard build test).apply m commit scope).run w
    ∃ gate v, Gate m commit scope dir build test (m.scratch.opened w) gate v ∧
      run.2 = { v with files := v.files.remove dir } ∧
      run.1.map (·.value.toInt) = gate.map fun passed => if passed then commit.worth else -1 := by
  intro dir run
  obtain ⟨r, gate, v, hc, hgate, hsteps⟩ := exists_container_gate m commit scope build test w
  refine ⟨gate, v, hsteps, ?_⟩
  subst hgate
  cases r with
  | error e =>
      have hr : run = (.error e, _) := Expr.cond_run_error hc
      rw [hr]
      exact ⟨rfl, rfl⟩
  | ok c =>
      cases hv : c.value with
      | true =>
          obtain ⟨mark, hm, hworth⟩ := afterGate_gives m commit scope _ h
          obtain ⟨a, ha, hval⟩ : ∃ a, run = (.ok a, _) ∧ a.value = mark :=
            Expr.cond_run hc (by rw [hv]; exact hm)
          rw [ha]
          simp [Except.map, hv, hval, hworth, dir]
      | false =>
          obtain ⟨a, ha, hval⟩ : ∃ a, run = (.ok a, _) ∧ a.value = -1 :=
            Expr.cond_run hc (by rw [hv]; exact Expr.gives_int (-1))
          rw [ha]
          simp [Except.map, hv, hval, dir]

/-- A commit that takes 2990 bytes away loses two marks, also where the scheme's variable already
stands for a boolean. -/
theorem standard_marks_shrinking :
    let passes (name : String) : Generator .bool := .task name (.leaf name (.ok ⟨true, .nothing⟩))
    let commit : Commit :=
      ⟨"c2", "shrink", some "c1", none, [⟨"A.java", List.replicate 3000 120, List.replicate 10 120⟩]⟩
    let scope : Scope := .bind .empty sizeName (.bool true)
    commit.contentLength < 2 ^ 63 ∧
      (((standard (passes "build") (passes "test")).apply .bare commit scope).run
        (.fresh ⟨[]⟩)).1.map (·.value.toInt) = .ok (-2) := by
  intro passes commit scope
  have hlength : commit.contentLength = 3010 := by
    simp only [commit, Commit.contentLength, List.map_cons, List.map_nil, List.sum_cons, List.sum_nil,
      List.length_replicate]
    rfl
  have hgrowth : commit.growth = -2990 := by
    simp only [commit, Commit.growth, Entry.growth, List.map_cons, List.map_nil, List.sum_cons,
      List.sum_nil, List.length_replicate]
    rfl
  have hworth : commit.worth = -2 := by rw [Commit.worth, hgrowth]; rfl
  obtain ⟨gate, v, hgate, -, hmark⟩ := standard_marks .bare commit scope (passes "build")
    (passes "test") (.fresh ⟨[]⟩) (by omega)
  refine ⟨by omega, hmark.trans ?_⟩
  cases hgate with
  | buildUnready h | testUnready _ h | buildError _ _ h | testError _ _ _ _ h => cases h
  | buildFails _ _ h hv =>
      cases h
      cases hv
  | tested _ _ _ _ h =>
      cases h
      change Except.ok (if true = true then commit.worth else -1) = _
      rw [if_pos rfl, hworth]

end Scheme

end CommitMarking
