import CommitMarking.CommandLine.Session
import Mathlib.Data.List.Basic

namespace CommitMarking

/-- The argument is not read as a plain word: it starts with a dash and is more than that. -/
def OptionLike (arg : String) : Prop := arg.toList.head? = some '-' ∧ arg ≠ "-"

instance (arg : String) : Decidable (OptionLike arg) := by
  unfold OptionLike
  infer_instance

theorem Command.not_mem_operands_of_named? {command : Command} {name : String} {a : Argument}
    (h : command.named? name = some a) : a ∉ command.operands := by
  unfold named? at h
  cases command
  all_goals split at h
  all_goals cases h
  all_goals decide

theorem Command.not_mem_operands_of_lettered? {command : Command} {c : Char} {a : Argument}
    (h : command.lettered? c = some a) : a ∉ command.operands := by
  unfold lettered? at h
  cases command
  all_goals split at h
  all_goals cases h
  all_goals decide

namespace Reading

variable {as : List Argument} {a : Argument} {r r' : Reading}

structure Waits (as : List Argument) (r : Reading) : Prop where
  operands_eq : r.operands = as
  value?_eq_none : ∀ a ∈ as, r.value? a = none
  pending_ne : ∀ a ∈ as, ∀ value, r.pending ≠ some (a, value)

theorem waits_start (command : Command) : (start command).Waits command.operands where
  operands_eq := rfl
  value?_eq_none _ _ := rfl
  pending_ne _ _ _ h := by cases h

theorem give_eq_ok {value : String} (h : r.give a value = .ok r') :
    r' = { r with given := (a, value) :: r.given } := by
  unfold give at h
  cases hr : r.has a with
  | true => rw [hr] at h; cases h
  | false =>
      rw [hr] at h
      cases hc : a.check value with
      | error e => rw [hc] at h; cases h
      | ok _ => rw [hc] at h; cases h; rfl

namespace Waits

theorem give {value : String} (h : Waits as r) (ha : a ∉ as) (hr : r.give a value = .ok r') :
    Waits as r' := by
  rw [give_eq_ok hr]
  refine ⟨h.operands_eq, fun b hb => ?_, h.pending_ne⟩
  have hne : b ≠ a := fun he => ha (he ▸ hb)
  change List.lookup b ((a, value) :: r.given) = none
  rw [List.lookup_cons, beq_eq_false_iff_ne.2 hne]
  exact h.value?_eq_none b hb

theorem withPending {value : Option String} (h : Waits as r) (ha : a ∉ as) :
    Waits as { r with pending := some (a, value) } where
  operands_eq := h.operands_eq
  value?_eq_none := h.value?_eq_none
  pending_ne b hb v hp := ha (by cases hp; exact hb)

theorem settle (h : Waits as r) (hr : r.settle = .ok r') : Waits as r' := by
  unfold Reading.settle at hr
  split at hr
  next => cases hr; exact h
  next a value hp =>
      have ha : a ∉ as := fun ha => h.pending_ne a ha _ hp
      have hnone : Waits as { r with pending := none } :=
        ⟨h.operands_eq, h.value?_eq_none, fun _ _ _ hn => by cases hn⟩
      exact hnone.give ha hr
  next => cases hr

theorem switch (h : Waits as r) (ha : a ∉ as) (hr : r.switch a = .ok r') : Waits as r' := by
  obtain ⟨settled, hs, hr⟩ := exists_of_bind_ok hr
  split at hr
  next => cases hr
  next => cases hr
  next => exact (h.settle hs).give ha hr

theorem assign {value : Option String} (h : Waits as r) (ha : a ∉ as)
    (hr : r.assign a value = .ok r') : Waits as r' := by
  obtain ⟨settled, hs, hr⟩ := exists_of_bind_ok hr
  cases value with
  | some value => exact (h.settle hs).give ha hr
  | none =>
      cases hr
      exact (h.settle hs).withPending ha

theorem long {command : Command} {name : String} {value : Option String} (h : Waits as r)
    (hsub : as ⊆ command.operands) (hr : r.long command name value = .ok r') : Waits as r' := by
  unfold Reading.long at hr
  cases hn : command.named? name with
  | none => rw [hn] at hr; cases hr
  | some a =>
      have ha : a ∉ as := fun ha => Command.not_mem_operands_of_named? hn (hsub ha)
      simp only [hn] at hr
      split at hr
      · exact h.assign ha hr
      · split at hr
        · cases hr
        · exact h.switch ha hr

theorem letters {command : Command} {cs : List Char} (h : Waits as r)
    (hsub : as ⊆ command.operands) (hr : r.letters command cs = .ok r') : Waits as r' := by
  induction cs generalizing r with
  | nil => cases hr; exact h
  | cons c cs ih =>
      rw [Reading.letters] at hr
      cases hn : command.lettered? c with
      | none => rw [hn] at hr; cases hr
      | some a =>
          have ha : a ∉ as := fun ha => Command.not_mem_operands_of_lettered? hn (hsub ha)
          simp only [hn] at hr
          split at hr
          · exact h.assign ha hr
          · obtain ⟨switched, hs, hr⟩ := exists_of_bind_ok hr
            exact ih (h.switch ha hs) hr

theorem operand {value : String} (h : Waits (a :: as) r) (ha : a ∉ as)
    (hr : r.operand value = .ok r') : Waits as r' := by
  obtain ⟨settled, hs, hr⟩ := exists_of_bind_ok hr
  have hw := h.settle hs
  simp only [hw.operands_eq] at hr
  cases hr
  refine ⟨rfl, fun b hb => hw.value?_eq_none b (List.mem_cons_of_mem a hb), fun b hb v hp => ?_⟩
  cases hp
  exact ha hb

theorem step_optionLike {command : Command} {arg : String} (h : Waits as r)
    (hsub : as ⊆ command.operands) (ho : OptionLike arg) (hr : r.step command arg = .ok r')
    (hplain : r.operandsOnly = false) : Waits as r' := by
  unfold Reading.step at hr
  rw [hplain] at hr
  simp only [Bool.false_eq_true, if_false] at hr
  split at hr
  next => cases hr; exact ⟨h.operands_eq, h.value?_eq_none, h.pending_ne⟩
  next => exact h.long hsub hr
  next => exact h.letters hsub hr
  next _ _ hletters =>
      obtain ⟨cs, hcs⟩ := List.head?_eq_some_iff.1 ho.1
      cases cs with
      | nil => exact absurd (String.toList_inj.1 hcs) ho.2
      | cons c cs => exact absurd hcs (hletters c cs)

/-- Any argument is one of the operands that are waited for at most. -/
theorem step {command : Command} {arg : String} (h : Waits (a :: as) r) (ha : a ∉ as)
    (hsub : a :: as ⊆ command.operands) (hr : r.step command arg = .ok r') :
    Waits (a :: as) r' ∨ Waits as r' := by
  unfold Reading.step at hr
  split at hr
  · exact .inr (h.operand ha hr)
  · split at hr
    next => cases hr; exact .inl ⟨h.operands_eq, h.value?_eq_none, h.pending_ne⟩
    next => exact .inl (h.long hsub hr)
    next => exact .inl (h.letters hsub hr)
    next =>
        split at hr
        next b hp =>
            cases hr
            exact .inl (h.withPending fun hb => h.pending_ne b hb _ hp)
        next => exact .inr (h.operand ha hr)

end Waits

theorem step_word {command : Command} {arg : String} (hplain : r.operandsOnly = false)
    (ho : ¬OptionLike arg) :
    r.step command arg =
      match r.pending with
      | some (a, none) => .ok { r with pending := some (a, some arg) }
      | _ => r.operand arg := by
  unfold step
  rw [hplain]
  simp only [Bool.false_eq_true, if_false]
  have hword (cs : List Char) (hcs : arg.toList = '-' :: cs) : cs = [] := by
    by_contra hne
    refine ho ⟨by rw [hcs]; rfl, fun hdash => hne ?_⟩
    rw [hdash] at hcs
    exact (List.cons.inj hcs).2.symm
  split
  next h => cases hword _ h
  next h => cases hword _ h
  next h => cases hword _ h
  next => rfl

def configured (source : Option Location) : Reading where
  given := []
  pending := source.map fun path => (.config, some path.text)
  operands := [.repository]
  operandsOnly := false

end Reading

theorem Location.text_ne_empty (l : Location) : l.text ≠ "" := by
  intro h
  have hl := congrArg String.toList h
  simp [Location.text] at hl

theorem Location.not_optionLike_text (l : Location) : ¬OptionLike l.text := by
  rintro ⟨h, -⟩
  simp [Location.text] at h

namespace Session

open Reading

theorem upToCommand_hostCommand (s : Session) (source : Option Location) (args : List String) :
    (Reading.start .marking).upToCommand ((s.hostCommand source).tail ++ args) =
      .ok (configured source, some (runSuite, args)) := by
  cases source with
  | none => rfl
  | some path =>
      let awaiting : Reading := ⟨[], some (.config, none), [.repository], false⟩
      have hoption : (Reading.start .marking).step .marking "--config" = .ok awaiting := by
        decide +kernel
      have hpath : awaiting.step .marking path.text = .ok (configured (some path)) :=
        step_word rfl path.not_optionLike_text
      have hcommand : (configured (some path)).isCommand runSuite = true := rfl
      have hargs : (s.hostCommand (some path)).tail ++ args =
          "--config" :: path.text :: runSuite :: args := rfl
      have hfirst : (Reading.start .marking).isCommand "--config" = false := by decide +kernel
      have hsecond : awaiting.isCommand path.text = false := rfl
      simp only [hargs, upToCommand, hfirst, hsecond, hcommand, hoption, hpath, if_true, bind,
        Except.bind, Bool.false_eq_true, if_false]
      rfl

end Session

theorem Reading.settle_of_finish {r r' : Reading} {env : Option String}
    (h : r.finish env = .ok r') : r.settle = .ok r' := by
  obtain ⟨settled, hs, h⟩ := exists_of_bind_ok h
  dsimp only at h
  split at h
  · obtain ⟨-, -, h⟩ := exists_of_bind_ok h
    cases h
    exact hs
  · cases h
    exact hs

namespace Request

open Reading

variable {env : Option String} {suite : String} {outer : Reading}

theorem foldlM_words (h : ¬OptionLike suite) (dir : Location) :
    [suite, dir.text].foldlM (Reading.step .hosting) (.start .hosting) =
      .ok ⟨[(.suite, suite)], some (.dir, some dir.text), [], false⟩ := by
  have hsuite : (Reading.start .hosting).step .hosting suite =
      .ok ⟨[], some (.suite, some suite), [.dir], false⟩ := step_word rfl h
  have hdir : Reading.step .hosting ⟨[], some (.suite, some suite), [.dir], false⟩ dir.text =
      .ok ⟨[(.suite, suite)], some (.dir, some dir.text), [], false⟩ :=
    step_word rfl dir.not_optionLike_text
  rw [List.foldlM_cons, hsuite]
  simp only [bind, Except.bind]
  rw [List.foldlM_cons, hdir]
  rfl

theorem finish_words (dir : Location) :
    Reading.finish ⟨[(.suite, suite)], some (.dir, some dir.text), [], false⟩ env =
      (env.forM (Argument.check .config)).map
        fun _ => ⟨[(.dir, dir.text), (.suite, suite)], none, [], false⟩ := by
  have hcheck : Argument.check .dir dir.text = .ok () := by
    rw [Argument.check, if_neg dir.text_ne_empty]
  have hgive : Reading.give ⟨[(.suite, suite)], none, [], false⟩ .dir dir.text =
      .ok ⟨[(.dir, dir.text), (.suite, suite)], none, [], false⟩ := by
    rw [Reading.give, hcheck]
    rfl
  have hsettle : Reading.settle ⟨[(.suite, suite)], some (.dir, some dir.text), [], false⟩ =
      .ok ⟨[(.dir, dir.text), (.suite, suite)], none, [], false⟩ := hgive
  rw [finish, hsettle]
  cases env.forM (Argument.check .config) <;> rfl

theorem check_env (h : env ≠ some "") : env.forM (Argument.check .config) = .ok () := by
  cases env with
  | none => rfl
  | some path => exact if_neg fun he => h (congrArg some he)

theorem finish_configured (source : Option Location) (h : env ≠ some "") :
    (configured source).finish env =
      .ok ⟨source.toList.map fun path => (.config, path.text), none, [.repository], false⟩ := by
  cases source with
  | none =>
      have hsettle : (configured none).settle = .ok (configured none) := rfl
      rw [finish, hsettle]
      simp only [bind, Except.bind]
      rw [check_env h]
      rfl
  | some path =>
      have hsettle : (configured (some path)).settle =
          .ok ⟨[(.config, path.text)], none, [.repository], false⟩ := by
        have hcheck : Argument.check .config path.text = .ok () := by
          rw [Argument.check, if_neg path.text_ne_empty]
        change Reading.give ⟨[], none, [.repository], false⟩ .config path.text = _
        rw [Reading.give, hcheck]
        rfl
      rw [finish, hsettle]
      rfl

theorem host_word (source : Option Location) (henv : env ≠ some "") (h : ¬OptionLike suite)
    (dir : Location) :
    host env (configured source) [suite, dir.text] =
      .ok ⟨false, false, source.map Location.text <|> env, .host suite dir.text⟩ := by
  rw [host, foldlM_words h]
  simp only [bind, Except.bind]
  rw [finish_words, check_env henv]
  simp only [Except.map]
  rw [finish_configured source henv]
  cases source <;> rfl

theorem host_emptyEnv (h : ¬OptionLike suite) (dir : Location) :
    host (some "") outer [suite, dir.text] = .error (.noValue .config) := by
  rw [host, foldlM_words h]
  simp only [bind, Except.bind]
  rw [finish_words]
  rfl

theorem host_optionLike (h : OptionLike suite) (word : String) :
    ∃ stop, host env outer [suite, word] = .error stop := by
  rcases hhost : host env outer [suite, word] with stop | request
  · exact ⟨stop, rfl⟩
  obtain ⟨second, hsecond, hhost⟩ := exists_of_bind_ok hhost
  obtain ⟨first, hfirst, hsecond⟩ := exists_of_bind_ok hsecond
  obtain ⟨last, hlast, hsecond⟩ := exists_of_bind_ok hsecond
  cases hsecond
  obtain ⟨inner, hinner, hhost⟩ := exists_of_bind_ok hhost
  have hstart : (Reading.start .hosting).Waits [.suite, .dir] := waits_start .hosting
  have hwaits := hstart.step_optionLike (List.Subset.refl _) h hfirst rfl
  -- Nothing is given for either operand by the option, and for one of them at most by the word.
  have hdir : inner.value? .dir = none := by
    rcases hwaits.step (by decide) (List.Subset.refl _) hlast with hw | hw
    · exact (hw.settle (settle_of_finish hinner)).value?_eq_none .dir (by decide)
    · exact (hw.settle (settle_of_finish hinner)).value?_eq_none .dir (by decide)
  rw [hdir] at hhost
  cases hname : inner.value? .suite
  all_goals
    rw [hname] at hhost
    cases hhost

end Request

namespace Session

/-- The executable understands its own command if the suite is a word and the environment does not
name an empty path. -/
theorem parse_hostCommand (s : Session) (source : Option Location) {suite : String}
    (ho : ¬OptionLike suite) (henv : s.configEnv ≠ some "") (dir : Location) :
    Request.parse s.configEnv ((s.hostCommand source).tail ++ [suite, dir.text]) =
      .ok ⟨false, false, source.map Location.text <|> s.configEnv, .host suite dir.text⟩ := by
  rw [Request.parse, upToCommand_hostCommand]
  exact Request.host_word source henv ho dir

theorem parse_hostCommand_stops (s : Session) (source : Option Location) {suite : String}
    (h : ¬(¬OptionLike suite ∧ s.configEnv ≠ some "")) (dir : Location) :
    ∃ stop, Request.parse s.configEnv ((s.hostCommand source).tail ++ [suite, dir.text]) =
      .error stop := by
  rw [Request.parse, upToCommand_hostCommand]
  by_cases ho : OptionLike suite
  · exact Request.host_optionLike ho dir.text
  · have henv : s.configEnv = some "" := by simpa [ho] using h
    rw [henv]
    exact ⟨_, Request.host_emptyEnv ho dir⟩

end Session

end CommitMarking
