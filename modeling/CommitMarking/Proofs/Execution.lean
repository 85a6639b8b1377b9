import CommitMarking.Proofs.Draining
import CommitMarking.Proofs.FileSystem.Canonical
import CommitMarking.Proofs.Keeping

namespace CommitMarking

def Rejected {α : Type} (r : Except ProcessError α) : Prop :=
  ∃ reason, r = .error (.invalidCommand reason)

theorem not_rejected_ok {α : Type} (a : α) : ¬Rejected (.ok a : Except ProcessError α) := by
  rintro ⟨reason, h⟩
  cases h

open Write (onto)

namespace Process

def Outlives (p : Process) (timeout : Nat) : Prop := p.ending = .hang ∨ timeout < p.lasts

structure Wrote (p : Process) (time : Nat) (done : List (Nat × Write)) : Prop where
  inTime : elapsed done ≤ time
  next : ∃ later, p.writes = done ++ later ∧ ∀ w ∈ later.head?, time < elapsed done + w.1

/-- The execution tells how the process ended, or that its time was up first, and all that it wrote
until then, whatever pieces that is written in and in whatever turns it is read. -/
structure ToldBy (p : Process) (timeout : Nat) (group : ProcessGroup) (e : Execution) : Prop where
  exited : ∀ code, p.ending = .exit code → ¬p.Outlives timeout → e.exitCode = some (code : Int)
  killed : ∀ number, p.ending = .signal number → ¬p.Outlives timeout →
    e.exitCode = some (128 + (number : Int))
  outlasted : e.exitCode = none ↔ p.Outlives timeout
  drained : ∃ done, p.Wrote timeout done ∧ (¬p.Outlives timeout → done = p.writes) ∧
    ∀ ws, (∀ s, onto s ws = onto s (done.map (·.2))) → (∃ d, Capture.Drained ws d) ∧
      ∀ d, Capture.Drained ws d → d.buffer .out = e.stdout ∧ d.buffer .err = e.stderr
  prompt : e.duration ≤ timeout + if group = .own then 0 else drainGrace

variable {p : Process} {timeout : Nat}

theorem elapsed_append (xs ys : List (Nat × Write)) :
    elapsed (xs ++ ys) = elapsed xs + elapsed ys := by
  induction xs with
  | nil => exact (Nat.zero_add _).symm
  | cons x xs ih =>
      change x.1 + elapsed (xs ++ ys) = x.1 + elapsed xs + elapsed ys
      rw [ih, Nat.add_assoc]

theorem endsWithin_iff : p.endsWithin (some timeout) = true ↔ ¬p.Outlives timeout := by
  simp [endsWithin, Outlives]

theorem exists_wrote (p : Process) (timeout : Nat) :
    ∃ done, p.Wrote timeout done ∧ done.map (·.2) = p.written (some timeout) := by
  suffices h : ∀ (time : Nat) (ws : List (Nat × Write)), ∃ done later, ws = done ++ later ∧
      elapsed done ≤ time ∧ (∀ w ∈ later.head?, time < elapsed done + w.1) ∧
      done.map (·.2) = writtenWithin time ws by
    obtain ⟨done, later, hws, hin, hnext, hwritten⟩ := h timeout p.writes
    exact ⟨done, ⟨hin, later, hws, hnext⟩, hwritten⟩
  intro time ws
  induction ws generalizing time with
  | nil => exact ⟨[], [], rfl, Nat.zero_le _, by simp, rfl⟩
  | cons w ws ih =>
      obtain ⟨pause, w⟩ := w
      rw [writtenWithin]
      split
      next hpause =>
          obtain ⟨done, later, rfl, hin, hnext, hwritten⟩ := ih (time - pause)
          have hcons : elapsed ((pause, w) :: done) = pause + elapsed done := rfl
          refine ⟨(pause, w) :: done, later, rfl, by omega, fun x hx => ?_, by simp [hwritten]⟩
          have := hnext x hx
          omega
      next hpause =>
          refine ⟨[], (pause, w) :: ws, rfl, Nat.zero_le _, ?_, rfl⟩
          rintro x ⟨⟩
          change time < 0 + pause
          omega

theorem Wrote.prefix_le {xs ys : List (Nat × Write)} (hx : p.Wrote timeout xs)
    (hy : p.Wrote timeout ys) (h : xs <+: ys) : xs = ys := by
  obtain ⟨zs, rfl⟩ := h
  obtain ⟨later, hlater, hnext⟩ := hx.next
  obtain ⟨rest, hrest, -⟩ := hy.next
  rw [hlater, List.append_assoc, List.append_cancel_left_eq] at hrest
  subst hrest
  cases zs with
  | nil => rw [List.append_nil]
  | cons z zs =>
      have hz := hnext z rfl
      have hin := hy.inTime
      have hcons : elapsed (z :: zs) = z.1 + elapsed zs := rfl
      rw [elapsed_append, hcons] at hin
      omega

theorem Wrote.unique {xs ys : List (Nat × Write)} (hx : p.Wrote timeout xs)
    (hy : p.Wrote timeout ys) : xs = ys := by
  obtain ⟨later, hlater, -⟩ := hx.next
  obtain ⟨later', hlater', -⟩ := hy.next
  rcases List.prefix_or_prefix_of_prefix ⟨later, hlater.symm⟩ ⟨later', hlater'.symm⟩ with h | h
  · exact hx.prefix_le hy h
  · exact (hy.prefix_le hx h).symm

theorem wrote_writes (h : ¬p.Outlives timeout) : p.Wrote timeout p.writes := by
  have hlasts : ¬timeout < p.lasts := fun hlt => h (.inr hlt)
  have htotal : p.lasts = elapsed p.writes + p.rest := rfl
  exact ⟨by omega, [], (List.append_nil _).symm, by simp⟩

theorem duration_execution_le (p : Process) (timeout : Nat) (group : ProcessGroup) :
    (p.execution (some timeout) group).duration ≤
      timeout + if group = .own then 0 else drainGrace := by
  have hended : (if p.endsWithin (some timeout) = true then p.lasts else timeout) ≤ timeout := by
    split
    next h =>
        have hlasts : ¬timeout < p.lasts := fun hlt => endsWithin_iff.1 h (.inr hlt)
        omega
    next => exact Nat.le_refl _
  simp only [execution, Option.getD_some]
  cases group with
  | own => simpa using hended
  | inherit =>
      simp only [reduceCtorEq, if_false]
      omega

theorem toldBy_execution (p : Process) (timeout : Nat) (group : ProcessGroup) :
    p.ToldBy timeout group (p.execution (some timeout) group) where
  exited code h hp := by simp only [execution, if_pos (endsWithin_iff.2 hp), h, Ending.exitCode?]
  killed number h hp := by simp only [execution, if_pos (endsWithin_iff.2 hp), h, Ending.exitCode?]
  outlasted := by
    by_cases hp : p.Outlives timeout
    · have hends : ¬p.endsWithin (some timeout) = true := fun h => endsWithin_iff.1 h hp
      simp only [execution, if_neg hends, hp]
    · have hhang : p.ending ≠ .hang := fun h => hp (.inl h)
      refine iff_of_false (fun h => hhang ?_) hp
      simp only [execution, if_pos (endsWithin_iff.2 hp)] at h
      cases hending : p.ending with
      | exit code | signal number => rw [hending] at h; cases h
      | hang => rfl
  drained := by
    obtain ⟨done, hdone, hwritten⟩ := p.exists_wrote timeout
    refine ⟨done, hdone, fun hp => hdone.unique (wrote_writes hp), fun ws hws => ?_⟩
    refine ⟨Capture.exists_drained ws, fun d hd => ?_⟩
    rw [hd.buffer_eq, hd.buffer_eq, hws, hws, hwritten]
    exact ⟨rfl, rfl⟩
  prompt := p.duration_execution_le timeout group

end Process

namespace Machine

variable {m : Machine} {files : FileTree} {place : Place} {dir : Location} {program : String}
  {args : List String}

def Listed (m : Machine) (program : String) : Prop :=
  ∃ before rule after, m.rules = before ++ rule :: after ∧ (∀ r ∈ before, r.program ≠ program) ∧
    rule.program = program ∧ rule.executable = true

inductive Available (m : Machine) (files : FileTree) (dir : Location) (program : String) : Prop
  | resident (r) (hr : m.resident? program = some r)
  | path (l content) (hslash : '/' ∈ program.toList) (hl : files.locate dir program = .ok l)
      (hfile : files.find? l = some (.file content)) (hlisted : m.Listed program)
  | name (hslash : '/' ∉ program.toList) (hplain : program ∉ ["", ".", ".."])
      (hshort : byteLength program ≤ 255) (hlisted : m.Listed program)

/-- What the operating system asks for to start a program. No argument can have 128 KiB or more, and
the machine has room for so many in all. -/
structure Startable (m : Machine) (files : FileTree) (place : Place) (program : String)
    (args : List String) : Prop where
  nul : ∀ s ∈ program :: args, '\x00' ∉ s.toList
  available : ∃ dir, place = .ok dir ∧ files.find? dir = some .directory ∧
    m.Available files dir program
  short : ∀ arg ∈ args, byteLength arg < 128 * 1024
  room : argumentSize (program :: args) ≤ m.argumentRoom

inductive Does (m : Machine) (limit : Option Nat) (c : Call) (w : World) : Process → World → Prop
  | resident (r p v) (hr : m.resident? c.program = some r)
      (h : (r.run limit c.args c.dir).run w = (p, v)) : Does m limit c w p v
  | listed (hr : m.resident? c.program = none) :
      Does m limit c w ((m.rule c).process c w.files) w

theorem not_any_hasNul_iff :
    (hasNul program || args.any hasNul) = false ↔ ∀ s ∈ program :: args, '\x00' ∉ s.toList := by
  simp [hasNul_eq_false_iff]

theorem unlisted?_eq_none_iff {missing : SystemError} :
    m.unlisted? program missing = none ↔ m.Listed program := by
  unfold unlisted? Listed
  constructor
  · intro h
    cases hrule : m.rules.find? (·.program = program) with
    | none => rw [hrule] at h; cases h
    | some rule =>
        rw [hrule] at h
        obtain ⟨hname, before, after, hrules, hbefore⟩ := List.find?_eq_some_iff_append.1 hrule
        refine ⟨before, rule, after, hrules, by simpa using hbefore, by simpa using hname, ?_⟩
        simpa using h
  · rintro ⟨before, rule, after, hrules, hbefore, hname, hexecutable⟩
    have hrule : m.rules.find? (·.program = program) = some rule := by
      rw [List.find?_eq_some_iff_append]
      exact ⟨by simpa using hname, before, after, hrules, by simpa using hbefore⟩
    simp [hrule, hexecutable]

theorem read_eq_ok_iff {l : Location} {content : Bytes} :
    files.read l = .ok content ↔ files.find? l = some (.file content) := by
  unfold FileTree.read
  split <;> simp_all

theorem available_of_absence? (h : m.absence? files dir program = none) :
    m.Available files dir program := by
  rw [absence?] at h
  split at h
  next hslash =>
    cases hread : files.locate dir program >>= files.read with
    | error e => rw [hread] at h; cases e <;> cases h
    | ok content =>
        rw [hread] at h
        obtain ⟨l, hl, hcontent⟩ := exists_of_bind_ok hread
        exact .path l content (by simpa using hslash) hl (read_eq_ok_iff.1 hcontent)
          (unlisted?_eq_none_iff.1 h)
  next hslash =>
  split at h
  next => cases h
  next hlong =>
  split at h
  next => cases h
  next hempty =>
  split at h
  next => cases h
  next hdots =>
  exact .name (by simpa using hslash) (by simpa [hempty] using hdots)
    (by simpa [nameTooLong] using hlong) (unlisted?_eq_none_iff.1 h)

theorem Available.absence?_eq_none (hr : m.resident? program = none)
    (h : m.Available files dir program) : m.absence? files dir program = none := by
  cases h with
  | resident r hsome => rw [hr] at hsome; cases hsome
  | path l content hslash hl hfile hlisted =>
      have hread : files.locate dir program >>= files.read = .ok content := by
        rw [hl]
        exact read_eq_ok_iff.2 hfile
      rw [absence?, if_pos (by simpa using hslash), hread]
      exact unlisted?_eq_none_iff.2 hlisted
  | name hslash hplain hshort hlisted =>
      have hlong : nameTooLong program = false := by simpa [nameTooLong] using hshort
      simp only [List.mem_cons, List.not_mem_nil, or_false, not_or] at hplain
      obtain ⟨hempty, hdot, hdots⟩ := hplain
      rw [absence?, if_neg (by simpa using hslash)]
      simp [hlong, hempty, hdot, hdots, unlisted?_eq_none_iff.2 hlisted]

theorem lacksRoom_eq_false_iff {c : Call} :
    m.lacksRoom c = false ↔ (∀ arg ∈ c.args, byteLength arg < 128 * 1024) ∧
      argumentSize (c.program :: c.args) ≤ m.argumentRoom := by
  simp [lacksRoom, argumentTooLong]

theorem refusal?_eq_none_iff :
    m.refusal? files ⟨program, args, dir⟩ = none ↔ m.Available files dir program ∧
      (∀ arg ∈ args, byteLength arg < 128 * 1024) ∧
      argumentSize (program :: args) ≤ m.argumentRoom := by
  rw [← lacksRoom_eq_false_iff (c := ⟨program, args, dir⟩), refusal?]
  cases hr : m.resident? program with
  | some r => simp [Available.resident r hr]
  | none =>
      cases habsence : m.absence? files dir program with
      | some e =>
          have hnot : ¬m.Available files dir program := fun h => by
            cases habsence.symm.trans (h.absence?_eq_none hr)
          simp [hnot]
      | none => simp [available_of_absence? habsence]

theorem does_launch (m : Machine) (limit : Option Nat) (c : Call) (w : World) :
    m.Does limit c w ((m.launch limit c).run w).1 ((m.launch limit c).run w).2 := by
  cases hr : m.resident? c.program with
  | some r =>
      have hlaunch : m.launch limit c = r.run limit c.args c.dir := by simp only [launch, hr]
      rw [hlaunch]
      exact .resident r _ _ hr rfl
  | none =>
      have hlaunch : (m.launch limit c).run w = ((m.rule c).process c w.files, w) := by
        simp only [launch, hr]
        rfl
      rw [hlaunch]
      exact .listed hr

theorem admission_cases (m : Machine) (files : FileTree) (place : Place) (program : String)
    (args : List String) :
    (¬m.Startable files place program args ∧
        ∃ source, m.admission files place program args = .error source) ∨
      m.Startable files place program args ∧ ∃ dir, place = .ok dir ∧
        m.admission files place program args = .ok ⟨program, args, dir⟩ := by
  unfold admission
  cases hnul : hasNul program || args.any hasNul with
  | true =>
      refine .inl ⟨fun h => ?_, _, rfl⟩
      rw [not_any_hasNul_iff.2 h.nul] at hnul
      cases hnul
  | false =>
      rw [if_neg Bool.false_ne_true]
      cases hplace : place.mapError SystemError.inArgument >>= files.directory? with
      | error source =>
          refine .inl ⟨fun h => ?_, source, rfl⟩
          obtain ⟨dir, rfl, hdir, -⟩ := h.available
          cases (FileTree.directory?_eq_ok hdir).symm.trans hplace
      | ok dir =>
          obtain ⟨base, hbase, hdir⟩ := exists_of_bind_ok hplace
          obtain rfl := FileTree.directory?_ok hdir
          obtain rfl := of_mapError_ok hbase
          have hiff := @refusal?_eq_none_iff m files dir program args
          dsimp only [bind, Except.bind]
          cases hrefusal : m.refusal? files ⟨program, args, dir⟩ with
          | some source =>
              refine .inl ⟨fun h => ?_, source, rfl⟩
              obtain ⟨l, hl, -, havailable⟩ := h.available
              cases hl
              cases hrefusal.symm.trans (hiff.2 ⟨havailable, h.short, h.room⟩)
          | none =>
              obtain ⟨havailable, hshort, hroom⟩ := hiff.1 hrefusal
              exact .inr ⟨⟨not_any_hasNul_iff.1 hnul,
                ⟨dir, rfl, FileTree.find?_of_directory? hdir, havailable⟩, hshort, hroom⟩,
                dir, rfl, rfl⟩

/-- A program is started exactly if it can be, and that is put on record; if it cannot, nothing has
happened. -/
theorem run_start_cases (m : Machine) (place : Place) (limit : Option Nat) (group : ProcessGroup)
    (program : String) (args : List String) (w : World) :
    let ran := (m.start place limit group program args).run w
    (¬m.Startable w.files place program args ∧ ∃ source, ran = (.error source, w)) ∨
      m.Startable w.files place program args ∧ ∃ dir p v, place = .ok dir ∧
        ran = (.ok (p.execution limit group), v) ∧
        m.Does limit ⟨program, args, dir⟩ { w with calls := w.calls ++ [⟨program, args, dir⟩] }
          p v := by
  dsimp only
  rw [run_start]
  obtain ⟨hnot, source, hadmission⟩ | ⟨hstartable, dir, hplace, hadmission⟩ :=
    m.admission_cases w.files place program args
  · rw [hadmission]
    exact .inl ⟨hnot, source, rfl⟩
  · rw [hadmission]
    exact .inr ⟨hstartable, dir, _, _, hplace, rfl, m.does_launch limit _ _⟩

theorem run_executeWith_of_rejected {timeout : Nat} {command : List String}
    (h : timeout = 0 ∨ command = []) (group : ProcessGroup) (place : Place) (w : World) :
    ∃ reason,
      (m.executeWith group place timeout command).run w = (.error (.invalidCommand reason), w) := by
  rcases h with rfl | rfl
  · exact ⟨_, rfl⟩
  · by_cases ht : timeout = 0
    · subst ht
      exact ⟨_, rfl⟩
    · rw [executeWith, if_neg ht]
      exact ⟨_, rfl⟩

/-- What a command comes to whose program is started: it is put on record and runs, and the execution
tells of it. -/
inductive Ran (m : Machine) (timeout : Nat) (group : ProcessGroup) (c : Call) (w : World) :
    Execution → World → Prop
  | intro (p e v) (does : m.Does (some timeout) c { w with calls := w.calls ++ [c] } p v)
      (told : p.ToldBy timeout group e) : Ran m timeout group c w e v

theorem run_executeWith_cases (m : Machine) (group : ProcessGroup) (place : Place) {timeout : Nat}
    (ht : 0 < timeout) (program : String) (args : List String) (w : World) :
    let ran := (m.executeWith group place timeout (program :: args)).run w
    (¬m.Startable w.files place program args ∧
        ∃ source, ran = (.error (.spawn program source), w)) ∨
      m.Startable w.files place program args ∧ ∃ dir e v, place = .ok dir ∧ ran = (.ok e, v) ∧
        m.Ran timeout group ⟨program, args, dir⟩ w e v := by
  dsimp only
  rw [executeWith_cons ht, Act.run_mapError]
  obtain ⟨hnot, source, hrun⟩ | ⟨hstartable, dir, p, v, hplace, hrun, hdoes⟩ :=
    m.run_start_cases place (some timeout) group program args w
  · rw [hrun]
    exact .inl ⟨hnot, source, rfl⟩
  · rw [hrun]
    exact .inr ⟨hstartable, dir, _, v, hplace, rfl, .intro p _ v hdoes (p.toldBy_execution _ _)⟩

theorem rejected_executeWith_iff (m : Machine) (group : ProcessGroup) (place : Place)
    (timeout : Nat) (command : List String) (w : World) :
    Rejected ((m.executeWith group place timeout command).run w).1 ↔
      timeout = 0 ∨ command = [] := by
  by_cases h : timeout = 0 ∨ command = []
  · obtain ⟨reason, hran⟩ := run_executeWith_of_rejected (m := m) h group place w
    exact iff_of_true ⟨reason, congrArg Prod.fst hran⟩ h
  · refine iff_of_false ?_ h
    rintro ⟨reason, hreason⟩
    obtain ⟨htimeout, hcommand⟩ := not_or.1 h
    obtain ⟨program, args, rfl⟩ := List.exists_cons_of_ne_nil hcommand
    obtain ⟨-, source, hran⟩ | ⟨-, dir, e, v, -, hran, -⟩ :=
      m.run_executeWith_cases group place (Nat.pos_of_ne_zero htimeout) program args w
    · cases (congrArg Prod.fst hran).symm.trans hreason
    · cases (congrArg Prod.fst hran).symm.trans hreason

end Machine

end CommitMarking
