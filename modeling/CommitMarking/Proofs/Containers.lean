import CommitMarking.Proofs.Confinement
import CommitMarking.Proofs.Course

namespace CommitMarking

namespace FileTree

variable {t u : FileTree} {dir l : Location}

def Free (t : FileTree) (dir : Location) : Prop := t.remove dir = t

theorem lookup_remove (t : FileTree) (dir l : Location) :
    (t.remove dir).entries.lookup l =
      if dir.isPrefixOf l then none else t.entries.lookup l := by
  rcases t with ⟨entries⟩
  rw [remove]
  induction entries with
  | nil => simp
  | cons e es ih =>
      rcases e with ⟨k, n⟩
      rw [List.filter_cons, lookup_cons]
      by_cases hl : l = k
      · subst hl
        cases hp : dir.isPrefixOf l with
        | false => simp
        | true => simpa [hp] using ih
      · rw [if_neg hl]
        split
        · rw [lookup_cons, if_neg hl, ih]
        · exact ih

theorem find?_remove (h : ¬dir <+: l) (t : FileTree) : (t.remove dir).find? l = t.find? l := by
  rw [find?, find?, lookup_remove, if_neg fun hp => h (List.isPrefixOf_iff_prefix.1 hp)]

theorem find?_eq_of_remove_eq (h : u.remove dir = t.remove dir) (hl : ¬dir <+: l) :
    u.find? l = t.find? l := by
  rw [← find?_remove hl u, h, find?_remove hl t]

theorem Free.lookup_eq_none (h : t.Free dir) (hl : dir <+: l) : t.entries.lookup l = none := by
  rw [← h, lookup_remove, if_pos (List.isPrefixOf_iff_prefix.2 hl)]

theorem find?_put_self (t : FileTree) (dir : Location) :
    (t.put dir .directory).find? dir = some .directory := by
  rw [find?, put, lookup_putEntry, if_pos rfl, ite_self]

theorem Free.find?_put_below (h : t.Free dir) (n : Node) {steps : List String} (hne : steps ≠ []) :
    (t.put dir n).find? (dir ++ steps) = none := by
  rw [find?, put, lookup_putEntry, if_neg (by simp [hne]), if_neg (by simpa using hne),
    h.lookup_eq_none (List.prefix_append _ _)]

theorem Free.put_remove (h : t.Free dir) (n : Node) : (t.put dir n).remove dir = t := by
  rw [remove_put (List.prefix_refl dir), h]

end FileTree

/-- A container at work: its directory, what its generator has been asked so far, and all files as
that has left them. -/
structure Live where
  dir : Location
  asked : List Event
  made : FileTree

/-- All files, and the containers at work, innermost first. -/
structure Grounds where
  files : FileTree
  live : List Live

def Location.Apart (l m : Location) : Prop := ¬l <+: m ∧ ¬m <+: l

def Event.Prepares (dir : Location) (steps : List String) : Event → Prop
  | .asked _ l before _ after =>
      l = dir ∧ after.files.find? (dir ++ steps) ≠ before.files.find? (dir ++ steps)
  | _ => False

/-- There is a directory, with nothing in it but what a generator has put there. -/
structure Live.Ready (c : Live) : Prop where
  directory : c.made.find? c.dir = some .directory
  nothing : ∀ steps, steps ≠ [] →
    c.made.find? (c.dir ++ steps) = none ∨ ∃ ev ∈ c.asked, ev.Prepares c.dir steps

/-- An event fits in with the containers at work. A directory is opened where nothing is, apart from
those of all others. What is done for a container is done in its directory, while no other is at
work inside of it. Its task is started with what its generator has left, before anything else is
written. -/
inductive Event.Fits : Event → Grounds → Grounds → Prop
  | opened {dir : Location} {files : FileTree} {live : List Live} (free : files.Free dir)
      (apart : ∀ c ∈ live, Location.Apart dir c.dir) :
      Fits (.opened dir (files.put dir .directory)) ⟨files, live⟩
        ⟨files.put dir .directory, ⟨dir, [], files.put dir .directory⟩ :: live⟩
  | asked {name : String} {dir : Location} {before after : World} {result : Except MarkError Unit}
      {asked : List Event} {live : List Live}
      (within : after.files.around dir = before.files.around dir) :
      Fits (.asked name dir before result after) ⟨before.files, ⟨dir, asked, before.files⟩ :: live⟩
        ⟨after.files, ⟨dir, asked ++ [.asked name dir before result after], after.files⟩ :: live⟩
  | started {c : Live} {live : List Live} (ready : c.Ready) :
      Fits (.started c.dir c.made) ⟨c.made, c :: live⟩ ⟨c.made, c :: live⟩
  | leaf {k : Kind} {name : String} {before after : World}
      {result : Except MarkError (Evaluation k)} {live : List Live}
      (idle : after.files = before.files) :
      Fits (.applied name none before result after) ⟨before.files, live⟩ ⟨after.files, live⟩
  | ran {k : Kind} {name : String} {before after : World} {result : Except MarkError (Evaluation k)}
      {c : Live} {live : List Live}
      (within : after.files.around c.dir = before.files.around c.dir) :
      Fits (.applied name (some c.dir) before result after) ⟨before.files, c :: live⟩
        ⟨after.files, c :: live⟩
  | measured {commit : Commit} {s : Grounds} : Fits (.measured commit) s s
  | looked {k : Kind} {name : String} {result : Except MarkError k.Carrier} {s : Grounds} :
      Fits (.looked k name result) s s
  | computed {k : Kind} {result : Except MarkError k.Carrier} {s : Grounds} :
      Fits (.computed result) s s
  | closed {c : Live} {files : FileTree} {live : List Live} :
      Fits (.closed c.dir) ⟨files, c :: live⟩ ⟨files.remove c.dir, live⟩

theorem Along.preserves {σ : Type} {step : Event → σ → σ → Prop} {p : σ → Prop} {s t : σ}
    {xs : List Event} (h : Along step s xs t) (hstep : ∀ ev s t, step ev s t → p s → p t)
    (hs : p s) : p t := by
  induction h with
  | nil => exact hs
  | cons first _ ih => exact ih (hstep _ _ _ first hs)

namespace Grounds

def clear : List Live → FileTree → FileTree
  | [], t => t
  | c :: live, t => clear live (t.remove c.dir)

theorem clear_eq_of_fits {ev : Event} {s t : Grounds} (h : ev.Fits s t) :
    clear t.live t.files = clear s.live s.files := by
  cases h with
  | @opened _ _ live free _ => exact congrArg (clear live) (free.put_remove .directory)
  | @asked _ _ _ _ _ _ live within => exact congrArg (clear live) (Prod.ext_iff.1 within).1
  | @ran _ _ _ _ _ _ live within => exact congrArg (clear live) (Prod.ext_iff.1 within).1
  | @leaf _ _ _ _ _ live idle => exact congrArg (clear live) idle
  | started | measured | looked | computed | closed => rfl

structure Sound (s : Grounds) : Prop where
  apart : s.live.Pairwise fun c d => Location.Apart c.dir d.dir
  stands : ∀ c ∈ s.live, s.files.find? c.dir = some .directory
  ready : ∀ c ∈ s.live, c.Ready

/-- A change below the innermost directory leaves all directories where they are. -/
theorem Sound.stands_within {files files' : FileTree} {c d : Live} {live : List Live}
    (h : Sound ⟨files, c :: live⟩) (hw : files'.around c.dir = files.around c.dir)
    (hd : d ∈ c :: live) : files'.find? d.dir = some .directory := by
  obtain ⟨hremove, hfind⟩ := Prod.ext_iff.1 hw
  have hstands := h.stands d hd
  rcases List.mem_cons.1 hd with rfl | hd
  · exact hfind.trans hstands
  · rwa [FileTree.find?_eq_of_remove_eq hremove ((List.pairwise_cons.1 h.apart).1 d hd).1]

end Grounds

theorem Live.Ready.ask {name : String} {dir : Location} {before after : World}
    {result : Except MarkError Unit} {asked : List Event}
    (h : Live.Ready ⟨dir, asked, before.files⟩)
    (hw : after.files.around dir = before.files.around dir) :
    Live.Ready ⟨dir, asked ++ [.asked name dir before result after], after.files⟩ := by
  refine ⟨(Prod.ext_iff.1 hw).2.trans h.directory, fun steps hne => ?_⟩
  by_cases hchange : after.files.find? (dir ++ steps) = before.files.find? (dir ++ steps)
  · refine (h.nothing steps hne).imp hchange.trans fun ⟨ev, hev, hp⟩ => ⟨ev, ?_, hp⟩
    exact List.mem_append_left _ hev
  · exact .inr ⟨_, List.mem_append_right _ (List.mem_singleton_self _), rfl, hchange⟩

theorem Grounds.Sound.of_fits {ev : Event} {s t : Grounds} (h : ev.Fits s t) (hs : s.Sound) :
    t.Sound := by
  cases h with
  | @opened dir files live free apart =>
      have hdir : (files.put dir .directory).find? dir = some .directory :=
        FileTree.find?_put_self files dir
      refine ⟨List.pairwise_cons.2 ⟨apart, hs.apart⟩, List.forall_mem_cons.2 ⟨hdir, fun c hc => ?_⟩,
        List.forall_mem_cons.2 ⟨⟨hdir, fun steps hne => .inl ?_⟩, hs.ready⟩⟩
      · have hremove : (files.put dir .directory).remove dir = files.remove dir :=
          FileTree.remove_put (List.prefix_refl dir) _ _
        rw [FileTree.find?_eq_of_remove_eq hremove (apart c hc).1]
        exact hs.stands c hc
      · exact free.find?_put_below .directory hne
  | @asked name dir before after result asked live within =>
      obtain ⟨htop, hrest⟩ := List.forall_mem_cons.1 hs.ready
      obtain ⟨hdir, hdirs⟩ := List.forall_mem_cons.1 fun d hd => hs.stands_within within (d := d) hd
      exact ⟨List.pairwise_cons.2 (List.pairwise_cons.1 hs.apart),
        List.forall_mem_cons.2 ⟨hdir, hdirs⟩, List.forall_mem_cons.2 ⟨htop.ask within, hrest⟩⟩
  | ran within => exact ⟨hs.apart, fun d hd => hs.stands_within within hd, hs.ready⟩
  | leaf idle => exact idle ▸ hs
  | started | measured | looked | computed => exact hs
  | @closed c files live =>
      obtain ⟨happart, hrest⟩ := List.pairwise_cons.1 hs.apart
      refine ⟨hrest, fun d hd => ?_, (List.forall_mem_cons.1 hs.ready).2⟩
      rw [FileTree.find?_remove (happart d hd).1]
      exact hs.stands d (List.mem_cons_of_mem _ hd)

section Discipline

variable {α β : Type} {w : World} {xs : List Event} {act : Act MarkError α} {live : List Live}

theorem Along.sound {s t : Grounds} (h : Along Event.Fits s xs t) (hs : s.Sound) : t.Sound :=
  h.preserves (fun _ _ _ => Grounds.Sound.of_fits) hs

theorem Along.bind {next : α → Act MarkError β} {ys : α → World → List Event}
    (hs : Grounds.Sound ⟨w.files, live⟩)
    (h : Along Event.Fits ⟨w.files, live⟩ xs ⟨(act.run w).2.files, live⟩)
    (hn : ∀ a u, Grounds.Sound ⟨u.files, live⟩ →
      Along Event.Fits ⟨u.files, live⟩ (ys a u) ⟨((next a).run u).2.files, live⟩) :
    Along Event.Fits ⟨w.files, live⟩ (xs ++ act.onward w ys)
      ⟨((act >>= next).run w).2.files, live⟩ := by
  have hsound := h.sound hs
  rw [Act.run_bind, Act.onward]
  rcases hr : act.run w with ⟨e | a, u⟩ <;> rw [hr] at h hsound
  · rwa [List.append_nil]
  · exact h.append (hn a u hsound)

theorem Along.map {f : α → β}
    (h : Along Event.Fits ⟨w.files, live⟩ xs ⟨(act.run w).2.files, live⟩) :
    Along Event.Fits ⟨w.files, live⟩ xs
      ⟨((act >>= fun a => pure (f a)).run w).2.files, live⟩ := by
  rw [Act.run_bind]
  rcases hr : act.run w with ⟨e | a, u⟩ <;> rwa [hr] at h

end Discipline

def Scratch.Holds (s : Scratch) (live : List Live) : Prop :=
  ∀ c ∈ live, ∃ name, c.dir = s.parent ++ [name]

namespace Scratch

variable {s : Scratch} {w : World} {live : List Live}

theorem directory_free (s : Scratch) (w : World) : w.files.Free (s.directory w) :=
  FileTree.remove_of_not_mem_names (s.name_not_mem_names w)

theorem Holds.cons (h : s.Holds live) (w : World) (asked : List Event) (u : FileTree) :
    s.Holds (⟨s.directory w, asked, u⟩ :: live) :=
  List.forall_mem_cons.2 ⟨⟨_, rfl⟩, h⟩

theorem Holds.apart (h : s.Holds live) (hs : Grounds.Sound ⟨w.files, live⟩) :
    ∀ c ∈ live, Location.Apart (s.directory w) c.dir := by
  intro c hc
  obtain ⟨name, hname⟩ := h c hc
  -- nothing stands below a new directory, but those of the containers at work do stand
  have hout : ¬s.directory w <+: c.dir := by
    intro hpre
    have hstands : w.files.find? c.dir = some .directory := hs.stands c hc
    rw [FileTree.find?, if_neg (by simp [hname]),
      (s.directory_free w).lookup_eq_none hpre] at hstands
    cases hstands
  refine ⟨hout, fun hpre => hout ?_⟩
  have hlen : c.dir.length = (s.directory w).length := by simp [hname, directory]
  exact (hpre.eq_of_length hlen).symm ▸ List.prefix_refl _

end Scratch

variable {m : Machine} (commit : Commit)

theorem Generator.preparation_fits (dir : Location) (live : List Live) : {k : Kind} →
    (g : Generator k) → g.Confined m → (asked : List Event) → (w : World) →
    Along Event.Fits ⟨w.files, ⟨dir, asked, w.files⟩ :: live⟩ (g.preparation m dir w)
      ⟨((g.prepare m dir).run w).2.files,
        ⟨dir, asked ++ g.preparation m dir w, ((g.prepare m dir).run w).2.files⟩ :: live⟩
  | _, .task _ _, _, _, _ => .single (.asked rfl)
  | _, .refuse _ _, _, _, _ => .single (.asked rfl)
  | _, .runner _, h, _, w => .single (.asked (h.prepare_leaves dir w))
  | _, .andAll lhs rhs, h, asked, w => by
      have hl := lhs.preparation_fits dir live h.1 asked w
      rw [prepare, preparation, Act.run_bind, Act.onward]
      rcases hr : (lhs.prepare m dir).run w with ⟨e | _, u⟩ <;> rw [hr] at hl
      · rwa [List.append_nil]
      · rw [← List.append_assoc]
        exact hl.append (rhs.preparation_fits dir live h.2 _ u)

mutual

theorem Expr.course_fits (hm : m.Confined) : {k : Kind} → (e : Expr k) → e.Confined m →
    (scope : Scope) → (w : World) → {live : List Live} → m.scratch.Holds live →
    Grounds.Sound ⟨w.files, live⟩ →
    Along Event.Fits ⟨w.files, live⟩ (e.course m commit scope w)
      ⟨((e.apply m commit scope).run w).2.files, live⟩
  | _, .int _, _, _, w, live, _, _ => by
      rw [Expr.apply, Expr.course]
      exact .single .computed
  | _, .first, _, _, w, live, _, _ => by
      rw [Expr.apply, Expr.course]
      exact .single .computed
  | _, .size, _, _, w, live, _, _ => by
      rw [Expr.apply, Expr.course]
      exact .single .measured
  | _, .var k name, _, scope, w, live, _, _ => by
      rw [Expr.apply, Expr.course]
      refine .map ?_
      rw [Act.run_lift]
      exact .single .looked
  | _, .leaf name ending, _, _, w, live, _, _ => by
      rw [Expr.apply, Expr.course, Act.run_leaf]
      exact .single (.leaf rfl)
  | _, .div lhs rhs, h, scope, w, live, hl, hs => by
      rw [Expr.apply, Expr.course]
      refine .bind hs (lhs.course_fits hm h.1 scope w hl hs) fun l u hu => ?_
      refine .bind hu (rhs.course_fits hm h.2 scope u hl hu) fun r v _ => ?_
      rw [Act.run_lift]
      exact .single .computed
  | _, .compare op lhs rhs, h, scope, w, live, hl, hs => by
      rw [Expr.apply, Expr.course]
      refine .bind hs (lhs.course_fits hm h.1 scope w hl hs) fun l u hu => ?_
      exact .bind hu (rhs.course_fits hm h.2 scope u hl hu) fun r v _ =>
        .single .computed
  | _, .abs inner, h, scope, w, live, hl, hs => by
      rw [Expr.apply, Expr.course]
      refine .bind hs (inner.course_fits hm h scope w hl hs) fun e u _ => ?_
      rw [Act.run_lift]
      exact .single .computed
  | _, .and lhs rhs, h, scope, w, live, hl, hs => by
      rw [Expr.apply, Expr.course, Act.conjoin]
      refine .bind hs (lhs.course_fits hm h.1 scope w hl hs) fun l u hu => ?_
      cases l.value with
      | false => exact .nil _
      | true => exact .map (rhs.course_fits hm h.2 scope u hl hu)
  | _, .letIn name init body, h, scope, w, live, hl, hs => by
      rw [Expr.apply, Expr.course]
      refine .bind hs (init.course_fits hm h.1 scope w hl hs) fun i u hu => ?_
      exact .map (body.course_fits hm h.2 _ u hl hu)
  | _, .cond condition yes no, h, scope, w, live, hl, hs => by
      rw [Expr.apply, Expr.course]
      refine .bind hs (condition.course_fits hm h.1 scope w hl hs) fun c u hu => ?_
      cases c.value with
      | true => exact .map (yes.course_fits hm h.2.1 scope u hl hu)
      | false => exact .map (no.course_fits hm h.2.2 scope u hl hu)
  | _, .container g, h, scope, w, live, hl, hs => by
      rw [Expr.apply, Expr.course, World.run_inScratch]
      let dir := m.scratch.directory w
      let u : World := m.scratch.opened w
      have hopen : Event.Fits (.opened dir u.files) ⟨w.files, live⟩
          ⟨u.files, ⟨dir, [], u.files⟩ :: live⟩ :=
        .opened (m.scratch.directory_free _) (hl.apart hs)
      -- what the generator leaves is what its task is started with, if all parts can make one
      have hprep := g.preparation_fits dir live h [] u
      have hmade := hprep.sound (.of_fits hopen hs)
      have hrun : Along Event.Fits ⟨u.files, ⟨dir, [], u.files⟩ :: live⟩
          (g.preparation m dir u ++ (g.prepare m dir).onward u fun _ v =>
            .started dir v.files :: g.course m commit scope dir v)
          ⟨((do g.prepare m dir; g.apply m commit scope dir).run u).2.files,
            ⟨dir, g.preparation m dir u, ((g.prepare m dir).run u).2.files⟩ :: live⟩ := by
        rw [Act.run_bind, Act.onward]
        rcases hp : (g.prepare m dir).run u with ⟨e | _, v⟩ <;> rw [hp] at hprep hmade
        · rwa [List.append_nil]
        · have hready := hmade.ready _ (List.mem_cons_self ..)
          refine hprep.append (.cons (.started hready) ?_)
          exact g.course_fits hm h scope v (hl.cons _ _ _) hmade
      exact .cons hopen (hrun.append (.single (.closed (c := ⟨dir, _, _⟩))))

theorem Generator.course_fits (hm : m.Confined) : {k : Kind} → (g : Generator k) → g.Confined m →
    (scope : Scope) → (w : World) → {c : Live} → {live : List Live} →
    m.scratch.Holds (c :: live) → Grounds.Sound ⟨w.files, c :: live⟩ →
    Along Event.Fits ⟨w.files, c :: live⟩ (g.course m commit scope c.dir w)
      ⟨((g.apply m commit scope c.dir).run w).2.files, c :: live⟩
  | _, .task _ expr, h, scope, w, c, live, hl, hs => by
      rw [Generator.apply, Generator.course]
      exact expr.course_fits hm h scope w hl hs
  | _, .refuse _ _, _, _, w, _, _, _, _ => by
      rw [Generator.apply, Generator.course]
      exact .nil _
  | _, .runner r, h, _, w, c, _, _, _ => by
      rw [Generator.apply, Generator.course]
      exact .single (.ran (h.run_leaves hm commit c.dir w))
  | _, .andAll lhs rhs, h, scope, w, c, live, hl, hs => by
      rw [Generator.apply, Generator.course, Act.conjoin]
      refine .bind hs (lhs.course_fits hm h.1 scope w hl hs) fun l u hu => ?_
      cases l.value with
      | false => exact .nil _
      | true => exact .map (rhs.course_fits hm h.2 scope u hl hu)

end

theorem Expr.started_mem_course {k : Kind} {g : Generator k} {dir : Location} {w : World}
    (scope : Scope) (hdir : m.scratch.directory w = dir)
    (h : ((g.prepare m dir).run (m.scratch.opened w)).1.isOk = true) :
    .started dir ((g.prepare m dir).run (m.scratch.opened w)).2.files ∈
      (Expr.container g).course m commit scope w := by
  subst hdir
  rw [Expr.course, Act.onward]
  rcases hr : (g.prepare m _).run _ with ⟨e | _, v⟩
  · rw [hr] at h
    cases h
  · simp

/-- Containers are private and are always released. Each is opened in a new directory, apart from
those of all containers at work; all that its generator makes is done in this directory and writes
nowhere else; its task is started there with nothing in it but what the generator has put there.
However the evaluation ends, all files are as they were before it. -/
theorem Expr.containers_released {m : Machine} (hm : m.Confined) (commit : Commit) {k : Kind}
    (e : Expr k) (he : e.Confined m) (scope : Scope) (w : World) :
    let run := (e.apply m commit scope).run w
    let course := e.course m commit scope w
    run.2.files = w.files ∧ Chained w course run.2 ∧
      Along Event.Fits ⟨w.files, []⟩ course ⟨run.2.files, []⟩ := by
  intro run course
  have hfits : Along Event.Fits ⟨w.files, []⟩ course ⟨run.2.files, []⟩ :=
    e.course_fits commit hm he scope w (by simp [Scratch.Holds]) ⟨.nil, by simp, by simp⟩
  have hclear := hfits.preserves (p := fun s => Grounds.clear s.live s.files = w.files)
    (fun _ _ _ hev hs => (Grounds.clear_eq_of_fits hev).trans hs) rfl
  exact ⟨hclear, (e.course_follows m commit scope w).chained, hfits⟩

/-- The third container fails while the second is at work, and a file of somebody else has the name
that would be the first to try. -/
theorem Expr.containers_released_nested :
    let failing : Expr .bool :=
      .container (.andAll (.runner (.touch "c" "file")) (.refuse "none" (.io .notFound)))
    let e : Expr .int :=
      .cond (.container (.runner (.touch "a" "file")))
        (.cond (.container (.andAll (.runner (.touch "b" "file")) (.task "t" failing)))
          (.int 1) (.int 2))
        (.int 0)
    let commit : Commit := ⟨"c", "", none, none, []⟩
    let w : World := .fresh ⟨[(["tmp"], .directory), (["tmp", "gitmark-00"], .file [1])]⟩
    Machine.bare.Confined ∧ e.Confined .bare ∧
      failureOf? ((e.apply .bare commit .empty).run w).1 = some (.io .notFound) ∧
      ((e.apply .bare commit .empty).run w).2.files = w.files := by
  intro failing e commit w
  have hm : Machine.bare.Confined := fun r hr => by cases hr
  have htouch (name : String) : (Runner.touch name "file").Confined .bare :=
    Runner.touch_confined .bare name (by decide)
  have he : e.Confined .bare :=
    ⟨htouch "a", ⟨⟨htouch "b", htouch "c", trivial⟩, trivial, trivial⟩, trivial⟩
  exact ⟨hm, he, by decide +kernel, (e.containers_released hm commit he .empty w).1⟩

/-- The directory that a task is started in need not be empty: a generator may write there before its
task is started, and of two tasks for one directory the first may write there before the second. -/
theorem Expr.containers_not_empty :
    let dir : Location := ["tmp", "gitmark-00"]
    let mark : Act MarkError Unit := Act.mapError .io (Act.onFiles (·.place dir "file" []))
    let early : Runner .bool := { Runner.touch "early" "file" with prepare := fun _ _ => mark }
    let e : Expr .bool := .container (.runner early)
    let both : Expr .bool :=
      .container (.andAll (.runner (.touch "a" "file")) (.runner (.touch "b" "file")))
    let commit : Commit := ⟨"c", "", none, none, []⟩
    let w : World := .fresh ⟨[(["tmp"], .directory)]⟩
    (∃ files, .started dir files ∈ e.course .bare commit .empty w ∧
      files.find? (dir ++ ["file"]) = some (.file [])) ∧
      (((both.apply .bare commit .empty).run w).1.map (·.value)).toOption = some false := by
  intro dir mark early e both commit w
  have hdir : Machine.bare.scratch.directory w = dir := by decide +kernel
  have hstarted := Expr.started_mem_course (g := .runner early) commit .empty hdir (by decide +kernel)
  exact ⟨⟨_, hstarted, by decide +kernel⟩, by decide +kernel⟩

end CommitMarking
