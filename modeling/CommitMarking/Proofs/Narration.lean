import CommitMarking.Compiler
import CommitMarking.Proofs.Course
import CommitMarking.Proofs.Text.Joining
import CommitMarking.Proofs.Text.Rows
import CommitMarking.Scheme
import CommitMarking.Testing

namespace CommitMarking

open Text

def Evaluation.stated {k : Kind} (width : Nat) (a : Evaluation k) : k.Carrier × List String :=
  (a.value, filledLines (a.account.summary width))

def question (name : String) (value : Bool) : String :=
  name ++ "? " ++ if value then "Yes." else "No."

namespace Act

def conjoinLines (lname rname : String) (lhs rhs : Act MarkError (Bool × List String)) :
    Act MarkError (Bool × List String) := do
  let (l, before) ← lhs
  match l with
  | false => return (false, before ++ [question lname false])
  | true =>
      let (r, after) ← rhs
      return (r, before ++ [question lname true] ++ (after ++ [question rname r]))

end Act

mutual

/-- Evaluates an expression and tells in one list of lines what is to be said about it, in the order
in which things happen. The operands of a comparison or a division are left out, and so is the
initial value of a binding. -/
def Expr.narrate (m : Machine) (commit : Commit) (width : Nat) :
    {k : Kind} → Expr k → Scope → Act MarkError (k.Carrier × List String)
  | _, .int n, _ => return (n, ["= " ++ Decimal.ofInt n.toInt ++ " mark(s)."])
  | _, .size, _ =>
      let size := commit.changedSize
      return (size, ["Commit size: " ++ Decimal.ofInt size.toInt ++ " bytes"])
  | _, .div lhs rhs, scope => do
      let (l, _) ← lhs.narrate m commit width scope
      let (r, _) ← rhs.narrate m commit width scope
      let task := (Expr.div lhs rhs).name
      let value ← Act.lift (divide task l r)
      return (value, [task ++ " = " ++ Decimal.ofInt value.toInt])
  | _, .abs inner, scope => do
      let (a, lines) ← inner.narrate m commit width scope
      let value ← Act.lift (absolute (Expr.abs inner).name a)
      return (value, lines ++ ["abs(...) = " ++ Decimal.ofInt value.toInt])
  | _, .first, _ => return (commit.isFirst, [])
  | _, .compare op lhs rhs, scope => do
      let (l, _) ← lhs.narrate m commit width scope
      let (r, _) ← rhs.narrate m commit width scope
      return (op.holds l r, [op.text (Decimal.ofInt l.toInt) (Decimal.ofInt r.toInt)])
  | _, .and lhs rhs, scope =>
      Act.conjoinLines lhs.name rhs.name (lhs.narrate m commit width scope) (rhs.narrate m commit width scope)
  | _, .var k name, scope => do
      let value ← Act.lift (scope.get k name)
      return (value, [name].filter (· ≠ ""))
  | _, .letIn name init body, scope => do
      let (i, _) ← init.narrate m commit width scope
      let (b, lines) ← body.narrate m commit width (scope.bind name (.of _ i))
      return (b, (name ++ " = " ++ (Value.of _ i).text ++ " in") :: lines)
  | _, .cond condition yes no, scope => do
      let (c, before) ← condition.narrate m commit width scope
      let (value, after) ← match c with
        | true => yes.narrate m commit width scope
        | false => no.narrate m commit width scope
      return (value, before ++ [question condition.name c] ++ after)
  | _, .leaf name ending, _ => Evaluation.stated width <$> Act.leaf name ending
  | _, .container g, scope =>
      World.inScratch m.scratch fun dir => do
        g.prepare m dir
        g.narrate m commit width scope dir

def Generator.narrate (m : Machine) (commit : Commit) (width : Nat) :
    {k : Kind} → Generator k → Scope → Location → Act MarkError (k.Carrier × List String)
  | _, .task _ expr, scope, _ => expr.narrate m commit width scope
  | _, .refuse _ error, _, _ => throw error
  | _, .runner r, _, dir => Evaluation.stated width <$> r.run m commit dir
  | _, .andAll lhs rhs, scope, dir =>
      Act.conjoinLines lhs.taskName rhs.taskName (lhs.narrate m commit width scope dir)
        (rhs.narrate m commit width scope dir)

end

mutual

def Expr.labels : {k : Kind} → Expr k → List String
  | _, .int _ | _, .size | _, .first => []
  | _, .div lhs rhs | _, .compare _ lhs rhs => lhs.labels ++ rhs.labels
  | _, .and lhs rhs => lhs.labels ++ rhs.labels
  | _, .abs inner => inner.labels
  | _, .var _ name => [name]
  | _, .letIn name init body => name :: (init.labels ++ body.labels)
  | _, .cond condition yes no => condition.labels ++ (yes.labels ++ no.labels)
  | _, .leaf name _ => [name]
  | _, .container g => g.labels

def Generator.labels : {k : Kind} → Generator k → List String
  | _, .task name expr => name :: expr.labels
  | _, .refuse name _ => [name]
  | _, .runner r => [r.name]
  | _, .andAll lhs rhs => lhs.labels ++ rhs.labels

end

def OneLiners (names : List String) : Prop := ∀ name ∈ names, '\n' ∉ name.toList

instance (names : List String) : Decidable (OneLiners names) :=
  inferInstanceAs (Decidable (∀ name ∈ names, '\n' ∉ name.toList))

def Event.Flat (width : Nat) : Event → Prop
  | applied _ _ _ (.ok a) _ => Text.Flat (a.account.summary width)
  | _ => True

instance (width : Nat) : DecidablePred (Event.Flat width)
  | .applied _ _ _ (.ok a) _ => inferInstanceAs (Decidable (Text.Flat (a.account.summary width)))
  | .applied _ _ _ (.error _) _ | .opened _ _ | .asked _ _ _ _ _ | .started _ _ | .measured _
  | .looked _ _ _ | .computed _ | .closed _ => isTrue trivial

namespace OneLiners

variable {xs ys : List String} {name : String}

theorem left (h : OneLiners (xs ++ ys)) : OneLiners xs :=
  fun x hx => h x (List.mem_append_left ys hx)

theorem right (h : OneLiners (xs ++ ys)) : OneLiners ys :=
  fun y hy => h y (List.mem_append_right xs hy)

theorem head (h : OneLiners (name :: xs)) : '\n' ∉ name.toList := h name List.mem_cons_self

theorem tail (h : OneLiners (name :: xs)) : OneLiners xs :=
  fun x hx => h x (List.mem_cons_of_mem name hx)

end OneLiners

section Names

theorem newline_not_mem_ofInt (n : Int) : '\n' ∉ (Decimal.ofInt n).toList :=
  Decimal.not_mem_ofInt rfl (by decide) n

theorem newline_not_mem_joinAnd {lname rname : String} (hl : '\n' ∉ lname.toList)
    (hr : '\n' ∉ rname.toList) : '\n' ∉ (joinAnd lname rname).toList := by
  simp [joinAnd, hl, hr]

theorem Comparison.newline_not_mem_text (op : Comparison) {lhs rhs : String}
    (hl : '\n' ∉ lhs.toList) (hr : '\n' ∉ rhs.toList) : '\n' ∉ (op.text lhs rhs).toList := by
  cases op <;> simp [text, symbol, hl, hr]

theorem Generator.newline_not_mem_name : {k : Kind} → (g : Generator k) → OneLiners g.labels →
    '\n' ∉ g.name.toList
  | _, .task _ _, h | _, .refuse _ _, h | _, .runner _, h => h.head
  | _, .andAll lhs rhs, h =>
      newline_not_mem_joinAnd (lhs.newline_not_mem_name h.left) (rhs.newline_not_mem_name h.right)

theorem Expr.newline_not_mem_name : {k : Kind} → (e : Expr k) → OneLiners e.labels →
    '\n' ∉ e.name.toList
  | _, .int n, _ => newline_not_mem_ofInt n.toInt
  | _, .size, _ | _, .first, _ => by simp [Expr.name]
  | _, .var _ _, h | _, .leaf _ _, h => h.head
  | _, .div lhs rhs, h => by
      simp [Expr.name, lhs.newline_not_mem_name h.left, rhs.newline_not_mem_name h.right]
  | _, .abs inner, h => by simp [Expr.name, inner.newline_not_mem_name h]
  | _, .compare op lhs rhs, h =>
      op.newline_not_mem_text (lhs.newline_not_mem_name h.left) (rhs.newline_not_mem_name h.right)
  | _, .and lhs rhs, h =>
      newline_not_mem_joinAnd (lhs.newline_not_mem_name h.left) (rhs.newline_not_mem_name h.right)
  | _, .letIn name init body, h => by
      simp [Expr.name, h.head, init.newline_not_mem_name h.tail.left,
        body.newline_not_mem_name h.tail.right]
  | _, .cond condition _ _, h => by simp [Expr.name, condition.newline_not_mem_name h.left]
  | _, .container g, h => g.newline_not_mem_name h

theorem Generator.newline_not_mem_taskName : {k : Kind} → (g : Generator k) → OneLiners g.labels →
    '\n' ∉ g.taskName.toList
  | _, .task _ expr, h => expr.newline_not_mem_name h.tail
  | _, .refuse _ _, h | _, .runner _, h => h.head
  | _, .andAll lhs rhs, h =>
      newline_not_mem_joinAnd (lhs.newline_not_mem_taskName h.left)
        (rhs.newline_not_mem_taskName h.right)

theorem Value.newline_not_mem_text (value : Value) : '\n' ∉ value.text.toList := by
  rcases value with n | _ | _
  · exact newline_not_mem_ofInt n.toInt
  · decide
  · decide

end Names

namespace Account

structure Says (width : Nat) (a : Account) (lines : List String) : Prop where
  flat : Text.Flat (a.summary width)
  filledLines_eq : filledLines (a.summary width) = lines

namespace Says

variable {width : Nat} {a b : Account} {xs ys : List String} {text name : String}

theorem of_flat (h : Text.Flat (a.summary width)) :
    a.Says width (filledLines (a.summary width)) := ⟨h, rfl⟩

theorem quiet (a : Account) : (Account.quiet a).Says width [] := ⟨flat_empty, rfl⟩

theorem nothing : Account.nothing.Says width [] := ⟨flat_empty, rfl⟩

theorem leaf (hne : text ≠ "") (h : '\n' ∉ text.toList) (provenance : Nat → String) :
    (Account.leaf (fun _ => text) provenance).Says width [text] :=
  ⟨flat_of_not_mem h, filledLines_of_not_mem hne h⟩

theorem line (hne : text ≠ "") (h : '\n' ∉ text.toList) : (Account.line text).Says width [text] :=
  leaf hne h _

theorem label (h : '\n' ∉ name.toList) :
    (Account.line name).Says width ([name].filter (· ≠ "")) := by
  by_cases hne : name = ""
  · subst hne
    exact nothing
  · have hfilter : [name].filter (· ≠ "") = [name] := by simp [hne]
    rw [hfilter]
    exact line hne h

theorem append (ha : a.Says width xs) (hb : b.Says width ys) :
    (a ++ b).Says width (xs ++ ys) where
  flat := ha.flat.joinLines hb.flat
  filledLines_eq := by
    rw [← ha.filledLines_eq, ← hb.filledLines_eq, ← filledLines_joinLines]
    rfl

theorem operation (hne : text ≠ "") (h : '\n' ∉ text.toList) (lhs rhs : Account) :
    (Account.operation text lhs rhs).Says width [text] :=
  ((quiet lhs).append (quiet rhs)).append (line hne h)

theorem binding (hne : text ≠ "") (h : '\n' ∉ text.toList) (init : Account) (hb : b.Says width ys) :
    (Account.binding text init b).Says width (text :: ys) :=
  ((quiet init).append (line hne h)).append hb

theorem answer (h : '\n' ∉ name.toList) (value : Bool) :
    (Account.answer name value).Says width [question name value] := by
  refine line ?_ ?_
  · simp
  · cases value <;> simp [h]

end Says

end Account

namespace Act

/-- If nothing in the events has an empty line, the second action does in this world what the first
one does, and ends in the same way but for the lines that the first one has a summary of. -/
def RetoldBy {k : Kind} (width : Nat) (act : Act MarkError (Evaluation k))
    (told : Act MarkError (k.Carrier × List String)) (events : List Event) (w : World) : Prop :=
  (∀ ev ∈ events, ev.Flat width) →
    told.run w = ((act.run w).1.map (Evaluation.stated width), (act.run w).2) ∧
      ∀ a, (act.run w).1 = .ok a → Text.Flat (a.account.summary width)

namespace RetoldBy

variable {width : Nat} {i k : Kind} {act : Act MarkError (Evaluation k)}
  {told : Act MarkError (k.Carrier × List String)} {xs ys : List Event} {w : World}

theorem mono (h : RetoldBy width act told xs w) (hs : xs ⊆ ys) : RetoldBy width act told ys w :=
  fun hflat => h fun ev hev => hflat ev (hs hev)

theorem pure {value : k.Carrier} {account : Account} {lines : List String}
    (h : account.Says width lines) :
    RetoldBy width (Pure.pure ⟨value, account⟩) (Pure.pure (value, lines)) xs w := by
  intro _
  obtain ⟨hflat, rfl⟩ := h
  refine ⟨rfl, ?_⟩
  rintro a ⟨⟩
  exact hflat

theorem throw (e : MarkError) :
    RetoldBy width (k := k) (MonadExcept.throw e) (MonadExcept.throw e) xs w :=
  fun _ => ⟨rfl, fun _ ha => by cases ha⟩

theorem applied {name : String} {dir : Option Location} :
    RetoldBy width act (Evaluation.stated width <$> act)
      [.applied name dir w (act.run w).1 (act.run w).2] w := by
  intro hflat
  rw [Act.run_map]
  refine ⟨rfl, fun a ha => ?_⟩
  have happlied := hflat _ (List.mem_singleton_self _)
  rw [ha] at happlied
  exact happlied

theorem bind {first : Act MarkError (Evaluation i)}
    {next : Evaluation i → Act MarkError (Evaluation k)}
    {told : Act MarkError (i.Carrier × List String)}
    {toldNext : i.Carrier × List String → Act MarkError (k.Carrier × List String)}
    {ys : Evaluation i → World → List Event} (h : RetoldBy width first told xs w)
    (hn : ∀ value account lines u, account.Says width lines →
      RetoldBy width (next ⟨value, account⟩) (toldNext (value, lines)) (ys ⟨value, account⟩ u) u) :
    RetoldBy width (first >>= next) (told >>= toldNext) (xs ++ first.onward w ys) w := by
  intro hevents
  obtain ⟨hxs, hys⟩ := List.forall_mem_append.1 hevents
  obtain ⟨hrun, hflat⟩ := h hxs
  rw [Act.run_bind, Act.run_bind, hrun]
  rw [Act.onward] at hys
  rcases hfirst : first.run w with ⟨e | a, u⟩
  · exact ⟨rfl, fun _ ha => by cases ha⟩
  · rw [hfirst] at hflat hys
    exact hn a.value a.account _ u (Account.Says.of_flat (hflat a rfl)) hys

theorem last {first : Act MarkError (Evaluation i)}
    {next : Evaluation i → Act MarkError (Evaluation k)}
    {told : Act MarkError (i.Carrier × List String)}
    {toldNext : i.Carrier × List String → Act MarkError (k.Carrier × List String)}
    (h : RetoldBy width first told xs w)
    (hn : ∀ value account lines u, account.Says width lines →
      RetoldBy width (next ⟨value, account⟩) (toldNext (value, lines)) [] u) :
    RetoldBy width (first >>= next) (told >>= toldNext) xs w := by
  have hnone : first.onward w (fun _ _ => []) = [] := by
    rw [Act.onward]
    split <;> rfl
  have hbind : RetoldBy width (first >>= next) (told >>= toldNext)
      (xs ++ first.onward w fun _ _ => []) w := h.bind hn
  rwa [hnone, List.append_nil] at hbind

theorem after {α : Type} {first : Act MarkError α} {next : α → Act MarkError (Evaluation k)}
    {toldNext : α → Act MarkError (k.Carrier × List String)} {ys : α → World → List Event}
    (hn : ∀ a u, RetoldBy width (next a) (toldNext a) (ys a u) u) :
    RetoldBy width (first >>= next) (first >>= toldNext) (xs ++ first.onward w ys) w := by
  intro hevents
  have hys := (List.forall_mem_append.1 hevents).2
  rw [Act.run_bind, Act.run_bind]
  rw [Act.onward] at hys
  rcases hfirst : first.run w with ⟨e | a, u⟩
  · exact ⟨rfl, fun _ ha => by cases ha⟩
  · rw [hfirst] at hys
    exact hn a u hys

theorem lift {α : Type} (result : Except MarkError α) {next : α → Act MarkError (Evaluation k)}
    {toldNext : α → Act MarkError (k.Carrier × List String)}
    (h : ∀ a, RetoldBy width (next a) (toldNext a) xs w) :
    RetoldBy width (Act.lift result >>= next) (Act.lift result >>= toldNext) xs w := by
  cases result with
  | error e => exact throw e
  | ok a => exact h a

theorem computed {α : Type} (result : Except MarkError α) {f : α → Evaluation k}
    {g : α → k.Carrier × List String}
    (h : ∀ a, RetoldBy width (Pure.pure (f a)) (Pure.pure (g a)) xs w) :
    RetoldBy width (Act.lift (result >>= fun a => Pure.pure (f a)))
      (Act.lift result >>= fun a => Pure.pure (g a)) xs w := by
  cases result with
  | error e => exact throw e
  | ok a => exact h a

theorem inScratch {act : Location → Act MarkError (Evaluation k)}
    {told : Location → Act MarkError (k.Carrier × List String)}
    {ys : Location → World → List Event} (s : Scratch) (w : World)
    (h : ∀ dir u, RetoldBy width (act dir) (told dir) (ys dir u) u) :
    let dir := s.directory w
    let u := s.opened w
    RetoldBy width (World.inScratch s act) (World.inScratch s told)
      (.opened dir u.files :: ys dir u ++ [.closed dir]) w := by
  intro dir u hevents
  obtain ⟨hrun, hflat⟩ := h dir u fun ev hev =>
    hevents ev (List.mem_append_left _ (List.mem_cons_of_mem _ hev))
  rw [World.run_inScratch, World.run_inScratch]
  dsimp only
  rw [hrun]
  exact ⟨rfl, hflat⟩

theorem conjoin {lhs rhs : Act MarkError (Evaluation .bool)}
    {toldLhs toldRhs : Act MarkError (Bool × List String)} {lname rname : String}
    {ys : World → List Event} (hln : '\n' ∉ lname.toList) (hrn : '\n' ∉ rname.toList)
    (hl : RetoldBy width lhs toldLhs xs w) (hr : ∀ u, RetoldBy width rhs toldRhs (ys u) u) :
    RetoldBy width (Act.conjoin lname rname lhs rhs) (Act.conjoinLines lname rname toldLhs toldRhs)
      (xs ++ lhs.onward w fun l u => match l.value with | false => [] | true => ys u) w := by
  refine hl.bind fun l account lines u hlines => ?_
  have hleft := hlines.append (Account.Says.answer hln l)
  cases l with
  | false => exact .pure hleft
  | true =>
      refine (hr u).last fun r account' lines' _ hlines' => .pure ?_
      rw [← List.append_assoc]
      exact (hleft.append hlines').append (Account.Says.answer hrn r)

end RetoldBy

end Act

section Retold

variable {m : Machine} {commit : Commit} {width : Nat}

mutual

theorem Expr.retold : {k : Kind} → (e : Expr k) → OneLiners e.labels → (scope : Scope) →
    (w : World) →
    (e.apply m commit scope).RetoldBy width (e.narrate m commit width scope)
      (e.course m commit scope w) w
  | _, .int n, _, _, _ => by
      rw [Expr.apply, Expr.narrate]
      refine .pure (.line ?_ ?_)
      · simp
      · simp [newline_not_mem_ofInt]
  | _, .size, _, _, _ => by
      rw [Expr.apply, Expr.narrate]
      refine .pure (.leaf ?_ ?_ _)
      · simp
      · simp [newline_not_mem_ofInt]
  | _, .first, _, _, _ => by
      rw [Expr.apply, Expr.narrate]
      exact .pure .nothing
  | _, .var k name, hn, scope, _ => by
      rw [Expr.apply, Expr.narrate]
      exact .lift _ fun value => .pure (.label hn.head)
  | _, .leaf name ending, _, _, w => by
      rw [Expr.apply, Expr.narrate, Expr.course]
      have happlied : (Act.leaf name ending).RetoldBy width _ [.applied name none w _ _] w := .applied
      rwa [Act.run_leaf] at happlied
  | _, .div lhs rhs, hn, scope, w => by
      have hname := (Expr.div lhs rhs).newline_not_mem_name hn
      rw [Expr.apply, Expr.narrate, Expr.course]
      refine (lhs.retold hn.left scope w).bind fun l _ _ u _ => ?_
      refine (rhs.retold hn.right scope u).bind fun r _ _ _ _ => ?_
      refine .computed (divide (Expr.div lhs rhs).name l r) fun value => .pure ?_
      refine .operation ?_ ?_ _ _
      · simp
      · simp [hname, newline_not_mem_ofInt]
  | _, .abs inner, hn, scope, w => by
      rw [Expr.apply, Expr.narrate, Expr.course]
      refine (inner.retold hn scope w).bind fun a account lines _ hlines => ?_
      refine .computed (absolute (Expr.abs inner).name a) fun value => .pure (hlines.append ?_)
      refine .line ?_ ?_
      · simp
      · simp [newline_not_mem_ofInt]
  | _, .compare op lhs rhs, hn, scope, w => by
      rw [Expr.apply, Expr.narrate, Expr.course]
      refine (lhs.retold hn.left scope w).bind fun l _ _ u _ => ?_
      refine (rhs.retold hn.right scope u).bind fun r _ _ _ _ => ?_
      refine .pure (.operation ?_ ?_ _ _)
      · simp [Comparison.text]
      · exact op.newline_not_mem_text (newline_not_mem_ofInt _) (newline_not_mem_ofInt _)
  | _, .and lhs rhs, hn, scope, w => by
      rw [Expr.apply, Expr.narrate, Expr.course]
      exact .conjoin (lhs.newline_not_mem_name hn.left) (rhs.newline_not_mem_name hn.right)
        (lhs.retold hn.left scope w) (rhs.retold hn.right scope)
  | _, .letIn name init body, hn, scope, w => by
      rw [Expr.apply, Expr.narrate, Expr.course]
      refine (init.retold hn.tail.left scope w).bind fun i _ _ u _ => ?_
      refine (body.retold hn.tail.right _ u).last fun b account lines _ hlines => ?_
      refine .pure (.binding ?_ ?_ _ hlines)
      · simp
      · simp [hn.head, Value.newline_not_mem_text]
  | _, .cond condition yes no, hn, scope, w => by
      rw [Expr.apply, Expr.narrate, Expr.course]
      refine (condition.retold hn.left scope w).bind fun c account lines u hlines => ?_
      have hasked := hlines.append (.answer (condition.newline_not_mem_name hn.left) c)
      cases c with
      | true =>
          exact (yes.retold hn.right.left scope u).last fun _ _ _ _ h => .pure (hasked.append h)
      | false =>
          exact (no.retold hn.right.right scope u).last fun _ _ _ _ h => .pure (hasked.append h)
  | _, .container g, hn, scope, w => by
      rw [Expr.apply, Expr.narrate, Expr.course]
      have hinside (dir : Location) (u : World) :
          Act.RetoldBy width (g.prepare m dir >>= fun _ => g.apply m commit scope dir)
            (g.prepare m dir >>= fun _ => g.narrate m commit width scope dir)
            (g.preparation m dir u ++ (g.prepare m dir).onward u fun _ v =>
              .started dir v.files :: g.course m commit scope dir v) u :=
        .after fun _ v => (g.retold hn scope dir v).mono (List.subset_cons_self _ _)
      exact .inScratch m.scratch w hinside

theorem Generator.retold : {k : Kind} → (g : Generator k) → OneLiners g.labels → (scope : Scope) →
    (dir : Location) → (w : World) → (g.apply m commit scope dir).RetoldBy width
      (g.narrate m commit width scope dir) (g.course m commit scope dir w) w
  | _, .task _ expr, hn, scope, _, w => by
      rw [Generator.apply, Generator.narrate, Generator.course]
      exact expr.retold hn.tail scope w
  | _, .refuse _ error, _, _, _, _ => by
      rw [Generator.apply, Generator.narrate]
      exact .throw error
  | _, .runner r, _, _, dir, w => by
      rw [Generator.apply, Generator.narrate, Generator.course]
      exact .applied
  | _, .andAll lhs rhs, hn, scope, dir, w => by
      rw [Generator.apply, Generator.narrate, Generator.course]
      exact .conjoin (lhs.newline_not_mem_taskName hn.left) (rhs.newline_not_mem_taskName hn.right)
        (lhs.retold hn.left scope dir w) (rhs.retold hn.right scope dir)

end

/-- However summaries are nested, they come to one list of lines, told in the order in which things
happen: none of them is empty, and the summary is these lines, one below the other. -/
theorem Expr.summary_narrated {k : Kind} (e : Expr k) (named : OneLiners e.labels) (scope : Scope)
    {w v : World} (flat : ∀ ev ∈ e.course m commit scope w, ev.Flat width) {a : Evaluation k}
    (h : (e.apply m commit scope).run w = (.ok a, v)) :
    ∃ lines, (e.narrate m commit width scope).run w = (.ok (a.value, lines), v) ∧
      a.account.summary width = "\n".intercalate lines ∧
      (∀ line ∈ lines, line ≠ "" ∧ '\n' ∉ line.toList) ∧ Text.Flat (a.account.summary width) := by
  obtain ⟨hrun, hflat⟩ := e.retold named scope w flat
  rw [h] at hrun hflat
  have hsummary := hflat a rfl
  exact ⟨_, hrun, hsummary.eq_intercalate, fun _ => mem_filledLines, hsummary⟩

end Retold

/-- The build and the tests leave no empty lines where they have nothing to say. -/
theorem Expr.summary_narrated_standard :
    let javac : Rule := { Rule.unmatched "javac" with ending := .exit 0 }
    let m : Machine := .ofRules [javac]
    let commit : Commit := ⟨"c2", "two", some "c1", none, [⟨"A.java", [], [65, 66, 67]⟩]⟩
    let e := Scheme.standard (.runner Compiler.standard.runner) (.runner Testing.standard.runner)
    let w : World := .fresh ⟨[(["tmp"], .directory)]⟩
    OneLiners e.labels ∧ (∀ ev ∈ e.course m commit .empty w, ev.Flat 80) ∧
      ∃ a v, (e.apply m commit .empty).run w = (.ok a, v) ∧
        a.account.summary 80 = "\n".intercalate
          ["Build? Yes.", "Test? Yes.", "Build && Test? Yes.", "First commit? No.",
            "Commit Size = 3 in", "3 < 500", "Commit Size < 500? Yes.", "= 1 mark(s)."] := by
  intro javac m commit e w
  have named : OneLiners e.labels := by decide
  have flat : ∀ ev ∈ e.course m commit .empty w, ev.Flat 80 := by decide +kernel
  have hlines : ((e.narrate m commit 80 .empty).run w).1.toOption.map (·.2) = some
      ["Build? Yes.", "Test? Yes.", "Build && Test? Yes.", "First commit? No.",
        "Commit Size = 3 in", "3 < 500", "Commit Size < 500? Yes.", "= 1 mark(s)."] := by
    decide +kernel
  have hmarked : ((e.apply m commit .empty).run w).1.toOption.isSome = true := by decide +kernel
  rcases hrun : (e.apply m commit .empty).run w with ⟨x | a, v⟩
  · rw [hrun] at hmarked
    cases hmarked
  · obtain ⟨lines, hnarrated, hsummary, -⟩ := e.summary_narrated named .empty flat hrun
    rw [hnarrated] at hlines
    cases hlines
    exact ⟨named, flat, a, v, rfl, hsummary⟩

end CommitMarking
