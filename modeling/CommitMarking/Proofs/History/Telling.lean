import CommitMarking.Proofs.History.Snapshot
import Mathlib.Data.List.Dedup
import Mathlib.Data.List.Nodup

namespace CommitMarking

open Text

namespace Snapshot

def changeAt (old new : Snapshot) (path : String) : RawRecord where
  oldMode := TreeFile.modeText (old.find? path)
  newMode := TreeFile.modeText (new.find? path)
  oldId := TreeFile.idText (old.find? path)
  newId := TreeFile.idText (new.find? path)
  status := "M"
  path := path

def changes (old new : Snapshot) : List RawRecord :=
  ((old.paths ++ new.paths).dedup.filter fun path => old.find? path ≠ new.find? path).map
    (changeAt old new)

variable (old new : Snapshot)

theorem map_path_changes : (old.changes new).map (·.path) =
    (old.paths ++ new.paths).dedup.filter fun path => old.find? path ≠ new.find? path := by
  rw [changes, List.map_map]
  exact List.map_id _

theorem exists_of_mem_changes {c : RawRecord} (h : c ∈ old.changes new) :
    ∃ path, old.find? path ≠ new.find? path ∧ changeAt old new path = c := by
  obtain ⟨path, hp, hc⟩ := List.mem_map.1 h
  exact ⟨path, of_decide_eq_true (List.mem_filter.1 hp).2, hc⟩

/-- Any two trees can be told apart. -/
theorem diff_changes : old.Diff new (old.changes new) where
  nodup := by
    rw [map_path_changes]
    exact (List.nodup_dedup _).filter _
  differs c hc := by
    obtain ⟨path, hne, rfl⟩ := old.exists_of_mem_changes new hc
    exact hne
  complete path hp hne := by
    rw [map_path_changes, List.mem_filter, List.mem_dedup]
    exact ⟨hp, decide_eq_true hne⟩
  modes c hc := by
    obtain ⟨path, -, rfl⟩ := old.exists_of_mem_changes new hc
    exact ⟨rfl, rfl⟩
  ids c hc := by
    obtain ⟨path, -, rfl⟩ := old.exists_of_mem_changes new hc
    exact ⟨rfl, rfl⟩
  status c hc := by
    obtain ⟨path, -, rfl⟩ := old.exists_of_mem_changes new hc
    exact (by decide : ' ' ∉ "M".toList ∧ '\x00' ∉ "M".toList)

end Snapshot

theorem Revision.map_snd_steps (before : Option Revision) (vs : List Revision) :
    (steps before vs).map Prod.snd = vs := by
  induction vs generalizing before with
  | nil => rfl
  | cons v vs ih => exact congrArg (v :: ·) (ih (some v))

theorem byteLength_le (s : String) : byteLength s ≤ 4 * s.length := by
  rw [byteLength, Utf8.encode, ← String.length_toList]
  induction s.toList with
  | nil => exact Nat.le_refl 0
  | cons c cs ih =>
      have hc := c.utf8Size_le_four
      rw [List.flatMap_cons, List.length_append, String.length_utf8EncodeChar, List.length_cons]
      omega

namespace Repository

def answerRule (a : List String × Bytes) : Rule :=
  { Rule.unmatched "git" with
    args := some (" ".intercalate a.1), stdout := a.2, stderr := [], ending := .exit 0 }

theorem execution_answerRule (a : List String × Bytes) (c : Call) (t : FileTree) :
    ((answerRule a).process c t).execution none .inherit = ⟨some 0, a.2, [], 0⟩ := by
  simp [answerRule, Rule.process, Rule.output, Rule.unmatched, Process.execution,
    Process.endsWithin, Process.lasts, Process.elapsed, Process.written, Ending.exitCode?,
    Write.onto]

def answering (answers : List (List String × Bytes)) : Repository where
  machine := .ofRules (answers.map answerRule)
  place := .ok []

/-- A program can be started with the argument, which can be told from the ones beside it. -/
structure PlainArg (arg : String) : Prop where
  space : ' ' ∉ arg.toList
  nul : hasNul arg = false
  short : Machine.argumentTooLong arg = false

instance : DecidablePred PlainArg := fun _ =>
  decidable_of_iff (_ ∧ _ ∧ _) ⟨fun ⟨space, nul, short⟩ => ⟨space, nul, short⟩,
    fun h => ⟨h.space, h.nul, h.short⟩⟩

structure PlainArgs (args : List String) : Prop where
  ne_nil : args ≠ []
  few : args.length ≤ 8
  plain : ∀ arg ∈ args, PlainArg arg

theorem argumentSize_le {args : List String}
    (h : ∀ arg ∈ args, Machine.argumentTooLong arg = false) :
    Machine.argumentSize args ≤ 131080 * args.length := by
  induction args with
  | nil => exact Nat.le_refl 0
  | cons arg args ih =>
      obtain ⟨harg, hargs⟩ := List.forall_mem_cons.1 h
      have hshort : byteLength arg < 131072 := by simpa [Machine.argumentTooLong] using harg
      have hrest := ih hargs
      rw [List.length_cons]
      change byteLength arg + 9 + Machine.argumentSize args ≤ _
      omega

theorem PlainArgs.has_room {args : List String} (h : PlainArgs args) (rules : List Rule)
    (dir : Location) : (Machine.ofRules rules).lacksRoom ⟨"git", args, dir⟩ = false := by
  have hshort (arg : String) (ha : arg ∈ args) : Machine.argumentTooLong arg = false :=
    (h.plain arg ha).short
  have hsize : Machine.argumentSize args ≤ 131080 * args.length := argumentSize_le hshort
  have hname : Machine.argumentSize ("git" :: args) = 12 + Machine.argumentSize args := rfl
  have hroom : (Machine.ofRules rules).argumentRoom = 2097152 := rfl
  have hfew := h.few
  rw [Machine.lacksRoom, Bool.or_eq_false_iff, List.any_eq_false, decide_eq_false_iff_not, hname,
    hroom]
  exact ⟨fun arg ha => by simp [hshort arg ha], by omega⟩

theorem intercalate_inj {xs ys : List String} (hx : xs ≠ []) (hy : ys ≠ [])
    (hxs : ∀ arg ∈ xs, PlainArg arg) (hys : ∀ arg ∈ ys, PlainArg arg)
    (h : " ".intercalate xs = " ".intercalate ys) : xs = ys := by
  have hsplit {zs : List String} (hz : zs ≠ []) (hzs : ∀ arg ∈ zs, PlainArg arg) :
      ((" ".intercalate zs).toList.splitOn ' ').map String.ofList = zs := by
    rw [String.toList_intercalate]
    exact map_ofList_splitOn_intercalate hz fun arg ha => (hzs arg ha).space
  rw [← hsplit hx hxs, h, hsplit hy hys]

section Answering

variable {answers : List (List String × Bytes)} {args : List String} {out : Bytes} {t : FileTree}
  (plain : ∀ a ∈ answers, PlainArgs a.1)
  (asked : ∃ a ∈ answers, a.1 = args)

include plain asked

theorem plain_of_asked : PlainArgs args := by
  obtain ⟨a, ha, rfl⟩ := asked
  exact plain a ha

theorem refusal?_answering (dir : Location) :
    (answering answers).machine.refusal? t ⟨"git", args, dir⟩ = none := by
  have hroom := (plain_of_asked plain asked).has_room (answers.map answerRule) dir
  have hlisted : (answering answers).machine.absence? t dir "git" = none := by
    obtain ⟨a, ha, -⟩ := asked
    obtain ⟨b, bs, rfl⟩ := List.exists_cons_of_ne_nil (List.ne_nil_of_mem ha)
    rfl
  have hresident : (answering answers).machine.resident? "git" = none := rfl
  rw [Machine.refusal?, hresident]
  dsimp only
  rw [hlisted]
  dsimp only
  rw [answering, hroom]
  rfl

theorem attempt_answering : (answering answers).machine.attempt t (.ok []) "git" args =
    let call : Call := ⟨"git", args, []⟩
    .ok (call, ((answering answers).machine.rule call).process call t) := by
  have hargs := (plain_of_asked plain asked).plain
  have hnul : (hasNul "git" || args.any hasNul) = false := by
    rw [Bool.or_eq_false_iff, List.any_eq_false]
    exact ⟨by decide, fun arg ha => by simp [(hargs arg ha).nul]⟩
  have hdir : Except.mapError SystemError.inArgument (.ok []) >>= t.directory? = .ok [] := rfl
  unfold Machine.attempt Machine.admission
  rw [hdir, if_neg (by simp [hnul])]
  dsimp only [bind, Except.bind]
  rw [refusal?_answering plain asked]
  rfl

theorem rule_answering (hout : ∀ a ∈ answers, a.1 = args → a.2 = out) (dir : Location) :
    (answering answers).machine.rule ⟨"git", args, dir⟩ = answerRule (args, out) := by
  have hargs := plain_of_asked plain asked
  let asks (a : List String × Bytes) : Bool := " ".intercalate a.1 = " ".intercalate args
  have hfits : (fun rule : Rule => rule.fits ⟨"git", args, dir⟩) ∘ answerRule = asks := by
    funext a
    simp [Rule.fits, answerRule, Rule.unmatched, asks]
  obtain ⟨a, ha⟩ : ∃ a, answers.find? asks = some a := by
    obtain ⟨a, ha, rfl⟩ := asked
    exact Option.isSome_iff_exists.1 (List.find?_isSome.2 ⟨a, ha, decide_eq_true rfl⟩)
  have hmem := List.mem_of_find?_eq_some ha
  have hasks : asks a = true := List.find?_some ha
  have heq : a.1 = args :=
    intercalate_inj (plain a hmem).ne_nil hargs.ne_nil (plain a hmem).plain hargs.plain
      (of_decide_eq_true hasks)
  have hrules : (answering answers).machine.rules = answers.map answerRule := rfl
  rw [Machine.rule, hrules, List.find?_map, hfits, ha, Option.map_some, Option.getD_some,
    ← heq, ← hout a hmem heq]

end Answering

theorem answer_answering {answers : List (List String × Bytes)} {args : List String} {out : Bytes}
    (plain : ∀ a ∈ answers, PlainArgs a.1)
    (agree : ∀ a ∈ answers, ∀ b ∈ answers, a.1 = b.1 → a.2 = b.2) (h : (args, out) ∈ answers)
    (t : FileTree) : (answering answers).answer t args = .ok out := by
  have asked : ∃ a ∈ answers, a.1 = args := ⟨_, h, rfl⟩
  have hplace : (answering answers).place = .ok [] := rfl
  rw [answer, hplace, attempt_answering plain asked]
  dsimp only
  rw [rule_answering plain asked fun a ha he => agree a ha _ h he, execution_answerRule]
  rfl

def answersOf (store : ObjectId → Bytes) (before : Option Revision) (v : Revision) :
    List (List String × Bytes) :=
  [(logArgs "--format=%s" v.id.text, []), (logArgs "--format=%ct" v.id.text, []),
    (diffArgs (before.map (·.id.text)) v.id.text,
      ((Revision.treeBefore before).changes v.tree).flatMap RawRecord.encode)] ++
  v.tree.files.map fun f => (blobArgs f.2.id.text, store f.2.id)

def answers (store : ObjectId → Bytes) (revisions : List Revision) : List (List String × Bytes) :=
  (listArgs, idLines revisions) ::
    (Revision.steps none revisions).flatMap fun step => answersOf store step.1 step.2

def telling (store : ObjectId → Bytes) (revisions : List Revision) : Repository :=
  answering (answers store revisions)

section Telling

variable {store : ObjectId → Bytes} {revisions : List Revision}

theorem plainArg_id (o : ObjectId) : PlainArg o.text where
  space := o.plain.1
  nul := by simpa [hasNul] using o.plain.2
  short := by
    have hlen := byteLength_le o.text
    rw [o.length_text] at hlen
    simp only [Machine.argumentTooLong, decide_eq_false_iff_not]
    omega

theorem mem_answers_iff {a : List String × Bytes} : a ∈ answers store revisions ↔
    a = (listArgs, idLines revisions) ∨
    ∃ step ∈ Revision.steps none revisions,
      a = (logArgs "--format=%s" step.2.id.text, []) ∨
      a = (logArgs "--format=%ct" step.2.id.text, []) ∨
      a = (diffArgs (step.1.map (·.id.text)) step.2.id.text,
        ((Revision.treeBefore step.1).changes step.2.tree).flatMap RawRecord.encode) ∨
      ∃ f ∈ step.2.tree.files, a = (blobArgs f.2.id.text, store f.2.id) := by
  simp [answers, answersOf, eq_comm]

theorem plain_answers : ∀ a ∈ answers store revisions, PlainArgs a.1 := by
  have hlist : ∀ arg ∈ listArgs, PlainArg arg := by decide +kernel
  have hlog : ∀ arg ∈ ["log", "-1", "--format=%s", "--format=%ct"], PlainArg arg := by
    decide +kernel
  have hdiff : ∀ arg ∈ diffArgs none "", PlainArg arg := by decide +kernel
  have hblob : ∀ arg ∈ ["cat-file", "blob"], PlainArg arg := by decide +kernel
  simp only [diffArgs, Option.getD_none, List.forall_mem_cons] at hlog hdiff hblob
  have hparent (before : Option Revision) :
      PlainArg ((before.map (·.id.text)).getD "--root") := by
    cases before with
    | none => exact hdiff.2.2.2.2.2.1
    | some v => exact plainArg_id v.id
  intro a ha
  rcases mem_answers_iff.1 ha with rfl | ⟨step, -, rfl | rfl | rfl | ⟨f, -, rfl⟩⟩
  · exact ⟨List.cons_ne_nil _ _, by simp [listArgs], hlist⟩
  all_goals
    refine ⟨List.cons_ne_nil _ _, by simp [logArgs, diffArgs, blobArgs], ?_⟩
    simp [logArgs, diffArgs, blobArgs, hlog, hdiff, hblob, hparent, plainArg_id]

theorem steps_inj (nodup : (revisions.map (·.id)).Nodup) {step other : Option Revision × Revision}
    (hs : step ∈ Revision.steps none revisions) (ho : other ∈ Revision.steps none revisions)
    (h : step.2.id = other.2.id) : step = other := by
  have hmap : (Revision.steps none revisions).map (·.2.id) = revisions.map (·.id) := by
    conv_rhs => rw [← Revision.map_snd_steps none revisions, List.map_map]
    rfl
  exact List.inj_on_of_nodup_map (hmap ▸ nodup) hs ho h

theorem answers_agree (nodup : (revisions.map (·.id)).Nodup) :
    ∀ a ∈ answers store revisions, ∀ b ∈ answers store revisions, a.1 = b.1 → a.2 = b.2 := by
  intro a ha b hb he
  rcases mem_answers_iff.1 ha with rfl | ⟨step, hs, rfl | rfl | rfl | ⟨f, hf, rfl⟩⟩ <;>
    rcases mem_answers_iff.1 hb with rfl | ⟨other, ho, rfl | rfl | rfl | ⟨g, hg, rfl⟩⟩ <;>
    simp [listArgs, logArgs, diffArgs, blobArgs] at he ⊢
  · rw [steps_inj nodup hs ho (ObjectId.eq_of_text he.2)]
  · rw [ObjectId.eq_of_text he]

/-- Any revisions with different ids are the history of a repository. -/
theorem telling_tells (nodup : (revisions.map (·.id)).Nodup) (t : FileTree) :
    (telling store revisions).Tells t store revisions := by
  have hanswer {args : List String} {out : Bytes} (h : (args, out) ∈ answers store revisions) :=
    answer_answering plain_answers (answers_agree nodup) h t
  have hstep {v : Revision} (hv : v ∈ revisions) :
      ∃ step ∈ Revision.steps none revisions, step.2 = v := by
    rw [← Revision.map_snd_steps none revisions] at hv
    exact List.mem_map.1 hv
  refine ⟨⟨fun v hv format hf => ⟨[], hanswer ?_⟩, fun step hs => ?_, fun v hv f hf => ?_⟩, ?_⟩
  · obtain ⟨step, hs, rfl⟩ := hstep hv
    simp only [List.mem_cons, List.not_mem_nil, or_false] at hf
    rcases hf with rfl | rfl
    · exact mem_answers_iff.2 (.inr ⟨step, hs, .inl rfl⟩)
    · exact mem_answers_iff.2 (.inr ⟨step, hs, .inr (.inl rfl)⟩)
  · exact ⟨_, Snapshot.diff_changes _ _,
      hanswer (mem_answers_iff.2 (.inr ⟨step, hs, .inr (.inr (.inl rfl))⟩))⟩
  · obtain ⟨step, hs, rfl⟩ := hstep hv
    exact hanswer (mem_answers_iff.2 (.inr ⟨step, hs, .inr (.inr (.inr ⟨f, hf, rfl⟩))⟩))
  · exact hanswer (mem_answers_iff.2 (.inl rfl))

end Telling

end Repository

section Sample

def ObjectId.ofDigit (c : Char) (h : c ∈ "0123456789abcdef".toList) : ObjectId :=
  ⟨String.ofList (List.replicate 40 c), by simp, by simpa using h⟩

def TreeFile.ofDigit (c : Char) (h : c ∈ "123456789abcdef".toList) : TreeFile where
  mode := "100644"
  id := .ofDigit c (List.mem_cons_of_mem _ h)
  digits := List.all_eq_true.1 (by decide : "100644".toList.all Char.isDigit = true)
  not_link := by decide
  not_null he := by
    obtain rfl : c = '0' := by simpa using List.replicate_inj.1 (String.ofList_inj.1 he)
    exact absurd h (by decide)

namespace Sample

def store (o : ObjectId) : Bytes :=
  match o.text.toList.head? with
  | some 'a' => Utf8.encode "class A {}"
  | some 'b' => Utf8.encode "class A { int n; }"
  | some 'c' => Utf8.encode "notes"
  | _ => []

/-- The second revision deletes an empty file and empties another one. In the place of that one the
third has a directory. -/
def revisions : List Revision := [
  ⟨.ofDigit '1' (by decide), ⟨[("A.java", .ofDigit 'a' (by decide)),
    ("doc/old", .ofDigit 'e' (by decide)), ("notes", .ofDigit 'c' (by decide))],
    by decide, by decide, by decide⟩⟩,
  ⟨.ofDigit '2' (by decide), ⟨[("A.java", .ofDigit 'b' (by decide)),
    ("notes", .ofDigit 'e' (by decide))], by decide, by decide, by decide⟩⟩,
  ⟨.ofDigit '3' (by decide), ⟨[("A.java", .ofDigit 'b' (by decide)),
    ("notes/A", .ofDigit 'c' (by decide))], by decide, by decide, by decide⟩⟩]

def repository : Repository := .telling store revisions

theorem tells : repository.Tells ⟨[]⟩ store revisions :=
  Repository.telling_tells (by decide +kernel) ⟨[]⟩

end Sample

end Sample

end CommitMarking
