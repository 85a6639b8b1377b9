import CommitMarking.Proofs.FileSystem.Below
import Mathlib.Logic.Function.Basic

namespace CommitMarking.FileTree

variable {t u v : FileTree} {dir l m : Location}

theorem lookup_cons (l m : Location) (n : Node) (entries : List (Location × Node)) :
    ((l, n) :: entries).lookup m = if m = l then some n else entries.lookup m := by
  rw [List.lookup_cons]
  by_cases h : m = l
  · simp [h]
  · rw [beq_eq_false_iff_ne.2 h, if_neg h]

theorem lookup_putEntry (l m : Location) (n : Node) (entries : List (Location × Node)) :
    (putEntry l n entries).lookup m = if m = l then some n else entries.lookup m := by
  induction entries with
  | nil => exact lookup_cons l m n []
  | cons e es ih =>
      rcases e with ⟨k, o⟩
      rw [putEntry]
      split
      next hk =>
          obtain rfl : k = l := hk
          rw [lookup_cons, lookup_cons]
          split <;> rfl
      next hk =>
          rw [lookup_cons, ih, lookup_cons]
          by_cases hm : m = k
          · rw [if_pos hm, if_pos hm, if_neg fun hl => hk (hm.symm.trans hl)]
          · rw [if_neg hm, if_neg hm]

theorem find?_put (hl : l ≠ []) (t : FileTree) (n : Node) (m : Location) :
    (t.put l n).find? m = if m = l then some n else t.find? m := by
  rw [find?, find?, put, lookup_putEntry]
  by_cases hm : m = []
  · rw [if_pos hm, if_pos hm, if_neg fun he => hl (he.symm.trans hm)]
  · rw [if_neg hm, if_neg hm]

theorem find?_put_directory (n : Node) (hl : t.find? l ≠ some .directory)
    (hm : t.find? m = some .directory) : (t.put l n).find? m = some .directory := by
  have hne : l ≠ [] := by
    rintro rfl
    exact hl rfl
  have hml : m ≠ l := by
    rintro rfl
    exact hl hm
  rw [find?_put hne, if_neg hml, hm]

def content? (t : FileTree) (l : Location) : Option Bytes :=
  match t.find? l with
  | some (.file content) => some content
  | _ => none

theorem content?_eq_some {content : Bytes} :
    t.content? l = some content ↔ t.find? l = some (.file content) := by
  unfold content?
  split <;> simp_all

theorem content?_put_file (hl : l ≠ []) (t : FileTree) (content : Bytes) :
    (t.put l (.file content)).content? = Function.update t.content? l (some content) := by
  funext m
  rw [content?, find?_put hl, Function.update_apply]
  by_cases hm : m = l
  · rw [if_pos hm, if_pos hm]
  · rw [if_neg hm, if_neg hm, content?]

/-- All that is new in the second tree are directories on the way that the names lead down from
`l`. -/
def Grows (l : Location) (names : List String) (t u : FileTree) : Prop :=
  ∀ m, u.find? m = t.find? m ∨
    t.find? m = none ∧ u.find? m = some .directory ∧
      ∃ steps, steps ≠ [] ∧ steps <+: names ∧ m = l ++ steps

namespace Grows

variable {names : List String}

theorem refl (l : Location) (names : List String) (t : FileTree) : Grows l names t t :=
  fun _ => .inl rfl

theorem content? (h : Grows l names t u) : u.content? = t.content? := by
  funext m
  rcases h m with hm | ⟨ht, hu, -⟩
  · rw [FileTree.content?, hm, FileTree.content?]
  · rw [FileTree.content?, hu, FileTree.content?, ht]

theorem find?_eq {n : Node} (h : Grows l names t u) (hm : t.find? m = some n) :
    u.find? m = some n := by
  rcases h m with hu | ⟨ht, -⟩
  · exact hu.trans hm
  · rw [ht] at hm
    cases hm

theorem cons {name : String} (h : Grows (l ++ [name]) names t u) : Grows l (name :: names) t u := by
  intro m
  refine (h m).imp_right fun ⟨ht, hu, steps, _, hs, hm⟩ => ⟨ht, hu, name :: steps, ?_, ?_, ?_⟩
  · exact List.cons_ne_nil _ _
  · exact (List.prefix_cons_inj name).2 hs
  · rw [hm, List.append_assoc]
    rfl

theorem cons_put {name : String} (hn : t.find? (l ++ [name]) = none)
    (h : Grows (l ++ [name]) names (t.put (l ++ [name]) .directory) u) :
    Grows l (name :: names) t u := by
  have hput := find?_put (l := l ++ [name]) (by simp) t .directory
  intro m
  by_cases hm : m = l ++ [name]
  · subst hm
    have hu : u.find? (l ++ [name]) = some .directory := h.find?_eq (by rw [hput, if_pos rfl])
    exact .inr ⟨hn, hu, [name], by simp, by simp, rfl⟩
  · have hc := h.cons m
    rwa [hput, if_neg hm] at hc

end Grows

theorem grows_makeDirectories (t : FileTree) (l : Location) (names : List String) :
    Grows l names t (t.makeDirectories l names).2 := by
  induction names generalizing t l with
  | nil => exact .refl l [] t
  | cons name names ih =>
      rw [makeDirectories]
      split
      next => exact (ih t _).cons
      next => exact .refl _ _ t
      next hn =>
          split
          next => exact .refl _ _ t
          next => exact (ih _ _).cons_put hn

theorem directory_of_makeDirectories {names steps : List String}
    (h : (t.makeDirectories l names).1 = .ok ()) (hs : steps <+: names) (hne : steps ≠ []) :
    (t.makeDirectories l names).2.find? (l ++ steps) = some .directory := by
  induction names generalizing t l steps with
  | nil => exact absurd (List.prefix_nil.1 hs) hne
  | cons name names ih =>
      -- what stands at the first name, and what the rest of the way leaves of it
      have next {t : FileTree} (hd : t.find? (l ++ [name]) = some .directory)
          (h : (t.makeDirectories (l ++ [name]) names).1 = .ok ()) :
          (t.makeDirectories (l ++ [name]) names).2.find? (l ++ steps) = some .directory := by
        obtain ⟨step, steps, rfl⟩ := List.exists_cons_of_ne_nil hne
        obtain ⟨rfl, htail⟩ := List.cons_prefix_cons.1 hs
        by_cases hsteps : steps = []
        · subst hsteps
          exact (grows_makeDirectories t _ names).find?_eq hd
        · rw [List.append_cons l step steps]
          exact ih h htail hsteps
      rw [makeDirectories] at h ⊢
      split at h
      next hd => exact next hd h
      next => cases h
      next hn =>
          split at h
          next => cases h
          next hlong =>
              rw [if_neg hlong]
              exact next (by rw [find?_put (by simp), if_pos rfl]) h

theorem ne_of_isPrefix_dropLast {steps names : List String} (hne : steps ≠ [])
    (h : steps <+: names.dropLast) : steps ≠ names := by
  rintro rfl
  have hlen := h.length_le
  have hpos := List.length_pos_iff.2 hne
  rw [List.length_dropLast] at hlen
  omega

/-- What placing a file comes to. It makes directories on the way to the file; if it gets there, the
file stands at the end of a way of directories. -/
inductive Placed (dir : Location) (names : List String) (content : Bytes) (t : FileTree) :
    Except SystemError Unit → FileTree → Prop
  | stopped {e : SystemError} {v : FileTree} (grows : Grows dir names.dropLast t v) :
      Placed dir names content t (.error e) v
  | written {v : FileTree} (grows : Grows dir names.dropLast t v)
      (way : ∀ steps, steps ≠ [] → steps <+: names.dropLast →
        v.find? (dir ++ steps) = some .directory)
      (ne : names ≠ []) (free : v.find? (dir ++ names) ≠ some .directory) :
      Placed dir names content t (.ok ()) (v.put (dir ++ names) (.file content))

theorem placed_place {path : String} (hi : (Route.ofText path).inside = true) (t : FileTree)
    (dir : Location) (content : Bytes) :
    Placed dir (Route.ofText path).names content t (t.place dir path content).1
      (t.place dir path content).2 := by
  have hmade : Grows dir (Route.ofText path).names.dropLast t (t.makeParents dir path).2 ∧
      ((t.makeParents dir path).1 = .ok () → ∀ steps, steps ≠ [] →
        steps <+: (Route.ofText path).names.dropLast →
        (t.makeParents dir path).2.find? (dir ++ steps) = some .directory) := by
    unfold makeParents
    cases screen (dir.join (Route.parentText path)) with
    | error e => exact ⟨.refl _ _ t, fun h => by cases h⟩
    | ok _ => exact ⟨grows_makeDirectories t dir _, fun h steps hne hs =>
        directory_of_makeDirectories h hs hne⟩
  unfold place
  generalize t.makeParents dir path = made at hmade ⊢
  rcases made with ⟨e | _, v⟩
  · exact .stopped hmade.1
  · dsimp only [store] at hmade ⊢
    cases hw : v.write dir path content with
    | error e => exact .stopped hmade.1
    | ok u =>
        obtain ⟨hne, hfree, rfl⟩ := exists_put_of_write hi hw
        exact .written hmade.1 (hmade.2 rfl) hne hfree

namespace Placed

variable {names : List String} {content : Bytes}

theorem content?_error {e : SystemError} (h : Placed dir names content t (.error e) u) :
    u.content? = t.content? := by
  cases h with
  | stopped grows => exact grows.content?

theorem content?_ok (h : Placed dir names content t (.ok ()) u) :
    u.content? = Function.update t.content? (dir ++ names) (some content) := by
  cases h with
  | written grows _ ne _ => rw [content?_put_file (by simp [ne]), grows.content?]

theorem find?_directory {result : Except SystemError Unit} (h : Placed dir names content t result u)
    (hm : t.find? m = some .directory) : u.find? m = some .directory := by
  cases h with
  | stopped grows => exact grows.find?_eq hm
  | written grows _ _ free => exact find?_put_directory _ free (grows.find?_eq hm)

theorem directory_of_ok (h : Placed dir names content t (.ok ()) u) {steps : List String}
    (hne : steps ≠ []) (hs : steps <+: names.dropLast) :
    u.find? (dir ++ steps) = some .directory := by
  cases h with
  | written _ way _ free => exact find?_put_directory _ free (way steps hne hs)

theorem find?_cases (h : Placed dir names content t (.ok ()) u) (steps : List String) :
    (steps = names ∧ u.find? (dir ++ steps) = some (.file content)) ∨
    u.find? (dir ++ steps) = t.find? (dir ++ steps) ∨
    (u.find? (dir ++ steps) = some .directory ∧ steps <+: names ∧ steps ≠ names) := by
  cases h with
  | written grows _ ne _ =>
      rw [find?_put (by simp [ne])]
      by_cases he : steps = names
      · exact .inl ⟨he, if_pos (he ▸ rfl)⟩
      rw [if_neg fun hm => he (List.append_cancel_left hm)]
      refine .inr ((grows (dir ++ steps)).imp_right fun ⟨_, hd, steps', hne, hpre, hm⟩ => ?_)
      obtain rfl := List.append_cancel_left hm
      exact ⟨hd, hpre.trans (List.dropLast_prefix _), ne_of_isPrefix_dropLast hne hpre⟩

/-- Nothing changes but what stands below `dir`. -/
theorem exists_eq_append_of_ne {result : Except SystemError Unit}
    (h : Placed dir names content t result u) (hm : u.find? m ≠ t.find? m) :
    ∃ steps, steps ≠ [] ∧ m = dir ++ steps := by
  cases h with
  | stopped grows =>
      obtain ⟨-, -, steps, hne, -, rfl⟩ := (grows m).resolve_left hm
      exact ⟨steps, hne, rfl⟩
  | written grows _ ne _ =>
      by_cases he : m = dir ++ names
      · exact ⟨names, ne, he⟩
      · rw [find?_put (by simp [ne]), if_neg he] at hm
        obtain ⟨-, -, steps, hne, -, rfl⟩ := (grows m).resolve_left hm
        exact ⟨steps, hne, rfl⟩

end Placed

end CommitMarking.FileTree
