import CommitMarking.Proofs.FileSystem.Below
import CommitMarking.Proofs.Lists
import CommitMarking.Proofs.Text.Lines
import Mathlib.Data.List.Basic

namespace CommitMarking

theorem hasNul_eq_false_iff {s : String} : hasNul s = false ↔ '\x00' ∉ s.toList := by
  simp [hasNul]

structure ProperStep (step : String) : Prop where
  ne_nil : step.toList ≠ []
  slash : '/' ∉ step.toList
  nul : hasNul step = false

theorem Route.properStep_of_mem_steps {path step : String} (hnul : hasNul path = false)
    (h : step ∈ (Route.ofText path).steps) : ProperStep step := by
  obtain ⟨piece, hpiece, rfl⟩ := List.mem_map.1 h
  obtain ⟨hmem, hne⟩ := List.mem_filter.1 hpiece
  obtain ⟨hslash, hsub⟩ := mem_splitOn hmem
  rw [hasNul_eq_false_iff] at hnul
  refine ⟨?_, ?_, hasNul_eq_false_iff.2 ?_⟩
  all_goals rw [String.toList_ofList]
  · simpa using hne
  · exact hslash
  · exact fun hn => hnul (hsub hn)

theorem not_mem_intercalate {c d : Char} {pieces : List (List Char)} (hne : c ≠ d)
    (h : ∀ piece ∈ pieces, c ∉ piece) : c ∉ [d].intercalate pieces := by
  induction pieces with
  | nil => simp [List.intercalate]
  | cons piece pieces ih =>
      obtain ⟨hpiece, hpieces⟩ := List.forall_mem_cons.1 h
      cases pieces with
      | nil => simpa [List.intercalate] using hpiece
      | cons p ps =>
          rw [List.intercalate_cons_of_ne_nil (List.cons_ne_nil p ps)]
          simp [hpiece, hne, ih hpieces]

namespace Location

variable {l : Location}

theorem toList_text (l : Location) :
    l.text.toList = '/' :: ['/'].intercalate (l.map String.toList) := by
  simp [text, String.toList_intercalate]

theorem ofText_text (h : ∀ name ∈ l, ProperStep name) : Route.ofText l.text = ⟨true, l, false⟩ := by
  by_cases hl : l = []
  · rw [hl]
    rfl
  have hsplit : (['/'].intercalate (l.map String.toList)).splitOn '/' = l.map String.toList := by
    refine List.splitOn_intercalate '/' ?_ (by simpa using hl)
    exact List.forall_mem_map.2 fun name hn => (h name hn).slash
  have hne : [] ∉ l.map String.toList := fun hm => by
    obtain ⟨name, hn, he⟩ := List.mem_map.1 hm
    exact (h name hn).ne_nil he
  have htext := l.toList_text
  generalize ['/'].intercalate (l.map String.toList) = cs at hsplit htext
  have hpieces : l.text.toList.splitOn '/' = [] :: l.map String.toList := by
    rw [htext, List.splitOn_cons_eq_if_modifyHead, hsplit]
    rfl
  have hlast : l.text.toList.getLast? ≠ some '/' := by
    intro hslash
    rw [htext, List.getLast?_eq_some_iff] at hslash
    obtain ⟨front, hfront⟩ := hslash
    refine hne (hsplit ▸ ?_)
    cases front with
    | nil =>
        rw [(List.cons.inj hfront).2]
        decide
    | cons c front =>
        have hcs : cs = front ++ '/' :: [] := (List.cons.inj hfront).2
        rw [hcs, List.splitOn_append_cons_self]
        simp
  have hsteps : (([] :: l.map String.toList).filter (· ≠ [])).map String.ofList = l := by
    have hkept : (l.map String.toList).filter (· ≠ []) = l.map String.toList :=
      List.filter_eq_self.2 fun piece hp => decide_eq_true fun he => hne (he ▸ hp)
    rw [List.filter_cons_of_neg (by simp), hkept, List.map_map]
    simp [Function.comp_def]
  simp only [Route.ofText, hpieces, hsteps, hlast]
  simp [htext]

theorem hasNul_text (h : ∀ name ∈ l, ProperStep name) : hasNul l.text = false := by
  rw [hasNul_eq_false_iff, toList_text, List.mem_cons, not_or]
  refine ⟨by decide, not_mem_intercalate (by decide) ?_⟩
  simpa using fun name hn => hasNul_eq_false_iff.1 (h name hn).nul

end Location

namespace FileTree

variable {t : FileTree} {l base : Location}

/-- The location is spelled out by names, each of which stands in the directory before it. -/
inductive Spelled (t : FileTree) : Location → Prop
  | root : Spelled t []
  | name {l : Location} {name : String} (above : Spelled t l) (dir : t.find? l = some .directory)
      (proper : ProperStep name) (ne_dot : name ≠ ".") (ne_dots : name ≠ "..")
      (short : nameTooLong name = false)
      (fits : pathTooLong (Location.text (l ++ [name])) = false)
      (found : (t.find? (l ++ [name])).isSome = true) : Spelled t (l ++ [name])

theorem directory?_eq_ok (h : t.find? l = some .directory) : t.directory? l = .ok l := by
  rw [directory?, h]

theorem find?_of_directory? (h : t.directory? base = .ok l) : t.find? base = some .directory := by
  unfold directory? at h
  split at h
  next hd => exact hd
  all_goals cases h

theorem enter_name {name : String} (dir : t.find? l = some .directory) (ne_dot : name ≠ ".")
    (ne_dots : name ≠ "..") (short : nameTooLong name = false)
    (found : (t.find? (l ++ [name])).isSome = true) : t.enter l name = .ok (l ++ [name]) := by
  rw [enter, directory?_eq_ok dir]
  simp only [bind, Except.bind, ne_dot, ne_dots, short, found, Bool.false_eq_true, if_false,
    if_true]
  rfl

namespace Spelled

theorem dropLast (h : Spelled t l) : Spelled t l.dropLast := by
  cases h with
  | root => exact .root
  | name above => rwa [List.dropLast_concat]

theorem properStep (h : Spelled t l) : ∀ name ∈ l, ProperStep name := by
  induction h with
  | root => exact fun name hn => (List.not_mem_nil hn).elim
  | name above dir proper ne_dot ne_dots short fits found ih =>
      intro other ho
      rcases List.mem_append.1 ho with ho | ho
      · exact ih other ho
      · exact List.mem_singleton.1 ho ▸ proper

theorem spell {step : String} (h : Spelled t base) (hstep : ProperStep step)
    (hs : t.spell base step = .ok l) : Spelled t l := by
  unfold FileTree.spell at hs
  split at hs
  next => cases hs
  next hlong =>
      obtain ⟨there, hthere, hnext⟩ := exists_of_bind_ok hs
      have hdir := find?_of_directory? hthere
      rw [directory?_ok hthere] at hnext
      split at hnext
      next => cases hnext; exact h
      next hdot =>
          split at hnext
          next => cases hnext; exact h.dropLast
          next hdots =>
              split at hnext
              next => cases hnext
              next hshort =>
                  split at hnext
                  next hfound =>
                      cases hnext
                      exact .name h hdir hstep hdot hdots (by simpa using hshort)
                        (by simpa [hdot, hdots] using hlong) hfound
                  next => cases hnext

theorem foldlM_spell {steps : List String} (h : Spelled t base)
    (hsteps : ∀ step ∈ steps, ProperStep step) (hs : steps.foldlM t.spell base = .ok l) :
    Spelled t l := by
  induction steps generalizing base with
  | nil => cases hs; exact h
  | cons step steps ih =>
      rw [List.foldlM_cons] at hs
      obtain ⟨next, hstep, hs⟩ := exists_of_bind_ok hs
      exact ih (h.spell (hsteps step List.mem_cons_self) hstep)
        (fun s hm => hsteps s (List.mem_cons_of_mem _ hm)) hs

theorem foldlM_eq (h : Spelled t l) : l.foldlM t.spell [] = .ok l := by
  induction h with
  | root => rfl
  | name above dir proper ne_dot ne_dots short fits found ih =>
      rw [List.foldlM_append, ih]
      simp only [bind, Except.bind, List.foldlM_cons, List.foldlM_nil, FileTree.spell, fits,
        Bool.false_eq_true, and_false, if_false, enter_name dir ne_dot ne_dots short found]
      rfl

theorem walk_eq (h : Spelled t l) : t.walk [] l = .ok l := by
  induction h with
  | root => rfl
  | name above dir proper ne_dot ne_dots short fits found ih =>
      unfold walk at ih ⊢
      rw [List.foldlM_append, ih]
      simp only [bind, Except.bind, List.foldlM_cons, List.foldlM_nil,
        enter_name dir ne_dot ne_dots short found]
      rfl

theorem canonical_text (h : Spelled t l) (base : Location) : t.canonical base l.text = .ok l := by
  rw [canonical, Location.hasNul_text h.properStep, origin, Location.ofText_text h.properStep]
  simp [h.foldlM_eq, bind, Except.bind, pure, Except.pure]

theorem fits_text (h : Spelled t l) : pathTooLong l.text = false := by
  cases h with
  | root => decide +kernel
  | name _ _ _ _ _ _ fits => exact fits

theorem locate_text (h : Spelled t l) (base : Location) : t.locate base l.text = .ok l := by
  rw [locate, screen, Location.hasNul_text h.properStep, h.fits_text, follow, origin,
    Location.ofText_text h.properStep]
  simp [h.walk_eq, bind, Except.bind, pure, Except.pure]

end Spelled

/-- What is found from a location that is spelled out is spelled out. -/
theorem spelled_of_canonical {path : String} (h : Spelled t base)
    (hc : t.canonical base path = .ok l) : Spelled t l := by
  unfold canonical at hc
  cases hnul : hasNul path with
  | true => rw [hnul] at hc; cases hc
  | false =>
      rw [hnul] at hc
      have horigin : Spelled t (origin base path) := by
        unfold origin
        split
        · exact .root
        · exact h
      obtain ⟨-, -, hc⟩ := exists_of_bind_ok hc
      obtain ⟨there, hwalk, hc⟩ := exists_of_bind_ok hc
      have hthere := horigin.foldlM_spell (fun _ => Route.properStep_of_mem_steps hnul) hwalk
      split at hc
      next => exact directory?_ok hc ▸ hthere
      next => cases hc; exact hthere

end FileTree

end CommitMarking
