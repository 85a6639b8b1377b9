import CommitMarking.Scope
import Mathlib.Data.List.Basic

namespace CommitMarking.Scope

/-- A binding added to the scope of number `source`, which makes one more scope. -/
structure Growth where
  source : Nat
  name : String
  value : Value
  deriving DecidableEq, Repr

def Growth.binding (g : Growth) : String × Value := (g.name, g.value)

/-- Scopes grow from the empty one, which is number 0, each from any that is there already. -/
inductive Grown : List Growth → List Scope → Prop
  | empty : Grown [] [.empty]
  | bind {gs : List Growth} {scopes : List Scope} {g : Growth} {s : Scope} (h : Grown gs scopes)
      (hs : scopes[g.source]? = some s) : Grown (gs ++ [g]) (scopes ++ [s.bind g.name g.value])

inductive Path (gs : List Growth) : Nat → List (String × Value) → Prop
  | root : Path gs 0 []
  | bind {i : Nat} {g : Growth} {path : List (String × Value)} (hg : gs[i]? = some g)
      (h : Path gs g.source path) : Path gs (i + 1) (path ++ [g.binding])

def Innermost (path : List (String × Value)) (name : String) (value : Value) : Prop :=
  ∃ before after, path = before ++ (name, value) :: after ∧ ∀ b ∈ after, b.1 ≠ name

/-- Two neighbours of different names change places, or a binding is left out whose name is bound
again later. -/
inductive Rearranged : List (String × Value) → List (String × Value) → Prop
  | swap (before after : List (String × Value)) {a b : String × Value} (h : a.1 ≠ b.1) :
      Rearranged (before ++ a :: b :: after) (before ++ b :: a :: after)
  | drop (before between after : List (String × Value)) {a b : String × Value} (h : a.1 = b.1) :
      Rearranged (before ++ a :: (between ++ b :: after)) (before ++ (between ++ b :: after))

section Paths

variable {gs more : List Growth} {scopes : List Scope} {path other : List (String × Value)}
  {i : Nat} {s : Scope}

theorem Path.mono (h : Path gs i path) : Path (gs ++ more) i path := by
  induction h with
  | root => exact .root
  | bind hg _ ih =>
      refine .bind ?_ ih
      rw [List.getElem?_append_left (List.getElem?_eq_some_iff.1 hg).1, hg]

theorem Path.unique (h : Path gs i path) (ho : Path gs i other) : other = path := by
  induction h generalizing other with
  | root => cases ho; rfl
  | bind hg _ ih =>
      cases ho with
      | bind hg' ho =>
          obtain rfl := Option.some.inj (hg.symm.trans hg')
          rw [ih ho]

theorem Grown.length_eq (h : Grown gs scopes) : scopes.length = gs.length + 1 := by
  induction h with
  | empty => rfl
  | bind _ _ ih => rw [List.length_append, List.length_append, ih]; rfl

theorem eq_of_getElem?_singleton {α : Type} {a b : α} {i : Nat} (h : [a][i]? = some b) :
    i = 0 ∧ a = b := by
  rw [List.getElem?_singleton] at h
  split at h
  next hi => exact ⟨hi, Option.some.inj h⟩
  next => cases h

/-- A scope is the chain of the bindings on its path, the innermost first. -/
theorem Grown.exists_path (h : Grown gs scopes) (hs : scopes[i]? = some s) :
    ∃ path, Path gs i path ∧ s.bindings = path.reverse := by
  induction h generalizing i s with
  | empty =>
      obtain ⟨rfl, rfl⟩ := eq_of_getElem?_singleton hs
      exact ⟨[], .root, rfl⟩
  | @bind gs scopes g source h hsource ih =>
      rw [List.getElem?_append] at hs
      split at hs
      next =>
          obtain ⟨path, hpath, hbindings⟩ := ih hs
          exact ⟨path, hpath.mono, hbindings⟩
      next hi =>
          obtain ⟨hlast, rfl⟩ := eq_of_getElem?_singleton hs
          obtain ⟨path, hpath, hbindings⟩ := ih hsource
          have hg : (gs ++ [g])[gs.length]? = some g := List.getElem?_concat_length
          obtain rfl : i = gs.length + 1 := by
            rw [h.length_eq] at hi hlast
            omega
          refine ⟨path ++ [g.binding], .bind hg hpath.mono, ?_⟩
          rw [List.reverse_concat, ← hbindings]
          rfl

theorem Grown.getElem?_eq {all : List Scope} (hall : Grown (gs ++ more) all) (h : Grown gs scopes)
    (hs : scopes[i]? = some s) : all[i]? = some s := by
  obtain ⟨hi, -⟩ := List.getElem?_eq_some_iff.1 hs
  obtain ⟨t, ht⟩ : ∃ t, all[i]? = some t := by
    rw [h.length_eq] at hi
    rw [← Option.isSome_iff_exists, isSome_getElem?, hall.length_eq, List.length_append]
    omega
  obtain ⟨path, hpath, hbindings⟩ := h.exists_path hs
  obtain ⟨own, hown, hownBindings⟩ := hall.exists_path ht
  obtain rfl := hpath.mono.unique hown
  have hts : t = s := congrArg Scope.mk (hownBindings.trans hbindings.symm)
  rw [ht, hts]

end Paths

theorem innermost_iff {path : List (String × Value)} {name : String} {value : Value} :
    Innermost path name value ↔ path.reverse.lookup name = some value := by
  rw [List.lookup_eq_some_iff]
  constructor
  · rintro ⟨before, after, rfl, h⟩
    refine ⟨after.reverse, before.reverse, by simp, fun b hb => ?_⟩
    simpa using (h b (List.mem_reverse.1 hb)).symm
  · rintro ⟨after, before, hpath, h⟩
    refine ⟨before.reverse, after.reverse, ?_, fun b hb => ?_⟩
    · rw [← List.reverse_reverse path, hpath]
      simp
    · have hne := h b (List.mem_reverse.1 hb)
      simpa using Ne.symm (bne_iff_ne.1 hne)

theorem lookup_singleton (b : String × Value) (name : String) :
    [b].lookup name = if name = b.1 then some b.2 else none := by
  by_cases h : name = b.1
  · rw [if_pos h, h, List.lookup_cons_self]
  · rw [if_neg h, List.lookup_cons, beq_false_of_ne h, List.lookup_nil]

theorem Rearranged.lookup_eq {path other : List (String × Value)} (h : Rearranged path other)
    (name : String) : other.reverse.lookup name = path.reverse.lookup name := by
  cases h with
  | @swap before after a b h =>
      simp only [List.reverse_append, List.reverse_cons, List.lookup_append, List.append_assoc,
        lookup_singleton]
      by_cases ha : name = a.1
      · rw [if_pos ha, if_neg (ha ▸ h), Option.none_or, Option.none_or]
      · rw [if_neg ha, Option.none_or, Option.none_or]
  | @drop before between after a b h =>
      simp only [List.reverse_append, List.reverse_cons, List.lookup_append, lookup_singleton, h]
      by_cases hb : name = b.1
      · -- whatever comes after it, the later binding is found first
        simp [hb]
      · simp [hb]

section Lookups

variable {s t : Scope} {path other : List (String × Value)}

theorem lookup_eq_some_iff (h : s.bindings = path.reverse) (name : String) (value : Value) :
    s.lookup name = some value ↔ Innermost path name value := by
  rw [innermost_iff, lookup, h]

theorem lookup_eq_none_iff (h : s.bindings = path.reverse) (name : String) :
    s.lookup name = none ↔ ∀ b ∈ path, b.1 ≠ name := by
  rw [lookup, h, List.lookup_eq_none_iff]
  simp only [List.mem_reverse, bne_iff_ne]
  exact forall₂_congr fun _ _ => ne_comm

theorem get_congr {name : String} (h : t.lookup name = s.lookup name) (k : Kind) :
    t.get k name = s.get k name := by
  rw [get, get, h]

theorem get_eq_ok {k : Kind} {name : String} {v : k.Carrier} :
    s.get k name = .ok v ↔ s.lookup name = some (.of k v) := by
  rw [get]
  cases s.lookup name with
  | none => simp
  | some value =>
      rw [Option.some_inj, ← Value.as?_eq_some_iff]
      cases hv : value.as? k <;> simp [hv]

theorem get_eq_typeMismatch {k : Kind} {name : String} :
    s.get k name = .error (.typeMismatch name k) ↔
      ∃ value, s.lookup name = some value ∧ value.kind ≠ k := by
  rw [get]
  cases s.lookup name with
  | none => simp
  | some value =>
      simp only [Option.some_inj, exists_eq_left', ← Value.as?_eq_none_iff]
      cases value.as? k <;> simp

theorem get_eq_unboundVariable {k : Kind} {name : String} :
    s.get k name = .error (.unboundVariable name) ↔ s.lookup name = none := by
  rw [get]
  cases s.lookup name with
  | none => simp
  | some value => cases hv : value.as? k <;> simp [hv]

end Lookups

/-- Scopes are finite maps that share what they have in common. What a scope has for a name is what
the last binding of it on its own path holds, whichever scopes are made from it or beside it, and
no binding further out is looked at, whatever kind of value is asked for. -/
theorem Grown.tells_innermost {gs : List Growth} {scopes : List Scope} (h : Grown gs scopes)
    {i : Nat} {s : Scope} (hs : scopes[i]? = some s) :
    ∃ path, (Path gs i path ∧ ∀ other, Path gs i other → other = path) ∧
      (∀ name value, s.lookup name = some value ↔ Innermost path name value) ∧
      (∀ name, s.lookup name = none ↔ ∀ b ∈ path, b.1 ≠ name) ∧
      (∀ more all, Grown (gs ++ more) all → all[i]? = some s) ∧
      (∀ {steps others j t moved}, Grown steps others → others[j]? = some t → Path steps j moved →
        Rearranged path moved →
          ∀ name, t.lookup name = s.lookup name ∧ ∀ k, t.get k name = s.get k name) ∧
      ∀ k name,
        ((∃ v, s.get k name = .ok v) ↔ ∃ value, Innermost path name value ∧ value.kind = k) ∧
        (∀ v, s.get k name = .ok v ↔ Innermost path name (.of k v)) ∧
        (s.get k name = .error (.typeMismatch name k) ↔
          ∃ value, Innermost path name value ∧ value.kind ≠ k) ∧
        (s.get k name = .error (.unboundVariable name) ↔ ∀ b ∈ path, b.1 ≠ name) := by
  obtain ⟨path, hpath, hbindings⟩ := h.exists_path hs
  have hsome := lookup_eq_some_iff hbindings
  have hnone := lookup_eq_none_iff hbindings
  refine ⟨path, ⟨hpath, fun _ => hpath.unique⟩, hsome, hnone, fun more all hall => ?_, ?_, ?_⟩
  · exact hall.getElem?_eq h hs
  · intro steps others j t moved hothers hj hmoved hrearranged name
    obtain ⟨own, hown, ht⟩ := hothers.exists_path hj
    obtain rfl := hmoved.unique hown
    have hlookup : t.lookup name = s.lookup name := by
      rw [lookup, lookup, ht, hbindings, hrearranged.lookup_eq]
    exact ⟨hlookup, get_congr hlookup⟩
  · intro k name
    refine ⟨?_, fun v => get_eq_ok.trans (hsome name _), ?_,
      get_eq_unboundVariable.trans (hnone name)⟩
    · simp only [get_eq_ok, ← hsome]
      constructor
      · rintro ⟨v, hv⟩
        exact ⟨_, hv, Value.kind_of k v⟩
      · rintro ⟨value, hvalue, rfl⟩
        obtain ⟨v, hv⟩ := Value.exists_eq_of value
        exact ⟨v, hv ▸ hvalue⟩
    · simp only [get_eq_typeMismatch, hsome]

/-- Of two scopes made from the same one the second hides its number behind a truth value, and what
the first is bound to besides is not seen there. -/
theorem Grown.tells_innermost_shared :
    let gs : List Growth :=
      [⟨0, "size", .int 40⟩, ⟨1, "flag", .bool true⟩, ⟨1, "size", .bool false⟩]
    let sized : Scope := .bind .empty "size" (.int 40)
    let hidden : Scope := sized.bind "size" (.bool false)
    let scopes : List Scope := [.empty, sized, sized.bind "flag" (.bool true), hidden]
    (Grown gs scopes ∧ scopes[3]? = some hidden) ∧
      hidden.get .int "size" = .error (.typeMismatch "size" .int) ∧
      hidden.get .bool "flag" = .error (.unboundVariable "flag") := by
  intro gs sized hidden scopes
  have h : Grown gs scopes := ((Grown.empty.bind rfl).bind rfl).bind rfl
  have hs : scopes[3]? = some hidden := rfl
  obtain ⟨path, ⟨-, hunique⟩, -, -, -, -, hget⟩ := h.tells_innermost hs
  have hsized : Path gs 1 ([] ++ [Growth.binding ⟨0, "size", .int 40⟩]) := .bind rfl .root
  have hown : Path gs 3 ([("size", .int 40)] ++ [Growth.binding ⟨1, "size", .bool false⟩]) :=
    .bind rfl hsized
  obtain rfl := hunique _ hown
  obtain ⟨-, -, hmismatch, -⟩ := hget .int "size"
  obtain ⟨-, -, -, hunbound⟩ := hget .bool "flag"
  have hinner : Innermost [("size", .int 40), ("size", .bool false)] "size" (.bool false) :=
    ⟨[("size", .int 40)], [], rfl, nofun⟩
  exact ⟨⟨h, hs⟩, hmismatch.2 ⟨.bool false, hinner, nofun⟩, hunbound.2 (by decide)⟩

end CommitMarking.Scope
