import CommitMarking.Proofs.Suite.Roundtrip
import Mathlib.Data.List.TakeWhile

namespace CommitMarking.Document

variable {α : Type} {cs rest : List Char}

/-- What a reader takes off the front of a text it takes whatever comes after it, as long as this
begins alike. -/
def Local (read : List Char → Option (List Char)) (cs rest : List Char) : Prop :=
  ∃ used, cs = used ++ rest ∧ ∀ more, more.head? = rest.head? → read (used ++ more) = some more

def Settled (read : Nat → List Char → Option (α × List Char)) (fuel : Nat) (cs : List Char) (a : α)
    (rest : List Char) : Prop :=
  ∃ used, cs = used ++ rest ∧
    ∀ n more, fuel ≤ n → more.head? = rest.head? → read n (used ++ more) = some (a, more)

/-- What is read ends with a character that closes it: nothing that comes after that matters. -/
def Closes (close : Char) (read : Nat → List Char → Option (α × List Char)) (fuel : Nat)
    (cs : List Char) (a : α) (rest : List Char) : Prop :=
  ∃ used, cs = used ++ close :: rest ∧
    ∀ n more, fuel ≤ n → read n (used ++ close :: more) = some (a, more)

theorem Closes.settled {close : Char} {read : Nat → List Char → Option (α × List Char)} {fuel : Nat}
    {a : α} (h : Closes close read fuel cs a rest) : Settled read fuel cs a rest := by
  obtain ⟨used, rfl, hread⟩ := h
  refine ⟨used ++ [close], by simp, fun n more hn _ => ?_⟩
  rw [List.append_assoc, List.singleton_append]
  exact hread n more hn

theorem exists_skipBlank {c : Char} (h : skipBlank cs = c :: rest) :
    ∃ blanks, cs = blanks ++ c :: rest ∧ ∀ more, skipBlank (blanks ++ c :: more) = c :: more := by
  let blank := fun c => c == ' ' || c == '\t' || c == '\n' || c == '\r'
  have hd : cs.dropWhile blank = c :: rest := h
  have hc : blank c = false := by
    have hhead := List.head?_dropWhile_not blank cs
    rw [hd] at hhead
    exact hhead
  refine ⟨cs.takeWhile blank, ?_, fun more => ?_⟩
  · rw [← hd, List.takeWhile_append_dropWhile]
  · change (cs.takeWhile blank ++ c :: more).dropWhile blank = _
    rw [List.dropWhile_append_of_pos fun _ => List.mem_takeWhile_imp,
      List.dropWhile_cons_of_neg (by simp [hc])]

theorem head?_append_congr {used more : List Char} (h : more.head? = rest.head?) :
    (used ++ more).head? = (used ++ rest).head? := by
  rw [List.head?_append, List.head?_append, h]

theorem Settled.until {read : Nat → List Char → Option (α × List Char)} {fuel : Nat} {a : α}
    {middle : List Char} {c : Char} (h : Settled read fuel cs a middle)
    (hc : skipBlank middle = c :: rest) :
    ∃ used, cs = used ++ c :: rest ∧ ∀ n more, fuel ≤ n →
      ∃ middle, read n (used ++ c :: more) = some (a, middle) ∧ skipBlank middle = c :: more := by
  obtain ⟨used, rfl, hread⟩ := h
  obtain ⟨blanks, rfl, hblanks⟩ := exists_skipBlank hc
  refine ⟨used ++ blanks, by simp, fun n more hn => ⟨blanks ++ c :: more, ?_, hblanks more⟩⟩
  rw [List.append_assoc]
  exact hread n _ hn (head?_append_congr rfl)

section Numbers

theorem digits?_local (h : digits? cs = some rest) :
    ∃ c used, c.isDigit = true ∧ cs = c :: (used ++ rest) ∧
      ∀ more, more.head? = rest.head? → digits? (c :: (used ++ more)) = some more := by
  cases cs with
  | nil => cases h
  | cons c cs =>
      rw [digits?] at h
      split at h
      next hc =>
          cases h
          refine ⟨c, cs.takeWhile Char.isDigit, hc, ?_, fun more hm => ?_⟩
          · rw [List.takeWhile_append_dropWhile]
          · have hstop : more.dropWhile Char.isDigit = more := by
              cases more with
              | nil => rfl
              | cons d ds =>
                  have hd := List.head?_dropWhile_not Char.isDigit cs
                  rw [← hm] at hd
                  rw [List.dropWhile_cons_of_neg (by simpa using hd)]
            rw [digits?, if_pos hc,
              List.dropWhile_append_of_pos fun c hc => List.mem_takeWhile_imp hc, hstop]
      next => cases h

theorem exponent?_mark {e c : Char} (he : e = 'e' ∨ e = 'E') (hc : c.isDigit = true) :
    exponent? (e :: c :: cs) = digits? (c :: cs) := by
  have hplus : c ≠ '+' := fun h => by subst h; cases hc
  have hminus : c ≠ '-' := fun h => by subst h; cases hc
  rcases he with rfl | rfl <;> simp [exponent?, hplus, hminus]

theorem exponent?_none (he : cs.head? ≠ some 'e') (hE : cs.head? ≠ some 'E') :
    exponent? cs = some cs := by
  unfold exponent?
  split
  all_goals simp_all

theorem exponent?_local (h : exponent? cs = some rest) : Local exponent? cs rest := by
  have signed {e sign : Char} {ds : List Char} (he : e = 'e' ∨ e = 'E')
      (hs : sign = '+' ∨ sign = '-') (h : digits? ds = some rest) :
      Local exponent? (e :: sign :: ds) rest := by
    obtain ⟨c, used, -, rfl, hmore⟩ := digits?_local h
    refine ⟨e :: sign :: c :: used, rfl, fun more hm => ?_⟩
    have hd := hmore more hm
    rcases he with rfl | rfl <;> rcases hs with rfl | rfl <;> exact hd
  have plain {e : Char} {ds : List Char} (he : e = 'e' ∨ e = 'E') (h : digits? ds = some rest) :
      Local exponent? (e :: ds) rest := by
    obtain ⟨c, used, hc, rfl, hmore⟩ := digits?_local h
    exact ⟨e :: c :: used, rfl, fun more hm => (exponent?_mark he hc).trans (hmore more hm)⟩
  unfold exponent? at h
  split at h
  · exact signed (.inl rfl) (.inl rfl) h
  · exact signed (.inl rfl) (.inr rfl) h
  · exact signed (.inr rfl) (.inl rfl) h
  · exact signed (.inr rfl) (.inr rfl) h
  · exact plain (.inl rfl) h
  · exact plain (.inr rfl) h
  next he hE =>
      cases h
      have hhead {e : Char} (hne : ∀ ds, cs = e :: ds → False) : cs.head? ≠ some e := fun hh => by
        obtain ⟨ds, rfl⟩ := List.head?_eq_some_iff.1 hh
        exact hne ds rfl
      refine ⟨[], rfl, fun more hm => ?_⟩
      rw [List.nil_append]
      exact exponent?_none (hm ▸ hhead he) (hm ▸ hhead hE)

theorem fraction?_local (h : fraction? cs = some rest) : Local fraction? cs rest := by
  unfold fraction? at h
  split at h
  next ds =>
      obtain ⟨middle, hd, he⟩ := Option.bind_eq_some_iff.1 h
      obtain ⟨c, used, -, rfl, hdigits⟩ := digits?_local hd
      obtain ⟨marked, rfl, hexponent⟩ := exponent?_local he
      refine ⟨'.' :: c :: (used ++ marked), by simp, fun more hm => ?_⟩
      have hnext := hdigits (marked ++ more) (head?_append_congr hm)
      have happ : '.' :: c :: (used ++ marked) ++ more = '.' :: c :: (used ++ (marked ++ more)) := by
        simp
      rw [happ, fraction?, hnext]
      exact hexponent more hm
  next hdot =>
      obtain ⟨used, rfl, hexponent⟩ := exponent?_local h
      refine ⟨used, rfl, fun more hm => ?_⟩
      rw [← hexponent more hm]
      unfold fraction?
      split
      next ds hds =>
          have hh : (used ++ more).head? = (used ++ rest).head? := head?_append_congr hm
          rw [hds] at hh
          obtain ⟨ds', hds'⟩ := List.head?_eq_some_iff.1 hh.symm
          exact absurd hds' (hdot ds')
      next => rfl

def unsigned? : List Char → Option (List Char)
  | '0' :: rest => if rest.head?.any Char.isDigit then none else fraction? rest
  | rest => digits? rest >>= fraction?

theorem number?_plain {c : Char} (h : c ≠ '-') (cs : List Char) :
    number? (c :: cs) = unsigned? (c :: cs) := by
  unfold number?
  extract_lets unsigned
  have hunsigned : unsigned = c :: cs := by
    unfold unsigned
    split
    next ds hds => exact absurd (List.cons.inj hds).1 h
    next => rfl
  rw [hunsigned]
  rfl

theorem unsigned?_local (h : unsigned? cs = some rest) :
    ∃ c used, c.isDigit = true ∧ cs = c :: (used ++ rest) ∧
      ∀ more, more.head? = rest.head? → unsigned? (c :: (used ++ more)) = some more := by
  unfold unsigned? at h
  split at h
  next ds =>
      split at h
      next => cases h
      next hd =>
          obtain ⟨used, rfl, hmore⟩ := fraction?_local h
          refine ⟨'0', used, by decide, rfl, fun more hm => ?_⟩
          rw [unsigned?, head?_append_congr hm, if_neg hd]
          exact hmore more hm
  next hzero =>
      obtain ⟨middle, hd, hf⟩ := Option.bind_eq_some_iff.1 h
      obtain ⟨c, whole, hc, rfl, hdigits⟩ := digits?_local hd
      obtain ⟨used, rfl, hfraction⟩ := fraction?_local hf
      refine ⟨c, whole ++ used, hc, by rw [List.append_assoc], fun more hm => ?_⟩
      rw [List.append_assoc, unsigned?, hdigits _ (head?_append_congr hm)]
      · exact hfraction more hm
      · exact fun _ hcons => hzero _ (congrArg (· :: _) (List.cons.inj hcons).1)

def Starts (c : Char) : Prop := c = '-' ∨ c.isDigit = true

theorem number?_local (h : number? cs = some rest) :
    ∃ c used, Starts c ∧ cs = c :: (used ++ rest) ∧
      ∀ more, more.head? = rest.head? → number? (c :: (used ++ more)) = some more := by
  cases cs with
  | nil => cases h
  | cons c cs =>
      by_cases hminus : c = '-'
      · subst hminus
        obtain ⟨c, used, -, rfl, hmore⟩ := unsigned?_local h
        exact ⟨'-', c :: used, .inl rfl, rfl, hmore⟩
      · rw [number?_plain hminus] at h
        obtain ⟨c, used, hc, ⟨rfl, rfl⟩, hmore⟩ := unsigned?_local h
        refine ⟨c, used, .inr hc, rfl, fun more hm => ?_⟩
        exact (number?_plain hminus _).trans (hmore more hm)

end Numbers

section Texts

theorem pieces?_closes {ps : List Piece} (h : pieces? cs = some (ps, rest)) :
    ∃ used, cs = used ++ '"' :: rest ∧ ∀ more, pieces? (used ++ '"' :: more) = some (ps, more) := by
  fun_induction pieces? cs generalizing ps rest with
  | case1 => cases h
  | case2 => cases h; exact ⟨[], rfl, fun more => rfl⟩
  | case3 a b c d cs ih =>
      obtain ⟨unit, hunit, h⟩ := Option.bind_eq_some_iff.1 h
      obtain ⟨⟨qs, _⟩, hqs, ⟨⟩⟩ := Option.bind_eq_some_iff.1 h
      obtain ⟨used, rfl, hmore⟩ := ih hqs
      refine ⟨'\\' :: 'u' :: a :: b :: c :: d :: used, rfl, fun more => ?_⟩
      simp only [List.cons_append]
      rw [pieces?, hunit, hmore more]
      rfl
  | case4 e cs _ ih =>
      obtain ⟨c, hc, h⟩ := Option.bind_eq_some_iff.1 h
      obtain ⟨⟨qs, _⟩, hqs, ⟨⟩⟩ := Option.bind_eq_some_iff.1 h
      obtain ⟨used, rfl, hmore⟩ := ih hqs
      have hu : e ≠ 'u' := fun hu => by rw [hu] at hc; cases hc
      refine ⟨'\\' :: e :: used, rfl, fun more => ?_⟩
      exact (pieces?_named hu hc _).trans (congrArg (Option.map _) (hmore more))
  | case5 => cases h
  | case6 c cs hq _ _ hc ih =>
      obtain ⟨⟨qs, _⟩, hqs, ⟨⟩⟩ := Option.bind_eq_some_iff.1 h
      obtain ⟨used, rfl, hmore⟩ := ih hqs
      refine ⟨c :: used, rfl, fun more => ?_⟩
      rw [not_or] at hc
      exact (pieces?_plain hq hc.2 hc.1 _).trans (congrArg (Option.map _) (hmore more))

theorem text?_closes {t : Option String} (h : text? cs = some (t, rest)) :
    ∃ used, cs = used ++ '"' :: rest ∧ ∀ more, text? (used ++ '"' :: more) = some (t, more) := by
  obtain ⟨⟨ps, _⟩, hps, ⟨⟩⟩ := Option.bind_eq_some_iff.1 h
  obtain ⟨used, rfl, hmore⟩ := pieces?_closes hps
  refine ⟨used, rfl, fun more => ?_⟩
  rw [text?, hmore]
  rfl

end Texts

section Values

variable {fuel : Nat}

theorem value?_number {c : Char} {ds : List Char} (hc : Starts c) (h : skipBlank cs = c :: ds) :
    value? (fuel + 1) cs = (number? (c :: ds)).map fun rest => (.other, rest) := by
  have hne {d : Char} (hd : ¬Starts d) : c ≠ d := fun h => hd (h ▸ hc)
  rw [value?, h]
  split
  case h_7 => rfl
  all_goals
    next ds hds => exact absurd (List.cons.inj hds).1 (hne (by simp [Starts]))

theorem items?_closes_succ {vs : List Document}
    (hvalue : ∀ {cs v rest}, value? fuel cs = some (v, rest) → Settled value? fuel cs v rest)
    (hitems : ∀ {cs vs rest}, items? fuel cs = some (vs, rest) → Closes ']' items? fuel cs vs rest)
    (h : items? (fuel + 1) cs = some (vs, rest)) : Closes ']' items? (fuel + 1) cs vs rest := by
  rw [items?] at h
  obtain ⟨⟨v, middle⟩, hv, hlist⟩ := Option.bind_eq_some_iff.1 h
  dsimp only at hlist
  split at hlist
  next ds hds =>
      obtain ⟨⟨ws, _⟩, hws, ⟨⟩⟩ := Option.bind_eq_some_iff.1 hlist
      obtain ⟨used, rfl, hread⟩ := (hvalue hv).until hds
      obtain ⟨listed, rfl, hlisted⟩ := hitems hws
      refine ⟨used ++ ',' :: listed, by simp, fun n more hn => ?_⟩
      obtain ⟨n, rfl, hn⟩ := Nat.exists_eq_add_of_le' hn
      obtain ⟨middle, hv, hmiddle⟩ := hread (n + fuel) (listed ++ ']' :: more) (by omega)
      simp [items?, hv, hmiddle, hlisted]
  next ds hds =>
      cases hlist
      obtain ⟨used, rfl, hread⟩ := (hvalue hv).until hds
      refine ⟨used, rfl, fun n more hn => ?_⟩
      obtain ⟨n, rfl, hn⟩ := Nat.exists_eq_add_of_le' hn
      obtain ⟨middle, hv, hmiddle⟩ := hread (n + fuel) more (by omega)
      simp [items?, hv, hmiddle]
  next => cases hlist

theorem fields?_closes_succ {fs : List (Option String × Document)}
    (hvalue : ∀ {cs v rest}, value? fuel cs = some (v, rest) → Settled value? fuel cs v rest)
    (hfields : ∀ {cs fs rest},
      fields? fuel cs = some (fs, rest) → Closes '\x7d' fields? fuel cs fs rest)
    (h : fields? (fuel + 1) cs = some (fs, rest)) :
    Closes '\x7d' fields? (fuel + 1) cs fs rest := by
  rw [fields?] at h
  split at h
  next ds hds =>
      obtain ⟨opening, rfl, hopening⟩ := exists_skipBlank hds
      obtain ⟨⟨key, after⟩, hkey, hcolon⟩ := Option.bind_eq_some_iff.1 h
      obtain ⟨named, rfl, hnamed⟩ := text?_closes hkey
      dsimp only at hcolon
      split at hcolon
      next ds hds =>
          obtain ⟨blanks, rfl, hblanks⟩ := exists_skipBlank hds
          obtain ⟨⟨v, middle⟩, hv, hrecord⟩ := Option.bind_eq_some_iff.1 hcolon
          dsimp only at hrecord
          split at hrecord
          next ds hds =>
              obtain ⟨⟨gs, _⟩, hgs, ⟨⟩⟩ := Option.bind_eq_some_iff.1 hrecord
              obtain ⟨used, rfl, hread⟩ := (hvalue hv).until hds
              obtain ⟨listed, rfl, hlisted⟩ := hfields hgs
              refine ⟨opening ++ '"' :: named ++ '"' :: blanks ++ ':' :: used ++ ',' :: listed,
                by simp, fun n more hn => ?_⟩
              obtain ⟨n, rfl, hn⟩ := Nat.exists_eq_add_of_le' hn
              obtain ⟨middle, hv, hmiddle⟩ := hread (n + fuel) (listed ++ '\x7d' :: more) (by omega)
              simp [fields?, hopening, hnamed, hblanks, hv, hmiddle, hlisted]
          next ds hds =>
              cases hrecord
              obtain ⟨used, rfl, hread⟩ := (hvalue hv).until hds
              refine ⟨opening ++ '"' :: named ++ '"' :: blanks ++ ':' :: used, by simp,
                fun n more hn => ?_⟩
              obtain ⟨n, rfl, hn⟩ := Nat.exists_eq_add_of_le' hn
              obtain ⟨middle, hv, hmiddle⟩ := hread (n + fuel) more (by omega)
              simp [fields?, hopening, hnamed, hblanks, hv, hmiddle]
          next => cases hrecord
      next => cases hcolon
  next => cases h

structure Bracketed {β : Type} (opening closing : Char) (make : List β → Document)
    (entries : Nat → List Char → Option (List β × List Char)) : Prop where
  empty {fuel : Nat} {cs ds es : List Char} (hs : skipBlank cs = opening :: ds)
    (hd : skipBlank ds = closing :: es) : value? (fuel + 1) cs = some (make [], es)
  nonempty {fuel : Nat} {cs ds : List Char} (hs : skipBlank cs = opening :: ds)
    (hd : ∀ es, skipBlank ds ≠ closing :: es) :
    value? (fuel + 1) cs = (entries fuel (skipBlank ds)).map fun p => (make p.1, p.2)

theorem bracketed_list : Bracketed '[' ']' .list items? where
  empty hs hd := by rw [value?, hs]; simp [hd]
  nonempty hs hd := by
    rw [value?, hs]
    simp

theorem bracketed_record : Bracketed '\x7b' '\x7d' .record fields? where
  empty hs hd := by rw [value?, hs]; simp [hd]
  nonempty hs hd := by
    rw [value?, hs]
    simp

theorem Bracketed.closes {β : Type} {opening closing : Char} {make : List β → Document}
    {entries : Nat → List Char → Option (List β × List Char)} {v : Document} {ds : List Char}
    (hb : Bracketed opening closing make entries)
    (hentries : ∀ {cs vs rest},
      entries fuel cs = some (vs, rest) → Closes closing entries fuel cs vs rest)
    (hs : skipBlank cs = opening :: ds) (h : value? (fuel + 1) cs = some (v, rest)) :
    Closes closing value? (fuel + 1) cs v rest := by
  obtain ⟨front, rfl, hfront⟩ := exists_skipBlank hs
  by_cases hd : ∃ es, skipBlank ds = closing :: es
  · obtain ⟨es, hes⟩ := hd
    obtain ⟨blanks, rfl, hblanks⟩ := exists_skipBlank hes
    cases h.symm.trans (hb.empty hs hes)
    refine ⟨front ++ opening :: blanks, by simp, fun n more hn => ?_⟩
    obtain ⟨n, rfl, hn⟩ := Nat.exists_eq_add_of_le' hn
    rw [List.append_assoc]
    exact hb.empty (hfront _) (hblanks more)
  · rw [hb.nonempty hs (not_exists.1 hd)] at h
    obtain ⟨⟨vs, _⟩, hvs, ⟨⟩⟩ := Option.map_eq_some_iff.1 h
    obtain ⟨listed, hlisted, hread⟩ := hentries hvs
    cases listed with
    | nil => exact absurd ⟨_, hlisted⟩ hd
    | cons c listed =>
        obtain ⟨blanks, rfl, hblanks⟩ := exists_skipBlank hlisted
        have hc : c ≠ closing := fun hc => hd ⟨_, (hblanks _).trans (congrArg (· :: _) hc)⟩
        refine ⟨front ++ opening :: (blanks ++ c :: listed), by simp, fun n more hn => ?_⟩
        obtain ⟨n, rfl, hn⟩ := Nat.exists_eq_add_of_le' hn
        have happ : front ++ opening :: (blanks ++ c :: listed) ++ closing :: more =
            front ++ opening :: (blanks ++ c :: (listed ++ closing :: more)) := by simp
        have hskip := hblanks (listed ++ closing :: more)
        have hne : ∀ es, skipBlank (blanks ++ c :: (listed ++ closing :: more)) ≠ closing :: es :=
          fun es hes => hc (List.cons.inj (hskip.symm.trans hes)).1
        rw [happ, ← Nat.add_assoc, hb.nonempty (hfront _) hne, hskip]
        exact congrArg (Option.map _) (hread (n + fuel) more (Nat.le_add_left fuel n))

theorem value?_text_closes {v : Document} {ds : List Char}
    (hs : skipBlank cs = '"' :: ds) (h : value? (fuel + 1) cs = some (v, rest)) :
    Closes '"' value? (fuel + 1) cs v rest := by
  obtain ⟨opening, rfl, hopening⟩ := exists_skipBlank hs
  rw [value?, hs] at h
  obtain ⟨⟨t, _⟩, ht, ⟨⟩⟩ := Option.map_eq_some_iff.1 h
  obtain ⟨used, rfl, hused⟩ := text?_closes ht
  refine ⟨opening ++ '"' :: used, by simp, fun n more hn => ?_⟩
  obtain ⟨n, rfl, hn⟩ := Nat.exists_eq_add_of_le' hn
  simp [value?, hopening, hused]

theorem value?_number_settled {v : Document} {c : Char} {ds : List Char} (hc : Starts c)
    (hs : skipBlank cs = c :: ds) (h : value? (fuel + 1) cs = some (v, rest)) :
    Settled value? (fuel + 1) cs v rest := by
  obtain ⟨opening, rfl, hopening⟩ := exists_skipBlank hs
  rw [value?_number hc hs] at h
  obtain ⟨_, hn, ⟨⟩⟩ := Option.map_eq_some_iff.1 h
  obtain ⟨_, used, -, ⟨rfl, rfl⟩, hused⟩ := number?_local hn
  refine ⟨opening ++ c :: used, by simp, fun n more hn hm => ?_⟩
  obtain ⟨n, rfl, hn⟩ := Nat.exists_eq_add_of_le' hn
  rw [List.append_assoc]
  exact (value?_number hc (hopening _)).trans (congrArg _ (hused more hm))

theorem value?_settled_succ {v : Document}
    (hitems : ∀ {cs vs rest}, items? fuel cs = some (vs, rest) → Closes ']' items? fuel cs vs rest)
    (hfields : ∀ {cs fs rest},
      fields? fuel cs = some (fs, rest) → Closes '\x7d' fields? fuel cs fs rest)
    (h : value? (fuel + 1) cs = some (v, rest)) : Settled value? (fuel + 1) cs v rest := by
  have word {w : Char} {ds : List Char} (ws : List Char) (hs : skipBlank cs = w :: (ws ++ ds))
      (hw : ∀ n cs ds, skipBlank cs = w :: (ws ++ ds) → value? (n + 1) cs = some (v, ds)) :
      Settled value? (fuel + 1) cs v ds := by
    obtain ⟨opening, rfl, hopening⟩ := exists_skipBlank hs
    refine ⟨opening ++ w :: ws, by simp, fun n more hn _ => ?_⟩
    obtain ⟨n, rfl, hn⟩ := Nat.exists_eq_add_of_le' hn
    rw [List.append_assoc]
    exact hw _ _ _ (hopening (ws ++ more))
  have hread := h
  rw [value?] at h
  split at h
  next ds hs => exact (value?_text_closes hs hread).settled
  next ds hs => exact (bracketed_list.closes hitems hs hread).settled
  next ds hs => exact (bracketed_record.closes hfields hs hread).settled
  next ds hs =>
      cases h
      exact word ['u', 'l', 'l'] hs fun n cs ds hs => by rw [value?, hs]; rfl
  next ds hs =>
      cases h
      exact word ['r', 'u', 'e'] hs fun n cs ds hs => by rw [value?, hs]; rfl
  next ds hs =>
      cases h
      exact word ['a', 'l', 's', 'e'] hs fun n cs ds hs => by rw [value?, hs]; rfl
  next =>
      obtain ⟨_, hn, ⟨⟩⟩ := Option.map_eq_some_iff.1 h
      obtain ⟨c, used, hc, hs, -⟩ := number?_local hn
      exact value?_number_settled hc hs hread

/-- Whatever stands after a value, a list or a record, it does not change how these are read. -/
theorem closes (fuel : Nat) :
    (∀ {cs v rest}, value? fuel cs = some (v, rest) → Settled value? fuel cs v rest) ∧
      (∀ {cs vs rest}, items? fuel cs = some (vs, rest) → Closes ']' items? fuel cs vs rest) ∧
      ∀ {cs fs rest}, fields? fuel cs = some (fs, rest) → Closes '\x7d' fields? fuel cs fs rest := by
  -- The three readers call each other, so each has what the other two have for less fuel.
  induction fuel with
  | zero => exact ⟨fun h => (by cases h), fun h => (by cases h), fun h => (by cases h)⟩
  | succ fuel ih =>
      obtain ⟨hvalue, hitems, hfields⟩ := ih
      exact ⟨value?_settled_succ hitems hfields, items?_closes_succ hvalue hitems,
        fields?_closes_succ hvalue hfields⟩

theorem value?_closes {v : Document} (h : value? fuel ('\x7b' :: cs) = some (v, rest)) :
    Closes '\x7d' value? fuel ('\x7b' :: cs) v rest := by
  cases fuel with
  | zero => cases h
  | succ fuel => exact bracketed_record.closes (closes fuel).2.2 rfl h

/-- No part of a record that something is missing from is a record. -/
theorem read?_cut {v : Document} {p q : List Char}
    (h : value? fuel ('\x7b' :: (p ++ q)) = some (v, [])) (hq : q ≠ []) :
    read? ('\x7b' :: p) = none := by
  rcases hr : value? (2 * ('\x7b' :: p).length + 2) ('\x7b' :: p) with _ | ⟨u, rest⟩
  · rw [read?, hr]
  · obtain ⟨used, hused, hread⟩ := value?_closes hr
    obtain ⟨whole, hwhole, hall⟩ := value?_closes h
    have hlong := hread _ (rest ++ q) (Nat.le_add_right _ fuel)
    have htext : used ++ '\x7d' :: (rest ++ q) = whole ++ ['\x7d'] := calc
      used ++ '\x7d' :: (rest ++ q) = used ++ '\x7d' :: rest ++ q := by simp
      _ = '\x7b' :: p ++ q := by rw [← hused]
      _ = whole ++ ['\x7d'] := hwhole
    rw [htext, hall _ [] (Nat.le_add_left fuel _)] at hlong
    have hnil : [] = rest ++ q := congrArg Prod.snd (Option.some.inj hlong)
    exact absurd (List.append_eq_nil_iff.1 hnil.symm).2 hq

/-- A record does not end with a character that is neither blank nor its bracket. -/
theorem read?_stray {c : Char} (hc : c ≠ '\x7d') (hblank : skipBlank [c] = [c]) (p : List Char) :
    read? ('\x7b' :: p ++ [c]) = none := by
  rcases hr : value? (2 * ('\x7b' :: p ++ [c]).length + 2) ('\x7b' :: p ++ [c]) with _ | ⟨u, rest⟩
  · rw [read?, hr]
  · obtain ⟨used, hused, -⟩ := value?_closes hr
    have hlast {front : List Char} {d : Char} (h : '\x7b' :: p ++ [c] = front ++ [d]) : c = d :=
      (List.cons.inj (List.append_inj' h rfl).2).1
    have hrest : skipBlank rest ≠ [] := fun hnil => by
      rcases rest.eq_nil_or_concat with rfl | ⟨front, d, rfl⟩
      · exact hc (hlast hused)
      · rw [List.concat_eq_append] at hused hnil
        have happ : used ++ '\x7d' :: (front ++ [d]) = used ++ '\x7d' :: front ++ [d] := by simp
        obtain rfl := hlast (hused.trans happ)
        have hd := List.dropWhile_eq_nil_iff.1 hnil c (by simp)
        exact absurd (hblank.symm.trans (List.dropWhile_cons_of_pos hd)) (by simp)
    rw [read?, hr]
    exact if_neg hrest

end Values

end CommitMarking.Document
