import CommitMarking.Text.Columns
import CommitMarking.Text.Decimal
import Mathlib.Data.List.Basic

namespace CommitMarking.Text

def unlines (ls : List String) : String := String.join (ls.map (· ++ "\n"))

theorem unlines_cons (l : String) (ls : List String) : unlines (l :: ls) = l ++ "\n" ++ unlines ls := by
  rw [unlines, List.map_cons, String.join_cons, unlines]

theorem unlines_append (ls ls' : List String) : unlines (ls ++ ls') = unlines ls ++ unlines ls' := by
  rw [unlines, List.map_append, String.join_append, unlines, unlines]

theorem unlines_map {α : Type} (f : α → String) (as : List α) :
    unlines (as.map f) = String.join (as.map fun a => f a ++ "\n") := by
  rw [unlines, List.map_map]
  rfl

/-- The text has these lines, all of them ended by a newline: cut at its newlines, it has nothing left
after the last one. -/
def Lined (text : String) (ls : List String) : Prop :=
  text.toList.splitOn '\n' = ls.map String.toList ++ [[]]

theorem lined_unlines {ls : List String} (h : ∀ l ∈ ls, '\n' ∉ l.toList) : Lined (unlines ls) ls := by
  induction ls with
  | nil => rfl
  | cons l ls ih =>
      rw [List.forall_mem_cons] at h
      have hcons : (unlines (l :: ls)).toList = l.toList ++ '\n' :: (unlines ls).toList := by
        simp [unlines_cons]
      rw [Lined, hcons, List.splitOn_append_cons_self, List.splitOn_eq_singleton h.1, ih h.2]
      rfl

theorem not_mem_fill {a c : Char} (h : a ≠ c) (n : Nat) : a ∉ (fill c n).toList := by
  simp [fill, h]

theorem not_mem_line {a padding : Char} {left right : String} (hl : a ∉ left.toList)
    (hp : a ≠ padding) (hs : a ≠ ' ') (hr : a ∉ right.toList) (width : Nat) :
    a ∉ (line left padding right width).toList := by
  simp [line, hl, hs, hr, not_mem_fill hp]

def afterLast (c : Char) (s : String) : String :=
  String.ofList ((s.toList.splitOn c).getLast?.getD [])

def beforeFirst (c : Char) (s : String) : String := String.ofList (s.toList.takeWhile (· ≠ c))

theorem afterLast_append {c : Char} {right : String} (h : c ∉ right.toList) (left : String) :
    afterLast c (left ++ c.toString ++ right) = right := by
  have hs : (left ++ c.toString ++ right).toList = left.toList ++ c :: right.toList := by simp
  rw [afterLast, hs, List.splitOn_append_cons_self, List.splitOn_eq_singleton h]
  simp

theorem beforeFirst_append {c : Char} {left : String} (h : c ∉ left.toList) (right : String) :
    beforeFirst c (left ++ c.toString ++ right) = left := by
  have hs : (left ++ c.toString ++ right).toList = left.toList ++ c :: right.toList := by simp
  have hall : ∀ a ∈ left.toList, decide (a ≠ c) = true := fun a ha =>
    decide_eq_true fun hac => h (hac ▸ ha)
  rw [beforeFirst, hs, List.takeWhile_append_of_pos hall, List.takeWhile_cons_of_neg (by simp)]
  simp

namespace Decimal

theorem toList_ofNat (n : Nat) : (ofNat n).toList = Nat.toDigits 10 n := String.toList_ofList

theorem isDigit_of_mem_ofNat {n : Nat} {c : Char} (h : c ∈ (ofNat n).toList) : c.isDigit = true :=
  Nat.isDigit_of_mem_toDigits (by decide) (by decide) (toList_ofNat n ▸ h)

theorem not_mem_ofNat {c : Char} (h : c.isDigit = false) (n : Nat) : c ∉ (ofNat n).toList :=
  fun hc => by rw [isDigit_of_mem_ofNat hc] at h; cases h

theorem not_mem_ofInt {c : Char} (h : c.isDigit = false) (hm : c ≠ '-') (n : Int) :
    c ∉ (ofInt n).toList := by
  cases n with
  | ofNat n => exact not_mem_ofNat h n
  | negSucc n => simp [ofInt, hm, not_mem_ofNat h]

theorem not_mem_signed {c : Char} (h : c.isDigit = false) (hp : c ≠ '+') (hm : c ≠ '-') (n : Int) :
    c ∉ (signed n).toList := by
  cases n with
  | ofNat n => simp [signed, hp, not_mem_ofNat h]
  | negSucc n => simp [signed, hm, not_mem_ofNat h]

theorem signed_eq {n : Int} (h : n ≠ 0) :
    signed n = (if 0 < n then "+" else "-") ++ ofNat n.natAbs := by
  cases n with
  | ofNat n =>
      rw [Int.ofNat_eq_natCast] at h ⊢
      rw [if_pos (by omega)]
      rfl
  | negSucc n => rfl

theorem filter_range (n : Int64) :
    ((some n.toInt).filter fun n =>
      decide (Int64.minValue.toInt ≤ n) && decide (n ≤ Int64.maxValue.toInt)).map Int64.ofInt =
        some n := by
  have h : (decide (Int64.minValue.toInt ≤ n.toInt) && decide (n.toInt ≤ Int64.maxValue.toInt)) =
      true := by
    rw [Bool.and_eq_true, decide_eq_true_iff, decide_eq_true_iff]
    exact ⟨n.le_toInt, n.toInt_le⟩
  simp only [Option.filter_some, h, if_true, Option.map_some, Int64.ofInt_toInt]

/-- A printed number is read as the number that it is, with or without a sign. -/
theorem int64?_ofInt (n : Int64) : int64? (ofInt n.toInt) = some n := by
  have hn := filter_range n
  cases h : n.toInt with
  | ofNat k =>
      obtain ⟨c, cs, hcs⟩ := List.exists_cons_of_ne_nil (Nat.toDigits_ne_nil (n := k) (b := 10))
      have hd : c.isDigit = true :=
        isDigit_of_mem_ofNat (n := k) (by rw [toList_ofNat, hcs]; exact List.mem_cons_self ..)
      have hp : c ≠ '+' := by rintro rfl; cases hd
      have hm : c ≠ '-' := by rintro rfl; cases hd
      have hread := digits?_toDigits k
      rw [hcs] at hread
      rw [h] at hn
      rw [int64?, ofInt, toList_ofNat, hcs]
      split
      next he => exact absurd (List.cons.inj he).1 hp
      next he => exact absurd (List.cons.inj he).1 hm
      next => rw [hread]; exact hn
  | negSucc k =>
      have hs : (ofInt (.negSucc k)).toList = '-' :: Nat.toDigits 10 (k + 1) := by
        simp [ofInt, toList_ofNat]
      rw [h] at hn
      rw [int64?, hs]
      simp only [digits?_toDigits]
      exact hn

theorem int64?_signed (n : Int64) : int64? (signed n.toInt) = some n := by
  have hn := filter_range n
  cases h : n.toInt with
  | ofNat k =>
      have hs : (signed (.ofNat k)).toList = '+' :: Nat.toDigits 10 k := by
        simp [signed, toList_ofNat]
      rw [h] at hn
      rw [int64?, hs]
      simp only [digits?_toDigits]
      exact hn
  | negSucc k =>
      have hi := int64?_ofInt n
      rwa [h] at hi

end Decimal

end CommitMarking.Text
