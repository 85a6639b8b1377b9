import CommitMarking.Eval
import Mathlib

namespace CommitMarking

theorem sum_eq_ofInt (xs : List Int64) : xs.sum = Int64.ofInt (xs.map Int64.toInt).sum := by
  induction xs with
  | nil => rfl
  | cons x xs ih =>
      rw [List.sum_cons, ih, List.map_cons, List.sum_cons, Int64.ofInt_add, Int64.ofInt_toInt]

/-- Only the total has to be in range; what the partial sums do in between cancels out. -/
theorem toInt_sum {xs : List Int64} (low : -2 ^ 63 ≤ (xs.map Int64.toInt).sum)
    (high : (xs.map Int64.toInt).sum < 2 ^ 63) : xs.sum.toInt = (xs.map Int64.toInt).sum := by
  rw [sum_eq_ofInt, Int64.toInt_ofInt_of_le low high]

theorem natAbs_toInt_lt {a : Int64} (h : a ≠ Int64.minValue) : a.toInt.natAbs < 2 ^ 63 := by
  have hmin : Int64.minValue.toInt = -2 ^ 63 := rfl
  have hne : a.toInt ≠ -2 ^ 63 := fun ha => h (Int64.toInt_inj.1 (ha.trans hmin.symm))
  have hlow := a.le_toInt
  have hhigh := a.toInt_lt
  omega

theorem absolute_eq_ok (task : String) {a : Int64} (h : a.toInt.natAbs < 2 ^ 63) :
    ∃ b, absolute task a = .ok b ∧ b.toInt = a.toInt.natAbs := by
  have hmin : a ≠ Int64.minValue := by
    rintro rfl
    exact absurd h (by decide)
  refine ⟨if a < 0 then -a else a, if_neg hmin, ?_⟩
  have hz : (0 : Int64).toInt = 0 := rfl
  split
  · next hneg =>
      rw [Int64.lt_iff_toInt_lt, hz] at hneg
      rw [Int64.toInt_neg, Int.bmod_eq_of_le (by omega) (by omega)]
      omega
  · next hpos =>
      rw [Int64.lt_iff_toInt_lt, hz] at hpos
      omega

theorem divide_eq_ok (task : String) (a : Int64) {b : Int64} (hzero : b ≠ 0) (hone : b ≠ -1) :
    ∃ q, divide task a b = .ok q ∧ q.toInt = a.toInt.tdiv b.toInt :=
  ⟨a / b, by simp [divide, hzero, hone], Int64.toInt_div_of_ne_right a b hone⟩

namespace Entry

def growth (e : Entry) : Int := e.after.length - e.before.length

theorem size_eq_ofInt_growth (e : Entry) : e.size = Int64.ofInt e.growth := by
  rw [size, growth, Int64.ofInt_sub, Int64.ofInt_eq_ofNat, Int64.ofInt_eq_ofNat]

end Entry

namespace Commit

def growth (c : Commit) : Int := (c.entries.map Entry.growth).sum

def contentLength (c : Commit) : Nat :=
  (c.entries.map fun e => e.before.length + e.after.length).sum

theorem changedSize_eq_size (c : Commit) : c.changedSize = c.size := by
  rw [changedSize, changes, size]
  induction c.entries with
  | nil => rfl
  | cons e es ih =>
      by_cases h : e.size = 0
      · rw [List.filter_cons_of_neg (by simp [Entry.changed, h]), ih, List.map_cons, List.sum_cons,
          h, Int64.zero_add]
      · rw [List.filter_cons_of_pos (by simp [Entry.changed, h]), List.map_cons, List.map_cons,
          List.sum_cons, List.sum_cons, ih]

theorem size_eq_ofInt_growth (c : Commit) : c.size = Int64.ofInt c.growth := by
  rw [size, growth]
  induction c.entries with
  | nil => rfl
  | cons e es ih =>
      rw [List.map_cons, List.sum_cons, ih, List.map_cons, List.sum_cons, Int64.ofInt_add,
        Entry.size_eq_ofInt_growth]

theorem natAbs_growth_le (c : Commit) : c.growth.natAbs ≤ c.contentLength := by
  rw [growth, contentLength]
  induction c.entries with
  | nil => simp
  | cons e es ih =>
      simp only [List.map_cons, List.sum_cons, Entry.growth]
      omega

/-- No sum of sizes wraps while all the contents together have fewer than 2⁶³ bytes. -/
theorem toInt_changedSize {c : Commit} (h : c.contentLength < 2 ^ 63) :
    c.changedSize.toInt = c.growth := by
  have hg := c.natAbs_growth_le
  rw [changedSize_eq_size, size_eq_ofInt_growth, Int64.toInt_ofInt_of_le (by omega) (by omega)]

end Commit

end CommitMarking
