import CommitMarking.Text.Utf8

namespace CommitMarking.Text.Utf8

theorem start_ofNat {n : Nat} (h : n < 256) :
    start (UInt8.ofNat n) =
      if n < 0x80 then .whole (Char.ofNat n)
      else if n < 0xC2 then .invalid
      else if n < 0xE0 then .lead ⟨n % 32, 0, 0x80, 0xBF⟩
      else if n = 0xE0 then .lead ⟨0, 1, 0xA0, 0xBF⟩
      else if n = 0xED then .lead ⟨13, 1, 0x80, 0x9F⟩
      else if n < 0xF0 then .lead ⟨n % 16, 1, 0x80, 0xBF⟩
      else if n = 0xF0 then .lead ⟨0, 2, 0x90, 0xBF⟩
      else if n < 0xF4 then .lead ⟨n % 8, 2, 0x80, 0xBF⟩
      else if n = 0xF4 then .lead ⟨4, 2, 0x80, 0x8F⟩
      else .invalid := by
  simp only [start, UInt8.lt_iff_toNat_lt, ← UInt8.toNat_inj, UInt8.toNat_ofNat_of_lt' h]
  rfl

def following (x : Nat) : UInt8 := UInt8.ofNat (x % 64 + 0x80)

theorem toNat_following (x : Nat) : (following x).toNat = x % 64 + 0x80 :=
  UInt8.toNat_ofNat_of_lt' (by change _ < 256; omega)

theorem following_within {low high : UInt8} {x : Nat} (hlow : low.toNat ≤ x % 64 + 0x80)
    (hhigh : x % 64 + 0x80 ≤ high.toNat) : low ≤ following x ∧ following x ≤ high := by
  rw [UInt8.le_iff_toNat_le, UInt8.le_iff_toNat_le, toNat_following]
  exact ⟨hlow, hhigh⟩

theorem following_le (x : Nat) : 0x80 ≤ following x ∧ following x ≤ 0xBF :=
  following_within (by change 0x80 ≤ _; omega) (by change _ ≤ 0xBF; omega)

theorem push_following (p : Pending) (x : Nat) : p.push (following x) = p.bits * 64 + x % 64 := by
  rw [Pending.push, toNat_following]
  omega

theorem decodeAfter_last {bits : Nat} {low high : UInt8} {x : Nat}
    (h : low ≤ following x ∧ following x ≤ high) (bs : List UInt8) :
    decodeAfter ⟨bits, 0, low, high⟩ (following x :: bs) =
      some (Char.ofNat (bits * 64 + x % 64)) :: decode bs := by
  rw [decodeAfter, if_pos h, push_following]

theorem decodeAfter_next {bits more : Nat} {low high : UInt8} {x : Nat}
    (h : low ≤ following x ∧ following x ≤ high) (bs : List UInt8) :
    decodeAfter ⟨bits, more + 1, low, high⟩ (following x :: bs) =
      decodeAfter ⟨bits * 64 + x % 64, more, 0x80, 0xBF⟩ bs := by
  rw [decodeAfter, if_pos h, push_following]

theorem start_two {v : Nat} (hlow : 0x80 ≤ v) (hhigh : v ≤ 0x7FF) :
    start (UInt8.ofNat (v / 64 % 0x20 + 0xC0)) = .lead ⟨v / 64, 0, 0x80, 0xBF⟩ := by
  rw [start_ofNat (by omega), if_neg (by omega), if_neg (by omega), if_pos (by omega)]
  congr 2
  omega

theorem start_three {v : Nat} (hlow : 0x800 ≤ v) (hhigh : v ≤ 0xFFFF)
    (hvalid : v < 0xD800 ∨ 0xDFFF < v) :
    ∃ low high, start (UInt8.ofNat (v / 4096 % 0x10 + 0xE0)) = .lead ⟨v / 4096, 1, low, high⟩ ∧
      low ≤ following (v / 64) ∧ following (v / 64) ≤ high := by
  rw [start_ofNat (by omega), if_neg (by omega), if_neg (by omega), if_neg (by omega)]
  by_cases h0 : v / 4096 = 0
  · rw [if_pos (by omega), h0]
    exact ⟨0xA0, 0xBF, rfl, following_within (by change 0xA0 ≤ _; omega) (by change _ ≤ 0xBF; omega)⟩
  by_cases hd : v / 4096 = 13
  · rw [if_neg (by omega), if_pos (by omega), hd]
    exact ⟨0x80, 0x9F, rfl, following_within (by change 0x80 ≤ _; omega) (by change _ ≤ 0x9F; omega)⟩
  · rw [if_neg (by omega), if_neg (by omega), if_pos (by omega),
      show (v / 4096 % 0x10 + 0xE0) % 16 = v / 4096 by omega]
    exact ⟨0x80, 0xBF, rfl, following_le _⟩

theorem start_four {v : Nat} (hlow : 0x10000 ≤ v) (hhigh : v < 0x110000) :
    ∃ low high, start (UInt8.ofNat (v / 262144 % 0x08 + 0xF0)) = .lead ⟨v / 262144, 2, low, high⟩ ∧
      low ≤ following (v / 4096) ∧ following (v / 4096) ≤ high := by
  rw [start_ofNat (by omega), if_neg (by omega), if_neg (by omega), if_neg (by omega),
    if_neg (by omega), if_neg (by omega), if_neg (by omega)]
  by_cases h0 : v / 262144 = 0
  · rw [if_pos (by omega), h0]
    exact ⟨0x90, 0xBF, rfl, following_within (by change 0x90 ≤ _; omega) (by change _ ≤ 0xBF; omega)⟩
  by_cases h4 : v / 262144 = 4
  · rw [if_neg (by omega), if_neg (by omega), if_pos (by omega), h4]
    exact ⟨0x80, 0x8F, rfl, following_within (by change 0x80 ≤ _; omega) (by change _ ≤ 0x8F; omega)⟩
  · rw [if_neg (by omega), if_pos (by omega), show (v / 262144 % 0x08 + 0xF0) % 8 = v / 262144 by omega]
    exact ⟨0x80, 0xBF, rfl, following_le _⟩

theorem decode_encodeChar (c : Char) (bs : List UInt8) :
    decode (String.utf8EncodeChar c ++ bs) = some c :: decode bs := by
  have hvalid : c.toNat < 0xD800 ∨ 0xDFFF < c.toNat ∧ c.toNat < 0x110000 := c.valid
  have hc : Char.ofNat c.toNat = c := Char.ofNat_toNat c
  have hv : c.val.toNat = c.toNat := rfl
  unfold String.utf8EncodeChar
  simp only [hv]
  generalize c.toNat = v at *
  split
  · rw [List.cons_append, decode, start_ofNat (by omega), if_pos (by omega)]
    simp only [hc, List.nil_append]
  split
  · rw [List.cons_append, decode, start_two (by omega) (by omega)]
    refine (decodeAfter_last (following_le v) bs).trans ?_
    rw [show v / 64 * 64 + v % 64 = v by omega, hc]
  split
  · obtain ⟨low, high, hs, hb⟩ := start_three (v := v) (by omega) (by omega) (by omega)
    rw [List.cons_append, decode, hs]
    refine (decodeAfter_next hb _).trans ((decodeAfter_last (following_le v) bs).trans ?_)
    rw [show (v / 4096 * 64 + v / 64 % 64) * 64 + v % 64 = v by omega, hc]
  · obtain ⟨low, high, hs, hb⟩ := start_four (v := v) (by omega) (by omega)
    rw [List.cons_append, decode, hs]
    refine (decodeAfter_next hb _).trans ((decodeAfter_next (following_le (v / 64)) _).trans
      ((decodeAfter_last (following_le v) bs).trans ?_))
    rw [show ((v / 262144 * 64 + v / 4096 % 64) * 64 + v / 64 % 64) * 64 + v % 64 = v by omega, hc]

theorem decode_encode (s : String) (bs : List UInt8) :
    decode (encode s ++ bs) = s.toList.map some ++ decode bs := by
  rw [encode]
  induction s.toList with
  | nil => rfl
  | cons c cs ih => rw [List.flatMap_cons, List.append_assoc, decode_encodeChar, ih]; rfl

theorem lossy_encode (s : String) : lossy (encode s) = s := by
  have h := decode_encode s []
  rw [List.append_nil, decode, List.append_nil] at h
  rw [lossy, h, List.map_map]
  exact (congrArg String.ofList (List.map_id _)).trans s.ofList_toList

theorem zero_ne_ofNat {n : Nat} (hlow : 0 < n) (hhigh : n < 256) : (0 : UInt8) ≠ UInt8.ofNat n := by
  intro he
  have hn := congrArg UInt8.toNat he
  rw [UInt8.toNat_ofNat_of_lt' hhigh] at hn
  exact absurd hn (Nat.ne_of_lt hlow)

theorem zero_not_mem_encodeChar {c : Char} (h : c ≠ '\x00') : 0 ∉ String.utf8EncodeChar c := by
  have hc : c.val.toNat ≠ 0 := fun hz => h (Char.ext (UInt32.toNat_inj.1 hz))
  have hlast (v : Nat) : (0 : UInt8) ≠ UInt8.ofNat (v % 64 + 128) :=
    zero_ne_ofNat (by omega) (by omega)
  unfold String.utf8EncodeChar
  generalize c.val.toNat = v at *
  dsimp only
  split
  · simpa only [List.mem_singleton] using zero_ne_ofNat (Nat.pos_of_ne_zero hc) (by omega)
  split
  · simp only [List.mem_cons, List.not_mem_nil, or_false, not_or]
    exact ⟨zero_ne_ofNat (by omega) (by omega), hlast v⟩
  split
  · simp only [List.mem_cons, List.not_mem_nil, or_false, not_or]
    exact ⟨zero_ne_ofNat (by omega) (by omega), hlast _, hlast v⟩
  · simp only [List.mem_cons, List.not_mem_nil, or_false, not_or]
    exact ⟨zero_ne_ofNat (by omega) (by omega), hlast _, hlast _, hlast v⟩

theorem zero_not_mem_encode {s : String} (h : '\x00' ∉ s.toList) : 0 ∉ encode s := by
  rw [encode, List.mem_flatMap]
  rintro ⟨c, hc, hz⟩
  exact zero_not_mem_encodeChar (fun he => h (he ▸ hc)) hz

theorem encode_ne_nil {s : String} (h : s ≠ "") : encode s ≠ [] := by
  intro he
  refine h ?_
  rw [← lossy_encode s, he]
  rfl

theorem low_of_start {b : UInt8} {p : Pending} (h : start b = .lead p) : 0x80 ≤ p.low := by
  unfold start at h
  repeat' split at h
  all_goals cases h
  all_goals dsimp only
  all_goals decide

theorem decodeAfter_newline {p : Pending} (h : 0x80 ≤ p.low) (bs : List UInt8) :
    decodeAfter p (10 :: bs) = none :: some '\n' :: decode bs := by
  have hout : ¬(p.low ≤ 10 ∧ 10 ≤ p.high) := fun hin => absurd (UInt8.le_trans h hin.1) (by decide)
  rw [decodeAfter, if_neg hout]
  rfl

mutual

/-- A newline ends whatever came before it, so that what comes after it is decoded on its own. -/
theorem exists_decode_append_newline : (bs : List UInt8) →
    ∃ cs, ∀ rest, decode (bs ++ 10 :: rest) = cs ++ some '\n' :: decode rest
  | [] => ⟨[], fun _ => rfl⟩
  | b :: bs => by
      cases hb : start b with
      | whole c =>
          obtain ⟨cs, h⟩ := exists_decode_append_newline bs
          exact ⟨some c :: cs, fun rest => by simp only [List.cons_append, decode, hb, h]⟩
      | invalid =>
          obtain ⟨cs, h⟩ := exists_decode_append_newline bs
          exact ⟨none :: cs, fun rest => by simp only [List.cons_append, decode, hb, h]⟩
      | lead p =>
          obtain ⟨cs, h⟩ := exists_decodeAfter_append_newline (low_of_start hb) bs
          exact ⟨cs, fun rest => by simp only [List.cons_append, decode, hb, h]⟩

theorem exists_decodeAfter_append_newline {p : Pending} (hp : 0x80 ≤ p.low) : (bs : List UInt8) →
    ∃ cs, ∀ rest, decodeAfter p (bs ++ 10 :: rest) = cs ++ some '\n' :: decode rest
  | [] => ⟨[none], fun rest => decodeAfter_newline hp rest⟩
  | b :: bs => by
      by_cases hin : p.low ≤ b ∧ b ≤ p.high
      · cases hm : p.more with
        | zero =>
            obtain ⟨cs, h⟩ := exists_decode_append_newline bs
            exact ⟨_ :: cs, fun rest => by
              simp only [List.cons_append, decodeAfter, if_pos hin, hm, h]; rfl⟩
        | succ n =>
            obtain ⟨cs, h⟩ := exists_decodeAfter_append_newline
              (p := ⟨p.push b, n, 0x80, 0xBF⟩) (UInt8.le_refl _) bs
            exact ⟨cs, fun rest => by
              simp only [List.cons_append, decodeAfter, if_pos hin, hm, h]⟩
      · cases hb : start b with
        | whole c =>
            obtain ⟨cs, h⟩ := exists_decode_append_newline bs
            exact ⟨none :: some c :: cs, fun rest => by
              simp only [List.cons_append, decodeAfter, if_neg hin, hb, h]⟩
        | invalid =>
            obtain ⟨cs, h⟩ := exists_decode_append_newline bs
            exact ⟨none :: none :: cs, fun rest => by
              simp only [List.cons_append, decodeAfter, if_neg hin, hb, h]⟩
        | lead q =>
            obtain ⟨cs, h⟩ := exists_decodeAfter_append_newline (low_of_start hb) bs
            exact ⟨none :: cs, fun rest => by
              simp only [List.cons_append, decodeAfter, if_neg hin, hb, h]⟩

end

theorem exists_lossy_append_newline (bs : List UInt8) :
    ∃ cs, ∀ rest, (lossy (bs ++ 10 :: rest)).toList = cs ++ '\n' :: (lossy rest).toList := by
  obtain ⟨cs, h⟩ := exists_decode_append_newline bs
  exact ⟨cs.map (·.getD replacement), fun rest => by simp [lossy, h]⟩

section Cutting

variable {read read' : List UInt8 → List (Option Char)} {bs : List UInt8}

/-- Decoding bytes that others may follow stops between two characters or inside one. -/
def Cut (read : List UInt8 → List (Option Char)) (bs : List UInt8) : Prop :=
  (∃ front, read bs = front ∧ ∀ rest, read (bs ++ rest) = front ++ decode rest) ∨
    ∃ front p, read bs = front ++ [none] ∧ ∀ rest, read (bs ++ rest) = front ++ decodeAfter p rest

theorem Cut.of_append {b : UInt8} (front : List (Option Char)) (h : Cut read bs)
    (hread : ∀ bs, read' (b :: bs) = front ++ read bs) : Cut read' (b :: bs) := by
  rcases h with ⟨cs, hcs, hrest⟩ | ⟨cs, p, hcs, hrest⟩
  · exact .inl ⟨front ++ cs, by rw [hread, hcs], fun rest => by
      rw [List.cons_append, hread, hrest, List.append_assoc]⟩
  · exact .inr ⟨front ++ cs, p, by rw [hread, hcs, List.append_assoc], fun rest => by
      rw [List.cons_append, hread, hrest, List.append_assoc]⟩

mutual

theorem cut_decode : (bs : List UInt8) → Cut decode bs
  | [] => .inl ⟨[], rfl, fun _ => rfl⟩
  | b :: bs => by
      cases hb : start b with
      | whole c => exact (cut_decode bs).of_append [some c] fun _ => by rw [decode, hb]; rfl
      | invalid => exact (cut_decode bs).of_append [none] fun _ => by rw [decode, hb]; rfl
      | lead p => exact (cut_decodeAfter p bs).of_append [] fun _ => by rw [decode, hb]; rfl

theorem cut_decodeAfter (p : Pending) : (bs : List UInt8) → Cut (decodeAfter p) bs
  | [] => .inr ⟨[], p, rfl, fun _ => rfl⟩
  | b :: bs => by
      by_cases hin : p.low ≤ b ∧ b ≤ p.high
      · cases hm : p.more with
        | zero =>
            exact (cut_decode bs).of_append [some (Char.ofNat (p.push b))] fun _ => by
              rw [decodeAfter, if_pos hin, hm]; rfl
        | succ n =>
            exact (cut_decodeAfter _ bs).of_append [] fun _ => by
              rw [decodeAfter, if_pos hin, hm]; rfl
      · cases hb : start b with
        | whole c =>
            exact (cut_decode bs).of_append [none, some c] fun _ => by
              rw [decodeAfter, if_neg hin, hb]; rfl
        | invalid =>
            exact (cut_decode bs).of_append [none, none] fun _ => by
              rw [decodeAfter, if_neg hin, hb]; rfl
        | lead q =>
            exact (cut_decodeAfter q bs).of_append [none] fun _ => by
              rw [decodeAfter, if_neg hin, hb]; rfl

end

theorem decodeAfter_ne_nil (p : Pending) (bs : List UInt8) : decodeAfter p bs ≠ [] := by
  induction bs generalizing p with
  | nil => exact List.cons_ne_nil _ _
  | cons b bs ih =>
      rw [decodeAfter]
      repeat' split
      all_goals first | exact List.cons_ne_nil _ _ | exact ih _

theorem decode_ne_nil (b : UInt8) (bs : List UInt8) : decode (b :: bs) ≠ [] := by
  rw [decode]
  split
  all_goals first | exact List.cons_ne_nil _ _ | exact decodeAfter_ne_nil _ bs

/-- What is left of a text of which the last bytes are missing: some of its characters, after which
a replacement stands where one of them is incomplete. -/
theorem lossy_cut {s : String} {p : List UInt8} (hp : p <+: encode s) (hne : p ≠ encode s) :
    ((lossy p).toList <+: s.toList ∧ (lossy p).toList ≠ s.toList) ∨
      ∃ cs, cs <+: s.toList ∧ (lossy p).toList = cs ++ [replacement] := by
  obtain ⟨q, hq⟩ := hp
  have hs : decode (p ++ q) = s.toList.map some := by
    rw [hq, ← List.append_nil (encode s), decode_encode, decode, List.append_nil]
  have hlossy : (lossy p).toList = (decode p).map (·.getD replacement) := String.toList_ofList
  have hsome (cs : List Char) : (cs.map some).map (·.getD replacement) = cs := by
    simp [Function.comp_def]
  rcases cut_decode p with ⟨front, hd, hrest⟩ | ⟨front, pending, hd, hrest⟩
  all_goals
    rw [hrest] at hs
    obtain ⟨cs, ds, hcs, rfl, hds⟩ := List.append_eq_map_iff.1 hs
  · refine .inl ⟨?_, fun hall => ?_⟩
    · rw [hlossy, hd, hsome, hcs]
      exact List.prefix_append cs ds
    · rw [hlossy, hd, hsome, hcs] at hall
      rw [List.self_eq_append_right.1 hall] at hds
      cases q with
      | nil => exact hne ((List.append_nil p).symm.trans hq)
      | cons b q => exact decode_ne_nil b q hds.symm
  · refine .inr ⟨cs, hcs ▸ List.prefix_append cs ds, ?_⟩
    rw [hlossy, hd, List.map_append, hsome]
    rfl

end Cutting

end CommitMarking.Text.Utf8
