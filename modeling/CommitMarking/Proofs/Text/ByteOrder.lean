import CommitMarking.Text.Utf8
import Mathlib.Data.String.Basic

namespace CommitMarking.Text.Utf8

variable {a b : String}

theorem ofNat_cons_lt {m n : Nat} {s t : List UInt8} (hn : n < 256) (hle : m ≤ n)
    (h : m = n → s < t) : UInt8.ofNat m :: s < UInt8.ofNat n :: t := by
  rw [List.cons_lt_cons_iff]
  rcases Nat.lt_or_eq_of_le hle with hlt | rfl
  · left
    rw [UInt8.lt_iff_toNat_lt, UInt8.toNat_ofNat_of_lt' (hlt.trans hn),
      UInt8.toNat_ofNat_of_lt' hn]
    exact hlt
  · exact .inr ⟨rfl, h rfl⟩

/-- The bytes of the lesser of two characters come first, whatever follows either of them. Of two
characters with equally many bytes the first bytes that differ decide, and a character with more
bytes starts with a greater one. -/
theorem encodeChar_append_lt {c d : Char} (h : c < d) (s t : List UInt8) :
    String.utf8EncodeChar c ++ s < String.utf8EncodeChar d ++ t := by
  have hcd : c.val.toNat < d.val.toNat := UInt32.lt_iff_toNat_lt.1 h
  have hd : d.val.toNat < 0x110000 := by
    have : d.val.toNat < 0xD800 ∨ 0xDFFF < d.val.toNat ∧ d.val.toNat < 0x110000 := d.valid
    omega
  unfold String.utf8EncodeChar
  generalize c.val.toNat = u at *
  generalize d.val.toNat = v at *
  dsimp only
  by_cases hone : u ≤ 127
  · rw [if_pos hone]
    split_ifs
    all_goals exact ofNat_cons_lt (by omega) (by omega) fun _ => by omega
  rw [if_neg hone, if_neg (show ¬v ≤ 127 by omega)]
  by_cases htwo : u ≤ 2047
  · rw [if_pos htwo]
    split_ifs
    · exact ofNat_cons_lt (by omega) (by omega) fun _ =>
        ofNat_cons_lt (by omega) (by omega) fun _ => by omega
    all_goals exact ofNat_cons_lt (by omega) (by omega) fun _ => by omega
  rw [if_neg htwo, if_neg (show ¬v ≤ 2047 by omega)]
  by_cases hthree : u ≤ 65535
  · rw [if_pos hthree]
    split_ifs
    · exact ofNat_cons_lt (by omega) (by omega) fun _ =>
        ofNat_cons_lt (by omega) (by omega) fun _ =>
        ofNat_cons_lt (by omega) (by omega) fun _ => by omega
    · exact ofNat_cons_lt (by omega) (by omega) fun _ => by omega
  rw [if_neg hthree, if_neg (show ¬v ≤ 65535 by omega)]
  exact ofNat_cons_lt (by omega) (by omega) fun _ =>
    ofNat_cons_lt (by omega) (by omega) fun _ =>
    ofNat_cons_lt (by omega) (by omega) fun _ =>
    ofNat_cons_lt (by omega) (by omega) fun _ => by omega

theorem flatMap_encodeChar_lt {cs ds : List Char} (h : List.Lex (· < ·) cs ds) :
    cs.flatMap String.utf8EncodeChar < ds.flatMap String.utf8EncodeChar := by
  induction h with
  | nil =>
      rw [List.flatMap_nil, List.flatMap_cons]
      obtain ⟨byte, bytes, hbytes⟩ := List.exists_cons_of_ne_nil
        (List.append_ne_nil_of_left_ne_nil String.utf8EncodeChar_ne_nil _)
      rw [hbytes]
      exact List.nil_lt_cons byte bytes
  | rel hlt =>
      rw [List.flatMap_cons, List.flatMap_cons]
      exact encodeChar_append_lt hlt _ _
  | cons _ ih =>
      rw [List.flatMap_cons, List.flatMap_cons]
      exact List.append_left_lt ih

theorem encode_lt_encode (h : a < b) : encode a < encode b :=
  flatMap_encodeChar_lt (String.lt_iff.1 h)

/-- Texts are ordered as their bytes are. -/
theorem encode_le_encode_iff : encode a ≤ encode b ↔ a ≤ b := by
  rw [← not_iff_not, List.not_le, String.not_le]
  constructor
  · intro h
    rcases lt_trichotomy b a with hlt | rfl | hgt
    · exact hlt
    · exact absurd h (List.lt_irrefl _)
    · exact absurd h (List.lt_asymm (encode_lt_encode hgt))
  · exact encode_lt_encode

end CommitMarking.Text.Utf8
