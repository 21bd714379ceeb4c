import CppMend.Text.Utf8
import Mathlib.Data.Char
import Mathlib.Data.List.Lex

/-!
# Texts in the order of their bytes

Characters have numbers, and texts are ordered by these as words are by letters. The bytes of a text
have the same order: where two texts differ first, the bytes of the characters there differ as the
numbers do, whether there are as many of them or not.

* `Bytes.encode_lt_encode`   the bytes of a lesser character come first, whatever comes after;
* `Bytes.ofText_lt_ofText`   so the bytes of a lesser text come first.
-/

namespace CppMend

namespace Bytes

theorem ofNat_lt_ofNat {a b : Nat} (ha : a < 256) (hb : b < 256) :
    UInt8.ofNat a < UInt8.ofNat b ↔ a < b := by
  rw [UInt8.lt_iff_toNat_lt, UInt8.toNat_ofNat_of_lt' ha, UInt8.toNat_ofNat_of_lt' hb]

theorem ofNat_eq_ofNat {a b : Nat} (ha : a < 256) (hb : b < 256) :
    UInt8.ofNat a = UInt8.ofNat b ↔ a = b := by
  rw [← UInt8.toNat_inj, UInt8.toNat_ofNat_of_lt' ha, UInt8.toNat_ofNat_of_lt' hb]

theorem val_lt (c : Char) : c.val.toNat < 0x110000 := by
  rcases c.valid with h | h
  · exact Nat.lt_trans h (by decide)
  · exact h.2

theorem encode_lt_encode {c d : Char} (h : c < d) (bs cs : Bytes) :
    String.utf8EncodeChar c ++ bs < String.utf8EncodeChar d ++ cs := by
  have hlt : c.val.toNat < d.val.toNat := h
  have hc := val_lt c
  have hd := val_lt d
  rw [String.utf8EncodeChar, String.utf8EncodeChar]
  generalize c.val.toNat = v at *
  generalize d.val.toNat = w at *
  -- each byte after the first has six bits, so that the bytes are digits to the base 64
  have htwo (n : Nat) : n / 4096 = n / 64 / 64 := by omega
  have hthree (n : Nat) : n / 262144 = n / 64 / 64 / 64 := by omega
  simp only [htwo, hthree]
  split_ifs <;> simp (disch := omega) only [List.cons_append, List.nil_append,
    List.cons_lt_cons_iff, ofNat_lt_ofNat, ofNat_eq_ofNat] <;> omega

theorem ofText_cons (c : Char) (t : Text) :
    ofText (c :: t) = String.utf8EncodeChar c ++ ofText t := rfl

theorem ofText_lt_ofText {s t : Text} (h : s < t) : ofText s < ofText t := by
  induction s generalizing t with
  | nil =>
    cases t with
    | nil => exact absurd h (List.lt_irrefl _)
    | cons d t =>
      obtain ⟨b, bs, hb⟩ := List.exists_cons_of_ne_nil (String.utf8EncodeChar_ne_nil (c := d))
      rw [ofText_cons, hb]
      exact List.nil_lt_cons _ _
  | cons c s ih =>
    cases t with
    | nil => exact absurd h (List.not_lt_nil _)
    | cons d t =>
      rw [ofText_cons, ofText_cons]
      rcases List.cons_lt_cons_iff.mp h with hc | ⟨rfl, ht⟩
      · exact encode_lt_encode hc _ _
      · exact List.append_left_lt (ih ht)

end Bytes

end CppMend
