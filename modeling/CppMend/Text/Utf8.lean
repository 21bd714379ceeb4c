import CppMend.Text.Bytes

/-!
# Bytes of a text

The UTF-8 form of a text and back. Bytes that are no such form are read either not at all or with
a replacement character for each broken stretch, which ends where no character can go on.

* `Bytes.ofText`   the bytes of a text;
* `Bytes.text?`    the text of some bytes, if they are well formed;
* `Bytes.text`     the text of any bytes.
-/

namespace CppMend

abbrev Bytes := List UInt8

namespace Bytes

def ofText (cs : Text) : Bytes := cs.flatMap String.utf8EncodeChar

def ofString (s : String) : Bytes := ofText s.toList

/-- What the first byte of a character says: its own bits, the number of bytes that follow, and
the bounds of the first of those. -/
structure Lead where
  bits : Nat
  following : Nat
  low : Nat
  high : Nat

def lead? (b : Nat) : Option Lead :=
  if b < 0x80 then some ⟨b, 0, 0x80, 0xbf⟩
  else if b < 0xc2 then none
  else if b < 0xe0 then some ⟨b - 0xc0, 1, 0x80, 0xbf⟩
  else if b = 0xe0 then some ⟨0, 2, 0xa0, 0xbf⟩
  else if b = 0xed then some ⟨0xd, 2, 0x80, 0x9f⟩
  else if b < 0xf0 then some ⟨b - 0xe0, 2, 0x80, 0xbf⟩
  else if b = 0xf0 then some ⟨0, 3, 0x90, 0xbf⟩
  else if b < 0xf4 then some ⟨b - 0xf0, 3, 0x80, 0xbf⟩
  else if b = 0xf4 then some ⟨4, 3, 0x80, 0x8f⟩
  else none

/-- the character that goes on with `n` more bytes, and the bytes after it or after its start -/
def follow : (n low high bits : Nat) → Bytes → Option Char × Bytes
  | 0, _, _, bits, bs => (some (Char.ofNat bits), bs)
  | _ + 1, _, _, _, [] => (none, [])
  | n + 1, low, high, bits, b :: bs =>
    if low ≤ b.toNat ∧ b.toNat ≤ high then
      follow n 0x80 0xbf (bits * 64 + (b.toNat - 0x80)) bs
    else (none, b :: bs)

theorem follow_length_le (n low high bits : Nat) (bs : Bytes) :
    (follow n low high bits bs).2.length ≤ bs.length := by
  induction n generalizing low high bits bs with
  | zero => simp [follow]
  | succ n ih =>
    cases bs with
    | nil => simp [follow]
    | cons b bs =>
      rw [follow]
      split
      · exact Nat.le_trans (ih _ _ _ _) (Nat.le_succ _)
      · exact Nat.le_refl _

/-- the characters of some bytes, and `none` for each stretch that is not one -/
def characters : Bytes → List (Option Char)
  | [] => []
  | b :: bs =>
    match lead? b.toNat with
    | none => none :: characters bs
    | some l =>
      let after := follow l.following l.low l.high l.bits bs
      after.1 :: characters after.2
termination_by bs => bs.length
decreasing_by
  · simp
  · exact Nat.lt_succ_of_le (follow_length_le _ _ _ _ _)

/-- the text of well-formed bytes -/
def text? (bs : Bytes) : Option Text := (characters bs).mapM id

/-- the text of any bytes, with `U+FFFD` for what is not well formed -/
def text (bs : Bytes) : Text := (characters bs).map (·.getD '\ufffd')

end Bytes

end CppMend
