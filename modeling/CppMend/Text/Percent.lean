import CppMend.Text.Utf8

/-!
# Percent escapes

A character that a place of a URI does not admit is written as its UTF-8 bytes, each as `%` and
two digits. Which characters those are is a set that depends on the place; every character outside
ASCII belongs to it.

* `escape`     a text with the characters of a set written as bytes;
* `ofBytes`    some bytes as a text, of which those of a set are written as bytes;
* `unescape`   the bytes that a text with escapes stands for.
-/

namespace CppMend

namespace Percent

/-! ## the sets -/

/-- controls and all that is not ASCII -/
def isControl (c : Char) : Bool := c.toNat < 0x20 || 0x7f ≤ c.toNat

def inQuery (c : Char) : Bool := isControl c || c ∈ [' ', '"', '#', '<', '>']

def inFragment (c : Char) : Bool := isControl c || c ∈ [' ', '"', '<', '>', '`']

def inPath (c : Char) : Bool := inFragment c || c ∈ ['#', '?', '\x7b', '\x7d']

/-- what the name of a file or directory may not hold as it is -/
def inSegment (c : Char) : Bool := inPath c || c ∈ ['/', '%', '\\']

def inAccount (c : Char) : Bool :=
  inPath c || c ∈ ['/', ':', ';', '=', '@', '[', '\\', ']', '^', '|']

/-! ## writing and reading -/

/-- a hexadecimal digit, in upper case -/
def digit (n : Nat) : Char := Char.ofNat (if n < 10 then '0'.toNat + n else 'A'.toNat + (n - 10))

def digitValue? (c : Char) : Option Nat :=
  if '0' ≤ c ∧ c ≤ '9' then some (c.toNat - '0'.toNat)
  else if 'a' ≤ c ∧ c ≤ 'f' then some (c.toNat - 'a'.toNat + 10)
  else if 'A' ≤ c ∧ c ≤ 'F' then some (c.toNat - 'A'.toNat + 10)
  else none

def escapeByte (b : UInt8) : Text := ['%', digit (b.toNat / 16), digit (b.toNat % 16)]

def escape (set : Char → Bool) (cs : Text) : Text :=
  cs.flatMap fun c => if set c then (Bytes.ofText [c]).flatMap escapeByte else [c]

def ofBytes (set : Char → Bool) (bs : Bytes) : Text :=
  bs.flatMap fun b => if set (Char.ofNat b.toNat) then escapeByte b else [Char.ofNat b.toNat]

def unescape : Text → Bytes
  | [] => []
  | '%' :: a :: b :: cs =>
    match digitValue? a, digitValue? b with
    | some x, some y => UInt8.ofNat (x * 16 + y) :: unescape cs
    | _, _ => Bytes.ofText ['%'] ++ unescape (a :: b :: cs)
  | c :: cs => Bytes.ofText [c] ++ unescape cs

end Percent

end CppMend
