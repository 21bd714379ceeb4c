import CppMend.Text.Bytes

/-!
# White space

The characters with the Unicode property `White_Space`, and texts without any around them.
-/

namespace CppMend

namespace Text

/-- the first and the last character of each run of white space -/
def blankRanges : List (Nat × Nat) :=
  [(0x09, 0x0d), (0x20, 0x20), (0x85, 0x85), (0xa0, 0xa0), (0x1680, 0x1680), (0x2000, 0x200a),
    (0x2028, 0x2029), (0x202f, 0x202f), (0x205f, 0x205f), (0x3000, 0x3000)]

def isBlank (c : Char) : Bool := blankRanges.any fun (low, high) => low ≤ c.toNat && c.toNat ≤ high

/-- a text without the white space before and after it -/
def trimmed (cs : Text) : Text := ((cs.dropWhile isBlank).reverse.dropWhile isBlank).reverse

end Text

end CppMend
