import CppMend.Text.Pieces

/-!
# Sets of characters

A `CodeSet` holds the characters in some ranges of code points. Long ones are written as tables of
words: `a-b` for a range and `a` for one code point alone, to base 16.

* `words`             the parts of a table between its blanks;
* `hexValue`          the number of some digits to base 16;
* `CodeSet.ofTable`   the set of a table;
* `CodeSet.has`       whether a set holds a character.
-/

namespace CppMend

namespace Text

/-- the parts of a table between its blanks and line ends -/
def words (table : String) : List Text :=
  (pieces (fun c => c = ' ' || c = '\n') table.toList).filter (· ≠ [])

/-- the value of a digit to base 16 in lower case -/
def hexDigit (c : Char) : Nat :=
  if c.isDigit then c.toNat - '0'.toNat else c.toNat - 'a'.toNat + 10

def hexValue (digits : Text) : Nat := digits.foldl (fun n c => 16 * n + hexDigit c) 0

end Text

/-- The code points from a first to a last one. -/
structure CodeRange where
  first : Nat
  last : Nat
  deriving DecidableEq, Repr

namespace CodeRange

/-- two code points with a character between them, or one alone -/
def ofWord (word : Text) : CodeRange :=
  match Text.pieces (fun c => c = '-' || c = '/') word with
  | [first, last] => ⟨Text.hexValue first, Text.hexValue last⟩
  | _ => ⟨Text.hexValue word, Text.hexValue word⟩

def has (r : CodeRange) (c : Char) : Bool := r.first ≤ c.toNat && c.toNat ≤ r.last

end CodeRange

abbrev CodeSet := List CodeRange

namespace CodeSet

def ofTable (table : String) : CodeSet := (Text.words table).map CodeRange.ofWord

def has (s : CodeSet) (c : Char) : Bool := s.any (·.has c)

end CodeSet

end CppMend
