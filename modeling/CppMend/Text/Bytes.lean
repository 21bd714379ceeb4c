/-!
# Byte offsets in a text

A text is a list of characters. Offsets count the bytes of its UTF-8 form, and only some of them
lie between two characters.

* `byteSize`      the number of bytes of a text;
* `splitAt?`      the two parts of a text at an offset, if it lies between characters;
* `isBoundary`    whether it does;
* `floorBoundary` the last place between characters that is not past an offset;
* `slice?`        the part of a text between two offsets.
-/

namespace CppMend

abbrev Text := List Char

namespace Text

/-- the number of bytes of a text -/
def byteSize : Text → Nat
  | [] => 0
  | c :: cs => c.utf8Size + byteSize cs

/-- the parts of a text before and after byte `n`; none inside a character or past the end -/
def splitAt? : Nat → Text → Option (Text × Text)
  | 0, cs => some ([], cs)
  | _ + 1, [] => none
  | n + 1, c :: cs =>
    if c.utf8Size ≤ n + 1 then
      (splitAt? (n + 1 - c.utf8Size) cs).map fun (before, rest) => (c :: before, rest)
    else none

/-- byte `n` starts a character or ends the text -/
def isBoundary (n : Nat) (cs : Text) : Bool := (splitAt? n cs).isSome

/-- the last boundary that is not past byte `n` -/
def floorBoundary : Nat → Text → Nat
  | _, [] => 0
  | n, c :: cs => if c.utf8Size ≤ n then c.utf8Size + floorBoundary (n - c.utf8Size) cs else 0

/-- the text before byte `n`, or before the last boundary that is not past it -/
def before (n : Nat) (cs : Text) : Text :=
  match splitAt? (floorBoundary n cs) cs with
  | some (front, _) => front
  | none => []

/-- the parts of a text before and after byte `n`, if it is a boundary; else all of it is before -/
def cut (n : Nat) (cs : Text) : Text × Text := (splitAt? n cs).getD (cs, [])

/-- the text from byte `start` to byte `stop` -/
def slice? (start stop : Nat) (cs : Text) : Option Text :=
  match splitAt? start cs with
  | some (_, rest) =>
    if start ≤ stop then (splitAt? (stop - start) rest).map (·.1) else none
  | none => none

end Text

end CppMend
