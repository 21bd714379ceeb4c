import CppMend.Text.Position

/-!
# Locations

A `Location` is a place in a source file as it is shown to people: lines and columns count from
one, and columns count UTF-16 units. Only places between characters have a location. All its numbers
have 32 bits, and what is counted for it starts again at zero after the last of them.
-/

namespace CppMend

structure Location where
  file : String
  line : Nat
  column : Nat
  offset : Nat
  deriving DecidableEq, Repr, Inhabited

namespace Location

/-- the location of a byte offset; none inside a character or past the end -/
def ofOffset? (file : String) (source : Text) (offset : Nat) : Option Location :=
  (source.splitAt? offset).map fun (front, _) =>
    ⟨file, Word.wrapped (Text.lineFeeds front + 1),
      Word.wrapped (Text.units (Text.lastLine front) + 1), offset⟩

/-- The location of a line and a column. A column past the end of the line stands for the end,
which the location then gives; a line past the last one has no location. The units up to the column
are counted from one. -/
def ofLineColumn? (file : String) (source : Text) (line column : Nat) : Option Location :=
  if line = 0 ∨ column = 0 then none
  else
    let all := Text.lines source
    all[line - 1]?.map fun text =>
      let front := Text.countUnits column 1 text
      let start := Text.byteSize ((all.take (line - 1)).flatMap (· ++ ['\n']))
      ⟨file, line, Word.wrapped (Text.units front + 1), Word.wrapped (start + front.byteSize)⟩

/-- the same place, counted from zero -/
def position (l : Location) : Position := ⟨Word.before l.line, Word.before l.column⟩

def render (l : Location) : String :=
  (if l.file.isEmpty then "" else l.file ++ ", ")
    ++ "line: " ++ toString l.line ++ ", column: " ++ toString l.column
    ++ ", offset: " ++ toString l.offset

end Location

end CppMend
