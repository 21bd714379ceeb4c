import CppMend.Edit.ChangeSet
import CppMend.Text.Position
import CppMend.Uri.Basic

/-!
# Documents

A `Document` is a text that an editor has open, with the version that the editor gave it.

* `Document.applyChanges`     the changes that an editor reports, one after the other;
* `Document.applyChangeSet`   the edits of a fix, all at once or not at all;
* `Document.textEdits`        the edits of a fix as an editor takes them.
-/

namespace CppMend

/-- What an editor reports: a new text for a range, or for all of the document. -/
structure TextChange where
  range : Option PositionRange
  text : Text
  deriving DecidableEq, Repr, Inhabited

/-- An edit that gives its place by lines and columns. -/
structure TextEdit where
  range : PositionRange
  text : Text
  deriving DecidableEq, Repr, Inhabited

structure Document where
  uri : Uri
  text : Text
  version : Int
  deriving DecidableEq, Repr, Inhabited

namespace Document

def lineCount (d : Document) : Nat := Text.lineFeeds d.text + 1

def size (d : Document) : Nat := Word.clamped d.text.byteSize

def isEmpty (d : Document) : Bool := d.text.isEmpty

/-- a line, counted from zero, without the carriage returns that end it -/
def line? (d : Document) (line : Nat) : Option Text :=
  (Text.lines d.text)[line]?.map fun l => (l.reverse.dropWhile (· = '\r')).reverse

def offsetOf? (d : Document) (p : Position) : Option Nat := Text.wordOffsetOf? d.text p

def positionOf (d : Document) (offset : Nat) : Position := Text.wordPositionOf d.text offset

def spanOf? (d : Document) (r : PositionRange) : Option Span := Text.spanOf? d.text r

def rangeOf (d : Document) (s : Span) : PositionRange := Text.rangeOf d.text s

/-! ## changes -/

def setContent (d : Document) (text : Text) (version : Int) : Document := { d with text, version }

/-- A change of a text. One that names a line past the end is passed over. -/
def applyChange (text : Text) (c : TextChange) : Text :=
  match c.range with
  | none => c.text
  | some r =>
    match Text.stretchOf? text r with
    | some span => Edit.splice ⟨span, c.text⟩ text
    | none => text

def applyChanges (d : Document) (changes : List TextChange) (version : Int) : Document :=
  d.setContent (changes.foldl applyChange d.text) version

/-! ## fixes -/

def applyChangeSet (d : Document) (c : ChangeSet) (version : Int) : Except EditError Document :=
  (c.apply d.text).map (d.setContent · version)

def textEdits (d : Document) (c : ChangeSet) : Except EditError (List TextEdit) :=
  (c.sorted d.text).map fun edits => edits.map fun e => ⟨d.rangeOf e.span, e.text⟩

end Document

end CppMend
