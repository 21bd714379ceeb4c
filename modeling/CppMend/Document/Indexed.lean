import CppMend.Document.Basic
import CppMend.Text.LineStarts

/-!
# Documents with an index of their lines

An `IndexedDocument` keeps the starts of its lines beside its text, and whatever asks for a line or a
column goes by them. Each operation that changes the text has to bring the starts up to date: with
starts of another text a look-up may find the wrong place, or none at all.

* `IndexedDocument.ofText`         a document with the starts of its own lines;
* `IndexedDocument.offsetOf?`, `positionOf?`, `line?`   look-ups that go by the starts;
* `IndexedDocument.textEdits`      the edits of a fix as an editor takes them;
* `IndexedDocument.applyChanges`   the changes that an editor reports, one after the other;
* `IndexedDocument.update`         the edits of a fix, carried out in place.
-/

namespace CppMend

structure IndexedDocument where
  uri : Uri
  text : Text
  version : Int
  /-- the offsets at which the lines start -/
  starts : List Nat
  deriving DecidableEq, Repr, Inhabited

namespace IndexedDocument

def ofText (uri : Uri) (text : Text) (version : Int) : IndexedDocument :=
  ⟨uri, text, version, Text.lineStarts text⟩

/-- the document without its index -/
def document (d : IndexedDocument) : Document := ⟨d.uri, d.text, d.version⟩

/-! ## look-ups -/

def lineCount (d : IndexedDocument) : Nat := d.starts.length

/-- the start of a line and its text, with the line feed that ends it -/
def fullLine? (d : IndexedDocument) (line : Nat) : Option (Nat × Text) :=
  (Text.lineEnds? d.starts d.text.byteSize line).bind fun (start, stop) =>
    (Text.slice? start stop d.text).map fun l => (start, l)

/-- a line, counted from zero, without what ends it -/
def line? (d : IndexedDocument) (line : Nat) : Option Text :=
  (d.fullLine? line).map fun (_, l) => Text.trimEnd '\r' (Text.trimEnd '\n' l)

/-- The offset of a position, where the units up to its column are counted in 32 bits. -/
def offsetOf? (d : IndexedDocument) (p : Position) : Option Nat :=
  (d.fullLine? p.line).map fun (start, l) =>
    start + Text.byteSize (Text.countUnits p.character 0 (l.takeWhile (· ≠ '\n')))

/-- The position of an offset, in 32 bits. There is none only if the starts are not those of the
text. -/
def positionOf? (d : IndexedDocument) (offset : Nat) : Option Position :=
  let offset := Text.floorBoundary offset d.text
  let line := Text.lineOf d.starts offset
  d.starts[line]?.bind fun start =>
    (Text.slice? start offset d.text).map fun l => ⟨Word.wrapped line, Word.wrapped (Text.units l)⟩

/-- the stretch between two positions, which may be given in either order -/
def stretchOf? (d : IndexedDocument) (r : PositionRange) : Option Span :=
  match d.offsetOf? r.start, d.offsetOf? r.stop with
  | some a, some b => some (Span.between (min a b) (max a b))
  | _, _ => none

/-- the stretch as a span, of which the ends have 32 bits too -/
def spanOf? (d : IndexedDocument) (r : PositionRange) : Option Span :=
  (d.stretchOf? r).map fun s => Span.between (Word.clamped s.start) (Word.clamped s.stop)

def rangeOf? (d : IndexedDocument) (s : Span) : Option PositionRange :=
  match d.positionOf? s.start, d.positionOf? s.stop with
  | some a, some b => some ⟨a, b⟩
  | _, _ => none

/-- The edits of a change set by lines and columns, if it fits the text. Like a position, they are
missing only if the starts are not those of the text. -/
def textEdits (d : IndexedDocument) (c : ChangeSet) : Except EditError (Option (List TextEdit)) :=
  (c.sorted d.text).map fun edits => edits.mapM fun e => (d.rangeOf? e.span).map (⟨·, e.text⟩)

/-! ## changes -/

def setContent (d : IndexedDocument) (text : Text) (version : Int) : IndexedDocument :=
  { d with text, version, starts := Text.lineStarts text }

/-- One change, which leaves the version to the last one. A change that names a line past the end is
passed over. -/
def applyChange (d : IndexedDocument) (c : TextChange) : IndexedDocument :=
  match c.range with
  | none => { d with text := c.text, starts := Text.lineStarts c.text }
  | some r =>
    match d.stretchOf? r with
    | some span =>
      let text := Edit.splice ⟨span, c.text⟩ d.text
      { d with text, starts := Text.lineStarts text }
    | none => d

def applyChanges (d : IndexedDocument) (changes : List TextChange) (version : Int) :
    IndexedDocument :=
  { changes.foldl applyChange d with version }

/-- A change set carried out on the document in place: the edits are checked first, and then the
document gets the edited text. -/
def update (c : ChangeSet) (version : Int) : EStateM EditError IndexedDocument Unit := do
  let d ← get
  match c.apply d.text with
  | .ok text => set (d.setContent text version)
  | .error cause => throw cause

end IndexedDocument

end CppMend
