import CppMend.Text.Bytes
import CppMend.Text.Span

/-!
# Change sets

A `ChangeSet` is a list of edits to one text, in the order in which they were recorded. All spans
refer to the text before any edit. Edits may not overlap; two of them may meet, and insertions at
one offset keep their order.

* `ChangeSet.sorted`   the edits by position, if they all fit the text;
* `ChangeSet.apply`    the edited text;
* `EditError`          what is wrong with the first edit that does not fit.
-/

namespace CppMend

/-- Puts a text in the place of a span. -/
structure Edit where
  span : Span
  text : Text
  deriving DecidableEq, Repr, Inhabited

/-- a text with one edit carried out -/
def Edit.splice (e : Edit) (text : Text) : Text :=
  let (front, after) := Text.cut e.span.start text
  front ++ e.text ++ (Text.cut e.span.size after).2

inductive EditError where
  | outOfBounds (span : Span) (size : Nat)
  | insideCharacter (offset : Nat)
  | overlapping (first second : Span)
  deriving DecidableEq, Repr

namespace EditError

def message : EditError → String
  | outOfBounds span size =>
    "edit range " ++ span.render ++ " exceeds document length " ++ toString size
  | insideCharacter offset =>
    "edit offset " ++ toString offset ++ " is not on a character boundary"
  | overlapping first second =>
    "edit ranges " ++ first.render ++ " and " ++ second.render ++ " overlap"

end EditError

structure ChangeSet where
  edits : List Edit
  deriving DecidableEq, Repr, Inhabited

namespace ChangeSet

def empty : ChangeSet := ⟨[]⟩

/-! ## recording -/

def replace (c : ChangeSet) (span : Span) (text : Text) : ChangeSet := ⟨c.edits ++ [⟨span, text⟩]⟩

def insert (c : ChangeSet) (offset : Nat) (text : Text) : ChangeSet :=
  c.replace (.empty offset) text

def delete (c : ChangeSet) (span : Span) : ChangeSet := c.replace span []

def isEmpty (c : ChangeSet) : Bool := c.edits.isEmpty

def size (c : ChangeSet) : Nat := c.edits.length

/-! ## checking -/

/-- by start, and of two that start together the shorter one first -/
def precedes (a b : Edit) : Bool :=
  a.span.start < b.span.start || (a.span.start = b.span.start && a.span.stop ≤ b.span.stop)

/-- what is wrong with one edit: its end first, then its boundaries from left to right -/
def misfit? (text : Text) (e : Edit) : Option EditError :=
  if text.byteSize < e.span.stop then some (.outOfBounds e.span text.byteSize)
  else if !text.isBoundary e.span.start then some (.insideCharacter e.span.start)
  else if !text.isBoundary e.span.stop then some (.insideCharacter e.span.stop)
  else none

/-- the first two neighbours of which the second starts before the first ends -/
def overlap? : List Edit → Option EditError
  | a :: b :: es =>
    if b.span.start < a.span.stop then some (.overlapping a.span b.span) else overlap? (b :: es)
  | _ => none

/-- the edits by position, if every one fits the text and no two overlap -/
def sorted (c : ChangeSet) (text : Text) : Except EditError (List Edit) :=
  let edits := c.edits.mergeSort precedes
  match edits.findSome? (misfit? text) with
  | some error => .error error
  | none =>
    match overlap? edits with
    | some error => .error error
    | none => .ok edits

/-! ## applying -/

/-- The text from byte `offset` on, with edits from left to right carried out. -/
def weave (offset : Nat) (rest : Text) : List Edit → Text
  | [] => rest
  | e :: es =>
    let (kept, after) := Text.cut (e.span.start - offset) rest
    kept ++ e.text ++ weave e.span.stop (Text.cut e.span.size after).2 es

/-- the edited text -/
def apply (c : ChangeSet) (text : Text) : Except EditError Text :=
  (c.sorted text).map (weave 0 text)

end ChangeSet

end CppMend
