/-!
# Spans

A `Span` is a stretch of bytes of a text. It has its first byte and not the one after its last,
so an empty span contains no offset.
-/

namespace CppMend

/-- The bytes from `start` on, `size` of them. -/
structure Span where
  start : Nat
  size : Nat
  deriving DecidableEq, Repr, Inhabited

namespace Span

/-- the first byte after the span -/
def stop (s : Span) : Nat := s.start + s.size

/-- the span between two offsets, given in order -/
def between (start stop : Nat) : Span := ⟨start, stop - start⟩

def empty (offset : Nat) : Span := ⟨offset, 0⟩

def isEmpty (s : Span) : Bool := s.size = 0

/-- half-open: the end is not contained -/
def contains (s : Span) (offset : Nat) : Bool := s.start ≤ offset && offset < s.stop

/-- as closed intervals: both ends touch -/
def touches (s : Span) (offset : Nat) : Bool := s.start ≤ offset && offset ≤ s.stop

/-- written `2..9` -/
def render (s : Span) : String := toString s.start ++ ".." ++ toString s.stop

end Span

end CppMend
