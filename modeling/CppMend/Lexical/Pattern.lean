/-!
# Patterns of characters

A `Pattern` describes a set of texts, as a regular expression does. A text is followed through a
pattern one character at a time: `Pattern.after p c` is the pattern of what may come after `c`.

* `Pattern.Matches p w`   the text `w` is described by `p`;
* `Pattern.complete`      the empty text is described;
* `Pattern.hopeless`      no text is described;
* `Pattern.after`         what is left of a pattern once a character has been read.
-/

namespace CppMend

/-- A set of texts. A `char` accepts at least one character. -/
inductive Pattern where
  | never
  | word (spelling : List Char)
  | char (accepts : Char → Bool)
  | seq (first second : Pattern)
  | alt (left right : Pattern)
  | star (body : Pattern)

namespace Pattern

/-- the texts of a pattern -/
inductive Matches : Pattern → List Char → Prop where
  | word (spelling : List Char) : Matches (.word spelling) spelling
  | char {accepts : Char → Bool} {c : Char} : accepts c = true → Matches (.char accepts) [c]
  | seq {p q : Pattern} {u v : List Char} : Matches p u → Matches q v → Matches (.seq p q) (u ++ v)
  | left {p q : Pattern} {w : List Char} : Matches p w → Matches (.alt p q) w
  | right {p q : Pattern} {w : List Char} : Matches q w → Matches (.alt p q) w
  | done {p : Pattern} : Matches (.star p) []
  | more {p : Pattern} {u v : List Char} :
      Matches p u → Matches (.star p) v → Matches (.star p) (u ++ v)

/-! ## building patterns -/

/-- the empty text alone -/
def empty : Pattern := .word []

def plus (p : Pattern) : Pattern := .seq p (.star p)

def opt (p : Pattern) : Pattern := .alt empty p

def oneOf (set : List Char) : Pattern := .char set.contains

def noneOf (set : List Char) : Pattern := .char (fun c => !set.contains c)

/-- one pattern after the other, for all of a list -/
def inOrder : List Pattern → Pattern
  | [] => empty
  | [p] => p
  | p :: ps => .seq p (inOrder ps)

/-! ## reading a pattern -/

/-- the empty text is in the pattern -/
def complete : Pattern → Bool
  | .never => false
  | .word spelling => spelling.isEmpty
  | .char _ => false
  | .seq p q => p.complete && q.complete
  | .alt p q => p.complete || q.complete
  | .star _ => true

/-- no text is in the pattern -/
def hopeless : Pattern → Bool
  | .never => true
  | .word _ => false
  | .char _ => false
  | .seq p q => p.hopeless || q.hopeless
  | .alt p q => p.hopeless && q.hopeless
  | .star _ => false

/-- `seq`, where a trivial side leaves the other one -/
def andThen : Pattern → Pattern → Pattern
  | .never, _ => .never
  | .word [], q => q
  | p, q => .seq p q

/-- `alt`, where a side without texts leaves the other one -/
def orElse : Pattern → Pattern → Pattern
  | .never, q => q
  | p, .never => p
  | p, q => .alt p q

/-- the texts `w` such that `c :: w` is in the pattern -/
def after (c : Char) : Pattern → Pattern
  | .never => .never
  | .word [] => .never
  | .word (d :: ds) => if c = d then .word ds else .never
  | .char accepts => if accepts c then empty else .never
  | .seq p q =>
    if p.complete then orElse (andThen (p.after c) q) (q.after c) else andThen (p.after c) q
  | .alt p q => orElse (p.after c) (q.after c)
  | .star p => andThen (p.after c) (.star p)

end Pattern

end CppMend
