import CppMend.Lexical.Scan

/-!
# What the grammar sees of a text

The grammar does not look at blanks and comments, and of the other tokens it needs little: the
kind, whether the token starts a line, and whether it is one of three spellings that matter in
directives. A `Cue` holds just that, and `cues` reads the cues off a list of tokens.

Two texts with the same cues are grouped in the same way.
-/

namespace CppMend

/-- the spellings that tell directives apart and join their lines -/
inductive Mark where
  | plain | includeWord | defineWord | lineJoin
  deriving DecidableEq, Repr, Inhabited

/-- One significant token, as the grammar sees it. -/
structure Cue where
  kind : TokenKind
  /-- a line feed stands before the token, or no significant token does -/
  startsLine : Bool
  mark : Mark
  deriving DecidableEq, Repr, Inhabited

namespace Token

/-- a blank or comment with a line feed in it -/
def breaksLine (t : Token) : Bool := t.isTrivia && t.text.contains '\n'

def mark (t : Token) : Mark :=
  if t.kind = .ident ∧ t.text = ['i', 'n', 'c', 'l', 'u', 'd', 'e'] then .includeWord
  else if t.kind = .ident ∧ t.text = ['d', 'e', 'f', 'i', 'n', 'e'] then .defineWord
  else if t.kind = .error ∧ t.text = ['\\'] then .lineJoin
  else .plain

end Token

/-- the cues of some tokens, where `fresh` says whether a new line has begun -/
def cuesFrom (fresh : Bool) : List Token → List Cue
  | [] => []
  | t :: rest =>
    if t.isTrivia then cuesFrom (fresh || t.breaksLine) rest
    else ⟨t.kind, fresh, t.mark⟩ :: cuesFrom false rest

/-- the cues of a text's tokens; the first significant token starts a line -/
def cues (tokens : List Token) : List Cue := cuesFrom true tokens

end CppMend
