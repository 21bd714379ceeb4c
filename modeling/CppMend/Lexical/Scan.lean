import CppMend.Lexical.Classes
import CppMend.Text.Bytes

/-!
# Cutting a text into tokens

`scan` cuts a text into tokens from left to right. Each token is the longest text at its place
that some class describes. Where no class describes any text, an `error` token runs as far as
some class could still have gone on, one character at the least.

* `munch`  follows all classes along a text at once and reports the longest complete text;
* `scan`   the tokens of a text; they are never empty and put together again give the text.
-/

namespace CppMend

/-- A stretch of source text and what it is. -/
structure Token where
  kind : TokenKind
  text : Text
  deriving DecidableEq, Repr, Inhabited

namespace Token

def isTrivia (t : Token) : Bool := t.kind.isTrivia

end Token

/-! ## the longest text at a place -/

/-- How far classes went along a text. -/
structure Reach where
  /-- characters read before no class could go on -/
  stuck : Nat
  /-- kind and length of the longest complete text -/
  best? : Option (TokenKind × Nat)
  deriving DecidableEq, Repr

/-- the classes that can still go on after `c` -/
def TokenClass.survivors (c : Char) (classes : List TokenClass) : List TokenClass :=
  (classes.map fun k => { k with pattern := k.pattern.after c }).filter fun k => !k.pattern.hopeless

/-- Follows `classes`, which have read `taken` characters so far, along a text. -/
def munch (classes : List TokenClass) (taken : Nat) (best? : Option (TokenKind × Nat)) :
    Text → Reach
  | [] => ⟨taken, best?⟩
  | c :: rest =>
    match TokenClass.survivors c classes with
    | [] => ⟨taken, best?⟩
    | k :: ks =>
      let best? := match (k :: ks).find? (·.pattern.complete) with
        | some done => some (done.kind, taken + 1)
        | none => best?
      munch (k :: ks) (taken + 1) best? rest

/-- Kind and length of the token at the start of a text. -/
def Reach.verdict (r : Reach) : TokenKind × Nat :=
  r.best?.getD (.error, r.stuck)

/-! ## the tokens of a text -/

/-- The tokens of a text. A token has its first character in any case, so the rest is shorter. -/
def scan (text : Text) : List Token :=
  match text with
  | [] => []
  | c :: rest =>
    let (kind, size) := (munch TokenClass.all 0 none (c :: rest)).verdict
    ⟨kind, c :: rest.take (size - 1)⟩ :: scan (rest.drop (size - 1))
termination_by text.length
decreasing_by simp only [List.length_drop, List.length_cons]; omega

end CppMend
