import CppMend.Text.Combining

/-!
# The composed form of a text

One character can often be written in several ways: `é` is one character, or an `e` and an accent.
The composed form is the shortest of them. A text is taken apart, the marks after each character
are put in order of their classes, and then each pair that means one character is put together
again.

* `apart`      the parts of a character;
* `ordered`    a text with its marks in order;
* `together`   a text with its pairs put together;
* `composed`   the composed form of a text.

A text without a character from `U+0300` on is its own composed form.
-/

namespace CppMend

namespace Text

/-! ## Hangul

A syllable is two or three letters, and its place among the syllables says which. -/

namespace Hangul

def syllables : Nat := 0xac00

def leads : Nat := 0x1100

def vowels : Nat := 0x1161

/-- the tails start one after this, which stands for none -/
def tails : Nat := 0x11a7

def leadCount : Nat := 19

def vowelCount : Nat := 21

def tailCount : Nat := 28

def apart? (c : Char) : Option Text :=
  let n := c.toNat - syllables
  if syllables ≤ c.toNat ∧ n < leadCount * vowelCount * tailCount then
    let lead := Char.ofNat (leads + n / (vowelCount * tailCount))
    let vowel := Char.ofNat (vowels + n / tailCount % vowelCount)
    let tail := n % tailCount
    some ([lead, vowel] ++ if tail = 0 then [] else [Char.ofNat (tails + tail)])
  else none

/-- a lead with a vowel, or a syllable without a tail with one -/
def whole? (a b : Char) : Option Char :=
  let l := a.toNat - leads
  let v := b.toNat - vowels
  let s := a.toNat - syllables
  let t := b.toNat - tails
  if leads ≤ a.toNat ∧ l < leadCount ∧ vowels ≤ b.toNat ∧ v < vowelCount then
    some (Char.ofNat (syllables + (l * vowelCount + v) * tailCount))
  else if syllables ≤ a.toNat ∧ s < leadCount * vowelCount * tailCount ∧ s % tailCount = 0
      ∧ tails < b.toNat ∧ t < tailCount then
    some (Char.ofNat (a.toNat + t))
  else none

end Hangul

/-! ## characters and their parts -/

/-- the parts of a character, of which the first one is taken apart a few times more -/
def partsOf : (depth : Nat) → Char → Text
  | 0, c => [c]
  | depth + 1, c =>
    match pairs.find? (·.whole = c.toNat) with
    | some p => partsOf depth (Char.ofNat p.first) ++ [Char.ofNat p.second]
    | none => [c]

/-- no character is a whole of a whole of a whole of a whole -/
def apart (c : Char) : Text := (Hangul.apart? c).getD (partsOf 3 c)

/-- the character that two of them mean -/
def whole? (a b : Char) : Option Char :=
  match Hangul.whole? a b with
  | some c => some c
  | none =>
    (pairs.find? fun p => p.first = a.toNat && p.second = b.toNat).map fun p => Char.ofNat p.whole

/-! ## order -/

/-- a character before the marks of its class and of higher ones -/
def place (c : Char) : Text → Text
  | [] => [c]
  | d :: cs =>
    if combiningClass d ≠ 0 ∧ combiningClass d < combiningClass c then d :: place c cs
    else c :: d :: cs

def ordered : Text → Text
  | [] => []
  | c :: cs => place c (ordered cs)

/-! ## putting together -/

/-- what follows `base` and the marks that stay on it; a mark of the same class or a higher one
keeps a character from `base` -/
def togetherFrom (base : Char) (onIt : Text) : Text → Text
  | [] => base :: onIt
  | c :: cs =>
    let reaches := !onIt.getLast?.any (combiningClass c ≤ combiningClass ·)
    match if reaches then whole? base c else none with
    | some whole => togetherFrom whole onIt cs
    | none =>
      if combiningClass c = 0 then base :: onIt ++ togetherFrom c [] cs
      else togetherFrom base (onIt ++ [c]) cs

/-- marks at the start have no character to go with -/
def together (cs : Text) : Text :=
  let (marks, rest) := cs.span (combiningClass · ≠ 0)
  match rest with
  | [] => marks
  | c :: rest => marks ++ togetherFrom c [] rest

def composed (cs : Text) : Text :=
  if cs.all (·.toNat < 0x300) then cs else together (ordered (cs.flatMap apart))

end Text

end CppMend
