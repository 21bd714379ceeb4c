import CppMend.Text.Bytes

/-!
# Labels in ASCII

A label with any characters is written with letters, digits and hyphens alone: first its
characters of ASCII, and after a hyphen one number for each other character, in rising order. The
number says how far the character and its place are from those before it. It is written with the
digits of base 36, lowest first, and its last digit is the first one below a threshold, which
follows the size of the numbers before it.

* `threshold`   what a digit is held against;
* `adapted`     how the thresholds follow the numbers;
* `encode`      a label in ASCII;
* `decode?`     the label of such a form.

A label is read digit by digit, so a form with a broken number has no label.
-/

namespace CppMend

namespace Punycode

def base : Nat := 36

/-- the code point and the bias to start with -/
def firstCode : Nat := 0x80

def firstBias : Nat := 72

/-- no number is larger -/
def limit : Nat := 0xffffffff

def isPlain (c : Char) : Bool := c.toNat < firstCode

/-! ## digits and thresholds -/

/-- a letter for a digit below 26, and one of `0` to `9` from there on -/
def digit (n : Nat) : Char := Char.ofNat (if n < 26 then 'a'.toNat + n else '0'.toNat + (n - 26))

def digitValue? (c : Char) : Option Nat :=
  if c.isLower then some (c.toNat - 'a'.toNat)
  else if c.isDigit then some (c.toNat - '0'.toNat + 26)
  else none

/-- the threshold of a digit with `count` digits before it, from 1 to 26 -/
def threshold (bias count : Nat) : Nat := min 26 (max 1 (base * (count + 1) - bias))

theorem threshold_pos (bias count : Nat) : 0 < threshold bias count := by
  unfold threshold
  omega

theorem threshold_lt (bias count : Nat) : threshold bias count < base := by
  unfold threshold base
  omega

/-- how often a number is divided before it is small, in steps of the base, and what is left -/
def shrunk (steps n : Nat) : Nat × Nat :=
  if 455 < n then shrunk (steps + base) (n / 35) else (steps, n)
termination_by n
decreasing_by exact Nat.div_lt_self (by omega) (by omega)

/-- the bias after a number, of which a label of `length` characters has the share -/
def adapted (n length : Nat) (first : Bool) : Nat :=
  let n := if first then n / 700 else n / 2
  let (steps, n) := shrunk 0 (n + n / length)
  steps + base * n / (n + 38)

/-! ## writing -/

/-- a number after `count` of its digits -/
def digits (bias count n : Nat) : Text :=
  let t := threshold bias count
  if n < t then [digit n]
  else digit (t + (n - t) % (base - t)) :: digits bias (count + 1) ((n - t) / (base - t))
termination_by n
decreasing_by
  have := threshold_pos bias count
  exact Nat.lt_of_le_of_lt (Nat.div_le_self _ _) (by omega)

/-- A label underway: what is written of it, the number that is counted, the bias, and how many
characters are written. -/
structure Writer where
  written : Text
  number : Nat
  bias : Nat
  done : Nat

/-- the characters with a code point, after those below it are written; the others are counted -/
def Writer.character (plain code : Nat) (w : Writer) (c : Char) : Writer :=
  if c.toNat < code then { w with number := w.number + 1 }
  else if c.toNat = code then
    ⟨w.written ++ digits w.bias 0 w.number, 0, adapted w.number (w.done + 1) (w.done = plain),
      w.done + 1⟩
  else w

/-- the code points of a list, all at least `code`, in rising order -/
def encodeCodes (label : Text) (plain : Nat) (code : Nat) (w : Writer) : List Nat → Text
  | [] => w.written
  | next :: codes =>
    let start := { w with number := w.number + (next - code) * (w.done + 1) }
    let w := label.foldl (Writer.character plain next) start
    encodeCodes label plain (next + 1) { w with number := w.number + 1 } codes

def encode (label : Text) : Text :=
  let plain := label.filter isPlain
  let codes := ((label.filter (!isPlain ·)).map Char.toNat).mergeSort.eraseReps
  plain ++ (if plain.isEmpty then [] else ['-'])
    ++ encodeCodes label plain.length firstCode ⟨[], 0, firstBias, plain.length⟩ codes

/-! ## reading -/

/-- A label underway: its characters so far, the last code point and the place after it, the bias,
and the number that is read with the weight of its next digit and the count of those before. -/
structure Reader where
  label : Text
  code : Nat
  start : Nat
  bias : Nat
  number : Nat
  weight : Nat
  count : Nat

namespace Reader

def ofPlain (plain : Text) : Reader := ⟨plain, firstCode, 0, firstBias, 0, 1, 0⟩

/-- the character that the number stands for, at its place -/
def insert? (r : Reader) : Option Reader :=
  let length := r.label.length + 1
  let code := r.code + r.number / length
  let spot := r.number % length
  if code.isValidChar then
    some ⟨r.label.insertIdx spot (Char.ofNat code), code, spot + 1,
      adapted (r.number - r.start) length (r.start = 0), spot + 1, 1, 0⟩
  else none

def digit? (r : Reader) (c : Char) : Option Reader := do
  let d ← digitValue? c
  let t := threshold r.bias r.count
  let number := r.number + d * r.weight
  let weight := r.weight * (base - t)
  if limit < number then none
  else if d < t then insert? { r with number }
  else if limit < weight then none
  else some { r with number, weight, count := r.count + 1 }

end Reader

/-- The last hyphen ends the characters of ASCII, unless there are none before it. -/
def split (cs : Text) : Text × Text :=
  let after := (cs.reverse.takeWhile (· ≠ '-')).reverse
  let plain := cs.take (cs.length - after.length - 1)
  if plain.isEmpty then ([], cs) else (plain, after)

def decode? (cs : Text) : Option Text := do
  let (plain, digits) := split cs
  let r ← digits.foldlM Reader.digit? (Reader.ofPlain plain)
  if r.count = 0 then some r.label else none

end Punycode

end CppMend
