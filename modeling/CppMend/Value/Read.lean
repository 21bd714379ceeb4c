import CppMend.Text.Percent
import CppMend.Value

/-!
# Reading values

`Value.ofJson?` reads a value from its JSON text. Of an object it keeps the fields in the order of
their keys, and the last of those with one key. A number is an integer only if it is written as
one and fits a word of 64 bits.

* `Json.string?`    a text after its opening quote;
* `Json.number?`    a number;
* `Json.value?`     a value, and the text after it;
* `Value.ofJson?`   the value of a whole text.
-/

namespace CppMend

namespace Json

def isBlank (c : Char) : Bool := c ∈ [' ', '\t', '\n', '\r']

def skipBlanks (cs : Text) : Text := cs.dropWhile isBlank

/-! ## texts -/

/-- the character that stands for itself or another after a backslash -/
def escaped? : Char → Option Char
  | '"' => some '"'
  | '\\' => some '\\'
  | '/' => some '/'
  | 'b' => some '\x08'
  | 'f' => some '\x0c'
  | 'n' => some '\n'
  | 'r' => some '\r'
  | 't' => some '\t'
  | _ => none

/-- the number of four digits to base 16 -/
def word? (digits : Text) : Option Nat :=
  digits.foldlM (fun n c => (Percent.digitValue? c).map (16 * n + ·)) 0

def isHighHalf (n : Nat) : Bool := 0xd800 ≤ n && n < 0xdc00

def isLowHalf (n : Nat) : Bool := 0xdc00 ≤ n && n < 0xe000

/-- The text up to its closing quote, after what is `done` of it from its end, and what follows. A
character above `U+FFFF` is escaped as two halves. -/
def stringFrom? (done : Text) : Text → Option (Text × Text)
  | '"' :: cs => some (done.reverse, cs)
  | '\\' :: 'u' :: a :: b :: c :: d :: '\\' :: 'u' :: a' :: b' :: c' :: d' :: cs =>
    match word? [a, b, c, d], word? [a', b', c', d'] with
    | some high, some low =>
      if isHighHalf high ∧ isLowHalf low then
        let code := 0x10000 + (high - 0xd800) * 0x400 + (low - 0xdc00)
        stringFrom? (Char.ofNat code :: done) cs
      else if high.isValidChar then
        stringFrom? (Char.ofNat high :: done) ('\\' :: 'u' :: a' :: b' :: c' :: d' :: cs)
      else none
    | _, _ => none
  | '\\' :: 'u' :: a :: b :: c :: d :: cs =>
    match word? [a, b, c, d] with
    | some n => if n.isValidChar then stringFrom? (Char.ofNat n :: done) cs else none
    | none => none
  | '\\' :: c :: cs =>
    match escaped? c with
    | some e => stringFrom? (e :: done) cs
    | none => none
  | c :: cs => if c.toNat < 0x20 then none else stringFrom? (c :: done) cs
  | [] => none

def string? (cs : Text) : Option (Text × Text) := stringFrom? [] cs

/-! ## numbers -/

def natOf (digits : Text) : Nat := digits.foldl (fun n c => 10 * n + (c.toNat - '0'.toNat)) 0

/-- one digit or more, and what follows them -/
def digits? (cs : Text) : Option (Text × Text) :=
  let (digits, rest) := cs.span Char.isDigit
  if digits.isEmpty then none else some (digits, rest)

/-- the digits after a point, if there is one -/
def fraction? : Text → Option (Option Text × Text)
  | '.' :: cs => (digits? cs).map fun (digits, rest) => (some digits, rest)
  | cs => some (none, cs)

/-- the power of ten that is written after an `e`, if there is one -/
def exponent? : Text → Option (Option Int × Text)
  | e :: cs =>
    if e = 'e' ∨ e = 'E' then
      let (negative, cs) :=
        match cs with
        | '-' :: cs => (true, cs)
        | '+' :: cs => (false, cs)
        | cs => (false, cs)
      (digits? cs).map fun (digits, rest) =>
        let n := (natOf digits : Int)
        (some (if negative then -n else n), rest)
    else some (none, e :: cs)
  | [] => some (none, [])

/-- beyond this power of ten a number is too large, or nothing -/
def largestPower : Int := 400

/-- a number that is no integer, or is not written as one -/
def real? (negative : Bool) (digits : Nat) (power : Int) : Option Value :=
  if largestPower < power then none
  else if power < -largestPower then some (.number negative 0 1)
  else if 0 ≤ power then some (.number negative (digits * Nat.pow 10 (power.toNat + 1)) 1)
  else some (.number negative digits (-power).toNat)

/-- the integers that fit a word of 64 bits, with a sign or without one; zero has no sign -/
def fitsWord (negative : Bool) (n : Nat) : Bool :=
  if negative then n ≠ 0 && n ≤ 1 <<< 63 else n < 1 <<< 64

def number? (cs : Text) : Option (Value × Text) := do
  let negative := cs.head? = some '-'
  let (whole, cs) ← digits? (if negative then cs.drop 1 else cs)
  let (fraction, cs) ← fraction? cs
  let (exponent, cs) ← exponent? cs
  let n := natOf (whole ++ fraction.getD [])
  if 1 < whole.length ∧ whole.head? = some '0' then none
  else if fraction.isNone ∧ exponent.isNone ∧ fitsWord negative n then
    some (.number negative n 0, cs)
  else (real? negative n (exponent.getD 0 - (fraction.getD []).length)).map (·, cs)

/-! ## values -/

/-- an object with one more field, in the place of its key -/
def insert (key : String) (v : Value) : List (String × Value) → List (String × Value)
  | [] => [(key, v)]
  | (k, old) :: fields =>
    if key < k then (key, v) :: (k, old) :: fields
    else if key = k then (key, v) :: fields
    else (k, old) :: insert key v fields

mutual

/-- A value, and the text after it. `fuel` bounds the steps; the length of the text is enough. -/
def value? : (fuel : Nat) → Text → Option (Value × Text)
  | 0, _ => none
  | fuel + 1, cs =>
    match skipBlanks cs with
    | 'n' :: 'u' :: 'l' :: 'l' :: cs => some (.null, cs)
    | 't' :: 'r' :: 'u' :: 'e' :: cs => some (.bool true, cs)
    | 'f' :: 'a' :: 'l' :: 's' :: 'e' :: cs => some (.bool false, cs)
    | '"' :: cs => (string? cs).map fun (text, rest) => (.text text, rest)
    | '[' :: cs =>
      match skipBlanks cs with
      | ']' :: cs => some (.list [], cs)
      | cs => items? fuel [] cs
    | '\x7b' :: cs =>
      match skipBlanks cs with
      | '\x7d' :: cs => some (.object [], cs)
      | cs => fields? fuel [] cs
    | cs => number? cs

/-- the values of a list after some, from the last one, and the text after its end -/
def items? : (fuel : Nat) → List Value → Text → Option (Value × Text)
  | 0, _, _ => none
  | fuel + 1, done, cs => do
    let (v, rest) ← value? fuel cs
    match skipBlanks rest with
    | ',' :: rest => items? fuel (v :: done) rest
    | ']' :: rest => some (.list (v :: done).reverse, rest)
    | _ => none

/-- the fields of an object after some, and the text after its end -/
def fields? : (fuel : Nat) → List (String × Value) → Text → Option (Value × Text)
  | 0, _, _ => none
  | fuel + 1, done, cs =>
    match skipBlanks cs with
    | '"' :: cs => do
      let (key, rest) ← string? cs
      match skipBlanks rest with
      | ':' :: rest =>
        let (v, rest) ← value? fuel rest
        let done := insert (String.ofList key) v done
        match skipBlanks rest with
        | ',' :: rest => fields? fuel done rest
        | '\x7d' :: rest => some (.object done, rest)
        | _ => none
      | _ => none
    | _ => none

end

end Json

def Value.ofJson? (cs : Text) : Option Value :=
  match Json.value? (cs.length + 1) cs with
  | some (v, rest) => if (Json.skipBlanks rest).isEmpty then some v else none
  | none => none

end CppMend
