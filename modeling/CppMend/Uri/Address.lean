import CppMend.Text.Percent
import CppMend.Text.Pieces

/-!
# Number addresses

A host may be a number. A short address has four bytes, and a name whose last part is a number can
be nothing else. A long address has eight groups of 16 bits and stands between brackets; `::`
stands for as many groups of zero as are missing, and a short address may stand for the last two
groups. Each address has one form in which it is written.

* `Address.short?`   the form of a name as a short address;
* `Address.long?`    the form of what stands between brackets.
-/

namespace CppMend

namespace Address

/-- the value of digits to a base -/
def valueOf? (base : Nat) (digits : Text) : Option Nat :=
  digits.foldlM (fun n c => (Percent.digitValue? c).bind fun d =>
    if d < base then some (n * base + d) else none) 0

/-! ## short addresses -/

/-- a number, to base 16 after `0x` and to base 8 after `0` -/
def number? : Text → Option Nat
  | [] => none
  | '0' :: 'x' :: digits => valueOf? 16 digits
  | '0' :: 'X' :: digits => valueOf? 16 digits
  | '0' :: digits => valueOf? 8 digits
  | digits => valueOf? 10 digits

def parts (name : Text) : List Text :=
  let ps := Text.pieces (· = '.') name
  if 1 < ps.length ∧ ps.getLast? = some [] then ps.dropLast else ps

/-- the name reads as an address, for its last part is a number -/
def endsInNumber (name : Text) : Bool :=
  match (parts name).getLast? with
  | some [] => false
  | some p => p.all Char.isDigit || (number? p).isSome
  | none => false

/-- Four bytes. The last part may stand for several of them. -/
def short? (name : Text) : Option Text := do
  let values ← (parts name).mapM number?
  let last ← values.getLast?
  let front := values.dropLast
  if 4 < values.length ∨ front.any (255 < ·) ∨ 1 <<< (8 * (5 - values.length)) ≤ last then none
  else
    let whole := (front.foldl (256 * · + ·) 0) <<< (8 * (4 - front.length)) + last
    let bytes := [whole >>> 24, (whole >>> 16) % 256, (whole >>> 8) % 256, whole % 256]
    some (String.intercalate "." (bytes.map toString)).toList

/-! ## long addresses -/

/-- one group of up to four digits -/
def group? (digits : Text) : Option Nat :=
  if digits.isEmpty ∨ 4 < digits.length then none else valueOf? 16 digits

/-- a byte without a zero before it -/
def byte? (digits : Text) : Option Nat :=
  if digits.isEmpty ∨ 3 < digits.length ∨ (digits.head? = some '0' ∧ 1 < digits.length) then none
  else (valueOf? 10 digits).filter (· < 256)

/-- the last group, or a short address in the place of two -/
def lastGroups? (cs : Text) : Option (List Nat) :=
  if '.' ∈ cs then do
    match ← (Text.pieces (· = '.') cs).mapM byte? with
    | [a, b, c, d] => some [256 * a + b, 256 * c + d]
    | _ => none
  else (group? cs).map ([·])

/-- the groups between colons; nothing has none -/
def groups? (atEnd : Bool) (cs : Text) : Option (List Nat) :=
  if cs.isEmpty then some []
  else
    let ps := Text.pieces (· = ':') cs
    if atEnd then do
      let front ← ps.dropLast.mapM group?
      let last ← lastGroups? (ps.getLast?.getD [])
      some (front ++ last)
    else ps.mapM group?

/-- the text before the first `::`, and the text after it -/
def atGap : Text → Text × Option Text
  | [] => ([], none)
  | ':' :: ':' :: cs => ([], some cs)
  | c :: cs =>
    let (before, after) := atGap cs
    (c :: before, after)

def groupCount : Nat := 8

/-- the eight groups of an address -/
def longGroups? (cs : Text) : Option (List Nat) :=
  match atGap cs with
  | (before, some after) => do
    let front ← groups? false before
    let back ← groups? true after
    let missing := groupCount - (front.length + back.length)
    if missing = 0 then none else some (front ++ List.replicate missing 0 ++ back)
  | (whole, none) => do
    let groups ← groups? true whole
    if groups.length = groupCount then some groups else none

def groupText (n : Nat) : Text := Nat.toDigits 16 n

def groupsText (groups : List Nat) : Text := Text.joined [':'] (groups.map groupText)

/-- how many groups from a place on are zero -/
def zerosAt (groups : List Nat) (i : Nat) : Nat := ((groups.drop i).takeWhile (· = 0)).length

/-- The groups, with `::` in the place of the longest run of zeros, and of the first one of those.
A single zero is written as it is. -/
def longText (groups : List Nat) : Text :=
  let longest := (List.range groups.length).foldl (fun n i => max n (zerosAt groups i)) 0
  match (List.range groups.length).find? (zerosAt groups · = longest) with
  | some i =>
    if longest < 2 then groupsText groups
    else groupsText (groups.take i) ++ [':', ':'] ++ groupsText (groups.drop (i + longest))
  | none => groupsText groups

def long? (cs : Text) : Option Text := (longGroups? cs).map longText

end Address

end CppMend
