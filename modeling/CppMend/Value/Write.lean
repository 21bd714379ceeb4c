import CppMend.Text.Percent
import CppMend.Text.Pieces
import CppMend.Value

/-!
# Writing values

`Value.json` writes a value as JSON, without blanks. A number with places is written with a point,
so it is read as what it was.

* `Json.quoted`    a text between quotes;
* `Json.decimal`   a number;
* `Value.json`     the text of a value.
-/

namespace CppMend

namespace Json

/-- a character as it stands between quotes -/
def inQuotes (c : Char) : Text :=
  if c = '"' ∨ c = '\\' then ['\\', c]
  else if c.toNat < 0x20 then
    ['\\', 'u', '0', '0', Percent.digit (c.toNat / 16), Percent.digit (c.toNat % 16)]
  else [c]

def quoted (cs : Text) : Text := '"' :: cs.flatMap inQuotes ++ ['"']

/-- the digits of a number with a point before the last `places` of them -/
def decimal (negative : Bool) (n places : Nat) : Text :=
  let digits := (toString n).toList
  let sign : Text := if negative then ['-'] else []
  if places = 0 then sign ++ digits
  else
    let digits := List.replicate (places + 1 - digits.length) '0' ++ digits
    sign ++ digits.take (digits.length - places) ++ '.' :: digits.drop (digits.length - places)

def between (first last : Char) (parts : List Text) : Text :=
  first :: Text.joined [','] parts ++ [last]

end Json

mutual

def Value.json : Value → Text
  | .null => "null".toList
  | .bool true => "true".toList
  | .bool false => "false".toList
  | .number negative n places => Json.decimal negative n places
  | .text cs => Json.quoted cs
  | .list vs => Json.between '[' ']' (Value.jsonItems vs)
  | .object fields => Json.between '\x7b' '\x7d' (Value.jsonFields fields)

def Value.jsonItems : List Value → List Text
  | [] => []
  | v :: vs => v.json :: Value.jsonItems vs

def Value.jsonFields : List (String × Value) → List Text
  | [] => []
  | (key, v) :: fields => (Json.quoted key.toList ++ ':' :: v.json) :: Value.jsonFields fields

end

end CppMend
