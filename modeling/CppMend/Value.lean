import CppMend.Text.Bytes

/-!
# Values

What an editor and a server send each other: a `Value` is null, a truth value, a number, a text, a
list or an object. A field that is null counts as one that is left out.

* `field?`       a field of an object, if it is there and not null;
* `required`     reads a field that must be there;
* `optional`     reads a field that may be left out, but must be well formed if it is there.
-/

namespace CppMend

inductive Value where
  | null
  | bool (b : Bool)
  /-- `digits / 10 ^ places`, below zero if it is `negative`; only a number without places is an
  integer -/
  | number (negative : Bool) (digits places : Nat)
  | text (cs : Text)
  | list (vs : List Value)
  | object (fields : List (String × Value))
  deriving Repr, Inhabited

namespace Value

def ofNat (n : Nat) : Value := .number false n 0

def ofInt (n : Int) : Value := .number (n < 0) n.natAbs 0

def ofString (s : String) : Value := .text s.toList

/-! ## reading -/

def asBool? : Value → Option Bool
  | .bool b => some b
  | _ => none

def asInt? : Value → Option Int
  | .number negative n 0 => some (if negative then -n else n)
  | _ => none

/-- an integer from zero on that has at most `bits` bits -/
def asNat? (bits : Nat) : Value → Option Nat
  | .number false n 0 => if n < 1 <<< bits then some n else none
  | _ => none

/-- an integer that fits a signed word -/
def asInt32? (v : Value) : Option Int :=
  match v.asInt? with
  | some n => if -2147483648 ≤ n ∧ n < 2147483648 then some n else none
  | none => none

def asText? : Value → Option Text
  | .text cs => some cs
  | _ => none

def asList? {α : Type} (read : Value → Option α) : Value → Option (List α)
  | .list vs => vs.mapM read
  | _ => none

def isObject : Value → Bool
  | .object _ => true
  | _ => false

def isNull : Value → Bool
  | .null => true
  | _ => false

/-- the value under a key, null if it is there and null -/
def get? (v : Value) (key : String) : Option Value :=
  match v with
  | .object fields => fields.lookup key
  | _ => none

/-- the value under a key, if it is there and not null -/
def field? (v : Value) (key : String) : Option Value :=
  match v.get? key with
  | some v => if v.isNull then none else some v
  | none => none

def required {α : Type} (v : Value) (key : String) (read : Value → Option α) : Option α :=
  (v.get? key).bind read

/-- fails only if the field is there and not well formed -/
def optional {α : Type} (v : Value) (key : String) (read : Value → Option α) :
    Option (Option α) :=
  match v.field? key with
  | some v => (read v).map some
  | none => some none

/-- An object, which may have been sent as the list of its values in the order of some keys. Such a
list has at least `shortest` values. -/
def namedFrom (shortest : Nat) (keys : List String) : Value → Value
  | .list vs =>
    if shortest ≤ vs.length ∧ vs.length ≤ keys.length then .object (keys.zip vs) else .list vs
  | v => v

/-- an object, which may have been sent as the list of all its values -/
def named (keys : List String) (v : Value) : Value := v.namedFrom keys.length keys

/-! ## writing -/

/-- an object without the fields that have no value -/
def present (fields : List (String × Option Value)) : Value :=
  .object (fields.filterMap fun (key, v) => v.map (key, ·))

/-- an object with one more field, which takes the place of one with the same key -/
def set (v : Value) (key : String) (new : Value) : Value :=
  match v with
  | .object fields => .object (fields.filter (·.1 ≠ key) ++ [(key, new)])
  | v => v

/-- an object without a field -/
def unset (v : Value) (key : String) : Value :=
  match v with
  | .object fields => .object (fields.filter (·.1 ≠ key))
  | v => v

end Value

end CppMend
