import CppMend.Uri.Parse
import CppMend.Value

/-!
# Shapes of values

A `Shape` says what a value has to look like. Reading a value through a shape gives its normal
form: URIs in theirs, one of some names as a text, and of an object only the fields that the shape
knows and that are not null. A record may be sent as the list of its values.

* `Shape.read`                                the normal form, if the value has the shape;
* `Shape.position`, …, `Shape.diagnostic`     the shapes of what editors pass around.
-/

namespace CppMend

/-- What becomes of a field that is left out. -/
inductive Presence where
  /-- it must not be left out -/
  | needed
  /-- it stays out; a list of values has to hold a null for it -/
  | optional
  /-- it stays out, and a list of values may end before it -/
  | atEnd
  /-- it is sent as a null -/
  | nullable
  deriving DecidableEq, Repr

mutual

inductive Shape where
  | any
  | bool
  | int
  | nat (bits : Nat)
  | text
  | uri
  | oneOf (names : List String)
  | list (item : Shape)
  /-- an object with any keys -/
  | table (item : Shape)
  /-- an object whose keys are URIs -/
  | byUri (item : Shape)
  | either (first second : Shape)
  | record (fields : Fields)
  /-- a record that is not sent as a list -/
  | unlisted (fields : Fields)
  /-- a record that says under a key which one of some variants it is -/
  | tagged (key : String) (variants : Variants)

/-- The fields of a record, in the order in which a list of its values has them. -/
inductive Fields where
  | none
  | field (key : String) (presence : Presence) (shape : Shape) (others : Fields)

/-- The records that a tagged one can be, by the names that say so. -/
inductive Variants where
  | none
  | variant (name : String) (fields : Fields) (others : Variants)

end

/-- the value of a text that is a URI -/
def Uri.ofValue? (v : Value) : Option Uri := v.asText?.bind Uri.parse?

def Uri.toValue (u : Uri) : Value := .text u.render

namespace Fields

def keys : Fields → List String
  | none => []
  | field key _ _ others => key :: others.keys

/-- how many values a list of them has to have -/
def shortest : Fields → Nat
  | none => 0
  | field _ .atEnd _ others => if others.shortest = 0 then 0 else others.shortest + 1
  | field _ _ _ others => others.shortest + 1

/-- an object with these fields, which may have been sent as a list -/
def named (fields : Fields) (v : Value) : Value := v.namedFrom fields.shortest fields.keys

end Fields

/-- the entries of an object, the last one of those with one key -/
def Value.entries? {α : Type} (key : String → Option String) (read : Value → Option α) :
    Value → Option (List (String × α))
  | .object fields => do
    let read ← fields.mapM fun (k, v) => do return (← key k, ← read v)
    return read.foldl (fun out e => out.filter (·.1 ≠ e.1) ++ [e]) []
  | _ => none

namespace Shape

/-- one of some names, as a text or as the only key of an object that holds a null -/
def nameOf? (names : List String) (v : Value) : Option Value :=
  let name :=
    match v with
    | .text cs => some (String.ofList cs)
    | .object [(key, .null)] => some key
    | _ => none
  (name.filter (· ∈ names)).map .ofString

/-- a tag and the other values of a record with one -/
def untagged? (key : String) : Value → Option (Value × Value)
  | .object fields => (fields.lookup key).map (·, .object fields)
  | .list (tag :: vs) => some (tag, .list vs)
  | _ => none

/-- a tag is the name of a variant or its place among them -/
def isTag (tag : Value) (name : String) (place : Nat) : Bool :=
  tag.asText? = some name.toList || tag.asInt? = some (place : Int)

/-- the normal form of a key that is a URI -/
def uriKey (key : String) : Option String := (Uri.parse? key.toList).map Uri.spelling

end Shape

mutual

def Shape.read : Shape → Value → Option Value
  | .any, v => some v
  | .bool, v => v.asBool?.map .bool
  | .int, v => v.asInt32?.map .ofInt
  | .nat bits, v => (v.asNat? bits).map .ofNat
  | .text, v => v.asText?.map .text
  | .uri, v => (Uri.ofValue? v).map Uri.toValue
  | .oneOf names, v => Shape.nameOf? names v
  | .list item, v => (v.asList? item.read).map .list
  | .table item, v => (v.entries? some item.read).map .object
  | .byUri item, v => (v.entries? Shape.uriKey item.read).map .object
  | .either first second, v => (first.read v).or (second.read v)
  | .record fields, v => (fields.read (fields.named v)).map .object
  | .unlisted fields, v => (fields.read v).map .object
  | .tagged key variants, v => do
    let (tag, rest) ← Shape.untagged? key v
    let (name, entries) ← variants.read tag 0 rest
    return .object ((key, .ofString name) :: entries)

def Fields.read : Fields → Value → Option (List (String × Value))
  | .none, v => if v.isObject then some [] else Option.none
  | .field key presence shape others, v => do
    let value ← match presence with
      | .needed => (v.required key shape.read).map some
      | .optional | .atEnd => v.optional key shape.read
      | .nullable => (v.optional key shape.read).map fun value => some (value.getD .null)
    let rest ← others.read v
    return value.toList.map (key, ·) ++ rest

/-- the name and the fields of the variant with a tag -/
def Variants.read : Variants → (tag : Value) → (place : Nat) → Value →
    Option (String × List (String × Value))
  | .none, _, _, _ => Option.none
  | .variant name fields others, tag, place, v =>
    if Shape.isTag tag name place then (fields.read (fields.named v)).map (name, ·)
    else others.read tag (place + 1) v

end

namespace Shape

abbrev Entry := String × Presence × Shape

def fieldsOf (entries : List Entry) : Fields :=
  entries.foldr (fun (key, presence, shape) => .field key presence shape) .none

def recordOf (entries : List Entry) : Shape := record (fieldsOf entries)

def variantsOf (variants : List (String × List Entry)) : Variants :=
  variants.foldr (fun (name, entries) => .variant name (fieldsOf entries)) .none

/-- a field that must be there -/
def must (key : String) (shape : Shape) : Entry := (key, .needed, shape)

/-- a field that may be left out -/
def may (key : String) (shape : Shape) : Entry := (key, .optional, shape)

/-! ## what editors pass around -/

def numberOrText : Shape := either int text

def position : Shape := recordOf [must "line" (nat 32), must "character" (nat 32)]

def range : Shape := recordOf [must "start" position, must "end" position]

def location : Shape := recordOf [must "uri" uri, must "range" range]

def diagnostic : Shape :=
  recordOf [
    must "range" range,
    may "severity" int,
    may "code" numberOrText,
    may "codeDescription" (recordOf [must "href" uri]),
    may "source" text,
    must "message" text,
    may "relatedInformation" (list (recordOf [must "location" location, must "message" text])),
    may "tags" (list int),
    may "data" any]

def command : Shape :=
  recordOf [must "title" text, must "command" text, may "arguments" (list any)]

def disabled : Shape := recordOf [must "reason" text]

end Shape

end CppMend
