import CppMend.Text.Pieces

/-!
# Arguments

The arguments of a command line are words and options. An option is a switch, or it takes a value:
the rest of its argument after an equals sign, or else the next argument, which must not look like
an option. After two dashes all arguments are words, but none is the name of a command.

* `Usage`             which options and how many words there may be;
* `Arguments.read`    the arguments, read from left to right; the first one that is wrong counts.
-/

namespace CppMend

/-- Why a command line is not carried out. -/
inductive UsageError where
  | unknown (argument : Text)
  | missing (name : String)
  | unwanted (name : String)
  | repeated (name : String)
  | malformed (name : String) (value : Text)
  | conflict (names : List String)
  deriving DecidableEq, Repr

/-- A command line asks for a text about the program, or is wrong. -/
inductive Refusal where
  | help
  | error (cause : UsageError)
  deriving DecidableEq, Repr

/-! ## values -/

inductive ValueKind where
  | text
  /-- the path of a file or a directory -/
  | path
  /-- an offset, a line or a column -/
  | place
  /-- a number of things -/
  | count
  deriving DecidableEq, Repr

namespace ValueKind

/-- the number of some digits, at least one -/
def digits? (cs : Text) : Option Nat :=
  if cs ≠ [] ∧ cs.all Char.isDigit then
    some (cs.foldl (fun n c => 10 * n + (c.toNat - '0'.toNat)) 0)
  else none

/-- the number of some digits after a plus or nothing -/
def natural? : Text → Option Nat
  | '+' :: cs => digits? cs
  | cs => digits? cs

/-- A place is an integer that fits 32 bits and is not negative; minus zero is zero. -/
def place? (cs : Text) : Option Nat :=
  let n? :=
    match cs with
    | '-' :: cs => (digits? cs).filter (· = 0)
    | cs => natural? cs
  n?.filter (· < 1 <<< 32)

def count? (cs : Text) : Option Nat := (natural? cs).filter (· < 1 <<< 64)

def accepts : ValueKind → Text → Bool
  | text, _ => true
  | path, cs => !cs.isEmpty
  | place, cs => (place? cs).isSome
  | count, cs => (count? cs).isSome

end ValueKind

/-! ## usage -/

/-- An argument that takes a value. -/
structure Valued where
  name : String
  kind : ValueKind
  deriving DecidableEq, Repr

structure Usage where
  switches : List String
  /-- switches that ask for a text about the program -/
  helps : List String
  /-- short forms of switches -/
  letters : List (Char × String)
  options : List Valued
  words : List Valued
  deriving Repr

/-- What an argument looks like. -/
inductive Argument where
  | word (cs : Text)
  | dashes
  | short (letters : Text)
  | long (name : Text) (value : Option Text)
  deriving DecidableEq, Repr

namespace Argument

/-- A dash alone is a word. -/
def ofText : Text → Argument
  | ['-', '-'] => dashes
  | '-' :: '-' :: cs =>
    let name := cs.takeWhile (· ≠ '=')
    long name (if name.length < cs.length then some (cs.drop (name.length + 1)) else none)
  | '-' :: c :: cs => short (c :: cs)
  | cs => word cs

end Argument

/-! ## reading -/

/-- What was given: switches, the values of options, and the values of words. -/
structure Arguments where
  switches : List String
  values : List (String × Text)
  words : List (String × Text)
  deriving DecidableEq, Repr, Inhabited

namespace Arguments

def empty : Arguments := ⟨[], [], []⟩

/-- the value of an option -/
def value? (a : Arguments) (name : String) : Option Text := a.values.lookup name

/-- the value of a word -/
def word? (a : Arguments) (name : String) : Option Text := a.words.lookup name

def refuse {α : Type} (cause : UsageError) : Except Refusal α := .error (.error cause)

/-- a value, if it may be one -/
def checked (v : Valued) (value : Text) : Except Refusal (String × Text) :=
  if v.kind.accepts value then .ok (v.name, value) else refuse (.malformed v.name value)

/-- one more word -/
def withWord (usage : Usage) (a : Arguments) (cs : Text) : Except Refusal Arguments :=
  match usage.words[a.words.length]? with
  | some v => do return { a with words := a.words ++ [← checked v cs] }
  | none => refuse (.unknown cs)

/-- one more switch -/
def withSwitch (usage : Usage) (a : Arguments) (name : String) : Except Refusal Arguments :=
  if name ∈ usage.helps then .error .help
  else if name ∈ a.switches then refuse (.repeated name)
  else .ok { a with switches := a.switches ++ [name] }

/-- one more option with a value -/
def withValue (a : Arguments) (v : Valued) (value : Text) : Except Refusal Arguments :=
  if (a.value? v.name).isSome then refuse (.repeated v.name)
  else do return { a with values := a.values ++ [← checked v value] }

/-- one more switch in its short form -/
def withLetter (usage : Usage) (a : Arguments) (c : Char) : Except Refusal Arguments :=
  match usage.letters.lookup c with
  | some name => a.withSwitch usage name
  | none => refuse (.unknown ['-', c])

/-- The arguments of a usage. If the last word `stops` the reading, the arguments after it are
left as they are; such a word does not stand after two dashes. -/
def read (usage : Usage) (stops : Bool) (a : Arguments) :
    List Text → Except Refusal (Arguments × List Text)
  | [] => .ok (a, [])
  | arg :: args =>
    match Argument.ofText arg with
    | .word cs => do
      let a ← a.withWord usage cs
      if stops && a.words.length = usage.words.length then return (a, args)
      else a.read usage stops args
    | .dashes =>
      match stops, args with
      | true, cs :: _ => refuse (.unknown cs)
      | _, args => do return (← args.foldlM (withWord usage) a, [])
    | .short letters => do (← letters.foldlM (withLetter usage) a).read usage stops args
    | .long cs value =>
      let name := String.ofList cs
      if name ∈ usage.switches ++ usage.helps then
        match value with
        | some _ => refuse (.unwanted name)
        | none => do (← a.withSwitch usage name).read usage stops args
      else
        match usage.options.find? (·.name = name) with
        | none => refuse (.unknown arg)
        | some v =>
          match value, args with
          | some value, args => do (← a.withValue v value).read usage stops args
          | none, [] => refuse (.missing name)
          | none, next :: args =>
            match Argument.ofText next with
            | .word value => do (← a.withValue v value).read usage stops args
            | _ => refuse (.missing name)

end Arguments

end CppMend
