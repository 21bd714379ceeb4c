import CppMend.Text.Percent

/-!
# URIs

A `Uri` names a document. It is kept in its normal form, part by part, so two spellings of one
name are equal.

* `Uri.render`      the text of a URI;
* `Uri.pathText`    its path alone;
* `Uri.filePath?`   the path of a file that a URI stands for, as bytes;
* `Uri.ofFile`      the URI of the file at a place.
-/

namespace CppMend

/-- Who serves a resource. `account` ends in `@` unless it is empty. -/
structure Authority where
  account : Text
  host : Text
  port : Option Nat
  deriving DecidableEq, Repr, Inhabited

/-- A path of segments, each after a slash, or one text without structure. -/
inductive UriPath where
  | rooted (segments : List Text)
  | rootless (text : Text)
  deriving DecidableEq, Repr, Inhabited

structure Uri where
  scheme : Text
  authority : Option Authority
  path : UriPath
  query : Option Text
  fragment : Option Text
  deriving DecidableEq, Repr, Inhabited

namespace Authority

def nowhere : Authority := ⟨[], [], none⟩

def render (a : Authority) : Text :=
  a.account ++ a.host ++
    match a.port with
    | some n => ':' :: (toString n).toList
    | none => []

end Authority

namespace Uri

/-- each segment after a slash -/
def slashed (segments : List Text) : Text := segments.flatMap ('/' :: ·)

def pathText (u : Uri) : Text :=
  match u.path with
  | .rooted segments => slashed segments
  | .rootless text => text

/-- What keeps a path that starts with two slashes from reading as an authority. -/
def guardText (u : Uri) : Text :=
  match u.authority, u.path with
  | none, .rooted ([] :: _ :: _) => ['/', '.']
  | _, _ => []

def render (u : Uri) : Text :=
  u.scheme ++ [':']
    ++ (match u.authority with
      | some a => '/' :: '/' :: a.render
      | none => [])
    ++ u.guardText ++ u.pathText
    ++ (match u.query with
      | some q => '?' :: q
      | none => [])
    ++ (match u.fragment with
      | some f => '#' :: f
      | none => [])

def spelling (u : Uri) : String := String.ofList u.render

/-- what follows the last slash of the path -/
def lastName (u : Uri) : Text := (u.pathText.reverse.takeWhile (· ≠ '/')).reverse

/-! ## files -/

def isLocal (u : Uri) : Bool :=
  match u.authority with
  | some a => a.host = [] || a.host = "localhost".toList
  | none => true

/-- a letter and a colon or a bar -/
def isDrive : Text → Bool
  | [letter, mark] => letter.isAlpha && (mark = ':' || mark = '|')
  | _ => false

/-- The bytes of the path of a file. Only URIs without a foreign host have one; the name of a
drive keeps its slash. -/
def filePath? (u : Uri) : Option Bytes :=
  match u.path with
  | .rooted (s :: segments) =>
    if u.isLocal then
      let bytes := (s :: segments).flatMap fun s => Bytes.ofText ['/'] ++ Percent.unescape s
      let ending := (bytes.drop (bytes.length - 2)).map fun b => Char.ofNat b.toNat
      some (if isDrive ending && 2 < bytes.length then bytes ++ Bytes.ofText ['/'] else bytes)
    else none
  | _ => none

/-- the path of the file that a URI stands for, or else the URI itself -/
def displayPath (u : Uri) : Text :=
  match u.filePath? with
  | some bytes => bytes.text
  | none => u.render

/-- the URI of the file that is reached from the root through some names -/
def ofFile (names : List Bytes) : Uri where
  scheme := "file".toList
  authority := some .nowhere
  path := .rooted (if names.isEmpty then [[]] else names.map (Percent.ofBytes Percent.inSegment))
  query := none
  fragment := none

end Uri

end CppMend
