import CppMend.Uri.Basic
import CppMend.Uri.Host

/-!
# Reading URIs

`Uri.parse?` reads a text as a browser does: what surrounds it is trimmed, the scheme is lowered,
`.` and `..` are resolved, and characters that a part does not admit are escaped. A text without a
scheme, or with a host or port that cannot be one, is no URI.

* `Family`            how the rest of a URI is read, by its scheme;
* `resolve`           the segments of a path, with `.` and `..` carried out;
* `authority?`        the account, host and port before a path.
-/

namespace CppMend

namespace Uri

/-- What a scheme is: that of files, one of the web, or any other. -/
inductive Family where
  | file
  | web (port : Option Nat)
  | other
  deriving DecidableEq, Repr

def Family.ofScheme (scheme : Text) : Family :=
  match String.ofList scheme with
  | "file" => .file
  | "http" | "ws" => .web (some 80)
  | "https" | "wss" => .web (some 443)
  | "ftp" => .web (some 21)
  | _ => .other

def Family.usualPort : Family → Option Nat
  | .web port => port
  | _ => none

/-- a slash, or for files and the web a backslash too -/
def Family.isSlash (f : Family) (c : Char) : Bool := c = '/' || (c = '\\' && f ≠ .other)

def isBlank (c : Char) : Bool := c.toNat ≤ 0x20

/-- the text without what surrounds it and without the line breaks in it -/
def trimmed (cs : Text) : Text :=
  (((cs.dropWhile isBlank).reverse.dropWhile isBlank).reverse).filter (· ∉ ['\t', '\n', '\r'])

/-- the scheme in lower case, and what follows its colon -/
def scheme? (cs : Text) : Option (Text × Text) :=
  let (name, rest) := cs.span fun c => c.isAlphanum || c ∈ ['+', '-', '.']
  match name, rest with
  | first :: _, ':' :: rest => if first.isAlpha then some (name.map Char.toLower, rest) else none
  | _, _ => none

/-! ## paths -/

/-- `%2e` is a dot too -/
def undotted : Text → Text
  | '%' :: '2' :: 'e' :: cs => '.' :: undotted cs
  | '%' :: '2' :: 'E' :: cs => '.' :: undotted cs
  | c :: cs => c :: undotted cs
  | [] => []

/-- a path without its last segment; a drive stays -/
def shorten (segments : List Text) : List Text :=
  if segments.getLast?.any isDrive then segments else segments.dropLast

/-- one more segment, of which the last one may be empty -/
def addSegment (f : Family) (segments : List Text) (s : Text) (last : Bool) : List Text :=
  let ending : List Text := if last then [[]] else []
  if undotted s = ['.', '.'] then shorten segments ++ ending
  else if undotted s = ['.'] then segments ++ ending
  else if f = .file ∧ segments.isEmpty ∧ isDrive s then segments ++ [s.take 1 ++ [':']]
  else segments ++ [Percent.escape Percent.inPath s]

def addSegments (f : Family) (segments : List Text) : List Text → List Text
  | [] => segments
  | [s] => addSegment f segments s true
  | s :: ss => addSegments f (addSegment f segments s false) ss

/-- the segments of a text, with `.` and `..` carried out -/
def resolve (f : Family) (cs : Text) : List Text := addSegments f [] (Text.pieces f.isSlash cs)

/-- the text after a slash, if it starts with one -/
def dropSlash (f : Family) : Text → Text
  | [] => []
  | c :: cs => if f.isSlash c then cs else c :: cs

/-- the path of a file does not start with empty segments -/
def ofRoot (segments : List Text) : List Text :=
  match segments.dropWhile List.isEmpty with
  | [] => [[]]
  | ss => ss

/-! ## authorities -/

/-- the account before the last `@`, and what follows it -/
def account (cs : Text) : Text × Text :=
  let after := (cs.reverse.takeWhile (· ≠ '@')).reverse
  if after.length = cs.length then ([], cs)
  else
    let before := cs.take (cs.length - after.length - 1)
    let (user, rest) := before.span (· ≠ ':')
    let secret := rest.drop 1
    let text := Percent.escape Percent.inAccount user
      ++ (if secret.isEmpty then [] else ':' :: Percent.escape Percent.inAccount secret)
    (if text.isEmpty then [] else text ++ ['@'], after)

/-- the host and what follows it, where a colon between brackets does not end it -/
def splitHost (cs : Text) : Text × Text :=
  match cs with
  | '[' :: _ =>
    let (inside, rest) := cs.span (· ≠ ']')
    (inside ++ rest.take 1, rest.drop 1)
  | _ => cs.span (· ≠ ':')

/-- a port, and what follows it; `none` for none or the usual one -/
def port? (usual : Option Nat) : Text → Option (Option Nat × Text)
  | [] => some (none, [])
  | ':' :: cs =>
    let (digits, rest) := cs.span Char.isDigit
    match rest.head?.all (· = '\\'), Address.valueOf? 10 digits with
    | true, some n =>
      if 65535 < n then none
      else some (if digits.isEmpty ∨ some n = usual then none else some n, rest)
    | _, _ => none
  | _ => none

/-- The authority that a text before a path spells, and what of the text belongs to the path. An
account needs a host, and so does a port. -/
def authority? (f : Family) (cs : Text) : Option (Authority × Text) := do
  let (account, server) := account cs
  let (hostText, portText) := splitHost server
  let host ← if f = .other then Host.ofText? hostText else Host.ofName? hostText
  let (port, rest) ← port? f.usualPort portText
  if host.isEmpty ∧ (¬account.isEmpty ∨ ¬portText.isEmpty) then none
  else some (⟨account, host, port⟩, rest)

/-! ## whole URIs -/

/-- what ends an authority -/
def endsAuthority (f : Family) (c : Char) : Bool := f.isSlash c || c = '?' || c = '#'

/-- the query and the fragment after a path -/
def ending (f : Family) (cs : Text) : Option Text × Option Text :=
  let inQuery := fun c => Percent.inQuery c || (c = '\'' && f ≠ .other)
  let (front, fragment) := cs.span (· ≠ '#')
  (if front.isEmpty then none else some (Percent.escape inQuery (front.drop 1)),
    if fragment.isEmpty then none else some (Percent.escape Percent.inFragment (fragment.drop 1)))

def isPathChar (c : Char) : Bool := c ≠ '?' && c ≠ '#'

/-- a URI, from what comes before its path and from the text of its path on -/
def assemble (f : Family) (scheme : Text) (authority : Option Authority) (path : Text → UriPath)
    (cs : Text) : Uri :=
  let (front, back) := cs.span isPathChar
  let (query, fragment) := ending f back
  ⟨scheme, authority, path front, query, fragment⟩

/-- A URI after `scheme://`, where the path of the web is never empty. An account of nothing at all
has to have a host after it. -/
def afterSlashes? (f : Family) (scheme : Text) (cs : Text) : Option Uri :=
  let (server, rest) := cs.span (!endsAuthority f ·)
  if server = ['@'] ∧ ¬rest.isEmpty then none
  else
    (authority? f server).map fun (authority, front) =>
      let path := fun cs =>
        if f = .other ∧ cs.isEmpty then .rooted [] else .rooted (resolve f (dropSlash f cs))
      assemble f scheme (some authority) path (front ++ rest)

/-- A URI of a file, from its host, from the segments of its path and from the text of them on. -/
def ofHost (scheme host : Text) (segments : Text → List Text) (cs : Text) : Uri :=
  assemble .file scheme (some ⟨[], host, none⟩) (fun front => .rooted (ofRoot (segments front))) cs

/-- A URI of a file. A drive in the place of the host belongs to the path, and a path that starts
with a drive has no host. Where there is no host between the slashes and the path, the slash of
the path counts as an empty segment before it. -/
def file? (scheme : Text) (cs : Text) : Option Uri :=
  let segments := fun cs => resolve .file (dropSlash .file cs)
  match cs with
  | a :: b :: rest =>
    if Family.file.isSlash a ∧ Family.file.isSlash b then
      let (hostText, after) := rest.span (!endsAuthority .file ·)
      if hostText.isEmpty then some (ofHost scheme [] (resolve .file) after)
      else if isDrive hostText then some (ofHost scheme [] segments rest)
      else
        (Host.ofName? hostText).map fun host =>
          if host = "localhost".toList then ofHost scheme [] (resolve .file) after
          else if (segments (after.takeWhile isPathChar)).head?.any isDrive then
            ofHost scheme [] segments after
          else ofHost scheme host segments after
    else some (ofHost scheme [] segments cs)
  | _ => some (ofHost scheme [] segments cs)

def parse? (text : Text) : Option Uri := do
  let (scheme, rest) ← scheme? (trimmed text)
  match Family.ofScheme scheme with
  | .file => file? scheme rest
  | .web port =>
    let f := Family.web port
    afterSlashes? f scheme (rest.dropWhile f.isSlash)
  | .other =>
    match rest with
    | '/' :: '/' :: rest => afterSlashes? .other scheme rest
    | '/' :: rest =>
      some (assemble .other scheme none (fun front => .rooted (resolve .other front)) rest)
    | rest =>
      some (assemble .other scheme none
        (fun front => .rootless (Percent.escape Percent.isControl front)) rest)

end Uri

end CppMend
