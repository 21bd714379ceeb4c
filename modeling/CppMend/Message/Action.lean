import CppMend.Document.Basic
import CppMend.Fix.Registry
import CppMend.Message.WorkspaceEdit

/-!
# Code actions

A `CodeAction` is what an editor shows for a fix. It holds the edit of the fix, or else names the
fix, so that the editor can ask for the edit when the user chooses it.

* `CodeAction.ofFix?`      the action of a fix with its edit, if the edit fits the document;
* `CodeAction.naming`      the action of a fix without its edit;
* `FixName`                which fix of which answer an action stands for.
-/

namespace CppMend

/-! ## edits -/

def Position.toValue (p : Position) : Value :=
  .object [("line", .ofNat p.line), ("character", .ofNat p.character)]

def PositionRange.toValue (r : PositionRange) : Value :=
  .object [("start", r.start.toValue), ("end", r.stop.toValue)]

def TextEdit.toValue (e : TextEdit) : Value :=
  .object [("range", e.range.toValue), ("newText", .text e.text)]

/-- some edits of one document, as an edit of a workspace -/
def Uri.workspaceEdit (u : Uri) (edits : List TextEdit) : Value :=
  .object [("changes", .object [(u.spelling, .list (edits.map TextEdit.toValue))])]

/-- the edit of a fix, if it fits the document -/
def Document.editOf? (d : Document) (f : Fix) : Option Value :=
  match d.textEdits f.changes with
  | .ok edits => some (d.uri.workspaceEdit edits)
  | .error _ => none

/-! ## names of fixes -/

/-- The fix with a number in the answer to a request about a document. -/
structure FixName where
  uri : Uri
  request : Nat
  index : Nat
  deriving DecidableEq, Repr, Inhabited

namespace FixName

def keys : List String := ["uri", "requestId", "index"]

def toValue (n : FixName) : Value :=
  .object [("uri", n.uri.toValue), ("requestId", .ofNat n.request), ("index", .ofNat n.index)]

def ofValue? (v : Value) : Option FixName := do
  let v := v.named keys
  return ⟨← v.required "uri" Uri.ofValue?, ← v.required "requestId" (Value.asNat? 64),
    ← v.required "index" (Value.asNat? 64)⟩

end FixName

/-! ## actions -/

structure CodeAction where
  title : Text
  kind : Option Text
  diagnostics : Option Value
  edit : Option Value
  command : Option Value
  isPreferred : Option Bool
  disabled : Option Value
  /-- what the editor sends back when the action is chosen -/
  data : Option Value
  deriving Repr, Inhabited

namespace CodeAction

/-- the kind of all actions that are offered here -/
def quickFix : String := "quickfix"

/-- an action with nothing but a title -/
def titled (title : Text) : CodeAction :=
  ⟨title, some quickFix.toList, none, none, none, none, none, none⟩

def ofFix? (d : Document) (f : Fix) : Option CodeAction :=
  (d.editOf? f).map fun edit => { titled f.title with edit := some edit }

def naming (f : Fix) (name : FixName) : CodeAction :=
  { titled f.title with data := some name.toValue }

/-! ## as values -/

def keys : List String :=
  ["title", "kind", "diagnostics", "edit", "command", "isPreferred", "disabled", "data"]

def toValue (a : CodeAction) : Value :=
  .present [
    ("title", some (.text a.title)), ("kind", a.kind.map .text), ("diagnostics", a.diagnostics),
    ("edit", a.edit), ("command", a.command), ("isPreferred", a.isPreferred.map .bool),
    ("disabled", a.disabled), ("data", a.data)]

def ofValue? (v : Value) : Option CodeAction := do
  let v := v.named keys
  return {
    title := ← v.required "title" Value.asText?
    kind := ← v.optional "kind" Value.asText?
    diagnostics := ← v.optional "diagnostics" (Shape.list Shape.diagnostic).read
    edit := ← v.optional "edit" Shape.workspaceEdit.read
    command := ← v.optional "command" Shape.command.read
    isPreferred := ← v.optional "isPreferred" Value.asBool?
    disabled := ← v.optional "disabled" Shape.disabled.read
    data := ← v.optional "data" some }

end CodeAction

end CppMend
