import CppMend.Fix.Context
import CppMend.Message.Abilities
import CppMend.Message.Action

/-!
# Parameters of messages

What the messages of an editor say, read from their values. Reading fails if a field that must be
there is missing, or if one that is known is not well formed.

* `StartParams`       what an editor says of itself and of its workspace;
* `OpenedText`        a document that the editor opens;
* `ChangedText`       changes of an open document;
* `ActionRequest`     where fixes are wanted, and by whom.
-/

namespace CppMend

def Position.ofValue? (v : Value) : Option Position := do
  let v := v.named ["line", "character"]
  return ⟨← v.required "line" (Value.asNat? 32), ← v.required "character" (Value.asNat? 32)⟩

def PositionRange.ofValue? (v : Value) : Option PositionRange := do
  let v := v.named ["start", "end"]
  return ⟨← v.required "start" Position.ofValue?, ← v.required "end" Position.ofValue?⟩

/-! ## starting -/

structure StartParams where
  /-- the settings of this program, as the editor keeps them -/
  options : Option Value
  /-- the directories of the workspace -/
  roots : List Uri
  /-- the editor asks for the edit of an action when the user chooses it -/
  resolvesEdits : Bool
  deriving Repr, Inhabited

namespace StartParams

def root? (v : Value) : Option Uri := do
  let v := v.named ["uri", "name"]
  let _ ← v.required "name" Value.asText?
  v.required "uri" Uri.ofValue?

/-- what the editor can be asked for when an action is chosen -/
def resolvable (abilities : Value) : List Value :=
  match (((abilities.field? "textDocument").bind (·.field? "codeAction")).bind
    (·.field? "resolveSupport")).bind (·.field? "properties") with
  | some (.list names) => names
  | _ => []

def isEdit : Value → Bool
  | .text cs => cs = "edit".toList
  | _ => false

/-- what the fields are called, in the order in which a list of them has them -/
def keys : List String :=
  ["processId", "rootPath", "rootUri", "initializationOptions", "capabilities", "trace",
    "workspaceFolders", "clientInfo", "locale"]

/-- Folders of the workspace, even if there are none of them, take the place of its root. -/
def ofValue? (v : Value) : Option StartParams := do
  let v := v.named keys
  let _ ← v.optional "processId" (Value.asNat? 32)
  let _ ← v.optional "rootPath" Value.asText?
  let root ← v.optional "rootUri" Uri.ofValue?
  let options ← v.optional "initializationOptions" some
  let abilities ← v.required "capabilities" Shape.abilities.read
  let _ ← v.optional "trace" (Shape.oneOf ["off", "messages", "verbose"]).read
  let folders ← v.optional "workspaceFolders" (Value.asList? root?)
  let _ ← v.optional "clientInfo" Shape.clientInfo.read
  let _ ← v.optional "locale" Value.asText?
  return ⟨options, folders.getD root.toList, (resolvable abilities).any isEdit⟩

end StartParams

/-! ## documents -/

structure OpenedText where
  uri : Uri
  text : Text
  version : Int
  deriving DecidableEq, Repr, Inhabited

structure ChangedText where
  uri : Uri
  changes : List TextChange
  version : Int
  deriving DecidableEq, Repr, Inhabited

/-- the only part of some parameters -/
def Value.only? {α : Type} (v : Value) (key : String) (read : Value → Option α) : Option α :=
  (v.named [key]).required key read

def OpenedText.ofValue? (v : Value) : Option OpenedText :=
  v.only? "textDocument" fun v => do
    let v := v.named ["uri", "languageId", "version", "text"]
    let _ ← v.required "languageId" Value.asText?
    return ⟨← v.required "uri" Uri.ofValue?, ← v.required "text" Value.asText?,
      ← v.required "version" Value.asInt32?⟩

def TextChange.ofValue? (v : Value) : Option TextChange := do
  let v := v.named ["range", "rangeLength", "text"]
  let _ ← v.optional "rangeLength" (Value.asNat? 32)
  return ⟨← v.optional "range" PositionRange.ofValue?, ← v.required "text" Value.asText?⟩

def ChangedText.ofValue? (v : Value) : Option ChangedText := do
  let v := v.named ["textDocument", "contentChanges"]
  let changes ← v.required "contentChanges" (Value.asList? TextChange.ofValue?)
  let (uri, version) ← v.required "textDocument" fun v => do
    let v := v.named ["uri", "version"]
    return (← v.required "uri" Uri.ofValue?, ← v.required "version" Value.asInt32?)
  return ⟨uri, changes, version⟩

def documentUri? (v : Value) : Option Uri := v.only? "uri" Uri.ofValue?

/-- the document that an editor closes -/
def closedUri? (v : Value) : Option Uri := v.only? "textDocument" documentUri?

/-! ## fixes -/

structure ActionRequest where
  uri : Uri
  range : PositionRange
  /-- the kinds of actions that are wanted; all of them, if it is left out -/
  only : Option (List Text)
  reason : Reason
  deriving DecidableEq, Repr, Inhabited

namespace ActionRequest

/-- An editor that asks on its own says so by a two. -/
def reasonOf (trigger : Option Int) : Reason := if trigger = some 2 then .automatic else .explicit

def ofValue? (v : Value) : Option ActionRequest := do
  let uri ← v.required "textDocument" documentUri?
  let range ← v.required "range" PositionRange.ofValue?
  let (only, trigger) ← v.required "context" fun v => do
    let v := v.named ["diagnostics", "only", "triggerKind"]
    let _ ← v.required "diagnostics" (Shape.list Shape.diagnostic).read
    return (← v.optional "only" (Value.asList? Value.asText?),
      ← v.optional "triggerKind" Value.asInt32?)
  let _ ← v.optional "workDoneToken" Shape.numberOrText.read
  let _ ← v.optional "partialResultToken" Shape.numberOrText.read
  return ⟨uri, range, only, reasonOf trigger⟩

/-- Fixes are wanted. A kind stands for itself and for the kinds below it, which its name starts;
the empty kind stands for all. -/
def wantsFixes (r : ActionRequest) : Bool :=
  match r.only with
  | none => true
  | some kinds =>
    let fix := CodeAction.quickFix.toList
    kinds.any fun kind => kind = [] || kind = fix || (kind ++ ['.']).isPrefixOf fix

end ActionRequest

end CppMend
