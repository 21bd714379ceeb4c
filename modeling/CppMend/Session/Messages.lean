import CppMend.Session.Actions
import CppMend.Session.Scanning

/-!
# Messages of a session

An editor sends requests, which are answered, and notifications, which are not. Until it has said
who it is and after it has said goodbye, requests are refused and notifications do not matter.

* `Session.answer`    a request: the session after it, and a result or an error;
* `Session.notified`  a notification: the session after it, and what the editor is told;
* `Note.toValue`      what a note says, and `Note.method` its kind.
-/

namespace CppMend

/-! ## notes -/

namespace Note

/-- how this program calls itself -/
def sender : String := "cpp-assist"

def method : Note → String
  | opened _ => "window/logMessage"
  | scanBegan _ | scanEnded .. => "$/progress"

/-- the name of the work that a scan is -/
def scanTitle : String := "Indexing symbols"

def progress (token : Nat) (value : Value) : Value :=
  .object [
    ("token", .ofString ("cppAssist/" ++ scanTitle ++ "/" ++ toString token)), ("value", value)]

/-- a text that says who sends it -/
def signed (text : String) : Value := .ofString (sender ++ ": " ++ text)

def toValue : Note → Value
  | opened name =>
    .object [("type", .ofNat 3), ("message", signed ("Opened " ++ String.ofList name))]
  | scanBegan token =>
    progress token (.object [
      ("kind", .ofString "begin"), ("title", signed scanTitle), ("cancellable", .bool false)])
  | scanEnded token files =>
    progress token (.object [
      ("kind", .ofString "end"), ("message", .ofString (toString files ++ " file(s) indexed"))])

end Note

/-! ## requests -/

/-- Why a request has no result. -/
inductive RequestError where
  | notStarted
  | notNow
  | unknownMethod
  | badParams
  deriving DecidableEq, Repr, Inhabited

namespace RequestError

def code : RequestError → Int
  | notStarted => -32002
  | notNow => -32600
  | unknownMethod => -32601
  | badParams => -32602

end RequestError

/-- what this program can do, as it tells the editor that starts a session -/
def StartParams.answer (p : StartParams) : Value :=
  .object [
    ("capabilities", .object [
      ("textDocumentSync", .ofNat 2),
      ("codeActionProvider", .object [
        ("codeActionKinds", .list [.ofString CodeAction.quickFix]),
        ("resolveProvider", .bool p.resolvesEdits)])]),
    ("serverInfo", .object [
      ("name", .ofString Note.sender), ("version", .ofString "0.1.0")])]

namespace Session

/-- the error of a request outside of the time for requests -/
def refusal (s : Session) : RequestError :=
  match s.stage with
  | .fresh => .notStarted
  | .ready | .ended => .notNow

/-- the answer to a request with parameters that were read -/
def whenReady {α : Type} (s : Session) (params : Option α)
    (answer : α → Session × Value) : Session × Except RequestError Value :=
  match s.stage, params with
  | .ready, some p =>
    let (after, v) := answer p
    (after, .ok v)
  | .ready, none => (s, .error .badParams)
  | _, _ => (s, .error s.refusal)

def start (s : Session) (params : Option Value) : Session × Except RequestError Value :=
  match s.stage, params.bind StartParams.ofValue? with
  | .fresh, some p => (s.started p, .ok p.answer)
  | .fresh, none => (s, .error .badParams)
  | _, _ => (s, .error .notNow)

/-- Ends the session, even if the request is not well formed: it has no parameters. -/
def shutdown (s : Session) (params : Option Value) : Session × Except RequestError Value :=
  match s.stage, params with
  | .ready, none => ({ s with stage := .ended, offers := .empty }, .ok .null)
  | .ready, some _ => ({ s with stage := .ended }, .error .badParams)
  | _, _ => (s, .error s.refusal)

/-- what only counts as a notification -/
def isEvent (method : String) : Bool :=
  method ∈ ["initialized", "workspace/didChangeConfiguration", "textDocument/didOpen",
    "textDocument/didChange", "textDocument/didClose"]

/-- the actions for a request; nothing, rather than no actions, where no fix is offered -/
def actionValues (s : Session) (r : ActionRequest) : Session × Value :=
  let (after, actions) := s.actions r
  (after, (actions.map fun actions => Value.list (actions.map CodeAction.toValue)).getD .null)

def answer (s : Session) (method : String) (params : Option Value) :
    Session × Except RequestError Value :=
  match method with
  | "initialize" => s.start params
  | "shutdown" => s.shutdown params
  | "textDocument/codeAction" =>
    s.whenReady (params.bind ActionRequest.ofValue?) s.actionValues
  | "codeAction/resolve" =>
    s.whenReady (params.bind CodeAction.ofValue?) fun a => (s, (s.resolved a).toValue)
  | _ => (s, .error (if isEvent method then s.refusal else .unknownMethod))

/-! ## notifications -/

/-- What an editor lets a session know. -/
inductive Event where
  | ready
  | configured (settings : Value)
  | opened (text : OpenedText)
  | changed (text : ChangedText)
  | closed (uri : Uri)
  | ended
  deriving Repr

def Event.ofValue? (method : String) (v : Value) : Option Event :=
  match method with
  | "initialized" => ((Shape.recordOf []).read v).map fun _ => .ready
  | "workspace/didChangeConfiguration" => (v.only? "settings" some).map .configured
  | "textDocument/didOpen" => (OpenedText.ofValue? v).map .opened
  | "textDocument/didChange" => (ChangedText.ofValue? v).map .changed
  | "textDocument/didClose" => (closedUri? v).map .closed
  | "shutdown" => some .ended
  | _ => none

/-- the session after an event -/
def after (files : FileTree) (s : Session) : Event → Session
  | .ready => s.scanWanted
  | .configured settings => s.configured settings
  | .opened text => s.opened text
  | .changed text => s.changed text
  | .closed uri => s.closed files uri
  | .ended => { s with stage := .ended }

/-- what the editor is told about an event -/
def notes (s : Session) : Event → List Note
  | .opened text => if s.settings.level.allowsInfo then [.opened text.uri.lastName] else []
  | _ => []

/-- A notification that is not well formed, or not known, does not matter. -/
def notified (files : FileTree) (s : Session) (method : String) (params : Option Value) :
    Session × List Note :=
  match s.stage, params.bind (Event.ofValue? method) with
  | .ready, some e => (s.after files e, s.notes e)
  | _, _ => (s, [])

end Session

end CppMend
