import CppMend.Session.Basic

/-!
# Fixes in a session

An editor asks for the fixes at a range of an open document. Their actions hold the edits of the
fixes, or, in a lazy session, only name them; then the session keeps the fixes until the document
changes, and the editor asks for the edit of the action that the user chooses.

* `Session.proposal?`     the fixes at a range;
* `Session.actions`       the actions for them, and the session that keeps them;
* `Session.resolved`      an action with the edit of the fix that it names.
-/

namespace CppMend

namespace Session

/-- a document and the state of its editor at a range -/
def editor? (s : Session) (r : ActionRequest) : Option (Document × Editor) := do
  let d ← s.documents.find? r.uri
  let cursor := Word.clamped (← d.offsetOf? r.range.start)
  let selection := (d.spanOf? r.range).filter fun span => !span.isEmpty
  return (d, ⟨r.uri, d.version, cursor, selection, s.parses.find? r.uri⟩)

/-- the fixes at a range of an open source file, if there are any and they are wanted -/
def proposal? (s : Session) (r : ActionRequest) : Option (Document × Proposal) :=
  if s.settings.fixes.enabled ∧ r.wantsFixes ∧ r.uri.isSource then
    match s.editor? r with
    | some (d, editor) =>
      let p := s.assistant.propose editor r.reason s.settings.fixOptions
      if p.isEmpty then none else some (d, p)
    | none => none
  else none

/-- the session that keeps the fixes of an answer -/
def offering (s : Session) (p : Proposal) : Session :=
  { s with offers := s.offers.insert p.uri ⟨s.nextRequest, p.version, p.fixes⟩ }

/-- how many numbers there are for answers; after the last one they start again -/
def requestCount : Nat := 1 <<< 64

/-- The answer to a request. A fix whose edit does not fit has no action, unless the edit is still
to be asked for. -/
def actions (s : Session) (r : ActionRequest) : Session × Option (List CodeAction) :=
  match s.proposal? r with
  | none => (s, none)
  | some (d, p) =>
    let after := if s.lazy then s.offering p else s
    let actions :=
      if s.lazy then p.fixes.mapIdx fun i f => .naming f ⟨d.uri, s.nextRequest, i⟩
      else p.fixes.filterMap (CodeAction.ofFix? d)
    ({ after with nextRequest := (s.nextRequest + 1) % requestCount }, some actions)

/-- the fix with a name and its document, if it was offered for the document as it is now -/
def offered? (s : Session) (name : FixName) : Option (Document × Fix) := do
  let d ← s.documents.find? name.uri
  let offer ← s.offers.find? name.uri
  let f ← offer.fixes[name.index]?
  if offer.request = name.request ∧ offer.version = d.version then some (d, f) else none

/-- An action with the edit of the fix that it names. An action that names none stays as it is. -/
def resolved (s : Session) (a : CodeAction) : CodeAction :=
  match (a.data.bind FixName.ofValue?).bind s.offered? with
  | some (d, f) => { a with edit := d.editOf? f }
  | none => a

end Session

end CppMend
