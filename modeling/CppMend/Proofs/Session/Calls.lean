import CppMend.Session.Messages
import Mathlib.Data.List.Induction

/-!
# Calls of a session

What is done to a session, one call after the other and in any order. The files of the workspace
may change from one call to the next.

* `Session.called`              the session after a call;
* `Session.ran`                 a new session after some calls;
* `Session.ran_keeps`           what every one of some calls keeps, all of them keep;
* `Session.Call.target`         the document that a call is about;
* `Session.answer_called`       a request is a call;
* `Session.notified_called`     so is a notification.
-/

namespace CppMend

namespace Session

inductive Call where
  | started (p : StartParams)
  | ready
  | configured (settings : Value)
  | opened (text : OpenedText)
  | changed (text : ChangedText)
  | closed (files : FileTree) (uri : Uri)
  | asked (r : ActionRequest)
  | chosen (a : CodeAction)
  | scanned (files : FileTree) (place : Nat)
  | shutdown
  /-- the editor says goodbye in a message that is not well formed -/
  | ended

/-- the document that a call is about -/
def Call.target : Call → Option Uri
  | opened text => some text.uri
  | changed text => some text.uri
  | closed _ uri => some uri
  | asked r => some r.uri
  | _ => none

/-- the session after a call -/
def called (s : Session) : Call → Session
  | .started p => s.started p
  | .ready => s.scanWanted
  | .configured settings => s.configured settings
  | .opened text => s.opened text
  | .changed text => s.changed text
  | .closed files uri => s.closed files uri
  | .asked r => (s.actions r).1
  | .chosen _ => s
  | .scanned files place => (s.scanStep files place).1
  | .shutdown => { s with stage := .ended, offers := .empty }
  | .ended => { s with stage := .ended }

/-- a new session after some calls -/
def ran (registry : Registry) (calls : List Call) : Session := calls.foldl called (fresh registry)

section
variable (registry : Registry) (calls : List Call) (c : Call)

@[simp] theorem ran_nil : ran registry [] = fresh registry := rfl

@[simp] theorem ran_snoc : ran registry (calls ++ [c]) = (ran registry calls).called c := by
  simp [ran, List.foldl_append]

theorem ran_split (after : List Call) :
    ran registry (calls ++ c :: after) = after.foldl called ((ran registry calls).called c) := by
  simp [ran, List.foldl_append]

end

/-- What holds after some calls holds after some more, if each of these keeps it. -/
theorem ran_keeps (registry : Registry) (calls : List Call) {later : List Call}
    {P : Session → Prop} (h : P (ran registry calls)) (hstep : ∀ s, ∀ c ∈ later, P s → P (s.called c)) :
    P (ran registry (calls ++ later)) := by
  induction later using List.reverseRecOn with
  | nil => rwa [List.append_nil]
  | append_singleton later c ih =>
    rw [← List.append_assoc, ran_snoc]
    refine hstep _ c (by simp) (ih fun s b hb => hstep s b ?_)
    exact List.mem_append_left _ hb

/-! ## steps of scans -/

section
variable (files : FileTree) {s : Session} {place : Nat}

theorem scanStep_none (h : s.scans[place]? = none) : (s.scanStep files place).1 = s := by
  unfold scanStep
  rw [h]

theorem scanStep_some {scan : Scan} (h : s.scans[place]? = some scan) :
    (s.scanStep files place).1 = { (scan.step files s).1 with
      scans :=
        s.scans.take place ++ (scan.step files s).2.1.toList ++ s.scans.drop (place + 1) } := by
  unfold scanStep
  rw [h]

end

/-! ## messages -/

theorem whenReady_called {α : Type} (s : Session) (params : Option α)
    (answer : α → Session × Value) (h : ∀ p, ∃ c, (answer p).1 = s.called c) :
    ∃ c, (s.whenReady params answer).1 = s.called c := by
  unfold whenReady
  split
  · exact h _
  · exact ⟨.chosen default, rfl⟩
  · exact ⟨.chosen default, rfl⟩

/-- The answer to a request leaves a session as some call does. -/
theorem answer_called (s : Session) (method : String) (params : Option Value) :
    ∃ c, (s.answer method params).1 = s.called c := by
  unfold answer
  split
  · unfold start
    split
    · exact ⟨.started _, rfl⟩
    · exact ⟨.chosen default, rfl⟩
    · exact ⟨.chosen default, rfl⟩
  · unfold shutdown
    split
    · exact ⟨.shutdown, rfl⟩
    · exact ⟨.ended, rfl⟩
    · exact ⟨.chosen default, rfl⟩
  · exact whenReady_called s _ _ fun r => ⟨.asked r, rfl⟩
  · exact whenReady_called s _ _ fun a => ⟨.chosen a, rfl⟩
  · exact ⟨.chosen default, rfl⟩

/-- A notification leaves a session as some call does. -/
theorem notified_called (files : FileTree) (s : Session) (method : String)
    (params : Option Value) : ∃ c, (s.notified files method params).1 = s.called c := by
  unfold notified
  split
  · next e _ _ =>
    cases e with
    | ready => exact ⟨.ready, rfl⟩
    | configured settings => exact ⟨.configured settings, rfl⟩
    | opened text => exact ⟨.opened text, rfl⟩
    | changed text => exact ⟨.changed text, rfl⟩
    | closed uri => exact ⟨.closed files uri, rfl⟩
    | ended => exact ⟨.ended, rfl⟩
  · exact ⟨.chosen default, rfl⟩

end Session

end CppMend
