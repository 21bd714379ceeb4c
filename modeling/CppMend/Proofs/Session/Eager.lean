import CppMend.Proofs.Session.Calls
import CppMend.Proofs.Session.Proposals
import Mathlib.Data.List.Induction

/-!
# Eager sessions

The same calls in a session whose editor does not resolve actions. It keeps no offers and is else
the same session after every call, so that it answers each request with the edits that a lazy
session puts off.

* `Session.eager`        a session without laziness and without offers;
* `eager_called`         it takes the same calls in step;
* `eager_ran`            and so after any calls;
* `eager_actions`        its answer to a request.
-/

namespace CppMend

namespace Session

/-- the session if its editor did not resolve actions -/
def eager (s : Session) : Session := { s with lazy := false, offers := .empty }

/-- the call if the editor does not resolve actions -/
def Call.eager : Call → Call
  | started p => started { p with resolvesEdits := false }
  | c => c

theorem eager_configured (s : Session) (payload : Value) :
    (s.configured payload).eager = s.eager.configured payload := by
  have hsettings : s.eager.settings = s.settings := rfl
  unfold configured
  dsimp only
  rw [hsettings]
  split
  · rfl
  · rfl

theorem eager_changed (s : Session) (c : ChangedText) :
    (s.changed c).eager = s.eager.changed c := by
  unfold changed
  cases h : s.documents.changed? c.uri c.changes c.version with
  | none =>
    have h' : s.eager.documents.changed? c.uri c.changes c.version = none := h
    rw [h']
  | some answer =>
    have h' : s.eager.documents.changed? c.uri c.changes c.version = some answer := h
    rw [h']
    rfl

theorem eager_step (files : FileTree) (s : Session) (scan : Scan) :
    scan.step files s.eager
      = ((scan.step files s).1.eager, (scan.step files s).2.1, (scan.step files s).2.2) := by
  cases scan with
  | waiting number roots =>
    have hsettings : s.eager.settings = s.settings := rfl
    rw [Scan.step, Scan.step, hsettings]
    split
    · rfl
    · rfl
  | looking number token roots options => rfl
  | running number token places summary =>
    cases places with
    | nil => rfl
    | cons place places => rfl

theorem eager_scanStep (files : FileTree) (s : Session) (place : Nat) :
    (s.scanStep files place).1.eager = (s.eager.scanStep files place).1 := by
  cases h : s.scans[place]? with
  | none =>
    have h' : s.eager.scans[place]? = none := h
    rw [scanStep_none files h, scanStep_none files h']
  | some scan =>
    have h' : s.eager.scans[place]? = some scan := h
    rw [scanStep_some files h, scanStep_some files h', eager_step]
    rfl

/-- The answer of an eager session. It does not depend on what was offered. -/
theorem eager_actions (s : Session) (r : ActionRequest) :
    s.eager.actions r = ((s.actions r).1.eager,
      (s.proposal? r).map fun (d, p) => p.fixes.filterMap (CodeAction.ofFix? d)) := by
  cases hp : s.proposal? r with
  | none =>
    rw [actions_none hp, actions_none (s := s.eager) hp]
    rfl
  | some answer =>
    obtain ⟨d, p⟩ := answer
    rw [actions_eager (s := s.eager) rfl hp]
    cases hlazy : s.lazy with
    | false =>
      rw [actions_eager hlazy hp]
      rfl
    | true =>
      rw [actions_lazy hlazy hp]
      rfl

theorem eager_called (s : Session) (c : Call) : (s.called c).eager = s.eager.called c.eager := by
  cases c with
  | started p => rfl
  | ready => rfl
  | configured settings => exact eager_configured s settings
  | opened text => rfl
  | changed text => exact eager_changed s text
  | closed files uri => rfl
  | asked r =>
    show (s.actions r).1.eager = (s.eager.actions r).1
    rw [eager_actions]
  | chosen a => rfl
  | scanned files place => exact eager_scanStep files s place
  | shutdown => rfl
  | ended => rfl

theorem eager_ran (registry : Registry) (calls : List Call) :
    (ran registry calls).eager = ran registry (calls.map Call.eager) := by
  induction calls using List.reverseRecOn with
  | nil => rfl
  | append_singleton calls c ih =>
    rw [List.map_append, List.map_singleton, ran_snoc, ran_snoc, eager_called, ih]

end Session

end CppMend
