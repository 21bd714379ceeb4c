import CppMend.Session.Basic

/-!
# Scans of a session

The scans of a session go on step by step, and the editor may say anything in between. A step of a
scan takes the settings, or finds out which files there are, or records the next one of them, or
ends the scan.

* `Scan.step`             one step of a scan;
* `Session.scanStep`      one step of one of the scans of a session;
* `Session.scansEnded`    steps of the oldest scan until no scan is left.
-/

namespace CppMend

/-- A step of a scan: the session after it, what is left of the scan, and what the editor is told. A
scan ends at once if there is nothing to scan when its turn comes. -/
def Scan.step (files : FileTree) (s : Session) : Scan → Session × Option Scan × List Note
  | waiting number roots =>
    if s.settings.indexing.enabled ∧ roots ≠ [] then
      ({ s with nextToken := s.nextToken + 1 },
        some (looking number s.nextToken roots s.settings.scanOptions), [.scanBegan s.nextToken])
    else (s, none, [])
  | looking number token roots options =>
    let places := Workspace.discover files [] roots options
    (s, some (running number token places ⟨0, 0⟩), [])
  | running number token (place :: places) summary =>
    let (index, summary) := Workspace.scanPlace files (s.index, summary) place
    ({ s with index }, some (running number token places summary), [])
  | running _ token [] summary => (s, none, [.scanEnded token summary.indexed])

namespace Session

/-- a step of the scan at a place of the queue; nothing happens if there is none -/
def scanStep (files : FileTree) (s : Session) (place : Nat) : Session × List Note :=
  match s.scans[place]? with
  | some scan =>
    let (after, rest, notes) := scan.step files s
    ({ after with scans := s.scans.take place ++ rest.toList ++ s.scans.drop (place + 1) }, notes)
  | none => (s, [])

/-! ## all of them -/

/-- how many steps the scans take until they know their files -/
def lookCount : List Scan → Nat
  | [] => 0
  | .waiting .. :: scans => lookCount scans + 2
  | .looking .. :: scans => lookCount scans + 1
  | .running .. :: scans => lookCount scans

/-- how many steps the scans that know their files still take -/
def stepCount : List Scan → Nat
  | [] => 0
  | .running _ _ places _ :: scans => places.length + 1 + stepCount scans
  | _ :: scans => stepCount scans

/-- a step of the oldest scan leaves fewer steps, first of all until it knows its files -/
theorem scanStep_smaller (files : FileTree) (s : Session) (h : s.scans ≠ []) :
    let after := (s.scanStep files 0).1.scans
    lookCount after < lookCount s.scans
      ∨ lookCount after = lookCount s.scans ∧ stepCount after < stepCount s.scans := by
  obtain ⟨scan, scans, hs⟩ := List.exists_cons_of_ne_nil h
  match scan with
  | .waiting _ roots =>
    left
    by_cases hw : s.settings.indexing.enabled ∧ roots ≠ [] <;>
      simp [scanStep, hs, Scan.step, hw, lookCount]
  | .looking .. => left; simp [scanStep, hs, Scan.step, lookCount]
  | .running _ _ (_ :: _) _ => right; simp [scanStep, hs, Scan.step, lookCount, stepCount]
  | .running _ _ [] _ => right; simp [scanStep, hs, Scan.step, lookCount, stepCount]

def scansEnded (files : FileTree) (s : Session) : Session × List Note :=
  if _ : s.scans = [] then (s, [])
  else
    let next := s.scanStep files 0
    let (last, notes) := scansEnded files next.1
    (last, next.2 ++ notes)
termination_by (lookCount s.scans, stepCount s.scans)
decreasing_by
  rcases scanStep_smaller files s ‹_› with hw | ⟨hw, hc⟩
  · exact Prod.Lex.left _ _ hw
  · rw [Prod.lex_def]
    exact Or.inr ⟨hw, hc⟩

end Session

end CppMend
