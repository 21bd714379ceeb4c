import CppMend.Files.Name
import CppMend.Fix.Registry
import CppMend.Settings.Basic

/-!
# Assistance

Answers to requests for fixes. A `Proposal` is made for one state of an editor; it is empty if the
request is not wanted or there is no parse of the current text.

* `supports`            whether fixes are offered for a document at all;
* `Assistant.propose`   the answer to one request;
* `Processor`           answers one request and no second one.
-/

namespace CppMend

structure Proposal where
  uri : Uri
  version : Int
  fixes : List Fix
  warnings : List Warning
  deriving Inhabited

namespace Proposal

/-- the name under which fixes are offered -/
def provider : String := "cpp.quickfix"

def isEmpty (p : Proposal) : Bool := p.fixes.isEmpty

end Proposal

/-- Fixes are offered for source files, and for other documents whose path looks like one. -/
def Uri.isSource (u : Uri) : Bool :=
  match u.filePath? with
  | some bytes => PathName.isSource bytes
  | none => PathName.isSource (Bytes.ofText u.pathText)

/-- The sources of fixes and the symbols that they may look up. -/
structure Assistant where
  registry : Registry
  symbols : Snapshot
  deriving Inhabited

namespace Assistant

/-- requests are answered at once -/
def isAsynchronous : Bool := false

def propose (a : Assistant) (e : Editor) (reason : Reason) (options : FixOptions) : Proposal :=
  if reason = .automatic ∧ !options.automatic then ⟨e.uri, e.version, [], []⟩
  else
    match e.context? a.symbols reason with
    | none => ⟨e.uri, e.version, [], []⟩
    | some c =>
      let (fixes, warnings) := a.registry.collect c fun id => !options.disabled.contains id
      ⟨e.uri, e.version, fixes, warnings⟩

end Assistant

/-! ## single requests -/

inductive Phase where
  | idle
  | completed
  deriving DecidableEq, Repr, Inhabited

namespace Phase

def name : Phase → String
  | idle => "Idle"
  | completed => "Completed"

end Phase

/-- Answers one request. -/
structure Processor where
  assistant : Assistant
  phase : Phase
  deriving Inhabited

namespace Processor

/-- the answer to the first request; there is none to a later one -/
def perform (p : Processor) (e : Editor) (reason : Reason) (options : FixOptions) :
    Option Proposal × Processor :=
  match p.phase with
  | .completed => (none, p)
  | .idle => (some (p.assistant.propose e reason options), { p with phase := .completed })

end Processor

end CppMend
