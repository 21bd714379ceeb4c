import CppMend.Fix.Context

/-!
# Sources of fixes

A `Fix` is a title and an edit that is made up when the fix is chosen. A `FixSource` looks at a
context and offers fixes, fails, or breaks down. A `Registry` asks its sources one after the other;
one that fails or breaks down is passed over with a warning.

* `Evaluation.isolated` what comes of asking a source, even if it breaks down;
* `Registry.register`   adds a source with a new id;
* `Registry.collect`    the fixes of all sources that are asked, in the order of the sources.
-/

namespace CppMend

/-- A title and what choosing it records. -/
structure Fix where
  title : Text
  priority : Option Int
  action : ChangeSet → ChangeSet
  deriving Inhabited

namespace Fix

/-- a fix that records some edits -/
def ofEdits (title : Text) (edits : List Edit) : Fix :=
  ⟨title, none, fun c => edits.foldl (fun c e => c.replace e.span e.text) c⟩

def changes (f : Fix) : ChangeSet := f.action .empty

def applyTo (f : Fix) (text : Text) : Except EditError Text := f.changes.apply text

end Fix

/-! ## failing -/

/-- Why a source offers nothing: it gave up, it broke down, or its edits do not fit. -/
inductive FixError where
  | failed (reason : Text)
  | broken (message : Text)
  | change (error : EditError)
  deriving DecidableEq, Repr

namespace FixError

def message : FixError → String
  | failed reason => "quick fix failed: " ++ String.ofList reason
  | broken message => "quick fix panicked: " ++ String.ofList message
  | change error => "invalid quick fix edit: " ++ error.message

/-- the error behind an error -/
def cause? : FixError → Option EditError
  | change error => some error
  | _ => none

end FixError

/-- A source was passed over. -/
structure Warning where
  id : Text
  error : FixError
  deriving DecidableEq, Repr

namespace Warning

def message (w : Warning) : String :=
  "[quickfix] factory `" ++ String.ofList w.id ++ "` skipped: " ++ w.error.message

end Warning

/-! ## sources -/

/-- What is left of a source that broke down: a message, or something that is no text. -/
inductive Breakdown where
  | message (text : Text)
  | nameless
  deriving DecidableEq, Repr

def Breakdown.text : Breakdown → Text
  | message text => text
  | nameless => "unknown panic payload".toList

/-- How the evaluation of a source ends. -/
inductive Evaluation where
  | ok (fixes : List Fix)
  | error (error : FixError)
  | brokenDown (breakdown : Breakdown)
  deriving Inhabited

/-- The fixes or the error of an evaluation. A breakdown goes no further than an error. -/
def Evaluation.isolated : Evaluation → Except FixError (List Fix)
  | ok fixes => .ok fixes
  | error e => .error e
  | brokenDown b => .error (.broken b.text)

structure FixSource where
  id : Text
  evaluate : FixContext → Evaluation
  deriving Inhabited

/-- The id of a source is taken. -/
structure DuplicateId where
  id : Text
  deriving DecidableEq, Repr

namespace DuplicateId

def message (e : DuplicateId) : String :=
  "a quick fix factory with id `" ++ String.ofList e.id ++ "` is already registered"

end DuplicateId

structure Registry where
  sources : List FixSource
  distinct : (sources.map (·.id)).Nodup

namespace Registry

def empty : Registry := ⟨[], List.nodup_nil⟩

instance : Inhabited Registry := ⟨empty⟩

def ids (r : Registry) : List Text := r.sources.map (·.id)

def size (r : Registry) : Nat := r.sources.length

def isEmpty (r : Registry) : Bool := r.sources.isEmpty

def register (r : Registry) (s : FixSource) : Except DuplicateId Registry :=
  if h : s.id ∈ r.sources.map (·.id) then .error ⟨s.id⟩
  else .ok {
    sources := r.sources ++ [s]
    distinct := by
      rw [List.map_append, List.nodup_append]
      refine ⟨r.distinct, by simp, ?_⟩
      rintro a ha b hb rfl
      simp only [List.map_cons, List.map_nil, List.mem_singleton] at hb
      exact h (hb ▸ ha) }

/-- registers sources in order, and says which of them were refused -/
def registerAll (sources : List FixSource) : Registry × List DuplicateId :=
  sources.foldl (fun (r, refused) s =>
    match r.register s with
    | .ok r => (r, refused)
    | .error e => (r, refused ++ [e])) (empty, [])

/-- what one source offers, or a warning -/
def ask (c : FixContext) (s : FixSource) : Except Warning (List Fix) :=
  match (s.evaluate c).isolated with
  | .ok fixes => .ok fixes
  | .error error => .error ⟨s.id, error⟩

/-- The fixes that the enabled sources offer, and the warnings about those that failed. Where
there is no node around the cursor nobody is asked. -/
def collect (r : Registry) (c : FixContext) (enabled : Text → Bool) : List Fix × List Warning :=
  if c.path.isEmpty then ([], [])
  else
    let answers := (r.sources.filter fun s => enabled s.id).map (ask c)
    (answers.flatMap fun
        | .ok fixes => fixes
        | .error _ => [],
      answers.filterMap fun
        | .ok _ => none
        | .error w => some w)

end Registry

end CppMend
