import CppMend.Settings.Basic
import CppMend.Value

/-!
# Changes of settings

An editor sends settings as an object that may leave out any of them, either as it is or under
the name of this program. A `Patch` is such an object, read. One field that is not well formed
makes the whole object void; fields that are not known do not matter.

* `Patch.ofValue?`     reads a patch;
* `Settings.merged`    the settings after a payload: what it says at the top, then what it says
  under the name of this program.
-/

namespace CppMend

structure Patch where
  fixesEnabled : Option Bool
  automatic : Option Bool
  disabled : Option (List Text)
  indexingEnabled : Option Bool
  maxSizeKb : Option Nat
  excluded : Option (List Text)
  level : Option LogLevel
  deriving DecidableEq, Repr, Inhabited

namespace Patch

/-- the name of a level, alone or as the key of a null -/
def level? : Value → Option LogLevel
  | .text cs => LogLevel.ofName? (String.ofList cs)
  | .object [(name, .null)] => LogLevel.ofName? name
  | _ => none

/-- a part of a patch; one that is left out says nothing -/
def part (v : Value) (key : String) : Option Value :=
  match v.field? key with
  | some part => if part.isObject then some part else none
  | none => some (.object [])

def texts? : Value → Option (List Text) := Value.asList? Value.asText?

def ofValue? (v : Value) : Option Patch :=
  if v.isObject then do
    let fixes ← part v "quickFix"
    let indexing ← part v "indexing"
    let logging ← part v "logging"
    return {
      fixesEnabled := ← fixes.optional "enabled" Value.asBool?
      automatic := ← fixes.optional "automatic" Value.asBool?
      disabled := ← fixes.optional "disabled" texts?
      indexingEnabled := ← indexing.optional "enabled" Value.asBool?
      maxSizeKb := ← indexing.optional "maxFileSizeKb" (Value.asNat? 64)
      excluded := ← indexing.optional "excludePaths" texts?
      level := ← logging.optional "level" level? }
  else none

/-- the settings with all that a patch says -/
def apply (p : Patch) (s : Settings) : Settings where
  fixes := {
    enabled := p.fixesEnabled.getD s.fixes.enabled
    automatic := p.automatic.getD s.fixes.automatic
    disabled := p.disabled.getD s.fixes.disabled }
  indexing := {
    enabled := p.indexingEnabled.getD s.indexing.enabled
    maxSizeKb := p.maxSizeKb.getD s.indexing.maxSizeKb
    excluded := p.excluded.getD s.indexing.excluded }
  level := p.level.getD s.level

end Patch

namespace Settings

/-- the name under which an editor may keep the settings of this program -/
def sectionName : String := "cpp-assist"

/-- the objects of a payload that may be patches, the later ones stronger -/
def candidates (payload : Value) : List Value :=
  payload :: (payload.get? sectionName).toList

def patched (s : Settings) (candidate : Value) : Settings :=
  match Patch.ofValue? candidate with
  | some p => p.apply s
  | none => s

def merged (s : Settings) (payload : Value) : Settings :=
  ((candidates payload).foldl patched s).normalized

/-- the settings of a session that starts with a payload -/
def initial (payload : Option Value) : Settings :=
  match payload with
  | some v => standard.merged v
  | none => standard

end Settings

end CppMend
