import CppMend.Text.Blank

/-!
# Settings

What a user can choose: whether fixes are offered and by whom, which files are indexed, and how
much is logged.
-/

namespace CppMend

inductive LogLevel where
  | error | warn | info | debug | trace
  deriving DecidableEq, Repr, Inhabited

namespace LogLevel

def all : List LogLevel := [error, warn, info, debug, trace]

def name : LogLevel → String
  | error => "error"
  | warn => "warn"
  | info => "info"
  | debug => "debug"
  | trace => "trace"

def ofName? (s : String) : Option LogLevel := all.find? (·.name = s)

def allowsInfo : LogLevel → Bool
  | error | warn => false
  | info | debug | trace => true

end LogLevel

structure FixSettings where
  enabled : Bool
  /-- answer requests that the user did not make -/
  automatic : Bool
  /-- the ids of the sources of fixes that are not asked -/
  disabled : List Text
  deriving DecidableEq, Repr, Inhabited

structure IndexSettings where
  enabled : Bool
  maxSizeKb : Nat
  excluded : List Text
  deriving DecidableEq, Repr, Inhabited

structure Settings where
  fixes : FixSettings
  indexing : IndexSettings
  level : LogLevel
  deriving DecidableEq, Repr, Inhabited

/-- Which files a scan takes: those up to a size that are not below an excluded path. -/
structure ScanOptions where
  maxBytes : Nat
  excluded : List Text
  deriving DecidableEq, Repr, Inhabited

/-- Which sources of fixes a request asks, and whether it may be automatic. -/
structure FixOptions where
  automatic : Bool
  disabled : List Text
  deriving DecidableEq, Repr, Inhabited

def FixOptions.standard : FixOptions := ⟨true, []⟩

namespace Settings

def standard : Settings := ⟨⟨true, true, []⟩, ⟨true, 512, []⟩, .info⟩

/-! ## normal form -/

def leastSizeKb : Nat := 16

def greatestSizeKb : Nat := 65536

/-- some texts, trimmed, each once and none empty -/
def tidy (texts : List Text) : List Text :=
  ((texts.map Text.trimmed).filter (· ≠ [])).eraseDups

def normalized (s : Settings) : Settings where
  fixes := { s.fixes with disabled := tidy s.fixes.disabled }
  indexing := { s.indexing with
    maxSizeKb := min (max s.indexing.maxSizeKb leastSizeKb) greatestSizeKb
    excluded := tidy s.indexing.excluded }
  level := s.level

/-! ## use -/

def fixOptions (s : Settings) : FixOptions := ⟨s.fixes.automatic, s.fixes.disabled⟩

def scanOptions (s : Settings) : ScanOptions := ⟨s.indexing.maxSizeKb * 1024, s.indexing.excluded⟩

end Settings

end CppMend
