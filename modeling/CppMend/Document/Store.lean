import CppMend.Document.Basic
import CppMend.Parsed
import CppMend.Table

/-!
# Open documents

`Documents` holds the documents that are open, and `ParsedTexts` their parses, each with the
version of the document that it was made from.
-/

namespace CppMend

/-- the last version that a document can have -/
def lastVersion : Int := 2147483647

/-- Why a fix of an open document is not carried out. -/
inductive FixFailure where
  | noNextVersion
  | edits (cause : EditError)
  deriving DecidableEq, Repr

abbrev Documents := Table Uri Document

namespace Documents

/-- opens a document in place of the one that was open -/
def opened (s : Documents) (uri : Uri) (text : Text) (version : Int) : Documents :=
  s.insert uri ⟨uri, text, version⟩

/-- Gives a document a new text; one that is not open is opened. -/
def updated (s : Documents) (uri : Uri) (text : Text) (version : Int) : Documents :=
  match s.find? uri with
  | some d => s.insert uri (d.setContent text version)
  | none => s.opened uri text version

/-- carries out changes of an open document -/
def changed? (s : Documents) (uri : Uri) (changes : List TextChange) (version : Int) :
    Option (Document × Documents) :=
  (s.find? uri).map fun d =>
    let d := d.applyChanges changes version
    (d, s.insert uri d)

/-- Carries out a fix of an open document, which makes its next version. Nothing changes if the
document is not open, and the fix fails if there is no such version or the edits do not fit. -/
def fixed (s : Documents) (uri : Uri) (c : ChangeSet) :
    Except FixFailure (Option (Document × Documents)) :=
  match s.find? uri with
  | none => .ok none
  | some d =>
    if lastVersion ≤ d.version then .error .noNextVersion
    else
      match d.applyChangeSet c (d.version + 1) with
      | .ok d => .ok (some (d, s.insert uri d))
      | .error cause => .error (.edits cause)

def content? (s : Documents) (uri : Uri) : Option Text := (s.find? uri).map (·.text)

end Documents

/-- A parse and the version of the document that it was made from. -/
structure Versioned where
  version : Int
  parsed : Parsed
  deriving Repr, Inhabited

abbrev ParsedTexts := Table Uri Versioned

namespace ParsedTexts

def parsed (s : ParsedTexts) (uri : Uri) (version : Int) (source : Text) : Parsed × ParsedTexts :=
  let t := parse source
  (t, s.insert uri ⟨version, t⟩)

/-- the parse of exactly one version -/
def ofVersion? (s : ParsedTexts) (uri : Uri) (version : Int) : Option Parsed :=
  match s.find? uri with
  | some v => if v.version = version then some v.parsed else none
  | none => none

end ParsedTexts

end CppMend
