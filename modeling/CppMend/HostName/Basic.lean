import CppMend.HostName.Mapping
import CppMend.HostName.Direction
import CppMend.HostName.Joining
import CppMend.HostName.Punycode
import CppMend.Text.NormalForm
import CppMend.Text.Pieces

/-!
# Names of hosts

The name of a host is made of labels between dots. A reader may write a label with any characters
that names admit; a resolver knows only ASCII. So each label with other characters is checked and
written in ASCII, after `xn--`. A label that is already written so must be one that this would
write.

* `mapped?`     a name with each character replaced by the one that stands for it;
* `opened?`     the label that one in ASCII is written for;
* `isLabel`     whether the characters of a label go together;
* `closed`      a label in ASCII;
* `ofText?`     the name in ASCII that a text stands for.
-/

namespace CppMend

namespace HostName

open Punycode (isPlain)

/-- what starts a label that is written in ASCII -/
def mark : Text := "xn--".toList

/-- what no name may hold -/
def isForbidden (c : Char) : Bool :=
  c.toNat ≤ ' '.toNat || c.toNat = 0x7f
    || c ∈ ['#', '%', '/', ':', '<', '>', '?', '@', '[', '\\', ']', '^', '|']

/-- small letters, and plain forms of characters -/
def mapped? (cs : Text) : Option Text :=
  (cs.mapM fun c => if isPlain c then some [c.toLower] else substitute? c).map
    fun parts => Text.composed parts.flatten

/-! ## labels -/

/-- the longest label that is written in ASCII, and the longest form that is read -/
def longestLabel : Nat := 1000

def longestForm : Nat := 2000

def opened? (label : Text) : Option Text :=
  if mark.isPrefixOf label then do
    let form := label.drop mark.length
    if longestForm < form.length then none
    else
      let label ← Punycode.decode? form
      if label.all isPlain ∨ mapped? label ≠ some label then none else some label
  else some label

/-- its marks have a character before them, and its joiners are of use -/
def isLabel (label : Text) : Bool :=
  !label.head?.any Text.isMark && joinersFit [] label
    && (label.all isPlain || label.length ≤ longestLabel)

def closed (label : Text) : Text :=
  if label.all isPlain then label else mark ++ Punycode.encode label

/-! ## names -/

/-- if any label runs back, all have to run one way -/
def directionsFit (labels : List Text) : Bool :=
  !labels.any (·.any runsBack) || labels.all fun label => Direction.fits (label.map Direction.of)

def ofText? (cs : Text) : Option Text := do
  let name ← mapped? cs
  if name.any isForbidden then none
  else
    let labels ← (Text.pieces (· = '.') name).mapM opened?
    if labels.all isLabel ∧ directionsFit labels then
      some (Text.joined ['.'] (labels.map closed))
    else none

end HostName

end CppMend
