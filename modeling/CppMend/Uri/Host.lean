import CppMend.HostName.Basic
import CppMend.Uri.Address

/-!
# Hosts

The host of a URI of the web or of a file is a name or a number address. Other schemes keep their
hosts as they are written, unless they are long addresses. A host with a character that would end
or confuse it is no host.

* `Host.ofName?`   the host of a URI of the web or of a file;
* `Host.ofText?`   the host of any other URI.
-/

namespace CppMend

namespace Host

/-- what no host may hold -/
def forbidden : List Char :=
  ['\x00', '\t', '\n', '\r', ' ', '#', '/', ':', '<', '>', '?', '@', '[', '\\', ']', '^', '|']

/-- the long address between the brackets after the first one -/
def inBrackets? (cs : Text) : Option Text :=
  if cs.getLast? = some ']' then
    (Address.long? cs.dropLast).map fun address => '[' :: address ++ [']']
  else none

def ofName? : Text → Option Text
  | '[' :: cs => inBrackets? cs
  | cs => do
    let name ← HostName.ofText? (Percent.unescape cs).text
    if name.isEmpty then none
    else if Address.endsInNumber name then Address.short? name
    else some name

def ofText? : Text → Option Text
  | '[' :: cs => inBrackets? cs
  | cs =>
    if cs.any (· ∈ forbidden) then none else some (Percent.escape Percent.isControl cs)

end Host

end CppMend
