import CppMend.Text.Bytes
import CppMend.Text.Printable

/-!
# Quoted text

A text between double quotes on one line: quotes and backslashes are escaped, the common control
characters have their letters, and what does not show on its own is written by its code point.
-/

namespace CppMend

namespace Text

/-- the digits of a number to base 16, in lower case -/
def hex (n : Nat) : String := String.ofList (Nat.toDigits 16 n)

def escapeChar (c : Char) : String :=
  match c with
  | '\x00' => "\\0"
  | '\t' => "\\t"
  | '\r' => "\\r"
  | '\n' => "\\n"
  | '"' => "\\\""
  | '\\' => "\\\\"
  | c => if isPrintable c then c.toString else "\\u\x7b" ++ hex c.toNat ++ "\x7d"

def quoted (cs : Text) : String := "\"" ++ String.join (cs.map escapeChar) ++ "\""

/-- the first boundary of a text at or after byte `n` -/
def ceilBoundary : Nat → Text → Nat
  | 0, _ => 0
  | _ + 1, [] => 0
  | n + 1, c :: cs => c.utf8Size + ceilBoundary (n + 1 - c.utf8Size) cs

/-- A quoted text of which, from 25 bytes on, only the first 21 to 24 are shown. -/
def preview (cs : Text) : String :=
  if cs.byteSize < 25 then quoted cs
  else quoted (before (ceilBoundary 21 cs) cs ++ [' ', '.', '.', '.'])

end Text

end CppMend
