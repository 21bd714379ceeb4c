import CppMend.Lexical.Kind
import CppMend.Lexical.Pattern

/-!
# The token classes of C and C++

`TokenClass.all` lists every class of tokens with the pattern of its texts. Where one text is in
two classes the class listed first has it, so a reserved word is never a name.

Blanks are space, tab, line feed, carriage return and form feed. A line comment ends before the
line feed; a block comment ends at the first `*/`. Literals may carry the usual encoding marks
(`u8`, `u`, `U`, `L`) and number suffixes.
-/

namespace CppMend

/-- A kind of token and the pattern of its texts. -/
structure TokenClass where
  kind : TokenKind
  pattern : Pattern

namespace TokenClass

open Pattern

/-! ## sets of characters -/

def digits : List Char := "0123456789".toList
def hexDigits : List Char := "0123456789ABCDEFabcdef".toList
def nameHead : List Char := "abcdefghijklmnopqrstuvwxyzABCDEFGHIJKLMNOPQRSTUVWXYZ_".toList
def nameTail : List Char := nameHead ++ digits
def blanks : List Char := [' ', '\t', '\r', '\n', '\x0c']
def integerMarks : List Char := ['u', 'U', 'l', 'L']
def floatMarks : List Char := ['f', 'F', 'l', 'L']

/-! ## the patterns -/

def whitespace : Pattern := plus (oneOf blanks)

/-- from `//` to the end of the line -/
def lineComment : Pattern := .seq (.word ['/', '/']) (.star (noneOf ['\n']))

/-- from `/*` to the first `*/` -/
def blockComment : Pattern :=
  inOrder [.word ['/', '*'],
    .star (.alt (noneOf ['*']) (.seq (plus (.word ['*'])) (noneOf ['*', '/']))),
    plus (.word ['*']), .word ['/']]

def name : Pattern := .seq (oneOf nameHead) (.star (oneOf nameTail))

/-- the mark of the encoding of a character or string literal -/
def encoding : Pattern :=
  opt (.alt (.word ['u', '8']) (oneOf ['u', 'U', 'L']))

/-- one character of a literal closed by `quote`: plain, or a backslash and any character -/
def quotedChar (quote : Char) : Pattern :=
  .alt (noneOf [quote, '\\', '\n']) (.seq (.word ['\\']) (noneOf ['\n']))

def character : Pattern :=
  inOrder [encoding, .word ['\''], plus (quotedChar '\''), .word ['\'']]

def string : Pattern :=
  inOrder [encoding, .word ['"'], .star (quotedChar '"'), .word ['"']]

def hexInteger : Pattern :=
  inOrder [.word ['0'], oneOf ['x', 'X'], plus (oneOf hexDigits), .star (oneOf integerMarks)]

def decimalInteger : Pattern := .seq (plus (oneOf digits)) (.star (oneOf integerMarks))

/-- `e`, an optional sign and digits -/
def exponent : Pattern :=
  inOrder [oneOf ['e', 'E'], opt (oneOf ['+', '-']), plus (oneOf digits)]

/-- digits on the left of the point -/
def pointedFloat : Pattern :=
  inOrder [plus (oneOf digits), .word ['.'], .star (oneOf digits), opt exponent,
    opt (oneOf floatMarks)]

/-- digits on the right of the point only -/
def bareFloat : Pattern :=
  inOrder [.word ['.'], plus (oneOf digits), opt exponent, opt (oneOf floatMarks)]

/-- an exponent and no point -/
def scaledFloat : Pattern :=
  inOrder [plus (oneOf digits), exponent, opt (oneOf floatMarks)]

/-! ## the table -/

/-- the classes of one text each: marks and reserved words -/
def spelled : List TokenClass :=
  TokenKind.all.filterMap fun kind => kind.spelling?.map fun s => ⟨kind, .word s.toList⟩

/-- the classes of many texts -/
def patterned : List TokenClass :=
  [⟨.whitespace, whitespace⟩, ⟨.comment, lineComment⟩, ⟨.comment, blockComment⟩, ⟨.ident, name⟩,
   ⟨.char, character⟩, ⟨.string, string⟩, ⟨.integer, hexInteger⟩, ⟨.integer, decimalInteger⟩,
   ⟨.float, pointedFloat⟩, ⟨.float, bareFloat⟩, ⟨.float, scaledFloat⟩]

/-- every class; an earlier one has a text that two of them describe -/
def all : List TokenClass := spelled ++ patterned

end TokenClass

end CppMend
