/-!
# Token kinds

`TokenKind` names what a stretch of C or C++ source can be: blanks and comments, names and
literals, the fixed marks, the reserved words, and `error` for text that fits no class.

* `TokenKind.spelling?`  the one spelling of a mark or a reserved word;
* `TokenKind.isTrivia`, `isKeyword`, `isBuiltinType`, `isDeclSpecifier`, `isLiteral`  the
  families that the grammar and the symbol scan ask about.
-/

namespace CppMend

inductive TokenKind where
  | error | whitespace | comment | ident | integer | float | string | char
  | hash | lParen | rParen | lBrace | rBrace | lBracket | rBracket | semicolon | colon
  | doubleColon | comma | dot | arrow | ellipsis | question | plus | minus | star | slash
  | percent | caret | amp | pipe | tilde | exclaim | equal | less | greater | plusPlus
  | minusMinus | plusEqual | minusEqual | starEqual | slashEqual | percentEqual | caretEqual
  | ampEqual | pipeEqual | equalEqual | notEqual | lessEqual | greaterEqual | andAnd | orOr
  | leftShift | rightShift | leftShiftEqual | rightShiftEqual
  | kwAuto | kwBool | kwBreak | kwCase | kwChar | kwClass | kwConst | kwConstexpr | kwContinue
  | kwDefault | kwDelete | kwDo | kwDouble | kwElse | kwEnum | kwExplicit | kwExtern | kwFalse
  | kwFloat | kwFor | kwFriend | kwGoto | kwIf | kwInline | kwInt | kwLong | kwMutable
  | kwNamespace | kwNew | kwNoexcept | kwNullptr | kwOperator | kwPrivate | kwProtected
  | kwPublic | kwRegister | kwReturn | kwShort | kwSigned | kwSizeof | kwStatic | kwStruct
  | kwSwitch | kwTemplate | kwThis | kwThreadLocal | kwTrue | kwTypedef | kwTypename | kwUnion
  | kwUnsigned | kwUsing | kwVirtual | kwVoid | kwVolatile | kwWhile
  deriving DecidableEq, Repr, Inhabited

namespace TokenKind

/-! ## names and spellings -/

/-- all kinds, in the order of their numbers -/
def all : List TokenKind :=
  [.error, .whitespace, .comment, .ident, .integer, .float, .string, .char, .hash, .lParen,
   .rParen, .lBrace, .rBrace, .lBracket, .rBracket, .semicolon, .colon, .doubleColon, .comma,
   .dot, .arrow, .ellipsis, .question, .plus, .minus, .star, .slash, .percent, .caret, .amp,
   .pipe, .tilde, .exclaim, .equal, .less, .greater, .plusPlus, .minusMinus, .plusEqual,
   .minusEqual, .starEqual, .slashEqual, .percentEqual, .caretEqual, .ampEqual, .pipeEqual,
   .equalEqual, .notEqual, .lessEqual, .greaterEqual, .andAnd, .orOr, .leftShift, .rightShift,
   .leftShiftEqual, .rightShiftEqual, .kwAuto, .kwBool, .kwBreak, .kwCase, .kwChar, .kwClass,
   .kwConst, .kwConstexpr, .kwContinue, .kwDefault, .kwDelete, .kwDo, .kwDouble, .kwElse,
   .kwEnum, .kwExplicit, .kwExtern, .kwFalse, .kwFloat, .kwFor, .kwFriend, .kwGoto, .kwIf,
   .kwInline, .kwInt, .kwLong, .kwMutable, .kwNamespace, .kwNew, .kwNoexcept, .kwNullptr,
   .kwOperator, .kwPrivate, .kwProtected, .kwPublic, .kwRegister, .kwReturn, .kwShort, .kwSigned,
   .kwSizeof, .kwStatic, .kwStruct, .kwSwitch, .kwTemplate, .kwThis, .kwThreadLocal, .kwTrue,
   .kwTypedef, .kwTypename, .kwUnion, .kwUnsigned, .kwUsing, .kwVirtual, .kwVoid, .kwVolatile,
   .kwWhile]

/-- the name a kind is reported by -/
def name : TokenKind → String
  | .error => "Error"
  | .whitespace => "Whitespace"
  | .comment => "Comment"
  | .ident => "Ident"
  | .integer => "Integer"
  | .float => "Float"
  | .string => "String"
  | .char => "Char"
  | .hash => "Hash"
  | .lParen => "LParen"
  | .rParen => "RParen"
  | .lBrace => "LBrace"
  | .rBrace => "RBrace"
  | .lBracket => "LBracket"
  | .rBracket => "RBracket"
  | .semicolon => "Semicolon"
  | .colon => "Colon"
  | .doubleColon => "DoubleColon"
  | .comma => "Comma"
  | .dot => "Dot"
  | .arrow => "Arrow"
  | .ellipsis => "Ellipsis"
  | .question => "Question"
  | .plus => "Plus"
  | .minus => "Minus"
  | .star => "Star"
  | .slash => "Slash"
  | .percent => "Percent"
  | .caret => "Caret"
  | .amp => "Amp"
  | .pipe => "Pipe"
  | .tilde => "Tilde"
  | .exclaim => "Exclaim"
  | .equal => "Equal"
  | .less => "Less"
  | .greater => "Greater"
  | .plusPlus => "PlusPlus"
  | .minusMinus => "MinusMinus"
  | .plusEqual => "PlusEqual"
  | .minusEqual => "MinusEqual"
  | .starEqual => "StarEqual"
  | .slashEqual => "SlashEqual"
  | .percentEqual => "PercentEqual"
  | .caretEqual => "CaretEqual"
  | .ampEqual => "AmpEqual"
  | .pipeEqual => "PipeEqual"
  | .equalEqual => "EqualEqual"
  | .notEqual => "NotEqual"
  | .lessEqual => "LessEqual"
  | .greaterEqual => "GreaterEqual"
  | .andAnd => "AndAnd"
  | .orOr => "OrOr"
  | .leftShift => "LeftShift"
  | .rightShift => "RightShift"
  | .leftShiftEqual => "LeftShiftEqual"
  | .rightShiftEqual => "RightShiftEqual"
  | .kwAuto => "KwAuto"
  | .kwBool => "KwBool"
  | .kwBreak => "KwBreak"
  | .kwCase => "KwCase"
  | .kwChar => "KwChar"
  | .kwClass => "KwClass"
  | .kwConst => "KwConst"
  | .kwConstexpr => "KwConstexpr"
  | .kwContinue => "KwContinue"
  | .kwDefault => "KwDefault"
  | .kwDelete => "KwDelete"
  | .kwDo => "KwDo"
  | .kwDouble => "KwDouble"
  | .kwElse => "KwElse"
  | .kwEnum => "KwEnum"
  | .kwExplicit => "KwExplicit"
  | .kwExtern => "KwExtern"
  | .kwFalse => "KwFalse"
  | .kwFloat => "KwFloat"
  | .kwFor => "KwFor"
  | .kwFriend => "KwFriend"
  | .kwGoto => "KwGoto"
  | .kwIf => "KwIf"
  | .kwInline => "KwInline"
  | .kwInt => "KwInt"
  | .kwLong => "KwLong"
  | .kwMutable => "KwMutable"
  | .kwNamespace => "KwNamespace"
  | .kwNew => "KwNew"
  | .kwNoexcept => "KwNoexcept"
  | .kwNullptr => "KwNullptr"
  | .kwOperator => "KwOperator"
  | .kwPrivate => "KwPrivate"
  | .kwProtected => "KwProtected"
  | .kwPublic => "KwPublic"
  | .kwRegister => "KwRegister"
  | .kwReturn => "KwReturn"
  | .kwShort => "KwShort"
  | .kwSigned => "KwSigned"
  | .kwSizeof => "KwSizeof"
  | .kwStatic => "KwStatic"
  | .kwStruct => "KwStruct"
  | .kwSwitch => "KwSwitch"
  | .kwTemplate => "KwTemplate"
  | .kwThis => "KwThis"
  | .kwThreadLocal => "KwThreadLocal"
  | .kwTrue => "KwTrue"
  | .kwTypedef => "KwTypedef"
  | .kwTypename => "KwTypename"
  | .kwUnion => "KwUnion"
  | .kwUnsigned => "KwUnsigned"
  | .kwUsing => "KwUsing"
  | .kwVirtual => "KwVirtual"
  | .kwVoid => "KwVoid"
  | .kwVolatile => "KwVolatile"
  | .kwWhile => "KwWhile"

/-- the spelling of a mark or a reserved word; other kinds have many -/
def spelling? : TokenKind → Option String
  | .hash => some "#"
  | .lParen => some "("
  | .rParen => some ")"
  | .lBrace => some "\x7b"
  | .rBrace => some "\x7d"
  | .lBracket => some "["
  | .rBracket => some "]"
  | .semicolon => some ";"
  | .colon => some ":"
  | .doubleColon => some "::"
  | .comma => some ","
  | .dot => some "."
  | .arrow => some "->"
  | .ellipsis => some "..."
  | .question => some "?"
  | .plus => some "+"
  | .minus => some "-"
  | .star => some "*"
  | .slash => some "/"
  | .percent => some "%"
  | .caret => some "^"
  | .amp => some "&"
  | .pipe => some "|"
  | .tilde => some "~"
  | .exclaim => some "!"
  | .equal => some "="
  | .less => some "<"
  | .greater => some ">"
  | .plusPlus => some "++"
  | .minusMinus => some "--"
  | .plusEqual => some "+="
  | .minusEqual => some "-="
  | .starEqual => some "*="
  | .slashEqual => some "/="
  | .percentEqual => some "%="
  | .caretEqual => some "^="
  | .ampEqual => some "&="
  | .pipeEqual => some "|="
  | .equalEqual => some "=="
  | .notEqual => some "!="
  | .lessEqual => some "<="
  | .greaterEqual => some ">="
  | .andAnd => some "&&"
  | .orOr => some "||"
  | .leftShift => some "<<"
  | .rightShift => some ">>"
  | .leftShiftEqual => some "<<="
  | .rightShiftEqual => some ">>="
  | .kwAuto => some "auto"
  | .kwBool => some "bool"
  | .kwBreak => some "break"
  | .kwCase => some "case"
  | .kwChar => some "char"
  | .kwClass => some "class"
  | .kwConst => some "const"
  | .kwConstexpr => some "constexpr"
  | .kwContinue => some "continue"
  | .kwDefault => some "default"
  | .kwDelete => some "delete"
  | .kwDo => some "do"
  | .kwDouble => some "double"
  | .kwElse => some "else"
  | .kwEnum => some "enum"
  | .kwExplicit => some "explicit"
  | .kwExtern => some "extern"
  | .kwFalse => some "false"
  | .kwFloat => some "float"
  | .kwFor => some "for"
  | .kwFriend => some "friend"
  | .kwGoto => some "goto"
  | .kwIf => some "if"
  | .kwInline => some "inline"
  | .kwInt => some "int"
  | .kwLong => some "long"
  | .kwMutable => some "mutable"
  | .kwNamespace => some "namespace"
  | .kwNew => some "new"
  | .kwNoexcept => some "noexcept"
  | .kwNullptr => some "nullptr"
  | .kwOperator => some "operator"
  | .kwPrivate => some "private"
  | .kwProtected => some "protected"
  | .kwPublic => some "public"
  | .kwRegister => some "register"
  | .kwReturn => some "return"
  | .kwShort => some "short"
  | .kwSigned => some "signed"
  | .kwSizeof => some "sizeof"
  | .kwStatic => some "static"
  | .kwStruct => some "struct"
  | .kwSwitch => some "switch"
  | .kwTemplate => some "template"
  | .kwThis => some "this"
  | .kwThreadLocal => some "thread_local"
  | .kwTrue => some "true"
  | .kwTypedef => some "typedef"
  | .kwTypename => some "typename"
  | .kwUnion => some "union"
  | .kwUnsigned => some "unsigned"
  | .kwUsing => some "using"
  | .kwVirtual => some "virtual"
  | .kwVoid => some "void"
  | .kwVolatile => some "volatile"
  | .kwWhile => some "while"
  | _ => none

/-- the reserved words -/
def keywords : List TokenKind :=
  [.kwAuto, .kwBool, .kwBreak, .kwCase, .kwChar, .kwClass, .kwConst, .kwConstexpr, .kwContinue,
   .kwDefault, .kwDelete, .kwDo, .kwDouble, .kwElse, .kwEnum, .kwExplicit, .kwExtern, .kwFalse,
   .kwFloat, .kwFor, .kwFriend, .kwGoto, .kwIf, .kwInline, .kwInt, .kwLong, .kwMutable,
   .kwNamespace, .kwNew, .kwNoexcept, .kwNullptr, .kwOperator, .kwPrivate, .kwProtected,
   .kwPublic, .kwRegister, .kwReturn, .kwShort, .kwSigned, .kwSizeof, .kwStatic, .kwStruct,
   .kwSwitch, .kwTemplate, .kwThis, .kwThreadLocal, .kwTrue, .kwTypedef, .kwTypename, .kwUnion,
   .kwUnsigned, .kwUsing, .kwVirtual, .kwVoid, .kwVolatile, .kwWhile]

/-! ## families -/

/-- blanks and comments, which the grammar does not see -/
def isTrivia : TokenKind → Bool
  | .whitespace | .comment => true
  | _ => false

def isKeyword (k : TokenKind) : Bool := keywords.contains k

/-- the built-in type words, which may be combined (`unsigned long int`) -/
def isBuiltinType : TokenKind → Bool
  | .kwBool | .kwChar | .kwDouble | .kwFloat | .kwInt | .kwLong | .kwShort
  | .kwSigned | .kwUnsigned | .kwVoid => true
  | _ => false

/-- storage classes and the other specifiers allowed before a type -/
def isDeclSpecifier : TokenKind → Bool
  | .kwConst | .kwConstexpr | .kwExplicit | .kwExtern | .kwFriend | .kwInline
  | .kwMutable | .kwRegister | .kwStatic | .kwThreadLocal | .kwTypename | .kwVirtual
  | .kwVolatile => true
  | _ => false

def isLiteral : TokenKind → Bool
  | .integer | .float | .string | .char | .kwTrue | .kwFalse | .kwNullptr | .kwThis => true
  | _ => false

end TokenKind

end CppMend
