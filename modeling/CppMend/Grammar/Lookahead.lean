import CppMend.Grammar.Cue

/-!
# Looking ahead

The tests by which the grammar chooses. They read the cues ahead and take nothing.

* `next`, `nextIn`, `endOr`             the kind of the next token;
* `Bracket.span`                        the length of a bracketed group, in any state of repair;
* `argumentList?`                       the length of a template argument list, if it is one;
* `typeEnd?`, `startsDeclaration`       whether a type and a declarator come next;
* `startsCast`, `startsRecord`, `startsEnum`, `startsConstructor`, `startsQualifiedConstructor`
  the other constructs that take more than one token to tell.
-/

namespace CppMend

namespace Lookahead

/-! ## the next tokens -/

/-- the kind of the token `n` places ahead -/
def kindAt? (n : Nat) (ahead : List Cue) : Option TokenKind := ahead[n]?.map (·.kind)

/-- the next token is of kind `k` -/
def next (k : TokenKind) : List Cue → Bool
  | [] => false
  | c :: _ => c.kind = k

/-- the next token is of one of the kinds `ks` -/
def nextIn (ks : List TokenKind) : List Cue → Bool
  | [] => false
  | c :: _ => ks.contains c.kind

/-- the text ends, or the next token is of one of the kinds `ks` -/
def endOr (ks : List TokenKind) : List Cue → Bool
  | [] => true
  | c :: _ => ks.contains c.kind

/-- the next token has the property `p` -/
def nextIs (p : TokenKind → Bool) : List Cue → Bool
  | [] => false
  | c :: _ => p c.kind

/-- the token after the next one has the property `p` -/
def secondIs (p : TokenKind → Bool) : List Cue → Bool
  | _ :: c :: _ => p c.kind
  | _ => false

/-! ## bracketed groups -/

inductive Bracket where
  | paren | square | brace | angle
  deriving DecidableEq, Repr, Inhabited

namespace Bracket

def opening : Bracket → TokenKind
  | paren => .lParen
  | square => .lBracket
  | brace => .lBrace
  | angle => .less

def closing : Bracket → TokenKind
  | paren => .rParen
  | square => .rBracket
  | brace => .rBrace
  | angle => .greater

/-- how many levels a token closes; `>>` closes two levels of `<` -/
def closes (b : Bracket) (k : TokenKind) : Nat :=
  if k = b.closing then 1 else if b = .angle ∧ k = .rightShift then 2 else 0

/-- the marks that no group but one in braces goes across -/
def stops (b : Bracket) (k : TokenKind) : Bool :=
  b ≠ .brace && [.semicolon, .rBrace, .lBrace].contains k

/-- the number of tokens up to where `depth` open levels are closed, or the group breaks off -/
def spanFrom (b : Bracket) : Nat → List Cue → Nat
  | _, [] => 0
  | depth, c :: rest =>
    if c.kind = b.opening then b.spanFrom (depth + 1) rest + 1
    else if b.closes c.kind = 0 ∧ b.stops c.kind then 0
    else if depth - b.closes c.kind = 0 then 1
    else b.spanFrom (depth - b.closes c.kind) rest + 1

/-- the number of tokens of the group that starts here -/
def span (b : Bracket) : List Cue → Nat := b.spanFrom 0

end Bracket

/-! ## template arguments and types -/

/-- the tokens that no template argument list goes across -/
def breaksArguments : TokenKind → Bool
  | .semicolon | .lBrace | .rBrace | .andAnd | .orOr | .equalEqual | .notEqual => true
  | _ => false

/-- the number of tokens up to where `depth` open lists are closed, if they are -/
def argumentsEnd? : Nat → List Cue → Option Nat
  | _, [] => none
  | depth, c :: rest =>
    if c.kind = .less then (argumentsEnd? (depth + 1) rest).map (· + 1)
    else if c.kind = .greater then
      if depth = 1 then some 1 else (argumentsEnd? (depth - 1) rest).map (· + 1)
    else if c.kind = .rightShift then
      if depth ≤ 2 then (if depth = 2 then some 1 else none)
      else (argumentsEnd? (depth - 2) rest).map (· + 1)
    else if breaksArguments c.kind then none
    else (argumentsEnd? depth rest).map (· + 1)

/-- the number of tokens of the template argument list that starts with the `<` here -/
def argumentList? : List Cue → Option Nat := argumentsEnd? 0

/-- What follows a name such as `a::b<c>::d`, if each `<` in it starts an argument list. -/
def afterName? (ahead : List Cue) : Option (List Cue) :=
  match ahead with
  | [] => none
  | c :: rest =>
    if c.kind = .ident then
      match if next .less rest then argumentList? rest else some 0 with
      | none => none
      | some n =>
        if next .doubleColon (rest.drop n) then afterName? (rest.drop (n + 1))
        else some (rest.drop n)
    else none
termination_by ahead.length
decreasing_by simp only [List.length_drop, List.length_cons]; omega

def isRecordWord : TokenKind → Bool
  | .kwStruct | .kwClass | .kwUnion => true
  | _ => false

/-- the words before the name of a record or an enumeration -/
def isTagWord (k : TokenKind) : Bool := isRecordWord k || k = .kwEnum

/-- what may stand between a type and a declarator -/
def isTypeSuffix : TokenKind → Bool
  | .star | .amp | .andAnd | .kwConst | .kwVolatile => true
  | _ => false

/-- what follows the name of a type, without specifiers and suffixes -/
def afterTypeName? : List Cue → Option (List Cue)
  | [] => none
  | c :: rest =>
    if c.kind.isBuiltinType then some ((c :: rest).dropWhile (·.kind.isBuiltinType))
    else if c.kind = .kwAuto then some rest
    else if isTagWord c.kind then some (if next .ident rest then rest.drop 1 else rest)
    else if c.kind = .doubleColon then afterName? rest
    else if c.kind = .ident then afterName? (c :: rest)
    else none

/-- what follows a type, from the declarator on -/
def typeEnd? (ahead : List Cue) : Option (List Cue) :=
  (afterTypeName? (ahead.dropWhile (·.kind.isDeclSpecifier))).map
    (·.dropWhile (isTypeSuffix ·.kind))

/-- what may follow the name in a declarator -/
def endsDeclarator : TokenKind → Bool
  | .semicolon | .equal | .comma | .lParen | .lBracket | .lBrace | .colon | .doubleColon => true
  | _ => false

/-- a declared name and what may follow it, an operator function or a destructor -/
def startsDeclarator (ahead : List Cue) : Bool :=
  (next .ident ahead && secondIs endsDeclarator ahead) || nextIn [.kwOperator, .tilde] ahead

/-- a type and a declarator -/
def startsDeclaration (ahead : List Cue) : Bool := (typeEnd? ahead).any startsDeclarator

/-- the tokens that a type may start with -/
def startsType : List Cue → Bool :=
  nextIs fun k => k.isDeclSpecifier || k.isBuiltinType || isTagWord k
    || [.kwAuto, .ident, .doubleColon].contains k

/-! ## definitions -/

/-- a record word followed by a body, or by a name and what a definition goes on with -/
def startsRecord (ahead : List Cue) : Bool :=
  match ahead with
  | c :: rest =>
    isRecordWord c.kind && (next .lBrace rest
      || (next .ident rest && secondIs [TokenKind.lBrace, .colon, .semicolon].contains rest))
  | [] => false

/-- `enum`, perhaps `class` or `struct`, perhaps a name, and what a definition goes on with -/
def startsEnum (ahead : List Cue) : Bool :=
  next .kwEnum ahead &&
    let rest := ahead.drop 1
    let rest := if nextIn [.kwClass, .kwStruct] rest then rest.drop 1 else rest
    let rest := if next .ident rest then rest.drop 1 else rest
    nextIn [.lBrace, .colon, .semicolon] rest

/-- `Foo(`, `~Foo(` or `explicit Foo(` inside a record -/
def startsConstructor (ahead : List Cue) : Bool :=
  let rest := ahead.dropWhile fun c =>
    [.kwExplicit, .kwInline, .kwVirtual, .kwConstexpr].contains c.kind
  let rest := if next .tilde rest then rest.drop 1 else rest
  next .ident rest && secondIs (· = .lParen) rest

/-- one or more of `::Foo` and `::~Foo`, and then `(` -/
def qualifiersThenParen (qualified : Bool) : List Cue → Bool
  | [] => false
  | c :: rest =>
    if c.kind = .doubleColon then
      match rest with
      | [] => false
      | d :: rest =>
        if d.kind = .ident then qualifiersThenParen true rest
        else if d.kind = .tilde then
          match rest with
          | e :: rest => e.kind = .ident && qualifiersThenParen true rest
          | [] => false
        else false
    else qualified && c.kind = .lParen

/-- `Foo::Foo(` or `Foo::~Foo(` outside a record -/
def startsQualifiedConstructor (ahead : List Cue) : Bool :=
  let rest := ahead.dropWhile fun c => [.kwInline, .kwConstexpr].contains c.kind
  next .ident rest && qualifiersThenParen false (rest.drop 1)

/-! ## expressions -/

/-- the operators before an operand -/
def isPrefixOperator : TokenKind → Bool
  | .plus | .minus | .exclaim | .tilde | .star | .amp | .plusPlus | .minusMinus
  | .kwSizeof | .kwNew | .kwDelete => true
  | _ => false

/-- the tokens that an expression may start with -/
def startsExpression : List Cue → Bool :=
  nextIs fun k => isPrefixOperator k || k.isLiteral || k.isBuiltinType
    || [.ident, .doubleColon, .lParen, .lBrace, .lBracket].contains k

/-- `(`, a type that needs no name to be known as one, and `)` before any `;` -/
def startsCast (ahead : List Cue) : Bool :=
  next .lParen ahead &&
    let rest := (ahead.drop 1).dropWhile fun c => [.kwConst, .kwVolatile].contains c.kind
    nextIs (fun k => k.isBuiltinType || [.kwStruct, .kwUnion, .kwEnum].contains k) rest
      && next .rParen (rest.dropWhile fun c => c.kind ≠ .rParen && c.kind ≠ .semicolon)

end Lookahead

end CppMend
