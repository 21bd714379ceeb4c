import CppMend.Grammar.Types

/-!
# Expressions

Operators are grouped by how tightly they bind: `infixPower?` gives an operator the powers of its
two sides, and an expression of power `p` takes only operators whose left power is at least `p`.
Blocks and parameter lists are here as well, since lambda expressions have them.
-/

namespace CppMend

namespace Rule

open Lookahead

/-! ## binding powers -/

/-- How an operator between two operands binds, and the node that it makes. -/
structure Binding where
  left : Nat
  right : Nat
  node : NodeKind
  deriving DecidableEq, Repr

/-- the power of an operand after its operator -/
def operandPower : Nat := 25

/-- the power of `?` -/
def conditionalPower : Nat := 4

def isAssignment : TokenKind → Bool
  | .equal | .plusEqual | .minusEqual | .starEqual | .slashEqual | .percentEqual | .caretEqual
  | .ampEqual | .pipeEqual | .leftShiftEqual | .rightShiftEqual => true
  | _ => false

/-- the left power of an operator between two operands, assignments apart -/
def binaryPower? : TokenKind → Option Nat
  | .orOr => some 5
  | .andAnd => some 7
  | .pipe => some 9
  | .caret => some 11
  | .amp => some 13
  | .equalEqual | .notEqual => some 15
  | .less | .greater | .lessEqual | .greaterEqual => some 17
  | .leftShift | .rightShift => some 19
  | .plus | .minus => some 21
  | .star | .slash | .percent => some 23
  | _ => none

/-- Assignments group to the right and the other operators to the left. -/
def infixPower? (k : TokenKind) : Option Binding :=
  if isAssignment k then some ⟨2, 1, .assignExpr⟩
  else (binaryPower? k).map fun p => ⟨p, p + 1, .binaryExpr⟩

/-! ## parts of expressions -/

/-- a whole expression; where none starts, the place of pending blanks -/
def expression : Rule := .goal (.expression 0)

/-- `body`, statements in braces -/
def block : Rule :=
  .node .block (inOrder [
    .token,
    untilTrue (endOr [.rBrace]) (.atLeastOne (.goal .statement)),
    eat .rBrace])

/-- an initial value in braces; elements may be designated (`.x = 1`) -/
def initList : Rule :=
  .node .initList (inOrder [
    .token,
    untilTrue (endOr [.rBrace]) (inOrder [
      onlyIf (next .dot) (inOrder [.token, eat .ident, eat .equal]),
      .branch startsExpression expression .token,
      .branch (next .comma) .token .leave]),
    skipTo [.rBrace],
    eat .rBrace])

/-- the arguments of a call; tokens that start no expression are skipped up to a `;` -/
def argList : Rule :=
  .node .argList (inOrder [
    .token,
    untilTrue (endOr [.rParen]) (choose [
      (startsExpression, inOrder [expression, .branch (next .comma) .token .leave]),
      (next .semicolon, inOrder [.blank, .leave])]
      .token),
    skipTo [.rParen, .lBrace, .semicolon],
    eat .rParen])

/-- `=` and a value -/
def assignedValue : Rule := .node .initializer (inOrder [.token, expression])

/-- one parameter: a type, a name, groups after it, a default value -/
def parameter : Rule :=
  .node .parameter (.atLeastOne (inOrder [
    onlyIf startsType (inOrder [typeRef, eat .ident]),
    untilTrue (endOr [.comma, .rParen, .lBrace, .semicolon]) (choose [
      (next .equal, assignedValue),
      (next .lParen, group .paren),
      (next .lBracket, group .square)]
      .token)]))

def parameterList : Rule :=
  .node .parameterList (inOrder [
    .token,
    untilTrue (endOr [.rParen])
      (inOrder [parameter, .branch (next .comma) .token .leave]),
    skipTo [.rParen, .lBrace, .semicolon],
    eat .rParen])

def lambda : Rule :=
  .node .lambdaExpr (inOrder [
    group .square,
    onlyIf (next .lParen) parameterList,
    skipTo [.lBrace, .semicolon, .rParen],
    onlyIf (next .lBrace) block])

/-! ## operands -/

/-- what follows a template argument list in an expression -/
def followsArguments : TokenKind → Bool
  | .lParen | .doubleColon | .lBrace => true
  | _ => false

/-- a template argument list, and then a token that tells it from a comparison -/
def startsArguments (ahead : List Cue) : Bool :=
  next .less ahead &&
    (argumentList? ahead).any fun n => nextIs followsArguments (ahead.drop n)

/-- a name, perhaps qualified and with template arguments -/
def nameRef : Rule :=
  .node .nameRef (inOrder [
    eat .doubleColon,
    whileTrue (next .ident) (inOrder [
      .token,
      onlyIf startsArguments (group .angle),
      .branch (fun s => next .doubleColon s && secondIs [TokenKind.ident, .tilde].contains s)
        (inOrder [.token, eat .tilde]) .leave])])

/-- a literal; strings side by side are one -/
def literal : Rule :=
  .node .literal
    (.branch (next .string) (whileTrue (next .string) .token) .token)

/-- the operands that no operator stands in -/
def primary : Rule :=
  choose [
    (nextIs TokenKind.isLiteral, literal),
    (nextIn [.ident, .doubleColon], nameRef),
    (nextIs TokenKind.isBuiltinType, .node .nameRef .token),
    (next .lParen, .node .parenExpr (inOrder [.token, expression, eat .rParen])),
    (next .lBrace, initList),
    (next .lBracket, lambda)]
    .nothing

/-- what may come after an operand and belongs to it -/
def operandLink? : List Cue → Option (NodeKind × Goal)
  | [] => none
  | c :: _ =>
    match c.kind with
    | .lParen => some (.callExpr, .arguments)
    | .lBracket => some (.indexExpr, .subscript)
    | .dot | .arrow => some (.memberExpr, .member)
    | .plusPlus | .minusMinus => some (.postfixExpr, .step)
    | _ => none

/-- an operand with the operators before it, or with calls, members and the like after it -/
def operand : Rule :=
  choose [
    (nextIs isPrefixOperator, .node .unaryExpr (inOrder [
      .token,
      onlyIf (next .lBracket) (group .square),
      .goal (.expression operandPower)])),
    (startsCast, .node .castExpr (inOrder [
      .token, typeRef, eat .rParen, .goal (.expression operandPower)]))]
    (.chain primary operandLink?)

/-! ## the goals -/

/-- the operator that comes next in an expression of power `power`, if it binds tightly enough -/
def operatorLink? (power : Nat) : List Cue → Option (NodeKind × Goal)
  | [] => none
  | c :: _ =>
    if c.kind = .question then
      if conditionalPower < power then none else some (.conditionalExpr, .alternatives)
    else
      match infixPower? c.kind with
      | none => none
      | some b => if b.left < power then none else some (b.node, .operation b.right)

def expressionOf (power : Nat) : Rule :=
  .branch startsExpression (.chain operand (operatorLink? power)) .blank

def operation (power : Nat) : Rule := inOrder [.token, .goal (.expression power)]

def alternatives : Rule :=
  inOrder [
    .token,
    expression,
    onlyIf (next .colon)
      (inOrder [.token, .goal (.expression (conditionalPower - 1))])]

def subscript : Rule := inOrder [.token, expression, eat .rBracket]

def member : Rule := inOrder [.token, eat .tilde, eat .ident]

end Rule

end CppMend
