import CppMend.Grammar.Declarations

/-!
# Statements

The rules of what stands in function bodies. A part that is missing before a `}` or the end of
the text is left out, and the statement is kept without it.
-/

namespace CppMend

namespace Rule

open Lookahead

/-- the statement that another one governs -/
def subStatement : Rule := .branch (endOr [.rBrace]) .nothing (.goal .statement)

/-- a condition in parentheses, which may declare a name -/
def condition : Rule :=
  onlyIf (next .lParen) (.node .condition (inOrder [
    .token,
    .branch startsDeclaration
      (.node .declStmt (inOrder [typeRef, declaratorName, declaratorSuffix .body]))
      expression,
    untilTrue (endOr [.rParen, .lBrace, .semicolon])
      (.branch (next .lParen) (group .paren) .token),
    eat .rParen]))

def ifStmt : Rule :=
  .node .ifStmt (inOrder [
    .token,
    eat .kwConstexpr,
    condition,
    subStatement,
    onlyIf (next .kwElse) (.node .elseBranch (inOrder [.token, subStatement]))])

/-- a statement with a word, a condition and a body -/
def conditioned (kind : NodeKind) : Rule :=
  .node kind (inOrder [.token, condition, subStatement])

def doStmt : Rule :=
  .node .doStmt (inOrder [
    .token,
    subStatement,
    onlyIf (next .kwWhile) (inOrder [.token, condition]),
    eat .semicolon])

/-- an expression and `;`; a token that starts no expression stands in its place -/
def exprStmt : Rule :=
  .node .exprStmt (inOrder [
    .branch (next .semicolon) .nothing (.branch startsExpression expression .token),
    eat .semicolon])

/-- the parts of a `for` in parentheses, or the declaration and range of one over a range -/
def forHead : Rule :=
  inOrder [
    .token,
    .branch startsDeclaration (declaration .body) exprStmt,
    .branch (nextIn [.semicolon, .rParen]) .nothing expression,
    eat .semicolon,
    .branch (next .rParen) .nothing expression,
    skipTo [.rParen, .lBrace],
    eat .rParen]

def forStmt : Rule :=
  .node .forStmt (inOrder [.token, onlyIf (next .lParen) forHead, subStatement])

def caseStmt : Rule :=
  .node .caseStmt (inOrder [
    .branch (next .kwCase) (inOrder [.token, expression]) .token,
    eat .colon])

def returnStmt : Rule :=
  .node .returnStmt (inOrder [
    .token, .branch (next .semicolon) .nothing expression, toSemicolon])

def statement : Rule :=
  choose [
    (next .lBrace, block),
    (startsDirective, directive),
    (next .kwReturn, returnStmt),
    (next .kwIf, ifStmt),
    (next .kwWhile, conditioned .whileStmt),
    (next .kwDo, doStmt),
    (next .kwFor, forStmt),
    (next .kwSwitch, conditioned .switchStmt),
    (nextIn [.kwCase, .kwDefault], caseStmt),
    (next .kwBreak, .node .breakStmt toSemicolon),
    (next .kwContinue, .node .continueStmt toSemicolon),
    (next .kwGoto, .node .gotoStmt toSemicolon),
    (next .kwUsing, usingDef),
    (next .kwTypedef, typedefDef),
    (startsRecord, recordDef true),
    (startsEnum, enumDef true),
    (startsDeclaration, declaration .body)]
    exprStmt

end Rule

/-! ## the grammar -/

/-- the rule of each goal -/
def grammar : Goal → Rule
  | .item => Rule.item
  | .statement => Rule.statement
  | .expression power => Rule.expressionOf power
  | .operation power => Rule.operation power
  | .alternatives => Rule.alternatives
  | .arguments => Rule.argList
  | .subscript => Rule.subscript
  | .member => Rule.member
  | .step => .token

/-- the budget that is enough for `n` cues -/
def budgetFor (n : Nat) : Nat := 2 * n + 2

/-- The outlines of a whole text, of which the last one takes the blanks at its end. -/
def outline (cs : List Cue) : List Outline :=
  let budget := budgetFor cs.length
  ((Rule.seq (Rule.items []) .blank).perform budget (reach grammar budget) cs).built

end CppMend
