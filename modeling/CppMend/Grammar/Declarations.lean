import CppMend.Grammar.Expressions

/-!
# Declarations

The rules of what stands outside of function bodies: functions and variables, records and
enumerations, namespaces, templates, linkage blocks, aliases and directives. Declarations in
blocks and in conditions share the rules of declarators.
-/

namespace CppMend

namespace Rule

open Lookahead

/-- Where a declaration stands. It decides the node of one that is not a function. -/
inductive Place where
  | file | record | body
  deriving DecidableEq, Repr, Inhabited

def Place.node : Place → NodeKind
  | file => .variableDef
  | record => .fieldDef
  | body => .declStmt

/-! ## functions -/

/-- the initial values of members and bases before a constructor's body -/
def memberInitializers : Rule :=
  .loop (inOrder [
    whileTrue (nextIn [.ident, .doubleColon]) .token,
    choose [(next .lParen, group .paren), (next .lBrace, group .brace)] .leave,
    .branch (next .comma) .token .leave])

/-- what follows a parameter list: qualifiers, initial values, and a body or a `;` -/
def functionRest : Rule :=
  .loop (choose [
    (next .lBrace, inOrder [block, .leave]),
    (next .semicolon, inOrder [.token, .leave]),
    (endOr [.rBrace], .leave),
    (next .colon, inOrder [.token, memberInitializers]),
    (next .equal, inOrder [toSemicolon, .leave]),
    (next .lParen, group .paren)]
    .token)

/-- a function that has no type before its name -/
def constructor : Rule :=
  .node .functionDef (inOrder [skipTo [.lParen], parameterList, functionRest])

/-! ## declarators -/

/-- array extents, a bit width, and an initial value after a declared name -/
def declaratorSuffix (place : Place) : Rule :=
  inOrder [
    whileTrue (next .lBracket) (group .square),
    onlyIf (fun s => place = .record && next .colon s) (inOrder [.token, expression]),
    choose [
      (next .equal, assignedValue),
      (next .lBrace, .node .initializer initList),
      (next .lParen, .node .initializer argList)]
      .nothing]

/-- the rest of a declaration of variables, after the first name -/
def declarators (place : Place) : Rule :=
  inOrder [
    declaratorSuffix place,
    whileTrue (next .comma) (inOrder [
      .token,
      whileTrue (nextIn [.star, .amp, .andAnd, .kwConst]) .token,
      declaratorName,
      declaratorSuffix place]),
    .branch (fun s => place = .body && next .colon s)
      (inOrder [.token, expression]) toSemicolon]

/-- A type and declarators. After a name outside of bodies, a `(` starts parameters. -/
def declaration (place : Place) : Rule :=
  .headed (inOrder [typeRef, declaratorName])
    (fun s => if place ≠ .body && next .lParen s then .functionDef else place.node)
    (.branch (fun s => place ≠ .body && next .lParen s)
      (inOrder [parameterList, functionRest]) (declarators place))

/-! ## enumerations -/

/-- the enumerators in braces; what follows a mistake is skipped up to a `}` -/
def enumeratorList : Rule :=
  .node .enumeratorList (inOrder [
    .token,
    whileTrue (next .ident) (inOrder [
      .node .enumerator (inOrder [
        .token, onlyIf (next .equal) (inOrder [.token, expression])]),
      .branch (next .comma) .token .leave]),
    skipTo [.rBrace],
    eat .rBrace])

/-- an enumeration; one that stands alone has its declarators and `;` as well -/
def enumDef (alone : Bool) : Rule :=
  .node .enumDef (inOrder [
    .token,
    onlyIf (nextIn [.kwClass, .kwStruct]) .token,
    eat .ident,
    onlyIf (next .colon) (inOrder [.token, typeRef]),
    onlyIf (next .lBrace) enumeratorList,
    if alone then toSemicolon else .nothing])

/-! ## records -/

def accessSpecifier : Rule := .node .accessSpecifier (inOrder [.token, .token])

def usingDef : Rule := .node .usingDef toSemicolon

/-- `public:`, `private:` or `protected:` -/
def startsAccess (ahead : List Cue) : Bool :=
  nextIn [.kwPublic, .kwPrivate, .kwProtected] ahead && secondIs (· = .colon) ahead

def recordMember : Rule :=
  choose [
    (startsAccess, accessSpecifier),
    (next .kwUsing, usingDef),
    (startsConstructor, constructor),
    (startsDeclaration, declaration .record)]
    (.goal .item)

def fieldList : Rule :=
  .node .fieldList (inOrder [
    .token,
    untilTrue (endOr [.rBrace]) (.atLeastOne recordMember),
    eat .rBrace])

/-- a record, with its bases; one that stands alone has its declarators and `;` as well -/
def recordDef (alone : Bool) : Rule :=
  .headed .nothing (fun s => if next .kwClass s then .classDef else .structDef) (inOrder [
    .token,
    eat .ident,
    onlyIf (next .colon) (inOrder [.token, skipTo [.lBrace, .semicolon]]),
    onlyIf (next .lBrace) fieldList,
    if alone then toSemicolon else .nothing])

/-! ## the other items -/

/-- a type that an alias is given for, perhaps defined on the spot -/
def typedefDef : Rule :=
  .node .typedefDef (inOrder [
    .token,
    choose [(startsRecord, recordDef false), (startsEnum, enumDef false)] typeRef,
    toSemicolon])

/-- items up to the end of the text, or to a `}` that closes them -/
def items (closers : List TokenKind) : Rule :=
  untilTrue (endOr closers) (.atLeastOne (.goal .item))

def itemList : Rule :=
  .node .itemList (inOrder [.token, items [.rBrace], eat .rBrace])

/-- `extern "C"` and a list of items or one item -/
def linkageSpec : Rule :=
  .node .linkageSpec (inOrder [
    .token, .token, .branch (next .lBrace) itemList (.goal .item)])

/-- a namespace or, without braces, another name for one -/
def namespaceDef : Rule :=
  .node .namespaceDef (inOrder [
    .token,
    whileTrue (nextIn [.ident, .doubleColon]) .token,
    .branch (next .lBrace) itemList toSemicolon])

def templateDef : Rule :=
  .node .templateDef (inOrder [
    .token,
    onlyIf (next .less) templateParameterList,
    onlyIf (fun s => !endOr [.rBrace] s) (.atLeastOne (.goal .item))])

/-- One construct outside of bodies. A token that starts none stands by itself. -/
def item : Rule :=
  choose [
    (startsDirective, directive),
    (next .semicolon, .token),
    (next .kwTemplate, templateDef),
    (next .kwNamespace, namespaceDef),
    (next .kwUsing, usingDef),
    (next .kwTypedef, typedefDef),
    (fun s => next .kwExtern s && secondIs (· = .string) s, linkageSpec),
    (startsRecord, recordDef true),
    (startsEnum, enumDef true),
    (startsQualifiedConstructor, constructor),
    (startsDeclaration, declaration .file)]
    .token

end Rule

end CppMend
