import CppMend.Grammar.Rule
import CppMend.Grammar.Lookahead

/-!
# Types, declared names and flat stretches

The rules that group no further constructs: single tokens, bracketed groups, stretches up to a
`;`, types, and the names in declarators.
-/

namespace CppMend

namespace Rule

open Lookahead

/-! ## tokens and groups -/

/-- the next token, if it is of kind `k` -/
def eat (k : TokenKind) : Rule := onlyIf (next k) .token

/-- a bracketed group, without looking inside -/
def group (b : Bracket) : Rule := .tokens b.span

/-- the tokens up to one of the kinds `ks`, left out -/
def skipTo (ks : List TokenKind) : Rule := untilTrue (endOr ks) .token

/-- The tokens up to a `;`, taken as well, or a `}` or the end, left out. Groups are skipped. -/
def toSemicolon : Rule :=
  inOrder [
    untilTrue (endOr [.semicolon, .rBrace])
      (choose [(next .lBrace, group .brace), (next .lParen, group .paren)] .token),
    eat .semicolon]

/-! ## types -/

/-- a name such as `::a::b<c>::d` in a type; a `<` that starts no argument list ends it -/
def qualifiedTypeName : Rule :=
  inOrder [
    eat .doubleColon,
    whileTrue (next .ident) (inOrder [
      .token,
      onlyIf (fun s => next .less s && (argumentList? s).isSome) (group .angle),
      .branch (fun s => next .doubleColon s && secondIs (· = .ident) s) .token .leave])]

/-- specifiers, the name of the type, qualifiers and pointer marks; possibly nothing at all -/
def typeRef : Rule :=
  .node .typeRef (inOrder [
    whileTrue (nextIs TokenKind.isDeclSpecifier) .token,
    choose [
      (nextIs TokenKind.isBuiltinType, whileTrue (nextIs TokenKind.isBuiltinType) .token),
      (next .kwAuto, .token),
      (nextIs isTagWord, inOrder [.token, qualifiedTypeName]),
      (nextIn [.ident, .doubleColon], qualifiedTypeName)]
      .nothing,
    whileTrue (nextIs isTypeSuffix) .token])

/-! ## declared names -/

/-- the name after `operator`: `()` or all tokens up to a `(` -/
def operatorName : Rule :=
  inOrder [
    .token,
    .branch (next .lParen) (inOrder [.token, eat .rParen]) (skipTo [.lParen])]

/-- the possibly qualified name of what is declared -/
def declaratorName : Rule :=
  .branch (next .kwOperator) operatorName
    (.loop (choose [
      (fun s => next .ident s && secondIs (· = .less) s, inOrder [.token, group .angle]),
      (nextIn [.ident, .doubleColon, .tilde], .token)]
      .leave))

/-! ## template parameters -/

/-- one token of a template parameter, or one group -/
def templateStep : Rule :=
  choose [(next .less, group .angle), (next .lParen, group .paren)] .token

/-- a template parameter, up to a `,` or `>` outside of groups; it may start with a `,` -/
def templateParameter : Rule :=
  .node .templateParameter (inOrder [
    templateStep,
    untilTrue (endOr [.comma, .greater, .semicolon, .lBrace]) templateStep])

def templateParameterList : Rule :=
  .node .templateParameterList (inOrder [
    .token,
    untilTrue (endOr [.greater, .lBrace, .semicolon])
      (inOrder [templateParameter, .branch (next .comma) .token .leave]),
    eat .greater])

/-! ## directives -/

/-- the number of tokens on a directive's line, where `joined` says that a line was joined on -/
def lineSpan (joined : Bool) : List Cue → Nat
  | [] => 0
  | c :: rest =>
    if !joined && c.startsLine then 0 else lineSpan (c.mark = .lineJoin) rest + 1

/-- the kind of the directive whose `#` is next -/
def directiveKind : List Cue → NodeKind
  | _ :: c :: _ =>
    match c.mark with
    | .includeWord => .preprocInclude
    | .defineWord => .preprocDefine
    | _ => .preprocDirective
  | _ => .preprocDirective

/-- a `#` at the start of a line -/
def startsDirective : List Cue → Bool
  | [] => false
  | c :: _ => c.kind = .hash && c.startsLine

/-- a directive, to the end of its line and of the lines that a `\` joins on -/
def directive : Rule :=
  .headed .nothing directiveKind (inOrder [.token, .tokens (lineSpan false)])

end Rule

end CppMend
