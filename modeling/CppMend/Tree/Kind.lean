import CppMend.Lexical.Kind

/-!
# Node kinds

`NodeKind` names the constructs that a tree groups tokens into: declarations, statements and
expressions, and the lists and parts that they are made of.

`Kind` is the numbered series of everything a tree can hold: the token kinds, one number that
stands for the end of the text and is in no tree, and the node kinds.
-/

namespace CppMend

inductive NodeKind where
  | root | preprocInclude | preprocDefine | preprocDirective | linkageSpec | namespaceDef
  | itemList | templateDef | templateParameterList | templateParameter | typedefDef | usingDef
  | structDef | classDef | fieldList | fieldDef | accessSpecifier | enumDef | enumeratorList
  | enumerator | functionDef | parameterList | parameter | variableDef | initializer | typeRef
  | block | declStmt | exprStmt | returnStmt | ifStmt | elseBranch | condition | whileStmt
  | doStmt | forStmt | switchStmt | caseStmt | breakStmt | continueStmt | gotoStmt
  | assignExpr | conditionalExpr | binaryExpr | unaryExpr | postfixExpr | castExpr | callExpr
  | argList | indexExpr | memberExpr | parenExpr | lambdaExpr | initList | nameRef | literal
  deriving DecidableEq, Repr, Inhabited

namespace NodeKind

/-- all kinds, in the order of their numbers -/
def all : List NodeKind :=
  [.root, .preprocInclude, .preprocDefine, .preprocDirective, .linkageSpec, .namespaceDef,
   .itemList, .templateDef, .templateParameterList, .templateParameter, .typedefDef, .usingDef,
   .structDef, .classDef, .fieldList, .fieldDef, .accessSpecifier, .enumDef, .enumeratorList,
   .enumerator, .functionDef, .parameterList, .parameter, .variableDef, .initializer, .typeRef,
   .block, .declStmt, .exprStmt, .returnStmt, .ifStmt, .elseBranch, .condition, .whileStmt,
   .doStmt, .forStmt, .switchStmt, .caseStmt, .breakStmt, .continueStmt, .gotoStmt, .assignExpr,
   .conditionalExpr, .binaryExpr, .unaryExpr, .postfixExpr, .castExpr, .callExpr, .argList,
   .indexExpr, .memberExpr, .parenExpr, .lambdaExpr, .initList, .nameRef, .literal]

/-- the name a kind is reported by -/
def name : NodeKind → String
  | .root => "Root"
  | .preprocInclude => "PreprocInclude"
  | .preprocDefine => "PreprocDefine"
  | .preprocDirective => "PreprocDirective"
  | .linkageSpec => "LinkageSpec"
  | .namespaceDef => "NamespaceDef"
  | .itemList => "ItemList"
  | .templateDef => "TemplateDef"
  | .templateParameterList => "TemplateParameterList"
  | .templateParameter => "TemplateParameter"
  | .typedefDef => "TypedefDef"
  | .usingDef => "UsingDef"
  | .structDef => "StructDef"
  | .classDef => "ClassDef"
  | .fieldList => "FieldList"
  | .fieldDef => "FieldDef"
  | .accessSpecifier => "AccessSpecifier"
  | .enumDef => "EnumDef"
  | .enumeratorList => "EnumeratorList"
  | .enumerator => "Enumerator"
  | .functionDef => "FunctionDef"
  | .parameterList => "ParameterList"
  | .parameter => "Parameter"
  | .variableDef => "VariableDef"
  | .initializer => "Initializer"
  | .typeRef => "TypeRef"
  | .block => "Block"
  | .declStmt => "DeclStmt"
  | .exprStmt => "ExprStmt"
  | .returnStmt => "ReturnStmt"
  | .ifStmt => "IfStmt"
  | .elseBranch => "ElseBranch"
  | .condition => "Condition"
  | .whileStmt => "WhileStmt"
  | .doStmt => "DoStmt"
  | .forStmt => "ForStmt"
  | .switchStmt => "SwitchStmt"
  | .caseStmt => "CaseStmt"
  | .breakStmt => "BreakStmt"
  | .continueStmt => "ContinueStmt"
  | .gotoStmt => "GotoStmt"
  | .assignExpr => "AssignExpr"
  | .conditionalExpr => "ConditionalExpr"
  | .binaryExpr => "BinaryExpr"
  | .unaryExpr => "UnaryExpr"
  | .postfixExpr => "PostfixExpr"
  | .castExpr => "CastExpr"
  | .callExpr => "CallExpr"
  | .argList => "ArgList"
  | .indexExpr => "IndexExpr"
  | .memberExpr => "MemberExpr"
  | .parenExpr => "ParenExpr"
  | .lambdaExpr => "LambdaExpr"
  | .initList => "InitList"
  | .nameRef => "NameRef"
  | .literal => "Literal"

def isStatement : NodeKind → Bool
  | .block | .declStmt | .exprStmt | .returnStmt | .ifStmt | .whileStmt | .doStmt | .forStmt
  | .switchStmt | .caseStmt | .breakStmt | .continueStmt | .gotoStmt => true
  | _ => false

def isExpression : NodeKind → Bool
  | .assignExpr | .conditionalExpr | .binaryExpr | .unaryExpr | .postfixExpr | .castExpr
  | .callExpr | .indexExpr | .memberExpr | .parenExpr | .lambdaExpr | .initList | .nameRef
  | .literal => true
  | _ => false

end NodeKind

/-! ## the numbered series -/

/-- A kind of token, a kind of node, or the end of the text. -/
inductive Kind where
  | token (kind : TokenKind)
  | finish
  | node (kind : NodeKind)
  deriving DecidableEq, Repr, Inhabited

namespace Kind

/-- all kinds; the number of a kind is its place in this list -/
def all : List Kind := TokenKind.all.map .token ++ .finish :: NodeKind.all.map .node

def name : Kind → String
  | .token k => k.name
  | .finish => "Eof"
  | .node k => k.name

/-- the kind of a number; numbers past the last kind have none -/
def ofNumber? (n : Nat) : Option Kind := all[n]?

def ofName? (s : String) : Option Kind := all.find? (·.name == s)

/-- the families a kind belongs to, by name -/
def families : Kind → List String
  | .token k =>
    [(k.isTrivia, "trivia"), (k.isKeyword, "keyword"), (k.isBuiltinType, "builtin_type"),
     (k.isDeclSpecifier, "decl_specifier"), (k.isLiteral, "literal")].filterMap named
  | .finish => []
  | .node k =>
    [(true, "node"), (k.isStatement, "statement"), (k.isExpression, "expression")].filterMap named
where
  named : Bool × String → Option String
    | (holds, label) => if holds then some label else none

end Kind

end CppMend
