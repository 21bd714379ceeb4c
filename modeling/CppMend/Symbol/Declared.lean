import CppMend.Symbol.Basic
import CppMend.Tree.View

/-!
# Declared symbols

The symbols of a file, read off its tree from the top down. Bodies of functions are not entered.
A record without a name declares neither itself nor its members; an enumeration without a name
still declares its enumerators.

* `Standing`            how a node stands to the declaration around it;
* `declared`            the symbols of one tree, given its standing and its scope;
* `Node.symbols`        the symbols of a file.
-/

namespace CppMend

namespace Node

/-- The name after `struct`, `class`, `union`, `enum` or `enum class`. -/
def tagName? (n : Node) : Option Leaf :=
  match n.significant.find? (!·.kind.isKeyword) with
  | some l => if l.kind = .ident then some l else none
  | none => none

/-- the name that `using name = …` declares -/
def aliasName? (n : Node) : Option Leaf :=
  match n.significant with
  | _ :: name :: mark :: _ => if name.kind = .ident ∧ mark.kind = .equal then some name else none
  | _ => none

def hasPart (n : Node) (kind : NodeKind) : Bool := (n.node? kind).isSome

/-- the type of a declaration is `extern` -/
def isExternal (n : Node) : Bool :=
  match n.node? .typeRef with
  | some type => (type.token? .kwExtern).isSome
  | none => false

/-- the scopes that qualify the name of a function -/
def qualifiers (n : Node) : Scope := n.declaratorNames.dropLast.map (·.text)

def recordKind (n : Node) : SymbolKind :=
  if n.kind = .classDef then .classType else if n.isUnion then .unionType else .structType

/-- a name in a node declares a symbol of a kind -/
def symbol (n : Node) (name : Leaf) (kind : SymbolKind) (scope : Scope) (isDeclaration : Bool) :
    Symbol :=
  ⟨name.text, kind, name.span, n.span, scope, isDeclaration⟩

/-- the enumerators live beside their enumeration, or in it if it has a class and a name -/
def enumSymbols (n : Node) (scope : Scope) : List Symbol :=
  let own := match n.tagName? with
    | some name => [n.symbol name .enumType scope (!n.hasPart .enumeratorList)]
    | none => []
  let inner := match n.tagName? with
    | some name => if n.isScoped then scope ++ [name.text] else scope
    | none => scope
  own ++ n.enumerators.filterMap fun e =>
    e.firstName?.map fun name => e.symbol name .enumerator inner false

/-- the symbols that a node declares itself, before those of the nodes in it -/
def ownSymbols (n : Node) (scope : Scope) : List Symbol :=
  match n.kind with
  | .functionDef =>
    match n.functionName? with
    | some name => [n.symbol name .function (scope ++ n.qualifiers) n.isPrototype]
    | none => []
  | .structDef | .classDef =>
    match n.tagName? with
    | some name => [n.symbol name n.recordKind scope (!n.hasPart .fieldList)]
    | none => []
  | .enumDef => n.enumSymbols scope
  | .namespaceDef =>
    match n.firstName? with
    | some name => [n.symbol name .space scope false]
    | none => []
  | .usingDef =>
    match n.aliasName? with
    | some name => [n.symbol name .typeAlias scope false]
    | none => []
  | .preprocDefine =>
    match n.definedName? with
    | some name => [n.symbol name .definition [] false]
    | none => []
  | .variableDef => n.names.map fun name => n.symbol name .object scope n.isExternal
  | _ => []

/-- the symbols that a node declares after those of the nodes in it: the alias of a `typedef` -/
def closingSymbols (n : Node) (scope : Scope) : List Symbol :=
  match n.kind, n.lastName? with
  | .typedefDef, some name => [n.symbol name .typeAlias scope false]
  | _, _ => []

end Node

/-! ## the walk -/

/-- How a node stands to the declaration around it. Members of records may be fields; of a record
only the lists of members are read, of a namespace only the lists of items, and of a template
everything but its parameters. -/
inductive Standing where
  | item
  | member
  | inRecord
  | inNamespace
  | inLinkage
  | inTemplate
  deriving DecidableEq, Repr

/-- what a node lets be read inside it, and in which scope -/
def inside (standing : Standing) (n : Node) (scope : Scope) : Option (Standing × Scope) :=
  match standing, n.kind with
  | .inRecord, .fieldList => some (.member, scope)
  | .inRecord, _ => none
  | .inNamespace, .itemList => some (.item, scope)
  | .inNamespace, _ => none
  | .inLinkage, .itemList => some (.item, scope)
  | .inTemplate, .templateParameterList => none
  | _, .structDef | _, .classDef => n.tagName?.map fun name => (.inRecord, scope ++ [name.text])
  | _, .namespaceDef =>
    match n.firstName? with
    | some name => some (.inNamespace, scope ++ [name.text])
    | none => some (.inNamespace, scope)
  | _, .linkageSpec => some (.inLinkage, scope)
  | _, .templateDef => some (.inTemplate, scope)
  | _, .typedefDef => some (.item, scope)
  | _, _ => none

/-- the symbols before and after those inside a node -/
def around (standing : Standing) (n : Node) (scope : Scope) : List Symbol × List Symbol :=
  match standing, n.kind with
  | .member, .fieldDef => (n.names.map fun name => n.symbol name .field scope false, [])
  | .inRecord, _ | .inNamespace, _ | .inTemplate, .templateParameterList => ([], [])
  | _, _ => (n.ownSymbols scope, n.closingSymbols scope)

mutual

def declared (standing : Standing) (scope : Scope) : Tree → List Symbol
  | .leaf _ => []
  | .node kind span children =>
    let n : Node := ⟨kind, span, children⟩
    let (before, after) := around standing n scope
    match inside standing n scope with
    | some (standing, scope) => before ++ declaredIn standing scope children ++ after
    | none => before ++ after

def declaredIn (standing : Standing) (scope : Scope) : List Tree → List Symbol
  | [] => []
  | t :: ts => declared standing scope t ++ declaredIn standing scope ts

end

/-- the symbols of a file -/
def Node.symbols (n : Node) : List Symbol := declaredIn .item [] n.children

end CppMend
