import CppMend.Tree.Basic

/-!
# Reading nodes

What the nodes of each kind say: the name of a function, the operands of an operator, the members
of a record. A part that the text lacks is `none`. `Node.view?` gathers the parts of the kinds
that have any.
-/

namespace CppMend

namespace Node

/-! ## names -/

/-- the first name directly in a node -/
def firstName? (n : Node) : Option Leaf := n.token? .ident

/-- all names directly in a node, which are the names that a declaration declares -/
def names (n : Node) : List Leaf := n.tokens.filter (·.kind = .ident)

/-- the last name directly in a node -/
def lastName? (n : Node) : Option Leaf := n.names.getLast?

/-- the first significant token directly in a node -/
def firstToken? (n : Node) : Option Leaf := n.significant.head?

/-- the names directly in a function before its parameters -/
def declaratorNames (n : Node) : List Leaf :=
  ((n.children.takeWhile beforeParameters).filterMap Tree.leaf?).filter (·.kind = .ident)
where
  beforeParameters : Tree → Bool
    | .leaf _ => true
    | .node kind _ _ => kind ≠ .parameterList

/-- the name of a function, without what qualifies it -/
def functionName? (n : Node) : Option Leaf := n.declaratorNames.getLast?

/-- `A::B` of a function `A::B::name` -/
def qualifier? (n : Node) : Option String :=
  match n.declaratorNames.dropLast with
  | [] => none
  | scopes => some (String.intercalate "::" (scopes.map (·.spelling)))

/-- a function without a body -/
def isPrototype (n : Node) : Bool := (n.node? .block).isNone

/-! ## directives -/

/-- what an `#include` names, with its delimiters -/
def includeTarget? (n : Node) : Option String :=
  let after := (n.tokens.dropWhile (·.text ≠ "include".toList)).drop 1
  match after.filter (!·.isTrivia) with
  | [] => none
  | first :: rest =>
    if first.kind = .string then some first.spelling
    else if first.kind = .less then
      match rest.span (·.kind ≠ .greater) with
      | (_, []) => none
      | (inside, close :: _) =>
        some (String.join ((first :: inside ++ [close]).map (·.spelling)))
    else none

/-- the name that a `#define` gives a meaning -/
def definedName? (n : Node) : Option Leaf := n.names[1]?

/-! ## lists in bodies -/

/-- the nodes in the lists of a kind directly in a node -/
def inLists (n : Node) (kind : NodeKind) : List Node :=
  (n.nodes.filter (·.kind = kind)).flatMap (·.nodes)

/-- the items of a namespace -/
def items (n : Node) : List Node := n.inLists .itemList

/-- the members of a record -/
def members (n : Node) : List Node := n.inLists .fieldList

def enumerators (n : Node) : List Node :=
  (n.inLists .enumeratorList).filter (·.kind = .enumerator)

def ofKind (kind : NodeKind) (ns : List Node) : List Node := ns.filter (·.kind = kind)

/-- the statements of a block, aliases included -/
def statements (n : Node) : List Node :=
  n.nodes.filter fun s => s.kind.isStatement || s.kind = .usingDef

/-! ## types, statements and expressions -/

/-- the text of a type, with one space between its tokens -/
def typeSpelling (n : Node) : String :=
  String.intercalate " " ((n.leaves.filter (!·.isTrivia)).map (·.spelling))

def isPointer (n : Node) : Bool := (n.token? .star).isSome

def isReference (n : Node) : Bool := n.tokens.any fun l => l.kind = .amp || l.kind = .andAnd

/-- `enum class` or `enum struct` -/
def isScoped (n : Node) : Bool := n.tokens.any fun l => l.kind = .kwClass || l.kind = .kwStruct

def isUnion (n : Node) : Bool := (n.token? .kwUnion).isSome

def isQualified (n : Node) : Bool := (n.token? .doubleColon).isSome

def isArrow (n : Node) : Bool := (n.token? .arrow).isSome

def firstNode? (n : Node) : Option Node := n.nodes.head?

def secondNode? (n : Node) : Option Node := n.nodes[1]?

def returned? (n : Node) : Option Node := n.nodes.find? (·.kind.isExpression)

def thenBranch? (n : Node) : Option Node := n.nodes.find? (·.kind.isStatement)

def elseBranch? (n : Node) : Option Node := (n.node? .elseBranch).bind firstNode?

end Node

/-! ## all parts of a node -/

/-- The parts of a node, by its kind. -/
inductive View where
  | file (items functions includes : List Node)
  | inclusion (target : Option String)
  | definition (name : Option Leaf)
  | space (name : Option Leaf) (items : List Node)
  | struct (name : Option Leaf) (union : Bool) (fields methods : List Node)
  | classDef (name : Option Leaf) (fields methods : List Node)
  | enum (name : Option Leaf) (isScoped : Bool) (enumerators : List Node)
  | enumerator (name : Option Leaf)
  | function (name : Option Leaf) (qualifier : Option String)
      (returns parameters body : Option Node) (prototype : Bool)
  | parameters (parameters : List Node)
  | parameter (name : Option Leaf) (type value : Option Node)
  | variables (type : Option Node) (names : List Leaf)
  | locals (type : Option Node) (names : List Leaf) (initializers : List Node)
  | initializer (value : Option Node)
  | type (spelling : String) (pointer reference : Bool)
  | block (statements : List Node)
  | returned (expression : Option Node)
  | conditional (condition thenBranch elseBranch : Option Node)
  | condition (expression : Option Node)
  | call (callee arguments : Option Node)
  | arguments (arguments : List Node)
  | binary (lhs rhs : Option Node) (op : Option Leaf)
  | assignment (target value : Option Node) (op : Option Leaf)
  | member (base : Option Node) (arrow : Bool) (member : Option Leaf)
  | nameRef (name : Option Leaf) (qualified : Bool)
  | literal (token : Option Leaf)
  deriving Repr, Inhabited

namespace Node

/-- the parts of a node, if its kind has any -/
def view? (n : Node) : Option View :=
  match n.kind with
  | .root => some (.file n.nodes (ofKind .functionDef n.nodes) (ofKind .preprocInclude n.nodes))
  | .preprocInclude => some (.inclusion n.includeTarget?)
  | .preprocDefine => some (.definition n.definedName?)
  | .namespaceDef => some (.space n.firstName? n.items)
  | .structDef =>
    some (.struct n.firstName? n.isUnion (ofKind .fieldDef n.members)
      (ofKind .functionDef n.members))
  | .classDef =>
    some (.classDef n.firstName? (ofKind .fieldDef n.members) (ofKind .functionDef n.members))
  | .enumDef => some (.enum n.firstName? n.isScoped n.enumerators)
  | .enumerator => some (.enumerator n.firstName?)
  | .functionDef =>
    some (.function n.functionName? n.qualifier? (n.node? .typeRef) (n.node? .parameterList)
      (n.node? .block) n.isPrototype)
  | .parameterList => some (.parameters (ofKind .parameter n.nodes))
  | .parameter => some (.parameter n.firstName? (n.node? .typeRef) (n.node? .initializer))
  | .variableDef | .fieldDef => some (.variables (n.node? .typeRef) n.names)
  | .declStmt => some (.locals (n.node? .typeRef) n.names (ofKind .initializer n.nodes))
  | .initializer => some (.initializer n.firstNode?)
  | .typeRef => some (.type n.typeSpelling n.isPointer n.isReference)
  | .block => some (.block n.statements)
  | .returnStmt => some (.returned n.returned?)
  | .ifStmt => some (.conditional (n.node? .condition) n.thenBranch? n.elseBranch?)
  | .condition => some (.condition n.firstNode?)
  | .callExpr => some (.call n.firstNode? (n.node? .argList))
  | .argList => some (.arguments n.nodes)
  | .binaryExpr => some (.binary n.firstNode? n.secondNode? n.firstToken?)
  | .assignExpr => some (.assignment n.firstNode? n.secondNode? n.firstToken?)
  | .memberExpr => some (.member n.firstNode? n.isArrow n.firstName?)
  | .nameRef => some (.nameRef n.lastName? n.isQualified)
  | .literal => some (.literal n.firstToken?)
  | _ => none

end Node

end CppMend
