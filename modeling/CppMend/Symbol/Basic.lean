import CppMend.Text.Pieces
import CppMend.Text.Span

/-!
# Symbols

A `Symbol` is a name that a file declares outside of function bodies, with the scope that the name
belongs to.
-/

namespace CppMend

inductive SymbolKind where
  | function | structType | classType | unionType | enumType | enumerator | field | space
  | typeAlias | definition | object
  deriving DecidableEq, Repr, Inhabited

namespace SymbolKind

def name : SymbolKind → String
  | function => "function"
  | structType => "struct"
  | classType => "class"
  | unionType => "union"
  | enumType => "enum"
  | enumerator => "enumerator"
  | field => "field"
  | space => "namespace"
  | typeAlias => "typedef"
  | definition => "macro"
  | object => "variable"

def isType : SymbolKind → Bool
  | structType | classType | unionType | enumType | typeAlias => true
  | _ => false

/-- the number by which editors know a kind -/
def editorNumber : SymbolKind → Nat
  | function => 12
  | structType | unionType => 23
  | classType => 5
  | enumType => 10
  | enumerator => 22
  | field => 8
  | space => 3
  | typeAlias => 26
  | definition => 14
  | object => 13

end SymbolKind

/-- The names of the scopes around a declaration, outermost first. -/
abbrev Scope := List Text

namespace Scope

/-- the scopes as they are written before a name; nothing at file level -/
def spelling? (s : Scope) : Option Text :=
  if s.isEmpty then none else some (Text.joined [':', ':'] s)

end Scope

structure Symbol where
  name : Text
  kind : SymbolKind
  nameSpan : Span
  span : Span
  scope : Scope
  /-- there is no body, so the definition is elsewhere -/
  isDeclaration : Bool
  deriving DecidableEq, Repr, Inhabited

namespace Symbol

def qualified (s : Symbol) : Text := Text.joined [':', ':'] (s.scope ++ [s.name])

end Symbol

end CppMend
