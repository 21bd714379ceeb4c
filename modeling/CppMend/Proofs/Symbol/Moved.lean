import CppMend.Proofs.Symbol.Origins
import CppMend.Proofs.Tree.Moved

/-!
# Symbols at another place and in further scopes

A tree that stands later in a text, and in further scopes, declares the same symbols, at the later
places and in these scopes. Only macros are in no scope wherever they stand.

* `Symbol.enclosed`     a symbol `k` bytes later and in further scopes;
* `Node.moved`          a node at another place, whose parts are all read in the same way there;
* `declared_enclosed`   what a tree declares there.
-/

namespace CppMend

/-- the symbol `k` bytes later, in the scopes `p` -/
def Symbol.enclosed (p : Scope) (k : Nat) (s : Symbol) : Symbol :=
  { s with
    nameSpan := s.nameSpan.moved k
    span := s.span.moved k
    scope := if s.kind = .definition then s.scope else p ++ s.scope }

/-! ## reading a node at another place -/

namespace Leaf

variable {k : Nat} {l : Leaf}

@[simp] theorem moved_kind : (l.moved k).kind = l.kind := rfl

@[simp] theorem moved_text : (l.moved k).text = l.text := rfl

@[simp] theorem moved_isTrivia : (l.moved k).isTrivia = l.isTrivia := rfl

@[simp] theorem moved_span : (l.moved k).span = l.span.moved k := rfl

end Leaf

namespace Node

/-- the node `k` bytes later -/
def moved (k : Nat) (n : Node) : Node := ⟨n.kind, n.span.moved k, Tree.movedAll k n.children⟩

variable (k : Nat) (n : Node)

theorem tree_moved : (n.moved k).tree = n.tree.moved k := by
  rw [tree, tree, Tree.moved]
  rfl

@[simp] theorem moved_kind : (n.moved k).kind = n.kind := rfl

@[simp] theorem moved_span : (n.moved k).span = n.span.moved k := rfl

@[simp] theorem moved_children : (n.moved k).children = n.children.map (Tree.moved k) :=
  Tree.movedAll_eq k n.children

theorem leaf?_moved : Tree.leaf? ∘ Tree.moved k = fun t => t.leaf?.map (Leaf.moved k) := by
  funext t
  cases t <;> rw [Function.comp, Tree.moved] <;> rfl

theorem node?_moved : Tree.node? ∘ Tree.moved k = fun t => t.node?.map (Node.moved k) := by
  funext t
  cases t <;> rw [Function.comp, Tree.moved] <;> rfl

@[simp] theorem moved_tokens : (n.moved k).tokens = n.tokens.map (Leaf.moved k) := by
  rw [tokens, tokens, moved_children, List.filterMap_map, leaf?_moved, List.map_filterMap]

@[simp] theorem moved_nodes : (n.moved k).nodes = n.nodes.map (Node.moved k) := by
  rw [nodes, nodes, moved_children, List.filterMap_map, node?_moved, List.map_filterMap]

@[simp] theorem moved_significant : (n.moved k).significant = n.significant.map (Leaf.moved k) := by
  rw [significant, significant, moved_tokens, List.filter_map]
  rfl

@[simp] theorem moved_token? (kind : TokenKind) :
    (n.moved k).token? kind = (n.token? kind).map (Leaf.moved k) := by
  rw [token?, token?, moved_tokens, List.find?_map]
  rfl

@[simp] theorem moved_node? (kind : NodeKind) :
    (n.moved k).node? kind = (n.node? kind).map (Node.moved k) := by
  rw [Node.node?, Node.node?, moved_nodes, List.find?_map]
  rfl

@[simp] theorem moved_names : (n.moved k).names = n.names.map (Leaf.moved k) := by
  rw [names, names, moved_tokens, List.filter_map]
  rfl

@[simp] theorem moved_firstName? : (n.moved k).firstName? = n.firstName?.map (Leaf.moved k) :=
  n.moved_token? k .ident

@[simp] theorem moved_lastName? : (n.moved k).lastName? = n.lastName?.map (Leaf.moved k) := by
  rw [lastName?, lastName?, moved_names, List.getLast?_map]

@[simp] theorem moved_definedName? :
    (n.moved k).definedName? = n.definedName?.map (Leaf.moved k) := by
  rw [definedName?, definedName?, moved_names, List.getElem?_map]

@[simp] theorem moved_tagName? : (n.moved k).tagName? = n.tagName?.map (Leaf.moved k) := by
  have hkey : (fun l : Leaf => !l.kind.isKeyword) ∘ Leaf.moved k = fun l => !l.kind.isKeyword := rfl
  rw [tagName?, tagName?, moved_significant, List.find?_map, hkey]
  cases n.significant.find? (!·.kind.isKeyword) with
  | none => rfl
  | some l =>
    show (if l.kind = TokenKind.ident then some (l.moved k) else none)
      = (if l.kind = TokenKind.ident then some l else none).map (Leaf.moved k)
    split <;> rfl

@[simp] theorem moved_aliasName? : (n.moved k).aliasName? = n.aliasName?.map (Leaf.moved k) := by
  rw [aliasName?, aliasName?, moved_significant]
  rcases n.significant with _ | ⟨_, _ | ⟨name, _ | ⟨mark, _⟩⟩⟩
  · rfl
  · rfl
  · rfl
  · show (if name.kind = TokenKind.ident ∧ mark.kind = TokenKind.equal then some (name.moved k) else none)
      = (if name.kind = TokenKind.ident ∧ mark.kind = TokenKind.equal then some name else none).map
          (Leaf.moved k)
    split <;> rfl

@[simp] theorem moved_declaratorNames :
    (n.moved k).declaratorNames = n.declaratorNames.map (Leaf.moved k) := by
  have hbefore : declaratorNames.beforeParameters ∘ Tree.moved k = declaratorNames.beforeParameters := by
    funext t
    cases t <;> rw [Function.comp, Tree.moved] <;> rfl
  rw [declaratorNames, declaratorNames, moved_children, List.takeWhile_map, hbefore,
    List.filterMap_map, leaf?_moved, ← List.map_filterMap, List.filter_map]
  rfl

@[simp] theorem moved_functionName? :
    (n.moved k).functionName? = n.functionName?.map (Leaf.moved k) := by
  rw [functionName?, functionName?, moved_declaratorNames, List.getLast?_map]

@[simp] theorem moved_qualifiers : (n.moved k).qualifiers = n.qualifiers := by
  rw [qualifiers, qualifiers, moved_declaratorNames, ← List.map_dropLast, List.map_map]
  rfl

@[simp] theorem moved_hasPart (kind : NodeKind) : (n.moved k).hasPart kind = n.hasPart kind := by
  rw [hasPart, hasPart, moved_node?, Option.isSome_map]

@[simp] theorem moved_isPrototype : (n.moved k).isPrototype = n.isPrototype := by
  rw [isPrototype, isPrototype, moved_node?, Option.isNone_map]

@[simp] theorem moved_isExternal : (n.moved k).isExternal = n.isExternal := by
  rw [isExternal, isExternal, moved_node?]
  cases n.node? .typeRef with
  | none => rfl
  | some type =>
    show ((type.moved k).token? .kwExtern).isSome = _
    rw [moved_token?, Option.isSome_map]

@[simp] theorem moved_recordKind : (n.moved k).recordKind = n.recordKind := by
  rw [recordKind, recordKind, isUnion, isUnion, moved_token?, Option.isSome_map]
  rfl

@[simp] theorem moved_isScoped : (n.moved k).isScoped = n.isScoped := by
  rw [isScoped, isScoped, moved_tokens, List.any_map]
  rfl

theorem moved_inLists (kind : NodeKind) :
    (n.moved k).inLists kind = (n.inLists kind).map (Node.moved k) := by
  have hkind : (fun m : Node => decide (m.kind = kind)) ∘ Node.moved k = fun m => decide (m.kind = kind) :=
    rfl
  have hnodes : (fun m : Node => m.nodes) ∘ Node.moved k = fun m => m.nodes.map (Node.moved k) :=
    funext (moved_nodes k)
  rw [inLists, inLists, moved_nodes, List.filter_map, hkind, List.flatMap_map, List.map_flatMap]
  exact congrArg (List.flatMap · _) hnodes

@[simp] theorem moved_enumerators :
    (n.moved k).enumerators = n.enumerators.map (Node.moved k) := by
  rw [enumerators, enumerators, moved_inLists, List.filter_map]
  rfl

end Node

/-! ## what nodes declare -/

namespace Node

variable (p : Scope) (k : Nat) (n : Node)

/-- a symbol that is not a macro -/
theorem symbol_moved (name : Leaf) {kind : SymbolKind} (hk : kind ≠ .definition) (scope : Scope)
    (isDeclaration : Bool) : (n.moved k).symbol (name.moved k) kind (p ++ scope) isDeclaration
      = (n.symbol name kind scope isDeclaration).enclosed p k := by
  rw [symbol, symbol, Symbol.enclosed, if_neg hk]
  rfl

theorem innerScope_moved (scope : Scope) :
    (n.moved k).innerScope (p ++ scope) = p ++ n.innerScope scope := by
  unfold innerScope
  rw [moved_tagName?, moved_isScoped]
  cases n.tagName? with
  | none => rfl
  | some name =>
    show (if n.isScoped then p ++ scope ++ [name.text] else p ++ scope)
      = p ++ if n.isScoped then scope ++ [name.text] else scope
    split
    · rw [List.append_assoc]
    · rfl

theorem enumSymbols_moved (scope : Scope) :
    (n.moved k).enumSymbols (p ++ scope) = (n.enumSymbols scope).map (Symbol.enclosed p k) := by
  rw [enumSymbols_eq, enumSymbols_eq, moved_tagName?, moved_enumerators, moved_hasPart,
    innerScope_moved, List.map_append, List.filterMap_map, List.map_filterMap]
  congr 1
  · cases n.tagName? with
    | none => rfl
    | some name => exact congrArg (fun s => [s]) (symbol_moved p k n name (by decide) scope _)
  · refine congrArg (List.filterMap · n.enumerators) (funext fun e => ?_)
    show ((e.moved k).firstName?).map _ = _
    rw [moved_firstName?]
    cases e.firstName? with
    | none => rfl
    | some name => exact congrArg some (symbol_moved p k e name (by decide) (n.innerScope scope) false)

theorem ownSymbols_moved (scope : Scope) :
    (n.moved k).ownSymbols (p ++ scope) = (n.ownSymbols scope).map (Symbol.enclosed p k) := by
  -- the symbol of a name that a node may have
  have one {kind : SymbolKind} (hk : kind ≠ .definition) (name : Leaf) (isDeclaration : Bool) :
      [(n.moved k).symbol (name.moved k) kind (p ++ scope) isDeclaration]
        = [n.symbol name kind scope isDeclaration].map (Symbol.enclosed p k) :=
    congrArg (fun s => [s]) (symbol_moved p k n name hk scope isDeclaration)
  unfold ownSymbols
  rw [moved_kind]
  split
  case h_1 =>
    rw [moved_functionName?, moved_qualifiers, moved_isPrototype, List.append_assoc]
    cases n.functionName? with
    | none => rfl
    | some name =>
      exact congrArg (fun s => [s]) (symbol_moved p k n name (by decide) (scope ++ n.qualifiers) _)
  case h_2 | h_3 =>
    rw [moved_tagName?, moved_recordKind, moved_hasPart]
    cases n.tagName? with
    | none => rfl
    | some name =>
      refine one ?_ name _
      unfold recordKind
      split_ifs <;> decide
  case h_4 => exact enumSymbols_moved p k n scope
  case h_5 =>
    rw [moved_firstName?]
    cases n.firstName? with
    | none => rfl
    | some name => exact one (by decide) name _
  case h_6 =>
    rw [moved_aliasName?]
    cases n.aliasName? with
    | none => rfl
    | some name => exact one (by decide) name _
  case h_7 =>
    rw [moved_definedName?]
    cases n.definedName? with
    | none => rfl
    | some name => rfl
  case h_8 =>
    rw [moved_names, moved_isExternal, List.map_map, List.map_map]
    exact congrArg (List.map · n.names) (funext fun name => symbol_moved p k n name (by decide) scope _)
  case h_9 => rfl

theorem closingSymbols_moved (scope : Scope) :
    (n.moved k).closingSymbols (p ++ scope) = (n.closingSymbols scope).map (Symbol.enclosed p k) := by
  by_cases hk : n.kind = .typedefDef
  · unfold closingSymbols
    rw [moved_kind, moved_lastName?, hk]
    cases n.lastName? with
    | none => rfl
    | some name => exact congrArg (fun s => [s]) (symbol_moved p k n name (by decide) scope false)
  · rw [closingSymbols_of_ne hk, (n.moved k).closingSymbols_of_ne hk]
    rfl

end Node

/-! ## the walk -/

theorem inside_moved (standing : Standing) (p : Scope) (k : Nat) (n : Node) (scope : Scope) :
    inside standing (n.moved k) (p ++ scope)
      = (inside standing n scope).map fun q => (q.1, p ++ q.2) := by
  unfold inside
  rw [Node.moved_kind]
  split
  case h_7 | h_8 =>
    rw [Node.moved_tagName?, Option.map_map, Option.map_map]
    refine congrArg (Option.map · n.tagName?) (funext fun name => ?_)
    show (Standing.inRecord, p ++ scope ++ [name.text]) = (.inRecord, p ++ (scope ++ [name.text]))
    rw [List.append_assoc]
  case h_9 =>
    rw [Node.moved_firstName?]
    cases n.firstName? with
    | none => rfl
    | some name =>
      show some (Standing.inNamespace, p ++ scope ++ [name.text])
        = some (.inNamespace, p ++ (scope ++ [name.text]))
      rw [List.append_assoc]
  all_goals rfl

theorem around_moved (standing : Standing) (p : Scope) (k : Nat) (n : Node) (scope : Scope) :
    around standing (n.moved k) (p ++ scope)
      = ((around standing n scope).1.map (Symbol.enclosed p k),
        (around standing n scope).2.map (Symbol.enclosed p k)) := by
  unfold around
  rw [Node.moved_kind]
  split
  case h_1 =>
    rw [Node.moved_names, List.map_map, List.map_map]
    refine congrArg (fun names => (names, [])) (congrArg (List.map · n.names) (funext fun name => ?_))
    exact Node.symbol_moved p k n name (by decide) scope false
  case h_5 => rw [Node.ownSymbols_moved, Node.closingSymbols_moved]
  all_goals rfl

mutual

/-- What a tree declares at another place and in further scopes. -/
theorem declared_enclosed (p : Scope) (k : Nat) : ∀ (standing : Standing) (scope : Scope) (t : Tree),
    declared standing (p ++ scope) (t.moved k)
      = (declared standing scope t).map (Symbol.enclosed p k)
  | _, _, .leaf _ => by
    rw [Tree.moved, declared, declared]
    rfl
  | standing, scope, .node kind span children => by
    let n : Node := ⟨kind, span, children⟩
    show declared standing (p ++ scope) (n.tree.moved k) = (declared standing scope n.tree).map _
    rw [← n.tree_moved, declared_node, declared_node, around_moved, inside_moved, List.map_append,
      List.map_append]
    cases inside standing n scope with
    | none => rfl
    | some q =>
      have hchildren := declaredIn_enclosed p k q.1 q.2 children
      rw [Option.map_some, Option.elim_some, Option.elim_some]
      show _ ++ declaredIn q.1 (p ++ q.2) (Tree.movedAll k children) ++ _ = _
      rw [hchildren]

theorem declaredIn_enclosed (p : Scope) (k : Nat) : ∀ (standing : Standing) (scope : Scope)
    (ts : List Tree), declaredIn standing (p ++ scope) (Tree.movedAll k ts)
      = (declaredIn standing scope ts).map (Symbol.enclosed p k)
  | _, _, [] => by
    rw [Tree.movedAll, declaredIn, declaredIn]
    rfl
  | standing, scope, t :: ts => by
    rw [Tree.movedAll, declaredIn, declaredIn, declared_enclosed p k standing scope t,
      declaredIn_enclosed p k standing scope ts, List.map_append]

end

end CppMend
