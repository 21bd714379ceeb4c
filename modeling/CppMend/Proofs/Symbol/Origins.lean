import CppMend.Proofs.Tree.Ancestors
import CppMend.Symbol.Declared
import Mathlib.Data.List.Flatten

/-!
# Where symbols come from

The symbols of a file are found on the way down its tree, where the scopes are collected. Each of them
comes from a name directly in some node, and its scope is known from the nodes around that one as well.
No name gives two symbols.

* `Node.scopeAt`       the scope that a node declares in, read off on the way up;
* `Origin.Declares`    a name in a node, and the symbol that it declares;
* `Found`              some symbols, and places of leaves that their names are among;
* `inside_eq_some`     what is read inside a node is in the scope of the nodes around it;
* `declaredIn_found`   the symbols among some trees come from leaves in their nodes.
-/

namespace CppMend

/-- bodies, parameters and expressions, in which no symbols are declared -/
def NodeKind.isClosed (kind : NodeKind) : Bool :=
  kind = .block || kind = .parameterList || kind.isExpression

/-- the kinds of symbols that nodes of a kind declare -/
def NodeKind.declares : NodeKind → SymbolKind → Bool
  | .functionDef, k => k = .function
  | .structDef, k => k = .structType || k = .unionType
  | .classDef, k => k = .classType
  | .enumDef, k => k = .enumType
  | .enumerator, k => k = .enumerator
  | .namespaceDef, k => k = .space
  | .usingDef, k | .typedefDef, k => k = .typeAlias
  | .preprocDefine, k => k = .definition
  | .variableDef, k => k = .object
  | .fieldDef, k => k = .field
  | _, _ => false

/-! ## scopes on the way up -/

/-- the name of the scope that a namespace or a record makes -/
def Node.scopeName? (n : Node) : Option Leaf :=
  match n.kind with
  | .namespaceDef => n.firstName?
  | .structDef | .classDef => n.tagName?
  | _ => none

/-- the scopes that some nodes make, of which the innermost comes first; the outermost scope is first -/
def Scope.around (up : List Node) : Scope := (up.reverse.filterMap Node.scopeName?).map (·.text)

/-- What a node adds to the scopes around it for what it declares itself: a function, the names that
qualify its own one, and an enumerator, the name of its enumeration, if that has a class. -/
def Node.addedScope (n : Node) (up : List Node) : Scope :=
  match n.kind with
  | .functionDef => n.qualifiers
  | .enumerator =>
    match up.find? (·.kind = .enumDef) with
    | some e => if e.isScoped then e.tagName?.toList.map (·.text) else []
    | none => []
  | _ => []

/-- the scope of what a node declares, where `up` are the nodes around it; macros have none -/
def Node.scopeAt (n : Node) (up : List Node) : Scope :=
  if n.kind = .preprocDefine then [] else Scope.around up ++ n.addedScope up

theorem Scope.around_cons (n : Node) (up : List Node) :
    around (n :: up) = around up ++ n.scopeName?.toList.map (·.text) := by
  rw [around, List.reverse_cons, List.filterMap_append, List.map_append]
  cases h : n.scopeName? <;> simp [around, h]

/-! ## origins -/

/-- A name in a node, and the nodes around that, the innermost one first. -/
structure Origin where
  up : List Node
  node : Node
  name : Leaf
  deriving Repr

namespace Origin

/-- the name with all nodes that it is in -/
def place (o : Origin) : List Node × Leaf := (o.node :: o.up, o.name)

/-- The name is directly in the node, which declares a symbol by it. -/
structure Declares (o : Origin) (s : Symbol) : Prop where
  name : s.name = o.name.text
  nameSpan : s.nameSpan = o.name.span
  span : s.span = o.node.span
  scope : s.scope = o.node.scopeAt o.up
  kind : o.node.kind.declares s.kind = true
  isIdent : o.name.kind = .ident
  direct : o.name ∈ o.node.tokens
  isOpen : ∀ m ∈ o.node :: o.up, m.kind.isClosed = false

theorem map_nameSpan {os : List Origin} {ss : List Symbol} (h : List.Forall₂ Declares os ss) :
    ss.map (·.nameSpan) = os.map (·.name.span) := by
  induction h with
  | nil => rfl
  | cons h _ ih => rw [List.map_cons, List.map_cons, h.nameSpan, ih]

end Origin

/-- The symbols come from names among some leaves, each from one of its own. -/
def Found (ss : List Symbol) (ls : List (List Node × Leaf)) : Prop :=
  ∃ os : List Origin, List.Forall₂ Origin.Declares os ss ∧ (os.map Origin.place).Subperm ls

namespace Found

variable {ss us : List Symbol} {ls ks : List (List Node × Leaf)}

theorem nil (ls : List (List Node × Leaf)) : Found [] ls := ⟨[], .nil, List.nil_subperm⟩

theorem append (h : Found ss ls) (h' : Found us ks) : Found (ss ++ us) (ls ++ ks) := by
  obtain ⟨os, ho, hl⟩ := h
  obtain ⟨ps, hp, hk⟩ := h'
  exact ⟨os ++ ps, List.rel_append ho hp, by rw [List.map_append]; exact hl.append hk⟩

theorem mono (h : Found ss ls) (hl : ls.Subperm ks) : Found ss ks := by
  obtain ⟨os, ho, hs⟩ := h
  exact ⟨os, ho, hs.trans hl⟩

theorem flatMap {ns : List Node} {f : Node → List Symbol} {g : Node → List (List Node × Leaf)}
    (h : ∀ m ∈ ns, Found (f m) (g m)) : Found (ns.flatMap f) (ns.flatMap g) := by
  induction ns with
  | nil => exact nil _
  | cons n ns ih =>
    rw [List.flatMap_cons, List.flatMap_cons]
    exact (h n List.mem_cons_self).append (ih fun m hm => h m (List.mem_cons_of_mem n hm))

end Found

/-! ## names in nodes -/

namespace Node

variable {n : Node} {up : List Node}

/-- the leaves directly in a node, with all nodes that they are in -/
def namePlaces (n : Node) (up : List Node) : List (List Node × Leaf) :=
  n.tokens.map (Prod.mk (n :: up))

theorem found_names {names : List Leaf} {kind : SymbolKind} (h : names.Sublist n.names)
    (hk : n.kind.declares kind = true) (hopen : ∀ m ∈ n :: up, m.kind.isClosed = false)
    (scope : Scope) (hs : scope = n.scopeAt up) (isDeclaration : Bool) :
    Found (names.map fun name => n.symbol name kind scope isDeclaration) (n.namePlaces up) := by
  have htokens : names.Sublist n.tokens := h.trans List.filter_sublist
  refine ⟨names.map (Origin.mk up n), ?_, ?_⟩
  · rw [List.forall₂_map_left_iff, List.forall₂_map_right_iff, List.forall₂_same]
    intro l hl
    have hident : l.kind = .ident := by simpa using (List.mem_filter.mp (h.subset hl)).2
    exact ⟨rfl, rfl, rfl, hs, hk, hident, htokens.subset hl, hopen⟩
  · rw [List.map_map]
    exact (htokens.map _).subperm

theorem found_name {name : Leaf} {kind : SymbolKind} (h : name ∈ n.names)
    (hk : n.kind.declares kind = true) (hopen : ∀ m ∈ n :: up, m.kind.isClosed = false)
    (scope : Scope) (hs : scope = n.scopeAt up) (isDeclaration : Bool) :
    Found [n.symbol name kind scope isDeclaration] (n.namePlaces up) := by
  have hsub : [name].Sublist n.names := List.singleton_sublist.mpr h
  exact found_names hsub hk hopen scope hs isDeclaration

/-! the names that are looked for are all directly in the node -/

theorem mem_names {l : Leaf} (ht : l ∈ n.tokens) (hk : l.kind = .ident) : l ∈ n.names :=
  List.mem_filter.mpr ⟨ht, decide_eq_true hk⟩

theorem firstName?_mem {l : Leaf} (h : n.firstName? = some l) : l ∈ n.names :=
  mem_names (List.mem_of_find?_eq_some h) (by simpa using List.find?_some h)

theorem mem_tokens_of_significant {l : Leaf} (h : l ∈ n.significant) : l ∈ n.tokens :=
  List.mem_of_mem_filter h

theorem tagName?_mem {l : Leaf} (h : n.tagName? = some l) : l ∈ n.names := by
  rw [tagName?] at h
  split at h
  · next k hk =>
    split at h
    · next hi =>
      cases h
      exact mem_names (mem_tokens_of_significant (List.mem_of_find?_eq_some hk)) hi
    · cases h
  · cases h

theorem aliasName?_mem {l : Leaf} (h : n.aliasName? = some l) : l ∈ n.names := by
  rw [aliasName?] at h
  split at h
  · next k name mark more hs =>
    split at h
    · next hi =>
      cases h
      exact mem_names (mem_tokens_of_significant (by rw [hs]; simp)) hi.1
    · cases h
  · cases h

theorem functionName?_mem {l : Leaf} (h : n.functionName? = some l) : l ∈ n.names := by
  have hl : l ∈ n.declaratorNames := List.mem_of_getLast? h
  rw [declaratorNames, List.mem_filter] at hl
  refine mem_names ?_ (by simpa using hl.2)
  exact ((List.takeWhile_prefix _).sublist.filterMap _).subset hl.1

/-! ## what a node declares itself -/

theorem scopeAt_of_plain (h : n.kind ∉ [.preprocDefine, .functionDef, .enumerator]) (up : List Node) :
    n.scopeAt up = Scope.around up := by
  simp only [List.mem_cons, List.not_mem_nil, or_false, not_or] at h
  have hadded : n.addedScope up = [] := by
    unfold addedScope
    split
    · next hk => exact absurd hk h.2.1
    · next hk => exact absurd hk h.2.2
    · rfl
  rw [scopeAt, if_neg h.1, hadded, List.append_nil]

theorem isOpen_cons (hup : ∀ m ∈ up, m.kind.isClosed = false) (h : n.kind.isClosed = false) :
    ∀ m ∈ n :: up, m.kind.isClosed = false :=
  List.forall_mem_cons.mpr ⟨h, hup⟩

/-- a name that declares a symbol in the scope of the nodes around -/
theorem found_plain {name : Leaf} {kind : SymbolKind} (hup : ∀ m ∈ up, m.kind.isClosed = false)
    (h : name ∈ n.names) (hk : n.kind.declares kind = true) (ho : n.kind.isClosed = false)
    (hp : n.kind ∉ [.preprocDefine, .functionDef, .enumerator]) (isDeclaration : Bool) :
    Found [n.symbol name kind (Scope.around up) isDeclaration] (n.namePlaces up) :=
  found_name h hk (isOpen_cons hup ho) _ (scopeAt_of_plain hp up).symm isDeclaration

/-- A node that is no enumeration declares symbols by names directly in it. -/
theorem ownSymbols_found (hup : ∀ m ∈ up, m.kind.isClosed = false) (hk : n.kind ≠ .enumDef) :
    Found (n.ownSymbols (Scope.around up)) (n.namePlaces up) := by
  unfold ownSymbols
  split
  case h_1 h =>
    split
    · next name hname =>
      refine found_name (functionName?_mem hname) (by rw [h]; rfl)
        (isOpen_cons hup (by rw [h]; rfl)) _ ?_ _
      rw [scopeAt, if_neg (by rw [h]; decide), addedScope, h]
    · exact .nil _
  case h_2 h | h_3 h =>
    split
    · next name hname =>
      refine found_plain hup (tagName?_mem hname) ?_ (by rw [h]; rfl) (by rw [h]; decide) _
      rw [recordKind, h]
      cases n.isUnion <;> rfl
    · exact .nil _
  case h_4 h => exact absurd h hk
  case h_5 h =>
    split
    · next name hname =>
      exact found_plain hup (firstName?_mem hname) (by rw [h]; rfl) (by rw [h]; rfl)
        (by rw [h]; decide) _
    · exact .nil _
  case h_6 h =>
    split
    · next name hname =>
      exact found_plain hup (aliasName?_mem hname) (by rw [h]; rfl) (by rw [h]; rfl)
        (by rw [h]; decide) _
    · exact .nil _
  case h_7 h =>
    split
    · next name hname =>
      have hmem : name ∈ n.names := List.mem_of_getElem? hname
      exact found_name hmem (by rw [h]; rfl) (isOpen_cons hup (by rw [h]; rfl)) _
        (by rw [scopeAt, if_pos h]) _
    · exact .nil _
  case h_8 h =>
    exact found_names (List.Sublist.refl _) (by rw [h]; rfl) (isOpen_cons hup (by rw [h]; rfl)) _
      (scopeAt_of_plain (by rw [h]; decide) up).symm _
  case h_9 => exact .nil _

theorem closingSymbols_of_ne (h : n.kind ≠ .typedefDef) (scope : Scope) :
    n.closingSymbols scope = [] := by
  unfold closingSymbols
  split
  · next hk _ => exact absurd hk h
  · rfl

theorem ownSymbols_of_typedef (h : n.kind = .typedefDef) (scope : Scope) : n.ownSymbols scope = [] := by
  rw [ownSymbols, h]

theorem closingSymbols_found (hup : ∀ m ∈ up, m.kind.isClosed = false) :
    Found (n.closingSymbols (Scope.around up)) (n.namePlaces up) := by
  unfold closingSymbols
  split
  · next name h hname =>
    have hmem : name ∈ n.names := List.mem_of_getLast? hname
    exact found_plain hup hmem (by rw [h]; rfl) (by rw [h]; rfl) (by rw [h]; decide) _
  · exact .nil _

/-! ## enumerations -/

/-- the scope of the enumerators of an enumeration -/
def innerScope (n : Node) (scope : Scope) : Scope :=
  match n.tagName? with
  | some name => if n.isScoped then scope ++ [name.text] else scope
  | none => scope

theorem enumSymbols_eq (n : Node) (scope : Scope) : n.enumSymbols scope
    = (n.tagName?.toList.map fun name =>
        n.symbol name .enumType scope (!n.hasPart .enumeratorList))
      ++ n.enumerators.filterMap fun e =>
        e.firstName?.map fun name => e.symbol name .enumerator (n.innerScope scope) false := by
  rw [enumSymbols, innerScope]
  cases n.tagName? <;> rfl

/-- the symbol of an enumerator in a list in an enumeration -/
theorem enumerator_found {list e : Node} (hup : ∀ m ∈ up, m.kind.isClosed = false)
    (hn : n.kind = .enumDef) (hl : list.kind = .enumeratorList) (he : e.kind = .enumerator) :
    Found (e.firstName?.map fun name =>
        e.symbol name .enumerator (n.innerScope (Scope.around up)) false).toList
      (e.namePlaces (list :: n :: up)) := by
  cases hname : e.firstName? with
  | none => exact .nil _
  | some name =>
    have hopen : ∀ m ∈ e :: list :: n :: up, m.kind.isClosed = false :=
      isOpen_cons (isOpen_cons (isOpen_cons hup (by rw [hn]; rfl)) (by rw [hl]; rfl))
        (by rw [he]; rfl)
    refine found_name (firstName?_mem hname) (by rw [he]; rfl) hopen _ ?_ _
    have haround : Scope.around (list :: n :: up) = Scope.around up := by
      rw [Scope.around_cons, Scope.around_cons, scopeName?, scopeName?, hl, hn]
      simp
    have hfind : (list :: n :: up).find? (·.kind = .enumDef) = some n := by simp [hl, hn]
    rw [scopeAt, if_neg (by rw [he]; decide), haround, addedScope, he]
    simp only [hfind, innerScope]
    cases n.tagName? with
    | none => simp
    | some tag => cases n.isScoped <;> simp

theorem enumerators_found (hup : ∀ m ∈ up, m.kind.isClosed = false) (hn : n.kind = .enumDef) :
    Found (n.enumerators.filterMap fun e =>
        e.firstName?.map fun name => e.symbol name .enumerator (n.innerScope (Scope.around up)) false)
      (Tree.leavesInNodes (n :: up) n.children) := by
  rw [List.filterMap_eq_flatMap_toList, enumerators, inLists, List.filter_flatMap, List.flatMap_assoc]
  refine (Found.flatMap (g := fun list => list.tree.leavesUnder (n :: up)) fun list hlist => ?_).mono
    (List.filter_sublist.flatMap _).subperm
  have hl : list.kind = .enumeratorList := by simpa using (List.mem_filter.mp hlist).2
  refine (Found.flatMap (g := fun e => e.tree.leavesUnder (list :: n :: up)) fun e he => ?_).mono
    (((List.filter_sublist.flatMap _).trans (List.sublist_append_right _ _)).subperm.trans
      (Tree.leavesUnder_perm (n :: up) list).symm.subperm)
  have hk : e.kind = .enumerator := by simpa using (List.mem_filter.mp he).2
  exact (enumerator_found hup hn hl hk).mono ((List.sublist_append_left _ _).subperm.trans
    (Tree.leavesUnder_perm (list :: n :: up) e).symm.subperm)

theorem enumSymbols_found (hup : ∀ m ∈ up, m.kind.isClosed = false) (hn : n.kind = .enumDef) :
    Found (n.enumSymbols (Scope.around up))
      (n.namePlaces up ++ Tree.leavesInNodes (n :: up) n.children) := by
  rw [enumSymbols_eq]
  refine Found.append ?_ (enumerators_found hup hn)
  cases hname : n.tagName? with
  | none => exact .nil _
  | some name =>
    exact found_plain hup (tagName?_mem hname) (by rw [hn]; rfl) (by rw [hn]; rfl) (by rw [hn]; decide) _

/-! ## what is around and inside -/

theorem around_found (standing : Standing) (hup : ∀ m ∈ up, m.kind.isClosed = false)
    (hk : n.kind ≠ .enumDef) : Found (around standing n (Scope.around up)).1 (n.namePlaces up)
      ∧ Found (around standing n (Scope.around up)).2 (n.namePlaces up)
      ∧ ((around standing n (Scope.around up)).1 = [] ∨ (around standing n (Scope.around up)).2 = []) := by
  unfold around
  split
  · next h =>
    refine ⟨?_, .nil _, .inr rfl⟩
    exact found_names (List.Sublist.refl _) (by rw [h]; rfl) (isOpen_cons hup (by rw [h]; rfl)) _
      (scopeAt_of_plain (by rw [h]; decide) up).symm _
  · exact ⟨.nil _, .nil _, .inl rfl⟩
  · exact ⟨.nil _, .nil _, .inl rfl⟩
  · exact ⟨.nil _, .nil _, .inl rfl⟩
  · refine ⟨ownSymbols_found hup hk, closingSymbols_found hup, ?_⟩
    by_cases ht : n.kind = .typedefDef
    · exact .inl (ownSymbols_of_typedef ht _)
    · exact .inr (closingSymbols_of_ne ht _)

end Node

/-- how what is in a node stands, where that is read -/
def NodeKind.standing? : NodeKind → Option Standing
  | .root | .itemList | .typedefDef => some .item
  | .fieldList => some .member
  | .structDef | .classDef => some .inRecord
  | .namespaceDef => some .inNamespace
  | .linkageSpec => some .inLinkage
  | .templateDef => some .inTemplate
  | _ => none

/-- What is read inside a node is in the scope of the node and those around it. -/
theorem inside_eq_some {standing standing' : Standing} {n : Node} {up : List Node} {scope : Scope}
    (h : inside standing n (Scope.around up) = some (standing', scope)) :
    scope = Scope.around (n :: up) ∧ n.kind.standing? = some standing'
      ∧ (n.kind = .structDef ∨ n.kind = .classDef → n.tagName?.isSome = true) := by
  have plain (hs : n.scopeName? = none) : Scope.around up = Scope.around (n :: up) := by
    rw [Scope.around_cons, hs]
    simp
  have named {name : Leaf} (hs : n.scopeName? = some name) :
      Scope.around up ++ [name.text] = Scope.around (n :: up) := by
    rw [Scope.around_cons, hs]
    rfl
  unfold inside at h
  split at h
  case h_2 | h_4 | h_6 | h_13 => cases h
  case h_1 hk | h_3 hk | h_5 hk | h_10 hk | h_11 hk | h_12 hk =>
    cases h
    exact ⟨plain (by rw [Node.scopeName?, hk]), by rw [hk]; rfl, by rw [hk]; simp⟩
  case h_7 hk | h_8 hk =>
    obtain ⟨name, hname, hs⟩ := Option.map_eq_some_iff.mp h
    cases hs
    exact ⟨named (by rw [Node.scopeName?, hk]; exact hname), by rw [hk]; rfl, fun _ => by rw [hname]; rfl⟩
  case h_9 hk =>
    split at h
    · next name hname =>
      cases h
      exact ⟨named (by rw [Node.scopeName?, hk]; exact hname), by rw [hk]; rfl, by rw [hk]; simp⟩
    · next hname =>
      cases h
      exact ⟨plain (by rw [Node.scopeName?, hk]; exact hname), by rw [hk]; rfl, by rw [hk]; simp⟩

/-! ## the walk -/

/-- the symbols of a node, from those around and inside it -/
theorem declared_node (standing : Standing) (scope : Scope) (n : Node) :
    declared standing scope n.tree = (around standing n scope).1
      ++ (inside standing n scope).elim [] (fun p => declaredIn p.1 p.2 n.children)
      ++ (around standing n scope).2 := by
  obtain ⟨kind, span, children⟩ := n
  rw [Node.tree, declared]
  rcases around standing ⟨kind, span, children⟩ scope with ⟨before, after⟩
  rcases inside standing ⟨kind, span, children⟩ scope with _ | ⟨standing, scope⟩
  · rw [Option.elim_none, List.append_nil]
  · rfl

/-- The names that a node declares itself come before or after those inside it. -/
theorem found_node {standing : Standing} {n : Node} {up : List Node} {inner : List Symbol}
    (hup : ∀ m ∈ up, m.kind.isClosed = false) (hk : n.kind ≠ .enumDef)
    (h : Found inner (Tree.leavesInNodes (n :: up) n.children)) :
    Found ((around standing n (Scope.around up)).1 ++ inner
      ++ (around standing n (Scope.around up)).2) (n.tree.leavesUnder up) := by
  obtain ⟨hbefore, hafter, hnone⟩ := n.around_found standing hup hk
  refine Found.mono ?_ (Tree.leavesUnder_perm up n).symm.subperm
  rcases hnone with hnone | hnone
  · rw [hnone, List.nil_append]
    exact (h.append hafter).mono List.perm_append_comm.subperm
  · rw [hnone, List.append_nil]
    exact hbefore.append h

theorem isClosed_of_standing {kind : NodeKind} {standing : Standing}
    (h : kind.standing? = some standing) : kind.isClosed = false := by
  cases kind <;> first | rfl | cases h

/-- An enumeration is read by itself, wherever it stands. -/
theorem found_enum {standing : Standing} {n : Node} {up : List Node}
    (hup : ∀ m ∈ up, m.kind.isClosed = false) (hk : n.kind = .enumDef) :
    Found (declared standing (Scope.around up) n.tree) (n.tree.leavesUnder up) := by
  have hnone : inside standing n (Scope.around up) = none := by
    cases standing <;> simp [inside, hk]
  have haround : around standing n (Scope.around up) = ([], [])
      ∨ around standing n (Scope.around up) = (n.enumSymbols (Scope.around up), []) := by
    have hclosing := n.closingSymbols_of_ne (by rw [hk]; decide) (Scope.around up)
    cases standing <;> simp [around, hk, Node.ownSymbols, hclosing]
  rw [declared_node, hnone, Option.elim_none, List.append_nil]
  rcases haround with h | h <;> rw [h]
  · exact .nil _
  · rw [List.append_nil]
    exact (n.enumSymbols_found hup hk).mono (Tree.leavesUnder_perm up n).symm.subperm

mutual

theorem declared_found : ∀ (standing : Standing) {up : List Node},
    (∀ m ∈ up, m.kind.isClosed = false) → ∀ t : Tree,
    Found (declared standing (Scope.around up) t) (t.leavesUnder up)
  | _, _, _, .leaf _ => by
    rw [declared]
    exact .nil _
  | standing, up, hup, .node kind span children => by
    let n : Node := ⟨kind, span, children⟩
    by_cases hk : n.kind = .enumDef
    · exact found_enum (n := n) hup hk
    · show Found (declared standing (Scope.around up) n.tree) (n.tree.leavesUnder up)
      rw [declared_node]
      refine found_node hup hk ?_
      cases h : inside standing n (Scope.around up) with
      | none => exact .nil _
      | some q =>
        obtain ⟨hscope, hs, -⟩ := inside_eq_some h
        rw [Option.elim_some, hscope]
        exact declaredIn_found q.1 (Node.isOpen_cons hup (isClosed_of_standing hs)) children

/-- The symbols among some trees come from names in the nodes of these. -/
theorem declaredIn_found : ∀ (standing : Standing) {up : List Node},
    (∀ m ∈ up, m.kind.isClosed = false) → ∀ ts : List Tree,
    Found (declaredIn standing (Scope.around up) ts) (Tree.leavesInNodes up ts)
  | _, _, _, [] => by
    rw [declaredIn]
    exact .nil _
  | standing, up, hup, .leaf l :: ts => by
    rw [declaredIn, declared, List.nil_append]
    exact declaredIn_found standing hup ts
  | standing, up, hup, .node kind span children :: ts => by
    rw [declaredIn]
    exact (declared_found standing hup (.node kind span children)).append
      (declaredIn_found standing hup ts)

end

/-- The symbols of a file come from names in its tree. -/
theorem symbols_found {root : Node} (h : root.kind = .root) :
    Found root.symbols (root.tree.leavesUnder []) := by
  have hopen : ∀ m ∈ [root], m.kind.isClosed = false := by simp [h, NodeKind.isClosed, NodeKind.isExpression]
  have haround : Scope.around [root] = [] := by
    rw [Scope.around_cons, Node.scopeName?, h]
    rfl
  have hfound := declaredIn_found .item hopen root.children
  rw [haround] at hfound
  exact hfound.mono ((List.sublist_append_right _ _).subperm.trans
    (Tree.leavesUnder_perm [] root).symm.subperm)

end CppMend
