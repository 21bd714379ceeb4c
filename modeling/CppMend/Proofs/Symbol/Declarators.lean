import CppMend.Proofs.Parsed.Declarators
import CppMend.Proofs.Symbol.Listing

/-!
# The names that declarators declare

Extents of arrays and template arguments lie beside the names of their declarator, with nothing around
them. So a variable, a field or a declaration in a body declares all names that are in its brackets with
those of its declarators, and a function is called by a name in brackets if that is the last one before its
parameters. No other name in brackets is declared.

* `Node.Brackets`          a token in the brackets of a declarator;
* `Node.declaredSymbol`    the entry of a declared name;
* `declared_names`         the names and the entries of a node that declares names;
* `not_all_names_unbracketed`   they may be in brackets.
-/

namespace CppMend

open Lookahead (Bracket)
open Tree.Shape (row)

namespace Node

/-- The token is between the brackets of an extent or of template arguments of a declarator. -/
def Brackets (n : Node) (l : Leaf) : Prop := ∃ ps, n.IsMadeOf ps ∧ ∃ p ∈ ps, p.Encloses l

/-- the entry of a name that a node declares -/
def declaredSymbol (n : Node) (scope : Scope) (name : Leaf) : Symbol :=
  match n.kind with
  | .functionDef => n.symbol name .function (scope ++ n.qualifiers) n.isPrototype
  | .fieldDef => n.symbol name .field scope false
  | _ => n.symbol name .object scope n.isExternal

theorem declaredSymbol_nameSpan (n : Node) (scope : Scope) (name : Leaf) :
    (n.declaredSymbol scope name).nameSpan = name.span := by
  unfold declaredSymbol
  split <;> rfl

theorem mem_names_of_declaredNames {n : Node} {l : Leaf} (h : l ∈ n.declaredNames) : l ∈ n.names := by
  rw [declaredNames] at h
  split at h
  · exact functionName?_mem (Option.mem_toList.mp h)
  · exact h

theorem mem_tokens_of_declaredNames {n : Node} {l : Leaf} (h : l ∈ n.declaredNames) : l ∈ n.tokens :=
  List.mem_of_mem_filter (mem_names_of_declaredNames h)

/-- A node has an entry for each name that it declares; in a body there are none. -/
theorem listed_declared {n : Node} (scope : Scope) (h : n.kind.hasDeclarators = true) : n.listed scope
    = if n.kind = .declStmt then [] else n.declaredNames.map (n.declaredSymbol scope) := by
  have hclosing := n.closingSymbols_of_ne (fun hk => by rw [hk] at h; cases h) scope
  rw [listed, hclosing, List.append_nil]
  unfold declaredNames declaredSymbol ownSymbols
  cases hk : n.kind <;> rw [hk] at h <;> cases h
  case functionDef => cases n.functionName? <;> rfl
  all_goals rfl

theorem IsMadeOf.mem_tokens {n : Node} {ps : List Piece} {p : Piece} {l : Leaf} (h : n.IsMadeOf ps)
    (hp : p ∈ ps) (hl : l ∈ p.tokens) : l ∈ n.tokens := by
  obtain ⟨front, back, h⟩ := h
  obtain ⟨t, ht, hleaf⟩ := List.mem_filterMap.mp hl
  have hpart : t ∈ n.parts := by
    rw [h.parts]
    exact List.mem_append_right _ (List.mem_append_left _ (List.mem_flatMap.mpr ⟨p, hp, ht⟩))
  exact List.mem_filterMap.mpr ⟨t, List.mem_of_mem_filter hpart, hleaf⟩

/-- The names of a node are those in its pieces, so a name in brackets is among them. -/
theorem IsMadeOf.mem_names {n : Node} {ps : List Piece} {l : Leaf} (h : n.IsMadeOf ps) (hl : n.Brackets l)
    (hk : l.kind = .ident) : l ∈ ps.flatMap Piece.names := by
  obtain ⟨qs, hqs, p, hp, hencloses⟩ := hl
  obtain rfl := h.unique hqs
  exact List.mem_flatMap.mpr ⟨p, hp, List.mem_filter.mpr ⟨hencloses.mem, decide_eq_true hk⟩⟩

/-- Which names in brackets a node declares. -/
theorem IsMadeOf.mem_declaredNames {n : Node} {ps : List Piece} {l : Leaf} (h : n.IsMadeOf ps)
    (hl : n.Brackets l) : l ∈ n.declaredNames ↔ l.kind = .ident
      ∧ (n.kind = .functionDef → (ps.flatMap Piece.names).getLast? = some l) := by
  constructor
  · intro hname
    refine ⟨of_decide_eq_true (List.mem_filter.mp (mem_names_of_declaredNames hname)).2, fun hk => ?_⟩
    rw [h.declaredNames_eq, if_pos hk] at hname
    exact Option.mem_toList.mp hname
  · rintro ⟨hident, hlast⟩
    rw [h.declaredNames_eq]
    split
    · next hk => exact Option.mem_toList.mpr (hlast hk)
    · exact h.mem_names hl hident

end Node

/-! ## an extent -/

/-- Trees are tokens of some kinds just where their shapes are a row of these. -/
theorem shapes_eq_row {ts : List Tree} {ks : List TokenKind} :
    ts.map Tree.shape = row ks ↔ ts.map (fun t => t.leaf?.map (·.kind)) = ks.map some := by
  induction ts generalizing ks with
  | nil => cases ks <;> simp [row]
  | cons t ts ih =>
    cases ks with
    | nil => simp [row]
    | cons k ks =>
      have hrow : row (k :: ks) = .leaf k :: row ks := rfl
      rw [List.map_cons, List.map_cons, List.map_cons, hrow, List.cons_eq_cons, List.cons_eq_cons, ih]
      cases t <;> simp [Tree.shape, Tree.leaf?]

/-- The names in a shut extent are in brackets. -/
theorem Node.IsMadeOf.exists_bracketed {n : Node} {ps : List Piece} {ks : List TokenKind} (h : n.IsMadeOf ps)
    (hp : .extent ks ∈ ps.map Piece.part) (hshut : Bracket.square.isShut ks = true) (hk : .ident ∈ ks) :
    ∃ l, n.Brackets l ∧ l.kind = .ident := by
  obtain ⟨p, hp, hpart⟩ := List.mem_map.mp hp
  obtain ⟨front, back, hsplit⟩ := id h
  have hkinds : p.tokens.map (·.kind) = ks := by
    rw [Piece.tokens, ← Tree.Shape.filterMap_shapes, hsplit.shapes p hp, hpart]
    exact Tree.Shape.filterMap_row ks
  rw [← hkinds] at hk
  obtain ⟨l, hl, hident⟩ := List.mem_map.mp hk
  refine ⟨l, ⟨ps, h, p, hp, ?_⟩, hident⟩
  rw [Piece.Encloses, hpart]
  exact ⟨hshut, hl⟩

/-- In an array extent, there may be a name. -/
theorem exists_name_in_extent : ∃ p ∈ (parse "int a[N];".toList).root.tree.nodesUnder [],
    p.2.kind = .variableDef ∧ (∀ m ∈ p.1, m.hides = false) ∧ ∃ l, p.2.Brackets l ∧ l.kind = .ident := by
  have hn : ∃ p ∈ (parse "int a[N];".toList).root.tree.nodesUnder [], p.2.kind = .variableDef
      ∧ (∀ m ∈ p.1, m.hides = false) ∧ (p.2.parts.head?.bind Tree.node?).map (·.kind) = some .typeRef
      ∧ p.2.parts.tail.map (fun t => t.leaf?.map (·.kind))
        = [TokenKind.ident, .lBracket, .ident, .rBracket, .semicolon].map some := by
    decide +kernel
  obtain ⟨⟨up, n⟩, hp, hk, hopen, hfirst, hrest⟩ := hn
  obtain ⟨type, htype, hkind⟩ := Option.map_eq_some_iff.mp hfirst
  obtain ⟨t, ht, hnode⟩ := Option.bind_eq_some_iff.mp htype
  obtain ⟨ts, hts⟩ := List.head?_eq_some_iff.mp ht
  rw [hts, List.tail_cons] at hrest
  let ks : List TokenKind := [.lBracket, .ident, .rBracket]
  let ps : List Part := [.word .ident, .extent ks, .rest .semicolon []]
  have hshapes : n.parts.map Tree.shape = [t.shape] ++ (ps.flatMap Part.shapes ++ []) := by
    rw [hts, List.map_cons, shapes_eq_row.mpr hrest]
    rfl
  have hpath : Part.Path .file none ps := by
    refine ⟨⟨List.mem_cons_self, nofun, rfl, rfl⟩, ⟨⟨rfl, rfl⟩, ?_, rfl, rfl⟩, ⟨trivial, ?_, rfl, rfl⟩, trivial⟩
    all_goals
      rintro p ⟨⟩
      rfl
  have hdeclares : Declaring n.kind [t.shape] ps [] := by
    rw [hk]
    refine ⟨hpath, .inl ?_, rfl⟩
    cases t with
    | leaf => cases hnode
    | node kind span children =>
      cases hnode
      cases hkind
      exact ⟨Tree.shapesOf children, rfl⟩
  obtain ⟨qs, hqs, hparts⟩ := Node.exists_isMadeOf hshapes hdeclares
  have hextent : .extent ks ∈ qs.map Piece.part := by
    rw [hparts]
    exact List.mem_cons_of_mem _ List.mem_cons_self
  exact ⟨(up, n), hp, hk, hopen, hqs.exists_bracketed hextent rfl (List.mem_cons_of_mem _ List.mem_cons_self)⟩

/-! ## the entries -/

section
variable {source : Text} {up : List Node} {n : Node}

/-- The entries with names from a node that declares names are those of the names it declares. -/
theorem entry_iff_declared (hn : (up, n) ∈ (parse source).root.tree.nodesUnder [])
    (hk : n.kind.hasDeclarators = true) (s : Symbol) :
    (s ∈ (parse source).root.symbols ∧ ∃ l ∈ n.tokens, s.nameSpan = l.span)
      ↔ n.kind ≠ .declStmt ∧ (∀ m ∈ up, m.hides = false)
        ∧ ∃ l ∈ n.declaredNames, s = n.declaredSymbol (Scope.around up) l := by
  constructor
  · rintro ⟨hs, l, hl, hspan⟩
    obtain ⟨above, m, hm, hopen, hlisted⟩ := mem_symbols_iff.mp hs
    -- the name is in a declarator, so it is not that of an enumerator
    rcases m.name_of_mem_listed hlisted with ⟨k, hkm, hkspan⟩ | ⟨list, hlist, hlk, e, he, k, hke, hkspan⟩
    · obtain ⟨rfl, rfl, -⟩ := eq_of_nameSpan hm hn (List.mem_of_mem_filter hkm) hl (hkspan.symm.trans hspan)
      rw [Node.listed_declared _ hk] at hlisted
      split at hlisted
      · cases hlisted
      · next hne =>
        obtain ⟨name, hname, rfl⟩ := List.mem_map.mp hlisted
        exact ⟨hne, hopen, name, hname, rfl⟩
    · have hplace := Tree.mem_nodesUnder_of_child hm hlist
      obtain ⟨-, rfl, -⟩ := eq_of_nameSpan (Tree.mem_nodesUnder_of_child hplace he) hn
        (List.mem_of_mem_filter hke) hl (hkspan.symm.trans hspan)
      have hheld := rootOf_holds (mem_descendants_of_nodesUnder hplace) he
      rw [hlk] at hheld
      exfalso
      revert hk hheld
      cases e.kind <;> decide
  · rintro ⟨hne, hopen, name, hname, rfl⟩
    refine ⟨mem_symbols_iff.mpr ⟨up, n, hn, hopen, ?_⟩, name, Node.mem_tokens_of_declaredNames hname,
      n.declaredSymbol_nameSpan _ name⟩
    rw [Node.listed_declared _ hk, if_neg hne]
    exact List.mem_map_of_mem hname

end

/-- A node that declares names is made of pieces in one way. Its names are those in the pieces, or the last
of them where it is a function, and the entries with names from it are those of its names. So a name in
brackets is declared unless it stands before the name of a function; and no name of the node is in
brackets, and no entry has such a name, just where it is not in brackets what is declared. -/
theorem declared_names (source : Text) {up : List Node} {n : Node}
    (hn : (up, n) ∈ (parse source).root.tree.nodesUnder []) (hk : n.kind.hasDeclarators = true) :
    ∃ ps, n.IsMadeOf ps ∧ (∀ qs, n.IsMadeOf qs → qs = ps)
      ∧ n.declaredNames = (if n.kind = .functionDef then ((ps.flatMap Piece.names).getLast?).toList
        else ps.flatMap Piece.names)
      ∧ (∀ s, (s ∈ (parse source).root.symbols ∧ ∃ l ∈ n.tokens, s.nameSpan = l.span)
        ↔ n.kind ≠ .declStmt ∧ (∀ m ∈ up, m.hides = false)
          ∧ ∃ l ∈ n.declaredNames, s = n.declaredSymbol (Scope.around up) l)
      ∧ (∀ l, n.Brackets l → (l ∈ n.declaredNames ↔ l.kind = .ident
        ∧ (n.kind = .functionDef → (ps.flatMap Piece.names).getLast? = some l)))
      ∧ ((∀ l, n.Brackets l → l ∉ n.declaredNames ∧ ∀ s ∈ (parse source).root.symbols, s.nameSpan ≠ l.span)
        ↔ ∀ p ∈ ps, ∀ l, p.Encloses l → l.kind = .ident →
          n.kind = .functionDef ∧ (ps.flatMap Piece.names).getLast? ≠ some l) := by
  obtain ⟨ps, hps⟩ := exists_pieces (mem_descendants_of_nodesUnder hn) hk
  have hentry := entry_iff_declared hn hk
  refine ⟨ps, hps, fun qs hqs => hqs.unique hps, hps.declaredNames_eq, hentry,
    fun l hl => hps.mem_declaredNames hl, fun hnone p hp l hl hident => ?_, fun hnone l hl => ?_⟩
  · have hbrackets : n.Brackets l := ⟨ps, hps, p, hp, hl⟩
    have hundeclared := (hnone l hbrackets).1
    rw [hps.mem_declaredNames hbrackets] at hundeclared
    simpa [hident] using hundeclared
  · obtain ⟨qs, hqs, p, hp, hencloses⟩ := id hl
    obtain rfl := hqs.unique hps
    have hundeclared : l ∉ n.declaredNames := by
      rw [hps.mem_declaredNames hl]
      rintro ⟨hident, hlast⟩
      obtain ⟨hfunction, hne⟩ := hnone p hp l hencloses hident
      exact hne (hlast hfunction)
    refine ⟨hundeclared, fun s hs hspan => hundeclared ?_⟩
    have htoken : l ∈ n.tokens := hps.mem_tokens hp hencloses.mem
    obtain ⟨-, -, name, hname, rfl⟩ := (hentry s).mp ⟨hs, l, htoken, hspan⟩
    rw [n.declaredSymbol_nameSpan] at hspan
    obtain ⟨-, -, rfl⟩ := eq_of_nameSpan hn hn (Node.mem_tokens_of_declaredNames hname) htoken hspan
    exact hname

/-- the extent of an array, which is declared with the array -/
theorem declared_names_of_extent : ∃ p ∈ (parse "int a[N];".toList).root.tree.nodesUnder [],
    ∃ l, p.2.Brackets l ∧ l ∈ p.2.declaredNames
      ∧ ∃ s ∈ (parse "int a[N];".toList).root.symbols, s.nameSpan = l.span := by
  obtain ⟨⟨up, n⟩, hn, hk, hopen, l, hl, hident⟩ := exists_name_in_extent
  obtain ⟨ps, -, -, -, hentry, hbrackets, -⟩ := declared_names "int a[N];".toList hn (by rw [hk]; rfl)
  have hname : l ∈ n.declaredNames := (hbrackets l hl).mpr ⟨hident, fun hf => by rw [hk] at hf; cases hf⟩
  obtain ⟨hs, -⟩ := (hentry _).mpr ⟨by rw [hk]; decide, hopen, l, hname, rfl⟩
  exact ⟨(up, n), hn, l, hl, hname, _, hs, n.declaredSymbol_nameSpan _ l⟩

/-- Not all declared names are outside of the brackets. -/
theorem not_all_names_unbracketed : ¬∀ source, ∀ p ∈ (parse source).root.tree.nodesUnder [],
    p.2.kind.hasDeclarators = true → ∀ l ∈ p.2.declaredNames, ¬p.2.Brackets l := by
  intro h
  obtain ⟨⟨up, n⟩, hn, hk, -, l, hl, hident⟩ := exists_name_in_extent
  have hdeclares : n.kind.hasDeclarators = true := by rw [hk]; rfl
  obtain ⟨ps, hps⟩ := exists_pieces (mem_descendants_of_nodesUnder hn) hdeclares
  have hname : l ∈ n.declaredNames := by
    rw [hps.mem_declaredNames hl]
    exact ⟨hident, fun hf => by rw [hk] at hf; cases hf⟩
  exact h _ _ hn hdeclares l hname hl

end CppMend
