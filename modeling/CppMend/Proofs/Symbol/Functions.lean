import CppMend.Proofs.Parsed.Lossless
import CppMend.Proofs.Lexical.Munch
import CppMend.Proofs.Symbol.Origins
import CppMend.Proofs.Tree.Placed
import CppMend.Proofs.Tree.Spans

/-!
# All symbols outside of bodies

The walk that finds the symbols of a file goes through nodes of some kinds only. By what nodes may hold,
it misses no function but those in bodies and in records without a name. And what it finds are names
outside of bodies, parameters and expressions, no two of them the same.

* `Node.isVisible`          a function with a name that is in no body and no record without a name;
* `NodeKind.isBarren`       the kinds of nodes that have functions in bodies only;
* `declaredIn_functions`    the functions among the symbols are the visible ones, in order;
* `symbols_sound_complete`  so it is with all symbols of a text.
-/

namespace CppMend

/-! ## visible functions -/

namespace Node

/-- a body, or a record for which no name is found -/
def hides (n : Node) : Bool :=
  n.kind = .block || ((n.kind = .structDef || n.kind = .classDef) && n.tagName?.isNone)

/-- a function with a name, where none of the nodes around it hides it -/
def isVisible (up : List Node) (n : Node) : Bool :=
  n.kind = .functionDef && n.functionName?.isSome && up.all (!·.hides)

/-- The node is the function that a symbol stands for. -/
structure IsFunctionOf (n : Node) (s : Symbol) : Prop where
  name : ∃ l, n.functionName? = some l ∧ s.name = l.text ∧ s.nameSpan = l.span
  span : s.span = n.span
  declaration : s.isDeclaration = true ↔ ∀ m ∈ n.nodes, m.kind ≠ .block

end Node

/-- the visible functions among some nodes -/
def visible (ps : List (List Node × Node)) : List (List Node × Node) :=
  ps.filter fun p => p.2.isVisible p.1

/-- the functions among some symbols -/
def functions (ss : List Symbol) : List Symbol := ss.filter (·.kind = .function)

theorem visible_append (ps qs : List (List Node × Node)) : visible (ps ++ qs) = visible ps ++ visible qs :=
  List.filter_append ..

theorem functions_append (ss us : List Symbol) : functions (ss ++ us) = functions ss ++ functions us :=
  List.filter_append ..

/-- What a node hides is not visible. -/
theorem visible_of_hides {up : List Node} {n : Node} (hn : n ∈ up) (h : n.hides = true) (ts : List Tree) :
    visible (Tree.nodesOfUnder up ts) = [] := by
  refine List.filter_eq_nil_iff.mpr fun p hp hv => ?_
  rw [Node.isVisible, Bool.and_eq_true, List.all_eq_true] at hv
  have hopen := hv.2 n ((Tree.suffix_of_mem_nodesOfUnder hp).mem hn)
  rw [h] at hopen
  cases hopen

/-! ## where no functions are -/

/-- the nodes that have functions in bodies only -/
def NodeKind.isBarren : NodeKind → Bool
  | .preprocInclude | .preprocDefine | .preprocDirective | .usingDef | .templateParameterList
  | .templateParameter | .fieldDef | .accessSpecifier | .enumDef | .enumeratorList | .enumerator
  | .parameterList | .parameter | .variableDef | .initializer | .typeRef | .argList => true
  | kind => kind.isExpression

theorem NodeKind.isBarren_of_holds {kind k : NodeKind} (hk : kind.isBarren = true ∨ kind = .functionDef)
    (h : kind.holds k = true) : k.isBarren = true ∨ k = .block := by
  have hall : ∀ kind ∈ all, ∀ k ∈ all, kind.isBarren = true ∨ kind = .functionDef →
      kind.holds k = true → k.isBarren = true ∨ k = .block := by
    decide
  exact hall kind (mem_all kind) k (mem_all k) hk h

/-- Each node of a tree holds what its kind may hold. -/
def Tree.Held (ns : List Node) : Prop := ∀ n ∈ ns, ∀ m ∈ n.nodes, n.kind.holds m.kind = true

mutual

theorem visible_of_barren : ∀ {up : List Node} {t : Tree}, Tree.Held t.nodes →
    (∀ m ∈ t.node?, m.kind.isBarren = true ∨ m.kind = .block) → visible (t.nodesUnder up) = []
  | _, .leaf _, _, _ => by
    rw [Tree.nodesUnder]
    rfl
  | up, .node kind span children, hh, hb => by
    have hkind := hb ⟨kind, span, children⟩ rfl
    have hself : Node.isVisible up ⟨kind, span, children⟩ = false := by
      rcases hkind with h | rfl
      · cases kind <;> first | rfl | cases h
      · rfl
    have hinner : visible (Tree.nodesOfUnder (⟨kind, span, children⟩ :: up) children) = [] := by
      rcases hkind with h | rfl
      · refine visibleOf_of_barren (fun n hn => hh n ?_) fun m hm => ?_
        · rw [Tree.nodes]
          exact List.mem_cons_of_mem _ hn
        · refine NodeKind.isBarren_of_holds (.inl h) (hh ⟨kind, span, children⟩ ?_ m hm)
          rw [Tree.nodes]
          exact List.mem_cons_self
      · exact visible_of_hides List.mem_cons_self rfl children
    rw [Tree.nodesUnder, visible, List.filter_cons_of_neg (by rw [hself]; exact Bool.false_ne_true)]
    exact hinner

/-- Among trees without functions but in bodies, there are no visible functions. -/
theorem visibleOf_of_barren : ∀ {up : List Node} {ts : List Tree}, Tree.Held (Tree.nodesOf ts) →
    (∀ m ∈ ts.filterMap Tree.node?, m.kind.isBarren = true ∨ m.kind = .block) →
    visible (Tree.nodesOfUnder up ts) = []
  | _, [], _, _ => by
    rw [Tree.nodesOfUnder]
    rfl
  | up, t :: ts, hh, hb => by
    rw [Tree.nodesOf] at hh
    rw [Tree.nodesOfUnder, visible_append,
      visible_of_barren (fun n hn => hh n (List.mem_append_left _ hn)) fun m hm =>
        hb m (List.mem_filterMap.mpr ⟨t, List.mem_cons_self, hm⟩),
      visibleOf_of_barren (fun n hn => hh n (List.mem_append_right _ hn)) fun m hm => by
        obtain ⟨u, hu, hum⟩ := List.mem_filterMap.mp hm
        exact hb m (List.mem_filterMap.mpr ⟨u, List.mem_cons_of_mem t hu, hum⟩)]
    rfl

end

/-! ## where the walk ends -/

/-- What stands so is not gone into, by its kind alone. -/
def Standing.stops : Standing → NodeKind → Bool
  | .inRecord, k => k ≠ .fieldList
  | .inNamespace, k => k ≠ .itemList
  | .inLinkage, .itemList => false
  | .inTemplate, .templateParameterList => true
  | _, .structDef | _, .classDef | _, .namespaceDef | _, .linkageSpec | _, .templateDef
  | _, .typedefDef => false
  | _, _ => true

section
variable {standing : Standing} {n : Node} {scope : Scope}

theorem stops_of_inside (h : inside standing n scope = none) :
    standing.stops n.kind = true ∨ n.hides = true := by
  unfold inside at h
  split at h
  case h_7 hk | h_8 hk =>
    right
    rw [Option.map_eq_none_iff] at h
    simp [Node.hides, hk, h]
  case h_9 => split at h <;> cases h
  case h_13 =>
    left
    unfold Standing.stops
    split <;> simp_all
  case h_2 | h_4 | h_6 =>
    left
    simp_all [Standing.stops]
  all_goals cases h

theorem barren_of_stops {kind k : NodeKind} (hs : kind.standing? = some standing)
    (hh : kind.holds k = true) (h : standing.stops k = true) : k.isBarren = true ∨ k = .functionDef := by
  have hall : ∀ kind ∈ NodeKind.all, ∀ k ∈ NodeKind.all, ∀ standing ∈ kind.standing?,
      kind.holds k = true → standing.stops k = true → k.isBarren = true ∨ k = .functionDef := by
    decide
  exact hall kind kind.mem_all k k.mem_all standing hs hh h

/-- What is not gone into has no visible functions but itself. -/
theorem visible_of_stops {up : List Node} {kind : NodeKind} (hs : kind.standing? = some standing)
    (hh : kind.holds n.kind = true) (h : inside standing n scope = none) (hn : Tree.Held n.tree.nodes) :
    visible (Tree.nodesOfUnder (n :: up) n.children) = [] := by
  rcases stops_of_inside h with hstop | hhides
  · refine visibleOf_of_barren (fun m hm => hn m ?_) fun m hm => ?_
    · exact List.mem_cons_of_mem n hm
    · exact NodeKind.isBarren_of_holds (barren_of_stops hs hh hstop) (hn n List.mem_cons_self m hm)
  · exact visible_of_hides List.mem_cons_self hhides _

/-! ## the functions among the symbols -/

theorem functions_symbol {name : Leaf} {kind : SymbolKind} (h : kind ≠ .function)
    (isDeclaration : Bool) : functions [n.symbol name kind scope isDeclaration] = [] := by
  simp [functions, Node.symbol, h]

theorem functions_symbols {names : List Leaf} {kind : SymbolKind} (h : kind ≠ .function)
    (isDeclaration : Bool) :
    functions (names.map fun name => n.symbol name kind scope isDeclaration) = [] := by
  simp [functions, Node.symbol, h]

theorem functions_enumSymbols : functions (n.enumSymbols scope) = [] := by
  rw [Node.enumSymbols_eq, functions_append, functions_symbols (by decide), List.nil_append]
  refine List.filter_eq_nil_iff.mpr fun s hs => ?_
  obtain ⟨e, -, he⟩ := List.mem_filterMap.mp hs
  obtain ⟨name, -, rfl⟩ := Option.map_eq_some_iff.mp he
  simp [Node.symbol]

/-- Only functions declare functions. -/
theorem functions_ownSymbols (h : n.kind ≠ .functionDef) : functions (n.ownSymbols scope) = [] := by
  unfold Node.ownSymbols
  split
  case h_1 hk => exact absurd hk h
  case h_2 | h_3 =>
    split
    · refine functions_symbol ?_ _
      unfold Node.recordKind
      split_ifs <;> decide
    · rfl
  case h_4 => exact functions_enumSymbols
  case h_8 => exact functions_symbols (by decide) _
  case h_9 => rfl
  all_goals
    split
    · exact functions_symbol (by decide) _
    · rfl

theorem functions_closingSymbols : functions (n.closingSymbols scope) = [] := by
  unfold Node.closingSymbols
  split
  · exact functions_symbol (by decide) _
  · rfl

theorem functions_around (standing : Standing) (scope : Scope) (h : n.kind ≠ .functionDef) :
    functions (around standing n scope).1 = [] ∧ functions (around standing n scope).2 = [] := by
  unfold around
  split
  · exact ⟨functions_symbols (by decide) _, rfl⟩
  · exact ⟨rfl, rfl⟩
  · exact ⟨rfl, rfl⟩
  · exact ⟨rfl, rfl⟩
  · exact ⟨functions_ownSymbols h, functions_closingSymbols⟩

/-- A function declares itself, if it has a name. -/
theorem functions_of_function {up : List Node} (hk : n.kind = .functionDef)
    (hup : up.all (!·.hides) = true) : List.Forall₂ (fun p s => p.2.IsFunctionOf s)
      (visible [(up, n)]) (functions (n.ownSymbols scope)) := by
  have hvisible : n.isVisible up = n.functionName?.isSome := by simp [Node.isVisible, hk, hup]
  cases hname : n.functionName? with
  | none =>
    have hv : visible [(up, n)] = [] := by simp [visible, hvisible, hname]
    rw [hv, Node.ownSymbols, hk]
    simp [hname, functions]
  | some name =>
    have hv : visible [(up, n)] = [(up, n)] := by simp [visible, hvisible, hname]
    have hs : functions (n.ownSymbols scope)
        = [n.symbol name .function (scope ++ n.qualifiers) n.isPrototype] := by
      rw [Node.ownSymbols, hk]
      simp [hname, functions, Node.symbol]
    rw [hv, hs]
    refine .cons ⟨⟨name, hname, rfl, rfl⟩, rfl, ?_⟩ .nil
    show n.isPrototype = true ↔ _
    rw [Node.isPrototype, Node.node?, Option.isNone_iff_eq_none, List.find?_eq_none]
    simp

/-- Where functions may stand, they are read. -/
theorem around_of_function {kind : NodeKind} (scope : Scope) (hs : kind.standing? = some standing)
    (hh : kind.holds n.kind = true) (hk : n.kind = .functionDef) :
    around standing n scope = (n.ownSymbols scope, []) ∧ inside standing n scope = none := by
  rw [hk] at hh
  have hclosing := n.closingSymbols_of_ne (by rw [hk]; decide) scope
  cases standing with
  | inRecord | inNamespace => cases kind <;> simp [NodeKind.standing?] at hs <;> cases hh
  | _ => simp [around, inside, hk, hclosing]

end

/-! ## the walk -/

theorem hides_eq_false {standing : Standing} {n : Node} (hs : n.kind.standing? = some standing)
    (h : n.kind = .structDef ∨ n.kind = .classDef → n.tagName?.isSome = true) : n.hides = false := by
  rw [Node.hides, Bool.or_eq_false_iff, Bool.and_eq_false_iff]
  refine ⟨decide_eq_false (fun hk => by rw [hk] at hs; cases hs), ?_⟩
  by_cases hk : n.kind = .structDef ∨ n.kind = .classDef
  · right
    rw [Option.isNone_eq_false_iff]
    exact h hk
  · left
    simpa using hk

mutual

theorem declared_functions : ∀ {standing : Standing} {up : List Node} {p : Node} {t : Tree},
    p.kind.standing? = some standing → (p :: up).all (!·.hides) = true → Tree.Held t.nodes →
    (∀ n ∈ t.node?, p.kind.holds n.kind = true) →
    List.Forall₂ (fun q s => q.2.IsFunctionOf s) (visible (t.nodesUnder (p :: up)))
      (functions (declared standing (Scope.around (p :: up)) t))
  | _, _, _, .leaf _, _, _, _, _ => by
    rw [Tree.nodesUnder, declared]
    exact .nil
  | standing, up, p, .node kind span children, hs, hup, hheld, hh => by
    let n : Node := ⟨kind, span, children⟩
    have hn : p.kind.holds n.kind = true := hh n rfl
    have hchildren : Tree.Held (Tree.nodesOf children) := fun m hm => hheld m (by
      rw [Tree.nodes]
      exact List.mem_cons_of_mem _ hm)
    have hself : ∀ m ∈ n.nodes, n.kind.holds m.kind = true := hheld n (by
      rw [Tree.nodes]
      exact List.mem_cons_self)
    show List.Forall₂ _ (visible (n.tree.nodesUnder (p :: up)))
      (functions (declared standing (Scope.around (p :: up)) n.tree))
    rw [declared_node, functions_append, functions_append, Node.tree, Tree.nodesUnder,
      ← List.singleton_append, visible_append]
    by_cases hk : n.kind = .functionDef
    · obtain ⟨haround, hinside⟩ := around_of_function (Scope.around (p :: up)) hs hn hk
      rw [haround, hinside, visible_of_stops hs hn hinside hheld]
      simpa [functions] using functions_of_function hk hup
    · have hnot : visible [(p :: up, n)] = [] := by simp [visible, Node.isVisible, hk]
      obtain ⟨hbefore, hafter⟩ := functions_around standing (Scope.around (p :: up)) hk
      rw [hnot, hbefore, hafter, List.nil_append, List.nil_append, List.append_nil]
      cases hinside : inside standing n (Scope.around (p :: up)) with
      | some q =>
        obtain ⟨hscope, hs', htag⟩ := inside_eq_some hinside
        rw [Option.elim_some, hscope]
        exact declaredIn_functions hs' (by rw [List.all_cons, hup, hides_eq_false hs' htag]; rfl)
          hchildren hself
      | none =>
        rw [visible_of_stops hs hn hinside hheld]
        exact .nil

/-- The functions among the symbols of some trees are the visible ones, in order. -/
theorem declaredIn_functions : ∀ {standing : Standing} {up : List Node} {p : Node} {ts : List Tree},
    p.kind.standing? = some standing → (p :: up).all (!·.hides) = true →
    Tree.Held (Tree.nodesOf ts) → (∀ n ∈ ts.filterMap Tree.node?, p.kind.holds n.kind = true) →
    List.Forall₂ (fun q s => q.2.IsFunctionOf s) (visible (Tree.nodesOfUnder (p :: up) ts))
      (functions (declaredIn standing (Scope.around (p :: up)) ts))
  | _, _, _, [], _, _, _, _ => by
    rw [Tree.nodesOfUnder, declaredIn]
    exact .nil
  | standing, up, p, t :: ts, hs, hup, hheld, hh => by
    rw [Tree.nodesOf] at hheld
    rw [Tree.nodesOfUnder, declaredIn, visible_append, functions_append]
    refine List.rel_append (declared_functions hs hup (fun n hn =>
      hheld n (List.mem_append_left _ hn)) fun n hn => hh n ?_) (declaredIn_functions hs hup (fun n hn =>
      hheld n (List.mem_append_right _ hn)) fun n hn => hh n ?_)
    · exact List.mem_filterMap.mpr ⟨t, List.mem_cons_self, hn⟩
    · obtain ⟨u, hu, hun⟩ := List.mem_filterMap.mp hn
      exact List.mem_filterMap.mpr ⟨u, List.mem_cons_of_mem t hu, hun⟩

end

/-! ## tokens apart -/

/-- Tokens that are not empty stand at different places. -/
theorem Leaf.nodup_spans_row {ts : List Token} (h : ∀ t ∈ ts, t.text ≠ []) (offset : Nat) :
    ((row offset ts).map span).Nodup := by
  induction ts generalizing offset with
  | nil => exact List.nodup_nil
  | cons t ts ih =>
    rw [row, List.map_cons, List.nodup_cons]
    refine ⟨fun hm => ?_, ih (fun u hu => h u (List.mem_cons_of_mem t hu)) _⟩
    obtain ⟨l, hl, hs⟩ := List.mem_map.mp hm
    have hstart := start_of_mem_row hl
    have heq : l.start = offset := congrArg Span.start hs
    have hsize : t.text.byteSize ≠ 0 := fun h0 =>
      h t List.mem_cons_self (Text.eq_nil_of_byteSize_eq_zero h0)
    omega

theorem scan_text_ne_nil {text : Text} {t : Token} (h : t ∈ scan text) : t.text ≠ [] := by
  obtain ⟨before, after, hs⟩ := List.append_of_mem h
  exact (scan_head (scan_split hs)).1

/-! ## the symbols of a text -/

section
variable (source : Text)

/-- No two leaves stand at the same place. -/
theorem nodup_leafSpans :
    (((parse source).root.tree.leavesUnder []).map fun p => p.2.span).Nodup := by
  rw [← Function.comp_def Leaf.span, ← List.map_map, Tree.leavesUnder_snd]
  show ((parse source).root.leaves.map Leaf.span).Nodup
  rw [parse_leaves]
  exact Leaf.nodup_spans_row (fun _ => scan_text_ne_nil) 0

/-- No two symbols come from the same name. -/
theorem nodup_nameSpans : ((parse source).root.symbols.map (·.nameSpan)).Nodup := by
  have hroot : (parse source).root.kind = .root := rfl
  obtain ⟨os, ho, hsub⟩ := symbols_found hroot
  obtain ⟨ls, hperm, hls⟩ := hsub
  rw [Origin.map_nameSpan ho, show os.map (·.name.span) = (os.map Origin.place).map fun p => p.2.span by
    rw [List.map_map]
    rfl]
  exact (hperm.map _).nodup_iff.mp ((hls.map _).nodup (nodup_leafSpans source))

/-- A symbol lies where its node does, and its name is a token in there. -/
theorem exists_name_of_symbol {s : Symbol} (h : s ∈ (parse source).root.symbols) :
    ∃ (o : Origin), o.Declares s ∧ (o.up, o.node) ∈ (parse source).root.tree.nodesUnder []
      ∧ o.place ∈ (parse source).root.tree.leavesUnder [] := by
  have hroot : (parse source).root.kind = .root := rfl
  obtain ⟨os, ho, hsub⟩ := symbols_found hroot
  obtain ⟨o, hm, hd⟩ := exists_left_of_mem ho h
  have hplace := hsub.subset (List.mem_map_of_mem hm)
  refine ⟨o, hd, ?_, hplace⟩
  rcases Tree.mem_nodesUnder_of_leaf hplace with hnil | hnode
  · cases hnil
  · exact hnode

theorem visible_functions : List.Forall₂ (fun p s => p.2.IsFunctionOf s)
    (visible ((parse source).root.tree.nodesUnder [])) (functions (parse source).root.symbols) := by
  let root : Node := (parse source).root
  have hheld : Tree.Held root.descendants := fun n hn m hm => rootOf_holds hn hm
  have haround : Scope.around [root] = [] := rfl
  have hroot : visible [([], root)] = [] := rfl
  have hwalk : List.Forall₂ (fun p s => p.2.IsFunctionOf s)
      (visible (Tree.nodesOfUnder [root] root.children))
      (functions (declaredIn .item (Scope.around [root]) root.children)) :=
    declaredIn_functions rfl rfl (fun n hn => hheld n (List.mem_cons_of_mem _ hn))
      (fun m hm => hheld root List.mem_cons_self m hm)
  rw [haround] at hwalk
  show List.Forall₂ _ (visible ([([], root)] ++ Tree.nodesOfUnder [root] root.children)) _
  rw [visible_append, hroot]
  exact hwalk

end

/-- The symbols of any text are sound and complete outside of bodies. The name of each is a name of the
text that lies in the span of the symbol, in no body, no parameters and no expression, and no two
symbols have it. The functions among the symbols are the functions of the tree that have a name and are
in no body and in no record without a name, in order, and those without a body are declarations. -/
theorem symbols_sound_complete (source : Text) :
    (∀ s ∈ (parse source).root.symbols, ∃ above l,
        (above, l) ∈ (parse source).root.tree.leavesUnder [] ∧ l ∈ (parse source).tokens
          ∧ l.kind = .ident ∧ l.text = s.name ∧ l.span = s.nameSpan
          ∧ s.span.start ≤ l.span.start ∧ l.span.stop ≤ s.span.stop
          ∧ ∀ m ∈ above, m.kind ≠ .block ∧ m.kind ≠ .parameterList ∧ m.kind.isExpression = false)
      ∧ ((parse source).root.symbols.map (·.nameSpan)).Nodup
      ∧ List.Forall₂ (fun p s => p.2.IsFunctionOf s)
          (((parse source).root.tree.nodesUnder []).filter fun p => p.2.isVisible p.1)
          ((parse source).root.symbols.filter (·.kind = .function)) := by
  refine ⟨fun s hs => ?_, nodup_nameSpans source, visible_functions source⟩
  obtain ⟨o, hd, hnode, hplace⟩ := exists_name_of_symbol source hs
  have hleaf : o.name ∈ (parse source).root.leaves := by
    show _ ∈ (parse source).root.tree.leaves
    rw [← Tree.leavesUnder_snd []]
    exact List.mem_map_of_mem (f := Prod.snd) hplace
  have hdescendant : o.node ∈ (parse source).root.descendants := by
    show _ ∈ (parse source).root.tree.nodes
    rw [← Tree.nodesUnder_snd []]
    exact List.mem_map_of_mem (f := Prod.snd) hnode
  obtain ⟨size, hspans⟩ := rootOf_spans (scan source)
  have hlies := Tree.lies_of_mem_nodes hspans hdescendant
  have hdirect : o.name ∈ Tree.leavesOf o.node.children := by
    have hm := (Tree.leavesOfUnder_perm [] o.node.children).mem_iff.mpr
      (List.mem_append_left _ (List.mem_map_of_mem hd.direct))
    rw [← Tree.leavesOfUnder_snd []]
    exact List.mem_map_of_mem (f := Prod.snd) hm
  have hwithin := Tree.span_of_mem_leavesOf hlies.tile hdirect
  refine ⟨o.node :: o.up, o.name, hplace, List.mem_filter.mpr ⟨hleaf, ?_⟩, hd.isIdent, hd.name.symm,
    hd.nameSpan.symm, by rw [hd.span]; exact hwithin.1, by rw [hd.span]; exact hwithin.2, fun m hm => ?_⟩
  · rw [Leaf.isTrivia, hd.isIdent]
    rfl
  · simpa [NodeKind.isClosed, and_assoc] using hd.isOpen m hm

/-- Of two functions, one is in a record without a name. -/
theorem symbols_of_hidden :
    (((parse "struct \x7bint f();\x7d; int g();".toList).root.tree.nodesUnder []).filter
      fun p => p.2.isVisible p.1).length = 1 := by
  have h : ((parse "struct \x7bint f();\x7d; int g();".toList).root.symbols.filter
      (·.kind = .function)).length = 1 := by
    decide +kernel
  exact (symbols_sound_complete _).2.2.length_eq.trans h

end CppMend
