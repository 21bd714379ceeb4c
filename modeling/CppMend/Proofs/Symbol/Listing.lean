import CppMend.Proofs.Symbol.Functions

/-!
# Symbols, node by node

The walk that finds the symbols of a file comes to each node that is in no body and in no record without
a name, and to no other node that declares something. So the symbols of a text are just what these nodes
declare.

* `Node.listed`       the symbols that a node declares, where it stands as it may;
* `listing`           those of some nodes, without what is hidden;
* `symbols_listing`   the symbols of a text are those of the nodes of its tree;
* `mem_symbols_iff`   so each of them is known from its node;
* `exists_open_origin`   and its name is in no body and in no record without a name.
-/

namespace CppMend

/-- the symbols that a node declares itself -/
def Node.listed (n : Node) (scope : Scope) : List Symbol :=
  (if n.kind = .fieldDef then n.names.map fun name => n.symbol name .field scope false
    else n.ownSymbols scope) ++ n.closingSymbols scope

/-- The symbols that some nodes declare, where nothing around them is a body or a record without a name. -/
def listing (ps : List (List Node × Node)) : List Symbol :=
  ps.flatMap fun p => if p.1.all (!·.hides) then p.2.listed (Scope.around p.1) else []

theorem listing_append (ps qs : List (List Node × Node)) : listing (ps ++ qs) = listing ps ++ listing qs :=
  List.flatMap_append

theorem listing_of_hides {up : List Node} {n : Node} (hn : n ∈ up) (h : n.hides = true)
    (ts : List Tree) : listing (Tree.nodesOfUnder up ts) = [] := by
  refine List.flatMap_eq_nil_iff.mpr fun p hp => if_neg fun hall => ?_
  have hopen := List.all_eq_true.mp hall n ((Tree.suffix_of_mem_nodesOfUnder hp).mem hn)
  rw [h] at hopen
  cases hopen

/-! ## where nothing is declared -/

/-- parts of declarations and expressions, which declare nothing -/
def NodeKind.isSilent : NodeKind → Bool
  | .templateParameter | .enumeratorList | .enumerator | .parameterList | .parameter | .initializer
  | .typeRef | .argList => true
  | kind => kind.isExpression

theorem NodeKind.isSilent_of_held {kind k : NodeKind} (hk : kind.isBarren = true ∨ kind = .functionDef)
    (h : kind.holds k = true) : k.isSilent = true ∧ k.isBarren = true ∨ k = .block := by
  have hall : ∀ kind ∈ all, ∀ k ∈ all, kind.isBarren = true ∨ kind = .functionDef →
      kind.holds k = true → k.isSilent = true ∧ k.isBarren = true ∨ k = .block := by
    decide
  exact hall kind (mem_all kind) k (mem_all k) hk h

theorem Node.listed_of_silent {n : Node} (h : n.kind.isSilent = true ∨ n.kind = .block) (scope : Scope) :
    n.listed scope = [] := by
  have hkinds : n.kind ∉ [.functionDef, .structDef, .classDef, .enumDef, .namespaceDef, .usingDef,
      .preprocDefine, .variableDef, .fieldDef, .typedefDef] := by
    rcases h with h | h
    · intro hm
      revert h hm
      cases n.kind <;> decide
    · rw [h]
      decide
  have hown : n.ownSymbols scope = [] := by
    unfold ownSymbols
    split <;> simp_all
  have hclosing : n.closingSymbols scope = [] := n.closingSymbols_of_ne (fun hk => hkinds (by simp [hk])) scope
  rw [listed, if_neg (fun hk => hkinds (by simp [hk])), hown, hclosing]
  rfl

mutual

theorem listing_of_silent : ∀ {up : List Node} {t : Tree}, Tree.Held t.nodes →
    (∀ m ∈ t.node?, m.kind.isSilent = true ∧ m.kind.isBarren = true ∨ m.kind = .block) →
    listing (t.nodesUnder up) = []
  | _, .leaf _, _, _ => by
    rw [Tree.nodesUnder]
    rfl
  | up, .node kind span children, hh, hb => by
    let n : Node := ⟨kind, span, children⟩
    have hkind := hb n rfl
    have hself : n.listed (Scope.around up) = [] := Node.listed_of_silent (hkind.imp_left And.left) _
    have hinner : listing (Tree.nodesOfUnder (n :: up) children) = [] := by
      rcases hkind with h | h
      · refine listingOf_of_silent (fun m hm => hh m ?_) fun m hm => ?_
        · rw [Tree.nodes]
          exact List.mem_cons_of_mem _ hm
        · refine NodeKind.isSilent_of_held (.inl h.2) (hh n ?_ m hm)
          rw [Tree.nodes]
          exact List.mem_cons_self
      · exact listing_of_hides List.mem_cons_self (by rw [Node.hides, h]; rfl) children
    rw [Tree.nodesUnder, listing, List.flatMap_cons, hself, ite_self]
    exact hinner

/-- Among trees that declare nothing but in bodies, there is nothing to be listed. -/
theorem listingOf_of_silent : ∀ {up : List Node} {ts : List Tree}, Tree.Held (Tree.nodesOf ts) →
    (∀ m ∈ ts.filterMap Tree.node?,
      m.kind.isSilent = true ∧ m.kind.isBarren = true ∨ m.kind = .block) →
    listing (Tree.nodesOfUnder up ts) = []
  | _, [], _, _ => by
    rw [Tree.nodesOfUnder]
    rfl
  | up, t :: ts, hh, hb => by
    rw [Tree.nodesOf] at hh
    rw [Tree.nodesOfUnder, listing_append,
      listing_of_silent (fun n hn => hh n (List.mem_append_left _ hn)) fun m hm =>
        hb m (List.mem_filterMap.mpr ⟨t, List.mem_cons_self, hm⟩),
      listingOf_of_silent (fun n hn => hh n (List.mem_append_right _ hn)) fun m hm => by
        obtain ⟨u, hu, hum⟩ := List.mem_filterMap.mp hm
        exact hb m (List.mem_filterMap.mpr ⟨u, List.mem_cons_of_mem t hu, hum⟩)]
    rfl

end

section
variable {standing : Standing} {n : Node} {scope : Scope}

/-- What is not gone into declares nothing that can be seen but itself. -/
theorem listing_of_stops {up : List Node} {kind : NodeKind} (hs : kind.standing? = some standing)
    (hh : kind.holds n.kind = true) (h : inside standing n scope = none) (hn : Tree.Held n.tree.nodes) :
    listing (Tree.nodesOfUnder (n :: up) n.children) = [] := by
  rcases stops_of_inside h with hstop | hhides
  · refine listingOf_of_silent (fun m hm => hn m ?_) fun m hm => ?_
    · exact List.mem_cons_of_mem n hm
    · exact NodeKind.isSilent_of_held (barren_of_stops hs hh hstop) (hn n List.mem_cons_self m hm)
  · exact listing_of_hides List.mem_cons_self hhides _

/-- Where a node may stand, it declares what is listed for it: fields stand in lists of members only, and
where nothing is read of a node, there is nothing to be listed for it. -/
theorem around_listed {kind : NodeKind} (hs : kind.standing? = some standing)
    (hh : kind.holds n.kind = true) :
    (around standing n scope).1 ++ (around standing n scope).2 = n.listed scope := by
  have listless {k : NodeKind} (hk : n.kind = k) (h : k = .fieldList ∨ k = .itemList
      ∨ k = .templateParameterList) : [] = n.listed scope := by
    have hfield : n.kind ≠ .fieldDef := by rw [hk]; rintro rfl; simp at h
    have hclosing := n.closingSymbols_of_ne (by rw [hk]; rintro rfl; simp at h) scope
    have hown : n.ownSymbols scope = [] := by
      rw [Node.ownSymbols, hk]
      rcases h with rfl | rfl | rfl <;> rfl
    rw [Node.listed, if_neg hfield, hown, hclosing]
    rfl
  unfold around
  split
  case h_1 hk =>
    rw [Node.listed, if_pos hk, n.closingSymbols_of_ne (by rw [hk]; decide) scope]
  case h_2 =>
    have hfields : n.kind = .fieldList := by
      cases kind <;> simp [NodeKind.standing?] at hs <;> simpa [NodeKind.holds] using hh
    exact listless hfields (.inl rfl)
  case h_3 =>
    have hitems : n.kind = .itemList := by
      cases kind <;> simp [NodeKind.standing?] at hs
      simpa [NodeKind.holds] using hh
    exact listless hitems (.inr (.inl rfl))
  case h_4 hk => exact listless hk (.inr (.inr rfl))
  case h_5 hmember _ =>
    have hfield : n.kind ≠ .fieldDef := by
      intro hk
      rw [hk] at hh
      cases kind <;> simp [NodeKind.standing?] at hs <;> first | exact hmember hs.symm hk | cases hh
    rw [Node.listed, if_neg hfield]

end

/-! ## the walk -/

mutual

theorem declared_listing : ∀ {standing : Standing} {up : List Node} {p : Node} {t : Tree},
    p.kind.standing? = some standing → (p :: up).all (!·.hides) = true → Tree.Held t.nodes →
    (∀ n ∈ t.node?, p.kind.holds n.kind = true) →
    (declared standing (Scope.around (p :: up)) t).Perm (listing (t.nodesUnder (p :: up)))
  | _, _, _, .leaf _, _, _, _, _ => by
    rw [Tree.nodesUnder, declared]
    exact .refl _
  | standing, up, p, .node kind span children, hs, hup, hheld, hh => by
    let n : Node := ⟨kind, span, children⟩
    have hn : p.kind.holds n.kind = true := hh n rfl
    have hchildren : Tree.Held (Tree.nodesOf children) := fun m hm => hheld m (by
      rw [Tree.nodes]
      exact List.mem_cons_of_mem _ hm)
    have hself : ∀ m ∈ n.nodes, n.kind.holds m.kind = true := hheld n (by
      rw [Tree.nodes]
      exact List.mem_cons_self)
    have haround := @around_listed standing n (Scope.around (p :: up)) p.kind hs hn
    have hnodes : listing (n.tree.nodesUnder (p :: up)) = n.listed (Scope.around (p :: up))
        ++ listing (Tree.nodesOfUnder (n :: p :: up) n.children) := by
      rw [Node.tree, Tree.nodesUnder, listing, List.flatMap_cons, if_pos hup]
      rfl
    have hinner : ((inside standing n (Scope.around (p :: up))).elim [] fun q =>
        declaredIn q.1 q.2 n.children).Perm
          (listing (Tree.nodesOfUnder (n :: p :: up) n.children)) := by
      cases hinside : inside standing n (Scope.around (p :: up)) with
      | some q =>
        obtain ⟨hscope, hs', htag⟩ := inside_eq_some hinside
        rw [Option.elim_some, hscope]
        exact declaredIn_listing hs' (by rw [List.all_cons, hup, hides_eq_false hs' htag]; rfl)
          hchildren hself
      | none =>
        rw [listing_of_stops hs hn hinside hheld]
        exact .refl _
    show (declared standing (Scope.around (p :: up)) n.tree).Perm (listing (n.tree.nodesUnder (p :: up)))
    -- what a node declares last is listed before what is inside it
    rw [declared_node, hnodes, ← haround, List.append_assoc, List.append_assoc]
    exact (List.perm_append_comm.trans (hinner.append_left _)).append_left _

/-- The symbols of some trees are what their nodes declare. -/
theorem declaredIn_listing : ∀ {standing : Standing} {up : List Node} {p : Node} {ts : List Tree},
    p.kind.standing? = some standing → (p :: up).all (!·.hides) = true →
    Tree.Held (Tree.nodesOf ts) → (∀ n ∈ ts.filterMap Tree.node?, p.kind.holds n.kind = true) →
    (declaredIn standing (Scope.around (p :: up)) ts).Perm (listing (Tree.nodesOfUnder (p :: up) ts))
  | _, _, _, [], _, _, _, _ => by
    rw [Tree.nodesOfUnder, declaredIn]
    exact .refl _
  | standing, up, p, t :: ts, hs, hup, hheld, hh => by
    rw [Tree.nodesOf] at hheld
    rw [Tree.nodesOfUnder, declaredIn, listing_append]
    refine (declared_listing hs hup (fun n hn => hheld n (List.mem_append_left _ hn)) fun n hn =>
      hh n ?_).append (declaredIn_listing hs hup (fun n hn => hheld n (List.mem_append_right _ hn))
        fun n hn => hh n ?_)
    · exact List.mem_filterMap.mpr ⟨t, List.mem_cons_self, hn⟩
    · obtain ⟨u, hu, hun⟩ := List.mem_filterMap.mp hn
      exact List.mem_filterMap.mpr ⟨u, List.mem_cons_of_mem t hu, hun⟩

end

/-- The symbols of a text are what the nodes of its tree declare. -/
theorem symbols_listing (source : Text) : (parse source).root.symbols.Perm
    (listing ((parse source).root.tree.nodesUnder [])) := by
  let root : Node := (parse source).root
  have hheld : Tree.Held root.descendants := fun n hn m hm => rootOf_holds hn hm
  have haround : Scope.around [root] = [] := rfl
  have hroot : listing [([], root)] = [] := rfl
  have hwalk : (declaredIn .item (Scope.around [root]) root.children).Perm
      (listing (Tree.nodesOfUnder [root] root.children)) := declaredIn_listing rfl rfl
    (fun n hn => hheld n (List.mem_cons_of_mem _ hn)) fun m hm => hheld root List.mem_cons_self m hm
  rw [haround] at hwalk
  show root.symbols.Perm (listing ([([], root)] ++ Tree.nodesOfUnder [root] root.children))
  rw [listing_append, hroot]
  exact hwalk

/-- A symbol is declared by a node in no body and in no record without a name. -/
theorem mem_symbols_iff {source : Text} {s : Symbol} : s ∈ (parse source).root.symbols
    ↔ ∃ up n, (up, n) ∈ (parse source).root.tree.nodesUnder [] ∧ (∀ m ∈ up, m.hides = false)
      ∧ s ∈ n.listed (Scope.around up) := by
  rw [(symbols_listing source).mem_iff, listing, List.mem_flatMap]
  constructor
  · rintro ⟨⟨up, n⟩, hp, hs⟩
    split at hs
    · next hopen => exact ⟨up, n, hp, by simpa using hopen, hs⟩
    · cases hs
  · rintro ⟨up, n, hp, hopen, hs⟩
    exact ⟨(up, n), hp, by rw [if_pos (by simpa using hopen)]; exact hs⟩

/-! ## the place of a name -/

variable {source : Text} {up above : List Node} {n m : Node} {l k : Leaf}

theorem mem_descendants_of_nodesUnder (hn : (up, n) ∈ (parse source).root.tree.nodesUnder []) :
    n ∈ (parse source).root.descendants := by
  show n ∈ (parse source).root.tree.nodes
  rw [← Tree.nodesUnder_snd []]
  exact List.mem_map_of_mem hn

/-- Leaves at the same place are the same, with all that is around them. -/
theorem leaf_unique (h : (up, l) ∈ (parse source).root.tree.leavesUnder [])
    (h' : (above, k) ∈ (parse source).root.tree.leavesUnder []) (hs : l.span = k.span) :
    (up, l) = (above, k) :=
  List.inj_on_of_nodup_map (nodup_leafSpans source) h h' hs

/-- Nodes that have a leaf at the same place directly in them are the same. -/
theorem eq_of_nameSpan (hn : (up, n) ∈ (parse source).root.tree.nodesUnder [])
    (hm : (above, m) ∈ (parse source).root.tree.nodesUnder []) (hl : l ∈ n.tokens) (hk : k ∈ m.tokens)
    (hs : l.span = k.span) : up = above ∧ n = m ∧ l = k := by
  have h := leaf_unique (Tree.mem_leavesUnder_of_token hn hl) (Tree.mem_leavesUnder_of_token hm hk) hs
  simp only [Prod.mk.injEq, List.cons.injEq] at h
  exact ⟨h.1.2, h.1.1, h.2⟩

theorem Node.name_of_mem_enumSymbols {scope : Scope} {s : Symbol} (h : s ∈ n.enumSymbols scope) :
    (∃ l ∈ n.names, s.nameSpan = l.span) ∨ ∃ list ∈ n.nodes, list.kind = .enumeratorList
      ∧ ∃ e ∈ list.nodes, ∃ l ∈ e.names, s.nameSpan = l.span := by
  rw [enumSymbols_eq, List.mem_append] at h
  rcases h with h | h
  · obtain ⟨name, hname, rfl⟩ := List.mem_map.mp h
    exact .inl ⟨name, tagName?_mem (Option.mem_toList.mp hname), rfl⟩
  · right
    obtain ⟨e, he, hs⟩ := List.mem_filterMap.mp h
    obtain ⟨name, hname, rfl⟩ := Option.map_eq_some_iff.mp hs
    obtain ⟨list, hlist, he⟩ := List.mem_flatMap.mp (List.mem_of_mem_filter he)
    obtain ⟨hlist, hk⟩ := List.mem_filter.mp hlist
    exact ⟨list, hlist, of_decide_eq_true hk, e, he, name, firstName?_mem hname, rfl⟩

/-- The name of what a node declares is directly in it, or in one of its enumerators. -/
theorem Node.name_of_mem_listed {scope : Scope} {s : Symbol} (h : s ∈ n.listed scope) :
    (∃ l ∈ n.names, s.nameSpan = l.span) ∨ ∃ list ∈ n.nodes, list.kind = .enumeratorList
      ∧ ∃ e ∈ list.nodes, ∃ l ∈ e.names, s.nameSpan = l.span := by
  rw [listed, List.mem_append] at h
  rcases h with h | h
  · split at h
    · obtain ⟨name, hname, rfl⟩ := List.mem_map.mp h
      exact .inl ⟨name, hname, rfl⟩
    · unfold ownSymbols at h
      split at h
      case h_4 => exact name_of_mem_enumSymbols h
      case h_8 =>
        obtain ⟨name, hname, rfl⟩ := List.mem_map.mp h
        exact .inl ⟨name, hname, rfl⟩
      case h_9 => cases h
      all_goals
        split at h
        · next name hname =>
          obtain rfl := List.mem_singleton.mp h
          refine .inl ⟨name, ?_, rfl⟩
          first
          | exact functionName?_mem hname
          | exact tagName?_mem hname
          | exact firstName?_mem hname
          | exact aliasName?_mem hname
          | exact List.mem_of_getElem? hname
        · cases h
  · unfold closingSymbols at h
    split at h
    · next name _ hname =>
      obtain rfl := List.mem_singleton.mp h
      exact .inl ⟨name, List.mem_of_getLast? hname, rfl⟩
    · cases h

/-- The name of a symbol is in no body and in no record without a name. -/
theorem exists_open_origin {s : Symbol} (h : s ∈ (parse source).root.symbols) :
    ∃ o : Origin, o.Declares s ∧ (o.up, o.node) ∈ (parse source).root.tree.nodesUnder []
      ∧ ∀ m ∈ o.up, m.hides = false := by
  obtain ⟨o, hd, hnode, -⟩ := exists_name_of_symbol source h
  obtain ⟨up, n, hn, hopen, hs⟩ := mem_symbols_iff.mp h
  refine ⟨o, hd, hnode, ?_⟩
  -- the node that lists the symbol has its name, or is around its enumerator
  rcases n.name_of_mem_listed hs with ⟨l, hl, hspan⟩ | ⟨list, hlist, hk, e, he, l, hl, hspan⟩
  · obtain ⟨hup, -⟩ := eq_of_nameSpan hn hnode (List.mem_of_mem_filter hl) hd.direct
      (hspan.symm.trans hd.nameSpan)
    rwa [← hup]
  · have hplace := Tree.mem_nodesUnder_of_child (Tree.mem_nodesUnder_of_child hn hlist) he
    obtain ⟨hup, -⟩ := eq_of_nameSpan hplace hnode (List.mem_of_mem_filter hl) hd.direct
      (hspan.symm.trans hd.nameSpan)
    have henum : n.kind = .enumDef := by
      have hheld := rootOf_holds (mem_descendants_of_nodesUnder hn) hlist
      rw [hk] at hheld
      revert hheld
      cases n.kind <;> decide
    rw [← hup]
    rintro m (_ | ⟨_, _ | ⟨_, hm⟩⟩)
    · rw [Node.hides, hk]
      rfl
    · rw [Node.hides, henum]
      rfl
    · exact hopen m hm

end CppMend
