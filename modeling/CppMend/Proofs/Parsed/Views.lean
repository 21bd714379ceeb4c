import CppMend.Proofs.Expression.Views
import CppMend.Proofs.Parsed.Precedence

/-!
# Expressions as their views read them

The views of expressions take for granted that a node has certain parts in a certain order. In the tree
of any text, well written or not, binary expressions, assignments, calls and members have these parts.

* `Node.IsInfix`, `Node.IsCall`, `Node.IsMember`   the parts of such a node;
* `Node.Viewed`                                    what the view of a node finds;
* `parse_viewed`                                   it does so everywhere in a tree.
-/

namespace CppMend

namespace Node

/-! ## the parts of expressions -/

/-- an operand, an operator that makes a node of this kind, and perhaps a second operand -/
structure IsInfix (n left : Node) (op : Leaf) (right? : Option Node) : Prop where
  parts : n.parts = left.tree :: .leaf op :: right?.toList.map Node.tree
  left_isExpression : left.kind.isExpression = true
  operator : ∃ b, Rule.infixPower? op.kind = some b ∧ b.node = n.kind
  right_isExpression : ∀ right ∈ right?, right.kind.isExpression = true

/-- what is called, and its arguments -/
structure IsCall (n callee arguments : Node) : Prop where
  parts : n.parts = [callee.tree, arguments.tree]
  callee_isExpression : callee.kind.isExpression = true
  arguments_kind : arguments.kind = .argList

/-- an object, `.` or `->`, and then at most one `~` and at most one name -/
structure IsMember (n base : Node) (mark : Leaf) (names : List Leaf) : Prop where
  parts : n.parts = base.tree :: .leaf mark :: names.map .leaf
  base_isExpression : base.kind.isExpression = true
  mark_kind : mark.kind ∈ [.dot, .arrow]
  names_kinds : List.Sublist (names.map (·.kind)) [.tilde, .ident]

/-- The view of an expression finds the parts that it looks for. -/
structure Viewed (n : Node) : Prop where
  binary : n.kind = .binaryExpr → ∃ left op right?, n.IsInfix left op right?
    ∧ n.view? = some (.binary (some left) right? (some op))
  assign : n.kind = .assignExpr → ∃ target op value?, n.IsInfix target op value?
    ∧ n.view? = some (.assignment (some target) value? (some op))
  call : n.kind = .callExpr → ∃ callee arguments, n.IsCall callee arguments
    ∧ n.view? = some (.call (some callee) (some arguments))
  member : n.kind = .memberExpr → ∃ base mark names, n.IsMember base mark names
    ∧ n.view? = some (.member (some base) n.isArrow n.firstName?)

variable {n : Node}

/-! ## what views find -/

theorem IsInfix.finds {left : Node} {op : Leaf} {right? : Option Node} (h : n.IsInfix left op right?) :
    n.firstNode? = some left ∧ n.secondNode? = right? ∧ n.firstToken? = some op := by
  rw [firstNode?, secondNode?, firstToken?, ← nodes_parts, ← significant_parts, h.parts]
  cases right? <;> exact ⟨rfl, rfl, rfl⟩

theorem IsCall.finds {callee arguments : Node} (h : n.IsCall callee arguments) :
    n.firstNode? = some callee ∧ n.node? .argList = some arguments := by
  have hcallee : callee.kind ≠ .argList := by
    intro hk
    have he := h.callee_isExpression
    rw [hk] at he
    cases he
  rw [firstNode?, node?, ← nodes_parts, h.parts]
  refine ⟨rfl, ?_⟩
  show [callee, arguments].find? (·.kind = .argList) = _
  rw [List.find?_cons_of_neg (by simpa using hcallee),
    List.find?_cons_of_pos (by simpa using h.arguments_kind)]

theorem IsMember.finds {base : Node} {mark : Leaf} {names : List Leaf}
    (h : n.IsMember base mark names) : n.firstNode? = some base := by
  rw [firstNode?, ← nodes_parts, h.parts]
  rfl

/-! ## nodes by their shapes -/

theorem exists_expression_of_shape {t : Tree} (h : t.shape.IsExpression) :
    ∃ m : Node, t = m.tree ∧ m.kind.isExpression = true := by
  obtain ⟨kind, parts, ht, hk⟩ := h
  obtain ⟨m, rfl, hm⟩ := exists_node_of_shape (t := t) (by rw [ht]; rfl)
  exact ⟨m, rfl, (Tree.Shape.node.inj (hm.symm.trans ht)).1 ▸ hk⟩

theorem exists_leaf_of_shape {t : Tree} {k : TokenKind} (h : t.shape = .leaf k) :
    ∃ l : Leaf, t = .leaf l ∧ l.kind = k := by
  cases t with
  | leaf l => exact ⟨l, rfl, Tree.Shape.leaf.inj h⟩
  | node => cases h

theorem exists_leaves_of_shapes {ts : List Tree} {ks : List TokenKind}
    (h : ts.map Tree.shape = ks.map .leaf) : ∃ ls : List Leaf, ts = ls.map .leaf
      ∧ ls.map (·.kind) = ks := by
  induction ts generalizing ks with
  | nil => exact ⟨[], rfl, (List.map_eq_nil_iff.mp h.symm).symm⟩
  | cons t ts ih =>
    obtain ⟨k, ks, rfl, ht, hts⟩ := List.map_eq_cons_iff.mp h.symm
    obtain ⟨l, rfl, hl⟩ := exists_leaf_of_shape ht.symm
    obtain ⟨ls, rfl, hls⟩ := ih hts.symm
    exact ⟨l :: ls, rfl, by rw [List.map_cons, hl, hls]⟩

theorem exists_operand_of_shapes {ts : List Tree} {e? : Option Tree.Shape}
    (h : ts.map Tree.shape = e?.toList) (he : ∀ e ∈ e?, e.IsExpression) :
    ∃ m? : Option Node, ts = m?.toList.map Node.tree ∧ ∀ m ∈ m?, m.kind.isExpression = true := by
  cases e? with
  | none => exact ⟨none, List.map_eq_nil_iff.mp h, nofun⟩
  | some e =>
    obtain ⟨t, us, rfl, ht, hus⟩ := List.map_eq_cons_iff.mp h
    obtain ⟨m, rfl, hm⟩ := exists_expression_of_shape (t := t) (ht ▸ he e rfl)
    exact ⟨some m, by rw [List.map_eq_nil_iff.mp hus]; rfl, by simpa using hm⟩

end Node

/-! ## trees of texts -/

variable {source : Text} {n : Node}

/-- a wrapped node starts with an expression, and goes on as its kind says -/
theorem follows_of_mem (hn : n ∈ (parse source).root.descendants) (hk : n.kind.isLinked = true) :
    ∃ (first : Node) (rest : List Tree), n.parts = first.tree :: rest
      ∧ first.kind.isExpression = true ∧ Rule.Follows n.kind (rest.map Tree.shape) := by
  rcases List.mem_cons.mp hn with rfl | hn
  · cases hk
  · obtain ⟨past, g, parts, -, -, hlaw, hch⟩ := rootOf_law (viewLaw_outline _) hn
    obtain ⟨first, rest, hs, hfirst, hrest⟩ := hlaw hk
    rw [← (Outline.placeAll_shapes parts g).1, ← hch, ← n.shape_parts] at hs
    obtain ⟨t, ts, hp, rfl, rfl⟩ := List.map_eq_cons_iff.mp hs
    obtain ⟨m, rfl, hm⟩ := Node.exists_expression_of_shape hfirst
    exact ⟨m, ts, hp, hm, hrest⟩

theorem isInfix_of_mem (hn : n ∈ (parse source).root.descendants)
    (hk : n.kind = .binaryExpr ∨ n.kind = .assignExpr) :
    ∃ left op right?, n.IsInfix left op right? := by
  have hlinked : n.kind.isLinked = true := by rcases hk with hk | hk <;> rw [hk] <;> rfl
  obtain ⟨first, rest, hp, hfirst, hrest⟩ := follows_of_mem hn hlinked
  have hinfix : ∃ k b, ∃ right? : Option Tree.Shape, rest.map Tree.shape = .leaf k :: right?.toList
      ∧ Rule.infixPower? k = some b ∧ b.node = n.kind ∧ ∀ right ∈ right?, right.IsExpression := by
    rcases hk with hk | hk <;> rw [hk] at hrest ⊢ <;> exact hrest
  obtain ⟨k, b, right?, hs, hb, hnode, hright⟩ := hinfix
  obtain ⟨t, ts, rfl, ht, hts⟩ := List.map_eq_cons_iff.mp hs
  obtain ⟨op, rfl, rfl⟩ := Node.exists_leaf_of_shape ht
  obtain ⟨m?, rfl, hm⟩ := Node.exists_operand_of_shapes hts hright
  exact ⟨first, op, m?, hp, hfirst, ⟨b, hb, hnode⟩, hm⟩

theorem isCall_of_mem (hn : n ∈ (parse source).root.descendants) (hk : n.kind = .callExpr) :
    ∃ callee arguments, n.IsCall callee arguments := by
  obtain ⟨first, rest, hp, hfirst, hrest⟩ := follows_of_mem hn (by rw [hk]; rfl)
  rw [hk] at hrest
  obtain ⟨parts, hs⟩ := hrest
  obtain ⟨t, ts, rfl, ht, hts⟩ := List.map_eq_cons_iff.mp hs
  obtain ⟨m, rfl, hm⟩ := Node.exists_node_of_shape (t := t) (by rw [ht]; rfl)
  rw [List.map_eq_nil_iff.mp hts] at hp
  exact ⟨first, m, hp, hfirst, (Tree.Shape.node.inj (hm.symm.trans ht)).1⟩

theorem isMember_of_mem (hn : n ∈ (parse source).root.descendants) (hk : n.kind = .memberExpr) :
    ∃ base mark names, n.IsMember base mark names := by
  obtain ⟨first, rest, hp, hfirst, hrest⟩ := follows_of_mem hn (by rw [hk]; rfl)
  rw [hk] at hrest
  obtain ⟨mark, names, hs, hmark, hnames⟩ := hrest
  obtain ⟨t, ts, rfl, ht, hts⟩ := List.map_eq_cons_iff.mp hs
  obtain ⟨l, rfl, rfl⟩ := Node.exists_leaf_of_shape ht
  obtain ⟨ls, rfl, rfl⟩ := Node.exists_leaves_of_shapes hts
  exact ⟨first, l, ls, hp, hfirst, hmark, hnames⟩

/-- In the tree of any text, the views of binary expressions, assignments, calls and members find their
parts. -/
theorem parse_viewed (source : Text) : ∀ n ∈ (parse source).root.descendants, n.Viewed := by
  intro n hn
  refine ⟨fun hk => ?_, fun hk => ?_, fun hk => ?_, fun hk => ?_⟩
  · obtain ⟨left, op, right?, h⟩ := isInfix_of_mem hn (.inl hk)
    obtain ⟨hfirst, hsecond, hop⟩ := h.finds
    exact ⟨left, op, right?, h, by rw [Node.view?, hk, ← hfirst, ← hsecond, ← hop]⟩
  · obtain ⟨target, op, value?, h⟩ := isInfix_of_mem hn (.inr hk)
    obtain ⟨hfirst, hsecond, hop⟩ := h.finds
    exact ⟨target, op, value?, h, by rw [Node.view?, hk, ← hfirst, ← hsecond, ← hop]⟩
  · obtain ⟨callee, arguments, h⟩ := isCall_of_mem hn hk
    obtain ⟨hfirst, hargs⟩ := h.finds
    exact ⟨callee, arguments, h, by rw [Node.view?, hk, ← hfirst, ← hargs]⟩
  · obtain ⟨base, mark, names, h⟩ := isMember_of_mem hn hk
    exact ⟨base, mark, names, h, by rw [Node.view?, hk, ← h.finds]⟩

/-- an assignment without a value, to a member without a name -/
theorem parse_viewed_broken : ∃ n ∈ (parse "int v = a-> = ;".toList).root.descendants,
    n.kind = .assignExpr ∧ n.firstNode?.map (·.kind) = some .memberExpr
      ∧ n.secondNode?.isNone = true ∧ n.Viewed := by
  have h : ∃ n ∈ (parse "int v = a-> = ;".toList).root.descendants,
      n.kind = .assignExpr ∧ n.firstNode?.map (·.kind) = some .memberExpr
        ∧ n.secondNode?.isNone = true := by
    decide +kernel
  obtain ⟨n, hn, hk, hfirst, hsecond⟩ := h
  exact ⟨n, hn, hk, hfirst, hsecond, parse_viewed _ n hn⟩

end CppMend
