import CppMend.Proofs.Expression.Precedence
import CppMend.Proofs.Tree.Nodes
import CppMend.Tree.View

/-!
# Precedence in trees

In the tree of any text, well written or not, the operands of an operator bind as its precedence
says. Only an operand that breaks off, because the text lacks what should follow its operator, may
stand on the left of an operator that binds more tightly.

* `Node.leftPower?`    how tightly the operator of a binary expression binds on its left;
* `Node.isComplete`    the last operand of an operation is there;
* `Node.Ranked`        what precedence asks for;
* `parse_ranked`       it is so everywhere in a tree.
-/

namespace CppMend

namespace Tree

/-- what a blank or comment is not -/
def isPart : Tree → Bool
  | .leaf l => !l.isTrivia
  | .node .. => true

/-- the shape of a tree that is no blank or comment -/
def shape : Tree → Shape
  | .leaf l => .leaf l.kind
  | .node kind _ children => .node kind (shapesOf children)

end Tree

namespace Node

/-- the children, blanks and comments left out -/
def parts (n : Node) : List Tree := n.children.filter Tree.isPart

/-- the node that comes last in a node, blanks and comments left out -/
def lastOperand? (n : Node) : Option Node := n.parts.getLast?.bind Tree.node?

/-- how tightly the operator of a binary expression binds on its left -/
def leftPower? (n : Node) : Option Nat :=
  n.firstToken?.bind fun op => (Rule.infixPower? op.kind).map (·.left)

/-- The last operand of an operation is there: the right one of a binary expression or an assignment,
the last one of a conditional expression. -/
def isComplete (n : Node) : Bool :=
  if n.kind = .conditionalExpr then n.lastOperand?.isSome else n.secondNode?.isSome

/-- an operand that is no assignment and no conditional expression, and no binary expression whose
operator binds less tightly than some power -/
structure BindsAt (n : Node) (power : Nat) : Prop where
  not_assign : n.kind ≠ .assignExpr
  not_conditional : n.kind ≠ .conditionalExpr
  binary : n.kind = .binaryExpr → ∃ p, n.leftPower? = some p ∧ power ≤ p

/-- What precedence asks for. The right operand of a binary operator binds more tightly than the
operator, and the left one, if it is complete, at least as tightly. No complete assignment is assigned
to, and a condition that is complete is no assignment and no conditional expression. -/
structure Ranked (n : Node) : Prop where
  binary : n.kind = .binaryExpr → ∃ left p, n.firstNode? = some left ∧ n.leftPower? = some p
    ∧ (left.isComplete = true → left.BindsAt p)
    ∧ ∀ right, n.secondNode? = some right → right.BindsAt (p + 1)
  assign : n.kind = .assignExpr → ∃ left, n.firstNode? = some left
    ∧ (left.isComplete = true → left.kind ≠ .assignExpr)
  conditional : n.kind = .conditionalExpr → ∃ condition, n.firstNode? = some condition
    ∧ (condition.isComplete = true →
      condition.kind ≠ .assignExpr ∧ condition.kind ≠ .conditionalExpr)

/-! ## the parts of a node and its shape -/

theorem shape_parts (n : Node) : n.parts.map Tree.shape = Tree.shapesOf n.children := by
  rw [parts]
  induction n.children with
  | nil => rfl
  | cons t ts ih =>
    rw [Tree.shapesOf, ← ih]
    cases t with
    | leaf l =>
      rw [Tree.shapes]
      cases h : l.isTrivia <;> simp [Tree.isPart, h, Tree.shape]
    | node kind span children => rfl

theorem nodes_parts (n : Node) : n.parts.filterMap Tree.node? = n.nodes := by
  rw [parts, nodes, List.filterMap_filter]
  congr 1
  funext t
  cases t <;> simp [Tree.isPart, Tree.node?]

theorem significant_parts (n : Node) : n.parts.filterMap Tree.leaf? = n.significant := by
  rw [parts, significant, tokens]
  induction n.children with
  | nil => rfl
  | cons t ts ih =>
    cases t with
    | leaf l => cases h : l.isTrivia <;> simpa [Tree.isPart, h, Tree.leaf?] using ih
    | node kind span children => exact ih

/-- an operation: its left operand, its operator, and what comes after -/
structure IsOperation (n left : Node) (op : Leaf) (b : Rule.Binding) (rest : List Tree) : Prop where
  parts : n.parts = left.tree :: .leaf op :: rest
  binding : Rule.operatorBinding? op.kind = some b
  kind : b.node = n.kind
  /-- An operator that goes on with the left operand would have been taken by it. -/
  left : left.shape.IsComplete → ∀ b', left.shape.binding? = some b' → b.left < b'.right
  right : n.kind ≠ .conditionalExpr → ∃ right? : Option Node, rest = right?.toList.map Node.tree
    ∧ ∀ right ∈ right?, right.shape.IsOperand b.right

theorem exists_node_of_shape {t : Tree} (h : t.shape.isNode = true) :
    ∃ m : Node, t = m.tree ∧ t.shape = m.shape := by
  cases t with
  | leaf l => cases h
  | node kind span children => exact ⟨⟨kind, span, children⟩, rfl, rfl⟩

theorem isOperation_of_ranked {n : Node} (h : Rule.Ranked n.kind (Tree.shapesOf n.children)) :
    ∃ left op b rest, n.IsOperation left op b rest := by
  obtain ⟨left, k, b, rest, hparts, hb, hkind, hnode, hleft, hright⟩ := h
  rw [← n.shape_parts] at hparts
  obtain ⟨l, ts, hn, rfl, hts⟩ := List.map_eq_cons_iff.mp hparts
  obtain ⟨o, us, rfl, ho, rfl⟩ := List.map_eq_cons_iff.mp hts
  obtain ⟨left, rfl, hl⟩ := exists_node_of_shape hnode
  rw [hl] at hleft
  cases o with
  | node => cases ho
  | leaf op =>
    cases ho
    refine ⟨left, op, b, us, hn, hb, hkind, hleft, fun hc => ?_⟩
    obtain ⟨right?, hr, hop⟩ := hright hc
    cases right? with
    | none => exact ⟨none, List.map_eq_nil_iff.mp hr, nofun⟩
    | some r =>
      obtain ⟨t, vs, rfl, rfl, hvs⟩ := List.map_eq_cons_iff.mp hr
      obtain ⟨right, rfl, hs⟩ := exists_node_of_shape (hop _ rfl).1
      refine ⟨some right, by rw [List.map_eq_nil_iff.mp hvs]; rfl, fun m hm => ?_⟩
      cases hm
      rw [← hs]
      exact hop _ rfl

namespace IsOperation

variable {n left : Node} {op : Leaf} {b : Rule.Binding} {rest : List Tree}

theorem firstNode?_eq (h : n.IsOperation left op b rest) : n.firstNode? = some left := by
  rw [firstNode?, ← nodes_parts, h.parts]
  rfl

theorem firstToken?_eq (h : n.IsOperation left op b rest) : n.firstToken? = some op := by
  rw [firstToken?, ← significant_parts, h.parts]
  rfl

theorem secondNode?_eq (h : n.IsOperation left op b rest) :
    n.secondNode? = (rest.filterMap Tree.node?).head? := by
  rw [secondNode?, ← nodes_parts, h.parts, List.head?_eq_getElem?]
  rfl

theorem binding?_shape (h : n.IsOperation left op b rest) : n.shape.binding? = some b := by
  rw [shape, ← shape_parts, h.parts, List.map_cons, List.map_cons, Tree.shape, Tree.Shape.binding?,
    ← h.kind, if_pos (Rule.isOperation_of_binding h.binding), h.binding]

theorem isComplete_shape (h : n.IsOperation left op b rest) (hc : n.isComplete = true) :
    n.shape.IsComplete := by
  show (Tree.shapesOf n.children).getLast?.any Tree.Shape.isNode = true
  rw [← shape_parts, List.getLast?_map]
  rw [isComplete] at hc
  split at hc
  · rw [lastOperand?] at hc
    cases hl : n.parts.getLast? with
    | none =>
      rw [hl] at hc
      cases hc
    | some t =>
      rw [hl] at hc
      cases t with
      | leaf l => cases hc
      | node kind span children => rfl
  · next hk =>
    obtain ⟨right?, rfl, -⟩ := h.right hk
    rw [h.secondNode?_eq] at hc
    cases right? with
    | none => cases hc
    | some right =>
      rw [h.parts]
      rfl

/-! ## how the operators of each kind bind -/

theorem cases (h : n.IsOperation left op b rest) :
    n.kind = .conditionalExpr ∧ b.left = 4 ∧ b.right = 3
      ∨ n.kind = .assignExpr ∧ b.left = 2 ∧ b.right = 1
      ∨ n.kind = .binaryExpr ∧ 5 ≤ b.left ∧ b.right = b.left + 1 ∧ n.leftPower? = some b.left := by
  have hb := h.binding
  rw [← h.kind, leftPower?, h.firstToken?_eq]
  rw [Rule.operatorBinding?] at hb
  split at hb
  · cases hb
    exact .inl ⟨rfl, rfl, rfl⟩
  · rw [Option.bind_some, hb]
    rcases Rule.infixPower?_cases hb with rfl | ⟨p, hp, rfl⟩
    · exact .inr (.inl ⟨rfl, rfl, rfl⟩)
    · exact .inr (.inr ⟨rfl, hp, rfl, rfl⟩)

theorem of_conditional (h : n.IsOperation left op b rest) (hk : n.kind = .conditionalExpr) :
    b.left = 4 ∧ b.right = 3 := by
  rcases h.cases with ⟨-, h⟩ | ⟨hc, -⟩ | ⟨hc, -⟩
  · exact h
  all_goals cases hk.symm.trans hc

theorem of_assign (h : n.IsOperation left op b rest) (hk : n.kind = .assignExpr) :
    b.left = 2 ∧ b.right = 1 := by
  rcases h.cases with ⟨hc, -⟩ | ⟨-, h⟩ | ⟨hc, -⟩
  · cases hk.symm.trans hc
  · exact h
  · cases hk.symm.trans hc

theorem of_binary (h : n.IsOperation left op b rest) (hk : n.kind = .binaryExpr) :
    5 ≤ b.left ∧ b.right = b.left + 1 ∧ n.leftPower? = some b.left := by
  rcases h.cases with ⟨hc, -⟩ | ⟨hc, -⟩ | ⟨-, h⟩
  · cases hk.symm.trans hc
  · cases hk.symm.trans hc
  · exact h

theorem right_le (h : n.IsOperation left op b rest) : b.right ≤ b.left + 1 := by
  rcases h.cases with ⟨-, hl, hr⟩ | ⟨-, hl, hr⟩ | ⟨-, -, hr, -⟩ <;> omega

end IsOperation

end Node

/-! ## trees of texts -/

variable {source : Text} {n m : Node}

/-- every operation in a tree has its parts -/
theorem isOperation_of_mem (hn : n ∈ (parse source).root.descendants)
    (hk : n.kind.isOperation = true) : ∃ left op b rest, n.IsOperation left op b rest := by
  rcases List.mem_cons.mp hn with rfl | hn
  · cases hk
  · obtain ⟨past, g, parts, -, -, hlaw, hch⟩ := rootOf_law (precedenceLaw_outline _) hn
    refine Node.isOperation_of_ranked ?_
    rw [hch, (Outline.placeAll_shapes parts g).1]
    exact hlaw hk

theorem mem_descendants_of_nodes (hn : n ∈ (parse source).root.descendants) (hm : m ∈ n.nodes) :
    m ∈ (parse source).root.descendants :=
  Tree.mem_nodes_trans hn (Tree.mem_nodesOf_of_child hm)

/-- An operand that is read with some power above that of `?` binds as tightly as that. -/
theorem bindsAt_of_bound (hm : m ∈ (parse source).root.descendants) {power : Nat} (h5 : 5 ≤ power)
    (h : m.kind.isOperation = true → ∀ b, m.shape.binding? = some b → power ≤ b.left) :
    m.BindsAt power := by
  have hop (hk : m.kind.isOperation = true) :
      m.kind = .binaryExpr ∧ ∃ p, m.leftPower? = some p ∧ power ≤ p := by
    obtain ⟨left, op, b, rest, ho⟩ := isOperation_of_mem hm hk
    have hle := h hk b ho.binding?_shape
    rcases ho.cases with ⟨-, hl, -⟩ | ⟨-, hl, -⟩ | ⟨hkind, -, -, hl⟩
    · omega
    · omega
    · exact ⟨hkind, b.left, hl, hle⟩
  refine ⟨fun hk => ?_, fun hk => ?_, fun hk => (hop (by rw [hk]; rfl)).2⟩
  all_goals
    have hbinary := (hop (by rw [hk]; rfl)).1
    rw [hk] at hbinary
    cases hbinary

/-- A complete operand on the left does not go on with the operator: the operator binds more loosely
than what may come after the operand. -/
theorem left_of_isComplete {left : Node} {op : Leaf} {b : Rule.Binding} {rest : List Tree}
    (h : n.IsOperation left op b rest) (hm : left ∈ (parse source).root.descendants)
    (hc : left.isComplete = true) (hk : left.kind.isOperation = true) :
    ∃ first op' b' rest', left.IsOperation first op' b' rest' ∧ b.left < b'.right := by
  obtain ⟨first, op', b', rest', ho⟩ := isOperation_of_mem hm hk
  exact ⟨first, op', b', rest', ho, h.left (ho.isComplete_shape hc) b' ho.binding?_shape⟩

/-- In the tree of any text, the operands of each operator bind as precedence asks. -/
theorem parse_ranked (source : Text) : ∀ n ∈ (parse source).root.descendants, n.Ranked := by
  intro n hn
  have hoperation (hk : n.kind.isOperation = true) : ∃ left op b rest,
      n.IsOperation left op b rest ∧ left ∈ (parse source).root.descendants := by
    obtain ⟨left, op, b, rest, h⟩ := isOperation_of_mem hn hk
    exact ⟨left, op, b, rest, h,
      mem_descendants_of_nodes hn (List.mem_of_mem_head? h.firstNode?_eq)⟩
  refine ⟨fun hk => ?_, fun hk => ?_, fun hk => ?_⟩
  · obtain ⟨left, op, b, rest, h, hleft⟩ := hoperation (by rw [hk]; rfl)
    obtain ⟨h5, hright, hpower⟩ := h.of_binary hk
    refine ⟨left, b.left, h.firstNode?_eq, hpower, fun hc => ?_, fun right hr => ?_⟩
    · refine bindsAt_of_bound hleft h5 fun hop b'' hb'' => ?_
      obtain ⟨first, op', b', rest', ho, hlt⟩ := left_of_isComplete h hleft hc hop
      cases ho.binding?_shape.symm.trans hb''
      have := ho.right_le
      omega
    · obtain ⟨right?, hrest, hoperand⟩ := h.right (by rw [hk]; exact nofun)
      have hmem : right ∈ n.nodes := List.mem_of_getElem? hr
      rw [h.secondNode?_eq, hrest] at hr
      cases right? with
      | none => cases hr
      | some r =>
        cases hr
        refine bindsAt_of_bound (mem_descendants_of_nodes hn hmem) (by omega) fun _ b' hb' => ?_
        rw [← hright]
        exact (hoperand _ rfl).2 b' hb'
  · obtain ⟨left, op, b, rest, h, hleft⟩ := hoperation (by rw [hk]; rfl)
    refine ⟨left, h.firstNode?_eq, fun hc hassign => ?_⟩
    obtain ⟨first, op', b', rest', ho, hlt⟩ := left_of_isComplete h hleft hc (by rw [hassign]; rfl)
    have hn := h.of_assign hk
    have hl := ho.of_assign hassign
    omega
  · obtain ⟨condition, op, b, rest, h, hcond⟩ := hoperation (by rw [hk]; rfl)
    have hn := h.of_conditional hk
    refine ⟨condition, h.firstNode?_eq, fun hc => ⟨fun hassign => ?_, fun hconditional => ?_⟩⟩
    · obtain ⟨first, op', b', rest', ho, hlt⟩ := left_of_isComplete h hcond hc (by rw [hassign]; rfl)
      have hl := ho.of_assign hassign
      omega
    · obtain ⟨first, op', b', rest', ho, hlt⟩ :=
        left_of_isComplete h hcond hc (by rw [hconditional]; rfl)
      have hl := ho.of_conditional hconditional
      omega

/-- A comparison whose right operand is a product. Its left one is an assignment that breaks off, and
so binds less tightly. -/
theorem parse_ranked_broken : ∃ n ∈ (parse "int v = a = == b * c;".toList).root.descendants,
    n.kind = .binaryExpr ∧ n.firstNode?.map (·.kind) = some .assignExpr
      ∧ n.secondNode?.bind Node.leftPower? = some 23 ∧ n.Ranked := by
  have h : ∃ n ∈ (parse "int v = a = == b * c;".toList).root.descendants,
      n.kind = .binaryExpr ∧ n.firstNode?.map (·.kind) = some .assignExpr
        ∧ n.secondNode?.bind Node.leftPower? = some 23 := by
    decide +kernel
  obtain ⟨n, hn, hk, hleft, hright⟩ := h
  exact ⟨n, hn, hk, hleft, hright, parse_ranked _ n hn⟩

end CppMend
