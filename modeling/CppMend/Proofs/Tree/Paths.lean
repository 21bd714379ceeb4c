import CppMend.Proofs.Tree.Descent
import CppMend.Proofs.Tree.Spans
import CppMend.Tree.Path
import Mathlib.Data.List.Chain

/-!
# Paths hold the enclosing nodes

The path to an offset goes down from the root, at each node to the first child that contains the
offset. What follows says that it comes by every node of the tree that contains the offset, since
children stand side by side and inside of their parent.

* `Tree.chain_eq`           going down, all nodes that contain an offset are found, in order;
* `Tree.chain_isChain`      each node on the way is a child of the one before it;
* `Tree.children_apart`     at most one child of a node contains an offset;
* `Path.around_exact`       the path to an offset is what it should be.
-/

namespace CppMend

/-- One node is the parent of the other and contains its span. -/
structure Node.Encloses (outer inner : Node) : Prop where
  child : inner ∈ outer.nodes
  start : outer.span.start ≤ inner.span.start
  stop : inner.span.stop ≤ outer.span.stop

theorem Span.contains_iff (s : Span) (offset : Nat) :
    s.contains offset = true ↔ s.start ≤ offset ∧ offset < s.stop := by
  simp [Span.contains]

namespace Tree

variable {offset a b : Nat}

/-- Nodes that lie elsewhere do not contain the offset. -/
theorem Lies.not_contains {n : Node} (h : Lies n a b) (ho : offset < a ∨ b ≤ offset) :
    ¬n.span.contains offset = true := by
  rw [Span.contains_iff]
  have h₁ := h.start
  have h₂ := h.stop
  omega

theorem filter_nodesOf_eq_nil {ts : List Tree} (h : Tile ts a b) (ho : offset < a ∨ b ≤ offset) :
    (nodesOf ts).filter (·.span.contains offset) = [] := by
  rw [List.filter_eq_nil_iff]
  intro n hn
  exact (lies_of_mem_nodesOf h hn).not_contains ho

theorem filter_nodes_eq_nil {t : Tree} (h : t.Spans a b) (ho : offset < a ∨ b ≤ offset) :
    t.nodes.filter (·.span.contains offset) = [] := by
  rw [List.filter_eq_nil_iff]
  intro n hn
  exact (lies_of_mem_nodes h hn).not_contains ho

/-! ## going down -/

mutual

/-- Going down from a tree that contains the offset, all its nodes that do so are found. -/
theorem chain_eq : ∀ {t : Tree} {a b : Nat}, t.Spans a b → a ≤ offset → offset < b →
    Node.chain offset t = t.nodes.filter (·.span.contains offset)
  | .leaf _, _, _, _, _, _ => by
    rw [Node.chain, nodes]
    rfl
  | .node kind span children, a, b, h, ha, hb => by
    have hc : span.contains offset = true := by
      have he : span.start = a ∧ span.stop = b := h.ends
      rw [Span.contains_iff]
      omega
    rw [Spans] at h
    rw [Node.chain, nodes, List.filter_cons, if_pos hc, chainIn_eq h.2]

theorem chainIn_eq : ∀ {ts : List Tree} {a b : Nat}, Tile ts a b →
    Node.chainIn offset ts = (nodesOf ts).filter (·.span.contains offset)
  | [], _, _, _ => by
    rw [Node.chainIn, nodesOf]
    rfl
  | .leaf l :: ts, a, b, h => by
    rw [Tile] at h
    obtain ⟨m, -, hts⟩ := h
    rw [Node.chainIn, nodesOf, nodes, List.nil_append]
    exact chainIn_eq hts
  | .node kind span children :: ts, a, b, h => by
    rw [Tile] at h
    obtain ⟨m, ht, hts⟩ := h
    obtain ⟨hs, he⟩ : span.start = a ∧ span.stop = m := ht.ends
    rw [Node.chainIn, nodesOf, List.filter_append]
    by_cases hc : span.contains offset = true
    · -- what stands on the right does not contain the offset
      rw [Span.contains_iff, hs, he] at hc
      rw [if_pos (by rw [Span.contains_iff, hs, he]; exact hc), chain_eq ht hc.1 hc.2,
        filter_nodesOf_eq_nil hts (Or.inl hc.2), List.append_nil]
    · have ho : offset < a ∨ m ≤ offset := by
        rw [Span.contains_iff, hs, he] at hc
        omega
      rw [if_neg hc, filter_nodes_eq_nil ht ho, List.nil_append]
      exact chainIn_eq hts

end

/-! ## from parent to child -/

/-- the first node on the way down is a child -/
theorem child_of_head_chainIn {ts : List Tree} {n : Node}
    (h : n ∈ (Node.chainIn offset ts).head?) : n ∈ ts.filterMap node? := by
  induction ts with
  | nil =>
    rw [Node.chainIn] at h
    cases h
  | cons t ts ih =>
    cases t with
    | leaf l =>
      rw [Node.chainIn] at h
      exact ih h
    | node kind span children =>
      rw [List.filterMap_cons]
      rw [Node.chainIn] at h
      split at h
      · rw [Node.chain] at h
        rw [← Option.some.inj h]
        exact List.mem_cons_self
      · exact List.mem_cons_of_mem _ (ih h)

theorem encloses_of_child {n inner : Node} (ht : Tile n.children n.span.start n.span.stop)
    (h : inner ∈ n.nodes) : n.Encloses inner := by
  have hl := lies_of_mem_nodesOf ht (mem_nodesOf_of_child h)
  exact ⟨h, hl.start, hl.stop⟩

mutual

/-- Each node on the way down is a child of the one before it. -/
theorem chain_isChain : ∀ {t : Tree} {a b : Nat}, t.Spans a b →
    List.IsChain Node.Encloses (Node.chain offset t)
  | .leaf _, _, _, _ => by
    rw [Node.chain]
    exact .nil
  | .node kind span children, a, b, h => by
    have ht := (lies_of_spans h).tile
    rw [Spans] at h
    rw [Node.chain, List.isChain_cons]
    refine ⟨?_, chainIn_isChain h.2⟩
    intro inner hi
    exact encloses_of_child ht (child_of_head_chainIn hi)

theorem chainIn_isChain : ∀ {ts : List Tree} {a b : Nat}, Tile ts a b →
    List.IsChain Node.Encloses (Node.chainIn offset ts)
  | [], _, _, _ => by
    rw [Node.chainIn]
    exact .nil
  | .leaf l :: ts, a, b, h => by
    rw [Tile] at h
    obtain ⟨m, -, hts⟩ := h
    rw [Node.chainIn]
    exact chainIn_isChain hts
  | .node kind span children :: ts, a, b, h => by
    rw [Tile] at h
    obtain ⟨m, ht, hts⟩ := h
    rw [Node.chainIn]
    split
    · exact chain_isChain ht
    · exact chainIn_isChain hts

end

/-- At most one of some trees side by side is a node that contains the offset. -/
theorem children_apart {ts : List Tree} (h : Tile ts a b) :
    ((ts.filterMap node?).filter (·.span.contains offset)).length ≤ 1 := by
  induction ts generalizing a with
  | nil => exact Nat.zero_le 1
  | cons t ts ih =>
    rw [Tile] at h
    obtain ⟨m, ht, hts⟩ := h
    cases t with
    | leaf l => exact ih hts
    | node kind span children =>
      obtain ⟨-, he⟩ : span.start = a ∧ span.stop = m := ht.ends
      show ((⟨kind, span, children⟩ :: ts.filterMap node?).filter _).length ≤ 1
      rw [List.filter_cons]
      by_cases hc : span.contains offset = true
      · have hr : (ts.filterMap node?).filter (·.span.contains offset) = [] := by
          rw [List.filter_eq_nil_iff]
          intro n hn
          rw [Span.contains_iff, he] at hc
          exact (lies_of_mem_nodesOf hts (mem_nodesOf_of_child hn)).not_contains (Or.inl hc.2)
        rw [if_pos hc, hr]
        exact Nat.le_refl 1
      · rw [if_neg hc]
        exact ih hts

end Tree

/-! ## whole texts -/

/-- the offset lies between the start of the first significant token and the end of the last -/
def Parsed.Reaches (t : Parsed) (offset : Nat) : Prop :=
  ∃ first last, t.tokens.head? = some first ∧ t.tokens.getLast? = some last
    ∧ first.span.start ≤ offset ∧ offset < last.span.stop

namespace Path

theorem nodes_around {t : Parsed} {offset : Nat} (h : t.Reaches offset) :
    (around t offset).nodes = Node.chain offset t.root.tree := by
  obtain ⟨first, last, hf, hl, ha, hb⟩ := h
  have hc : (Span.between first.start last.span.stop).contains offset = true := by
    have : first.span.start = first.start := rfl
    rw [Span.contains_iff, Span.between, Span.stop]
    show first.start ≤ offset ∧ offset < first.start + (last.span.stop - first.start)
    omega
  rw [around, Parsed.extent?, hf, hl]
  show (if (Span.between first.start last.span.stop).contains offset = true then _
    else _ : Path).nodes = _
  rw [if_pos hc]

theorem nodes_around_eq_nil {t : Parsed} {offset : Nat} (h : ¬t.Reaches offset) :
    (around t offset).nodes = [] := by
  rw [around, Parsed.extent?]
  cases hf : t.tokens.head? with
  | none => rfl
  | some first =>
    cases hl : t.tokens.getLast? with
    | none => rfl
    | some last =>
      have hc : ¬(Span.between first.start last.span.stop).contains offset = true := by
        rw [Span.contains_iff, Span.between, Span.stop]
        show ¬(first.start ≤ offset ∧ offset < first.start + (last.span.stop - first.start))
        intro hc
        exact h ⟨first, last, hf, hl, hc.1, by omega⟩
      show (if (Span.between first.start last.span.stop).contains offset = true then _
        else _ : Path).nodes = _
      rw [if_neg hc]

/-- The path to an offset between the first and the last significant token of a text holds exactly
the nodes of the tree that contain the offset, from the root inwards, and each of them is the
parent of the next one. To any other offset the path is empty. Of the children of a node, at most
one contains the offset. -/
theorem around_exact (source : Text) (offset : Nat) :
    ((parse source).Reaches offset →
        (around (parse source) offset).nodes
            = (parse source).root.descendants.filter (·.span.contains offset)
          ∧ (around (parse source) offset).nodes.head? = some (parse source).root
          ∧ (around (parse source) offset).nodes.IsChain Node.Encloses)
      ∧ (¬(parse source).Reaches offset → (around (parse source) offset).nodes = [])
      ∧ ∀ n ∈ (parse source).root.descendants,
          (n.nodes.filter (·.span.contains offset)).length ≤ 1 := by
  obtain ⟨size, hr⟩ := rootOf_spans (scan source)
  have hr : (parse source).root.tree.Spans 0 size := hr
  refine ⟨?_, nodes_around_eq_nil, ?_⟩
  · intro h
    have hp := nodes_around h
    obtain ⟨first, last, -, hl, ha, hb⟩ := h
    -- the last token lies in the root
    have hm : last ∈ (parse source).root.leaves :=
      (List.mem_filter.mp (List.mem_of_getLast? hl)).1
    have hs := (Tree.span_of_mem_leaves hr hm).2
    refine ⟨?_, ?_, ?_⟩
    · rw [hp, Tree.chain_eq hr (Nat.zero_le offset) (by omega)]
      rfl
    · rw [hp, Node.tree, Node.chain]
      rfl
    · rw [hp]
      exact Tree.chain_isChain hr
  · intro n hn
    exact Tree.children_apart (Tree.lies_of_mem_nodes hr hn).tile

end Path

end CppMend
