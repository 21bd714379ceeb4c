import CppMend.Proofs.Tree.Leaves

/-!
# Nodes among trees

* `Tree.mem_nodesOf`         the nodes of some trees are those of each of them;
* `Tree.mem_nodesOf_trans`   what is in a node is in the trees that the node is in;
* `Tree.leavesOf_within`     the leaves of a node stand side by side.
-/

namespace CppMend

namespace Tree

theorem nodesOf_append (ts us : List Tree) : nodesOf (ts ++ us) = nodesOf ts ++ nodesOf us := by
  induction ts with
  | nil => rfl
  | cons t ts ih => rw [List.cons_append, nodesOf, nodesOf, ih, List.append_assoc]

theorem mem_nodesOf {ts : List Tree} {m : Node} : m ∈ nodesOf ts ↔ ∃ t ∈ ts, m ∈ t.nodes := by
  induction ts with
  | nil => simp [nodesOf]
  | cons t ts ih => simp [nodesOf, ih]

theorem mem_nodesOf_of_child {ts : List Tree} {n : Node} (h : n ∈ ts.filterMap node?) :
    n ∈ nodesOf ts := by
  obtain ⟨t, ht, hn⟩ := List.mem_filterMap.mp h
  refine mem_nodesOf.mpr ⟨t, ht, ?_⟩
  cases t with
  | leaf l => cases hn
  | node kind span children =>
    rw [← Option.some.inj hn, nodes]
    exact List.mem_cons_self

mutual

theorem mem_nodes_trans : ∀ {t : Tree} {n m : Node}, n ∈ t.nodes → m ∈ nodesOf n.children →
    m ∈ t.nodes
  | .leaf l, n, m, hn, _ => by
    rw [nodes] at hn
    cases hn
  | .node kind span children, n, m, hn, hm => by
    rw [nodes, List.mem_cons] at hn ⊢
    rcases hn with rfl | hn
    · exact Or.inr hm
    · exact Or.inr (mem_nodesOf_trans hn hm)

/-- what is in a node is in the trees that the node is in -/
theorem mem_nodesOf_trans : ∀ {ts : List Tree} {n m : Node}, n ∈ nodesOf ts →
    m ∈ nodesOf n.children → m ∈ nodesOf ts
  | [], n, m, hn, _ => by
    rw [nodesOf] at hn
    cases hn
  | t :: ts, n, m, hn, hm => by
    rw [nodesOf, List.mem_append] at hn ⊢
    rcases hn with hn | hn
    · exact Or.inl (mem_nodes_trans hn hm)
    · exact Or.inr (mem_nodesOf_trans hn hm)

end

mutual

theorem leaves_within : ∀ {t : Tree} {n : Node}, n ∈ t.nodes → n.leaves <:+: t.leaves
  | .leaf l, n, hn => by
    rw [nodes] at hn
    cases hn
  | .node kind span children, n, hn => by
    rw [nodes, List.mem_cons] at hn
    rcases hn with rfl | hn
    · exact List.infix_refl _
    · exact leavesOf_within hn

/-- the leaves of a node stand side by side -/
theorem leavesOf_within : ∀ {ts : List Tree} {n : Node}, n ∈ nodesOf ts →
    n.leaves <:+: leavesOf ts
  | [], n, hn => by
    rw [nodesOf] at hn
    cases hn
  | t :: ts, n, hn => by
    rw [nodesOf, List.mem_append] at hn
    rw [leavesOf]
    rcases hn with hn | hn
    · exact (leaves_within hn).trans (List.prefix_append _ _).isInfix
    · exact (leavesOf_within hn).trans (List.suffix_append _ _).isInfix

end

end Tree

end CppMend
