import CppMend.Proofs.Tree.Descent
import Mathlib.Data.List.Perm.Subperm

/-!
# Nodes and leaves with what they are in

What a node means may depend on the nodes around it. Here the nodes and the leaves of a tree are listed
together with the nodes that they are in, the innermost one first.

* `Tree.nodesUnder`, `Tree.leavesUnder`   the nodes and leaves of a tree, with what is around them;
* `Tree.suffix_of_mem_nodesUnder`         what is around a tree is around all nodes in it;
* `Tree.mem_nodesUnder_of_leaf`           a leaf is directly in one of these nodes;
* `Tree.mem_nodesUnder_of_nodesUnder`     so is a node, and what is around it is among these nodes;
* `Tree.mem_nodesUnder_of_child`, `Tree.mem_leavesUnder_of_token`   what is directly in a node is in all
                                          that the node is in;
* `Tree.leavesUnder_perm`                 the leaves directly in a node, and those of the nodes in it.
-/

namespace CppMend

namespace Tree

mutual

/-- the nodes of a tree, each before those below it, with the nodes that they are in; those around the
tree are `up` -/
def nodesUnder (up : List Node) : Tree → List (List Node × Node)
  | .leaf _ => []
  | .node kind span children =>
    (up, ⟨kind, span, children⟩) :: nodesOfUnder (⟨kind, span, children⟩ :: up) children

def nodesOfUnder (up : List Node) : List Tree → List (List Node × Node)
  | [] => []
  | t :: ts => nodesUnder up t ++ nodesOfUnder up ts

end

mutual

/-- the leaves of a tree from left to right, with the nodes that they are in -/
def leavesUnder (up : List Node) : Tree → List (List Node × Leaf)
  | .leaf l => [(up, l)]
  | .node kind span children => leavesOfUnder (⟨kind, span, children⟩ :: up) children

def leavesOfUnder (up : List Node) : List Tree → List (List Node × Leaf)
  | [] => []
  | t :: ts => leavesUnder up t ++ leavesOfUnder up ts

end

/-! ## the nodes and leaves themselves -/

mutual

theorem nodesUnder_snd : ∀ (up : List Node) (t : Tree), (t.nodesUnder up).map Prod.snd = t.nodes
  | up, .leaf _ => by rw [nodesUnder, nodes, List.map_nil]
  | up, .node kind span children => by
    rw [nodesUnder, nodes, List.map_cons, nodesOfUnder_snd (⟨kind, span, children⟩ :: up) children]

theorem nodesOfUnder_snd : ∀ (up : List Node) (ts : List Tree),
    (nodesOfUnder up ts).map Prod.snd = nodesOf ts
  | up, [] => by rw [nodesOfUnder, nodesOf, List.map_nil]
  | up, t :: ts => by
    rw [nodesOfUnder, nodesOf, List.map_append, nodesUnder_snd up t, nodesOfUnder_snd up ts]

end

mutual

theorem leavesUnder_snd : ∀ (up : List Node) (t : Tree), (t.leavesUnder up).map Prod.snd = t.leaves
  | up, .leaf _ => by rw [leavesUnder, leaves, List.map_cons, List.map_nil]
  | up, .node kind span children => by
    rw [leavesUnder, leaves, leavesOfUnder_snd (⟨kind, span, children⟩ :: up) children]

theorem leavesOfUnder_snd : ∀ (up : List Node) (ts : List Tree),
    (leavesOfUnder up ts).map Prod.snd = leavesOf ts
  | up, [] => by rw [leavesOfUnder, leavesOf, List.map_nil]
  | up, t :: ts => by
    rw [leavesOfUnder, leavesOf, List.map_append, leavesUnder_snd up t, leavesOfUnder_snd up ts]

end

/-! ## what is around them -/

mutual

theorem suffix_of_mem_nodesUnder : ∀ {up : List Node} {t : Tree} {p : List Node × Node},
    p ∈ t.nodesUnder up → up <:+ p.1
  | up, .leaf _, p, h => by
    rw [nodesUnder] at h
    cases h
  | up, .node kind span children, p, h => by
    rw [nodesUnder, List.mem_cons] at h
    rcases h with rfl | h
    · exact List.suffix_rfl
    · exact (List.suffix_cons _ up).trans (suffix_of_mem_nodesOfUnder h)

/-- What is around some trees is around all nodes in them. -/
theorem suffix_of_mem_nodesOfUnder : ∀ {up : List Node} {ts : List Tree} {p : List Node × Node},
    p ∈ nodesOfUnder up ts → up <:+ p.1
  | up, [], p, h => by
    rw [nodesOfUnder] at h
    cases h
  | up, t :: ts, p, h => by
    rw [nodesOfUnder, List.mem_append] at h
    rcases h with h | h
    · exact suffix_of_mem_nodesUnder h
    · exact suffix_of_mem_nodesOfUnder h

end

mutual

theorem mem_nodesUnder_of_leaf : ∀ {up above : List Node} {t : Tree} {n : Node} {l : Leaf},
    (n :: above, l) ∈ t.leavesUnder up → n :: above = up ∨ (above, n) ∈ t.nodesUnder up
  | up, above, .leaf _, n, l, h => by
    rw [leavesUnder, List.mem_singleton, Prod.mk.injEq] at h
    exact .inl h.1
  | up, above, .node kind span children, n, l, h => by
    rw [leavesUnder] at h
    rw [nodesUnder, List.mem_cons]
    rcases mem_nodesOfUnder_of_leaf h with h | h
    · rw [List.cons.injEq] at h
      exact .inr (.inl (by rw [h.1, h.2]))
    · exact .inr (.inr h)

/-- A leaf is directly in the innermost node of those that it is in. -/
theorem mem_nodesOfUnder_of_leaf : ∀ {up above : List Node} {ts : List Tree} {n : Node} {l : Leaf},
    (n :: above, l) ∈ leavesOfUnder up ts → n :: above = up ∨ (above, n) ∈ nodesOfUnder up ts
  | up, above, [], n, l, h => by
    rw [leavesOfUnder] at h
    cases h
  | up, above, t :: ts, n, l, h => by
    rw [leavesOfUnder, List.mem_append] at h
    rw [nodesOfUnder, List.mem_append]
    rcases h with h | h
    · exact (mem_nodesUnder_of_leaf h).imp_right .inl
    · exact (mem_nodesOfUnder_of_leaf h).imp_right .inr

end

mutual

/-- A node is the whole tree, or directly in the innermost node of those that it is in. -/
theorem mem_nodesUnder_of_nodesUnder : ∀ {up above : List Node} {t : Tree} {n : Node},
    (above, n) ∈ t.nodesUnder up → above = up ∧ t.node? = some n
      ∨ ∃ q rest, above = q :: rest ∧ n ∈ q.nodes ∧ (rest, q) ∈ t.nodesUnder up
  | up, above, .leaf _, n, h => by
    rw [nodesUnder] at h
    cases h
  | up, above, .node kind span children, n, h => by
    rw [nodesUnder, List.mem_cons, Prod.mk.injEq] at h
    rcases h with ⟨rfl, rfl⟩ | h
    · exact .inl ⟨rfl, rfl⟩
    · right
      rw [nodesUnder]
      rcases mem_nodesOfUnder_of_nodesUnder h with ⟨rfl, hn⟩ | ⟨q, rest, rfl, hn, hq⟩
      · exact ⟨_, up, rfl, hn, List.mem_cons_self⟩
      · exact ⟨q, rest, rfl, hn, List.mem_cons_of_mem _ hq⟩

theorem mem_nodesOfUnder_of_nodesUnder : ∀ {up above : List Node} {ts : List Tree} {n : Node},
    (above, n) ∈ nodesOfUnder up ts → above = up ∧ n ∈ ts.filterMap node?
      ∨ ∃ q rest, above = q :: rest ∧ n ∈ q.nodes ∧ (rest, q) ∈ nodesOfUnder up ts
  | up, above, [], n, h => by
    rw [nodesOfUnder] at h
    cases h
  | up, above, t :: ts, n, h => by
    rw [nodesOfUnder, List.mem_append] at h
    rw [nodesOfUnder]
    rcases h with h | h
    · rcases mem_nodesUnder_of_nodesUnder h with ⟨rfl, hn⟩ | ⟨q, rest, rfl, hn, hq⟩
      · exact .inl ⟨rfl, List.mem_filterMap.mpr ⟨t, List.mem_cons_self, hn⟩⟩
      · exact .inr ⟨q, rest, rfl, hn, List.mem_append_left _ hq⟩
    · rcases mem_nodesOfUnder_of_nodesUnder h with ⟨rfl, hn⟩ | ⟨q, rest, rfl, hn, hq⟩
      · obtain ⟨u, hu, hun⟩ := List.mem_filterMap.mp hn
        exact .inl ⟨rfl, List.mem_filterMap.mpr ⟨u, List.mem_cons_of_mem t hu, hun⟩⟩
      · exact .inr ⟨q, rest, rfl, hn, List.mem_append_right _ hq⟩

end

/-- Each node around a node of a tree is one itself, in what is left of the nodes around. -/
theorem exists_mem_nodesUnder_of_around {up : List Node} {t : Tree} {n m : Node}
    (h : (up, n) ∈ t.nodesUnder []) (hm : m ∈ up) :
    ∃ above, above <:+ up ∧ (above, m) ∈ t.nodesUnder [] := by
  induction up generalizing n with
  | nil => cases hm
  | cons q up ih =>
    rcases mem_nodesUnder_of_nodesUnder h with ⟨hnil, -⟩ | ⟨q', rest, heq, -, hq⟩
    · cases hnil
    · cases heq
      rcases List.mem_cons.mp hm with rfl | hm
      · exact ⟨up, List.suffix_cons _ up, hq⟩
      · obtain ⟨above, hsuffix, hmem⟩ := ih hq hm
        exact ⟨above, hsuffix.trans (List.suffix_cons _ up), hmem⟩

mutual

theorem nodesUnder_subset : ∀ {up above : List Node} {t : Tree} {n : Node},
    (above, n) ∈ t.nodesUnder up → n.tree.nodesUnder above ⊆ t.nodesUnder up
  | up, above, .leaf _, n, h => by
    rw [nodesUnder] at h
    cases h
  | up, above, .node kind span children, n, h => by
    rw [nodesUnder, List.mem_cons, Prod.mk.injEq] at h
    rcases h with ⟨rfl, rfl⟩ | h
    · exact List.Subset.refl _
    · rw [nodesUnder]
      exact List.Subset.trans (nodesOfUnder_subset h) (List.subset_cons_self _ _)

/-- The nodes in a node are among those of the trees that the node is in. -/
theorem nodesOfUnder_subset : ∀ {up above : List Node} {ts : List Tree} {n : Node},
    (above, n) ∈ nodesOfUnder up ts → n.tree.nodesUnder above ⊆ nodesOfUnder up ts
  | up, above, [], n, h => by
    rw [nodesOfUnder] at h
    cases h
  | up, above, t :: ts, n, h => by
    rw [nodesOfUnder, List.mem_append] at h
    rw [nodesOfUnder]
    rcases h with h | h
    · exact List.Subset.trans (nodesUnder_subset h) (List.subset_append_left _ _)
    · exact List.Subset.trans (nodesOfUnder_subset h) (List.subset_append_right _ _)

end

theorem mem_nodesOfUnder_of_child {up : List Node} {ts : List Tree} {n : Node}
    (h : n ∈ ts.filterMap node?) : (up, n) ∈ nodesOfUnder up ts := by
  induction ts with
  | nil => cases h
  | cons t ts ih =>
    rw [nodesOfUnder, List.mem_append]
    obtain ⟨u, hu, hn⟩ := List.mem_filterMap.mp h
    rcases List.mem_cons.mp hu with rfl | hu
    · left
      cases u with
      | leaf l => cases hn
      | node kind span children =>
        cases hn
        rw [nodesUnder]
        exact List.mem_cons_self
    · exact .inr (ih (List.mem_filterMap.mpr ⟨u, hu, hn⟩))

/-- A node directly in a node of a tree is in that and in what is around it. -/
theorem mem_nodesUnder_of_child {up above : List Node} {t : Tree} {n m : Node}
    (h : (above, n) ∈ t.nodesUnder up) (hm : m ∈ n.nodes) : (n :: above, m) ∈ t.nodesUnder up := by
  refine nodesUnder_subset h ?_
  rw [Node.tree, nodesUnder]
  exact List.mem_cons_of_mem _ (mem_nodesOfUnder_of_child hm)

/-! ## leaves side by side -/

/-- the leaves of the nodes among some trees -/
def leavesInNodes (up : List Node) (ts : List Tree) : List (List Node × Leaf) :=
  (ts.filterMap node?).flatMap fun m => m.tree.leavesUnder up

theorem leavesOfUnder_perm (up : List Node) (ts : List Tree) : (leavesOfUnder up ts).Perm
    ((ts.filterMap leaf?).map (Prod.mk up) ++ leavesInNodes up ts) := by
  induction ts with
  | nil => exact .refl _
  | cons t ts ih =>
    rw [leavesOfUnder]
    cases t with
    | leaf l => exact ih.cons _
    | node kind span children =>
      refine (ih.append_left _).trans ?_
      rw [← List.append_assoc]
      refine (List.perm_append_comm.append_right _).trans ?_
      rw [List.append_assoc]
      exact .refl _

/-- The leaves below a node are those directly in it, and those of the nodes in it. -/
theorem leavesUnder_perm (up : List Node) (n : Node) : (n.tree.leavesUnder up).Perm
    (n.tokens.map (Prod.mk (n :: up)) ++ leavesInNodes (n :: up) n.children) :=
  leavesOfUnder_perm (n :: up) n.children

mutual

theorem leavesUnder_subset : ∀ {up above : List Node} {t : Tree} {n : Node},
    (above, n) ∈ t.nodesUnder up → n.tree.leavesUnder above ⊆ t.leavesUnder up
  | up, above, .leaf _, n, h => by
    rw [nodesUnder] at h
    cases h
  | up, above, .node kind span children, n, h => by
    rw [nodesUnder, List.mem_cons, Prod.mk.injEq] at h
    rcases h with ⟨rfl, rfl⟩ | h
    · exact List.Subset.refl _
    · rw [leavesUnder]
      exact leavesOfUnder_subset h

/-- The leaves in a node are among those of the trees that the node is in. -/
theorem leavesOfUnder_subset : ∀ {up above : List Node} {ts : List Tree} {n : Node},
    (above, n) ∈ nodesOfUnder up ts → n.tree.leavesUnder above ⊆ leavesOfUnder up ts
  | up, above, [], n, h => by
    rw [nodesOfUnder] at h
    cases h
  | up, above, t :: ts, n, h => by
    rw [nodesOfUnder, List.mem_append] at h
    rw [leavesOfUnder]
    rcases h with h | h
    · exact List.Subset.trans (leavesUnder_subset h) (List.subset_append_left _ _)
    · exact List.Subset.trans (leavesOfUnder_subset h) (List.subset_append_right _ _)

end

theorem mem_leavesUnder_of_token {up above : List Node} {t : Tree} {n : Node} {l : Leaf}
    (h : (above, n) ∈ t.nodesUnder up) (hl : l ∈ n.tokens) : (n :: above, l) ∈ t.leavesUnder up :=
  leavesUnder_subset h ((leavesUnder_perm above n).mem_iff.mpr
    (List.mem_append_left _ (List.mem_map_of_mem hl)))

end Tree

end CppMend
