import CppMend.Proofs.Grammar.Contents
import CppMend.Proofs.Tree.Fences

/-!
# Nodes side by side

The nodes directly in a node are placed from the outlines of nodes among its parts, in the same order.
So in the tree of a text a node has only nodes of those kinds directly in it that its own kind may hold.

* `Outline.placed`      the nodes side by side in what is placed;
* `Outline.mem_placed`  they come from outlines of nodes;
* `rootOf_holds`        a node in a tree holds only what its kind may hold.
-/

namespace CppMend

theorem Feed.nodes_leaves (offset : Nat) (ts : List Token) :
    (leaves offset ts).filterMap Tree.node? = [] := by
  induction ts generalizing offset with
  | nil => rfl
  | cons t ts ih => exact ih _

namespace Outline

/-- the nodes side by side in what is placed -/
def placed (os : List Outline) (f : Feed) : List Node := (placeAll os f).1.filterMap Tree.node?

theorem placed_append (os ps : List Outline) (f : Feed) :
    placed (os ++ ps) f = placed os f ++ placed ps (placeAll os f).2 := by
  rw [placed, placeAll_append, List.filterMap_append]
  rfl

/-- what is placed last comes last -/
theorem getLast?_append {os ps : List Outline} {f : Feed} {t : Tree}
    (h : (placeAll ps (placeAll os f).2).1.getLast? = some t) :
    (placeAll (os ++ ps) f).1.getLast? = some t := by
  rw [placeAll_append, List.getLast?_append, h]
  rfl

theorem placed_tokens (n : Nat) (f : Feed) : placed (List.replicate n .token) f = [] := by
  induction n generalizing f with
  | zero => rfl
  | succ n ih =>
    have htoken : placed [.token] f = [] := by
      rw [placed, placeAll_singleton, place_token, List.filterMap_append]
      exact congrArg₂ (· ++ ·) (Feed.nodes_leaves _ _) (Feed.nodes_leaves _ _)
    rw [List.replicate_succ, ← List.singleton_append, placed_append, htoken, ih]
    rfl

/-- A node is placed after the blanks that come first, and takes what is next. -/
theorem placed_node (kind : NodeKind) (parts : List Outline) (f : Feed) : ∃ m : Node,
    placed [.node kind parts] f = [m] ∧ (placeAll [.node kind parts] f).1.getLast? = some m.tree
      ∧ m.kind = kind ∧ m.children = (placeAll parts f.takeBlanks.2).1 := by
  let g := f.takeBlanks.2
  refine ⟨⟨kind, Span.between g.offset (placeAll parts g).2.offset, (placeAll parts g).1⟩, ?_, ?_, rfl, rfl⟩
  · rw [placed, placeAll_singleton, place_node, List.filterMap_append,
      show f.takeBlanks.1.filterMap Tree.node? = [] from Feed.nodes_leaves _ _]
    rfl
  · rw [placeAll_singleton, place_node, List.getLast?_concat]
    rfl

/-- A node whose first token is next starts with this token. -/
theorem head_placed_node {parts : List Outline} {f : Feed} {m : Node} {k : TokenKind}
    (h : m.children = (placeAll (.token :: parts) f.takeBlanks.2).1)
    (hk : (Token.kinds f.tokens).head? = some k) :
    ∃ first, m.children.head? = some (.leaf first) ∧ first.kind = k := by
  rw [← Feed.takeBlanks_kinds] at hk
  obtain ⟨ks, hks⟩ := List.head?_eq_some_iff.mp hk
  obtain ⟨first, hfirst, hkind⟩ := place_token_of_fresh f.fresh_takeBlanks hks
  refine ⟨first, ?_, hkind⟩
  rw [h, placeAll_cons, hfirst]
  rfl

/-- A node that is placed has the kind of one of the outlines. -/
theorem mem_placed {os : List Outline} {f : Feed} {m : Node} (h : m ∈ placed os f) :
    ∃ parts, .node m.kind parts ∈ os := by
  induction os generalizing f with
  | nil => cases h
  | cons o os ih =>
    rw [← List.singleton_append, placed_append, List.mem_append] at h
    rcases h with h | h
    · cases o with
      | token =>
        rw [show [Outline.token] = List.replicate 1 .token from rfl, placed_tokens] at h
        cases h
      | blank =>
        rw [placed, placeAll_singleton, place_blank] at h
        rw [show f.takeBlanks.1.filterMap Tree.node? = [] from Feed.nodes_leaves _ _] at h
        cases h
      | node kind parts =>
        obtain ⟨n, hn, -, rfl, -⟩ := placed_node kind parts f
        rw [hn, List.mem_singleton] at h
        exact ⟨parts, by rw [h]; exact List.mem_cons_self⟩
    · obtain ⟨parts, hp⟩ := ih h
      exact ⟨parts, List.mem_cons_of_mem o hp⟩

end Outline

/-! ## what nodes hold -/

theorem Outline.isOf_of_placed {allowed : NodeKind → Bool} {os : List Outline} {f : Feed} {m : Node}
    (h : os.all (Rule.isOf allowed) = true) (hm : m ∈ placed os f) : allowed m.kind = true := by
  obtain ⟨parts, hp⟩ := mem_placed hm
  exact List.all_eq_true.mp h _ hp

/-- In the tree of a text, the nodes directly in a node are of kinds that its own kind may hold. -/
theorem rootOf_holds {ts : List Token} {n : Node} (hn : n ∈ (rootOf ts).descendants) {m : Node}
    (hm : m ∈ n.nodes) : n.kind.holds m.kind = true := by
  rcases List.mem_cons.mp hn with rfl | hn
  · exact Outline.isOf_of_placed (outline_isItem (cues ts)) hm
  · obtain ⟨past, g, parts, -, -, hlaw, hch⟩ := rootOf_law (contentLaw_outline (cues ts)) hn
    rw [Node.nodes, hch] at hm
    exact Outline.isOf_of_placed hlaw hm

end CppMend
