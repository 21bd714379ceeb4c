import CppMend.Proofs.Tree.Leaves

/-!
# Spans of trees

The span of a node is that of its children, one right after the other, so children lie inside of
their parent and apart from each other.

* `Tree.Spans`, `Tree.Tile`      the bytes of a tree, and trees that stand side by side;
* `Outline.placeAll_tile`        outlines are placed side by side;
* `Tree.lies_of_mem_nodesOf`     a node lies among the trees it is in, and its children tile it;
* `rootOf_spans`                 the tree of some tokens stands for all of their bytes.
-/

namespace CppMend

namespace Tree

mutual

/-- the tree stands for the bytes from `a` to `b`, and its children for the same bytes -/
def Spans : Tree → Nat → Nat → Prop
  | .leaf l, a, b => l.start = a ∧ b = a + l.text.byteSize
  | .node _ span children, a, b => span = Span.between a b ∧ Tile children a b

/-- the trees stand side by side for the bytes from `a` to `b` -/
def Tile : List Tree → Nat → Nat → Prop
  | [], a, b => a = b
  | t :: ts, a, b => ∃ m, t.Spans a m ∧ Tile ts m b

end

variable {a b m : Nat}

mutual

theorem Spans.le : ∀ {t : Tree} {a b : Nat}, t.Spans a b → a ≤ b
  | .leaf l, a, b, h => by
    rw [Spans] at h
    omega
  | .node _ _ children, a, b, h => by
    rw [Spans] at h
    exact Tile.le h.2

theorem Tile.le : ∀ {ts : List Tree} {a b : Nat}, Tile ts a b → a ≤ b
  | [], a, b, h => by
    rw [Tile] at h
    omega
  | t :: ts, a, b, h => by
    rw [Tile] at h
    obtain ⟨m, ht, hts⟩ := h
    have h₁ := Spans.le ht
    have h₂ := Tile.le hts
    omega

end

theorem Tile.nil (a : Nat) : Tile [] a a := by
  rw [Tile]

theorem Tile.cons {t : Tree} {ts : List Tree} (h : t.Spans a m) (h' : Tile ts m b) :
    Tile (t :: ts) a b := by
  rw [Tile]
  exact ⟨m, h, h'⟩

theorem Tile.append {ts us : List Tree} (h : Tile ts a m) (h' : Tile us m b) :
    Tile (ts ++ us) a b := by
  induction ts generalizing a with
  | nil =>
    rw [Tile] at h
    rw [h]
    exact h'
  | cons t ts ih =>
    rw [Tile] at h
    obtain ⟨k, ht, hts⟩ := h
    exact Tile.cons ht (ih hts)

theorem Tile.singleton {t : Tree} (h : t.Spans a b) : Tile [t] a b := Tile.cons h (Tile.nil b)

/-- the ends of a span that stands for some bytes -/
theorem Spans.ends {t : Tree} (h : t.Spans a b) : t.span.start = a ∧ t.span.stop = b := by
  cases t with
  | leaf l =>
    rw [Spans] at h
    exact ⟨h.1, by rw [h.2, ← h.1]; rfl⟩
  | node kind span children =>
    have hle := h.le
    rw [Spans] at h
    show span.start = a ∧ span.stop = b
    rw [h.1]
    refine ⟨rfl, ?_⟩
    show a + (b - a) = b
    omega

/-! ## nodes and leaves among trees -/

/-- A node lies among the trees that it is in, and its children stand side by side in it. -/
structure Lies (n : Node) (a b : Nat) : Prop where
  start : a ≤ n.span.start
  stop : n.span.stop ≤ b
  tile : Tile n.children n.span.start n.span.stop

theorem Lies.le {n : Node} (h : Lies n a b) : n.span.start ≤ n.span.stop := h.tile.le

theorem Lies.mono {n : Node} {a' b' : Nat} (h : Lies n a b) (ha : a' ≤ a) (hb : b ≤ b') :
    Lies n a' b' := ⟨Nat.le_trans ha h.start, Nat.le_trans h.stop hb, h.tile⟩

theorem lies_of_spans {kind : NodeKind} {span : Span} {children : List Tree}
    (h : (Tree.node kind span children).Spans a b) : Lies ⟨kind, span, children⟩ a b := by
  obtain ⟨ha, hb⟩ := h.ends
  have ht : Tile children a b := by
    rw [Spans] at h
    exact h.2
  subst ha
  subst hb
  exact ⟨Nat.le_refl _, Nat.le_refl _, ht⟩

mutual

theorem lies_of_mem_nodes : ∀ {t : Tree} {a b : Nat}, t.Spans a b → ∀ {n : Node}, n ∈ t.nodes →
    Lies n a b
  | .leaf _, _, _, _, _, hn => by
    rw [nodes] at hn
    cases hn
  | .node kind span children, a, b, h, n, hn => by
    rw [nodes, List.mem_cons] at hn
    rcases hn with rfl | hn
    · exact lies_of_spans h
    · rw [Spans] at h
      exact lies_of_mem_nodesOf h.2 hn

theorem lies_of_mem_nodesOf : ∀ {ts : List Tree} {a b : Nat}, Tile ts a b → ∀ {n : Node},
    n ∈ nodesOf ts → Lies n a b
  | [], _, _, _, _, hn => by
    rw [nodesOf] at hn
    cases hn
  | t :: ts, a, b, h, n, hn => by
    rw [Tile] at h
    obtain ⟨m, ht, hts⟩ := h
    rw [nodesOf, List.mem_append] at hn
    rcases hn with hn | hn
    · exact (lies_of_mem_nodes ht hn).mono (Nat.le_refl a) hts.le
    · exact (lies_of_mem_nodesOf hts hn).mono ht.le (Nat.le_refl b)

end

mutual

/-- a leaf lies among the trees that it is in -/
theorem span_of_mem_leaves : ∀ {t : Tree} {a b : Nat}, t.Spans a b → ∀ {l : Leaf}, l ∈ t.leaves →
    a ≤ l.span.start ∧ l.span.stop ≤ b
  | .leaf k, a, b, h, l, hl => by
    rw [leaves, List.mem_singleton] at hl
    obtain ⟨ha, hb⟩ := h.ends
    rw [hl]
    exact ⟨Nat.le_of_eq ha.symm, Nat.le_of_eq hb⟩
  | .node _ _ children, a, b, h, l, hl => by
    rw [Spans] at h
    rw [leaves] at hl
    exact span_of_mem_leavesOf h.2 hl

theorem span_of_mem_leavesOf : ∀ {ts : List Tree} {a b : Nat}, Tile ts a b → ∀ {l : Leaf},
    l ∈ leavesOf ts → a ≤ l.span.start ∧ l.span.stop ≤ b
  | [], _, _, _, _, hl => by
    rw [leavesOf] at hl
    cases hl
  | t :: ts, a, b, h, l, hl => by
    rw [Tile] at h
    obtain ⟨m, ht, hts⟩ := h
    rw [leavesOf, List.mem_append] at hl
    rcases hl with hl | hl
    · have h₁ := span_of_mem_leaves ht hl
      have h₂ := hts.le
      omega
    · have h₁ := span_of_mem_leavesOf hts hl
      have h₂ := ht.le
      omega

end

end Tree

/-! ## placing -/

open CppMend.Tree in
theorem Feed.leaves_tile (offset : Nat) (ts : List Token) :
    Tile (leaves offset ts) offset (offset + width ts) := by
  induction ts generalizing offset with
  | nil => exact Tile.nil offset
  | cons t ts ih =>
    rw [width_cons, ← Nat.add_assoc, leaves]
    have ht : (Tree.leaf ⟨t.kind, t.text, offset⟩).Spans offset (offset + t.text.byteSize) := by
      rw [Spans]
      exact ⟨rfl, rfl⟩
    exact Tile.cons ht (ih _)

namespace Outline

open CppMend.Tree

mutual

theorem place_tile : ∀ (o : Outline) (f : Feed), Tile (o.place f).1 f.offset (o.place f).2.offset
  | .token, f => by
    rw [place_token]
    exact (Feed.leaves_tile _ _).append (Feed.leaves_tile _ _)
  | .blank, f => by
    rw [place_blank]
    exact Feed.leaves_tile _ _
  | .node kind parts, f => by
    have hp := placeAll_tile parts f.takeBlanks.2
    rw [place_node]
    refine (Feed.leaves_tile _ _).append (Tile.singleton ?_)
    rw [Spans]
    exact ⟨rfl, hp⟩

/-- outlines are placed side by side -/
theorem placeAll_tile : ∀ (os : List Outline) (f : Feed),
    Tile (placeAll os f).1 f.offset (placeAll os f).2.offset
  | [], f => by
    rw [placeAll_nil]
    exact Tile.nil _
  | o :: os, f => by
    rw [placeAll_cons]
    exact (place_tile o f).append (placeAll_tile os (o.place f).2)

end

end Outline

/-- The tree of some tokens stands for all of their bytes. -/
theorem rootOf_spans (ts : List Token) : ∃ size, (rootOf ts).tree.Spans 0 size := by
  refine ⟨(Outline.placeAll (outline (cues ts)) ⟨ts, 0⟩).2.offset, ?_⟩
  show (Tree.node .root (Span.between 0 _) _).Spans 0 _
  rw [Tree.Spans]
  exact ⟨rfl, Outline.placeAll_tile _ _⟩

end CppMend
