import CppMend.Proofs.Grammar.Braces
import CppMend.Proofs.Tree.Nodes

/-!
# How constructs in braces start and end

In the tree of a text, a construct in braces has a `{` for its first child. It has a `}` for its
last one, or nothing but blanks and comments come after it.

* `Node.hasCloser`   the last child of a node is a `}`;
* `Node.Fenced`      how a construct in braces starts and ends;
* `rootOf_fenced`    every one in the tree of some tokens starts and ends so.
-/

namespace CppMend

/-- a `}` -/
def Tree.isCloser : Tree → Bool
  | .leaf l => l.kind = .rBrace
  | .node .. => false

/-- the last child is a `}` -/
def Node.hasCloser (n : Node) : Bool := n.children.getLast?.any Tree.isCloser

/-- Among the leaves of a text, a node starts with a `{`, and it ends with a `}` or only blanks and
comments follow it. -/
structure Node.Fenced (n : Node) (all : List Leaf) : Prop where
  opens : ∃ first, n.children.head? = some (.leaf first) ∧ first.kind = .lBrace
  shuts : n.hasCloser = true ∨
    ∃ before after, all = before ++ (n.leaves ++ after) ∧ ∀ l ∈ after, l.isTrivia = true

namespace Outline

/-- a token that is placed where it is next -/
theorem place_token_of_fresh {f : Feed} (hf : f.Fresh) {k : TokenKind} {ks : List TokenKind}
    (h : Token.kinds f.tokens = k :: ks) :
    ∃ l, (Outline.token.place f).1 = [.leaf l] ∧ l.kind = k := by
  cases ht : f.tokens with
  | nil =>
    rw [ht] at h
    cases h
  | cons t ts =>
    have hk : Token.kinds (t :: ts) = t.kind :: Token.kinds ts := by
      simp [Token.kinds, hf.isTrivia ht]
    rw [ht, hk, List.cons.injEq] at h
    refine ⟨⟨t.kind, t.text, f.offset⟩, ?_, h.1⟩
    rw [Feed.Fresh] at hf
    rw [place_token, hf, Feed.takeOne, ht]
    rfl

/-- a token that is placed after blanks -/
theorem place_token_last {f : Feed} {k : TokenKind} (h : (Token.kinds f.tokens).head? = some k) :
    ∃ l, (Outline.token.place f).1.getLast? = some (.leaf l) ∧ l.kind = k := by
  rw [← Feed.takeBlanks_kinds] at h
  obtain ⟨ks, hks⟩ := List.head?_eq_some_iff.mp h
  obtain ⟨l, hl, hk⟩ := place_token_of_fresh f.fresh_takeBlanks hks
  refine ⟨l, ?_, hk⟩
  rw [place_takeBlanks, hl, List.getLast?_concat]

end Outline

/-- the kinds of some tokens are all gone just where they are blanks and comments -/
theorem Token.isTrivia_of_kinds_eq_nil {ts : List Token} (h : Token.kinds ts = []) :
    ∀ t ∈ ts, t.isTrivia = true := by
  intro t ht
  rw [Token.kinds, List.map_eq_nil_iff, List.filter_eq_nil_iff] at h
  simpa using h t ht

/-- The constructs in braces of a text are fenced. -/
theorem rootOf_fenced {ts : List Token} {n : Node} (hn : n ∈ Tree.nodesOf (rootOf ts).children)
    (hk : n.kind.isBraced = true) : n.Fenced (Leaf.row 0 ts) := by
  obtain ⟨past, g, parts, hl, hg, hlaw, hch⟩ := rootOf_law (braceLaw_outline (cues ts)) hn
  obtain ⟨os, rest, hks, rfl, hshut⟩ := hlaw hk
  obtain ⟨first, hfirst, hfk⟩ := Outline.place_token_of_fresh hg hks
  have hch' : n.children = .leaf first :: (Outline.placeAll os (Outline.token.place g).2).1 := by
    rw [hch, Outline.placeAll_cons, hfirst]
    rfl
  have hrest : Token.kinds (Outline.token.place g).2.tokens = rest := by
    rw [Outline.kinds_place, hks]
    rfl
  refine ⟨⟨first, by rw [hch']; rfl, hfk⟩, ?_⟩
  rcases hshut with h | ⟨ps, rfl, h⟩
  · -- nothing is left
    right
    obtain ⟨taken, -, -, hall⟩ := leaves_of_placed hl hch
    refine ⟨_, _, hall, ?_⟩
    intro l hm
    have hm' := List.mem_map_of_mem (f := Leaf.token) hm
    rw [Leaf.map_token_row] at hm'
    rw [← hrest, ← Outline.kinds_placeAll] at h
    exact Token.isTrivia_of_kinds_eq_nil h _ hm'
  · left
    rw [← hrest, ← Outline.kinds_placeAll] at h
    obtain ⟨last, hlast, hlk⟩ := Outline.place_token_last h
    have hne : (Outline.token.place (Outline.placeAll ps (Outline.token.place g).2).2).1 ≠ [] := by
      intro he
      rw [he] at hlast
      cases hlast
    have hgl : n.children.getLast? = some (.leaf last) := by
      rw [hch', Outline.placeAll_append, Outline.placeAll_singleton, ← List.cons_append,
        List.getLast?_append_of_ne_nil _ hne, hlast]
    rw [Node.hasCloser, hgl]
    exact decide_eq_true hlk

end CppMend
