import CppMend.Proofs.Lexical.Nesting
import CppMend.Proofs.Tree.Fences
import Mathlib.Data.List.Induction

/-!
# Braces of nodes

A construct in braces starts with a `{` and ends with a `}` of its own. That this `}` is the one
that closes the `{` depends on the braces that the construct takes loosely, outside of the
constructs in braces that are in it: they are to be nested.

* `Tree.looseOf`           the tokens that are in no construct in braces;
* `Node.inside`            what stands between the braces of a node;
* `Tree.nested_iff_loose`  constructs with nested braces do not matter for what they are in;
* `Parsed.Matches`         a node reaches from a `{` to the `}` that closes it;
* `parse_braces`           constructs in braces do so where their loose braces are nested.
-/

namespace CppMend

namespace Tree

mutual

/-- the kinds of the leaves that are in no construct in braces -/
def loose : Tree → List TokenKind
  | .leaf l => [l.kind]
  | .node kind _ children => if kind.isBraced then [] else looseOf children

def looseOf : List Tree → List TokenKind
  | [] => []
  | t :: ts => t.loose ++ looseOf ts

end

def kindsOf (ts : List Tree) : List TokenKind := (leavesOf ts).map (·.kind)

theorem kindsOf_append (ts us : List Tree) : kindsOf (ts ++ us) = kindsOf ts ++ kindsOf us := by
  rw [kindsOf, leavesOf_append, List.map_append]
  rfl

theorem kindsOf_cons (t : Tree) (ts : List Tree) : kindsOf (t :: ts) = kindsOf [t] ++ kindsOf ts :=
  kindsOf_append [t] ts

theorem kindsOf_leaf (l : Leaf) : kindsOf [.leaf l] = [l.kind] := rfl

end Tree

namespace Node

def kinds (n : Node) : List TokenKind := Tree.kindsOf n.children

/-- what comes after the first child, without a `}` at the end -/
def inside (n : Node) : List Tree :=
  if n.hasCloser then n.children.tail.dropLast else n.children.tail

/-- the first child is a `{` and the last one a `}` -/
structure Framed (n : Node) (first last : Leaf) : Prop where
  children : n.children = .leaf first :: (n.inside ++ [.leaf last])
  first : first.kind = .lBrace
  last : last.kind = .rBrace

namespace Framed

variable {n : Node} {first last : Leaf}

theorem significant_leaves (h : n.Framed first last) : n.leaves.filter (!·.isTrivia)
    = first :: ((Tree.leavesOf n.inside).filter (!·.isTrivia) ++ [last]) := by
  have hl : n.leaves = first :: (Tree.leavesOf n.inside ++ [last]) := by
    show Tree.leavesOf n.children = _
    rw [h.children, Tree.leavesOf, Tree.leavesOf_append]
    rfl
  have hf : first.isTrivia = false := by
    rw [Leaf.isTrivia, h.first]
    rfl
  have hr : last.isTrivia = false := by
    rw [Leaf.isTrivia, h.last]
    rfl
  rw [hl, List.filter_cons_of_pos (by rw [hf]; rfl), List.filter_append,
    List.filter_cons_of_pos (by rw [hr]; rfl), List.filter_nil]

theorem nested_kinds (h : n.Framed first last) (hi : Nested (Tree.kindsOf n.inside)) :
    Nested n.kinds := by
  rw [kinds, h.children, Tree.kindsOf_cons, Tree.kindsOf_append, Tree.kindsOf_leaf,
    Tree.kindsOf_leaf, h.first, h.last]
  exact hi.enclose

theorem hasCloser (h : n.Framed first last) : n.hasCloser = true := by
  rw [Node.hasCloser, h.children, ← List.cons_append, List.getLast?_concat]
  exact decide_eq_true h.last

end Framed

theorem mem_children_of_inside {n : Node} {t : Tree} (h : t ∈ n.inside) : t ∈ n.children := by
  rw [inside] at h
  split at h
  · exact List.mem_of_mem_tail (List.dropLast_subset _ h)
  · exact List.mem_of_mem_tail h

/-- A node that starts with a `{` and has a `}` for its last child is framed. -/
theorem framed_of_closer {n : Node} {first : Leaf} (hf : n.children.head? = some (.leaf first))
    (hk : first.kind = .lBrace) (h : n.hasCloser = true) : ∃ last, n.Framed first last := by
  obtain ⟨ts, hts⟩ := List.head?_eq_some_iff.mp hf
  obtain ⟨t, hl, hc⟩ := (Option.any_eq_true ..).mp h
  cases t with
  | node => cases hc
  | leaf last =>
    have hr : last.kind = .rBrace := of_decide_eq_true hc
    refine ⟨last, ?_, hk, hr⟩
    rw [inside, if_pos h, hts, List.tail_cons]
    cases ts using List.reverseRecOn with
    | nil =>
      rw [hts] at hl
      rw [Tree.leaf.inj (Option.some.inj hl), hr] at hk
      cases hk
    | append_singleton ts u =>
      rw [hts, ← List.cons_append, List.getLast?_concat] at hl
      rw [List.dropLast_concat, Option.some.inj hl]

end Node

namespace Tree

theorem mem_nodesOf_of_inside {n m : Node} (h : m ∈ nodesOf n.inside) : m ∈ nodesOf n.children := by
  obtain ⟨t, ht, hm⟩ := mem_nodesOf.mp h
  exact mem_nodesOf.mpr ⟨t, Node.mem_children_of_inside ht, hm⟩

mutual

/-- Constructs with nested braces do not count. -/
theorem depth_loose : ∀ {t : Tree},
    (∀ m ∈ t.nodes, m.kind.isBraced = true → Nested m.kinds) → ∀ depth,
    braceDepth? depth (kindsOf [t]) = braceDepth? depth t.loose
  | .leaf l, _, depth => rfl
  | .node kind span children, h, depth => by
    rw [nodes, List.forall_mem_cons] at h
    have hk : kindsOf [.node kind span children] = kindsOf children := by
      rw [kindsOf, leavesOf, leavesOf, leaves, List.append_nil]
      rfl
    rw [hk, loose]
    split
    · next hb => exact (h.1 hb).depth_eq depth
    · exact depth_looseOf h.2 depth

theorem depth_looseOf : ∀ {ts : List Tree},
    (∀ m ∈ nodesOf ts, m.kind.isBraced = true → Nested m.kinds) → ∀ depth,
    braceDepth? depth (kindsOf ts) = braceDepth? depth (looseOf ts)
  | [], _, _ => rfl
  | t :: ts, h, depth => by
    rw [nodesOf, List.forall_mem_append] at h
    rw [kindsOf_cons, looseOf, braceDepth?_append, braceDepth?_append, depth_loose h.1]
    congr 1
    funext d
    exact depth_looseOf h.2 d

end

/-- Where all constructs in it have nested braces, a stretch has if its loose braces are nested. -/
theorem nested_iff_loose {ts : List Tree}
    (h : ∀ m ∈ nodesOf ts, m.kind.isBraced = true → Nested m.kinds) :
    Nested (kindsOf ts) ↔ Nested (looseOf ts) := by
  rw [Nested, Nested, depth_looseOf h]

mutual

/-- Constructs close where their braces do if their loose braces are nested, and nested braces make
them close. -/
theorem nested_of_loose : ∀ {t : Tree},
    (∀ m ∈ t.nodes, m.kind.isBraced = true →
      Nested (looseOf m.inside) ∧ (Nested (kindsOf m.inside) → Nested m.kinds)) →
    ∀ m ∈ t.nodes, m.kind.isBraced = true → Nested m.kinds
  | .leaf l, _, m, hm, _ => by
    rw [nodes] at hm
    cases hm
  | .node kind span children, h, m, hm, hk => by
    rw [nodes, List.forall_mem_cons] at h
    have hc := nestedOf_of_loose h.2
    rw [nodes, List.mem_cons] at hm
    rcases hm with rfl | hm
    · have hi := (nested_iff_loose fun m hm => hc m (mem_nodesOf_of_inside hm)).mpr (h.1 hk).1
      exact (h.1 hk).2 hi
    · exact hc m hm hk

theorem nestedOf_of_loose : ∀ {ts : List Tree},
    (∀ m ∈ nodesOf ts, m.kind.isBraced = true →
      Nested (looseOf m.inside) ∧ (Nested (kindsOf m.inside) → Nested m.kinds)) →
    ∀ m ∈ nodesOf ts, m.kind.isBraced = true → Nested m.kinds
  | [], _, m, hm, _ => by
    rw [nodesOf] at hm
    cases hm
  | t :: ts, h, m, hm, hk => by
    rw [nodesOf, List.forall_mem_append] at h
    rw [nodesOf, List.mem_append] at hm
    rcases hm with hm | hm
    · exact nested_of_loose h.1 m hm hk
    · exact nestedOf_of_loose h.2 m hm hk

end

end Tree

/-! ## whole texts -/

theorem braceDepth?_significant (depth : Nat) (ls : List Leaf) :
    braceDepth? depth ((ls.filter (!·.isTrivia)).map (·.kind))
      = braceDepth? depth (ls.map (·.kind)) := by
  induction ls generalizing depth with
  | nil => rfl
  | cons l ls ih =>
    cases h : l.isTrivia with
    | false =>
      rw [List.filter_cons_of_pos (by rw [h]; rfl), List.map_cons, List.map_cons, braceDepth?,
        braceDepth?, ih, ih, ih]
    | true =>
      have hk : l.kind ≠ .lBrace ∧ l.kind ≠ .rBrace := by
        refine ⟨?_, ?_⟩ <;> intro hk <;> rw [Leaf.isTrivia, hk] at h <;> cases h
      rw [List.filter_cons_of_neg (by rw [h]; decide), List.map_cons, ih,
        braceDepth?_skip depth _ hk.1 hk.2]

theorem Leaf.filter_eq_nil {ls : List Leaf} (h : ∀ l ∈ ls, l.isTrivia = true) :
    ls.filter (!·.isTrivia) = [] := by
  rw [List.filter_eq_nil_iff]
  intro l hl
  rw [h l hl]
  decide

/-- A fenced node is framed if what is inside is nested, and so is the whole text. -/
theorem Node.Fenced.framed {n : Node} {all : List Leaf} (h : n.Fenced all)
    (ha : Nested (all.map (·.kind))) (hi : Nested (Tree.kindsOf n.inside)) :
    ∃ first last, n.Framed first last := by
  obtain ⟨⟨first, hf, hk⟩, hs⟩ := h
  by_cases hc : n.hasCloser = true
  · exact ⟨first, Node.framed_of_closer hf hk hc⟩
  · -- the `{` stays open up to the end of the text
    obtain ⟨before, after, he, htr⟩ := hs.resolve_left hc
    obtain ⟨ts, hts⟩ := List.head?_eq_some_iff.mp hf
    rw [Node.inside, if_neg hc, hts, List.tail_cons] at hi
    have hn : n.leaves.map (·.kind) = .lBrace :: Tree.kindsOf ts := by
      show Tree.kindsOf n.children = _
      rw [hts, Tree.kindsOf_cons, Tree.kindsOf_leaf, hk]
      rfl
    have hafter := Leaf.filter_eq_nil htr
    rw [he, Nested, ← braceDepth?_significant, ← List.append_assoc, List.filter_append, hafter,
      List.append_nil, braceDepth?_significant, List.map_append, hn] at ha
    exact absurd ha (hi.not_open _)

/-- In the table of a text, a node reaches from a `{` to the `}` that closes it. -/
def Parsed.Matches (t : Parsed) (n : Node) : Prop :=
  ∃ before first inner last after, t.tokens = before ++ (first :: (inner ++ [last]) ++ after)
    ∧ n.leaves.filter (!·.isTrivia) = first :: (inner ++ [last])
    ∧ first.kind = .lBrace ∧ last.kind = .rBrace ∧ Nested (inner.map (·.kind))

theorem Parsed.matches_iff {t : Parsed} {n : Node} {first last : Leaf} (h : n.Framed first last)
    (hn : n.leaves <:+: t.root.leaves) (ht : t.tokens = t.root.leaves.filter (!·.isTrivia)) :
    t.Matches n ↔ Nested (Tree.kindsOf n.inside) := by
  have hi : Nested (((Tree.leavesOf n.inside).filter (!·.isTrivia)).map (·.kind))
      ↔ Nested (Tree.kindsOf n.inside) := by
    rw [Nested, braceDepth?_significant]
    rfl
  rw [← hi]
  refine ⟨?_, ?_⟩
  · rintro ⟨before, first', inner, last', after, -, he, -, -, hin⟩
    rw [h.significant_leaves, List.cons.injEq] at he
    rw [(List.append_inj' he.2 rfl).1]
    exact hin
  · intro hin
    obtain ⟨before, after, he⟩ := hn
    refine ⟨before.filter (!·.isTrivia), first, _, last, after.filter (!·.isTrivia), ?_,
      h.significant_leaves, h.first, h.last, hin⟩
    rw [ht, ← he, List.filter_append, List.filter_append, h.significant_leaves, List.append_assoc]

namespace Parsed

/-- The constructs in braces in a node match, and each has its `}` for its last child. -/
def AllMatch (t : Parsed) (n : Node) : Prop :=
  ∀ m ∈ n.descendants, m.kind.isBraced = true → t.Matches m ∧ m.hasCloser = true

/-- The loose braces of each of the constructs in braces in a node are nested. -/
def LooselyNested (n : Node) : Prop :=
  ∀ m ∈ n.descendants, m.kind.isBraced = true → Nested (Tree.looseOf m.inside)

instance (n : Node) : Decidable (LooselyNested n) :=
  inferInstanceAs (Decidable (∀ m ∈ n.descendants, _))

variable {t : Parsed} {n : Node}

theorem looselyNested_of_allMatch (ht : t.tokens = t.root.leaves.filter (!·.isTrivia))
    (hf : ∀ m ∈ n.descendants, m.kind.isBraced = true → m.Fenced t.root.leaves)
    (hl : ∀ m ∈ n.descendants, m.leaves <:+: t.root.leaves) (h : t.AllMatch n) :
    LooselyNested n := by
  have hin : ∀ k ∈ n.descendants, k.kind.isBraced = true →
      Nested (Tree.kindsOf k.inside) ∧ Nested k.kinds := by
    intro k hm hk
    obtain ⟨hmatch, hc⟩ := h k hm hk
    obtain ⟨first, hfirst, hkind⟩ := (hf k hm hk).opens
    obtain ⟨last, hframed⟩ := Node.framed_of_closer hfirst hkind hc
    have hi := (matches_iff hframed (hl k hm) ht).mp hmatch
    exact ⟨hi, hframed.nested_kinds hi⟩
  intro m hm hk
  refine (Tree.nested_iff_loose ?_).mp (hin m hm hk).1
  intro k hkm hkb
  exact (hin k (Tree.mem_nodes_trans hm (Tree.mem_nodesOf_of_inside hkm)) hkb).2

theorem allMatch_of_looselyNested (ht : t.tokens = t.root.leaves.filter (!·.isTrivia))
    (ha : Nested (t.root.leaves.map (·.kind)))
    (hf : ∀ m ∈ n.descendants, m.kind.isBraced = true → m.Fenced t.root.leaves)
    (hl : ∀ m ∈ n.descendants, m.leaves <:+: t.root.leaves) (h : LooselyNested n) :
    t.AllMatch n := by
  have hkinds : ∀ m ∈ n.descendants, m.kind.isBraced = true → Nested m.kinds := by
    refine Tree.nested_of_loose fun m hm hk => ⟨h m hm hk, fun hi => ?_⟩
    obtain ⟨first, last, hframed⟩ := (hf m hm hk).framed ha hi
    exact hframed.nested_kinds hi
  intro m hm hk
  have hi : Nested (Tree.kindsOf m.inside) := by
    refine (Tree.nested_iff_loose ?_).mpr (h m hm hk)
    intro k hkm hkb
    exact hkinds k (Tree.mem_nodes_trans hm (Tree.mem_nodesOf_of_inside hkm)) hkb
  obtain ⟨first, last, hframed⟩ := (hf m hm hk).framed ha hi
  exact ⟨(matches_iff hframed (hl m hm) ht).mpr hi, hframed.hasCloser⟩

end Parsed

/-- Constructs in braces start with a `{` of their own, and end with a `}` of their own or at the
end of the text. Where the braces of a text are nested, this `}` is the one that closes the `{`, for
all constructs in braces in a node, just if the braces that each of them takes loosely are
nested. -/
theorem parse_braces (source : Text) :
    (∀ n ∈ (parse source).root.descendants, n.kind.isBraced = true →
        (∃ first, n.children.head? = some (.leaf first) ∧ first.kind = .lBrace)
          ∧ (n.hasCloser = true ∨
            ∃ before, (parse source).tokens = before ++ n.leaves.filter (!·.isTrivia)))
      ∧ (Nested ((parse source).tokens.map (·.kind)) →
        ∀ n ∈ (parse source).root.descendants,
          (parse source).AllMatch n ↔ Parsed.LooselyNested n) := by
  have hrow : (parse source).root.leaves = Leaf.row 0 (scan source) := leaves_rootOf (scan source)
  have hf : ∀ n ∈ (parse source).root.descendants, n.kind.isBraced = true →
      n.Fenced (parse source).root.leaves := by
    intro n hn hk
    rw [hrow]
    rcases List.mem_cons.mp hn with rfl | hn
    · cases hk
    · exact rootOf_fenced hn hk
  refine ⟨?_, ?_⟩
  · intro n hn hk
    obtain ⟨ho, hs⟩ := hf n hn hk
    refine ⟨ho, hs.imp_right ?_⟩
    rintro ⟨before, after, he, htr⟩
    refine ⟨before.filter (!·.isTrivia), ?_⟩
    show (parse source).root.leaves.filter _ = _
    rw [he, List.filter_append, List.filter_append, Leaf.filter_eq_nil htr, List.append_nil]
  · intro hnest n hn
    have ha : Nested ((parse source).root.leaves.map (·.kind)) := by
      rw [Nested, ← braceDepth?_significant]
      exact hnest
    have hmem : ∀ m ∈ n.descendants, m ∈ (parse source).root.descendants := by
      intro m hm
      rcases List.mem_cons.mp hm with rfl | hm
      · exact hn
      · exact Tree.mem_nodes_trans hn hm
    have hfn := fun m hm => hf m (hmem m hm)
    have hl := fun m hm => Tree.leaves_within (hmem m hm)
    exact ⟨Parsed.looselyNested_of_allMatch rfl hfn hl,
      Parsed.allMatch_of_looselyNested rfl ha hfn hl⟩

/-- a body with a value in braces in it -/
theorem parse_braces_of_body :
    (parse "void f() \x7b g(\x7b1\x7d); \x7d".toList).AllMatch
      (parse "void f() \x7b g(\x7b1\x7d); \x7d".toList).root := by
  have h : Nested ((parse "void f() \x7b g(\x7b1\x7d); \x7d".toList).tokens.map (·.kind))
      ∧ Parsed.LooselyNested (parse "void f() \x7b g(\x7b1\x7d); \x7d".toList).root := by
    decide +kernel
  exact ((parse_braces _).2 h.1 _ List.mem_cons_self).mpr h.2

/-- A specialisation is no record to the grammar, so its braces are loose in the list of items
around it, which ends with the first of two `}`. -/
theorem not_all_braces_match : ¬∀ source, Nested ((parse source).tokens.map (·.kind)) →
    ∀ n ∈ (parse source).root.descendants, n.kind.isBraced = true →
      (n.leaves.filter (!·.isTrivia)).head?.map (·.kind) = some .lBrace →
      (parse source).Matches n := by
  intro h
  have hs : ∃ source, Nested ((parse source).tokens.map (·.kind))
      ∧ ∃ n ∈ (parse source).root.descendants, n.kind.isBraced = true
        ∧ (n.leaves.filter (!·.isTrivia)).head?.map (·.kind) = some .lBrace
        ∧ ¬Nested (((n.leaves.filter (!·.isTrivia)).tail.dropLast).map (·.kind)) :=
    ⟨"namespace n \x7b template <> struct S<int> \x7b\x7d; \x7d".toList, by decide +kernel⟩
  obtain ⟨source, hnest, n, hm, hk, hh, hi⟩ := hs
  obtain ⟨before, first, inner, last, after, -, he, -, -, hin⟩ := h source hnest n hm hk hh
  rw [he, List.tail_cons, List.dropLast_concat] at hi
  exact hi hin

end CppMend
