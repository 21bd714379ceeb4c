import CppMend.Proofs.Grammar.Laws
import CppMend.Proofs.Tree.Builder
import CppMend.Proofs.Tree.Descent
import CppMend.Proofs.Tree.Shapes
import Mathlib.Data.List.Forall2

/-!
# Where the nodes of a tree come from

The nodes of a tree are those of its outlines, in the same order. Each is placed where a
significant token is next, or nothing.

* `Outline.Spot.Placed`      a node of a tree stands for a node of an outline;
* `Outline.placeAll_spots`   the nodes of a tree stand for those of its outlines;
* `Outline.Spot.Placed.exists_taken`   the tokens of a node, and how many are before it;
* `rootOf_spots`             so it is with the tree of some tokens;
* `rootOf_law`               a law of outlines holds where the nodes of a tree come from.
-/

namespace CppMend

namespace Feed

/-- a feed without blanks in front starts with a significant token -/
theorem Fresh.isTrivia {f : Feed} {t : Token} {ts : List Token} (hf : f.Fresh)
    (h : f.tokens = t :: ts) : t.isTrivia = false := by
  have hd : f.tokens.dropWhile (·.isTrivia) = f.tokens := congrArg (·.2.tokens) hf
  rw [h] at hd
  exact Token.isTrivia_of_dropWhile hd

/-- The feed `g` is what is left of `f` after some tokens. -/
def Leads (f : Feed) (past : List Token) (g : Feed) : Prop :=
  f.tokens = past ++ g.tokens ∧ g.offset = f.offset + width past

theorem Leads.trans {f g h : Feed} {past more : List Token} (hf : f.Leads past g)
    (hg : g.Leads more h) : f.Leads (past ++ more) h := by
  refine ⟨?_, ?_⟩
  · rw [hf.1, hg.1, List.append_assoc]
  · rw [hg.2, hf.2, width_append, Nat.add_assoc]

theorem leads_takeBlanks (f : Feed) :
    f.Leads (f.tokens.takeWhile (·.isTrivia)) f.takeBlanks.2 :=
  ⟨List.takeWhile_append_dropWhile.symm, rfl⟩

theorem nodesOf_leaves (offset : Nat) (ts : List Token) : Tree.nodesOf (leaves offset ts) = [] := by
  induction ts generalizing offset with
  | nil => rfl
  | cons t ts ih =>
    rw [leaves, Tree.nodesOf, ih]
    rfl

end Feed

namespace Outline

theorem place_leads (o : Outline) (f : Feed) : ∃ past, f.Leads past (o.place f).2 := by
  obtain ⟨taken, ht, ho, -, -⟩ := place_gives o f
  exact ⟨taken, ht, ho⟩

/-- The node `n` has been placed for the spot `p` of outlines that are fed by `f`. -/
def Spot.Placed (f : Feed) (p : Spot) (n : Node) : Prop :=
  ∃ past g, f.Leads past g ∧ g.Fresh ∧ Token.kinds g.tokens = (Token.kinds f.tokens).drop p.before
    ∧ n = ⟨p.kind, Span.between g.offset (placeAll p.parts g).2.offset, (placeAll p.parts g).1⟩

/-- what is fed later is fed before as well -/
theorem Spot.Placed.after {f g : Feed} {past : List Token} {k : Nat} {p : Spot} {n : Node}
    (hf : f.Leads past g) (hk : Token.kinds g.tokens = (Token.kinds f.tokens).drop k)
    (h : p.Placed g n) : (p.after k).Placed f n := by
  obtain ⟨more, e, hg, he, hp, hn⟩ := h
  refine ⟨past ++ more, e, hf.trans hg, he, ?_, hn⟩
  rw [hp, hk, List.drop_drop]
  rfl

mutual

theorem place_spots : ∀ (o : Outline) (f : Feed),
    List.Forall₂ (Spot.Placed f) o.spots (Tree.nodesOf (o.place f).1)
  | .token, f => by
    have hn : Tree.nodesOf (place .token f).1 = [] := by
      rw [place_token, Tree.nodesOf_append]
      exact congrArg₂ (· ++ ·) (Feed.nodesOf_leaves _ _) (Feed.nodesOf_leaves _ _)
    rw [hn, spots]
    exact .nil
  | .blank, f => by
    have hn : Tree.nodesOf (place .blank f).1 = [] := Feed.nodesOf_leaves _ _
    rw [hn, spots]
    exact .nil
  | .node kind parts, f => by
    have hl := f.leads_takeBlanks
    have hk : Token.kinds f.takeBlanks.2.tokens = (Token.kinds f.tokens).drop 0 := by
      rw [Feed.takeBlanks_kinds, List.drop_zero]
    have hn : Tree.nodesOf (place (.node kind parts) f).1
        = ⟨kind, Span.between f.takeBlanks.2.offset (placeAll parts f.takeBlanks.2).2.offset,
            (placeAll parts f.takeBlanks.2).1⟩
          :: Tree.nodesOf (placeAll parts f.takeBlanks.2).1 := by
      have hb : Tree.nodesOf f.takeBlanks.1 = [] := Feed.nodesOf_leaves _ _
      rw [place_node, Tree.nodesOf_append, hb, List.nil_append, Tree.nodesOf, Tree.nodes,
        Tree.nodesOf, List.append_nil]
    rw [hn, spots]
    refine .cons ⟨_, _, hl, f.fresh_takeBlanks, hk, rfl⟩ ?_
    refine (placeAll_spots parts f.takeBlanks.2).imp ?_
    intro p n hp
    have ha := hp.after hl hk
    rw [Spot.after, Nat.zero_add] at ha
    exact ha

/-- The nodes of a tree stand for those of its outlines, in the same order. -/
theorem placeAll_spots : ∀ (os : List Outline) (f : Feed),
    List.Forall₂ (Spot.Placed f) (spotsAll os) (Tree.nodesOf (placeAll os f).1)
  | [], _ => by
    rw [placeAll_nil, spotsAll, Tree.nodesOf]
    exact .nil
  | o :: os, f => by
    obtain ⟨past, hl⟩ := place_leads o f
    rw [placeAll_cons, spotsAll, Tree.nodesOf_append]
    refine List.rel_append (place_spots o f) ?_
    rw [List.forall₂_map_left_iff]
    exact (placeAll_spots os (o.place f).2).imp fun _ _ hp => hp.after hl (kinds_place o f)

end

end Outline

/-! ## whole texts -/

/-- The leaves of a node among those of the text, which are cut before the node and after it. -/
theorem leaves_of_placed {ts past : List Token} {g : Feed} {parts : List Outline} {n : Node}
    (hl : (Feed.mk ts 0).Leads past g) (hn : n.children = (Outline.placeAll parts g).1) :
    ∃ taken, g.tokens = taken ++ (Outline.placeAll parts g).2.tokens
      ∧ n.leaves = Leaf.row (Feed.width past) taken
      ∧ Leaf.row 0 ts = Leaf.row 0 past ++ (n.leaves
        ++ Leaf.row (Feed.width past + Feed.width taken) (Outline.placeAll parts g).2.tokens) := by
  obtain ⟨hts, ho⟩ := hl
  change ts = past ++ g.tokens at hts
  change g.offset = 0 + Feed.width past at ho
  rw [Nat.zero_add] at ho
  obtain ⟨taken, ht, -, hrow, -⟩ := Outline.placeAll_gives parts g
  have hleaves : n.leaves = Leaf.row (Feed.width past) taken := by
    rw [← ho, ← hrow, ← hn]
    rfl
  refine ⟨taken, ht, hleaves, ?_⟩
  rw [hleaves, ← Leaf.row_append, ← ht, hts, Leaf.row_append, Nat.zero_add]

theorem Token.length_kinds (ts : List Token) : (kinds ts).length = significant ts := by
  rw [kinds, List.length_map, significant, List.countP_eq_length_filter]

/-- As many significant tokens are before a node as the outlines say, and as many are in it, if so many
are left. -/
theorem Outline.Spot.Placed.exists_taken {ts : List Token} {p : Outline.Spot} {n : Node}
    (h : p.Placed ⟨ts, 0⟩ n) : ∃ past taken more, ts = past ++ (taken ++ more)
      ∧ n.leaves = Leaf.row (Feed.width past) taken ∧ (∀ t ∈ taken.head?, t.isTrivia = false)
      ∧ Token.significant past = min p.before (Token.significant ts)
      ∧ Token.significant taken = min (Outline.sizes p.parts) (Token.significant ts - p.before) := by
  obtain ⟨past, g, hl, hfresh, hkinds, hn⟩ := h
  have hchildren : n.children = (Outline.placeAll p.parts g).1 := by rw [hn]
  obtain ⟨taken, htaken, hleaves, -⟩ := leaves_of_placed hl hchildren
  obtain ⟨taken', htaken', -, -, hcount⟩ := Outline.placeAll_gives p.parts g
  obtain rfl : taken = taken' := List.append_cancel_right (htaken.symm.trans htaken')
  have hts : ts = past ++ g.tokens := hl.1
  have hleft : Token.significant g.tokens = Token.significant ts - p.before := by
    rw [← Token.length_kinds, ← Token.length_kinds, ← List.length_drop]
    exact congrArg List.length hkinds
  have hsplit : Token.significant ts = Token.significant past + Token.significant g.tokens := by
    rw [hts, Token.significant_append]
  refine ⟨past, taken, _, by rw [← htaken, hts], hleaves, fun t ht => ?_, by omega,
    by rw [hcount, hleft]⟩
  obtain ⟨rest, rfl⟩ := List.head?_eq_some_iff.mp ht
  exact hfresh.isTrivia htaken

/-- The nodes below the root stand for those of the outlines, in the same order. -/
theorem rootOf_spots (ts : List Token) :
    List.Forall₂ (Outline.Spot.Placed ⟨ts, 0⟩) (Outline.spotsAll (outline (cues ts)))
      (Tree.nodesOf (rootOf ts).children) :=
  Outline.placeAll_spots (outline (cues ts)) ⟨ts, 0⟩

theorem exists_left_of_mem {α β : Type} {R : α → β → Prop} {xs : List α} {ys : List β} {y : β}
    (h : List.Forall₂ R xs ys) (hy : y ∈ ys) : ∃ x ∈ xs, R x y := by
  induction h with
  | nil => cases hy
  | @cons x z xs ys hr _ ih =>
    rcases List.mem_cons.mp hy with rfl | hy
    · exact ⟨x, List.mem_cons_self, hr⟩
    · obtain ⟨x', hx, hr'⟩ := ih hy
      exact ⟨x', List.mem_cons_of_mem x hx, hr'⟩

/-- A node below the root is placed from outlines of which a law holds. -/
theorem rootOf_law {P : NodeLaw} {ts : List Token}
    (h : Outline.Obey P (outline (cues ts)) (kindsOf (cues ts))) {n : Node}
    (hn : n ∈ Tree.nodesOf (rootOf ts).children) :
    ∃ past g parts, (Feed.mk ts 0).Leads past g ∧ g.Fresh ∧ P n.kind parts (Token.kinds g.tokens)
      ∧ n.children = (Outline.placeAll parts g).1 := by
  obtain ⟨p, hp, past, g, hl, hg, hk, rfl⟩ := exists_left_of_mem (rootOf_spots ts) hn
  refine ⟨past, g, p.parts, hl, hg, ?_, rfl⟩
  have hks : kindsOf (cues ts) = Token.kinds ts := Token.map_kind_cuesFrom true ts
  have hlaw := h p hp
  rw [hks] at hlaw
  rw [hk]
  exact hlaw

end CppMend
