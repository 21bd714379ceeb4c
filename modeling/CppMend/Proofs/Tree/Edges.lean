import CppMend.Proofs.Tree.Fences
import Mathlib.Data.List.Induction

/-!
# First and last tokens of nodes

A node starts with its first significant token. It ends with its last one, unless its outline has a
place for blanks after that: a missing operand or type leaves such a place, and so does the end of
the text. Then all blanks and comments that come next are in the node as well.

* `Outline.flushesAll`     some outlines end with a place for blanks;
* `Outline.placeAll_edge`  what stands on both sides of the place up to which outlines are placed;
* `Cut`                    a stretch between significant tokens, and the blanks after it;
* `Outline.cut_placeAll`   the tokens of a node;
* `parse_edges`            the leaves of all nodes of a text.
-/

namespace CppMend

/-! ## the last place of an outline -/

namespace Outline

mutual

/-- a place for blanks comes after the last token -/
def flushes : Outline → Bool
  | .token => false
  | .blank => true
  | .node _ parts => flushesAll true parts

/-- a place for blanks comes after the last token, or, where there is none, `before` says so -/
def flushesAll (before : Bool) : List Outline → Bool
  | [] => before
  | o :: os => flushesAll o.flushes os

end

mutual

theorem spots_le : ∀ {o : Outline} {p : Spot}, p ∈ o.spots → p.before + sizes p.parts ≤ o.size
  | .token, p, hp => by
    rw [spots] at hp
    cases hp
  | .blank, p, hp => by
    rw [spots] at hp
    cases hp
  | .node kind parts, p, hp => by
    rw [spots, List.mem_cons] at hp
    rw [size_node]
    rcases hp with rfl | hp
    · exact Nat.le_of_eq (Nat.zero_add _)
    · exact spotsAll_le hp

/-- no node groups more tokens than the outlines that it is in -/
theorem spotsAll_le : ∀ {os : List Outline} {p : Spot}, p ∈ spotsAll os →
    p.before + sizes p.parts ≤ sizes os
  | [], p, hp => by
    rw [spotsAll] at hp
    cases hp
  | o :: os, p, hp => by
    rw [spotsAll, List.mem_append] at hp
    rw [sizes_cons]
    rcases hp with hp | hp
    · have := spots_le hp
      omega
    · obtain ⟨q, hq, rfl⟩ := List.mem_map.mp hp
      have hle := spotsAll_le hq
      show o.size + q.before + sizes q.parts ≤ o.size + sizes os
      omega

end

end Outline

/-! ## what comes before what is left -/

namespace Feed

/-- What `f` feeds before `g` ends with a significant token. -/
def Firm (f g : Feed) : Prop :=
  ∃ past t, f.tokens = past ++ t :: g.tokens ∧ t.isTrivia = false

theorem Firm.of_leads {f g h : Feed} {past : List Token} (hf : f.Leads past g) (hg : g.Firm h) :
    f.Firm h := by
  obtain ⟨more, t, hm, ht⟩ := hg
  refine ⟨past ++ more, t, ?_, ht⟩
  rw [hf.1, hm, List.append_assoc]

theorem takeOne_firm {f : Feed} (hf : f.Fresh) (h : 0 < (Token.kinds f.tokens).length) :
    f.Firm f.takeOne.2 := by
  cases ht : f.tokens with
  | nil =>
    rw [ht] at h
    exact absurd h (Nat.lt_irrefl 0)
  | cons t ts =>
    refine ⟨[], t, ?_, hf.isTrivia ht⟩
    show f.tokens = t :: f.tokens.drop 1
    rw [ht]
    rfl

end Feed

namespace Outline

mutual

/-- What is left starts with no blanks if there has been a place for them, and comes right after a
significant token if not. -/
theorem place_edge : ∀ (o : Outline) (f : Feed), o.size ≤ (Token.kinds f.tokens).length →
    (o.flushes = true → (o.place f).2.Fresh) ∧ (o.flushes = false → f.Firm (o.place f).2)
  | .token, f, hs => by
    refine ⟨nofun, fun _ => ?_⟩
    rw [← Feed.takeBlanks_kinds] at hs
    exact (Feed.takeOne_firm f.fresh_takeBlanks hs).of_leads f.leads_takeBlanks
  | .blank, f, _ => ⟨fun _ => f.fresh_takeBlanks, nofun⟩
  | .node kind parts, f, hs => by
    rw [← Feed.takeBlanks_kinds] at hs
    have h := placeAll_edge parts f.takeBlanks.2 true hs fun _ => f.fresh_takeBlanks
    refine ⟨h.1, fun hf => ?_⟩
    rcases h.2 hf with ⟨h, -⟩ | h
    · cases h
    · exact h.of_leads f.leads_takeBlanks

theorem placeAll_edge : ∀ (os : List Outline) (f : Feed) (before : Bool),
    sizes os ≤ (Token.kinds f.tokens).length → (before = true → f.Fresh) →
    (flushesAll before os = true → (placeAll os f).2.Fresh)
      ∧ (flushesAll before os = false → before = false ∧ os = [] ∨ f.Firm (placeAll os f).2)
  | [], f, before, _, hb => ⟨hb, fun h => Or.inl ⟨h, rfl⟩⟩
  | o :: os, f, before, hs, _ => by
    rw [sizes_cons] at hs
    obtain ⟨past, hl⟩ := place_leads o f
    have ho := place_edge o f (by omega)
    have hs' : sizes os ≤ (Token.kinds (o.place f).2.tokens).length := by
      rw [kinds_place, List.length_drop]
      omega
    have h := placeAll_edge os (o.place f).2 o.flushes hs' ho.1
    refine ⟨h.1, fun hf => Or.inr ?_⟩
    rcases h.2 hf with ⟨hn, rfl⟩ | h
    · exact ho.2 hn
    · exact h.of_leads hl

end

end Outline

/-! ## the leaves of a node -/

/-- The first of three stretches starts and ends with something significant, and the second one has
all blanks and comments that come right after it. -/
structure Cut {α : Type} (trivia : α → Bool) (core blanks after : List α) : Prop where
  first : ∃ a, core.head? = some a ∧ trivia a = false
  last : ∃ a, core.getLast? = some a ∧ trivia a = false
  blanks : ∀ a ∈ blanks, trivia a = true
  after : ∀ a, after.head? = some a → trivia a = false

namespace Cut

variable {α β : Type} {trivia : β → Bool} {f : α → β} {core blanks after : List α}

theorem of_map (h : Cut trivia (core.map f) (blanks.map f) (after.map f)) :
    Cut (fun a => trivia (f a)) core blanks after := by
  obtain ⟨⟨b, hb, hbt⟩, ⟨c, hc, hct⟩, hbl, ha⟩ := h
  rw [List.head?_map, Option.map_eq_some_iff] at hb
  rw [List.getLast?_map, Option.map_eq_some_iff] at hc
  obtain ⟨b, hb, rfl⟩ := hb
  obtain ⟨c, hc, rfl⟩ := hc
  refine ⟨⟨b, hb, hbt⟩, ⟨c, hc, hct⟩, ?_, ?_⟩
  · intro a hm
    exact hbl (f a) (List.mem_map_of_mem hm)
  · intro a hm
    refine ha (f a) ?_
    rw [List.head?_map, hm]
    rfl

/-- What a cut has up to its second part ends with something significant if that part is empty. -/
theorem ends_iff {trivia : α → Bool} (h : Cut trivia core blanks after) (more : Bool) :
    (∃ a, (if more then core ++ blanks else core).getLast? = some a ∧ trivia a = false)
      ↔ more = false ∨ blanks = [] := by
  cases more with
  | false => exact ⟨fun _ => Or.inl rfl, fun _ => h.last⟩
  | true =>
    rw [if_pos rfl]
    refine ⟨?_, ?_⟩
    · rintro ⟨a, ha, ht⟩
      right
      by_contra hn
      rw [List.getLast?_append_of_ne_nil core hn] at ha
      have hb := h.blanks a (List.mem_of_getLast? ha)
      rw [ht] at hb
      cases hb
    · rintro (hf | rfl)
      · cases hf
      · rw [List.append_nil]
        exact h.last

end Cut

/-- The node `n` of the spot `p` is empty, or it has the leaves from its first significant one to
its last, and all blanks after them if its outline ends with a place for blanks. -/
def Outline.Spot.Covers (all : List Leaf) (p : Spot) (n : Node) : Prop :=
  n.leaves = [] ∨ ∃ before core blanks after, all = before ++ (core ++ (blanks ++ after))
    ∧ Cut Leaf.isTrivia core blanks after
    ∧ n.leaves = if flushesAll true p.parts then core ++ blanks else core

/-- tokens up to the last significant one, and the blanks after it -/
theorem Token.exists_split {ts : List Token} (h : 0 < significant ts) :
    ∃ core t blanks, ts = core ++ t :: blanks ∧ t.isTrivia = false
      ∧ ∀ b ∈ blanks, b.isTrivia = true := by
  induction ts using List.reverseRecOn with
  | nil => exact absurd h (Nat.lt_irrefl 0)
  | append_singleton ts t ih =>
    cases ht : t.isTrivia with
    | false => exact ⟨ts, t, [], rfl, ht, fun b hb => nomatch hb⟩
    | true =>
      have hz : significant [t] = 0 := significant_eq_zero fun u hu => by
        rw [List.mem_singleton.mp hu]
        exact ht
      rw [significant_append, hz] at h
      obtain ⟨core, u, blanks, rfl, hu, hb⟩ := ih h
      refine ⟨core, u, blanks ++ [t], by rw [List.append_assoc]; rfl, hu, ?_⟩
      intro b hm
      rcases List.mem_append.mp hm with hm | hm
      · exact hb b hm
      · rw [List.mem_singleton.mp hm]
        exact ht

namespace Feed

variable {g h : Feed} {taken rest : List Token}

theorem Fresh.head (hg : g.Fresh) (ht : g.tokens = taken ++ rest) (hn : taken ≠ []) :
    ∃ t, taken.head? = some t ∧ t.isTrivia = false := by
  cases taken with
  | nil => exact absurd rfl hn
  | cons t ts => exact ⟨t, rfl, hg.isTrivia ht⟩

theorem Fresh.after (hh : h.Fresh) (t : Token) (ht : h.tokens.head? = some t) :
    t.isTrivia = false := by
  obtain ⟨ts, hts⟩ := List.head?_eq_some_iff.mp ht
  exact hh.isTrivia hts

/-- What is taken up to a significant token is cut off from the blanks after it. -/
theorem Fresh.cut_of_firm (hg : g.Fresh) (ht : g.tokens = taken ++ h.tokens) (hn : taken ≠ [])
    (hf : g.Firm h) : Cut Token.isTrivia taken (h.tokens.takeWhile (·.isTrivia))
      (h.tokens.dropWhile (·.isTrivia)) := by
  obtain ⟨init, last, hi, hlast⟩ := hf
  have htaken : taken = init ++ [last] := by
    have he : taken ++ h.tokens = init ++ [last] ++ h.tokens := by
      rw [← ht, hi, List.append_assoc]
      rfl
    exact List.append_cancel_right he
  refine ⟨hg.head ht hn, ⟨last, ?_, hlast⟩, ?_, ?_⟩
  · rw [htaken, List.getLast?_concat]
  · intro t hm
    exact Token.isTrivia_of_mem_takeWhile hm
  · exact h.fresh_takeBlanks.after

theorem Fresh.cut_of_fresh (hg : g.Fresh) (ht : g.tokens = taken ++ h.tokens) (hn : taken ≠ [])
    (hh : h.Fresh) :
    ∃ core blanks, taken = core ++ blanks ∧ Cut Token.isTrivia core blanks h.tokens := by
  have hpos : 0 < Token.significant taken := by
    obtain ⟨t, hm, hs⟩ := hg.head ht hn
    exact List.countP_pos_iff.mpr ⟨t, List.mem_of_mem_head? hm, by rw [hs]; rfl⟩
  obtain ⟨init, last, blanks, he, hlast, hb⟩ := Token.exists_split hpos
  have he : taken = init ++ [last] ++ blanks := by
    rw [he, List.append_assoc]
    rfl
  have hne : init ++ [last] ≠ [] := List.append_ne_nil_of_right_ne_nil init (List.cons_ne_nil _ _)
  rw [he, List.append_assoc] at ht
  refine ⟨init ++ [last], blanks, he, hg.head ht hne, ⟨last, ?_, hlast⟩, hb, hh.after⟩
  exact List.getLast?_concat

end Feed

namespace Outline

/-- The tokens of a node, which starts where a significant token is next. -/
theorem cut_placeAll {parts : List Outline} {g : Feed} {taken : List Token} (hg : g.Fresh)
    (hs : sizes parts ≤ (Token.kinds g.tokens).length)
    (ht : g.tokens = taken ++ (placeAll parts g).2.tokens) (hn : taken ≠ []) :
    ∃ core blanks after, g.tokens = core ++ (blanks ++ after)
      ∧ Cut Token.isTrivia core blanks after
      ∧ taken = if flushesAll true parts then core ++ blanks else core := by
  have hedge := placeAll_edge parts g true hs fun _ => hg
  cases hf : flushesAll true parts with
  | true =>
    obtain ⟨core, blanks, he, hcut⟩ := hg.cut_of_fresh ht hn (hedge.1 hf)
    refine ⟨core, blanks, _, ?_, hcut, he⟩
    rw [ht, he, List.append_assoc]
  | false =>
    have hfirm : g.Firm (placeAll parts g).2 := by
      rcases hedge.2 hf with ⟨h, -⟩ | h
      · cases h
      · exact h
    refine ⟨taken, _, _, ?_, hg.cut_of_firm ht hn hfirm, rfl⟩
    rw [List.takeWhile_append_dropWhile]
    exact ht

theorem Spot.Placed.covers {ts : List Token} {p : Spot} {n : Node} (h : p.Placed ⟨ts, 0⟩ n)
    (hs : sizes p.parts ≤ ((Token.kinds ts).drop p.before).length) :
    p.Covers (Leaf.row 0 ts) n := by
  obtain ⟨past, g, hl, hg, hk, hn⟩ := h
  have hch : n.children = (placeAll p.parts g).1 := by rw [hn]
  obtain ⟨taken, ht, hleaves, -⟩ := leaves_of_placed hl hch
  by_cases he : taken = []
  · left
    rw [hleaves, he]
    rfl
  · right
    rw [← hk] at hs
    obtain ⟨core, blanks, after, hg, hcut, htaken⟩ := cut_placeAll hg hs ht he
    let start := Feed.width past
    have hall : Leaf.row 0 ts = Leaf.row 0 past ++ (Leaf.row start core
        ++ (Leaf.row (start + Feed.width core) blanks
          ++ Leaf.row (start + Feed.width core + Feed.width blanks) after)) := by
      have hts : ts = past ++ g.tokens := hl.1
      rw [hts, hg, Leaf.row_append, Leaf.row_append, Leaf.row_append, Nat.zero_add]
    refine ⟨_, _, _, _, hall, ?_, ?_⟩
    · refine Cut.of_map (f := Leaf.token) (?_ : Cut Token.isTrivia _ _ _)
      rw [Leaf.map_token_row, Leaf.map_token_row, Leaf.map_token_row]
      exact hcut
    · rw [hleaves, htaken]
      split
      · rw [Leaf.row_append]
      · rfl

end Outline

/-! ## whole texts -/

theorem rootOf_covers (ts : List Token) :
    List.Forall₂ (Outline.Spot.Covers (Leaf.row 0 ts)) (Outline.spotsAll (outline (cues ts)))
      (Tree.nodesOf (rootOf ts).children) := by
  have hsize : Outline.sizes (outline (cues ts)) = (Token.kinds ts).length := by
    obtain ⟨os, ho, hs⟩ := outline_eq (cues ts)
    have hk := congrArg List.length (Token.map_kind_cuesFrom true ts)
    rw [List.length_map] at hk
    rw [ho, Outline.sizes_append, hs, cues, hk]
    rfl
  have h := (List.forall₂_and_left _ _).mpr
    ⟨fun p (hp : p ∈ Outline.spotsAll (outline (cues ts))) => Outline.spotsAll_le hp,
      rootOf_spots ts⟩
  refine h.imp ?_
  rintro p n ⟨hle, hp⟩
  refine hp.covers ?_
  rw [hsize] at hle
  rw [List.length_drop]
  omega

/-- a `}` at the end is no blank -/
theorem Node.ends_of_hasCloser {n : Node} (h : n.hasCloser = true) :
    ∃ l, n.leaves.getLast? = some l ∧ l.isTrivia = false := by
  obtain ⟨t, ht, hc⟩ := (Option.any_eq_true ..).mp h
  obtain ⟨ts, hts⟩ := List.getLast?_eq_some_iff.mp ht
  cases t with
  | node => cases hc
  | leaf l =>
    have hk : l.kind = .rBrace := of_decide_eq_true hc
    refine ⟨l, ?_, by rw [Leaf.isTrivia, hk]; rfl⟩
    show (Tree.leavesOf n.children).getLast? = some l
    rw [hts, Tree.leavesOf_append]
    exact List.getLast?_concat

/-- All nodes below the root start with a significant token, if they are not empty. A node has the
leaves from there to its last significant one. If its outline ends with a place for blanks, it has
all blanks and comments that come next as well, so it ends with a significant token just where there
are none of them. Constructs in braces have no such place unless they go on to the end of the
text. -/
theorem parse_edges (source : Text) :
    (∀ n ∈ Tree.nodesOf (parse source).root.children, n.text ≠ [] →
        ∃ l, n.leaves.head? = some l ∧ l.isTrivia = false)
      ∧ List.Forall₂ (fun p n => n.text = [] ∨ ∃ before core blanks after,
            (parse source).root.leaves = before ++ (core ++ (blanks ++ after))
              ∧ Cut Leaf.isTrivia core blanks after
              ∧ n.leaves = (if Outline.flushesAll true p.parts then core ++ blanks else core)
              ∧ ((∃ l, n.leaves.getLast? = some l ∧ l.isTrivia = false)
                ↔ Outline.flushesAll true p.parts = false ∨ blanks = []))
          (Outline.spotsAll (outline (cues (scan source))))
          (Tree.nodesOf (parse source).root.children)
      ∧ ∀ n ∈ Tree.nodesOf (parse source).root.children, n.kind.isBraced = true →
        (∃ l, n.leaves.getLast? = some l ∧ l.isTrivia = false)
          ∨ ∃ before after, (parse source).root.leaves = before ++ (n.leaves ++ after)
            ∧ ∀ l ∈ after, l.isTrivia = true := by
  have hrow : (parse source).root.leaves = Leaf.row 0 (scan source) := leaves_rootOf (scan source)
  have hc := rootOf_covers (scan source)
  rw [← hrow] at hc
  have hempty : ∀ n : Node, n.leaves = [] → n.text = [] := by
    intro n h
    rw [Node.text, h]
    rfl
  refine ⟨?_, hc.imp ?_, ?_⟩
  · intro n hn ht
    obtain ⟨p, -, hp⟩ := exists_left_of_mem hc hn
    rcases hp with h | ⟨before, core, blanks, after, -, hcut, hl⟩
    · exact absurd (hempty n h) ht
    · obtain ⟨l, hf, hs⟩ := hcut.first
      refine ⟨l, ?_, hs⟩
      rw [hl]
      split
      · rw [List.head?_append, hf]
        rfl
      · exact hf
  · rintro p n (h | ⟨before, core, blanks, after, hall, hcut, hl⟩)
    · exact Or.inl (hempty n h)
    · refine Or.inr ⟨before, core, blanks, after, hall, hcut, hl, ?_⟩
      rw [hl]
      exact hcut.ends_iff _
  · intro n hn hk
    have hf := (rootOf_fenced hn hk).shuts
    rw [← hrow] at hf
    exact hf.imp_left Node.ends_of_hasCloser

/-- no node starts with the comment before it -/
theorem parse_edges_of_comment :
    ∀ n ∈ Tree.nodesOf (parse "/* a */ int b; // c".toList).root.children,
      ∃ l, n.leaves.head? = some l ∧ l.isTrivia = false := by
  have h : ∀ n ∈ Tree.nodesOf (parse "/* a */ int b; // c".toList).root.children, n.text ≠ [] := by
    decide +kernel
  exact fun n hn => (parse_edges _).1 n hn (h n hn)

/-- The operand that `sizeof` looks for after a type in parentheses leaves a place for blanks, so a
cast that is none ends with the blank before the next operator. -/
theorem not_all_nodes_end_significant : ¬∀ source,
    ∀ n ∈ Tree.nodesOf (parse source).root.children, n.text ≠ [] →
      (∃ l, n.leaves.head? = some l ∧ l.isTrivia = false)
        ∧ ∃ l, n.leaves.getLast? = some l ∧ l.isTrivia = false := by
  intro h
  have hn : ∃ n ∈ Tree.nodesOf (parse "int n = sizeof(int) / 2;".toList).root.children,
      n.text ≠ [] ∧ n.leaves.getLast?.map (·.isTrivia) = some true := by
    decide +kernel
  obtain ⟨n, hm, ht, hl⟩ := hn
  obtain ⟨l, hg, hs⟩ := (h _ n hm ht).2
  rw [hg, Option.map_some, hs] at hl
  cases hl

end CppMend
