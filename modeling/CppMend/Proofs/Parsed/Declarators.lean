import CppMend.Proofs.Grammar.Declaring
import CppMend.Proofs.Parsed.Tags

/-!
# Declarators in trees

A node that declares names is a row of pieces, each of which is a part of a declarator with its tokens and
nodes. The names that are read off the node are all names in these pieces; of a function it is the last one
of them. Where a piece has brackets, the names between them are among these.

* `Piece`                  a part of a declarator in a tree;
* `Piece.Encloses`         a token between the brackets of an extent or of template arguments;
* `Node.IsMadeOf`          the pieces of a node, and what is before and behind them;
* `Node.IsMadeOf.unique`   there is one way only to take a node apart;
* `exists_pieces`          all nodes of a text that declare names are made of pieces;
* `Node.IsMadeOf.declaredNames_eq`   the names that are read off such a node.
-/

namespace CppMend

open Lookahead (Bracket)

/-- A part of a declarator in a tree. -/
structure Piece where
  part : Part
  trees : List Tree

namespace Piece

/-- the tokens directly in a piece -/
def tokens (p : Piece) : List Leaf := p.trees.filterMap Tree.leaf?

/-- the names directly in a piece -/
def names (p : Piece) : List Leaf := p.tokens.filter (·.kind = .ident)

/-- The token stands between the brackets of an array extent or of a template argument list. Those of a
conversion are in the name of the operator. -/
def Encloses (p : Piece) (l : Leaf) : Prop :=
  match p.part with
  | .extent ks => Bracket.square.isShut ks = true ∧ l ∈ p.tokens
  | .arguments ks => Bracket.angle.isShut ks = true ∧ l ∈ p.tokens
  | .operator _ => ∃ group, group <:+: p.tokens ∧ Bracket.angle.isShut (group.map (·.kind)) = true ∧ l ∈ group
  | _ => False

theorem Encloses.mem {p : Piece} {l : Leaf} (h : p.Encloses l) : l ∈ p.tokens := by
  unfold Encloses at h
  split at h
  · exact h.2
  · exact h.2
  · obtain ⟨group, hgroup, -, hl⟩ := h
    exact hgroup.mem hl
  · exact absurd h id

end Piece

namespace Node

/-- The node is made of these pieces, what is before them and what is behind them. -/
structure Splits (n : Node) (front : List Tree) (ps : List Piece) (back : List Tree) : Prop where
  parts : n.parts = front ++ (ps.flatMap Piece.trees ++ back)
  shapes : ∀ p ∈ ps, p.trees.map Tree.shape = p.part.shapes
  declares : Declaring n.kind (front.map Tree.shape) (ps.map Piece.part) (back.map Tree.shape)

/-- the pieces of a node that declares names -/
def IsMadeOf (n : Node) (ps : List Piece) : Prop := ∃ front back, n.Splits front ps back

/-- the names that are read off a node that declares names -/
def declaredNames (n : Node) : List Leaf :=
  if n.kind = .functionDef then n.functionName?.toList else n.names

end Node

/-! ## one way to take a node apart -/

section
variable {ps qs : List Piece} {xs ys : List Tree}

theorem flatMap_shapes (h : ∀ p ∈ ps, p.trees.map Tree.shape = p.part.shapes) :
    (ps.flatMap Piece.trees).map Tree.shape = (ps.map Piece.part).flatMap Part.shapes := by
  rw [List.map_flatMap, List.flatMap_map]
  exact List.flatMap_congr h

/-- Pieces of the same parts that make up the same trees are the same. -/
theorem eq_of_parts (hp : ∀ p ∈ ps, p.trees.map Tree.shape = p.part.shapes)
    (hq : ∀ q ∈ qs, q.trees.map Tree.shape = q.part.shapes) (hparts : ps.map Piece.part = qs.map Piece.part)
    (h : ps.flatMap Piece.trees ++ xs = qs.flatMap Piece.trees ++ ys) : ps = qs ∧ xs = ys := by
  induction ps generalizing qs with
  | nil =>
    obtain rfl : qs = [] := List.map_eq_nil_iff.mp hparts.symm
    exact ⟨rfl, h⟩
  | cons p ps ih =>
    cases qs with
    | nil => cases hparts
    | cons q qs =>
      obtain ⟨hpart, hparts⟩ := List.cons.inj hparts
      rw [List.flatMap_cons, List.flatMap_cons, List.append_assoc, List.append_assoc] at h
      have hlength : p.trees.length = q.trees.length := by
        rw [← List.length_map (f := Tree.shape), hp p List.mem_cons_self, hpart,
          ← hq q List.mem_cons_self, List.length_map]
      obtain ⟨htrees, h⟩ := List.append_inj h hlength
      obtain ⟨rfl, rfl⟩ := ih (fun p hp' => hp p (List.mem_cons_of_mem _ hp'))
        (fun q hq' => hq q (List.mem_cons_of_mem _ hq')) hparts h
      cases p
      cases q
      cases hpart
      cases htrees
      exact ⟨rfl, rfl⟩

end

theorem Node.IsMadeOf.unique {n : Node} {ps qs : List Piece} (h : n.IsMadeOf ps) (h' : n.IsMadeOf qs) :
    ps = qs := by
  obtain ⟨front, back, hp⟩ := h
  obtain ⟨front', back', hq⟩ := h'
  have hshapes : front.map Tree.shape ++ ((ps.map Piece.part).flatMap Part.shapes ++ back.map Tree.shape)
      = front'.map Tree.shape ++ ((qs.map Piece.part).flatMap Part.shapes ++ back'.map Tree.shape) := by
    rw [← flatMap_shapes hp.shapes, ← flatMap_shapes hq.shapes, ← List.map_append, ← List.map_append,
      ← List.map_append, ← List.map_append, ← hp.parts, hq.parts]
  obtain ⟨hfront, hparts, -⟩ := hp.declares.unique hq.declares hshapes
  have hlength : front.length = front'.length := by
    rw [← List.length_map (f := Tree.shape), hfront, List.length_map]
  have htrees := (List.append_inj (hp.parts.symm.trans hq.parts) hlength).2
  exact (eq_of_parts hp.shapes hq.shapes hparts htrees).1

/-! ## all nodes that declare names -/

/-- Trees of the shapes of some parts are pieces. -/
theorem exists_pieces_of_shapes {ps : List Part} {ss : List Tree.Shape} {ts : List Tree}
    (h : ts.map Tree.shape = ps.flatMap Part.shapes ++ ss) : ∃ (qs : List Piece) (back : List Tree),
      ts = qs.flatMap Piece.trees ++ back ∧ qs.map Piece.part = ps ∧ back.map Tree.shape = ss
        ∧ ∀ q ∈ qs, q.trees.map Tree.shape = q.part.shapes := by
  induction ps generalizing ts with
  | nil => exact ⟨[], ts, rfl, rfl, h, nofun⟩
  | cons p ps ih =>
    rw [List.flatMap_cons, List.append_assoc] at h
    obtain ⟨first, rest, rfl, hfirst, hrest⟩ := List.map_eq_append_iff.mp h
    obtain ⟨qs, back, rfl, hparts, hback, hshapes⟩ := ih hrest
    refine ⟨⟨p, first⟩ :: qs, back, ?_, by rw [List.map_cons, hparts], hback,
      List.forall_mem_cons.mpr ⟨hfirst, hshapes⟩⟩
    rw [List.flatMap_cons, List.append_assoc]

/-- A node whose tokens and nodes are those of declarators is made of pieces. -/
theorem Node.exists_isMadeOf {n : Node} {front back : List Tree.Shape} {ps : List Part}
    (h : n.parts.map Tree.shape = front ++ (ps.flatMap Part.shapes ++ back))
    (hd : Declaring n.kind front ps back) : ∃ qs, n.IsMadeOf qs ∧ qs.map Piece.part = ps := by
  obtain ⟨first, rest, hparts, rfl, hrest⟩ := List.map_eq_append_iff.mp h
  obtain ⟨qs, last, rfl, rfl, rfl, hpieces⟩ := exists_pieces_of_shapes hrest
  exact ⟨qs, ⟨first, last, hparts, hpieces, hd⟩, rfl⟩

variable {source : Text} {n : Node}

/-- All nodes of a text that declare names are made of pieces. -/
theorem exists_pieces (hn : n ∈ (parse source).root.descendants) (hk : n.kind.hasDeclarators = true) :
    ∃ ps, n.IsMadeOf ps := by
  rcases List.mem_cons.mp hn with rfl | hn
  · cases hk
  · obtain ⟨past, g, parts, -, -, hlaw, hch⟩ := rootOf_law (declaringLaw_outline _) hn
    obtain ⟨front, ps, back, hshapes, hdeclares⟩ := hlaw hk
    rw [← (Outline.placeAll_shapes parts g).1, ← hch, ← n.shape_parts] at hshapes
    obtain ⟨qs, hqs, -⟩ := Node.exists_isMadeOf hshapes hdeclares
    exact ⟨qs, hqs⟩

/-! ## the names of a node -/

/-- the names among some trees -/
def namesOf (ts : List Tree) : List Leaf := (ts.filterMap Tree.leaf?).filter (·.kind = .ident)

theorem namesOf_append (ts us : List Tree) : namesOf (ts ++ us) = namesOf ts ++ namesOf us := by
  rw [namesOf, List.filterMap_append, List.filter_append]
  rfl

theorem namesOf_pieces (ps : List Piece) : namesOf (ps.flatMap Piece.trees) = ps.flatMap Piece.names := by
  induction ps with
  | nil => rfl
  | cons p ps ih => rw [List.flatMap_cons, namesOf_append, ih, List.flatMap_cons]; rfl

/-- Blanks and comments are no names. -/
theorem namesOf_filter (ts : List Tree) : namesOf (ts.filter Tree.isPart) = namesOf ts := by
  induction ts with
  | nil => rfl
  | cons t ts ih =>
    cases t with
    | node kind span children => exact ih
    | leaf l =>
      cases ht : l.isTrivia with
      | false =>
        rw [List.filter_cons_of_pos (by rw [Tree.isPart, ht]; rfl)]
        show namesOf ([.leaf l] ++ ts.filter Tree.isPart) = namesOf ([.leaf l] ++ ts)
        rw [namesOf_append, namesOf_append, ih]
      | true =>
        have hident : l.kind ≠ .ident := fun hk => by
          rw [Leaf.isTrivia, hk] at ht
          cases ht
        rw [List.filter_cons_of_neg (by rw [Tree.isPart, ht]; exact Bool.false_ne_true), ih]
        show namesOf ts = namesOf ([.leaf l] ++ ts)
        rw [namesOf_append]
        simp [namesOf, Tree.leaf?, hident]

theorem namesOf_eq_nil {ts : List Tree} (h : .leaf .ident ∉ ts.map Tree.shape) : namesOf ts = [] := by
  refine List.filter_eq_nil_iff.mpr fun l hl hk => h ?_
  obtain ⟨t, ht, hleaf⟩ := List.mem_filterMap.mp hl
  cases t with
  | node => cases hleaf
  | leaf l' =>
    cases hleaf
    exact List.mem_map.mpr ⟨_, ht, by rw [Tree.shape, of_decide_eq_true hk]⟩

namespace Node

theorem names_parts (n : Node) : n.names = namesOf n.parts := (namesOf_filter n.children).symm

/-- Blanks and comments are not where parameters are. -/
theorem takeWhile_parts (ts : List Tree) :
    (ts.filter Tree.isPart).takeWhile declaratorNames.beforeParameters
      = (ts.takeWhile declaratorNames.beforeParameters).filter Tree.isPart := by
  induction ts with
  | nil => rfl
  | cons t ts ih =>
    cases t with
    | leaf l =>
      have hleaf : declaratorNames.beforeParameters (.leaf l) = true := rfl
      rw [List.takeWhile_cons_of_pos hleaf]
      cases hl : Tree.isPart (.leaf l) with
      | true => rw [List.filter_cons_of_pos hl, List.filter_cons_of_pos hl, List.takeWhile_cons_of_pos hleaf, ih]
      | false =>
        have hl : ¬Tree.isPart (.leaf l) = true := Bool.eq_false_iff.mp hl
        rw [List.filter_cons_of_neg hl, List.filter_cons_of_neg hl, ih]
    | node kind span children =>
      have hnode : Tree.isPart (.node kind span children) = true := rfl
      rw [List.filter_cons_of_pos hnode]
      by_cases hb : declaratorNames.beforeParameters (.node kind span children) = true
      · rw [List.takeWhile_cons_of_pos hb, List.takeWhile_cons_of_pos hb, List.filter_cons_of_pos hnode, ih]
      · rw [List.takeWhile_cons_of_neg hb, List.takeWhile_cons_of_neg hb]
        rfl

theorem declaratorNames_parts (n : Node) :
    n.declaratorNames = namesOf (n.parts.takeWhile declaratorNames.beforeParameters) := by
  rw [parts, takeWhile_parts, namesOf_filter]
  rfl

variable {front back : List Tree} {ps : List Piece}

/-- There are no names before the pieces. -/
theorem Splits.namesOf_front (h : n.Splits front ps back) : namesOf front = [] := by
  refine namesOf_eq_nil fun hmem => ?_
  rcases h.declares.front with ⟨type, hfront⟩ | ⟨-, ks, hfront, hks⟩
  · rw [hfront] at hmem
    cases List.mem_singleton.mp hmem
  · rw [hfront] at hmem
    obtain ⟨k, hk, hident⟩ := List.mem_map.mp hmem
    cases hident
    exact absurd (hks _ hk) (by decide)

theorem beforeParameters_of_shape {t : Tree} (h : ∀ params, t.shape ≠ .node .parameterList params) :
    declaratorNames.beforeParameters t = true := by
  cases t with
  | leaf l => rfl
  | node kind span children =>
    refine decide_eq_true fun hk => h (Tree.shapesOf children) ?_
    rw [Tree.shape, hk]

/-- The parameters of a function are neither before its pieces nor among them. -/
theorem Splits.ne_parameters (h : n.Splits front ps back) {t : Tree} (ht : t ∈ front ++ ps.flatMap Piece.trees)
    {params : List Tree.Shape} : t.shape ≠ .node .parameterList params := by
  intro hs
  rcases List.mem_append.mp ht with ht | ht
  · have hmem : .node .parameterList params ∈ front.map Tree.shape := hs ▸ List.mem_map_of_mem ht
    rcases h.declares.front with ⟨type, hfront⟩ | ⟨-, ks, hfront, -⟩
    · rw [hfront] at hmem
      cases List.mem_singleton.mp hmem
    · rw [hfront] at hmem
      obtain ⟨k, -, hleaf⟩ := List.mem_map.mp hmem
      cases hleaf
  · obtain ⟨p, hp, ht⟩ := List.mem_flatMap.mp ht
    have hmem : t.shape ∈ p.part.shapes := h.shapes p hp ▸ List.mem_map_of_mem ht
    exact (h.declares.path.ok p.part (List.mem_map_of_mem hp)).ne_parameters hmem params hs

theorem Splits.takeWhile_parts (h : n.Splits front ps back) (hk : n.kind = .functionDef) :
    n.parts.takeWhile declaratorNames.beforeParameters = front ++ ps.flatMap Piece.trees := by
  have hback := h.declares.back
  rw [if_pos hk] at hback
  obtain ⟨-, params, rest, hback⟩ := hback
  obtain ⟨first, more, rfl, hfirst, -⟩ := List.map_eq_cons_iff.mp hback
  have hstop : ¬declaratorNames.beforeParameters first = true := by
    cases first with
    | leaf l => cases hfirst
    | node kind span children =>
      cases hfirst
      simp [declaratorNames.beforeParameters]
  have hbefore : ∀ t ∈ front ++ ps.flatMap Piece.trees, declaratorNames.beforeParameters t = true :=
    fun t ht => beforeParameters_of_shape fun params hs => h.ne_parameters ht hs
  rw [h.parts, ← List.append_assoc, List.takeWhile_append_of_pos hbefore, List.takeWhile_cons_of_neg hstop,
    List.append_nil]

theorem IsMadeOf.declaredNames_eq (h : n.IsMadeOf ps) : n.declaredNames
    = if n.kind = .functionDef then ((ps.flatMap Piece.names).getLast?).toList else ps.flatMap Piece.names := by
  obtain ⟨front, back, h⟩ := h
  have hnames : namesOf (front ++ ps.flatMap Piece.trees) = ps.flatMap Piece.names := by
    rw [namesOf_append, h.namesOf_front, List.nil_append, namesOf_pieces]
  rw [declaredNames]
  split
  · next hk => rw [functionName?, declaratorNames_parts, h.takeWhile_parts hk, hnames]
  · next hk =>
    have hback : back = [] := by
      have hback := h.declares.back
      rw [if_neg hk] at hback
      exact List.map_eq_nil_iff.mp hback
    rw [names_parts, h.parts, hback, List.append_nil, hnames]

end Node

end CppMend
