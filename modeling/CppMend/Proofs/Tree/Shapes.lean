import CppMend.Proofs.Tree.Leaves

/-!
# Shapes of trees

The `Shape` of a tree is what is left of it without blanks and comments, texts and places. That of
a placed outline is known from the outline and the kinds of the significant tokens alone.

* `Tree.shapes`, `Node.shape`    the shape of a tree and of a node;
* `Outline.shapes`               the shape that an outline gives to some kinds;
* `Outline.leavesOf_shapesAll`   its leaves are the tokens that the outline groups;
* `Outline.placeAll_shapes`      placing an outline gives this shape;
* `Outline.kinds_placeAll`       and leaves the tokens that the outline does not group;
* `shape_rootOf`                 the shape of the tree of some tokens, by their cues alone.
-/

namespace CppMend

/-- A tree without blanks, comments, texts and places. -/
inductive Tree.Shape where
  | leaf (kind : TokenKind)
  | node (kind : NodeKind) (parts : List Tree.Shape)
  deriving Repr

namespace Tree.Shape

mutual

def leaves : Shape → List TokenKind
  | .leaf kind => [kind]
  | .node _ parts => leavesOf parts

def leavesOf : List Shape → List TokenKind
  | [] => []
  | s :: ss => s.leaves ++ leavesOf ss

end

theorem leavesOf_append (ss us : List Shape) :
    leavesOf (ss ++ us) = leavesOf ss ++ leavesOf us := by
  induction ss with
  | nil => rfl
  | cons s ss ih => rw [List.cons_append, leavesOf, leavesOf, ih, List.append_assoc]

end Tree.Shape

namespace Tree

mutual

/-- the shape of a tree; a blank or comment has none -/
def shapes : Tree → List Shape
  | .leaf l => if l.isTrivia then [] else [.leaf l.kind]
  | .node kind _ children => [.node kind (shapesOf children)]

def shapesOf : List Tree → List Shape
  | [] => []
  | t :: ts => t.shapes ++ shapesOf ts

end

theorem shapesOf_append (ts us : List Tree) :
    shapesOf (ts ++ us) = shapesOf ts ++ shapesOf us := by
  induction ts with
  | nil => rfl
  | cons t ts ih => rw [List.cons_append, shapesOf, shapesOf, ih, List.append_assoc]

mutual

/-- the leaves of the shape are the significant ones of the tree -/
theorem leavesOf_shapes : ∀ t : Tree,
    Shape.leavesOf t.shapes = (t.leaves.filter (!·.isTrivia)).map (·.kind)
  | .leaf l => by
    rw [shapes, leaves]
    cases h : l.isTrivia <;> simp [h, Shape.leavesOf, Shape.leaves]
  | .node _ _ children => by
    rw [shapes, leaves, ← leavesOf_shapesOf children, Shape.leavesOf, Shape.leaves, Shape.leavesOf,
      List.append_nil]

theorem leavesOf_shapesOf : ∀ ts : List Tree,
    Shape.leavesOf (shapesOf ts) = ((leavesOf ts).filter (!·.isTrivia)).map (·.kind)
  | [] => rfl
  | t :: ts => by
    rw [shapesOf, leavesOf, Shape.leavesOf_append, leavesOf_shapes t, leavesOf_shapesOf ts,
      List.filter_append, List.map_append]

end

end Tree

def Node.shape (n : Node) : Tree.Shape := .node n.kind (Tree.shapesOf n.children)

/-- the kinds of the tokens in a node, without blanks and comments -/
def Node.significantKinds (n : Node) : List TokenKind :=
  (n.leaves.filter (!·.isTrivia)).map (·.kind)

theorem Node.leaves_shape (n : Node) :
    n.shape.leaves = (n.leaves.filter (!·.isTrivia)).map (·.kind) :=
  Tree.leavesOf_shapesOf n.children

/-! ## the kinds of tokens -/

namespace Token

/-- the kinds of some tokens, without blanks and comments -/
def kinds (ts : List Token) : List TokenKind := (ts.filter (!·.isTrivia)).map (·.kind)

theorem kinds_dropWhile (ts : List Token) : kinds (ts.dropWhile (·.isTrivia)) = kinds ts := by
  induction ts with
  | nil => rfl
  | cons t ts ih =>
    rw [List.dropWhile_cons]
    split
    · next h => simpa [kinds, h] using ih
    · rfl

theorem map_kind_cuesFrom (fresh : Bool) (ts : List Token) :
    (cuesFrom fresh ts).map (·.kind) = kinds ts := by
  induction ts generalizing fresh with
  | nil => rfl
  | cons t ts ih =>
    rw [cuesFrom]
    cases h : t.isTrivia with
    | true => simpa [kinds, h] using ih _
    | false => simpa [kinds, h] using ih _

end Token

/-! ## placing -/

namespace Feed

theorem shapesOf_leaves_blanks (offset : Nat) {ts : List Token} (h : ∀ t ∈ ts, t.isTrivia = true) :
    Tree.shapesOf (leaves offset ts) = [] := by
  induction ts generalizing offset with
  | nil => rfl
  | cons t ts ih =>
    have ht : (Leaf.mk t.kind t.text offset).isTrivia = true := h t List.mem_cons_self
    rw [leaves, Tree.shapesOf, Tree.shapes, if_pos ht, List.nil_append]
    exact ih _ fun u hu => h u (List.mem_cons_of_mem t hu)

theorem takeBlanks_shapes (f : Feed) : Tree.shapesOf f.takeBlanks.1 = [] :=
  shapesOf_leaves_blanks f.offset fun _ h => Token.isTrivia_of_mem_takeWhile h

theorem takeBlanks_kinds (f : Feed) : Token.kinds f.takeBlanks.2.tokens = Token.kinds f.tokens :=
  Token.kinds_dropWhile f.tokens

theorem takeOne_shapes {f : Feed} (h : ∀ t ts, f.tokens = t :: ts → t.isTrivia = false) :
    Tree.shapesOf f.takeOne.1 = ((Token.kinds f.tokens).take 1).map .leaf
      ∧ Token.kinds f.takeOne.2.tokens = (Token.kinds f.tokens).drop 1 := by
  rw [takeOne]
  cases ht : f.tokens with
  | nil => exact ⟨rfl, rfl⟩
  | cons t ts =>
    have hs := h t ts ht
    have hl : (Leaf.mk t.kind t.text f.offset).isTrivia = false := hs
    have hk : Token.kinds (t :: ts) = t.kind :: Token.kinds ts := by simp [Token.kinds, hs]
    rw [hk]
    refine ⟨?_, rfl⟩
    show Tree.shapesOf [.leaf ⟨t.kind, t.text, f.offset⟩] = _
    rw [Tree.shapesOf, Tree.shapes, hl]
    rfl

end Feed

namespace Outline

mutual

/-- the shape that an outline gives to tokens of the kinds `ks`, and the kinds that are left -/
def shapes : Outline → List TokenKind → List Tree.Shape × List TokenKind
  | .token, ks => ((ks.take 1).map .leaf, ks.drop 1)
  | .blank, ks => ([], ks)
  | .node kind parts, ks => ([.node kind (shapesAll parts ks).1], (shapesAll parts ks).2)

def shapesAll : List Outline → List TokenKind → List Tree.Shape × List TokenKind
  | [], ks => ([], ks)
  | o :: os, ks => ((o.shapes ks).1 ++ (shapesAll os (o.shapes ks).2).1,
      (shapesAll os (o.shapes ks).2).2)

end

mutual

theorem shapes_rest : ∀ (o : Outline) (ks : List TokenKind), (o.shapes ks).2 = ks.drop o.size
  | .token, _ => rfl
  | .blank, _ => rfl
  | .node _ parts, ks => shapesAll_rest parts ks

theorem shapesAll_rest : ∀ (os : List Outline) (ks : List TokenKind),
    (shapesAll os ks).2 = ks.drop (sizes os)
  | [], _ => rfl
  | o :: os, ks => by
    rw [shapesAll, shapesAll_rest os, shapes_rest o, List.drop_drop, sizes_cons]

end

mutual

/-- the leaves of the shape are the tokens that the outline groups -/
theorem leavesOf_shapes : ∀ (o : Outline) (ks : List TokenKind),
    Tree.Shape.leavesOf (o.shapes ks).1 = ks.take o.size
  | .token, [] => rfl
  | .token, _ :: _ => rfl
  | .blank, _ => rfl
  | .node _ parts, ks => by
    rw [shapes, Tree.Shape.leavesOf, Tree.Shape.leaves, leavesOf_shapesAll parts ks,
      Tree.Shape.leavesOf, List.append_nil, size_node]

theorem leavesOf_shapesAll : ∀ (os : List Outline) (ks : List TokenKind),
    Tree.Shape.leavesOf (shapesAll os ks).1 = ks.take (sizes os)
  | [], _ => rfl
  | o :: os, ks => by
    rw [shapesAll, Tree.Shape.leavesOf_append, leavesOf_shapes o, leavesOf_shapesAll os,
      shapes_rest, sizes_cons, List.take_add]

end

mutual

theorem place_shapes : ∀ (o : Outline) (f : Feed),
    Tree.shapesOf (o.place f).1 = (o.shapes (Token.kinds f.tokens)).1
      ∧ Token.kinds (o.place f).2.tokens = (o.shapes (Token.kinds f.tokens)).2
  | .token, f => by
    have ho : ∀ t ts, f.takeBlanks.2.tokens = t :: ts → t.isTrivia = false :=
      fun t ts ht => Token.isTrivia_of_dropWhile ht
    have h := Feed.takeOne_shapes ho
    rw [Feed.takeBlanks_kinds] at h
    rw [place_token, shapes, Tree.shapesOf_append, Feed.takeBlanks_shapes, List.nil_append]
    exact h
  | .blank, f => by
    rw [place_blank, shapes]
    exact ⟨f.takeBlanks_shapes, f.takeBlanks_kinds⟩
  | .node kind parts, f => by
    have h := placeAll_shapes parts f.takeBlanks.2
    rw [Feed.takeBlanks_kinds] at h
    rw [place_node, shapes, Tree.shapesOf_append, Feed.takeBlanks_shapes, List.nil_append]
    refine ⟨?_, h.2⟩
    rw [Tree.shapesOf, Tree.shapes, Tree.shapesOf, h.1]
    rfl

/-- Blanks, comments, texts and places do not matter for the shape of what is placed. -/
theorem placeAll_shapes : ∀ (os : List Outline) (f : Feed),
    Tree.shapesOf (placeAll os f).1 = (shapesAll os (Token.kinds f.tokens)).1
      ∧ Token.kinds (placeAll os f).2.tokens = (shapesAll os (Token.kinds f.tokens)).2
  | [], f => by
    rw [placeAll_nil, shapesAll]
    exact ⟨rfl, rfl⟩
  | o :: os, f => by
    have h := place_shapes o f
    have h' := placeAll_shapes os (o.place f).2
    rw [h.2] at h'
    rw [placeAll_cons, shapesAll, Tree.shapesOf_append, h.1]
    exact ⟨by rw [h'.1], h'.2⟩

end

/-- The tokens that are left are those that the outlines do not group. -/
theorem kinds_placeAll (os : List Outline) (f : Feed) :
    Token.kinds (placeAll os f).2.tokens = (Token.kinds f.tokens).drop (sizes os) := by
  rw [(placeAll_shapes os f).2, shapesAll_rest]

theorem kinds_place (o : Outline) (f : Feed) :
    Token.kinds (o.place f).2.tokens = (Token.kinds f.tokens).drop o.size := by
  rw [(place_shapes o f).2, shapes_rest]

end Outline

/-- The shape of the tree of some tokens is known from their cues. -/
theorem shape_rootOf (ts : List Token) : (rootOf ts).shape
    = .node .root (Outline.shapesAll (outline (cues ts)) ((cues ts).map (·.kind))).1 := by
  have h := (Outline.placeAll_shapes (outline (cues ts)) ⟨ts, 0⟩).1
  rw [cues, Token.map_kind_cuesFrom]
  show Tree.Shape.node .root (Tree.shapesOf (Outline.placeAll (outline (cues ts)) ⟨ts, 0⟩).1) = _
  rw [h, cues]

end CppMend
