import CppMend.Proofs.Grammar.Tags
import CppMend.Proofs.Parsed.Precedence
import CppMend.Proofs.Tree.Ancestors

/-!
# Records and enumerations in trees

The tokens of a record or an enumeration stand before and after its body. Where no name is among those
before it, they are known: a word like `struct`, or the words of an enumeration. After the body come the
names of what is declared with it, but nothing at all in a `typedef`, which has these names itself.

* `Node.beforeBody`, `Node.afterBody`   the tokens before and after the body;
* `Node.IsUnnamed`          a record or an enumeration with a body and no name before it;
* `unnamed_words`           its tokens before the body are known;
* `afterBody_of_typedef`    in a `typedef` there are none after it.
-/

namespace CppMend

namespace Node

/-- the body of a record or an enumeration -/
def isTagBody (n : Node) : Tree → Bool
  | .leaf _ => false
  | .node kind _ _ => kind = n.kind.tagBody

/-- the tokens directly in a record or an enumeration before its body -/
def beforeBody (n : Node) : List Leaf := (n.parts.takeWhile (!n.isTagBody ·)).filterMap Tree.leaf?

/-- the tokens directly in a record or an enumeration after its body -/
def afterBody (n : Node) : List Leaf := (n.parts.dropWhile (!n.isTagBody ·)).filterMap Tree.leaf?

theorem significant_body (n : Node) : n.significant = n.beforeBody ++ n.afterBody := by
  rw [beforeBody, afterBody, ← List.filterMap_append, List.takeWhile_append_dropWhile, significant_parts]

theorem shape_mem_parts (n : Node) {m : Node} (h : m ∈ n.nodes) : m.shape ∈ n.parts.map Tree.shape := by
  rw [← n.nodes_parts] at h
  obtain ⟨t, ht, hm⟩ := List.mem_filterMap.mp h
  refine List.mem_map.mpr ⟨t, ht, ?_⟩
  cases t with
  | leaf l => cases hm
  | node kind span children =>
    cases hm
    rfl

/-- A record or an enumeration with a body, and no name of its own before it. -/
structure IsUnnamed (n : Node) : Prop where
  tag : n.kind.isTag = true
  body : ∃ m ∈ n.nodes, m.kind = n.kind.tagBody
  unnamed : ∀ l ∈ n.beforeBody, l.kind ≠ .ident

instance (n : Node) : Decidable n.IsUnnamed :=
  decidable_of_iff (n.kind.isTag = true ∧ (∃ m ∈ n.nodes, m.kind = n.kind.tagBody)
      ∧ ∀ l ∈ n.beforeBody, l.kind ≠ .ident)
    ⟨fun h => ⟨h.1, h.2.1, h.2.2⟩, fun h => ⟨h.tag, h.body, h.unnamed⟩⟩

end Node

/-! ## shapes with a body -/

namespace Tree.Shape

/-- a body of a kind -/
def isBody (kind : NodeKind) : Shape → Bool
  | .leaf _ => false
  | .node k _ => k = kind

def leafKind? : Shape → Option TokenKind
  | .leaf k => some k
  | .node .. => none

theorem filterMap_row (ks : List TokenKind) : (row ks).filterMap leafKind? = ks := by
  induction ks with
  | nil => rfl
  | cons k ks ih => rw [row_cons, List.filterMap_cons, ih]; rfl

theorem filterMap_nodeOf? (kind : NodeKind) (parts? : Option (List Shape)) :
    (nodeOf? kind parts?).filterMap leafKind? = [] := by
  cases parts? <;> rfl

theorem isBody_row {kind : NodeKind} {ks : List TokenKind} : ∀ s ∈ row ks, isBody kind s = false := by
  intro s hs
  obtain ⟨k, -, rfl⟩ := List.mem_map.mp hs
  rfl

theorem isBody_type {kind : NodeKind} {type? : Option (List Shape)} :
    ∀ s ∈ nodeOf? .typeRef type?, isBody kind.tagBody s = false := by
  intro s hs
  obtain ⟨ss, -, rfl⟩ := Option.map_eq_some_iff.mp (Option.mem_toList.mp hs)
  refine decide_eq_false fun h => ?_
  rw [NodeKind.tagBody] at h
  split at h <;> cases h

theorem leafKind?_shape (t : Tree) : t.shape.leafKind? = t.leaf?.map (·.kind) := by
  cases t <;> rfl

theorem isBody_shape (n : Node) (t : Tree) : isBody n.kind.tagBody t.shape = n.isTagBody t := by
  cases t <;> rfl

theorem filterMap_shapes (ts : List Tree) :
    (ts.map Tree.shape).filterMap leafKind? = (ts.filterMap Tree.leaf?).map (·.kind) := by
  rw [List.filterMap_map, List.map_filterMap]
  exact congrArg (List.filterMap · ts) (funext leafKind?_shape)

end Tree.Shape

/-! ## trees of texts -/

open Rule Tree.Shape

variable {source : Text} {n : Node}

/-- The tokens before and after a body are those of the rule, where there is a body. -/
theorem words_of_tagged {words after : List TokenKind} {type? body? : Option (List Tree.Shape)}
    (h : IsTagged n.kind words type? body? after (Tree.shapesOf n.children))
    (hbody : ∃ m ∈ n.nodes, m.kind = n.kind.tagBody) :
    n.beforeBody.map (·.kind) = words ∧ n.afterBody.map (·.kind) = after := by
  let front := row words ++ nodeOf? .typeRef type?
  have hshapes : n.parts.map Tree.shape = front ++ (nodeOf? n.kind.tagBody body? ++ row after) := by
    rw [n.shape_parts, h.shapes, List.append_assoc]
  have hfront : ∀ s ∈ front, !isBody n.kind.tagBody s := by
    intro s hs
    rcases List.mem_append.mp hs with hs | hs
    · simp [isBody_row s hs]
    · simp [isBody_type s hs]
  have hcomp : (fun t => !n.isTagBody t) = (fun s => !isBody n.kind.tagBody s) ∘ Tree.shape :=
    funext fun t => congrArg (! ·) (isBody_shape n t).symm
  have hbefore : n.beforeBody.map (·.kind)
      = ((n.parts.map Tree.shape).takeWhile fun s => !isBody n.kind.tagBody s).filterMap leafKind? := by
    rw [Node.beforeBody, hcomp, ← filterMap_shapes, List.takeWhile_map]
  have hafter : n.afterBody.map (·.kind)
      = ((n.parts.map Tree.shape).dropWhile fun s => !isBody n.kind.tagBody s).filterMap leafKind? := by
    rw [Node.afterBody, hcomp, ← filterMap_shapes, List.dropWhile_map]
  cases body? with
  | none =>
    -- a body would be among the parts
    obtain ⟨m, hm, hk⟩ := hbody
    have hmem : m.shape ∈ front ++ row after := by
      have := n.shape_mem_parts hm
      rwa [hshapes] at this
    have hisbody : isBody n.kind.tagBody m.shape = true := decide_eq_true hk
    rcases List.mem_append.mp hmem with hs | hs
    · have := hfront _ hs
      rw [hisbody] at this
      cases this
    · rw [isBody_row _ hs] at hisbody
      cases hisbody
  | some body =>
    have hstop : isBody n.kind.tagBody (.node n.kind.tagBody body) = true := decide_eq_true rfl
    rw [hbefore, hafter, hshapes, List.takeWhile_append_of_pos hfront, List.dropWhile_append_of_pos hfront]
    refine ⟨?_, ?_⟩
    · rw [show nodeOf? n.kind.tagBody (some body) ++ row after
          = .node n.kind.tagBody body :: row after from rfl, List.takeWhile_cons, hstop]
      rw [List.filterMap_append, List.filterMap_append, filterMap_row, filterMap_nodeOf?]
      simp
    · rw [show nodeOf? n.kind.tagBody (some body) ++ row after
          = .node n.kind.tagBody body :: row after from rfl, List.dropWhile_cons, hstop]
      exact filterMap_row after

theorem tagged_of_mem (hn : n ∈ (parse source).root.descendants) (hk : n.kind.isTag = true) :
    ∃ words type? body? after, IsTagged n.kind words type? body? after (Tree.shapesOf n.children) := by
  rcases List.mem_cons.mp hn with rfl | hn
  · cases hk
  · obtain ⟨past, g, parts, -, -, hlaw, hch⟩ := rootOf_law (tagLaw_outline _) hn
    rw [hch, (Outline.placeAll_shapes parts g).1]
    exact hlaw hk

/-- Where a record or an enumeration has no name before its body, the words there are known. -/
theorem unnamed_words (hn : n ∈ (parse source).root.descendants) (h : n.IsUnnamed) :
    n.beforeBody.map (·.kind) ∈ n.kind.unnamedWords := by
  obtain ⟨words, type?, body?, after, htagged⟩ := tagged_of_mem hn h.tag
  rw [(words_of_tagged htagged h.body).1]
  refine htagged.words.resolve_left fun hident => ?_
  rw [← (words_of_tagged htagged h.body).1, List.mem_map] at hident
  obtain ⟨l, hl, hk⟩ := hident
  exact h.unnamed l hl hk

/-- In a `typedef` nothing comes after the body: what is declared with it are the aliases. -/
theorem afterBody_of_typedef {q : Node} (hq : q ∈ (parse source).root.descendants)
    (hk : q.kind = .typedefDef) (hn : n ∈ q.nodes) (htag : n.kind.isTag = true)
    (hbody : ∃ m ∈ n.nodes, m.kind = n.kind.tagBody) : n.afterBody = [] := by
  rcases List.mem_cons.mp hq with rfl | hq
  · cases hk
  · obtain ⟨past, g, parts, -, -, hlaw, hch⟩ := rootOf_law (aliasLaw_outline _) hq
    obtain ⟨k, ss, after, hshapes, halias⟩ := hlaw hk
    rw [← (Outline.placeAll_shapes parts g).1, ← hch, ← q.shape_parts] at hshapes
    have hmem := q.shape_mem_parts hn
    rw [hshapes] at hmem
    simp only [List.mem_cons] at hmem
    rcases hmem with hmem | hmem | hmem
    · cases hmem
    · obtain ⟨rfl, hss⟩ := Tree.Shape.node.inj hmem
      obtain ⟨words, type?, body?, htagged⟩ := halias htag
      rw [← hss] at htagged
      exact List.map_eq_nil_iff.mp (words_of_tagged htagged hbody).2
    · obtain ⟨k, -, hleaf⟩ := List.mem_map.mp hmem
      cases hleaf

end CppMend
