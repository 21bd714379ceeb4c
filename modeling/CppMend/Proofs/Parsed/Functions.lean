import CppMend.Proofs.Grammar.Functions
import CppMend.Proofs.Parsed.Lossless
import CppMend.Proofs.Tree.Placed
import CppMend.Tree.View

/-!
# Functions in trees

The signature of a function, the test for a body and the symbols of a file rely on how the nodes of
functions are made up. In the tree of any text, well written or not, a function has just one list of
parameters, at most a type before it and at most a body after it, and it does not go on past its body.

* `Node.IsFunction`   the parts of a function;
* `Node.ClosesIn`     how a function without a body ends;
* `parse_functions`   all functions in a tree are like that.
-/

namespace CppMend

namespace Node

/-- The nodes of a function: perhaps a type, the parameters, which start with a `(`, and perhaps a body,
which ends the function. -/
structure IsFunction (n : Node) (type? : Option Node) (parameters : Node) (body? : Option Node) :
    Prop where
  nodes : n.nodes = type?.toList ++ parameters :: body?.toList
  type_kind : ∀ m ∈ type?, m.kind = .typeRef
  parameters_kind : parameters.kind = .parameterList
  opens : ∃ first, parameters.children.head? = some (.leaf first) ∧ first.kind = .lParen
  body_kind : ∀ m ∈ body?, m.kind = .block
  body_last : ∀ m ∈ body?, n.children.getLast? = some m.tree

/-- Among the significant tokens of a text, a node ends with a `;`, or a `}` or nothing comes after it. -/
def ClosesIn (n : Node) (all : List Leaf) : Prop :=
  ∃ before own after, own = n.leaves.filter (!·.isTrivia) ∧ all = before ++ (own ++ after)
    ∧ (own.getLast?.map (·.kind) = some .semicolon ∨ ∀ l ∈ after.head?, l.kind = .rBrace)

end Node

/-! ## placed parts -/

namespace Outline

theorem placed_nodeOf? (kind : NodeKind) (parts? : Option (List Outline)) (f : Feed) :
    ∃ m? : Option Node, placed (nodeOf? kind parts?) f = m?.toList ∧ (∀ m ∈ m?, m.kind = kind)
      ∧ (m? = none ↔ parts? = none)
      ∧ ∀ m ∈ m?, (placeAll (nodeOf? kind parts?) f).1.getLast? = some m.tree := by
  cases parts? with
  | none => exact ⟨none, rfl, nofun, by simp, nofun⟩
  | some parts =>
    obtain ⟨m, hp, hlast, hk, -⟩ := placed_node kind parts f
    refine ⟨some m, hp, by simpa using hk, by simp, fun m' hm => ?_⟩
    cases hm
    exact hlast

end Outline

/-! ## functions -/

open Rule (FunctionOf)

section
variable {n : Node} {type? body? : Option (List Outline)} {params parts : List Outline}
  {named more : Nat} {g : Feed}

theorem isFunction_of_placed
    (h : FunctionOf type? named params more body? parts (Token.kinds g.tokens))
    (hn : n.children = (Outline.placeAll parts g).1) :
    ∃ type parameters body, n.IsFunction type parameters body ∧ (body = none ↔ body? = none) := by
  let signature := Outline.nodeOf? .typeRef type? ++ List.replicate named .token
  let g₁ := (Outline.placeAll signature g).2
  let g₂ := (Outline.placeAll [.node .parameterList (.token :: params)] g₁).2
  let g₃ := (Outline.placeAll (List.replicate more .token) g₂).2
  have hparts : parts = signature ++ ([.node .parameterList (.token :: params)]
    ++ (List.replicate more .token ++ Outline.nodeOf? .block body?)) := h.parts_eq
  obtain ⟨type, htype, htk, -, -⟩ := Outline.placed_nodeOf? .typeRef type? g
  obtain ⟨m, hm, -, hmk, hchildren⟩ := Outline.placed_node .parameterList (.token :: params) g₁
  obtain ⟨body, hbody, hbk, hnone, hlast⟩ := Outline.placed_nodeOf? .block body? g₃
  have hnodes : n.nodes = type.toList ++ m :: body.toList := by
    rw [Node.nodes, hn, ← Outline.placed, hparts, Outline.placed_append, Outline.placed_append,
      Outline.placed_append, Outline.placed_append, htype, Outline.placed_tokens, hm,
      Outline.placed_tokens, hbody]
    simp
  have hopen : (Token.kinds g₁.tokens).head? = some .lParen := by
    rw [Outline.kinds_placeAll]
    exact h.opens
  refine ⟨type, m, body, ⟨hnodes, htk, hmk, Outline.head_placed_node hchildren hopen, hbk,
    fun b hb => ?_⟩, hnone⟩
  rw [hn, hparts]
  exact Outline.getLast?_append (Outline.getLast?_append (Outline.getLast?_append (hlast b hb)))

end

theorem Leaf.kinds_filter_row (offset : Nat) (ts : List Token) :
    ((row offset ts).filter (!·.isTrivia)).map (·.kind) = Token.kinds ts := by
  rw [Token.kinds, ← filter_row offset ts, List.map_map]
  rfl

/-- Where the tokens of a placed node end with a `;`, or what is left starts with a `}`, it is so among
the leaves of the text. -/
theorem closesIn_of_placed {ts past : List Token} {g : Feed} {parts : List Outline} {n : Node}
    (hl : (Feed.mk ts 0).Leads past g) (hn : n.children = (Outline.placeAll parts g).1)
    (h : ((Token.kinds g.tokens).take (Outline.sizes parts)).getLast? = some .semicolon
      ∨ ∀ k ∈ ((Token.kinds g.tokens).drop (Outline.sizes parts)).head?, k = .rBrace) :
    n.ClosesIn ((Leaf.row 0 ts).filter (!·.isTrivia)) := by
  obtain ⟨taken, -, -, hall⟩ := leaves_of_placed hl hn
  have hown : (n.leaves.filter (!·.isTrivia)).map (·.kind)
      = (Token.kinds g.tokens).take (Outline.sizes parts) := by
    rw [← n.leaves_shape, Node.shape, hn, Tree.Shape.leaves, (Outline.placeAll_shapes parts g).1,
      Outline.leavesOf_shapesAll]
  let left := Leaf.row (Feed.width past + Feed.width taken) (Outline.placeAll parts g).2.tokens
  refine ⟨(Leaf.row 0 past).filter (!·.isTrivia), n.leaves.filter (!·.isTrivia),
    left.filter (!·.isTrivia), rfl, ?_, h.imp (fun h => ?_) fun h l hm => ?_⟩
  · rw [hall, List.filter_append, List.filter_append]
  · rw [← List.getLast?_map, hown, h]
  · refine h l.kind ?_
    rw [← Outline.kinds_placeAll, ← Leaf.kinds_filter_row
      (Feed.width past + Feed.width taken) (Outline.placeAll parts g).2.tokens, List.head?_map]
    exact Option.mem_map_of_mem _ hm

/-- The functions of any text are well-shaped. The nodes of a function are perhaps a type, its
parameters, which start with a `(`, and perhaps a body, which ends it. A function without a body ends
with a `;`, or a `}` or nothing comes after it. -/
theorem parse_functions (source : Text) : ∀ n ∈ (parse source).root.descendants,
    n.kind = .functionDef → ∃ type? parameters body?, n.IsFunction type? parameters body?
      ∧ (body? = none → n.ClosesIn (parse source).tokens) := by
  intro n hn hk
  rcases List.mem_cons.mp hn with rfl | hn
  · cases hk
  · obtain ⟨past, g, parts, hl, -, hlaw, hch⟩ := rootOf_law (functionLaw_outline _) hn
    obtain ⟨type?, named, params, more, body?, hfun⟩ := hlaw hk
    obtain ⟨type, parameters, body, his, hbody⟩ := isFunction_of_placed hfun hch
    refine ⟨type, parameters, body, his, fun hnone => ?_⟩
    have hall : (parse source).tokens = (Leaf.row 0 (scan source)).filter (!·.isTrivia) :=
      congrArg (·.filter (!·.isTrivia)) (leaves_rootOf (scan source))
    rw [hall]
    exact closesIn_of_placed hl hch (hfun.ends (hbody.mp hnone))

/-- a destructor with a body, and a function that breaks off before a `}` -/
theorem parse_functions_of_broken :
    (∃ n ∈ (parse "A::~A() \x7b\x7d struct B \x7b int f() const \x7d;".toList).root.descendants,
        n.isPrototype = false ∧ ∃ type? parameters body?, n.IsFunction type? parameters body?)
      ∧ ∃ n ∈ (parse "A::~A() \x7b\x7d struct B \x7b int f() const \x7d;".toList).root.descendants,
        n.isPrototype = true
          ∧ n.ClosesIn (parse "A::~A() \x7b\x7d struct B \x7b int f() const \x7d;".toList).tokens := by
  have h : (∃ n ∈ (parse "A::~A() \x7b\x7d struct B \x7b int f() const \x7d;".toList).root.descendants,
        n.kind = .functionDef ∧ n.isPrototype = false)
      ∧ ∃ n ∈ (parse "A::~A() \x7b\x7d struct B \x7b int f() const \x7d;".toList).root.descendants,
        n.kind = .functionDef ∧ n.isPrototype = true := by
    decide +kernel
  obtain ⟨⟨n, hn, hk, hp⟩, m, hm, hmk, hmp⟩ := h
  obtain ⟨type?, parameters, body?, his, -⟩ := parse_functions _ n hn hk
  obtain ⟨type', parameters', body', his', hends⟩ := parse_functions _ m hm hmk
  refine ⟨⟨n, hn, hp, type?, parameters, body?, his⟩, m, hm, hmp, hends ?_⟩
  -- a body would be found
  cases body' with
  | none => rfl
  | some b =>
    rw [Node.isPrototype, Node.node?, Option.isNone_iff_eq_none, List.find?_eq_none] at hmp
    have hb := hmp b (by rw [his'.nodes]; simp)
    exact absurd (his'.body_kind b rfl) (by simpa using hb)

end CppMend
