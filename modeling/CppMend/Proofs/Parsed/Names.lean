import CppMend.Proofs.Grammar.Reading
import CppMend.Proofs.Tree.Nodes
import CppMend.Tree.View

/-!
# Names in trees

A type, and a name in an expression, is a row of words and of template argument lists. Its brackets
are crossed, so that it closes one that opened before it, just if those of its argument lists are.

* `parse_names`             what types and names are, in every text;
* `not_all_names_uncrossed` a comparison may be taken for an argument list that closes a call.
-/

namespace CppMend

variable {source : Text} {n : Node}

theorem pieces_of_mem (hn : n ∈ (parse source).root.descendants)
    (hk : n.kind = .typeRef ∨ n.kind = .nameRef) : ∃ pieces : List (List TokenKind),
      n.significantKinds = pieces.flatten ∧ ∀ p ∈ pieces, Rule.IsNamePiece p := by
  rcases List.mem_cons.mp hn with rfl | hn
  · rcases hk with hk | hk <;> cases hk
  · obtain ⟨past, g, parts, -, -, hlaw, hch⟩ := rootOf_law (nameLaw_outline _) hn
    obtain ⟨pieces, htake, hp⟩ := hlaw hk
    refine ⟨pieces, ?_, hp⟩
    rw [Node.significantKinds, ← n.leaves_shape, Node.shape, Tree.Shape.leaves, hch,
      (Outline.placeAll_shapes parts g).1, Outline.leavesOf_shapesAll, htake]

/-- In every text, the tokens of a type or a name are words and template argument lists. From left to
right, they close no bracket that they have not opened just if the argument lists do not. -/
theorem parse_names (source : Text) : ∀ n ∈ (parse source).root.descendants,
    n.kind = .typeRef ∨ n.kind = .nameRef → ∃ pieces : List (List TokenKind),
      n.significantKinds = pieces.flatten ∧ (∀ p ∈ pieces, IsWord p ∨ IsArgumentList p)
        ∧ (Uncrossed n.significantKinds
          ↔ Uncrossed (pieces.filter (·.head? = some .less)).flatten) := by
  intro n hn hk
  obtain ⟨pieces, hkinds, hp⟩ := pieces_of_mem hn hk
  exact ⟨pieces, hkinds, hp, hkinds ▸ uncrossed_flatten_iff hp⟩

/-- a type with a list in which a group opens and closes -/
theorem parse_names_of_function : ∃ n ∈ (parse "std::function<void(int)> f;".toList).root.descendants,
    n.kind = .typeRef ∧ n.significantKinds = [.ident, .doubleColon, .ident, .less, .kwVoid, .lParen,
      .kwInt, .rParen, .greater]
      ∧ ∃ pieces : List (List TokenKind), n.significantKinds = pieces.flatten
        ∧ (∀ p ∈ pieces, IsWord p ∨ IsArgumentList p)
        ∧ (Uncrossed n.significantKinds
          ↔ Uncrossed (pieces.filter (·.head? = some .less)).flatten) := by
  have h : ∃ n ∈ (parse "std::function<void(int)> f;".toList).root.descendants,
      n.kind = .typeRef ∧ n.significantKinds = [.ident, .doubleColon, .ident, .less, .kwVoid,
        .lParen, .kwInt, .rParen, .greater] := by
    decide +kernel
  obtain ⟨n, hn, hk, hkinds⟩ := h
  exact ⟨n, hn, hk, hkinds, parse_names _ n hn (.inl hk)⟩

/-- The `<` and `>` of two comparisons are taken for an argument list, with the `)` between them. -/
theorem not_all_names_uncrossed : ¬∀ source, ∀ n ∈ (parse source).root.descendants,
    n.kind = .typeRef ∨ n.kind = .nameRef → Uncrossed n.significantKinds := by
  intro h
  have hs : ∃ n ∈ (parse "int x = f(a < b) > (c);".toList).root.descendants,
      n.kind = .nameRef ∧ n.significantKinds = [.ident, .less, .ident, .rParen, .greater] := by
    decide +kernel
  obtain ⟨n, hn, hk, hkinds⟩ := hs
  have hfront := (h _ n hn (.inr hk) [.ident, .less, .ident, .rParen] (by rw [hkinds]; decide)).1
  exact absurd hfront (by decide)

end CppMend
