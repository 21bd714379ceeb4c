import CppMend.Proofs.Lexical.Tiling
import CppMend.Proofs.Tree.Construction

/-!
# Parsing loses nothing

Every text has a parse. Its leaves are the tokens of the text, and its table has the significant
ones of them.

* `Leaf.slice?_row`          the tokens of a text stand where their leaves say;
* `parse_total_lossless`     a text is parsed without a fault, and its tree is the text, in order.
-/

namespace CppMend

namespace Leaf

/-- A leaf of a row has its text at its place, whatever comes before the row and after it. -/
theorem slice?_row (front rest : Text) (ts : List Token) {l : Leaf}
    (h : l ∈ row (Text.byteSize front) ts) :
    Text.slice? l.span.start l.span.stop (front ++ (ts.flatMap (·.text) ++ rest)) = some l.text := by
  induction ts generalizing front with
  | nil => cases h
  | cons t ts ih =>
    rw [row, List.mem_cons] at h
    rw [List.flatMap_cons]
    rcases h with rfl | h
    · rw [List.append_assoc]
      exact Text.slice?_append front t.text _
    · rw [← Text.byteSize_append] at h
      have hl := ih (front ++ t.text) h
      rw [List.append_assoc, ← List.append_assoc t.text] at hl
      exact hl

theorem filter_row (offset : Nat) (ts : List Token) :
    ((row offset ts).filter (!·.isTrivia)).map token = ts.filter (!·.isTrivia) := by
  induction ts generalizing offset with
  | nil => rfl
  | cons t ts ih =>
    rw [row, List.filter_cons, List.filter_cons]
    show (if (!t.isTrivia) = true then _ else _ : List Leaf).map token = _
    cases t.isTrivia with
    | true => exact ih _
    | false => exact congrArg (List.cons t) (ih _)

end Leaf

theorem parse_leaves (source : Text) : (parse source).root.leaves = Leaf.row 0 (scan source) :=
  leaves_rootOf (scan source)

/-- Parsing is total and loses nothing. Under the budget of a text, and under any larger one, the
checked steps that build its tree come to their end without a fault. The tree is one root, its
leaves are the tokens of the text, in order and in their places, and the table of the parse has the
significant ones among them. -/
theorem parse_total_lossless (source : Text) :
    (∀ extra, construct (budgetFor (cues (scan source)).length + extra) (scan source)
        = .ok (parse source).root.tree)
      ∧ (parse source).source = source
      ∧ (parse source).root.kind = .root
      ∧ (parse source).root.leaves = Leaf.row 0 (scan source)
      ∧ (parse source).root.leaves.map Leaf.token = scan source
      ∧ (parse source).root.text = source
      ∧ (parse source).tokens = (parse source).root.leaves.filter (!·.isTrivia)
      ∧ (parse source).tokens.map Leaf.token = (scan source).filter (!·.isTrivia)
      ∧ ∀ l ∈ (parse source).root.leaves,
          Text.slice? l.span.start l.span.stop source = some l.text := by
  have hl := parse_leaves source
  refine ⟨?_, rfl, rfl, hl, ?_, ?_, rfl, ?_, ?_⟩
  · intro extra
    exact construct_eq (scan source) (Nat.le_add_right _ _)
  · rw [hl, Leaf.map_token_row]
  · rw [Node.text, hl, Leaf.flatMap_text_row, scan_text]
  · show ((parse source).root.leaves.filter (!·.isTrivia)).map Leaf.token = _
    rw [hl, Leaf.filter_row]
  · intro l h
    rw [hl] at h
    have hs := Leaf.slice?_row [] [] (scan source) h
    rw [scan_text, List.nil_append, List.append_nil] at hs
    exact hs

end CppMend
