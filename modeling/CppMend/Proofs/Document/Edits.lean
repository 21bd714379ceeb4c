import CppMend.Document.Basic
import CppMend.Proofs.Edit.Weaving
import CppMend.Proofs.Text.Words

/-!
# Edits by lines and columns

The edits of a change set refer to the text before any of them. Carried out from the last to the
first, each one leaves the text before it alone, so that the lines and columns of the earlier ones
stay what they were.

* `TextEdit.change`                an edit by lines and columns, as an editor reports it;
* `Document.applyChange_rangeOf`   such an edit, while the text behind it changes;
* `Document.foldr_applyChange`     all edits from the last to the first give the woven text.
-/

namespace CppMend

/-- the edit as a change that an editor reports -/
def TextEdit.change (e : TextEdit) : TextChange := ⟨some e.range, e.text⟩

namespace Document

/-- A change of a part, given by its range in a text, is carried out at the part in any text that
differs only behind the part. -/
theorem applyChange_rangeOf (a b c c' t : Text) (h : Text.byteSize (a ++ b) < Word.count) :
    applyChange (a ++ (b ++ c'))
        ⟨some (Text.rangeOf (a ++ (b ++ c)) ⟨Text.byteSize a, Text.byteSize b⟩), t⟩
      = a ++ (t ++ c') := by
  have hspan := Text.stretchOf?_rangeOf a b c c' h
  simp only [applyChange, hspan]
  exact Edit.splice_append a b c' t

/-- The edits from the last to the first, each by its range in the text before any edit, weave the
text. -/
theorem foldr_applyChange {text : Text} {es : List Edit}
    (hfit : ∀ e ∈ es, ChangeSet.misfit? text e = none) (hov : ChangeSet.overlap? es = none)
    (hwords : ∀ e ∈ es, e.span.stop < Word.count) {front rest : Text} (ht : text = front ++ rest)
    (hfront : ∀ e ∈ es.head?, Text.byteSize front ≤ e.span.start) :
    es.foldr (fun e t => applyChange t ⟨some (Text.rangeOf text e.span), e.text⟩) text
      = front ++ ChangeSet.weave (Text.byteSize front) rest es := by
  refine (ChangeSet.woven_weave hfit hov ht hfront).foldr ?_ ht rfl
  rintro ⟨span, t⟩ he a b c rfl rfl c'
  have hstop : Text.byteSize (a ++ b) < Word.count := by
    rw [Text.byteSize_append]
    exact hwords _ he
  exact applyChange_rangeOf a b c c' t hstop

end Document

end CppMend
