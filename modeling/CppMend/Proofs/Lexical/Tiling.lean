import CppMend.Lexical.Scan

/-!
# Tokens tile a text

* `scan_cons`   the first token of a text, and the tokens of what follows it;
* `scan_text`   the tokens of a text, put together again, give the text.
-/

namespace CppMend

theorem scan_nil : scan [] = [] := by
  rw [scan]

/-- The first token has the first character of the text in any case. -/
theorem scan_cons (c : Char) (rest : Text) :
    ∃ kind size, scan (c :: rest) = ⟨kind, c :: rest.take size⟩ :: scan (rest.drop size) := by
  rw [scan]
  exact ⟨_, _, rfl⟩

/-- the tokens of a text hold all of its characters, in order -/
theorem scan_text (text : Text) : (scan text).flatMap (·.text) = text := by
  match text with
  | [] =>
    rw [scan_nil]
    rfl
  | c :: rest =>
    obtain ⟨kind, size, h⟩ := scan_cons c rest
    have ih := scan_text (rest.drop size)
    rw [h, List.flatMap_cons, ih]
    show c :: (rest.take size ++ rest.drop size) = c :: rest
    rw [List.take_append_drop]
termination_by text.length
decreasing_by simp only [List.length_drop, List.length_cons]; omega

end CppMend
