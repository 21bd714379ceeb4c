import CppMend.Proofs.Text.Boundaries
import CppMend.Text.Position

/-!
# Positions name offsets

The position of a place between characters depends on the text before the place alone. In any text
with that front, the position names the place again, whatever comes after it.

* `dropLines_lineFeeds`      where the last line of a front starts;
* `offsetOf?_append`         the offset of the position after a front;
* `positionOf_append`        the position of the offset of a front.
-/

namespace CppMend

namespace Text

/-! ## lines -/

theorem lineFeeds_cons (c : Char) (cs : Text) :
    lineFeeds (c :: cs) = lineFeeds cs + if c = '\n' then 1 else 0 := by
  rw [lineFeeds, List.count_cons]
  congr 1
  by_cases h : c = '\n'
  · rw [if_pos h, if_pos (beq_iff_eq.mpr h)]
  · rw [if_neg h, if_neg (by rw [beq_iff_eq]; exact h)]

theorem lineFeeds_eq_zero {cs : Text} (h : lineFeeds cs = 0) : ∀ c ∈ cs, c ≠ '\n' := by
  intro c hc he
  rw [lineFeeds, List.count_eq_zero] at h
  exact h (he ▸ hc)

theorem takeWhile_of_lineFeeds {cs : Text} (h : lineFeeds cs = 0) (rest : Text) :
    (cs ++ rest).takeWhile (· ≠ '\n') = cs ++ rest.takeWhile (· ≠ '\n') :=
  List.takeWhile_append_of_pos fun c hc => decide_eq_true (lineFeeds_eq_zero h c hc)

theorem lineFeeds_reverse (cs : Text) : lineFeeds cs.reverse = lineFeeds cs := List.count_reverse

/-- a text without a line feed is its last line -/
theorem lastLine_eq_self {cs : Text} (h : lineFeeds cs = 0) : lastLine cs = cs := by
  have ht := takeWhile_of_lineFeeds ((lineFeeds_reverse cs).trans h) []
  rw [List.append_nil] at ht
  rw [lastLine, ht, List.takeWhile_nil, List.append_nil, List.reverse_reverse]

/-- A character is in the last line only if no line feed follows it, and if it is none. -/
theorem lastLine_cons {c : Char} {cs : Text} (h : lineFeeds (c :: cs) ≠ 0) :
    lastLine (c :: cs) = lastLine cs := by
  rw [lastLine, lastLine, List.reverse_cons, List.takeWhile_append]
  split
  · next hl =>
    -- the rest has no line feed, so the character is one
    have hz : lineFeeds cs = 0 := by
      have ht : cs.reverse.takeWhile (· ≠ '\n') = cs.reverse :=
        (List.takeWhile_prefix _).eq_of_length hl
      rw [lineFeeds, List.count_eq_zero]
      intro hm
      rw [← List.mem_reverse, ← ht] at hm
      have := List.all_eq_true.mp List.all_takeWhile _ hm
      exact absurd this (by decide)
    have hc : c = '\n' := by
      cases hd : decide (c = '\n') with
      | true => exact of_decide_eq_true hd
      | false =>
        rw [lineFeeds_cons, hz, if_neg (of_decide_eq_false hd)] at h
        exact absurd rfl h
    have ht := takeWhile_of_lineFeeds ((lineFeeds_reverse cs).trans hz) []
    rw [List.append_nil] at ht
    rw [hc, ht]
    rfl
  · rfl

theorem lineFeeds_lastLine (cs : Text) : lineFeeds (lastLine cs) = 0 := by
  induction cs with
  | nil => rfl
  | cons c cs ih =>
    by_cases h : lineFeeds (c :: cs) = 0
    · rw [lastLine_eq_self h, h]
    · rw [lastLine_cons h, ih]

/-- Behind as many line feeds as a front has, its last line starts. -/
theorem dropLines_lineFeeds (front rest : Text) :
    dropLines (lineFeeds front) (front ++ rest) = some (lastLine front ++ rest) := by
  induction front with
  | nil =>
    show dropLines 0 rest = some rest
    rw [dropLines]
  | cons c cs ih =>
    by_cases h : lineFeeds (c :: cs) = 0
    · rw [lastLine_eq_self h, h, dropLines]
    · rw [lastLine_cons h, ← ih]
      by_cases hc : c = '\n'
      · rw [lineFeeds_cons, if_pos hc, List.cons_append, dropLines, if_pos hc]
      · rw [lineFeeds_cons, if_neg hc, Nat.add_zero] at h ⊢
        obtain ⟨n, hn⟩ := Nat.exists_eq_succ_of_ne_zero h
        rw [hn, List.cons_append, dropLines, if_neg hc]

/-- the last line ends the text -/
theorem byteSize_lastLine_le (cs : Text) : byteSize (lastLine cs) ≤ byteSize cs := by
  induction cs with
  | nil => exact Nat.le_refl _
  | cons c cs ih =>
    by_cases h : lineFeeds (c :: cs) = 0
    · have hself : lastLine (c :: cs) = c :: cs := lastLine_eq_self h
      simp [hself]
    · rw [lastLine_cons h, byteSize_cons]
      exact Nat.le_trans ih (Nat.le_add_left _ _)

/-! ## columns -/

theorem unitSize_pos (c : Char) : 0 < unitSize c := by
  rw [unitSize]
  split
  · exact Nat.one_pos
  · exact Nat.two_pos

/-- the characters of a front are as many units as the front has -/
theorem takeUnits_append (a b : Text) : takeUnits (units a) (a ++ b) = a := by
  induction a with
  | nil =>
    show takeUnits 0 b = []
    rw [takeUnits]
  | cons c a ih =>
    have hp := unitSize_pos c
    obtain ⟨n, hn⟩ : ∃ n, unitSize c + units a = n + 1 := ⟨unitSize c + units a - 1, by omega⟩
    have hr : n + 1 - unitSize c = units a := by omega
    rw [units, hn, List.cons_append, takeUnits, hr, ih]

/-! ## positions of places between characters -/

/-- The position after a front names the place after it in any text with that front. -/
theorem offsetOf?_append (front rest : Text) :
    offsetOf? (front ++ rest) ⟨lineFeeds front, units (lastLine front)⟩ = some (byteSize front) := by
  have hl := byteSize_lastLine_le front
  rw [offsetOf?, dropLines_lineFeeds, Option.map_some, takeWhile_of_lineFeeds (lineFeeds_lastLine front),
    takeUnits_append, byteSize_append, byteSize_append]
  congr 1
  omega

theorem positionOf_append (front rest : Text) :
    positionOf (front ++ rest) (byteSize front) = ⟨lineFeeds front, units (lastLine front)⟩ := by
  rw [positionOf, before_append]

end Text

end CppMend
