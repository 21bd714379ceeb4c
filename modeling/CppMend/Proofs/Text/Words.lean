import CppMend.Proofs.Text.Places

/-!
# Positions in 32 bits

Counted in 32 bits, the position of a place is the one that it has, as long as the offset of the place is
a number of 32 bits: no place has more lines or columns before it than bytes. Nor does the count of units
start again before it comes to the column of such a place.

* `countUnits_append`          the count stops behind a front that has as many units;
* `Place.wordPositionOf_eq`, `Place.wordOffsetOf?_eq`   the position of a place, and its offset;
* `wordPositionOf_eq`, `wordOffsetOf?_eq`               all positions and offsets of a text that 32 bits
  can address;
* `stretchOf?_rangeOf`         a stretch between characters comes back from its range.
-/

namespace CppMend

namespace Text

/-! ## sizes -/

theorem unitSize_le_utf8Size (c : Char) : unitSize c ≤ c.utf8Size := by
  have hval : c.toNat = c.val.toNat := rfl
  rw [unitSize, Char.utf8Size, hval]
  repeat' split
  all_goals simp_all [UInt32.le_iff_toNat_le]
  omega

theorem units_le_byteSize (cs : Text) : units cs ≤ byteSize cs := by
  induction cs with
  | nil => exact Nat.le_refl 0
  | cons c cs ih => exact Nat.add_le_add (unitSize_le_utf8Size c) ih

theorem lineFeeds_le_byteSize (cs : Text) : lineFeeds cs ≤ byteSize cs := by
  induction cs with
  | nil => exact Nat.le_refl 0
  | cons c cs ih =>
    have hc := c.utf8Size_pos
    rw [lineFeeds_cons, byteSize_cons]
    split <;> omega

/-- Of a letter's repetitions, all sizes are their number. -/
theorem replicate_sizes (n : Nat) : byteSize (List.replicate n 'a') = n
    ∧ units (List.replicate n 'a') = n ∧ lineFeeds (List.replicate n 'a') = 0 := by
  induction n with
  | zero => exact ⟨rfl, rfl, rfl⟩
  | succ n ih =>
    obtain ⟨hsize, hunits, hfeeds⟩ := ih
    have ha : 'a'.utf8Size = 1 ∧ unitSize 'a' = 1 := by decide
    rw [List.replicate_succ, byteSize_cons, units, lineFeeds_cons, hsize, hunits, hfeeds, ha.1, ha.2,
      if_neg (by decide)]
    omega

/-- A place has no more lines before it, and no more units in its line, than bytes. -/
theorem endOf_wrapped {front : Text} (h : byteSize front < Word.count) :
    (endOf front).wrapped = endOf front := by
  have hlast := byteSize_lastLine_le front
  have hline : lineFeeds front < Word.count := Nat.lt_of_le_of_lt (lineFeeds_le_byteSize front) h
  have hcolumn : units (lastLine front) < Word.count := by
    have hunits := units_le_byteSize (lastLine front)
    omega
  rw [Position.wrapped, endOf, Word.wrapped_eq hline, Word.wrapped_eq hcolumn]

/-! ## counting units -/

/-- The count comes to the units of a front and stops there. -/
theorem countUnits_append {count : Nat} (front rest : Text) (h : count + units front < Word.count) :
    countUnits (count + units front) count (front ++ rest) = front := by
  induction front generalizing count with
  | nil =>
    cases rest with
    | nil => rfl
    | cons c rest =>
      show countUnits count count (c :: rest) = []
      rw [countUnits, if_pos (Nat.le_refl _)]
  | cons c front ih =>
    have hc := unitSize_pos c
    rw [units] at h ⊢
    have hnext : Word.wrapped (count + unitSize c) = count + unitSize c := Word.wrapped_eq (by omega)
    have hsum : count + (unitSize c + units front) = count + unitSize c + units front := by omega
    rw [List.cons_append, countUnits, if_neg (by omega), hnext, hsum, ih (by omega)]

/-- Where 32 bits can count all units, the count is one without a bound. -/
theorem countUnits_eq {n count : Nat} {cs : Text} (h : count + units cs < Word.count) :
    countUnits n count cs = takeUnits (n - count) cs := by
  induction cs generalizing count with
  | nil => cases n - count <;> rfl
  | cons c cs ih =>
    rw [units] at h
    rw [countUnits]
    split
    · next hn => rw [Nat.sub_eq_zero_of_le hn, takeUnits]
    · next hn =>
      obtain ⟨k, hk⟩ : ∃ k, n - count = k + 1 := ⟨n - count - 1, by omega⟩
      have hrest : n - (count + unitSize c) = k + 1 - unitSize c := by omega
      rw [Word.wrapped_eq (by omega), ih (by omega), hk, takeUnits, hrest]

/-! ## places -/

variable {cs : Text} {a offset : Nat} {p : Position}

theorem Place.wordPositionOf_eq (h : Place cs a p) (ha : a < Word.count) : wordPositionOf cs a = p := by
  have heq := h.positionOf_eq
  obtain ⟨front, rest, -, rfl, rfl⟩ := h
  rw [wordPositionOf, heq, endOf_wrapped ha]

theorem Place.wordOffsetOf?_eq (h : Place cs a p) (ha : a < Word.count) : wordOffsetOf? cs p = some a := by
  obtain ⟨front, rest, rfl, rfl, rfl⟩ := h
  have hl := byteSize_lastLine_le front
  have hu := units_le_byteSize (lastLine front)
  have hcount : countUnits (0 + units (lastLine front)) 0 (lastLine front ++ rest.takeWhile (· ≠ '\n'))
      = lastLine front := countUnits_append _ _ (by omega)
  rw [Nat.zero_add] at hcount
  rw [wordOffsetOf?, endOf, dropLines_lineFeeds, Option.map_some,
    takeWhile_of_lineFeeds (lineFeeds_lastLine front), hcount, byteSize_append, byteSize_append]
  congr 1
  omega

/-- The position of a place names the place in any text with the same front. -/
theorem wordOffsetOf?_append (front rest : Text) (h : byteSize front < Word.count) :
    wordOffsetOf? (front ++ rest) (endOf front) = some (byteSize front) :=
  Place.wordOffsetOf?_eq ⟨front, rest, rfl, rfl, rfl⟩ h

theorem wordPositionOf_append (front rest : Text) (h : byteSize front < Word.count) :
    wordPositionOf (front ++ rest) (byteSize front) = endOf front :=
  Place.wordPositionOf_eq ⟨front, rest, rfl, rfl, rfl⟩ h

/-- The range of a part of a text names the place of the part in any text with the same front and
part. -/
theorem stretchOf?_rangeOf (a b c c' : Text) (h : byteSize (a ++ b) < Word.count) :
    stretchOf? (a ++ (b ++ c')) (rangeOf (a ++ (b ++ c)) ⟨byteSize a, byteSize b⟩)
      = some ⟨byteSize a, byteSize b⟩ := by
  have hab := byteSize_append a b
  have hstop : (Span.mk (byteSize a) (byteSize b)).stop = byteSize (a ++ b) := hab.symm
  have hstart : byteSize a < Word.count := by omega
  rw [rangeOf, hstop, wordPositionOf_append a (b ++ c) hstart, ← List.append_assoc a b c,
    wordPositionOf_append (a ++ b) c h, stretchOf?, wordOffsetOf?_append a (b ++ c') hstart,
    ← List.append_assoc a b c', wordOffsetOf?_append (a ++ b) c' h, hab]
  show some (Span.between (min (byteSize a) (byteSize a + byteSize b))
    (max (byteSize a) (byteSize a + byteSize b))) = _
  rw [Nat.min_eq_left (Nat.le_add_right _ _), Nat.max_eq_right (Nat.le_add_right _ _), Span.between,
    Nat.add_sub_cancel_left]

theorem spanOf?_rangeOf (a b c : Text) (h : byteSize (a ++ b) < Word.count) :
    spanOf? (a ++ (b ++ c)) (rangeOf (a ++ (b ++ c)) ⟨byteSize a, byteSize b⟩)
      = some ⟨byteSize a, byteSize b⟩ := by
  have hab := byteSize_append a b
  rw [spanOf?, stretchOf?_rangeOf a b c c h, Option.map_some]
  show some (Span.between (Word.clamped (byteSize a)) (Word.clamped (byteSize a + byteSize b))) = _
  rw [Word.clamped_eq (by omega), Word.clamped_eq (by omega), Span.between, Nat.add_sub_cancel_left]

/-! ## texts that 32 bits can address -/

theorem wordPositionOf_eq (h : byteSize cs < Word.count) (offset : Nat) :
    wordPositionOf cs offset = positionOf cs offset := by
  obtain ⟨front, rest, rfl, hfront⟩ := floorBoundary_parts offset cs
  have hplace : Place (front ++ rest) (byteSize front) (endOf front) := ⟨front, rest, rfl, rfl, rfl⟩
  rw [byteSize_append] at h
  rw [wordPositionOf, ← positionOf_floorBoundary, ← hfront, hplace.positionOf_eq,
    endOf_wrapped (by omega)]

theorem wordOffsetOf?_eq (h : byteSize cs < Word.count) (p : Position) :
    wordOffsetOf? cs p = offsetOf? cs p := by
  rw [wordOffsetOf?, offsetOf?]
  cases hd : dropLines p.line cs with
  | none => rfl
  | some rest =>
    obtain ⟨above, rfl⟩ := dropLines_suffix hd
    have hline := byteSize_le_of_front (List.takeWhile_prefix (l := rest) (· ≠ '\n'))
    have hunits := units_le_byteSize (rest.takeWhile (· ≠ '\n'))
    rw [byteSize_append] at h
    rw [Option.map_some, Option.map_some, countUnits_eq (by omega), Nat.sub_zero]

end Text

end CppMend
