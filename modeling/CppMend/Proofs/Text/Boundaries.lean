import CppMend.Text.Bytes

/-!
# Places between characters

A byte offset lies between two characters of a text just where the text is a front of that many
bytes and a rest. Every look-up by offset is then one of that front and that rest.

* `byteSize_append`         the bytes of a text that is put together;
* `splitAt?_eq_some_iff`    the two parts of a text at an offset;
* `cut_append`, `before_append`, `slice?_append`   what is read at such a place.
-/

namespace CppMend

namespace Text

theorem byteSize_nil : byteSize [] = 0 := rfl

theorem byteSize_cons (c : Char) (cs : Text) : byteSize (c :: cs) = c.utf8Size + byteSize cs := rfl

theorem byteSize_append (a b : Text) : byteSize (a ++ b) = byteSize a + byteSize b := by
  induction a with
  | nil =>
    rw [List.nil_append, byteSize_nil]
    omega
  | cons c a ih =>
    rw [List.cons_append, byteSize_cons, byteSize_cons, ih]
    omega

/-- only the empty text has no bytes -/
theorem eq_nil_of_byteSize_eq_zero {a : Text} (h : byteSize a = 0) : a = [] := by
  cases a with
  | nil => rfl
  | cons c a =>
    have hc := c.utf8Size_pos
    rw [byteSize_cons] at h
    omega

/-! ## splitting -/

theorem splitAt?_append (a b : Text) : splitAt? (byteSize a) (a ++ b) = some (a, b) := by
  induction a with
  | nil =>
    rw [byteSize_nil, List.nil_append, splitAt?]
  | cons c a ih =>
    have hc := c.utf8Size_pos
    have hn : byteSize (c :: a) = c.utf8Size + byteSize a - 1 + 1 := by
      rw [byteSize_cons]
      omega
    rw [hn, List.cons_append, splitAt?, if_pos (by omega)]
    have hr : c.utf8Size + byteSize a - 1 + 1 - c.utf8Size = byteSize a := by omega
    rw [hr, ih]
    rfl

theorem splitAt?_sound {n : Nat} {cs a b : Text} (h : splitAt? n cs = some (a, b)) :
    cs = a ++ b ∧ byteSize a = n := by
  induction cs generalizing n a with
  | nil =>
    cases n with
    | zero =>
      rw [splitAt?, Option.some.injEq, Prod.mk.injEq] at h
      obtain ⟨rfl, rfl⟩ := h
      exact ⟨rfl, rfl⟩
    | succ n =>
      rw [splitAt?] at h
      cases h
  | cons c cs ih =>
    cases n with
    | zero =>
      rw [splitAt?, Option.some.injEq, Prod.mk.injEq] at h
      obtain ⟨rfl, rfl⟩ := h
      exact ⟨rfl, rfl⟩
    | succ n =>
      rw [splitAt?] at h
      split at h
      · next hn =>
        rw [Option.map_eq_some_iff] at h
        obtain ⟨⟨a', b'⟩, h', he⟩ := h
        rw [Prod.mk.injEq] at he
        obtain ⟨rfl, rfl⟩ := he
        obtain ⟨rfl, hs⟩ := ih h'
        refine ⟨rfl, ?_⟩
        rw [byteSize_cons, hs]
        omega
      · cases h

theorem splitAt?_eq_some_iff {n : Nat} {cs a b : Text} :
    splitAt? n cs = some (a, b) ↔ cs = a ++ b ∧ byteSize a = n := by
  constructor
  · exact splitAt?_sound
  · rintro ⟨rfl, rfl⟩
    exact splitAt?_append a b

/-- an offset between characters has a text before it and a text after it -/
theorem isBoundary_iff {n : Nat} {cs : Text} :
    isBoundary n cs = true ↔ ∃ a b, cs = a ++ b ∧ byteSize a = n := by
  rw [isBoundary, Option.isSome_iff_exists]
  constructor
  · rintro ⟨⟨a, b⟩, h⟩
    exact ⟨a, b, splitAt?_eq_some_iff.mp h⟩
  · rintro ⟨a, b, h⟩
    exact ⟨(a, b), splitAt?_eq_some_iff.mpr h⟩

/-! ## reading at a place -/

theorem cut_append (a b : Text) : cut (byteSize a) (a ++ b) = (a, b) := by
  rw [cut, splitAt?_append]
  rfl

theorem floorBoundary_append (a b : Text) : floorBoundary (byteSize a) (a ++ b) = byteSize a := by
  induction a with
  | nil =>
    cases b with
    | nil => rfl
    | cons c b =>
      have hc := c.utf8Size_pos
      rw [byteSize_nil, List.nil_append, floorBoundary, if_neg (by omega)]
  | cons c a ih =>
    rw [List.cons_append, floorBoundary, byteSize_cons, if_pos (by omega)]
    have hr : c.utf8Size + byteSize a - c.utf8Size = byteSize a := by omega
    rw [hr, ih]

/-- the last place between characters that is not past an offset cuts the text -/
theorem floorBoundary_parts (n : Nat) (cs : Text) :
    ∃ front rest, cs = front ++ rest ∧ byteSize front = floorBoundary n cs := by
  induction cs generalizing n with
  | nil => exact ⟨[], [], rfl, rfl⟩
  | cons c cs ih =>
    rw [floorBoundary]
    split
    · obtain ⟨front, rest, hcs, hf⟩ := ih (n - c.utf8Size)
      exact ⟨c :: front, rest, by rw [hcs, List.cons_append], by rw [byteSize_cons, hf]⟩
    · exact ⟨[], c :: cs, rfl, rfl⟩

theorem before_append (a b : Text) : before (byteSize a) (a ++ b) = a := by
  rw [before, floorBoundary_append, splitAt?_append]

theorem slice?_append (a b c : Text) :
    slice? (byteSize a) (byteSize a + byteSize b) (a ++ (b ++ c)) = some b := by
  rw [slice?, splitAt?_append]
  show (if byteSize a ≤ byteSize a + byteSize b then
    (splitAt? (byteSize a + byteSize b - byteSize a) (b ++ c)).map (·.1) else none) = some b
  rw [if_pos (by omega)]
  have hr : byteSize a + byteSize b - byteSize a = byteSize b := by omega
  rw [hr, splitAt?_append]
  rfl

end Text

end CppMend
