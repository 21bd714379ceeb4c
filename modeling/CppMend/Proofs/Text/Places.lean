import CppMend.Proofs.Text.LineStarts
import Mathlib.Order.Bounds.Defs

/-!
# Places and their positions

A place between two characters has an offset, the bytes before it, and a position, the line feeds
before it and the units since the last of them. Both come in the same order, so each gives the other.
An offset inside a character stands for the place before it. A column that no place of a line has
stands for the next place of the line, or for its end.

* `Place`              the offset and the position of a place;
* `Place.le_iff`       both come in the same order;
* `place_iff_front`   the places of a line;
* `floorBoundary_isGreatest`, `positionOf_mono`   what an offset stands for;
* `nearest_of_offsetOf?`, `Nearest.mono`          what a position stands for.
-/

namespace CppMend

namespace Position

/-- from line to line, and from column to column in a line -/
instance : LE Position where
  le p q := p.line < q.line ∨ p.line = q.line ∧ p.character ≤ q.character

instance : LT Position where
  lt p q := p.line < q.line ∨ p.line = q.line ∧ p.character < q.character

theorem le_iff {p q : Position} :
    p ≤ q ↔ p.line < q.line ∨ p.line = q.line ∧ p.character ≤ q.character := Iff.rfl

theorem lt_iff {p q : Position} :
    p < q ↔ p.line < q.line ∨ p.line = q.line ∧ p.character < q.character := Iff.rfl

theorem lt_trans {p q r : Position} (hpq : p < q) (hqr : q < r) : p < r := by
  rw [lt_iff] at hpq hqr ⊢
  omega

theorem not_le {p q : Position} : ¬p ≤ q ↔ q < p := by
  rw [lt_iff, le_iff]
  omega

theorem le_refl (p : Position) : p ≤ p := .inr ⟨rfl, Nat.le_refl _⟩

theorem le_of_lt {p q : Position} (h : p < q) : p ≤ q := by
  rw [lt_iff] at h
  rw [le_iff]
  omega

end Position

namespace Text

/-! ## fronts -/

/-- the position behind a front of a text -/
def endOf (front : Text) : Position := ⟨lineFeeds front, units (lastLine front)⟩

theorem lineFeeds_append (a b : Text) : lineFeeds (a ++ b) = lineFeeds a + lineFeeds b :=
  List.count_append

theorem units_append (a b : Text) : units (a ++ b) = units a + units b := by
  induction a with
  | nil =>
    show units b = 0 + units b
    omega
  | cons c a ih =>
    rw [List.cons_append, units, units, ih]
    omega

theorem lastLine_append {b : Text} (a : Text) (h : lineFeeds b = 0) :
    lastLine (a ++ b) = lastLine a ++ b := by
  rw [lastLine, List.reverse_append, takeWhile_of_lineFeeds ((lineFeeds_reverse b).trans h),
    List.reverse_append, List.reverse_reverse]
  rfl

theorem endOf_append {b : Text} (a : Text) (h : lineFeeds b = 0) :
    endOf (a ++ b) = ⟨lineFeeds a, units (lastLine a) + units b⟩ := by
  rw [endOf, lineFeeds_append, lastLine_append a h, units_append, h, Nat.add_zero]

/-- One more character is one line or at least one unit further. -/
theorem endOf_lt_snoc (front : Text) (c : Char) : endOf front < endOf (front ++ [c]) := by
  rw [Position.lt_iff]
  by_cases hc : c = '\n'
  · left
    subst hc
    show lineFeeds front < lineFeeds (front ++ ['\n'])
    have hone : lineFeeds ['\n'] = 1 := rfl
    rw [lineFeeds_append]
    omega
  · right
    have hzero : lineFeeds [c] = 0 := by
      rw [lineFeeds_cons, if_neg hc]
      rfl
    have hu := unitSize_pos c
    rw [endOf_append front hzero]
    show lineFeeds front = lineFeeds front
      ∧ units (lastLine front) < units (lastLine front) + (unitSize c + 0)
    omega

theorem endOf_lt_append (front : Text) {more : Text} (h : more ≠ []) :
    endOf front < endOf (front ++ more) := by
  induction more generalizing front with
  | nil => exact absurd rfl h
  | cons c more ih =>
    have hc := endOf_lt_snoc front c
    cases more with
    | nil => exact hc
    | cons d more =>
      rw [List.append_cons front c (d :: more)]
      exact Position.lt_trans hc (ih _ (List.cons_ne_nil d more))

/-! ## places -/

/-- a place between two characters of a text, by its offset and by its position -/
def Place (cs : Text) (offset : Nat) (p : Position) : Prop :=
  ∃ front rest, cs = front ++ rest ∧ byteSize front = offset ∧ endOf front = p

namespace Place

variable {cs : Text} {a b : Nat} {p q : Position}

/-- Of two places one is behind the other, or they are the same. -/
theorem cases (hp : Place cs a p) (hq : Place cs b q) :
    a < b ∧ p < q ∨ a = b ∧ p = q ∨ b < a ∧ q < p := by
  obtain ⟨front, rest, hcs, rfl, rfl⟩ := hp
  obtain ⟨front', rest', hcs', rfl, rfl⟩ := hq
  rw [hcs] at hcs'
  have hlt (x : Text) {m : Text} (hm : m ≠ []) :
      byteSize x < byteSize (x ++ m) ∧ endOf x < endOf (x ++ m) := by
    refine ⟨?_, endOf_lt_append x hm⟩
    have hpos : byteSize m ≠ 0 := fun h => hm (eq_nil_of_byteSize_eq_zero h)
    rw [byteSize_append]
    omega
  rcases List.append_eq_append_iff.mp hcs' with ⟨m, rfl, -⟩ | ⟨m, rfl, -⟩
  · by_cases hm : m = []
    · subst hm
      rw [List.append_nil]
      exact .inr (.inl ⟨rfl, rfl⟩)
    · exact .inl (hlt front hm)
  · by_cases hm : m = []
    · subst hm
      rw [List.append_nil]
      exact .inr (.inl ⟨rfl, rfl⟩)
    · exact .inr (.inr (hlt front' hm))

/-- Offsets of places come in the order of their positions. -/
theorem le_iff (hp : Place cs a p) (hq : Place cs b q) : a ≤ b ↔ p ≤ q := by
  rcases hp.cases hq with ⟨hab, hpq⟩ | ⟨rfl, rfl⟩ | ⟨hba, hqp⟩
  · exact iff_of_true (Nat.le_of_lt hab) (Position.le_of_lt hpq)
  · exact iff_of_true (Nat.le_refl _) (Position.le_refl _)
  · exact iff_of_false (Nat.not_le.mpr hba) (Position.not_le.mpr hqp)

theorem lt_of_lt (hp : Place cs a p) (hq : Place cs b q) (h : p < q) : a < b := by
  rcases hp.cases hq with ⟨hab, -⟩ | ⟨-, rfl⟩ | ⟨-, hqp⟩
  · exact hab
  · exact absurd (Position.le_refl p) (Position.not_le.mpr h)
  · exact absurd (Position.le_of_lt h) (Position.not_le.mpr hqp)

theorem offsetOf?_eq (h : Place cs a p) : offsetOf? cs p = some a := by
  obtain ⟨front, rest, rfl, rfl, rfl⟩ := h
  exact offsetOf?_append front rest

theorem positionOf_eq (h : Place cs a p) : positionOf cs a = p := by
  obtain ⟨front, rest, rfl, rfl, rfl⟩ := h
  exact positionOf_append front rest

end Place

variable {cs rest : Text} {n : Nat} {p q : Position}

/-- a boundary is a place -/
theorem place_of_isBoundary (h : isBoundary n cs = true) : Place cs n (positionOf cs n) := by
  obtain ⟨front, rest, rfl, rfl⟩ := isBoundary_iff.mp h
  exact ⟨front, rest, rfl, rfl, (positionOf_append front rest).symm⟩

/-! ## what an offset stands for -/

theorem floorBoundary_le (n : Nat) (cs : Text) : floorBoundary n cs ≤ n := by
  induction cs generalizing n with
  | nil => exact Nat.zero_le n
  | cons c cs ih =>
    rw [floorBoundary]
    split
    · have := ih (n - c.utf8Size)
      omega
    · exact Nat.zero_le n

theorem floorBoundary_mono (cs : Text) {a b : Nat} (h : a ≤ b) :
    floorBoundary a cs ≤ floorBoundary b cs := by
  induction cs generalizing a b with
  | nil => exact Nat.le_refl _
  | cons c cs ih =>
    rw [floorBoundary, floorBoundary]
    split
    · rw [if_pos (by omega)]
      have := ih (a := a - c.utf8Size) (b := b - c.utf8Size) (by omega)
      omega
    · exact Nat.zero_le _

theorem isBoundary_floorBoundary (n : Nat) (cs : Text) :
    isBoundary (floorBoundary n cs) cs = true := by
  obtain ⟨front, rest, hcs, hf⟩ := floorBoundary_parts n cs
  exact isBoundary_iff.mpr ⟨front, rest, hcs, hf⟩

theorem floorBoundary_of_isBoundary (h : isBoundary n cs = true) : floorBoundary n cs = n := by
  obtain ⟨front, rest, rfl, rfl⟩ := isBoundary_iff.mp h
  exact floorBoundary_append front rest

/-- An offset stands for the last place that is not past it. -/
theorem floorBoundary_isGreatest (n : Nat) (cs : Text) :
    IsGreatest {b | b ≤ n ∧ isBoundary b cs = true} (floorBoundary n cs) := by
  refine ⟨⟨floorBoundary_le n cs, isBoundary_floorBoundary n cs⟩, ?_⟩
  rintro b ⟨hle, hb⟩
  rw [← floorBoundary_of_isBoundary hb]
  exact floorBoundary_mono cs hle

theorem positionOf_floorBoundary (n : Nat) (cs : Text) :
    positionOf cs (floorBoundary n cs) = positionOf cs n := by
  have hf := floorBoundary_of_isBoundary (isBoundary_floorBoundary n cs)
  rw [positionOf, positionOf, before, before, hf]

theorem positionOf_mono (cs : Text) {a b : Nat} (h : a ≤ b) : positionOf cs a ≤ positionOf cs b := by
  have ha := place_of_isBoundary (isBoundary_floorBoundary a cs)
  have hb := place_of_isBoundary (isBoundary_floorBoundary b cs)
  rw [← positionOf_floorBoundary a, ← positionOf_floorBoundary b]
  exact (ha.le_iff hb).mp (floorBoundary_mono cs h)

/-! ## the places of a line -/

theorem lineFeeds_takeWhile (cs : Text) : lineFeeds (cs.takeWhile (· ≠ '\n')) = 0 := by
  rw [lineFeeds, List.count_eq_zero]
  intro h
  have := List.all_eq_true.mp List.all_takeWhile _ h
  exact absurd this (by decide)

theorem lineFeeds_of_front {a b : Text} (h : a <+: b) (hb : lineFeeds b = 0) : lineFeeds a = 0 := by
  obtain ⟨m, rfl⟩ := h
  rw [lineFeeds_append] at hb
  omega

/-- The places of a line are behind the fronts of the line, and their columns are the units of these. -/
theorem place_iff_front (h : dropLines n cs = some rest) (offset column : Nat) :
    Place cs offset ⟨n, column⟩ ↔ ∃ front, front <+: rest.takeWhile (· ≠ '\n')
      ∧ offset = byteSize cs - byteSize rest + byteSize front ∧ column = units front := by
  constructor
  · rintro ⟨front, after, hcs, rfl, hp⟩
    obtain ⟨hn, rfl⟩ := Position.mk.inj hp
    have hd := dropLines_lineFeeds front after
    rw [← hcs, hn, h] at hd
    have hrest := Option.some.inj hd
    have hl := byteSize_lastLine_le front
    refine ⟨lastLine front, ?_, ?_, rfl⟩
    · rw [hrest, takeWhile_of_lineFeeds (lineFeeds_lastLine front)]
      exact List.prefix_append _ _
    · rw [hrest, hcs, byteSize_append, byteSize_append]
      omega
  · rintro ⟨front, hf, rfl, rfl⟩
    obtain ⟨above, rfl, hn, hlast⟩ := dropLines_parts h
    obtain ⟨after, rfl⟩ := hf.trans (List.takeWhile_prefix _)
    refine ⟨above ++ front, after, (List.append_assoc _ _ _).symm, ?_, ?_⟩
    · simp only [byteSize_append]
      omega
    · rw [endOf_append above (lineFeeds_of_front hf (lineFeeds_takeWhile _)), hlast, hn]
      show Position.mk n (0 + units front) = _
      rw [Nat.zero_add]

/-! ## what a position stands for -/

theorem takeUnits_front (k : Nat) (cs : Text) : takeUnits k cs <+: cs := by
  induction cs generalizing k with
  | nil => cases k <;> exact List.nil_prefix
  | cons c cs ih =>
    cases k with
    | zero => exact List.nil_prefix
    | succ k => exact (List.prefix_cons_inj c).mpr (ih _)

/-- A front that has enough units has the shortest one that does. -/
theorem takeUnits_front_of_le {k : Nat} {front cs : Text} (h : front <+: cs) (hk : k ≤ units front) :
    takeUnits k cs <+: front := by
  induction cs generalizing k front with
  | nil =>
    rw [List.prefix_nil.mp h]
    exact takeUnits_front k []
  | cons c cs ih =>
    cases k with
    | zero => exact List.nil_prefix
    | succ k =>
      cases front with
      | nil => cases hk
      | cons d front =>
        obtain ⟨rfl, hf⟩ := List.cons_prefix_cons.mp h
        rw [units] at hk
        exact (List.prefix_cons_inj d).mpr (ih hf (by omega))

/-- If there are not enough units, all are taken. -/
theorem takeUnits_eq_self {k : Nat} {cs : Text} (h : units (takeUnits k cs) < k) :
    takeUnits k cs = cs := by
  induction cs generalizing k with
  | nil => cases k <;> rfl
  | cons c cs ih =>
    cases k with
    | zero => cases h
    | succ k =>
      rw [takeUnits, units] at h
      rw [takeUnits, ih (by omega)]

/-- The offset that a position stands for: the first place of its line that has its column or a later
one, or else the end of the line. -/
def Nearest (cs : Text) (p : Position) (offset : Nat) : Prop :=
  IsLeast {o | ∃ column, Place cs o ⟨p.line, column⟩ ∧ p.character ≤ column} offset
    ∨ (∀ o column, Place cs o ⟨p.line, column⟩ → column < p.character)
      ∧ IsGreatest {o | ∃ column, Place cs o ⟨p.line, column⟩} offset

theorem byteSize_le_of_front {a b : Text} (h : a <+: b) : byteSize a ≤ byteSize b := by
  obtain ⟨m, rfl⟩ := h
  rw [byteSize_append]
  omega

theorem units_le_of_front {a b : Text} (h : a <+: b) : units a ≤ units b := by
  obtain ⟨m, rfl⟩ := h
  rw [units_append]
  omega

theorem nearest_of_offsetOf? {o : Nat} (h : offsetOf? cs p = some o) : Nearest cs p o := by
  rw [offsetOf?, Option.map_eq_some_iff] at h
  obtain ⟨rest, hd, rfl⟩ := h
  have hplace := place_iff_front hd
  have hpre := takeUnits_front p.character (rest.takeWhile (· ≠ '\n'))
  by_cases hk : p.character ≤ units (takeUnits p.character (rest.takeWhile (· ≠ '\n')))
  · left
    refine ⟨⟨_, (hplace _ _).mpr ⟨_, hpre, rfl, rfl⟩, hk⟩, ?_⟩
    rintro o ⟨column, ho, hc⟩
    obtain ⟨front, hf, rfl, rfl⟩ := (hplace _ _).mp ho
    have := byteSize_le_of_front (takeUnits_front_of_le hf hc)
    omega
  · right
    have hall := takeUnits_eq_self (Nat.lt_of_not_le hk)
    rw [hall] at hk ⊢
    constructor
    · intro o column ho
      obtain ⟨front, hf, -, rfl⟩ := (hplace _ _).mp ho
      have := units_le_of_front hf
      omega
    · refine ⟨⟨_, (hplace _ _).mpr ⟨_, List.prefix_refl _, rfl, rfl⟩⟩, ?_⟩
      rintro o ⟨column, ho⟩
      obtain ⟨front, hf, rfl, -⟩ := (hplace _ _).mp ho
      have := byteSize_le_of_front hf
      omega

namespace Nearest

variable {a b : Nat}

/-- it is a place of the line -/
theorem place (h : Nearest cs p a) : ∃ column, Place cs a ⟨p.line, column⟩ := by
  rcases h with ⟨⟨column, h, -⟩, -⟩ | ⟨-, h, -⟩
  · exact ⟨column, h⟩
  · exact h

/-- Later positions stand for later places. -/
theorem mono (ha : Nearest cs p a) (hb : Nearest cs q b) (h : p ≤ q) : a ≤ b := by
  rcases Position.le_iff.mp h with hline | ⟨hline, hcolumn⟩
  · obtain ⟨k, hka⟩ := ha.place
    obtain ⟨l, hlb⟩ := hb.place
    exact Nat.le_of_lt (hka.lt_of_lt hlb (.inl hline))
  · -- on one line, what has the later column has the earlier one
    rcases ha with ⟨hka, hleast⟩ | ⟨hnone, hgreatest⟩
    · rcases hb with ⟨⟨column, hb, hle⟩, -⟩ | ⟨-, hgreatest⟩
      · exact hleast ⟨column, hline ▸ hb, Nat.le_trans hcolumn hle⟩
      · obtain ⟨column, hka, -⟩ := hka
        exact hgreatest.2 ⟨column, hline ▸ hka⟩
    · rcases hb with ⟨⟨column, hb, hle⟩, -⟩ | ⟨-, hb⟩
      · have := hnone b column (hline ▸ hb)
        omega
      · obtain ⟨column, hka⟩ := hgreatest.1
        exact hb.2 ⟨column, hline ▸ hka⟩

end Nearest

theorem offsetOf?_eq_none_iff : offsetOf? cs p = none ↔ (lines cs).length ≤ p.line := by
  rw [← List.getElem?_eq_none_iff, lines_getElem?, Option.map_eq_none_iff, offsetOf?,
    Option.map_eq_none_iff]

/-- A position comes back from its offset just if some front of the line has as many units as its
column says. -/
theorem positionOf_offsetOf?_iff {line : Text} (hline : (lines cs)[p.line]? = some line) :
    (offsetOf? cs p).map (positionOf cs) = some p ↔ ∃ front, front <+: line
      ∧ units front = p.character := by
  rw [lines_getElem?, Option.map_eq_some_iff] at hline
  obtain ⟨rest, hd, rfl⟩ := hline
  constructor
  · rw [Option.map_eq_some_iff]
    rintro ⟨o, ho, hp⟩
    obtain ⟨column, hplace⟩ := (nearest_of_offsetOf? ho).place
    rw [hplace.positionOf_eq] at hp
    obtain ⟨front, hf, -, hu⟩ := (place_iff_front hd o column).mp hplace
    refine ⟨front, hf, ?_⟩
    rw [← hu, ← hp]
  · rintro ⟨front, hf, hu⟩
    have hplace : Place cs _ p := (place_iff_front hd _ _).mpr ⟨front, hf, rfl, hu.symm⟩
    rw [hplace.offsetOf?_eq, Option.map_some, hplace.positionOf_eq]

end Text

end CppMend
