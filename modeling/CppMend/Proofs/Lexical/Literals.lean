import CppMend.Lexical.Scan
import CppMend.Proofs.Lexical.Matching

/-!
# The patterns of literals

A literal is met at one place only: at the first quote of its own kind behind the opening one that no
backslash escapes, where escapes are counted from the opening quote on.

* `endsEscaping`           the character after a text is escaped;
* `Enclosed`               what stands between the quotes of a literal;
* `Enclosed.unique`        there is one first quote;
* `matches_quotedChars`    the inside of a literal;
* `IsLiteral`              a mark, a quote, an enclosed text on one line, and a quote.
-/

namespace CppMend

open Pattern TokenClass

variable {w : List Char}

/-! ## escapes -/

/-- The character after this text is escaped: a backslash escapes the next character, if it is not
escaped itself. -/
def endsEscaping (w : List Char) : Bool := w.foldl (fun escaped c => !escaped && c = '\\') false

theorem endsEscaping_cons {c : Char} (hc : c ≠ '\\') (w : List Char) :
    endsEscaping (c :: w) = endsEscaping w := by
  rw [endsEscaping, List.foldl_cons, decide_eq_false hc]
  rfl

theorem endsEscaping_escape (c : Char) (w : List Char) :
    endsEscaping ('\\' :: c :: w) = endsEscaping w := rfl

/-- What stands between a quote and the first one after it that is not escaped. -/
structure Enclosed (quote : Char) (w : List Char) : Prop where
  closes : endsEscaping w = false
  quotes : ∀ u v, w = u ++ quote :: v → endsEscaping u = true

/-- There is only one first quote. -/
theorem Enclosed.unique {quote : Char} {u v x y : List Char} (hu : Enclosed quote u)
    (hv : Enclosed quote v) (h : u ++ quote :: x = v ++ quote :: y) : u = v := by
  have shorter {u v x y : List Char} (hu : Enclosed quote u) (hv : Enclosed quote v)
      (h : u ++ quote :: x = v ++ quote :: y) : v.length ≤ u.length := by
    rcases List.append_eq_append_iff.mp h with ⟨as, rfl, hquote⟩ | ⟨bs, rfl, -⟩
    · cases as with
      | nil => exact Nat.le_of_eq (congrArg List.length (List.append_nil u))
      | cons c as =>
        -- the quote behind `u` is inside of `v`, so it is escaped
        have hescaped := hv.quotes u as (by rw [(List.cons.inj hquote).1])
        rw [hu.closes] at hescaped
        cases hescaped
    · rw [List.length_append]
      exact Nat.le_add_right _ _
  exact (List.append_inj h (Nat.le_antisymm (shorter hv hu h.symm) (shorter hu hv h))).1

variable {quote : Char}

theorem enclosed_nil : Enclosed quote [] := ⟨rfl, fun u v h => by cases u <;> cases h⟩

/-- the quote apart, a character that is no backslash may come first -/
theorem enclosed_cons {c : Char} (hc : c ≠ '\\') :
    Enclosed quote (c :: w) ↔ c ≠ quote ∧ Enclosed quote w := by
  constructor
  · rintro ⟨hcloses, hquotes⟩
    rw [endsEscaping_cons hc] at hcloses
    refine ⟨?_, hcloses, fun u v h => ?_⟩
    · rintro rfl
      exact Bool.false_ne_true (hquotes [] w rfl)
    · rw [← endsEscaping_cons hc]
      exact hquotes (c :: u) v (congrArg (List.cons c) h)
  · rintro ⟨hq, hcloses, hquotes⟩
    refine ⟨(endsEscaping_cons hc w).trans hcloses, fun u v h => ?_⟩
    cases u with
    | nil => exact absurd (List.cons.inj h).1 hq
    | cons d u =>
      rw [List.cons_append, List.cons.injEq] at h
      rw [← h.1, endsEscaping_cons hc]
      exact hquotes u v h.2

/-- so may a backslash and any character -/
theorem enclosed_escape (hq : quote ≠ '\\') (c : Char) :
    Enclosed quote ('\\' :: c :: w) ↔ Enclosed quote w := by
  constructor
  · rintro ⟨hcloses, hquotes⟩
    refine ⟨hcloses, fun u v h => ?_⟩
    rw [← endsEscaping_escape c]
    exact hquotes ('\\' :: c :: u) v (by rw [h]; rfl)
  · rintro ⟨hcloses, hquotes⟩
    refine ⟨hcloses, fun u v h => ?_⟩
    match u with
    | [] => exact absurd (List.cons.inj h).1.symm hq
    | [d] =>
      rw [← (List.cons.inj h).1]
      rfl
    | d :: e :: u =>
      simp only [List.cons_append, List.cons.injEq] at h
      obtain ⟨rfl, rfl, h⟩ := h
      exact hquotes u v h

/-! ## the pattern -/

/-- The inside of a literal has no line feed, and is enclosed. -/
theorem matches_quotedChars (hq : quote ≠ '\\') :
    Matches (.star (quotedChar quote)) w ↔ Enclosed quote w ∧ '\n' ∉ w := by
  constructor
  · intro h
    generalize hs : Pattern.star (quotedChar quote) = s at h
    induction h with
    | done => exact ⟨enclosed_nil, List.not_mem_nil⟩
    | @more p u v hu _ _ ih =>
      cases hs
      obtain ⟨hv, hline⟩ := ih rfl
      rcases matches_alt.mp hu with hu | hu
      · obtain ⟨c, hc, rfl⟩ := matches_noneOf.mp hu
        simp only [List.mem_cons, List.not_mem_nil, or_false, not_or] at hc
        refine ⟨(enclosed_cons hc.2.1).mpr ⟨hc.1, hv⟩, ?_⟩
        simpa [eq_comm] using ⟨hc.2.2, hline⟩
      · obtain ⟨x, y, hx, hy, rfl⟩ := matches_seq.mp hu
        obtain ⟨c, hc, rfl⟩ := matches_noneOf.mp hy
        rw [matches_word.mp hx]
        refine ⟨(enclosed_escape hq c).mpr hv, ?_⟩
        simpa [eq_comm] using ⟨List.ne_of_not_mem_cons hc, hline⟩
    | _ => cases hs
  · rintro ⟨h, hline⟩
    induction hn : w.length using Nat.strongRecOn generalizing w with
    | ind n ih =>
      cases w with
      | nil => exact .done
      | cons c w =>
        by_cases hc : c = '\\'
        · subst hc
          cases w with
          | nil => exact absurd h.closes (by decide)
          | cons d w =>
            simp only [List.mem_cons, not_or] at hline
            have hw := ih w.length (by simp only [List.length_cons] at hn; omega)
              ((enclosed_escape hq d).mp h) hline.2.2 rfl
            have hd : d ∉ ['\n'] := by simpa [eq_comm] using hline.2.1
            exact .more (.right (.seq (.word ['\\']) (matches_noneOf.mpr ⟨d, hd, rfl⟩))) hw
        · obtain ⟨hcq, hw⟩ := (enclosed_cons hc).mp h
          simp only [List.mem_cons, not_or] at hline
          have hw := ih w.length (by simp only [List.length_cons] at hn; omega) hw hline.2 rfl
          have hd : c ∉ [quote, '\\', '\n'] := by simp [hcq, hc, Ne.symm hline.1]
          exact .more (.left (matches_noneOf.mpr ⟨c, hd, rfl⟩)) hw

/-- what may stand before the quote of a literal -/
def encodings : List (List Char) := [[], ['u', '8'], ['u'], ['U'], ['L']]

theorem matches_encoding : Matches encoding w ↔ w ∈ encodings := by
  have hone : Matches (oneOf ['u', 'U', 'L']) w ↔ w ∈ [['u'], ['U'], ['L']] := by
    simp only [oneOf, matches_char, List.contains_eq_mem, decide_eq_true_eq, List.mem_cons,
      List.not_mem_nil, or_false]
    constructor
    · rintro ⟨c, rfl | rfl | rfl, rfl⟩ <;> simp
    · rintro (rfl | rfl | rfl) <;> simp
  rw [encoding, opt, matches_alt, matches_alt, Pattern.empty, matches_word, matches_word, hone]
  simp [encodings]

/-- the quotes of a kind of literal -/
def quoteOf? : TokenKind → Option Char
  | .char => some '\''
  | .string => some '"'
  | _ => none

/-- A literal: a mark, and two quotes with an enclosed text between them on the same line. Between the
quotes of a character literal there is something. -/
def IsLiteral (kind : TokenKind) (w : Text) : Prop :=
  ∃ quote ∈ quoteOf? kind, ∃ mark ∈ encodings, ∃ inner, w = mark ++ quote :: (inner ++ [quote])
    ∧ Enclosed quote inner ∧ '\n' ∉ inner ∧ (kind = .char → inner ≠ [])

theorem matches_quoted {body : Pattern} :
    Matches (inOrder [encoding, .word [quote], body, .word [quote]]) w
      ↔ ∃ mark ∈ encodings, ∃ inner, w = mark ++ quote :: (inner ++ [quote]) ∧ Matches body inner := by
  constructor
  · intro h
    obtain ⟨mark, b, hmark, hb, rfl⟩ := matches_seq.mp h
    obtain ⟨q, c, hq, hc, rfl⟩ := matches_seq.mp hb
    obtain ⟨inner, d, hinner, hd, rfl⟩ := matches_seq.mp hc
    rw [matches_word.mp hq, matches_word.mp hd]
    exact ⟨mark, matches_encoding.mp hmark, inner, rfl, hinner⟩
  · rintro ⟨mark, hmark, inner, rfl, hinner⟩
    exact .seq (matches_encoding.mpr hmark) (.seq (u := [quote]) (.word _) (.seq hinner (.word _)))

theorem enclosed_encoding {mark : List Char} (hq : quote ∈ ['\'', '"']) (h : mark ∈ encodings) :
    Enclosed quote mark := by
  simp only [encodings, List.mem_cons, List.not_mem_nil, or_false] at h hq
  rcases h with rfl | rfl | rfl | rfl | rfl <;> rcases hq with rfl | rfl <;>
    simp [enclosed_cons, enclosed_nil]

end CppMend
