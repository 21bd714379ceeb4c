import CppMend.Lexical.Classes
import CppMend.Proofs.Lexical.Matching
import Mathlib.Data.List.Induction

/-!
# The patterns of comments

A block comment is met at one place only, the first `*/` behind its mark, however many stars and slashes
come before. A comment to the end of the line has no line feed.

* `HasClose`                    a text with a `*/` in it;
* `commentBody_sound`,
  `exists_commentBody`          what the pattern of a block comment has between its marks;
* `matches_blockComment`        a block comment has one `*/`, at its end;
* `matches_lineComment`         a comment to the end of the line;
* `length_le_of_first_close`    no `*/` stands before the first one.
-/

namespace CppMend

open Pattern TokenClass

variable {w : List Char}

/-! ## the end of a block comment -/

/-- a `*/` in a text -/
def HasClose (w : List Char) : Prop := ['*', '/'] <:+: w

instance (w : List Char) : Decidable (HasClose w) := inferInstanceAs (Decidable (_ <:+: _))

theorem hasClose_concat (w : List Char) (c : Char) :
    HasClose (w ++ [c]) ↔ (w.getLast? = some '*' ∧ c = '/') ∨ HasClose w := by
  have hsuffix : ['*', '/'] <:+ w ++ [c] ↔ w.getLast? = some '*' ∧ c = '/' := by
    rw [List.getLast?_eq_some_iff]
    constructor
    · rintro ⟨u, hu⟩
      rw [show u ++ ['*', '/'] = (u ++ ['*']) ++ ['/'] by rw [List.append_assoc]; rfl] at hu
      obtain ⟨hw, hc⟩ := List.append_inj' hu rfl
      exact ⟨⟨u, hw.symm⟩, (List.singleton_inj.mp hc).symm⟩
    · rintro ⟨⟨u, rfl⟩, rfl⟩
      exact ⟨u, by rw [List.append_assoc]; rfl⟩
  rw [HasClose, List.infix_concat_iff, hsuffix]
  rfl

/-- the pattern of what stands between the marks of a block comment, but for the last stars -/
def commentBody : Pattern :=
  .star (.alt (noneOf ['*']) (.seq (plus (.word ['*'])) (noneOf ['*', '/'])))

/-- the first `*/` of a text -/
theorem exists_first_close (h : HasClose w) :
    ∃ inner tail, w = inner ++ '*' :: '/' :: tail ∧ ¬HasClose (inner ++ ['*']) := by
  induction w using List.reverseRecOn with
  | nil => exact absurd h (by decide)
  | append_singleton w c ih =>
    by_cases hw : HasClose w
    · obtain ⟨inner, tail, rfl, hfirst⟩ := ih hw
      exact ⟨inner, tail ++ [c], by rw [List.append_assoc]; rfl, hfirst⟩
    · obtain ⟨hstar, rfl⟩ := ((hasClose_concat w c).mp h).resolve_right hw
      obtain ⟨inner, rfl⟩ := List.getLast?_eq_some_iff.mp hstar
      exact ⟨inner, [], by rw [List.append_assoc]; rfl, hw⟩

/-- None stands before it. -/
theorem length_le_of_first_close {inner tail u v : List Char} (h : ¬HasClose (inner ++ ['*']))
    (he : inner ++ '*' :: '/' :: tail = u ++ '*' :: '/' :: v) : inner.length ≤ u.length := by
  by_contra hlt
  have hinner : inner ++ ['*'] <+: inner ++ '*' :: '/' :: tail := ⟨'/' :: tail, by simp⟩
  have hu : u ++ ['*', '/'] <+: inner ++ '*' :: '/' :: tail := ⟨v, by simp [he]⟩
  have hle : u ++ ['*', '/'] <+: inner ++ ['*'] :=
    List.prefix_of_prefix_length_le hu hinner (by
      rw [List.length_append, List.length_append]
      exact Nat.add_lt_add_right (Nat.lt_of_not_le hlt) 1)
  exact h ((List.suffix_append u _).isInfix.trans hle.isInfix)

/-! ## the patterns -/

theorem matches_stars : Matches (.star (.word ['*'])) w ↔ ∃ n, w = List.replicate n '*' := by
  constructor
  · intro h
    have ho : (Pattern.star (.word ['*'])).Only (· = '*') := fun c hc => List.mem_singleton.mp hc
    exact ⟨w.length, List.eq_replicate_iff.mpr ⟨rfl, ho.sound h⟩⟩
  · rintro ⟨n, rfl⟩
    induction n with
    | zero => exact .done
    | succ n ih => exact .more (.word ['*']) ih

theorem matches_moreStars :
    Matches (plus (.word ['*'])) w ↔ ∃ n, w = List.replicate (n + 1) '*' := by
  rw [plus, matches_seq]
  constructor
  · rintro ⟨u, v, hu, hv, rfl⟩
    obtain ⟨n, rfl⟩ := matches_stars.mp hv
    rw [matches_word.mp hu]
    exact ⟨n, rfl⟩
  · rintro ⟨n, rfl⟩
    exact ⟨['*'], _, .word _, matches_stars.mpr ⟨n, rfl⟩, rfl⟩

theorem not_hasClose_stars (n : Nat) : ¬HasClose (List.replicate n '*') := by
  rintro h
  have hm : '/' ∈ List.replicate n '*' := h.subset (by simp)
  exact absurd (List.eq_of_mem_replicate hm) (by decide)

/-- No star ends the body of a comment, and no `*/` is in it. -/
theorem commentBody_sound (h : Matches commentBody w) :
    ¬HasClose w ∧ w.getLast? ≠ some '*' := by
  have hends : (Pattern.alt (noneOf ['*']) (.seq (plus (.word ['*'])) (noneOf ['*', '/']))).Ends
      (· ≠ '*') := by
    refine ⟨?_, ends_seq ?_ rfl⟩ <;> intro c hc hstar <;> rw [hstar] at hc <;> cases hc
  refine ⟨?_, fun hlast => hends.sound (p := commentBody) h _ hlast rfl⟩
  generalize hs : commentBody = s at h
  induction h with
  | done => decide
  | @more p u v hu _ _ ih =>
    cases hs
    -- a `*/` across two pieces would need a star at the end of the first
    have hlast : u.getLast? ≠ some '*' := fun hlast => hends.sound hu _ hlast rfl
    have hpiece : ¬HasClose u := by
      rcases matches_alt.mp hu with hu | hu
      · obtain ⟨c, -, rfl⟩ := matches_noneOf.mp hu
        exact fun hc => absurd hc.length_le (Nat.not_succ_le_self 1)
      · obtain ⟨x, y, hx, hy, rfl⟩ := matches_seq.mp hu
        obtain ⟨n, rfl⟩ := matches_moreStars.mp hx
        obtain ⟨c, hc, rfl⟩ := matches_noneOf.mp hy
        rw [hasClose_concat]
        rintro (⟨-, rfl⟩ | h)
        · exact hc (by decide)
        · exact not_hasClose_stars _ h
    intro h
    rcases List.infix_append_iff_ne_nil.mp h with h | h | ⟨a, b, ha, hb, hab, ⟨x, hx⟩, -⟩
    · exact hpiece h
    · exact ih rfl h
    · obtain ⟨rfl, -⟩ : a = ['*'] ∧ b = ['/'] := by
        match a, b, ha, hb, hab with
        | [c], [d], _, _, hab => simpa using hab.symm
        | c :: d :: a, e :: b, _, _, hab => simp at hab
        | [c], d :: e :: b, _, _, hab => simp at hab
      rw [← hx, List.getLast?_concat] at hlast
      exact hlast rfl
  | _ => cases hs

/-- A text without `*/` is the body of a comment and some stars. -/
theorem exists_commentBody (h : ¬HasClose w) :
    ∃ u n, Matches commentBody u ∧ w = u ++ List.replicate n '*' := by
  induction w using List.reverseRecOn with
  | nil => exact ⟨[], 0, .done, rfl⟩
  | append_singleton w c ih =>
    rw [hasClose_concat, not_or, not_and] at h
    obtain ⟨u, n, hu, rfl⟩ := ih h.2
    by_cases hc : c = '*'
    · refine ⟨u, n + 1, hu, ?_⟩
      rw [hc, List.append_assoc, ← List.replicate_succ']
    · -- the stars before another character are a piece of the body with it
      have hpiece : Matches (.alt (noneOf ['*']) (.seq (plus (.word ['*'])) (noneOf ['*', '/'])))
          (List.replicate n '*' ++ [c]) := by
        cases n with
        | zero => exact .left (matches_noneOf.mpr ⟨c, by simpa using hc, rfl⟩)
        | succ n =>
          have hslash : c ≠ '/' := by
            refine h.1 ?_
            rw [List.replicate_succ', ← List.append_assoc, List.getLast?_concat]
          exact .right (.seq (matches_moreStars.mpr ⟨n, rfl⟩)
            (matches_noneOf.mpr ⟨c, by simp [hc, hslash], rfl⟩))
      refine ⟨u ++ (List.replicate n '*' ++ [c]), 0, ?_, ?_⟩
      · have hone := Matches.more hpiece .done
        rw [List.append_nil] at hone
        exact matches_star_append hu hone
      · rw [List.replicate_zero, List.append_nil, List.append_assoc]

/-- A block comment has its mark, and then no `*/` but the one at its end. -/
theorem matches_blockComment : Matches blockComment w ↔
    ∃ inner, w = '/' :: '*' :: (inner ++ ['*', '/']) ∧ ¬HasClose (inner ++ ['*']) := by
  have hmatches : Matches blockComment w ↔ ∃ u n, Matches commentBody u
      ∧ w = '/' :: '*' :: (u ++ (List.replicate (n + 1) '*' ++ ['/'])) := by
    show Matches (.seq (.word ['/', '*'])
      (.seq commentBody (.seq (plus (.word ['*'])) (.word ['/'])))) w ↔ _
    constructor
    · intro h
      obtain ⟨a, b, ha, hb, rfl⟩ := matches_seq.mp h
      obtain ⟨u, d, hu, hd, rfl⟩ := matches_seq.mp hb
      obtain ⟨e, f, he, hf, rfl⟩ := matches_seq.mp hd
      obtain ⟨n, rfl⟩ := matches_moreStars.mp he
      rw [matches_word.mp ha, matches_word.mp hf]
      exact ⟨u, n, hu, rfl⟩
    · rintro ⟨u, n, hu, rfl⟩
      exact .seq (u := ['/', '*']) (.word _) (.seq hu (.seq (matches_moreStars.mpr ⟨n, rfl⟩) (.word _)))
  rw [hmatches]
  constructor
  · rintro ⟨u, n, hu, rfl⟩
    obtain ⟨hclose, hlast⟩ := commentBody_sound hu
    refine ⟨u ++ List.replicate n '*', by simp [List.replicate_succ'], ?_⟩
    rw [List.append_assoc, ← List.replicate_succ']
    generalize n + 1 = m
    induction m with
    | zero => rwa [List.replicate_zero, List.append_nil]
    | succ m ih =>
      rw [List.replicate_succ', ← List.append_assoc, hasClose_concat]
      rintro (⟨-, h⟩ | h)
      · cases h
      · exact ih h
  · rintro ⟨inner, rfl, h⟩
    obtain ⟨u, n, hu, he⟩ := exists_commentBody h
    cases n with
    | zero =>
      rw [List.replicate_zero, List.append_nil] at he
      rw [← he] at hu
      exact absurd List.getLast?_concat (commentBody_sound hu).2
    | succ n =>
      refine ⟨u, n, hu, ?_⟩
      rw [← List.append_assoc, ← he, List.append_assoc]
      rfl

theorem matches_lineComment {r : List Char} :
    Matches lineComment ('/' :: '/' :: r) ↔ '\n' ∉ r := by
  constructor
  · intro h
    obtain ⟨u, v, hu, hv, he⟩ := matches_seq.mp h
    rw [matches_word.mp hu] at he
    obtain rfl : r = v := (List.cons.inj (List.cons.inj he).2).2
    have ho : (Pattern.star (noneOf ['\n'])).Only (· ≠ '\n') := by
      intro c hc
      simpa using hc
    exact fun hm => ho.sound hv _ hm rfl
  · intro h
    refine .seq (u := ['/', '/']) (.word _) ?_
    induction r with
    | nil => exact .done
    | cons c r ih =>
      simp only [List.mem_cons, not_or] at h
      exact .more (matches_noneOf.mpr ⟨c, by simpa [eq_comm] using h.1, rfl⟩) (ih h.2)

end CppMend
