import CppMend.Lexical.Pattern
import Mathlib.Data.Bool.AllAny

/-!
# Following a text through a pattern

What is left of a pattern after a character stands for what the pattern may go on with. So a text is
described by a pattern if the pattern is complete once the text has been followed through it.

* `Pattern.complete_iff`, `hopeless_sound`   the tests of a pattern mean what they say;
* `Pattern.matches_after`                    following one character;
* `Pattern.accepts_iff`                      following a whole text.
-/

namespace CppMend

namespace Pattern

variable {p q : Pattern} {w : List Char}

/-! ## the texts of each form -/

theorem not_matches_never : ¬Matches .never w := nofun

theorem matches_word {s : List Char} : Matches (.word s) w ↔ w = s := by
  constructor
  · intro h
    cases h
    rfl
  · rintro rfl
    exact .word w

theorem matches_char {accepts : Char → Bool} :
    Matches (.char accepts) w ↔ ∃ c, accepts c = true ∧ w = [c] := by
  constructor
  · intro h
    cases h with
    | char hc => exact ⟨_, hc, rfl⟩
  · rintro ⟨c, hc, rfl⟩
    exact .char hc

theorem matches_seq : Matches (.seq p q) w ↔ ∃ u v, Matches p u ∧ Matches q v ∧ w = u ++ v := by
  constructor
  · intro h
    cases h with
    | seq hp hq => exact ⟨_, _, hp, hq, rfl⟩
  · rintro ⟨u, v, hp, hq, rfl⟩
    exact .seq hp hq

theorem matches_alt : Matches (.alt p q) w ↔ Matches p w ∨ Matches q w := by
  constructor
  · intro h
    cases h with
    | left h => exact .inl h
    | right h => exact .inr h
  · rintro (h | h)
    · exact .left h
    · exact .right h

/-- A text of a repetition that is not empty starts with a text of the body that is not. -/
theorem matches_star_cons {c : Char} :
    Matches (.star p) (c :: w) ↔ ∃ u v, Matches p (c :: u) ∧ Matches (.star p) v ∧ w = u ++ v := by
  constructor
  · intro h
    generalize hs : Pattern.star p = s, hw : c :: w = cw at h
    induction h with
    | @more p' u v hu hv _ ih =>
      cases hs
      cases u with
      | nil => exact ih rfl hw
      | cons d u =>
        rw [List.cons_append, List.cons.injEq] at hw
        obtain ⟨rfl, rfl⟩ := hw
        exact ⟨u, v, hu, hv, rfl⟩
    | done => cases hw
    | _ => cases hs
  · rintro ⟨u, v, hu, hv, rfl⟩
    exact .more hu hv

theorem matches_noneOf {set : List Char} : Matches (noneOf set) w ↔ ∃ c, c ∉ set ∧ w = [c] := by
  simp only [noneOf, matches_char, Bool.not_eq_true', List.contains_eq_mem, decide_eq_false_iff_not]

/-- a repetition goes on after a repetition -/
theorem matches_star_append {u v : List Char} (hu : Matches (.star p) u)
    (hv : Matches (.star p) v) : Matches (.star p) (u ++ v) := by
  generalize hs : Pattern.star p = s at hu
  induction hu with
  | done =>
    cases hs
    exact hv
  | @more p' u' v' hu' _ _ ih =>
    cases hs
    rw [List.append_assoc]
    exact .more hu' (ih rfl)
  | _ => cases hs

/-! ## the tests -/

theorem complete_iff (p : Pattern) : p.complete = true ↔ Matches p [] := by
  induction p with
  | never => exact ⟨nofun, nofun⟩
  | word s =>
    rw [complete, matches_word, List.isEmpty_iff, eq_comm]
  | char accepts =>
    rw [complete, matches_char]
    exact ⟨nofun, nofun⟩
  | seq p q ihp ihq =>
    rw [complete, Bool.and_eq_true, ihp, ihq, matches_seq]
    constructor
    · rintro ⟨hp, hq⟩
      exact ⟨[], [], hp, hq, rfl⟩
    · rintro ⟨u, v, hu, hv, h⟩
      obtain ⟨rfl, rfl⟩ := List.append_eq_nil_iff.mp h.symm
      exact ⟨hu, hv⟩
  | alt p q ihp ihq => rw [complete, Bool.or_eq_true, ihp, ihq, matches_alt]
  | star p => exact ⟨fun _ => .done, fun _ => rfl⟩

theorem hopeless_sound (h : p.hopeless = true) : ¬Matches p w := by
  induction p generalizing w with
  | never => exact not_matches_never
  | seq p q ihp ihq =>
    rw [hopeless, Bool.or_eq_true] at h
    rw [matches_seq]
    rintro ⟨u, v, hu, hv, -⟩
    rcases h with h | h
    · exact ihp h hu
    · exact ihq h hv
  | alt p q ihp ihq =>
    rw [hopeless, Bool.and_eq_true] at h
    rw [matches_alt]
    rintro (hw | hw)
    · exact ihp h.1 hw
    · exact ihq h.2 hw
  | _ => cases h

theorem matches_plus (hp : p.complete = false) :
    Matches (plus p) w ↔ Matches (.star p) w ∧ w ≠ [] := by
  constructor
  · intro h
    obtain ⟨u, v, hu, hv, rfl⟩ := matches_seq.mp h
    refine ⟨.more hu hv, ?_⟩
    intro hnil
    rw [(List.append_eq_nil_iff.mp hnil).1, ← complete_iff, hp] at hu
    cases hu
  · rintro ⟨h, hne⟩
    cases w with
    | nil => exact absurd rfl hne
    | cons c w =>
      obtain ⟨u, v, hu, hv, rfl⟩ := matches_star_cons.mp h
      exact .seq hu hv

/-! ## following a character -/

theorem matches_andThen : Matches (andThen p q) w ↔ Matches (.seq p q) w := by
  rw [andThen.eq_def]
  split
  · constructor
    · exact nofun
    · intro h
      obtain ⟨u, v, hu, -, -⟩ := matches_seq.mp h
      exact absurd hu not_matches_never
  · rw [matches_seq]
    constructor
    · exact fun h => ⟨[], w, .word [], h, rfl⟩
    · rintro ⟨u, v, hu, hv, rfl⟩
      rw [matches_word.mp hu]
      exact hv
  · exact Iff.rfl

theorem matches_orElse : Matches (orElse p q) w ↔ Matches p w ∨ Matches q w := by
  rw [orElse.eq_def]
  split
  · simp only [not_matches_never, false_or]
  · simp only [not_matches_never, or_false]
  · exact matches_alt

/-- A text of a sequence starts in its first part, or the first part may be left out. -/
theorem matches_seq_cons {c : Char} : Matches (.seq p q) (c :: w)
    ↔ (∃ u v, Matches p (c :: u) ∧ Matches q v ∧ w = u ++ v)
      ∨ (Matches p [] ∧ Matches q (c :: w)) := by
  rw [matches_seq]
  constructor
  · rintro ⟨u, v, hu, hv, h⟩
    cases u with
    | nil => exact .inr ⟨hu, by rw [h]; exact hv⟩
    | cons d u =>
      rw [List.cons_append, List.cons.injEq] at h
      obtain ⟨rfl, rfl⟩ := h
      exact .inl ⟨u, v, hu, hv, rfl⟩
  · rintro (⟨u, v, hu, hv, rfl⟩ | ⟨hp, hq⟩)
    · exact ⟨c :: u, v, hu, hv, rfl⟩
    · exact ⟨[], c :: w, hp, hq, rfl⟩

theorem matches_after (c : Char) (p : Pattern) (w : List Char) :
    Matches (p.after c) w ↔ Matches p (c :: w) := by
  induction p generalizing w with
  | never => exact ⟨nofun, nofun⟩
  | word s =>
    cases s with
    | nil =>
      rw [after, matches_word]
      exact ⟨nofun, nofun⟩
    | cons d ds =>
      rw [after, matches_word, List.cons.injEq]
      split
      · next h => simp only [matches_word, h, true_and]
      · next h => simp only [not_matches_never, h, false_and]
  | char accepts =>
    rw [after, matches_char]
    split
    · next h =>
      rw [empty, matches_word]
      constructor
      · rintro rfl
        exact ⟨c, h, rfl⟩
      · rintro ⟨d, -, hw⟩
        exact (List.cons.inj hw).2
    · next h =>
      constructor
      · exact nofun
      · rintro ⟨d, hd, hw⟩
        rw [(List.cons.inj hw).1] at h
        exact absurd hd h
  | seq p q ihp ihq =>
    have hfirst : Matches (andThen (p.after c) q) w
        ↔ ∃ u v, Matches p (c :: u) ∧ Matches q v ∧ w = u ++ v := by
      rw [matches_andThen, matches_seq]
      simp only [ihp]
    rw [after, matches_seq_cons, ← complete_iff]
    split
    · next h => rw [matches_orElse, hfirst, ihq, h, eq_self, true_and]
    · next h => simp only [hfirst, h, false_and, or_false, Bool.false_eq_true]
  | alt p q ihp ihq => rw [after, matches_orElse, matches_alt, ihp, ihq]
  | star p ih =>
    rw [after, matches_andThen, matches_seq, matches_star_cons]
    simp only [ih]

/-! ## following a text -/

/-- the pattern is complete after the text -/
def accepts (p : Pattern) : List Char → Bool
  | [] => p.complete
  | c :: w => (p.after c).accepts w

theorem accepts_iff (p : Pattern) (w : List Char) : p.accepts w = true ↔ Matches p w := by
  induction w generalizing p with
  | nil => exact complete_iff p
  | cons c w ih => rw [accepts, ih, matches_after]

theorem accepts_of_hopeless (h : p.hopeless = true) : p.accepts w = false := by
  rw [← Bool.not_eq_true, accepts_iff]
  exact hopeless_sound h

/-! ## the characters of a text -/

/-- all characters of the texts of a pattern are as `P` says -/
def Only (P : Char → Prop) : Pattern → Prop
  | .never => True
  | .word s => ∀ c ∈ s, P c
  | .char accepts => ∀ c, accepts c = true → P c
  | .seq p q | .alt p q => p.Only P ∧ q.Only P
  | .star p => p.Only P

/-- the texts of a pattern have a character that is as `P` says -/
def Has (P : Char → Prop) : Pattern → Prop
  | .never => True
  | .word s => ∃ c ∈ s, P c
  | .char accepts => ∀ c, accepts c = true → P c
  | .seq p q => p.Has P ∨ q.Has P
  | .alt p q => p.Has P ∧ q.Has P
  | .star _ => False

/-- The texts of a pattern start with a character that is as `P` says, if they are not empty. -/
def Begins (P : Char → Prop) : Pattern → Prop
  | .never => True
  | .word s => ∀ c ∈ s.head?, P c
  | .char accepts => ∀ c, accepts c = true → P c
  | .seq p q => p.Begins P ∧ (p.complete = true → q.Begins P)
  | .alt p q => p.Begins P ∧ q.Begins P
  | .star p => p.Begins P

/-- The texts of a pattern end with a character that is as `P` says, if they are not empty. -/
def Ends (P : Char → Prop) : Pattern → Prop
  | .never => True
  | .word s => ∀ c ∈ s.getLast?, P c
  | .char accepts => ∀ c, accepts c = true → P c
  | .seq p q => q.Ends P ∧ (q.complete = true → p.Ends P)
  | .alt p q => p.Ends P ∧ q.Ends P
  | .star p => p.Ends P

variable {P : Char → Prop}

theorem only_oneOf {set : List Char} : (oneOf set).Only P ↔ ∀ c ∈ set, P c := by
  simp only [oneOf, Only, List.contains_iff_mem]

theorem only_set [DecidablePred P] {set : List Char} (h : set.all (P ·) = true) :
    (oneOf set).Only P :=
  only_oneOf.mpr (List.all_iff_forall_prop.mp h)

theorem has_oneOf {set : List Char} : (oneOf set).Has P ↔ ∀ c ∈ set, P c := by
  simp only [oneOf, Has, List.contains_iff_mem]

theorem begins_oneOf {set : List Char} : (oneOf set).Begins P ↔ ∀ c ∈ set, P c := by
  simp only [oneOf, Begins, List.contains_iff_mem]

theorem Only.sound (h : p.Only P) (hw : Matches p w) : ∀ c ∈ w, P c := by
  induction hw with
  | word s => exact h
  | char hc =>
    intro c hm
    rw [List.mem_singleton.mp hm]
    exact h _ hc
  | seq _ _ ihp ihq =>
    intro c hm
    rcases List.mem_append.mp hm with hm | hm
    · exact ihp h.1 c hm
    · exact ihq h.2 c hm
  | left _ ih => exact ih h.1
  | right _ ih => exact ih h.2
  | done => exact fun _ hm => absurd hm List.not_mem_nil
  | more _ _ ihu ihv =>
    intro c hm
    rcases List.mem_append.mp hm with hm | hm
    · exact ihu h c hm
    · exact ihv h c hm

theorem Has.sound (h : p.Has P) (hw : Matches p w) : ∃ c ∈ w, P c := by
  induction hw with
  | word s => exact h
  | char hc => exact ⟨_, List.mem_singleton_self _, h _ hc⟩
  | seq _ _ ihp ihq =>
    rcases h with h | h
    · obtain ⟨c, hm, hc⟩ := ihp h
      exact ⟨c, List.mem_append_left _ hm, hc⟩
    · obtain ⟨c, hm, hc⟩ := ihq h
      exact ⟨c, List.mem_append_right _ hm, hc⟩
  | left _ ih => exact ih h.1
  | right _ ih => exact ih h.2
  | _ => exact absurd h id

theorem Begins.sound (h : p.Begins P) (hw : Matches p w) : ∀ c ∈ w.head?, P c := by
  -- where the first of two parts is empty, the second one starts the text
  have parts : ∀ {u v : List Char}, (∀ c ∈ u.head?, P c) → (u = [] → ∀ c ∈ v.head?, P c) →
      ∀ c ∈ (u ++ v).head?, P c := by
    intro u v hu hv
    cases u with
    | nil => exact hv rfl
    | cons d u => exact hu
  induction hw with
  | word s => exact h
  | char hc =>
    intro c hm
    rw [← Option.some.inj hm]
    exact h _ hc
  | seq hu _ ihp ihq =>
    refine parts (ihp h.1) ?_
    rintro rfl
    exact ihq (h.2 ((complete_iff _).mpr hu))
  | left _ ih => exact ih h.1
  | right _ ih => exact ih h.2
  | done => exact fun _ hm => absurd hm nofun
  | more _ _ ihu ihv => exact parts (ihu h) fun _ => ihv h

theorem ends_set [DecidablePred P] {set : List Char} (h : set.all (P ·) = true) :
    (oneOf set).Ends P := by
  simp only [oneOf, Ends, List.contains_iff_mem]
  exact List.all_iff_forall_prop.mp h

/-- what cannot be empty ends a sequence -/
theorem ends_seq {q : Pattern} (hq : q.Ends P) (hc : q.complete = false) : (seq p q).Ends P :=
  ⟨hq, fun h => absurd (hc.symm.trans h) Bool.false_ne_true⟩

theorem ends_opt (h : p.Ends P) : (opt p).Ends P := ⟨fun _ hc => absurd hc (Option.not_mem_none _), h⟩

theorem Ends.sound (h : p.Ends P) (hw : Matches p w) : ∀ c ∈ w.getLast?, P c := by
  -- where the second of two parts is empty, the first one ends the text
  have parts : ∀ {u v : List Char}, (v = [] → ∀ c ∈ u.getLast?, P c) → (∀ c ∈ v.getLast?, P c) →
      ∀ c ∈ (u ++ v).getLast?, P c := by
    intro u v hu hv
    by_cases hn : v = []
    · rw [hn, List.append_nil]
      exact hu hn
    · rw [List.getLast?_append, List.getLast?_eq_some_getLast hn, Option.some_or, ← List.getLast?_eq_some_getLast hn]
      exact hv
  induction hw with
  | word s => exact h
  | char hc =>
    intro c hm
    rw [← Option.some.inj hm]
    exact h _ hc
  | seq _ hv ihp ihq =>
    refine parts ?_ (ihq h.1)
    rintro rfl
    exact ihp (h.2 ((complete_iff _).mpr hv))
  | left _ ih => exact ih h.1
  | right _ ih => exact ih h.2
  | done => exact fun _ hm => absurd hm nofun
  | more _ _ ihu ihv => exact parts (fun _ => ihu h) (ihv h)

end Pattern

end CppMend
