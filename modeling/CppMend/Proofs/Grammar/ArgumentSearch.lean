import CppMend.Grammar.Lookahead

/-!
# Searching for the end of an argument list

Lookahead decides where the template argument list that a `<` starts comes to its end. Here it is taken
turn by turn, with a count of open lists that nothing keeps from going below zero.

* `ArgumentSearch.turn`        looks at one token, and goes on or decides;
* `ArgumentSearch.Reaches`     the states that a search comes through;
* `ArgumentSearch.Ends`        a search comes to its end;
* `ArgumentSearch.depth_nonneg_of_reaches`   from a `<` on, the count does not go below zero;
* `ArgumentSearch.exists_ends` the search ends, with what lookahead finds.
-/

namespace CppMend

namespace Lookahead

variable {s t : List Cue} {c : Cue} {n : Nat}

theorem kindAt?_of_drop (h : s.drop n = c :: t) : kindAt? n s = some c.kind := by
  rw [kindAt?, ← List.head?_drop, h]
  rfl

theorem next_of_kindAt? {k : TokenKind} (h : kindAt? 0 s = some k) : next k s = true := by
  cases s with
  | nil => cases h
  | cons c s => exact decide_eq_true (Option.some.inj h)

end Lookahead

open Lookahead

/-- The number of the token that a search looks at, and how many lists it counts as open there. -/
structure ArgumentSearch where
  number : Nat
  depth : Int

namespace ArgumentSearch

/-- looks at a token, and either goes on or decides with which token the list ends, if with any -/
def turn (s : List Cue) (x : ArgumentSearch) : ArgumentSearch ⊕ Option Nat :=
  match kindAt? x.number s with
  | none => .inr none
  | some .less => .inl ⟨x.number + 1, x.depth + 1⟩
  | some .greater =>
    if x.depth - 1 = 0 then .inr (some x.number) else .inl ⟨x.number + 1, x.depth - 1⟩
  | some .rightShift =>
    if x.depth ≤ 2 then .inr (if x.depth = 2 then some x.number else none)
    else .inl ⟨x.number + 1, x.depth - 2⟩
  | some k => if breaksArguments k then .inr none else .inl ⟨x.number + 1, x.depth⟩

/-- A search comes from one state to another in some turns. -/
inductive Reaches (s : List Cue) : ArgumentSearch → ArgumentSearch → Prop
  | here (x : ArgumentSearch) : Reaches s x x
  | later {x y z : ArgumentSearch} (ht : turn s x = .inl y) (hr : Reaches s y z) : Reaches s x z

/-- After some turns, the search decides with which token the list ends, if with any. -/
inductive Ends (s : List Cue) : ArgumentSearch → Option Nat → Prop
  | now {x : ArgumentSearch} {last? : Option Nat} (ht : turn s x = .inr last?) : Ends s x last?
  | later {x y : ArgumentSearch} {last? : Option Nat} (ht : turn s x = .inl y)
      (he : Ends s y last?) : Ends s x last?

variable {s t : List Cue} {c : Cue} {n depth : Nat} {x y : ArgumentSearch}

/-! ## one turn -/

theorem drop_succ_of_drop (h : s.drop n = c :: t) : s.drop (n + 1) = t := by
  rw [← List.tail_drop, h, List.tail_cons]

theorem turn_of_drop_nil (h : s.drop n = []) (d : Int) : turn s ⟨n, d⟩ = .inr none := by
  have hk : kindAt? n s = none := by
    rw [kindAt?, ← List.head?_drop, h]
    rfl
  rw [turn, hk]

theorem turn_less (h : kindAt? n s = some .less) (d : Int) :
    turn s ⟨n, d⟩ = .inl ⟨n + 1, d + 1⟩ := by
  rw [turn, h]

/-- While a list is open, a turn does what lookahead does with the token. The search goes on with a list
still open, or the token ends the list that was opened first, or breaks the search off. -/
theorem turn_cases (hd : 0 < depth) (h : s.drop n = c :: t) :
    (∃ d : Nat, 0 < d ∧ turn s ⟨n, depth⟩ = .inl ⟨n + 1, d⟩
        ∧ argumentsEnd? depth (c :: t) = (argumentsEnd? d t).map (· + 1))
      ∨ (turn s ⟨n, depth⟩ = .inr (some n) ∧ argumentsEnd? depth (c :: t) = some 1)
      ∨ (turn s ⟨n, depth⟩ = .inr none ∧ argumentsEnd? depth (c :: t) = none) := by
  rw [turn, kindAt?_of_drop h, argumentsEnd?]
  dsimp only
  by_cases hl : c.kind = .less
  · rw [hl]
    exact .inl ⟨depth + 1, Nat.succ_pos depth, rfl, rfl⟩
  rw [if_neg hl]
  by_cases hg : c.kind = .greater
  · rw [hg, if_pos rfl]
    by_cases hz : depth = 1
    · exact .inr (.inl ⟨if_pos (by omega), if_pos hz⟩)
    · have hs : ((depth : Int) - 1) = (depth - 1 : Nat) := by omega
      refine .inl ⟨depth - 1, by omega, ?_, if_neg hz⟩
      rw [← hs]
      exact if_neg (by omega)
  rw [if_neg hg]
  by_cases hr : c.kind = .rightShift
  · rw [hr, if_pos rfl]
    by_cases hle : depth ≤ 2
    · by_cases hz : depth = 2
      · refine .inr (.inl ⟨?_, by rw [if_pos hle, if_pos hz]⟩)
        exact (if_pos (by omega)).trans (by rw [if_pos (by omega)])
      · refine .inr (.inr ⟨?_, by rw [if_pos hle, if_neg hz]⟩)
        exact (if_pos (by omega)).trans (by rw [if_neg (by omega)])
    · have hs : ((depth : Int) - 2) = (depth - 2 : Nat) := by omega
      refine .inl ⟨depth - 2, by omega, ?_, if_neg hle⟩
      rw [← hs]
      exact if_neg (by omega)
  rw [if_neg hr]
  by_cases hb : breaksArguments c.kind = true
  · refine .inr (.inr ⟨?_, if_pos hb⟩)
    split <;> simp_all
  · refine .inl ⟨depth, hd, ?_, if_neg hb⟩
    split <;> simp_all

/-! ## whole searches -/

/-- A search with an open list comes through no state without one. -/
theorem depth_pos_of_reaches (h : Reaches s x y) (hx : 0 < x.depth) : 0 < y.depth := by
  induction h with
  | here => exact hx
  | @later x y z ht _ ih =>
    refine ih ?_
    obtain ⟨n, d⟩ := x
    obtain ⟨depth, rfl⟩ : ∃ depth : Nat, d = depth := ⟨d.toNat, by have : 0 < d := hx; omega⟩
    cases hs : s.drop n with
    | nil => exact absurd ((turn_of_drop_nil hs _).symm.trans ht) (by simp)
    | cons c t =>
      have hd : 0 < depth := by have : 0 < (depth : Int) := hx; omega
      rcases turn_cases hd hs with ⟨d, hd, hturn, -⟩ | ⟨hturn, -⟩ | ⟨hturn, -⟩ <;> rw [hturn] at ht <;> cases ht
      show (0 : Int) < d
      omega

/-- A search from a `<` on does not count below zero. -/
theorem depth_nonneg_of_reaches (hk : kindAt? n s = some .less) (h : Reaches s ⟨n, 0⟩ x) : 0 ≤ x.depth := by
  cases h with
  | here => exact Int.le_refl 0
  | later ht hr =>
    rw [turn_less hk] at ht
    cases ht
    exact Int.le_of_lt (depth_pos_of_reaches hr Int.one_pos)

/-- A search with an open list ends, with what lookahead finds. -/
theorem exists_ends_of_pos (hd : 0 < depth) : ∃ last?, Ends s ⟨n, depth⟩ last?
    ∧ argumentsEnd? depth (s.drop n) = last?.map (· + 1 - n) ∧ ∀ last ∈ last?, n ≤ last ∧ last < s.length := by
  induction ht : s.drop n generalizing n depth with
  | nil => exact ⟨none, .now (turn_of_drop_nil ht _), rfl, nofun⟩
  | cons c t ih =>
    have hlt : n < s.length := Nat.lt_of_not_le fun hle =>
      List.cons_ne_nil c t (ht.symm.trans (List.drop_eq_nil_of_le hle))
    rcases turn_cases hd ht with ⟨d, hd, hturn, hend⟩ | ⟨hturn, hend⟩ | ⟨hturn, hend⟩
    · obtain ⟨last?, hlater, hfound, hbounds⟩ := ih hd (drop_succ_of_drop ht)
      refine ⟨last?, .later hturn hlater, ?_, fun last hl => ?_⟩
      · rw [hend, hfound, Option.map_map]
        refine Option.map_congr fun last hl => ?_
        have := hbounds last hl
        show last + 1 - (n + 1) + 1 = last + 1 - n
        omega
      · have := hbounds last hl
        omega
    · refine ⟨some n, .now hturn, ?_, fun last hl => ?_⟩
      · rw [hend, Option.map_some, Nat.add_sub_cancel_left]
      · cases hl
        exact ⟨Nat.le_refl n, hlt⟩
    · exact ⟨none, .now hturn, hend, nofun⟩

/-- A search from a `<` on ends, with what lookahead finds. -/
theorem exists_ends (hk : kindAt? n s = some .less) : ∃ last?, Ends s ⟨n, 0⟩ last?
    ∧ argumentList? (s.drop n) = last?.map (· + 1 - n) ∧ ∀ last ∈ last?, n < last ∧ last < s.length := by
  obtain ⟨c, t, hs⟩ : ∃ c t, s.drop n = c :: t := by
    refine List.exists_cons_of_ne_nil fun hs => ?_
    rw [kindAt?, ← List.head?_drop, hs] at hk
    cases hk
  have hc : c.kind = .less := by
    rw [kindAt?_of_drop hs] at hk
    exact Option.some.inj hk
  obtain ⟨last?, hlater, hfound, hbounds⟩ := exists_ends_of_pos (s := s) (n := n + 1) Nat.one_pos
  refine ⟨last?, .later (turn_less hk 0) hlater, ?_, hbounds⟩
  rw [hs, argumentList?, argumentsEnd?, if_pos hc, ← drop_succ_of_drop hs, hfound, Option.map_map]
  refine Option.map_congr fun last hl => ?_
  have := hbounds last hl
  show last + 1 - (n + 1) + 1 = last + 1 - n
  omega

end ArgumentSearch

end CppMend
