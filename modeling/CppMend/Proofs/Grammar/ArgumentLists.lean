import CppMend.Proofs.Grammar.Laws
import Mathlib.Data.List.Infix

/-!
# Template argument lists

A `<` after a name may start a list of template arguments. The grammar looks ahead for the `>` that
closes it, with a count of the lists that are open, and then takes a group with a count of its own. The
two counts agree. Round and square brackets are not counted.

* `openLists`                   how many lists are open after some tokens;
* `IsArgumentList`              tokens from a `<` to the one that closes it;
* `argumentList?_isArgumentList`   what lookahead finds is such a list;
* `span_of_argumentList?`       and it is the group that is taken;
* `Uncrossed`                   no round or square bracket closes before it opens;
* `uncrossed_flatten_iff`       in a row of words and argument lists, only the lists matter for that.
-/

namespace CppMend

/-! ## open lists -/

namespace TokenKind

/-- the lists that a token opens, less those that it closes -/
def angles : TokenKind → Int
  | .less => 1
  | .greater => -1
  | .rightShift => -2
  | _ => 0

/-- brackets of any sort, and the tokens that are two of them -/
def isBracket : TokenKind → Bool
  | .lParen | .rParen | .lBracket | .rBracket | .lBrace | .rBrace | .less | .greater | .rightShift =>
    true
  | _ => false

end TokenKind

/-- how many lists are open after some tokens -/
def openLists : List TokenKind → Int
  | [] => 0
  | k :: ks => k.angles + openLists ks

@[simp] theorem openLists_nil : openLists [] = 0 := rfl

@[simp] theorem openLists_cons (k : TokenKind) (ks : List TokenKind) :
    openLists (k :: ks) = k.angles + openLists ks := rfl

open Lookahead

/-- The last of some tokens closes the last of `depth` open lists, and no token breaks off the search
for it. -/
structure Closes (depth : Int) (ks : List TokenKind) : Prop where
  closed : depth + openLists ks = 0
  open_before : ∀ front, front <+: ks → front ≠ ks → 0 < depth + openLists front
  unbroken : ∀ k ∈ ks, breaksArguments k = false

/-- A `<`, and the tokens up to the one that closes it. -/
def IsArgumentList (ks : List TokenKind) : Prop := ∃ rest, ks = .less :: rest ∧ Closes 1 rest

namespace Closes

variable {depth : Int} {k : TokenKind} {ks : List TokenKind}

theorem last (hd : 0 < depth) (hk : breaksArguments k = false) (h : depth + k.angles = 0) :
    Closes depth [k] where
  closed := by simpa using h
  open_before := by
    intro front hf hne
    rcases List.prefix_cons_iff.mp hf with rfl | ⟨t, rfl, ht⟩
    · simpa using hd
    · rw [List.prefix_nil.mp ht] at hne
      exact absurd rfl hne
  unbroken := by simpa using hk

theorem cons (hd : 0 < depth) (hk : breaksArguments k = false) (h : Closes (depth + k.angles) ks) :
    Closes depth (k :: ks) where
  closed := by simpa [Int.add_assoc] using h.closed
  open_before := by
    intro front hf hne
    rcases List.prefix_cons_iff.mp hf with rfl | ⟨t, rfl, ht⟩
    · simpa using hd
    · have := h.open_before t ht (by simpa using hne)
      rwa [openLists_cons, ← Int.add_assoc]
  unbroken := by simpa using ⟨hk, h.unbroken⟩

end Closes

namespace Lookahead

variable {depth n : Nat} {c : Cue} {s : List Cue}

/-! ## lookahead -/

/-- One step of the search for the end of a list. -/
theorem argumentsEnd?_cons (hd : 0 < depth) (h : argumentsEnd? depth (c :: s) = some n) :
    breaksArguments c.kind = false
      ∧ ((depth : Int) + c.kind.angles = 0 ∧ n = 1
        ∨ ∃ d m : Nat, (depth : Int) + c.kind.angles = d ∧ 0 < d ∧ argumentsEnd? d s = some m
          ∧ n = m + 1) := by
  rw [argumentsEnd?] at h
  split at h
  · next hk =>
    obtain ⟨m, hm, rfl⟩ := Option.map_eq_some_iff.mp h
    exact ⟨by rw [hk]; rfl, .inr ⟨depth + 1, m, by simp [hk, TokenKind.angles], by omega, hm, rfl⟩⟩
  · split at h
    · next hk =>
      refine ⟨by rw [hk]; rfl, ?_⟩
      split at h
      · cases h
        exact .inl ⟨by simp [*, TokenKind.angles], rfl⟩
      · obtain ⟨m, hm, rfl⟩ := Option.map_eq_some_iff.mp h
        exact .inr ⟨depth - 1, m, by simp only [hk, TokenKind.angles]; omega, by omega, hm, rfl⟩
    · split at h
      · next hk =>
        refine ⟨by rw [hk]; rfl, ?_⟩
        split at h
        · split at h <;> cases h
          exact .inl ⟨by simp [*, TokenKind.angles], rfl⟩
        · obtain ⟨m, hm, rfl⟩ := Option.map_eq_some_iff.mp h
          exact .inr ⟨depth - 2, m, by simp only [hk, TokenKind.angles]; omega, by omega, hm, rfl⟩
      · split at h
        · cases h
        · next hl hg hr hb =>
          obtain ⟨m, hm, rfl⟩ := Option.map_eq_some_iff.mp h
          have hz : c.kind.angles = 0 := by
            unfold TokenKind.angles
            split <;> simp_all
          exact ⟨Bool.eq_false_iff.mpr hb, .inr ⟨depth, m, by rw [hz]; simp, hd, hm, rfl⟩⟩

theorem argumentsEnd?_closes (hd : 0 < depth) (h : argumentsEnd? depth s = some n) :
    Closes depth (kindsOf (s.take n)) := by
  induction s generalizing depth n with
  | nil => cases h
  | cons c s ih =>
    obtain ⟨hb, ⟨hz, rfl⟩ | ⟨d, m, hz, hp, hm, rfl⟩⟩ := argumentsEnd?_cons hd h
    · exact .last (by omega) hb hz
    · exact .cons (by omega) hb (hz ▸ ih hp hm)

/-- A group has as many tokens as the search for its end has stepped over. -/
theorem spanFrom_of_argumentsEnd? (hd : 0 < depth) (h : argumentsEnd? depth s = some n) :
    Bracket.angle.spanFrom depth s = n := by
  induction s generalizing depth n with
  | nil => cases h
  | cons c s ih =>
    obtain ⟨hb, hend⟩ := argumentsEnd?_cons hd h
    have hstops : Bracket.angle.stops c.kind = false := by
      revert hb
      cases c.kind <;> decide
    rw [Bracket.spanFrom]
    by_cases hk : c.kind = Bracket.angle.opening
    · rw [if_pos hk]
      rw [hk, show Bracket.angle.opening.angles = 1 from rfl] at hend
      rcases hend with ⟨hz, -⟩ | ⟨d, m, hz, hp, hm, rfl⟩
      · omega
      · obtain rfl : d = depth + 1 := by omega
        rw [ih hp hm]
    · have hcloses : c.kind.angles = -Bracket.angle.closes c.kind := by
        revert hk
        cases c.kind <;> decide
      rw [hcloses] at hend
      rw [if_neg hk, if_neg (by simp [hstops])]
      rcases hend with ⟨hz, rfl⟩ | ⟨d, m, hz, hp, hm, rfl⟩
      · rw [if_pos (by omega)]
      · obtain rfl : d = depth - Bracket.angle.closes c.kind := by omega
        rw [if_neg (by omega), ih hp hm]

/-- What lookahead finds after a `<` are the tokens up to the one that closes it. -/
theorem argumentList?_isArgumentList (hs : next .less s = true) (h : argumentList? s = some n) :
    IsArgumentList (kindsOf (s.take n)) := by
  cases s with
  | nil => cases hs
  | cons c s =>
    have hk : c.kind = .less := of_decide_eq_true hs
    rw [argumentList?, argumentsEnd?, if_pos hk] at h
    obtain ⟨m, hm, rfl⟩ := Option.map_eq_some_iff.mp h
    exact ⟨kindsOf (s.take m), by rw [← hk]; rfl, argumentsEnd?_closes Nat.one_pos hm⟩

/-- It is the group that is taken there. -/
theorem span_of_argumentList? (hs : next .less s = true) (h : argumentList? s = some n) :
    Bracket.angle.span s = n := by
  cases s with
  | nil => cases hs
  | cons c s =>
    have hk : c.kind = Bracket.angle.opening := of_decide_eq_true hs
    rw [argumentList?, argumentsEnd?, if_pos (show c.kind = .less from hk)] at h
    obtain ⟨m, hm, rfl⟩ := Option.map_eq_some_iff.mp h
    rw [Bracket.span, Bracket.spanFrom, if_pos hk]
    exact congrArg (· + 1) (spanFrom_of_argumentsEnd? Nat.one_pos hm)

end Lookahead

/-! ## crossed brackets -/

/-- a token that is no bracket -/
def IsWord (ks : List TokenKind) : Prop := ∃ k : TokenKind, ks = [k] ∧ k.isBracket = false

/-- From left to right, no round or square bracket closes before one like it has opened. -/
def Uncrossed (ks : List TokenKind) : Prop := ∀ front, front <+: ks →
  front.count .rParen ≤ front.count .lParen ∧ front.count .rBracket ≤ front.count .lBracket

/-- Only brackets matter. -/
theorem uncrossed_filter_iff {ks : List TokenKind} :
    Uncrossed (ks.filter TokenKind.isBracket) ↔ Uncrossed ks := by
  have hcount (f : List TokenKind) (k : TokenKind) (hk : k.isBracket = true) :
      (f.filter TokenKind.isBracket).count k = f.count k := List.count_filter hk
  constructor
  · intro h front hf
    have := h _ (hf.filter TokenKind.isBracket)
    rwa [hcount _ _ rfl, hcount _ _ rfl, hcount _ _ rfl, hcount _ _ rfl] at this
  · intro h front hf
    obtain ⟨f, hpre, rfl⟩ := List.prefix_filter_iff.mp hf
    rw [hcount _ _ rfl, hcount _ _ rfl, hcount _ _ rfl, hcount _ _ rfl]
    exact h f hpre

/-- Of words and argument lists, only the lists matter. -/
theorem uncrossed_flatten_iff {pieces : List (List TokenKind)}
    (h : ∀ p ∈ pieces, IsWord p ∨ IsArgumentList p) :
    Uncrossed pieces.flatten ↔ Uncrossed (pieces.filter (·.head? = some .less)).flatten := by
  have heq : pieces.flatten.filter TokenKind.isBracket
      = (pieces.filter (·.head? = some .less)).flatten.filter TokenKind.isBracket := by
    induction pieces with
    | nil => rfl
    | cons p pieces ih =>
      obtain ⟨hp, h⟩ := List.forall_mem_cons.mp h
      rw [List.flatten_cons, List.filter_append, ih h]
      rcases hp with ⟨k, rfl, hk⟩ | ⟨rest, rfl, -⟩
      · have hne : k ≠ .less := by
          rintro rfl
          cases hk
        have hword : [k].filter TokenKind.isBracket = [] := by simp [hk]
        rw [hword, List.nil_append, List.filter_cons_of_neg (by simpa using hne)]
      · have hlist : ((.less :: rest) :: pieces).filter (·.head? = some TokenKind.less)
            = (.less :: rest) :: pieces.filter (·.head? = some .less) := List.filter_cons_of_pos rfl
        rw [hlist, List.flatten_cons, List.filter_append]
  rw [← uncrossed_filter_iff, heq, uncrossed_filter_iff]

end CppMend
