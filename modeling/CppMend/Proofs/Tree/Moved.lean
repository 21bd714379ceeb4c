import CppMend.Proofs.Tree.Leaves
import Mathlib.Data.List.TakeWhile

/-!
# Trees at another place

Where some tokens come later in a text, with others behind them, outlines that group no more than these
tokens give the same trees there, at the later place.

* `Tree.moved`                 a tree whose text starts so many bytes later;
* `Outline.placeAll_moved`     outlines that are placed further on in a text;
* `Outline.placeAll_tokens`     tokens that are not grouped.
-/

namespace CppMend

def Leaf.moved (k : Nat) (l : Leaf) : Leaf := { l with start := l.start + k }

def Span.moved (k : Nat) (s : Span) : Span := { s with start := s.start + k }

namespace Tree

mutual

/-- the tree, `k` bytes later -/
def moved (k : Nat) : Tree → Tree
  | .leaf l => .leaf (l.moved k)
  | .node kind span children => .node kind (span.moved k) (movedAll k children)

def movedAll (k : Nat) : List Tree → List Tree
  | [] => []
  | t :: ts => t.moved k :: movedAll k ts

end

theorem movedAll_eq (k : Nat) (ts : List Tree) : movedAll k ts = ts.map (moved k) := by
  induction ts with
  | nil => rfl
  | cons t ts ih => rw [movedAll, ih, List.map_cons]

theorem movedAll_append (k : Nat) (ts us : List Tree) :
    movedAll k (ts ++ us) = movedAll k ts ++ movedAll k us := by
  simp only [movedAll_eq, List.map_append]

end Tree

theorem Span.between_moved (start stop k : Nat) :
    Span.between (start + k) (stop + k) = (Span.between start stop).moved k := by
  rw [Span.between, Span.between, Span.moved, Nat.add_sub_add_right]

/-! ## placing -/

namespace Feed

/-- the feed with more tokens behind its own, `k` bytes later -/
def further (k : Nat) (us : List Token) (f : Feed) : Feed := ⟨f.tokens ++ us, f.offset + k⟩

/-- The first of some tokens is no blank or comment. -/
def Starts (us : List Token) : Prop := ∃ u vs, us = u :: vs ∧ u.isTrivia = false

theorem leaves_append (offset : Nat) (ts us : List Token) :
    leaves offset (ts ++ us) = leaves offset ts ++ leaves (offset + width ts) us := by
  induction ts generalizing offset with
  | nil => rfl
  | cons t ts ih => rw [List.cons_append, leaves, ih, leaves, List.cons_append, width_cons, Nat.add_assoc]

theorem leaves_moved (offset k : Nat) (ts : List Token) :
    leaves (offset + k) ts = Tree.movedAll k (leaves offset ts) := by
  induction ts generalizing offset with
  | nil => rfl
  | cons t ts ih =>
    rw [leaves, leaves, Tree.movedAll, ← ih]
    have hoffset : offset + k + t.text.byteSize = offset + t.text.byteSize + k := by omega
    rw [hoffset]
    rfl

variable {us : List Token}

theorem takeWhile_further (hus : Starts us) (ts : List Token) :
    (ts ++ us).takeWhile (·.isTrivia) = ts.takeWhile (·.isTrivia)
      ∧ (ts ++ us).dropWhile (·.isTrivia) = ts.dropWhile (·.isTrivia) ++ us := by
  obtain ⟨u, vs, rfl, hu⟩ := hus
  induction ts with
  | nil => simp [hu]
  | cons t ts ih =>
    rw [List.cons_append, List.takeWhile_cons, List.takeWhile_cons, List.dropWhile_cons,
      List.dropWhile_cons]
    split
    · exact ⟨congrArg _ ih.1, ih.2⟩
    · exact ⟨rfl, rfl⟩

theorem takeBlanks_further (hus : Starts us) (k : Nat) (f : Feed) :
    (f.further k us).takeBlanks = (Tree.movedAll k f.takeBlanks.1, f.takeBlanks.2.further k us) := by
  obtain ⟨htake, hdrop⟩ := takeWhile_further hus f.tokens
  have hoffset (n : Nat) : f.offset + k + n = f.offset + n + k := by omega
  rw [takeBlanks, further]
  simp only [htake, hdrop, leaves_moved, hoffset]
  rfl

theorem takeOne_further (k : Nat) (us : List Token) {f : Feed} (h : f.tokens ≠ []) :
    (f.further k us).takeOne = (Tree.movedAll k f.takeOne.1, f.takeOne.2.further k us) := by
  obtain ⟨t, ts, ht⟩ := List.exists_cons_of_ne_nil h
  have hoffset (n : Nat) : f.offset + k + n = f.offset + n + k := by omega
  rw [takeOne, takeOne, further, ht]
  simp only [List.cons_append, List.take_succ_cons, List.take_zero, leaves_moved, hoffset]
  rfl

theorem takeBlanks_significant {t : Token} (ht : t.isTrivia = false) (ts : List Token) (offset : Nat) :
    takeBlanks ⟨t :: ts, offset⟩ = ([], ⟨t :: ts, offset⟩) := by
  rw [takeBlanks]
  simp only [List.takeWhile_cons, List.dropWhile_cons, ht]
  rfl

/-- how many significant tokens are left -/
theorem Gives.significant {f : Feed} {n : Nat} {given : List Tree × Feed} (h : f.Gives n given) :
    Token.significant given.2.tokens = Token.significant f.tokens - n := by
  obtain ⟨taken, ht, -, -, hn⟩ := h
  have hs := congrArg Token.significant ht
  rw [Token.significant_append] at hs
  omega

end Feed

namespace Outline

open Feed

mutual

/-- By induction on the outline: each part of it finds the tokens that it groups before those behind. -/
theorem place_moved (k : Nat) {us : List Token} (hus : Starts us) : ∀ (o : Outline) (f : Feed),
    o.size ≤ Token.significant f.tokens →
    o.place (f.further k us) = (Tree.movedAll k (o.place f).1, (o.place f).2.further k us)
  | .token, f, h => by
    have hne : f.takeBlanks.2.tokens ≠ [] := by
      intro hn
      have hleft := (takeBlanks_gives f).significant
      rw [hn] at hleft
      change 1 ≤ Token.significant f.tokens at h
      change 0 = Token.significant f.tokens - 0 at hleft
      omega
    rw [place_token, place_token, takeBlanks_further hus, takeOne_further k us hne,
      Tree.movedAll_append]
  | .blank, f, _ => takeBlanks_further hus k f
  | .node kind parts, f, h => by
    have hleft := (takeBlanks_gives f).significant
    have hparts := placeAll_moved k hus parts f.takeBlanks.2 (by rw [hleft]; exact h)
    rw [place_node, place_node, takeBlanks_further hus, hparts, Tree.movedAll_append]
    exact congrArg (fun span => (_ ++ [Tree.node kind span _], _)) (Span.between_moved _ _ k)

/-- Outlines that are placed further on in a text. -/
theorem placeAll_moved (k : Nat) {us : List Token} (hus : Starts us) : ∀ (os : List Outline) (f : Feed),
    sizes os ≤ Token.significant f.tokens →
    placeAll os (f.further k us) = (Tree.movedAll k (placeAll os f).1, (placeAll os f).2.further k us)
  | [], f, _ => rfl
  | o :: os, f, h => by
    rw [sizes_cons] at h
    have hleft := (place_gives o f).significant
    rw [placeAll_cons, placeAll_cons, place_moved k hus o f (by omega),
      placeAll_moved k hus os (o.place f).2 (by omega), Tree.movedAll_append]

end

/-! ## tokens that are not grouped -/

/-- A blank or comment goes before whatever is placed. -/
theorem place_trivia (o : Outline) {b : Token} (hb : b.isTrivia = true) (ts : List Token)
    (offset : Nat) : o.place ⟨b :: ts, offset⟩
      = (.leaf ⟨b.kind, b.text, offset⟩ :: (o.place ⟨ts, offset + b.text.byteSize⟩).1,
        (o.place ⟨ts, offset + b.text.byteSize⟩).2) := by
  have hblanks : takeBlanks ⟨b :: ts, offset⟩
      = (.leaf ⟨b.kind, b.text, offset⟩ :: (takeBlanks ⟨ts, offset + b.text.byteSize⟩).1,
        (takeBlanks ⟨ts, offset + b.text.byteSize⟩).2) := by
    rw [takeBlanks, takeBlanks]
    simp only [List.takeWhile_cons, List.dropWhile_cons, hb, if_true, leaves, width_cons,
      Nat.add_assoc]
  cases o with
  | token => rw [place_token, place_token, hblanks, List.cons_append]
  | blank => exact hblanks
  | node kind parts => rw [place_node, place_node, hblanks, List.cons_append]

/-- A significant token is placed by itself. -/
theorem place_significant {t : Token} (ht : t.isTrivia = false) (ts : List Token) (offset : Nat) :
    place .token ⟨t :: ts, offset⟩
      = ([.leaf ⟨t.kind, t.text, offset⟩], ⟨ts, offset + t.text.byteSize⟩) := by
  have hwidth : width [t] = t.text.byteSize := by rw [width_cons]; rfl
  rw [place_token, takeBlanks_significant ht, takeOne]
  simp only [List.take_succ_cons, List.take_zero, hwidth]
  rfl

/-- Tokens that are not grouped, up to a significant one, are placed just as they come. -/
theorem placeAll_tokens {ts : List Token} (h : ∀ t ∈ ts.getLast?, t.isTrivia = false)
    (us : List Token) (offset : Nat) :
    placeAll (List.replicate (Token.significant ts) .token) ⟨ts ++ us, offset⟩
      = (leaves offset ts, ⟨us, offset + width ts⟩) := by
  induction ts generalizing offset with
  | nil => rfl
  | cons t ts ih =>
    have hlater : ∀ u ∈ ts.getLast?, u.isTrivia = false := by
      intro u hu
      refine h u ?_
      rw [List.getLast?_cons, Option.mem_def.mp hu]
      rfl
    have hrest := ih hlater (offset + t.text.byteSize)
    rw [leaves, width_cons, ← Nat.add_assoc, List.cons_append]
    cases ht : t.isTrivia with
    | false =>
      have hn : Token.significant (t :: ts) = Token.significant ts + 1 := by
        simp [Token.significant, ht]
      rw [hn, List.replicate_succ, placeAll_cons, place_significant ht, hrest]
      rfl
    | true =>
      have hn : Token.significant (t :: ts) = Token.significant ts := by
        simp [Token.significant, ht]
      -- a significant token comes later, and the blank goes before it
      have hpos : Token.significant ts ≠ 0 := by
        have hne : t :: ts ≠ [] := List.cons_ne_nil t ts
        have hlast := h _ (List.getLast?_eq_some_getLast hne)
        rcases List.mem_cons.mp (List.getLast_mem hne) with heq | hmem
        · rw [heq, ht] at hlast
          cases hlast
        · refine Nat.ne_of_gt (List.countP_pos_iff.mpr ⟨_, hmem, ?_⟩)
          rw [hlast]
          rfl
      obtain ⟨n, hsucc⟩ := Nat.exists_eq_succ_of_ne_zero hpos
      rw [hsucc, List.replicate_succ, placeAll_cons] at hrest
      rw [hn, hsucc, List.replicate_succ, placeAll_cons, place_trivia .token ht]
      injection hrest with htrees hfeed
      rw [List.cons_append, htrees, hfeed]

end Outline

end CppMend
