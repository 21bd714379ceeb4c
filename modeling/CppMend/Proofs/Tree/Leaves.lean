import CppMend.Parsed
import CppMend.Proofs.Grammar.Extent
import CppMend.Proofs.Text.Boundaries

/-!
# The leaves of placed outlines

Placing outlines takes tokens from the front of a feed and turns them into leaves in order,
whatever the outlines are. How many tokens go depends only on how many the outlines group.

* `Leaf.row`              some tokens as leaves, one right after the other;
* `Feed.Gives`            what a feed gives: trees with the row of some tokens, and the other tokens;
* `Outline.place_gives`   placing an outline takes as many significant tokens as it groups, or all;
* `leaves_rootOf`         the tree of some tokens has just these tokens as its leaves.
-/

namespace CppMend

/-- some tokens one after the other, from an offset on -/
def Leaf.row (offset : Nat) : List Token → List Leaf
  | [] => []
  | t :: ts => ⟨t.kind, t.text, offset⟩ :: row (offset + t.text.byteSize) ts

/-- how many tokens are no blanks or comments -/
def Token.significant (ts : List Token) : Nat := ts.countP (!·.isTrivia)

/-! ## rows of tokens -/

namespace Feed

theorem width_cons (t : Token) (ts : List Token) : width (t :: ts) = t.text.byteSize + width ts := by
  rw [width, List.flatMap_cons, Text.byteSize_append]
  rfl

theorem width_append (ts us : List Token) : width (ts ++ us) = width ts + width us := by
  rw [width, List.flatMap_append, Text.byteSize_append]
  rfl

end Feed

namespace Leaf

theorem row_append (offset : Nat) (ts us : List Token) :
    row offset (ts ++ us) = row offset ts ++ row (offset + Feed.width ts) us := by
  induction ts generalizing offset with
  | nil => rfl
  | cons t ts ih =>
    rw [List.cons_append, row, ih, row, List.cons_append, Feed.width_cons, Nat.add_assoc]

/-- the leaves of a row are the tokens, kind by kind and text by text -/
theorem map_token_row (offset : Nat) (ts : List Token) : (row offset ts).map token = ts := by
  induction ts generalizing offset with
  | nil => rfl
  | cons t ts ih =>
    rw [row, List.map_cons, ih]
    rfl

theorem flatMap_text_row (offset : Nat) (ts : List Token) :
    (row offset ts).flatMap (·.text) = ts.flatMap (·.text) := by
  induction ts generalizing offset with
  | nil => rfl
  | cons t ts ih =>
    rw [row, List.flatMap_cons, List.flatMap_cons, ih]

theorem start_of_mem_row {offset : Nat} {ts : List Token} {l : Leaf} (h : l ∈ row offset ts) :
    offset ≤ l.start := by
  induction ts generalizing offset with
  | nil => cases h
  | cons t ts ih =>
    rcases List.mem_cons.mp h with rfl | h
    · exact Nat.le_refl _
    · exact Nat.le_trans (Nat.le_add_right _ _) (ih h)

theorem stop_of_mem_row {offset : Nat} {ts : List Token} {l : Leaf} (h : l ∈ row offset ts) :
    l.span.stop ≤ offset + Feed.width ts := by
  induction ts generalizing offset with
  | nil => cases h
  | cons t ts ih =>
    rw [Feed.width_cons, ← Nat.add_assoc]
    rcases List.mem_cons.mp h with rfl | h
    · exact Nat.le_add_right _ _
    · exact ih h

end Leaf

theorem Tree.leavesOf_append (ts us : List Tree) :
    leavesOf (ts ++ us) = leavesOf ts ++ leavesOf us := by
  induction ts with
  | nil => rfl
  | cons t ts ih => rw [List.cons_append, leavesOf, leavesOf, ih, List.append_assoc]

theorem Feed.leavesOf_leaves (offset : Nat) (ts : List Token) :
    Tree.leavesOf (Feed.leaves offset ts) = Leaf.row offset ts := by
  induction ts generalizing offset with
  | nil => rfl
  | cons t ts ih =>
    rw [Feed.leaves, Tree.leavesOf, ih, Leaf.row]
    rfl

namespace Token

theorem significant_append (ts us : List Token) :
    significant (ts ++ us) = significant ts + significant us :=
  List.countP_append

/-- a row of blanks and comments has no significant token -/
theorem significant_eq_zero {ts : List Token} (h : ∀ t ∈ ts, t.isTrivia = true) :
    significant ts = 0 := by
  rw [significant, List.countP_eq_zero]
  intro t ht
  rw [h t ht]
  decide

theorem isTrivia_of_mem_takeWhile {ts : List Token} {t : Token}
    (h : t ∈ ts.takeWhile (·.isTrivia)) : t.isTrivia = true := by
  induction ts with
  | nil => cases h
  | cons u ts ih =>
    rw [List.takeWhile_cons] at h
    split at h
    · next hu =>
      rcases List.mem_cons.mp h with rfl | h
      · exact hu
      · exact ih h
    · cases h

/-- where no significant token is left, everything is a blank or a comment -/
theorem dropWhile_eq_nil {ts : List Token} (h : significant ts = 0) :
    ts.dropWhile (·.isTrivia) = [] := by
  induction ts with
  | nil => rfl
  | cons t ts ih =>
    rw [significant, List.countP_cons] at h
    cases ht : t.isTrivia with
    | true =>
      rw [List.dropWhile_cons, if_pos ht]
      exact ih (by rw [significant]; omega)
    | false =>
      rw [ht] at h
      simp at h

/-- what follows the blanks and comments starts with a significant token -/
theorem isTrivia_of_dropWhile {ts us : List Token} {t : Token}
    (h : ts.dropWhile (·.isTrivia) = t :: us) : t.isTrivia = false := by
  induction ts with
  | nil => cases h
  | cons u ts ih =>
    rw [List.dropWhile_cons] at h
    split at h
    · exact ih h
    · next hu =>
      rw [List.cons.injEq] at h
      rw [← h.1]
      exact Bool.eq_false_iff.mpr hu

end Token

/-! ## what a feed gives -/

/-- The feed gives trees with the row of some tokens, and the tokens after them. As many of them
are significant as are asked for, or as there are. -/
def Feed.Gives (f : Feed) (n : Nat) (given : List Tree × Feed) : Prop :=
  ∃ taken, f.tokens = taken ++ given.2.tokens ∧ given.2.offset = f.offset + Feed.width taken
    ∧ Tree.leavesOf given.1 = Leaf.row f.offset taken
    ∧ Token.significant taken = min n (Token.significant f.tokens)

namespace Feed

theorem gives_nil (f : Feed) : f.Gives 0 ([], f) :=
  ⟨[], rfl, rfl, rfl, (Nat.zero_min _).symm⟩

/-- what is given in two parts -/
theorem Gives.append {f : Feed} {n m : Nat} {a b : List Tree × Feed} (ha : f.Gives n a)
    (hb : a.2.Gives m b) : f.Gives (n + m) (a.1 ++ b.1, b.2) := by
  obtain ⟨ts, ht, ho, hl, hn⟩ := ha
  obtain ⟨us, hu, ho', hl', hn'⟩ := hb
  refine ⟨ts ++ us, ?_, ?_, ?_, ?_⟩
  · show f.tokens = ts ++ us ++ b.2.tokens
    rw [ht, hu, List.append_assoc]
  · show b.2.offset = f.offset + width (ts ++ us)
    rw [ho', ho, width_append, Nat.add_assoc]
  · show Tree.leavesOf (a.1 ++ b.1) = Leaf.row f.offset (ts ++ us)
    rw [Tree.leavesOf_append, hl, hl', Leaf.row_append, ho]
  · have hs := congrArg Token.significant ht
    rw [Token.significant_append] at hs
    rw [Token.significant_append, hn']
    omega

theorem takeBlanks_gives (f : Feed) : f.Gives 0 f.takeBlanks := by
  refine ⟨f.tokens.takeWhile (·.isTrivia), ?_, rfl, ?_, ?_⟩
  · exact List.takeWhile_append_dropWhile.symm
  · exact leavesOf_leaves f.offset _
  · rw [Nat.zero_min]
    exact Token.significant_eq_zero fun t ht => Token.isTrivia_of_mem_takeWhile ht

theorem takeOne_gives (f : Feed) (hf : ∀ t ts, f.tokens = t :: ts → t.isTrivia = false) :
    f.Gives 1 f.takeOne := by
  refine ⟨f.tokens.take 1, (List.take_append_drop 1 f.tokens).symm, rfl,
    leavesOf_leaves f.offset _, ?_⟩
  cases ht : f.tokens with
  | nil => rfl
  | cons t ts =>
    have h := hf t ts ht
    have hp : (decide ((!t.isTrivia) = true)) = true := by rw [h]; rfl
    rw [List.take_succ_cons, List.take_zero]
    simp only [Token.significant, List.countP_cons, List.countP_nil, h]
    simp

end Feed

/-! ## placing -/

namespace Outline

theorem place_token (f : Feed) : place .token f
    = (f.takeBlanks.1 ++ f.takeBlanks.2.takeOne.1, f.takeBlanks.2.takeOne.2) := rfl

theorem place_blank (f : Feed) : place .blank f = f.takeBlanks := rfl

theorem place_node (kind : NodeKind) (parts : List Outline) (f : Feed) : place (.node kind parts) f
    = (f.takeBlanks.1 ++ [.node kind (Span.between f.takeBlanks.2.offset
        (placeAll parts f.takeBlanks.2).2.offset) (placeAll parts f.takeBlanks.2).1],
      (placeAll parts f.takeBlanks.2).2) := rfl

theorem placeAll_nil (f : Feed) : placeAll [] f = ([], f) := rfl

theorem placeAll_cons (o : Outline) (os : List Outline) (f : Feed) : placeAll (o :: os) f
    = ((o.place f).1 ++ (placeAll os (o.place f).2).1, (placeAll os (o.place f).2).2) := rfl

theorem placeAll_singleton (o : Outline) (f : Feed) : placeAll [o] f = o.place f := by
  rw [placeAll_cons, placeAll_nil, List.append_nil]

theorem token_gives (f : Feed) : f.Gives 1 (Outline.token.place f) := by
  have ho : f.takeBlanks.2.Gives 1 f.takeBlanks.2.takeOne :=
    Feed.takeOne_gives _ fun t ts ht => Token.isTrivia_of_dropWhile ht
  have h := (Feed.takeBlanks_gives f).append ho
  rw [Nat.zero_add] at h
  rw [place_token]
  exact h

mutual

theorem place_gives : ∀ (o : Outline) (f : Feed), f.Gives o.size (o.place f)
  | .token, f => token_gives f
  | .blank, f => by
    rw [place_blank]
    exact Feed.takeBlanks_gives f
  | .node kind parts, f => by
    have hp := placeAll_gives parts f.takeBlanks.2
    obtain ⟨taken, ht, ho, hl, hn⟩ := (Feed.takeBlanks_gives f).append hp
    rw [Nat.zero_add] at hn
    rw [place_node]
    refine ⟨taken, ht, ho, ?_, hn⟩
    rw [← hl, Tree.leavesOf_append, Tree.leavesOf_append]
    show _ ++ (Tree.leavesOf _ ++ []) = _
    rw [List.append_nil]

theorem placeAll_gives : ∀ (os : List Outline) (f : Feed), f.Gives (sizes os) (placeAll os f)
  | [], f => by
    rw [placeAll_nil]
    exact Feed.gives_nil f
  | o :: os, f => by
    rw [placeAll_cons]
    exact (place_gives o f).append (placeAll_gives os (o.place f).2)

end

theorem placeAll_append (os ps : List Outline) (f : Feed) :
    placeAll (os ++ ps) f
      = ((placeAll os f).1 ++ (placeAll ps (placeAll os f).2).1, (placeAll ps (placeAll os f).2).2)
      := by
  induction os generalizing f with
  | nil => rfl
  | cons o os ih =>
    rw [List.cons_append, placeAll_cons, placeAll_cons, ih, List.append_assoc]

end Outline

/-! ## whole texts -/

theorem cuesFrom_length (fresh : Bool) (ts : List Token) :
    (cuesFrom fresh ts).length = Token.significant ts := by
  induction ts generalizing fresh with
  | nil => rfl
  | cons t ts ih =>
    rw [cuesFrom]
    cases h : t.isTrivia with
    | true => simp [Token.significant, h, ih]
    | false => simp [Token.significant, h, ih]

/-- Outlines of all tokens, and the blanks after them, leave nothing. -/
theorem Outline.placeAll_ends (os : List Outline) (f : Feed)
    (h : Outline.sizes os = Token.significant f.tokens) :
    (placeAll (os ++ [.blank]) f).2.tokens = [] := by
  obtain ⟨taken, ht, _, _, hn⟩ := placeAll_gives os f
  have hz : Token.significant (placeAll os f).2.tokens = 0 := by
    have hs := congrArg Token.significant ht
    rw [Token.significant_append] at hs
    omega
  rw [placeAll_append]
  exact Token.dropWhile_eq_nil hz

/-- the tree of some tokens has just these tokens as its leaves, in order -/
theorem leaves_rootOf (ts : List Token) : (rootOf ts).leaves = Leaf.row 0 ts := by
  obtain ⟨os, ho, hs⟩ := outline_eq (cues ts)
  have hn : Outline.sizes os = Token.significant ts := by
    rw [hs, cues, cuesFrom_length]
  have he := Outline.placeAll_ends os ⟨ts, 0⟩ hn
  obtain ⟨taken, ht, _, hl, _⟩ := Outline.placeAll_gives (os ++ [.blank]) ⟨ts, 0⟩
  rw [he, List.append_nil] at ht
  show Tree.leavesOf (Outline.placeAll (outline (cues ts)) ⟨ts, 0⟩).1 = Leaf.row 0 ts
  rw [ho, hl, ← ht]

end CppMend
