import CppMend.Lexical.Kind

/-!
# Nested braces

Braces are counted from left to right: each `}` closes the `{` that was opened last. What follows
says how the count goes on over tokens whose own braces are nested.

* `braceDepth?`       the number of open braces after some tokens;
* `Nested`            each brace among some tokens has its counterpart there;
* `Nested.depth_eq`   such tokens leave the number of open braces as it is.
-/

namespace CppMend

/-- The number of open braces after some tokens, where `depth` are open before them. There is none
if a `}` has nothing to close. -/
def braceDepth? : Nat → List TokenKind → Option Nat
  | depth, [] => some depth
  | depth, k :: ks =>
    if k = .lBrace then braceDepth? (depth + 1) ks
    else if k = .rBrace then if depth = 0 then none else braceDepth? (depth - 1) ks
    else braceDepth? depth ks

/-- each brace has its counterpart -/
def Nested (ks : List TokenKind) : Prop := braceDepth? 0 ks = some 0

instance (ks : List TokenKind) : Decidable (Nested ks) := inferInstanceAs (Decidable (_ = _))

variable {depth : Nat} {ks : List TokenKind}

theorem braceDepth?_open (depth : Nat) (ks : List TokenKind) :
    braceDepth? depth (.lBrace :: ks) = braceDepth? (depth + 1) ks := by
  rw [braceDepth?, if_pos rfl]

theorem braceDepth?_close (depth : Nat) (ks : List TokenKind) :
    braceDepth? (depth + 1) (.rBrace :: ks) = braceDepth? depth ks := by
  rw [braceDepth?, if_neg (by decide), if_pos rfl, if_neg (Nat.succ_ne_zero depth),
    Nat.add_sub_cancel]

/-- other tokens do not count -/
theorem braceDepth?_skip (depth : Nat) (ks : List TokenKind) {k : TokenKind} (hl : k ≠ .lBrace)
    (hr : k ≠ .rBrace) : braceDepth? depth (k :: ks) = braceDepth? depth ks := by
  rw [braceDepth?, if_neg hl, if_neg hr]

theorem braceDepth?_append (depth : Nat) (ks ls : List TokenKind) :
    braceDepth? depth (ks ++ ls) = (braceDepth? depth ks).bind (braceDepth? · ls) := by
  induction ks generalizing depth with
  | nil => rfl
  | cons k ks ih =>
    rw [List.cons_append, braceDepth?, braceDepth?, ih, ih, ih]
    split
    · rfl
    · split
      · split <;> rfl
      · rfl

/-- braces that are open before the tokens stay open -/
theorem braceDepth?_add {e : Nat} (more : Nat) (h : braceDepth? depth ks = some e) :
    braceDepth? (depth + more) ks = some (e + more) := by
  induction ks generalizing depth with
  | nil =>
    cases h
    rfl
  | cons k ks ih =>
    rw [braceDepth?] at h ⊢
    split at h
    · next hl =>
      rw [if_pos hl, Nat.add_right_comm]
      exact ih h
    · next hl =>
      rw [if_neg hl]
      split at h
      · next hr =>
        split at h
        · cases h
        · next hd =>
          rw [if_pos hr, if_neg (by omega), Nat.sub_add_comm (Nat.pos_of_ne_zero hd)]
          exact ih h
      · next hr =>
        rw [if_neg hr]
        exact ih h

theorem Nested.depth_eq (h : Nested ks) (depth : Nat) : braceDepth? depth ks = some depth := by
  have hd := braceDepth?_add depth h
  rw [Nat.zero_add] at hd
  exact hd

/-- A `{` and the `}` that closes it. -/
theorem Nested.enclose (h : Nested ks) : Nested (.lBrace :: (ks ++ [.rBrace])) := by
  rw [Nested, braceDepth?_open, braceDepth?_append, h.depth_eq]
  exact braceDepth?_close 0 []

/-- A `{` that nothing closes is not nested. -/
theorem Nested.not_open (h : Nested ks) (before : List TokenKind) :
    ¬Nested (before ++ .lBrace :: ks) := by
  intro hn
  rw [Nested, braceDepth?_append] at hn
  obtain ⟨e, -, he⟩ := Option.bind_eq_some_iff.mp hn
  rw [braceDepth?_open, h.depth_eq] at he
  cases he

end CppMend
