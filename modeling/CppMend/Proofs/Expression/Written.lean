import CppMend.Grammar.Expressions
import CppMend.Proofs.Lexical.Blanks
import CppMend.Proofs.Tree.Shapes
import Mathlib.Data.List.Dedup

/-!
# Expressions and how they are written

`Expr` is what an expression with integers, operators and parentheses says. To write it, an operand
that binds too loosely for its place is put in parentheses first.

* `Expr.power`        how tightly an expression binds;
* `Expr.Tight`        every operand binds tightly enough for its place;
* `Expr.guarded`      the expression with the parentheses it needs;
* `Expr.tokens`       the tokens of an expression, from left to right;
* `Expr.outline`, `Expr.shape`  how it is grouped;
* `Expr.source`       a text with a variable that has the expression as its initial value.
-/

namespace CppMend

open TokenClass

/-! ## operators -/

/-- the operators before an operand -/
def prefixKinds : List TokenKind :=
  [.plus, .minus, .exclaim, .tilde, .star, .amp, .plusPlus, .minusMinus, .kwSizeof, .kwNew, .kwDelete]

/-- the operators between two operands that group to the left, and their left powers -/
def binaryPowers : List (TokenKind × Nat) :=
  [(.orOr, 5), (.andAnd, 7), (.pipe, 9), (.caret, 11), (.amp, 13), (.equalEqual, 15), (.notEqual, 15),
   (.less, 17), (.greater, 17), (.lessEqual, 17), (.greaterEqual, 17), (.leftShift, 19),
   (.rightShift, 19), (.plus, 21), (.minus, 21), (.star, 23), (.slash, 23), (.percent, 23)]

def assignKinds : List TokenKind :=
  [.equal, .plusEqual, .minusEqual, .starEqual, .slashEqual, .percentEqual, .caretEqual, .ampEqual,
   .pipeEqual, .leftShiftEqual, .rightShiftEqual]

@[ext]
structure Numeral where
  text : Text
  integer : Lexeme .integer text

@[ext]
structure PrefixOperator where
  kind : TokenKind
  listed : kind ∈ prefixKinds

@[ext]
structure BinaryOperator where
  kind : TokenKind
  power : Nat
  listed : (kind, power) ∈ binaryPowers

@[ext]
structure AssignOperator where
  kind : TokenKind
  listed : kind ∈ assignKinds

/-! ### their spellings -/

/-- the operators and the other marks of expressions -/
def markKinds : List TokenKind :=
  prefixKinds ++ binaryPowers.map (·.1) ++ assignKinds ++ [.question, .colon, .lParen, .rParen]

theorem isPlain_mark {k : TokenKind} (hk : k ∈ markKinds) : (Token.ofKind k).IsPlain := by
  have hall : markKinds.dedup.all (fun k =>
      (Token.ofKind k).cutsPlainly (afterText TokenClass.all (Token.ofKind k).text)) = true := by
    decide +kernel
  exact Token.isPlain_of_cutsPlainly (List.all_eq_true.mp hall k (List.mem_dedup.mpr hk))

theorem PrefixOperator.isPlain (op : PrefixOperator) : (Token.ofKind op.kind).IsPlain := by
  apply isPlain_mark
  simp only [markKinds, List.mem_append]
  exact .inl (.inl (.inl op.listed))

theorem BinaryOperator.isPlain (op : BinaryOperator) : (Token.ofKind op.kind).IsPlain := by
  apply isPlain_mark
  simp only [markKinds, List.mem_append]
  exact .inl (.inl (.inr (List.mem_map.mpr ⟨_, op.listed, rfl⟩)))

theorem AssignOperator.isPlain (op : AssignOperator) : (Token.ofKind op.kind).IsPlain := by
  apply isPlain_mark
  simp only [markKinds, List.mem_append]
  exact .inl (.inr op.listed)

/-! ## expressions -/

inductive Expr where
  | literal (number : Numeral)
  | prefixed (op : PrefixOperator) (operand : Expr)
  | binary (op : BinaryOperator) (left right : Expr)
  | assign (op : AssignOperator) (target value : Expr)
  | conditional (test yes no : Expr)
  | paren (inner : Expr)

namespace Expr

/-! ## parentheses -/

/-- how tightly an expression binds that no operator stands in, but for one before it -/
def tightest : Nat := 25

def power : Expr → Nat
  | literal _ | prefixed _ _ | paren _ => tightest
  | binary op _ _ => op.power
  | conditional _ _ _ => 4
  | assign _ _ _ => 2

/-- No parentheses are missing. -/
def Tight : Expr → Prop
  | literal _ => True
  | prefixed _ e => tightest ≤ e.power ∧ e.Tight
  | binary op l r => op.power ≤ l.power ∧ op.power + 1 ≤ r.power ∧ l.Tight ∧ r.Tight
  | assign _ t v => 3 ≤ t.power ∧ t.Tight ∧ v.Tight
  | conditional c y n => 5 ≤ c.power ∧ 3 ≤ n.power ∧ c.Tight ∧ y.Tight ∧ n.Tight
  | paren e => e.Tight

/-- parentheses around what binds less tightly than `need` -/
def guard (need : Nat) (e : Expr) : Expr := if e.power < need then paren e else e

def guarded : Expr → Expr
  | literal n => literal n
  | prefixed op e => prefixed op (e.guarded.guard tightest)
  | binary op l r => binary op (l.guarded.guard op.power) (r.guarded.guard (op.power + 1))
  | assign op t v => assign op (t.guarded.guard 3) v.guarded
  | conditional c y n => conditional (c.guarded.guard 5) y.guarded (n.guarded.guard 3)
  | paren e => paren e.guarded

/-- the expression without any parentheses -/
def ungrouped : Expr → Expr
  | literal n => literal n
  | prefixed op e => prefixed op e.ungrouped
  | binary op l r => binary op l.ungrouped r.ungrouped
  | assign op t v => assign op t.ungrouped v.ungrouped
  | conditional c y n => conditional c.ungrouped y.ungrouped n.ungrouped
  | paren e => e.ungrouped

theorem power_le_tightest (op : BinaryOperator) : op.power + 1 ≤ tightest := by
  have hall : ∀ o ∈ binaryPowers, o.2 + 1 ≤ tightest := by decide
  exact hall _ op.listed

theorem le_power_guard {need : Nat} (hn : need ≤ tightest) (e : Expr) : need ≤ (e.guard need).power := by
  rw [guard]
  split
  · exact hn
  · next h => exact Nat.le_of_not_lt h

theorem guard_eq_self {need : Nat} {e : Expr} (h : need ≤ e.power) : e.guard need = e :=
  if_neg (Nat.not_lt.mpr h)

theorem tight_guard {need : Nat} {e : Expr} (h : e.Tight) : (e.guard need).Tight := by
  rw [guard]
  split
  · exact h
  · exact h

theorem ungrouped_guard (need : Nat) (e : Expr) : (e.guard need).ungrouped = e.ungrouped := by
  rw [guard]
  split <;> rfl

/-- Once they are put in, no parentheses are missing. -/
theorem tight_guarded (e : Expr) : e.guarded.Tight := by
  induction e with
  | literal n => trivial
  | prefixed op e ih => exact ⟨le_power_guard (Nat.le_refl _) _, tight_guard ih⟩
  | binary op l r ihl ihr =>
    have h := power_le_tightest op
    exact ⟨le_power_guard (Nat.le_of_succ_le h) _, le_power_guard h _, tight_guard ihl, tight_guard ihr⟩
  | assign op t v iht ihv => exact ⟨le_power_guard (by decide) _, tight_guard iht, ihv⟩
  | conditional c y n ihc ihy ihn =>
    exact ⟨le_power_guard (by decide) _, le_power_guard (by decide) _, tight_guard ihc, ihy,
      tight_guard ihn⟩
  | paren e ih => exact ih

/-- Where none are missing, none are put in. -/
theorem guarded_of_tight {e : Expr} (h : e.Tight) : e.guarded = e := by
  induction e with
  | literal n => rfl
  | prefixed op e ih => rw [guarded, ih h.2, guard_eq_self h.1]
  | binary op l r ihl ihr =>
    obtain ⟨hl, hr, htl, htr⟩ := h
    rw [guarded, ihl htl, ihr htr, guard_eq_self hl, guard_eq_self hr]
  | assign op t v iht ihv =>
    obtain ⟨ht, htt, htv⟩ := h
    rw [guarded, iht htt, ihv htv, guard_eq_self ht]
  | conditional c y n ihc ihy ihn =>
    obtain ⟨hc, hn, htc, hty, htn⟩ := h
    rw [guarded, ihc htc, ihy hty, ihn htn, guard_eq_self hc, guard_eq_self hn]
  | paren e ih => rw [guarded, ih h]

/-- Nothing but parentheses is put in. -/
theorem ungrouped_guarded (e : Expr) : e.guarded.ungrouped = e.ungrouped := by
  induction e with
  | literal n => rfl
  | prefixed op e ih => rw [guarded, ungrouped, ungrouped_guard, ih, ungrouped]
  | binary op l r ihl ihr =>
    rw [guarded, ungrouped, ungrouped_guard, ungrouped_guard, ihl, ihr, ungrouped]
  | assign op t v iht ihv => rw [guarded, ungrouped, ungrouped_guard, iht, ihv, ungrouped]
  | conditional c y n ihc ihy ihn =>
    rw [guarded, ungrouped, ungrouped_guard, ungrouped_guard, ihc, ihy, ihn, ungrouped]
  | paren e ih => exact ih

/-! ## tokens -/

def tokens : Expr → List Token
  | literal n => [.numeral n.text]
  | prefixed op e => .ofKind op.kind :: e.tokens
  | binary op l r => l.tokens ++ .ofKind op.kind :: r.tokens
  | assign op t v => t.tokens ++ .ofKind op.kind :: v.tokens
  | conditional c y n => c.tokens ++ .ofKind .question :: (y.tokens ++ .ofKind .colon :: n.tokens)
  | paren e => .ofKind .lParen :: (e.tokens ++ [.ofKind .rParen])

theorem tokens_ne_nil (e : Expr) : e.tokens ≠ [] := by
  cases e <;> simp [tokens]

/-- All tokens of an expression are the same in any line. -/
theorem isPlain_of_mem_tokens {e : Expr} : ∀ t ∈ e.tokens, t.IsPlain := by
  induction e with
  | literal n =>
    intro t ht
    rw [List.mem_singleton.mp ht]
    exact Token.isPlain_numeral n.integer
  | prefixed op e ih => exact List.forall_mem_cons.mpr ⟨PrefixOperator.isPlain op, ih⟩
  | binary op l r ihl ihr =>
    exact List.forall_mem_append.mpr
      ⟨ihl, List.forall_mem_cons.mpr ⟨BinaryOperator.isPlain op, ihr⟩⟩
  | assign op t v iht ihv =>
    exact List.forall_mem_append.mpr
      ⟨iht, List.forall_mem_cons.mpr ⟨AssignOperator.isPlain op, ihv⟩⟩
  | conditional c y n ihc ihy ihn =>
    refine List.forall_mem_append.mpr ⟨ihc, List.forall_mem_cons.mpr ⟨isPlain_mark (by decide), ?_⟩⟩
    exact List.forall_mem_append.mpr ⟨ihy, List.forall_mem_cons.mpr ⟨isPlain_mark (by decide), ihn⟩⟩
  | paren e ih =>
    refine List.forall_mem_cons.mpr ⟨isPlain_mark (by decide), ?_⟩
    refine List.forall_mem_append.mpr ⟨ih, fun t ht => ?_⟩
    rw [List.mem_singleton.mp ht]
    exact isPlain_mark (by decide)

/-! ## grouping -/

/-- the nodes that the tokens of an expression are grouped into -/
def outline : Expr → Outline
  | literal _ => .node .literal [.token]
  | prefixed _ e => .node .unaryExpr [.token, e.outline]
  | binary _ l r => .node .binaryExpr [l.outline, .token, r.outline]
  | assign _ t v => .node .assignExpr [t.outline, .token, v.outline]
  | conditional c y n => .node .conditionalExpr [c.outline, .token, y.outline, .token, n.outline]
  | paren e => .node .parenExpr [.token, e.outline, .token]

def shape : Expr → Tree.Shape
  | literal _ => .node .literal [.leaf .integer]
  | prefixed op e => .node .unaryExpr [.leaf op.kind, e.shape]
  | binary op l r => .node .binaryExpr [l.shape, .leaf op.kind, r.shape]
  | assign op t v => .node .assignExpr [t.shape, .leaf op.kind, v.shape]
  | conditional c y n =>
    .node .conditionalExpr [c.shape, .leaf .question, y.shape, .leaf .colon, n.shape]
  | paren e => .node .parenExpr [.leaf .lParen, e.shape, .leaf .rParen]

def kinds (e : Expr) : List TokenKind := e.tokens.map (·.kind)

/-- The tokens of an expression fill its outline. -/
theorem shapes_outline (e : Expr) (ks : List TokenKind) :
    e.outline.shapes (e.kinds ++ ks) = ([e.shape], ks) := by
  induction e generalizing ks with
  | literal n => rfl
  | prefixed op e ih =>
    show Outline.shapes (.node .unaryExpr [.token, e.outline]) (op.kind :: (e.kinds ++ ks)) = _
    simp [Outline.shapes, Outline.shapesAll, ih, shape]
  | binary op l r ihl ihr =>
    have hk : (binary op l r).kinds = l.kinds ++ op.kind :: r.kinds := List.map_append
    simp [hk, outline, Outline.shapes, Outline.shapesAll, ihl, ihr, shape]
  | assign op t v iht ihv =>
    have hk : (assign op t v).kinds = t.kinds ++ op.kind :: v.kinds := List.map_append
    simp [hk, outline, Outline.shapes, Outline.shapesAll, iht, ihv, shape]
  | conditional c y n ihc ihy ihn =>
    have hk : (conditional c y n).kinds
        = c.kinds ++ .question :: (y.kinds ++ .colon :: n.kinds) := by
      simp [kinds, tokens, Token.ofKind]
    simp [hk, outline, Outline.shapes, Outline.shapesAll, ihc, ihy, ihn, shape]
  | paren e ih =>
    have hk : (paren e).kinds = .lParen :: (e.kinds ++ [.rParen]) := by
      simp [kinds, tokens, Token.ofKind]
    simp [hk, outline, Outline.shapes, Outline.shapesAll, ih, shape]

theorem leaves_shape (e : Expr) : e.shape.leaves = e.kinds := by
  induction e with
  | literal n => rfl
  | prefixed op e ih => simp [shape, kinds, tokens, Token.ofKind, Tree.Shape.leaves,
      Tree.Shape.leavesOf, ih]
  | binary op l r ihl ihr => simp [shape, kinds, tokens, Token.ofKind, Tree.Shape.leaves,
      Tree.Shape.leavesOf, ihl, ihr]
  | assign op t v iht ihv => simp [shape, kinds, tokens, Token.ofKind, Tree.Shape.leaves,
      Tree.Shape.leavesOf, iht, ihv]
  | conditional c y n ihc ihy ihn => simp [shape, kinds, tokens, Token.ofKind, Tree.Shape.leaves,
      Tree.Shape.leavesOf, ihc, ihy, ihn]
  | paren e ih => simp [shape, kinds, tokens, Token.ofKind, Tree.Shape.leaves,
      Tree.Shape.leavesOf, ih]

theorem length_tokens_eq {e f : Expr} (h : e.shape = f.shape) : e.tokens.length = f.tokens.length := by
  have hk : e.kinds.length = f.kinds.length := by rw [← leaves_shape, ← leaves_shape, h]
  rwa [kinds, kinds, List.length_map, List.length_map] at hk

/-! ## texts -/

/-- the expression with a blank between each two tokens, and with the parentheses it needs -/
def text (e : Expr) : Text := Token.line e.guarded.tokens

def source (e : Expr) : Text := "int v = ".toList ++ e.text ++ [';']

end Expr

end CppMend
