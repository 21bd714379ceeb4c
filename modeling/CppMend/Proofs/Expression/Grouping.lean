import CppMend.Proofs.Expression.Written
import CppMend.Proofs.Grammar.Gives

/-!
# Grouping what was written

The tokens of an expression in which no parentheses are missing are grouped as the expression says, in
any place that does not ask for more than the expression binds, and whatever comes after it that its
last operand does not take.

* `Expr.trail`     how tightly something must bind to go on with the last operand;
* `Stops`          what comes next belongs neither to an operand nor to an operator's right side;
* `Expr.groups`    the induction over expressions;
* `Expr.gives`     a whole expression in a place that asks for some power.
-/

namespace CppMend

open Rule Lookahead

/-! ## operators in the grammar -/

theorem BinaryOperator.infixPower?_eq (op : BinaryOperator) :
    infixPower? op.kind = some ⟨op.power, op.power + 1, .binaryExpr⟩ := by
  have hall : ∀ o ∈ binaryPowers, infixPower? o.1 = some ⟨o.2, o.2 + 1, .binaryExpr⟩ := by decide
  exact hall _ op.listed

theorem AssignOperator.infixPower?_eq (op : AssignOperator) :
    infixPower? op.kind = some ⟨2, 1, .assignExpr⟩ := by
  have hall : ∀ k ∈ assignKinds, infixPower? k = some ⟨2, 1, .assignExpr⟩ := by decide
  exact hall _ op.listed

/-- Nothing that goes on with an operand of some power comes next. -/
structure Stops (power : Nat) (s : List Cue) : Prop where
  operand : operandLink? s = none
  operator : operatorLink? power s = none

theorem Stops.mono {n m : Nat} {s : List Cue} (h : Stops n s) (hnm : n ≤ m) : Stops m s := by
  refine ⟨h.operand, ?_⟩
  have ho := h.operator
  cases s with
  | nil => rfl
  | cons c s =>
    -- what binds too loosely for `n` does so for `m`
    have later : ∀ {left : Nat} {link : NodeKind × Goal}, (if left < n then none else some link) = none →
        (if left < m then none else some link) = none := by
      intro left link hl
      by_cases hlt : left < n
      · exact if_pos (Nat.lt_of_lt_of_le hlt hnm)
      · rw [if_neg hlt] at hl
        cases hl
    rw [operatorLink?] at ho ⊢
    by_cases hq : c.kind = .question
    · rw [if_pos hq] at ho ⊢
      exact later ho
    · rw [if_neg hq] at ho ⊢
      cases hi : infixPower? c.kind with
      | none => rfl
      | some bd =>
        rw [hi] at ho
        exact later ho

/-- A mark that is no operator, before which every expression ends. -/
theorem stops_of_plain {c : Cue} {s : List Cue} (hc : c.kind ∈ [.rParen, .colon, .semicolon])
    (n : Nat) : Stops n (c :: s) := by
  obtain ⟨kind, fresh, mark⟩ := c
  simp only [List.mem_cons, List.not_mem_nil, or_false] at hc
  rcases hc with rfl | rfl | rfl <;> exact ⟨rfl, rfl⟩

/-- the operators between two operands, `?` among them -/
def Joins (k : TokenKind) (left : Nat) (link : NodeKind × Goal) : Prop :=
  (∀ s, operandLink? (⟨k, false, .plain⟩ :: s) = none)
    ∧ ∀ n s, operatorLink? n (⟨k, false, .plain⟩ :: s) = if left < n then none else some link

theorem joins_of_power {k : TokenKind} {bd : Binding} (hq : k ≠ .question)
    (ho : ∀ s, operandLink? (⟨k, false, .plain⟩ :: s) = none) (hi : infixPower? k = some bd) :
    Joins k bd.left (bd.node, .operation bd.right) := by
  refine ⟨ho, fun n s => ?_⟩
  rw [operatorLink?, if_neg hq, hi]

theorem BinaryOperator.joins (op : BinaryOperator) :
    Joins op.kind op.power (.binaryExpr, .operation (op.power + 1)) := by
  have hall : ∀ o ∈ binaryPowers, o.1 ≠ .question ∧ ∀ s, operandLink? (⟨o.1, false, .plain⟩ :: s) = none := by
    simp only [binaryPowers, List.forall_mem_cons]
    simp [operandLink?]
  obtain ⟨hq, ho⟩ := hall _ op.listed
  exact joins_of_power hq ho op.infixPower?_eq

theorem AssignOperator.joins (op : AssignOperator) : Joins op.kind 2 (.assignExpr, .operation 1) := by
  have hall : ∀ k ∈ assignKinds, k ≠ .question ∧ ∀ s, operandLink? (⟨k, false, .plain⟩ :: s) = none := by
    simp only [assignKinds, List.forall_mem_cons]
    simp [operandLink?]
  obtain ⟨hq, ho⟩ := hall _ op.listed
  exact joins_of_power hq ho op.infixPower?_eq

theorem joins_question : Joins .question 4 (.conditionalExpr, .alternatives) :=
  ⟨fun _ => rfl, fun _ _ => rfl⟩

theorem Joins.stops {k : TokenKind} {left n : Nat} {link : NodeKind × Goal} (h : Joins k left link)
    (hn : left < n) (s : List Cue) : Stops n (⟨k, false, .plain⟩ :: s) :=
  ⟨h.1 s, by rw [h.2, if_pos hn]⟩

theorem Joins.link {k : TokenKind} {left n : Nat} {link : NodeKind × Goal} (h : Joins k left link)
    (hn : n ≤ left) (s : List Cue) : operatorLink? n (⟨k, false, .plain⟩ :: s) = some link := by
  rw [h.2, if_neg (Nat.not_lt.mpr hn)]

namespace Expr

/-! ## the first and the last token -/

def cues (e : Expr) : List Cue := e.tokens.map Token.plainCue

/-- How tightly an operator must bind to take the last operand of an expression. -/
def trail : Expr → Nat
  | literal _ | prefixed _ _ | paren _ => tightest
  | binary op _ _ => op.power + 1
  | conditional _ _ _ => 3
  | assign _ _ _ => 1

theorem cues_binary (op : BinaryOperator) (l r : Expr) :
    (binary op l r).cues = l.cues ++ ⟨op.kind, false, .plain⟩ :: r.cues := List.map_append

theorem cues_assign (op : AssignOperator) (t v : Expr) :
    (assign op t v).cues = t.cues ++ ⟨op.kind, false, .plain⟩ :: v.cues := List.map_append

theorem cues_conditional (c y n : Expr) : (conditional c y n).cues
    = c.cues ++ ⟨.question, false, .plain⟩ :: (y.cues ++ ⟨.colon, false, .plain⟩ :: n.cues) := by
  simp [cues, tokens, Token.plainCue, Token.ofKind]

theorem cues_paren (e : Expr) : (paren e).cues
    = ⟨.lParen, false, .plain⟩ :: (e.cues ++ [⟨.rParen, false, .plain⟩]) := by
  simp [cues, tokens, Token.plainCue, Token.ofKind]

/-- what an expression may start with -/
def headKinds : List TokenKind := .integer :: .lParen :: prefixKinds

theorem exists_head (e : Expr) :
    ∃ k s, e.cues = ⟨k, false, .plain⟩ :: s ∧ k ∈ headKinds := by
  induction e with
  | literal n => exact ⟨.integer, [], rfl, List.mem_cons_self⟩
  | prefixed op e ih =>
    exact ⟨op.kind, e.cues, rfl, List.mem_cons_of_mem _ (List.mem_cons_of_mem _ op.listed)⟩
  | binary op l r ihl _ =>
    obtain ⟨k, s, h, hk⟩ := ihl
    exact ⟨k, _, by rw [cues_binary, h, List.cons_append], hk⟩
  | assign op t v iht _ =>
    obtain ⟨k, s, h, hk⟩ := iht
    exact ⟨k, _, by rw [cues_assign, h, List.cons_append], hk⟩
  | conditional c y n ihc _ _ =>
    obtain ⟨k, s, h, hk⟩ := ihc
    exact ⟨k, _, by rw [cues_conditional, h, List.cons_append], hk⟩
  | paren e ih => exact ⟨.lParen, _, cues_paren e, List.mem_cons_of_mem _ List.mem_cons_self⟩

/-- What is asked of the first token of an expression holds if it does of each that may be one. -/
theorem head_test {p : TokenKind → Bool} {value : Bool} (hp : ∀ k ∈ headKinds, p k = value) (e : Expr)
    (s : List Cue) : nextIs p (e.cues ++ s) = value := by
  obtain ⟨k, t, h, hk⟩ := e.exists_head
  rw [h]
  exact hp k hk

theorem startsExpression_cues (e : Expr) (s : List Cue) : startsExpression (e.cues ++ s) = true :=
  head_test (by decide) e s

/-- A parenthesis before an expression starts no cast. -/
theorem startsCast_cues (e : Expr) (s : List Cue) :
    startsCast (⟨.lParen, false, .plain⟩ :: (e.cues ++ s)) = false := by
  obtain ⟨k, t, h, hk⟩ := e.exists_head
  have hall : ∀ k ∈ headKinds, [TokenKind.kwConst, .kwVolatile].contains k = false
      ∧ (k.isBuiltinType || [.kwStruct, .kwUnion, .kwEnum].contains k) = false := by decide
  obtain ⟨hq, ht⟩ := hall k hk
  rw [h, startsCast]
  simp only [List.cons_append, List.drop_succ_cons, List.drop_zero, List.dropWhile_cons, hq]
  rw [Bool.and_eq_false_iff]
  right
  rw [if_neg Bool.false_ne_true, Bool.and_eq_false_iff]
  exact .inl ht

/-! ## how tightly parts bind -/

theorem five_le_power (op : BinaryOperator) : 5 ≤ op.power := by
  have hall : ∀ o ∈ binaryPowers, 5 ≤ o.2 := by decide
  exact hall _ op.listed

/-- What binds tightly enough for a place ends tightly enough for it. Where the place asks for just the
power of an assignment or a conditional, it does not. -/
theorem le_trail {e : Expr} {n : Nat} (h : n ≤ e.power) (h2 : n ≠ 2) (h4 : n ≠ 4) : n ≤ e.trail := by
  cases e with
  | literal _ | prefixed _ _ | paren _ => exact h
  | binary op _ _ => exact Nat.le_succ_of_le h
  | conditional _ _ _ =>
    have hp : n ≤ 4 := h
    show n ≤ 3
    omega
  | assign _ _ _ =>
    have hp : n ≤ 2 := h
    show n ≤ 1
    omega

/-- An operator between two operands does not take the last part of its left one. -/
theorem lt_trail {e : Expr} (op : BinaryOperator) (h : op.power ≤ e.power) : op.power < e.trail := by
  have h5 := five_le_power op
  cases e with
  | literal _ | prefixed _ _ | paren _ => exact power_le_tightest op
  | binary _ _ _ => exact Nat.lt_succ_of_le h
  | conditional _ _ _ =>
    have hp : op.power ≤ 4 := h
    omega
  | assign _ _ _ =>
    have hp : op.power ≤ 2 := h
    omega

/-! ## grouping -/

/-- The tokens of the expression are grouped as it says. What remains of the budget are the turns in
which further operators may go on with it. -/
def Groups (e : Expr) : Prop :=
  ∀ m s b, m ≤ e.power → Stops e.trail s → 2 * e.tokens.length ≤ b → ∃ turns,
    b ≤ turns + e.tokens.length
      ∧ (expressionOf m).perform b (reach grammar b) (e.cues ++ s)
        = Action.wrap (operatorLink? m) (reach grammar b) turns [e.outline] s

theorem length_pos (e : Expr) : 0 < e.tokens.length := List.length_pos_of_ne_nil e.tokens_ne_nil

/-- where no operator goes on with it -/
theorem Groups.gives {e : Expr} (he : e.Groups) {n b : Nat} {s : List Cue} (hn : n ≤ e.power)
    (ht : n ≤ e.trail) (hs : Stops n s) (hb : 2 * e.tokens.length ≤ b) :
    Gives b (expressionOf n) (e.cues ++ s) [e.outline] s := by
  obtain ⟨turns, hturns, h⟩ := he n s b hn (hs.mono ht) hb
  have hpos := e.length_pos
  obtain ⟨turns, rfl⟩ : ∃ k, turns = k + 1 := ⟨turns - 1, by omega⟩
  rw [Gives, h, Action.wrap_none turns hs.operator]

/-- the goal of an expression -/
theorem Groups.goal {e : Expr} (he : e.Groups) {n b : Nat} {s : List Cue} (hn : n ≤ e.power)
    (ht : n ≤ e.trail) (hs : Stops n s) (hb : 2 * e.tokens.length + 1 ≤ b) :
    Gives b (.goal (.expression n)) (e.cues ++ s) [e.outline] s := by
  obtain ⟨b, rfl⟩ : ∃ k, b = k + 1 := ⟨b - 1, by omega⟩
  exact .goal (he.gives hn ht hs (by omega))

/-- An operand is an expression that any operators may go on with. -/
theorem groups_of_operand {e : Expr} (h : ∀ s b, Stops e.trail s → 2 * e.tokens.length ≤ b →
    Gives b operand (e.cues ++ s) [e.outline] s) : e.Groups := by
  intro m s b _ hs hb
  refine ⟨b, Nat.le_add_right _ _, ?_⟩
  rw [expressionOf, perform, if_pos (e.startsExpression_cues s)]
  exact (h s b hs hb).chain

/-- what nothing goes on with that belongs to an operand -/
theorem gives_operand {s t : List Cue} {os : List Outline} {b : Nat}
    (hop : nextIs isPrefixOperator s = false) (hcast : startsCast s = false)
    (h : Gives b primary s os t) (hb : 0 < b) (ht : operandLink? t = none) :
    Gives b operand s os t :=
  .otherwise hop (.otherwise hcast (h.chain_ends hb ht))

theorem groups_literal (n : Numeral) : (literal n).Groups := by
  refine groups_of_operand fun s b hs hb => ?_
  have hb : 2 ≤ b := hb
  refine gives_operand rfl rfl ?_ (by omega) hs.operand
  exact .branch rfl (.node _ (.otherwise rfl gives_token))

theorem groups_paren {e : Expr} (he : e.Groups) : (paren e).Groups := by
  refine groups_of_operand fun s b hs hb => ?_
  have hlen : (paren e).tokens.length = e.tokens.length + 2 := by simp [tokens]
  rw [hlen] at hb
  have hstop : Stops 0 (⟨.rParen, false, .plain⟩ :: s) := stops_of_plain (by decide) 0
  rw [cues_paren, List.cons_append, List.append_assoc, List.singleton_append]
  refine gives_operand rfl (e.startsCast_cues _) ?_ (by omega) hs.operand
  refine .otherwise rfl (.otherwise rfl (.otherwise rfl (.branch rfl (.node _ ?_))))
  exact gives_token.seq ((he.goal (Nat.zero_le _) (Nat.zero_le _) hstop (by omega)).seq
    (.branch rfl gives_token))

theorem groups_prefixed (op : PrefixOperator) {e : Expr} (he : e.Groups) (ht : tightest ≤ e.power) :
    (prefixed op e).Groups := by
  refine groups_of_operand fun s b hs hb => ?_
  have hlen : (prefixed op e).tokens.length = e.tokens.length + 1 := rfl
  rw [hlen] at hb
  have hop : ∀ k ∈ prefixKinds, isPrefixOperator k = true := by decide
  have htrail : tightest ≤ e.trail := le_trail ht (by decide) (by decide)
  have hbracket : next .lBracket (e.cues ++ s) = false :=
    head_test (p := (· = .lBracket)) (by decide) e s
  show Gives b operand (⟨op.kind, false, .plain⟩ :: (e.cues ++ s)) _ s
  refine .branch (hop _ op.listed) (.node _ ?_)
  exact gives_token.seq ((gives_skip hbracket).seq (he.goal ht htrail hs (by omega)))

/-! ### operators between operands -/

/-- the node of an operator that stands between two operands and asks its right one for `right` -/
theorem groups_between {l r : Expr} (hl : l.Groups) (hr : r.Groups) {k : TokenKind} {kind : NodeKind}
    {left right : Nat} (hk : Joins k left (kind, .operation right)) (hleft : left < l.trail)
    (hright : right ≤ r.power) (htrail : right ≤ r.trail) {m b : Nat} {s : List Cue}
    (hm : m ≤ left) (hml : m ≤ l.power) (hs : Stops right s)
    (hb : 2 * (l.tokens.length + (r.tokens.length + 1)) ≤ b) : ∃ turns,
      b ≤ turns + (l.tokens.length + (r.tokens.length + 1))
        ∧ (expressionOf m).perform b (reach grammar b) (l.cues ++ ⟨k, false, .plain⟩ :: (r.cues ++ s))
          = Action.wrap (operatorLink? m) (reach grammar b) turns
              [.node kind [l.outline, .token, r.outline]] s := by
  have hstop : Stops l.trail (⟨k, false, .plain⟩ :: (r.cues ++ s)) := hk.stops hleft _
  obtain ⟨turns, hturns, h⟩ := hl m _ b hml hstop (by omega)
  obtain ⟨turns, rfl⟩ : ∃ n, turns = n + 1 := ⟨turns - 1, by omega⟩
  obtain ⟨b, rfl⟩ : ∃ n, b = n + 1 := ⟨b - 1, by omega⟩
  have hop : Gives b (grammar (.operation right)) (⟨k, false, .plain⟩ :: (r.cues ++ s)) [.token, r.outline] s :=
    gives_token.seq (hr.goal hright htrail hs (by omega))
  refine ⟨turns, by omega, ?_⟩
  rw [h, Action.wrap_some turns (hk.link hm _) hop.reached]
  rfl

theorem groups_binary (op : BinaryOperator) {l r : Expr} (hl : l.Groups) (hr : r.Groups)
    (hleft : op.power ≤ l.power) (hright : op.power + 1 ≤ r.power) : (binary op l r).Groups := by
  intro m s b hm hs hb
  have hm : m ≤ op.power := hm
  have h5 := five_le_power op
  have hlen : (binary op l r).tokens.length = l.tokens.length + (r.tokens.length + 1) :=
    List.length_append
  rw [hlen] at hb ⊢
  rw [cues_binary, List.append_assoc, List.cons_append]
  exact groups_between hl hr op.joins (lt_trail op hleft) hright
    (le_trail hright (by omega) (by omega)) hm (Nat.le_trans hm hleft) hs hb

theorem groups_assign (op : AssignOperator) {t v : Expr} (ht : t.Groups) (hv : v.Groups)
    (hleft : 3 ≤ t.power) : (assign op t v).Groups := by
  intro m s b hm hs hb
  have hm : m ≤ 2 := hm
  have hlen : (assign op t v).tokens.length = t.tokens.length + (v.tokens.length + 1) :=
    List.length_append
  rw [hlen] at hb ⊢
  rw [cues_assign, List.append_assoc, List.cons_append]
  have hvalue : 1 ≤ v.power := by
    cases v with
    | binary op _ _ => exact Nat.le_trans (by decide) (five_le_power op)
    | literal _ | prefixed _ _ | paren _ => show 1 ≤ 25; decide
    | conditional _ _ _ => show 1 ≤ 4; decide
    | assign _ _ _ => show 1 ≤ 2; decide
  exact groups_between ht hv op.joins (le_trail hleft (by decide) (by decide)) hvalue
    (le_trail hvalue (by decide) (by decide)) hm (by omega) hs hb

theorem groups_conditional {c y n : Expr} (hc : c.Groups) (hy : y.Groups) (hn : n.Groups)
    (htest : 5 ≤ c.power) (hlast : 3 ≤ n.power) : (conditional c y n).Groups := by
  intro m s b hm hs hb
  have hm : m ≤ 4 := hm
  have hlen : (conditional c y n).tokens.length
      = c.tokens.length + (y.tokens.length + (n.tokens.length + 1) + 1) := by
    simp [tokens]
  rw [hlen] at hb ⊢
  rw [cues_conditional, List.append_assoc, List.cons_append, List.append_assoc, List.cons_append]
  have hstop : Stops c.trail (⟨.question, false, .plain⟩
      :: (y.cues ++ ⟨.colon, false, .plain⟩ :: (n.cues ++ s))) :=
    joins_question.stops (le_trail htest (by decide) (by decide)) _
  obtain ⟨turns, hturns, h⟩ := hc m _ b (by omega) hstop (by omega)
  obtain ⟨turns, rfl⟩ : ∃ k, turns = k + 1 := ⟨turns - 1, by omega⟩
  obtain ⟨b, rfl⟩ : ∃ k, b = k + 1 := ⟨b - 1, by omega⟩
  -- the middle operand is a whole expression, which the `:` ends
  have hcolon : Stops 0 (⟨.colon, false, .plain⟩ :: (n.cues ++ s)) := stops_of_plain (by decide) 0
  have hmiddle := hy.goal (Nat.zero_le _) (Nat.zero_le _) hcolon (show _ ≤ b by omega)
  have hrest := hn.goal hlast (le_trail hlast (by decide) (by decide)) hs (show _ ≤ b by omega)
  have hboth : Gives b (grammar .alternatives) (⟨.question, false, .plain⟩
      :: (y.cues ++ ⟨.colon, false, .plain⟩ :: (n.cues ++ s)))
      [.token, y.outline, .token, n.outline] s :=
    gives_token.seq (hmiddle.seq (.branch rfl (gives_token.seq hrest)))
  refine ⟨turns, by omega, ?_⟩
  rw [h, Action.wrap_some turns (joins_question.link hm _) hboth.reached]
  rfl

/-- By induction on the expression: an operand is grouped in its place, and where the place ends the
operator after it does not bind tightly enough to go on. -/
theorem groups {e : Expr} (ht : e.Tight) : e.Groups := by
  induction e with
  | literal n => exact groups_literal n
  | prefixed op e ih => exact groups_prefixed op (ih ht.2) ht.1
  | binary op l r ihl ihr =>
    obtain ⟨hl, hr, htl, htr⟩ := ht
    exact groups_binary op (ihl htl) (ihr htr) hl hr
  | assign op t v iht ihv =>
    obtain ⟨hleft, htt, htv⟩ := ht
    exact groups_assign op (iht htt) (ihv htv) hleft
  | conditional c y n ihc ihy ihn =>
    obtain ⟨hc, hn, htc, hty, htn⟩ := ht
    exact groups_conditional (ihc htc) (ihy hty) (ihn htn) hc hn
  | paren e ih => exact groups_paren (ih ht)

end Expr

end CppMend
