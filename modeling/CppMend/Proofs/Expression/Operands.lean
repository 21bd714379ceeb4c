import CppMend.Proofs.Grammar.Chains

/-!
# Operators and operands

Where an expression starts, it is built as one node, whatever the text goes on with. At first this node
is an operand of some sort, and then each operator, call or member is wrapped around it.

* `Rule.operatorBinding?`       how an operator between operands binds, `?` among them;
* `Rule.operatorLink?_eq_some`  the operator that an expression goes on with;
* `Rule.IsNodeOf`               outlines that are one node, of a kind with some property;
* `Rule.operand_isNodeOf`       an operand is such a node;
* `Rule.operand_obeys`          it obeys a law of linked nodes that its links keep;
* `Rule.expression_isNodeOf`    an expression is such a node as well.
-/

namespace CppMend

open Outline (Obey)

namespace NodeKind

/-- the nodes of operators between operands -/
def isOperation : NodeKind → Bool
  | .binaryExpr | .assignExpr | .conditionalExpr => true
  | _ => false

/-- the expressions that stand between operators -/
def isOperand (kind : NodeKind) : Bool := kind.isExpression && !kind.isOperation

theorem isLinked_of_isOperation {kind : NodeKind} (h : kind.isOperation = true) :
    kind.isLinked = true := by
  cases kind <;> first | rfl | cases h

theorem isExpression_of_isOperation {kind : NodeKind} (h : kind.isOperation = true) :
    kind.isExpression = true := by
  cases kind <;> first | rfl | cases h

theorem isExpression_of_isOperand {kind : NodeKind} (h : kind.isOperand = true) :
    kind.isExpression = true := (Bool.and_eq_true_iff.mp h).1

theorem isOperation_of_isOperand {kind : NodeKind} (h : kind.isOperand = true) :
    kind.isOperation = false := Bool.not_eq_true' _ |>.mp (Bool.and_eq_true_iff.mp h).2

end NodeKind

namespace Rule

open Lookahead

variable {budget power : Nat} {call : Goal → Action} {ok : Goal → List Cue → Prop} {s : List Cue}
  {p : NodeKind → Bool}

/-! ## how operators bind -/

/-- how an operator between operands binds; after `?` and `:`, the last operand is what counts -/
def operatorBinding? (k : TokenKind) : Option Binding :=
  if k = .question then some ⟨conditionalPower, conditionalPower - 1, .conditionalExpr⟩
  else infixPower? k

theorem infixPower?_cases {k : TokenKind} {b : Binding} (h : infixPower? k = some b) :
    b = ⟨2, 1, .assignExpr⟩ ∨ ∃ p, 5 ≤ p ∧ b = ⟨p, p + 1, .binaryExpr⟩ := by
  rw [infixPower?] at h
  split at h
  · exact .inl (Option.some.inj h).symm
  · obtain ⟨p, hp, rfl⟩ := Option.map_eq_some_iff.mp h
    have h5 : 5 ≤ p := by
      unfold binaryPower? at hp
      split at hp <;> cases hp <;> decide
    exact .inr ⟨p, h5, rfl⟩

theorem isOperation_of_binding {k : TokenKind} {b : Binding} (h : operatorBinding? k = some b) :
    b.node.isOperation = true := by
  rw [operatorBinding?] at h
  split at h
  · cases h
    rfl
  · rcases infixPower?_cases h with rfl | ⟨p, -, rfl⟩ <;> rfl

/-- What comes next is an operator that binds tightly enough. -/
theorem operatorLink?_eq_some {power : Nat} {s : List Cue} {kind : NodeKind} {g : Goal}
    (h : operatorLink? power s = some (kind, g)) :
    ∃ c t b, s = c :: t ∧ operatorBinding? c.kind = some b ∧ power ≤ b.left ∧ b.node = kind
      ∧ (kind = .conditionalExpr ∧ b.right = conditionalPower - 1 ∧ g = .alternatives
        ∨ kind ≠ .conditionalExpr ∧ g = .operation b.right) := by
  cases s with
  | nil => cases h
  | cons c t =>
    rw [operatorLink?] at h
    by_cases hq : c.kind = .question
    · rw [if_pos hq] at h
      split at h
      · cases h
      · next hle =>
        cases h
        refine ⟨c, t, _, rfl, by rw [operatorBinding?, if_pos hq], Nat.le_of_not_lt hle, rfl, ?_⟩
        exact .inl ⟨rfl, rfl, rfl⟩
    · rw [if_neg hq] at h
      cases hb : infixPower? c.kind with
      | none =>
        rw [hb] at h
        cases h
      | some b =>
        rw [hb] at h
        replace h : (if b.left < power then none else some (b.node, Goal.operation b.right))
          = some (kind, g) := h
        by_cases hlt : b.left < power
        · rw [if_pos hlt] at h
          cases h
        · rw [if_neg hlt] at h
          cases h
          refine ⟨c, t, b, rfl, by rw [operatorBinding?, if_neg hq, hb], Nat.le_of_not_lt hlt, rfl, ?_⟩
          right
          have hk : b.node ≠ .conditionalExpr := by
            rcases infixPower?_cases hb with rfl | ⟨p, -, rfl⟩ <;> simp
          exact ⟨hk, rfl⟩

/-- An operator that is left alone binds too loosely. -/
theorem operatorLink?_eq_none_iff {power : Nat} {s : List Cue} : operatorLink? power s = none
    ↔ ∀ c ∈ s.head?, ∀ b, operatorBinding? c.kind = some b → b.left < power := by
  cases s with
  | nil => simp [operatorLink?]
  | cons c t =>
    simp only [List.head?_cons, Option.mem_some_iff, forall_eq', operatorLink?, operatorBinding?]
    by_cases hq : c.kind = .question
    · simp [hq]
    · cases hb : infixPower? c.kind <;> simp [hq]

theorem operatorLink?_mono {n m : Nat} {s : List Cue} (h : operatorLink? n s = none) (hle : n ≤ m) :
    operatorLink? m s = none := by
  rw [operatorLink?_eq_none_iff] at h ⊢
  intro c hc b hb
  exact Nat.lt_of_lt_of_le (h c hc b hb) hle

/-! ## nodes of some kind -/

/-- the outlines are one node, of a kind that has some property -/
def IsNodeOf (p : NodeKind → Bool) (os : List Outline) : Prop :=
  ∃ kind parts, os = [.node kind parts] ∧ p kind = true

theorem IsNodeOf.mono {q : NodeKind → Bool} {os : List Outline} (h : IsNodeOf p os)
    (hpq : ∀ kind, p kind = true → q kind = true) : IsNodeOf q os := by
  obtain ⟨kind, parts, hos, hk⟩ := h
  exact ⟨kind, parts, hos, hpq kind hk⟩

theorem isNodeOf_node {kind : NodeKind} (h : p kind = true) (body : Rule) :
    IsNodeOf p ((node kind body).perform budget call s).built := ⟨kind, _, rfl, h⟩

/-! ## what is wrapped -/

section
variable {head : Rule} {link : List Cue → Option (NodeKind × Goal)}

theorem chain_isNodeOf (hlink : ∀ t kind g, link t = some (kind, g) → p kind = true)
    (hh : IsNodeOf p (head.perform budget call s).built)
    (hl : (chain head link).Lasts budget call ok s) :
    IsNodeOf p ((chain head link).perform budget call s).built :=
  let Inv (built : List Outline) (_ : List Cue) : Prop := IsNodeOf p built
  have hstep : ∀ built t kind g, Inv built t → link t = some (kind, g) → ok g t →
      Inv [.node kind (built ++ (call g t).built)] (call g t).ahead :=
    fun _ t kind g _ hk _ => ⟨kind, _, rfl, hlink t kind g hk⟩
  (Action.wrap_invariant hstep hl.2.2 hh).1

end

/-! ## operands -/

/-- Where an expression starts without an operator, there is an operand. -/
theorem primary_isNodeOf (h : startsExpression s = true) (hp : nextIs isPrefixOperator s = false) :
    IsNodeOf NodeKind.isOperand (primary.perform budget call s).built := by
  have branch {test : List Cue → Bool} {yes no : Rule}
      (hy : IsNodeOf NodeKind.isOperand (yes.perform budget call s).built)
      (hn : test s = false → IsNodeOf NodeKind.isOperand (no.perform budget call s).built) :
      IsNodeOf NodeKind.isOperand ((Rule.branch test yes no).perform budget call s).built := by
    rw [perform]
    split
    · exact hy
    · next h => exact hn (Bool.eq_false_iff.mpr h)
  refine branch (isNodeOf_node rfl _) fun hl => branch (isNodeOf_node rfl _) fun hn => ?_
  refine branch (isNodeOf_node rfl _) fun hb => branch (isNodeOf_node rfl _) fun hr => ?_
  refine branch (isNodeOf_node rfl _) fun hi => branch (isNodeOf_node rfl _) fun hq => ?_
  -- no other token starts an expression
  cases s with
  | nil => cases h
  | cons c s => simp_all [startsExpression, nextIs, nextIn, next]

theorem operandLink?_isOperand {kind : NodeKind} {g : Goal} (h : operandLink? s = some (kind, g)) :
    kind.isOperand = true := by
  cases s with
  | nil => cases h
  | cons c s =>
    rw [operandLink?] at h
    split at h <;> cases h <;> rfl

theorem operand_isNodeOf (h : startsExpression s = true) (hl : operand.Lasts budget call ok s) :
    IsNodeOf NodeKind.isOperand (operand.perform budget call s).built := by
  refine branch_outcome (P := (IsNodeOf NodeKind.isOperand ·.built)) hl
    (fun _ _ => isNodeOf_node rfl _) fun hp hl => ?_
  refine branch_outcome (P := (IsNodeOf NodeKind.isOperand ·.built)) hl
    (fun _ _ => isNodeOf_node rfl _) fun _ hl => ?_
  exact chain_isNodeOf (fun _ _ _ => operandLink?_isOperand) (primary_isNodeOf h hp) hl

/-- A law of linked nodes holds in an operand, if the links of operands keep it. -/
theorem operand_obeys {P : NodeLaw} (hP : ∀ kind parts ks, kind.isLinked = false → P kind parts ks)
    (hf : CallsFit call) (hgoals : ∀ g t, ok g t → Obey P (call g t).built (kindsOf t))
    (hlink : ∀ s built t kind g, (Outcome.mk built t false).Fits s →
      operandLink? t = some (kind, g) → ok g t → P kind (built ++ (call g t).built) (kindsOf s))
    (hl : operand.Lasts budget call ok s) :
    Obey P (operand.perform budget call s).built (kindsOf s) := by
  let N (r : Rule) (_ : List Cue) : Prop := ∃ kind body, r = .node kind body ∧ kind.isLinked = false
  let C (head : Rule) (link : List Cue → Option (NodeKind × Goal)) (_ : List Cue) : Prop :=
    head = primary ∧ link = operandLink?
  have spared {r : Rule} (hr : r.avoids NodeKind.isLinked = true) (s : List Cue) : r.Throughout N C s :=
    throughout_of_avoids (fun kind body _ hk => ⟨kind, body, rfl, hk⟩) hr s
  have hoperand : operand.Throughout N C s :=
    ⟨fun _ => spared rfl s, fun _ => ⟨fun _ => spared rfl s, fun _ => ⟨⟨rfl, rfl⟩, spared rfl s⟩⟩⟩
  refine obey_of_throughout hf hgoals ?_ ?_ hoperand hl
  · rintro r s kind parts ⟨k, body, rfl, hk⟩ - hb
    cases hb
    exact hP _ _ _ hk
  · rintro head link s ⟨rfl, rfl⟩ hl ho
    exact chain_obeys (Q := fun _ => True) hf hgoals (fun _ _ _ _ _ => trivial)
      (fun built t kind g hfit _ => hlink s built t kind g hfit) trivial ho hl

/-! ## expressions -/

theorem operatorLink?_isOperation {kind : NodeKind} {g : Goal}
    (h : operatorLink? power s = some (kind, g)) : kind.isOperation = true := by
  obtain ⟨c, t, b, -, hb, -, rfl, -⟩ := operatorLink?_eq_some h
  exact isOperation_of_binding hb

theorem expression_none (budget power : Nat) (h : startsExpression s = false) :
    reach grammar (budget + 1) (.expression power) s = ⟨[.blank], s, false⟩ := by
  show perform budget _ (expressionOf power) s = _
  rw [expressionOf, perform, if_neg (by rw [h]; exact Bool.false_ne_true)]
  rfl

theorem expression_some (budget power : Nat) (h : startsExpression s = true) :
    reach grammar (budget + 1) (.expression power) s
      = (chain operand (operatorLink? power)).perform budget (reach grammar budget) s := by
  show perform budget _ (expressionOf power) s = _
  rw [expressionOf, perform, if_pos h]

/-- An expression is one node, or none starts here. -/
theorem expression_isNodeOf (h : Lasting budget (.expression power) s) :
    (reach grammar budget (.expression power) s).built = [.blank]
      ∨ IsNodeOf NodeKind.isExpression (reach grammar budget (.expression power) s).built := by
  cases budget with
  | zero => exact absurd h id
  | succ budget =>
    cases hs : startsExpression s with
    | false => exact .inl (by rw [expression_none budget power hs])
    | true =>
      have hchain := h.1 hs
      rw [expression_some budget power hs]
      exact .inr (chain_isNodeOf
        (fun _ _ _ hk => NodeKind.isExpression_of_isOperation (operatorLink?_isOperation hk))
        ((operand_isNodeOf hs hchain.1).mono fun _ => NodeKind.isExpression_of_isOperand) hchain)

end Rule

end CppMend
