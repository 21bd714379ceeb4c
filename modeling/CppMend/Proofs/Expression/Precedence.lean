import CppMend.Proofs.Grammar.Sites
import CppMend.Proofs.Tree.Shapes

/-!
# Operators and how tightly they bind

An expression of some power leaves what binds at least as tightly to nobody else: it takes it. So an
operator that comes next after a whole operand binds less tightly than the operand asks for, and that
is why the operand may stand on its left. What stands on its right was read with its right power.

* `Tree.Shape.binding?`         how the operator of an operation binds;
* `Rule.Ranked`                 the operands of an operation are fit for it;
* `Rule.GoesOn`                 what an expression keeps while it is read;
* `Rule.expression_goesOn`      it is kept to the end, where no operator is left for it;
* `precedenceLaw_outline`       all operations in the outlines of a text are ranked.
-/

namespace CppMend

open Outline (Obey shapesAll)

namespace Outline

theorem shapesAll_append (os ps : List Outline) (ks : List TokenKind) :
    (shapesAll (os ++ ps) ks).1
      = (shapesAll os ks).1 ++ (shapesAll ps (ks.drop (sizes os))).1 := by
  induction os generalizing ks with
  | nil => rfl
  | cons o os ih =>
    rw [List.cons_append, shapesAll, shapesAll, ih, List.append_assoc, shapes_rest, List.drop_drop,
      sizes_cons]

/-- what is built after an outcome has its shape from the tokens that the outcome left -/
theorem shapesAll_append_of_fits {o : Outcome} {s : List Cue} (h : o.Fits s) (ps : List Outline) :
    (shapesAll (o.built ++ ps) (kindsOf s)).1
      = (shapesAll o.built (kindsOf s)).1 ++ (shapesAll ps (kindsOf o.ahead)).1 := by
  rw [shapesAll_append, h.rest, kindsOf_drop]

end Outline

/-! ## operations -/

namespace Tree.Shape

def isNode : Shape → Bool
  | .leaf _ => false
  | .node .. => true

/-- how the operator of an operation binds -/
def binding? : Shape → Option Rule.Binding
  | .node kind (_ :: .leaf k :: _) => if kind.isOperation then Rule.operatorBinding? k else none
  | _ => none

/-- the last part is an operand -/
def IsComplete : Shape → Prop
  | .leaf _ => False
  | .node _ parts => parts.getLast?.any isNode = true

theorem binding?_of_not_operation {kind : NodeKind} (h : kind.isOperation = false)
    (parts : List Shape) : (Shape.node kind parts).binding? = none := by
  unfold binding?
  split
  · next heq =>
    cases heq
    rw [h]
    rfl
  · rfl

/-- An operand that is read with some power. -/
def IsOperand (power : Nat) (e : Shape) : Prop :=
  e.isNode = true ∧ ∀ b, e.binding? = some b → power ≤ b.left

end Tree.Shape

namespace Rule

open Tree.Shape Lookahead

/-- The operands of an operation are fit for its operator. The left one, if it is complete, does not
go on with the operator, and the right one is read with the right power of the operator. -/
def Ranked (kind : NodeKind) (parts : List Tree.Shape) : Prop :=
  ∃ left k b rest, parts = left :: .leaf k :: rest ∧ operatorBinding? k = some b ∧ b.node = kind
    ∧ left.isNode = true ∧ (left.IsComplete → ∀ b', left.binding? = some b' → b.left < b'.right)
    ∧ (kind ≠ .conditionalExpr →
      ∃ right? : Option Tree.Shape, rest = right?.toList ∧ ∀ right ∈ right?, right.IsOperand b.right)

/-- all operations are ranked -/
def precedenceLaw : NodeLaw := fun kind parts ks =>
  kind.isOperation = true → Ranked kind (shapesAll parts ks).1

theorem precedenceLaw_of_not_operation (kind : NodeKind) (parts : List Outline) (ks : List TokenKind)
    (h : kind.isOperation = false) : precedenceLaw kind parts ks :=
  fun hk => absurd (h.symm.trans hk) Bool.false_ne_true

theorem precedenceLaw_of_not_linked (kind : NodeKind) (parts : List Outline) (ks : List TokenKind)
    (h : kind.isLinked = false) : precedenceLaw kind parts ks :=
  fun hk => absurd (h.symm.trans (NodeKind.isLinked_of_isOperation hk)) Bool.false_ne_true

/-! ## operands -/

variable {budget power : Nat} {call : Goal → Action} {ok : Goal → List Cue → Prop} {s : List Cue}

/-- the goals that are as `ok` says obey the law -/
def CallsRank (call : Goal → Action) (ok : Goal → List Cue → Prop) : Prop :=
  ∀ g t, ok g t → Obey precedenceLaw (call g t).built (kindsOf t)

/-- What comes after an operand makes no operation of it. -/
theorem precedenceLaw_of_operandLink {t : List Cue} {kind : NodeKind} {g : Goal}
    (h : operandLink? t = some (kind, g)) (parts : List Outline) (ks : List TokenKind) :
    precedenceLaw kind parts ks :=
  precedenceLaw_of_not_operation kind parts ks
    (NodeKind.isOperation_of_isOperand (operandLink?_isOperand h))

/-- The operations in an operand are ranked, for it is none itself. -/
theorem operand_ranks (hf : CallsFit call) (hc : CallsRank call ok)
    (hl : operand.Lasts budget call ok s) :
    Obey precedenceLaw (operand.perform budget call s).built (kindsOf s) :=
  operand_obeys precedenceLaw_of_not_linked hf hc
    (fun _ _ _ _ _ _ hk _ => precedenceLaw_of_operandLink hk _ _) hl

/-! ## expressions -/

/-- What is kept while an expression of some power is read: it is one operand so far, and if that is
complete, no operator comes next that goes on with its last operand. -/
structure GoesOn (budget power : Nat) (s : List Cue) (built : List Outline) (t : List Cue) : Prop where
  fits : (Outcome.mk built t false).Fits s
  operand : ∃ e : Tree.Shape, (shapesAll built (kindsOf s)).1 = [e] ∧ e.IsOperand power
    ∧ (e.IsComplete → ∀ b, e.binding? = some b → operatorLink? b.right t = none)
  ranked : CallsRank (reach grammar budget) (Lasting budget) → Obey precedenceLaw built (kindsOf s)

/-- a goal that is an operand: at most one node, after which no operator is left that binds as
tightly -/
def GivesOperand (power : Nat) (o : Outcome) (s : List Cue) : Prop :=
  ∃ operand? : Option Tree.Shape, (shapesAll o.built (kindsOf s)).1 = operand?.toList
    ∧ ∀ e ∈ operand?, e.IsOperand power ∧ operatorLink? power o.ahead = none

theorem GoesOn.givesOperand {o : Outcome} (h : GoesOn budget power s o.built o.ahead)
    (hn : operatorLink? power o.ahead = none) : GivesOperand power o s := by
  obtain ⟨e, hs, he, -⟩ := h.operand
  refine ⟨some e, hs, fun e' he' => ?_⟩
  cases he'
  exact ⟨he, hn⟩

/-- What the goal of a link builds: the operator, and then the operands behind it. -/
structure Continues (b : Binding) (c : Cue) (rest : List Tree.Shape) (o : Outcome) (t : List Cue) :
    Prop where
  shapes : (shapesAll o.built (kindsOf (c :: t))).1 = .leaf c.kind :: rest
  right : b.node ≠ .conditionalExpr →
    ∃ right? : Option Tree.Shape, rest = right?.toList ∧ ∀ right ∈ right?, right.IsOperand b.right
  closed : rest.getLast?.any isNode = true → operatorLink? b.right o.ahead = none

/-- under the budget, expressions are operands -/
def GivesOperands (budget : Nat) : Prop :=
  ∀ power t, Lasting budget (.expression power) t →
    GivesOperand power (reach grammar budget (.expression power) t) t

variable {b : Binding} {c : Cue} {t : List Cue}

theorem operation_continues (hg : GivesOperands budget)
    (hl : Lasting (budget + 1) (.operation b.right) (c :: t)) :
    ∃ rest, Continues b c rest (reach grammar (budget + 1) (.operation b.right) (c :: t)) t := by
  obtain ⟨operand?, hs, hop⟩ := hg b.right t (hl.2 rfl)
  refine ⟨operand?.toList, ?_, fun _ => ⟨operand?, rfl, fun e he => (hop e he).1⟩, ?_⟩
  · exact congrArg (Tree.Shape.leaf c.kind :: ·) hs
  · intro hlast
    cases operand? with
    | none => cases hlast
    | some e => exact (hop e rfl).2

/-- the `:` and the last operand of a conditional expression, if they are there -/
def lastAlternative : Rule :=
  onlyIf (next .colon) (inOrder [.token, .goal (.expression (conditionalPower - 1))])

/-- Either nothing comes after the operand in the middle, or the `:` does, and with the last operand
the expression is closed. -/
theorem lastAlternative_shapes (hg : GivesOperands budget)
    (hl : lastAlternative.Lasts budget (reach grammar budget) (Lasting budget) s) :
    let o := lastAlternative.perform budget (reach grammar budget) s
    o.built = [] ∧ o.ahead = s ∨ ∃ last? : Option Tree.Shape,
      (shapesAll o.built (kindsOf s)).1 = .leaf .colon :: last?.toList
        ∧ ∀ e ∈ last?, operatorLink? (conditionalPower - 1) o.ahead = none := by
  intro o
  cases hc : next .colon s with
  | false =>
    left
    have ho : o = ⟨[], s, false⟩ := by
      show perform budget _ (branch (next .colon) _ .nothing) s = _
      rw [perform, if_neg (by rw [hc]; exact Bool.false_ne_true)]
      rfl
    rw [ho]
    exact ⟨rfl, rfl⟩
  | true =>
    right
    cases s with
    | nil => cases hc
    | cons d s =>
      have hk : d.kind = .colon := of_decide_eq_true hc
      obtain ⟨last?, hs, hop⟩ := hg (conditionalPower - 1) s ((hl.1 hc).2 rfl)
      have ho : o = ⟨.token :: (reach grammar budget (.expression (conditionalPower - 1)) s).built,
          (reach grammar budget (.expression (conditionalPower - 1)) s).ahead, false⟩ := by
        show perform budget _ (branch (next .colon) _ .nothing) (d :: s) = _
        rw [perform, if_pos hc]
        rfl
      refine ⟨last?, ?_, fun e he => ?_⟩
      · rw [ho, ← hk]
        exact congrArg (Tree.Shape.leaf d.kind :: ·) hs
      · rw [ho]
        exact (hop e he).2

theorem alternatives_continue (hg : GivesOperands budget) (hb : b.node = .conditionalExpr)
    (hr : b.right = conditionalPower - 1) (hl : Lasting (budget + 1) .alternatives (c :: t)) :
    ∃ rest, Continues b c rest (reach grammar (budget + 1) .alternatives (c :: t)) t := by
  let middle := reach grammar budget (.expression 0) t
  let last := lastAlternative.perform budget (reach grammar budget) middle.ahead
  obtain ⟨hmiddle, hlast⟩ := hl.2 rfl
  have hlast : lastAlternative.Lasts budget (reach grammar budget) (Lasting budget) middle.ahead :=
    hlast rfl
  obtain ⟨middle?, hs, hop⟩ := hg 0 t hmiddle
  have hshapes : (shapesAll (.token :: (middle.built ++ last.built)) (kindsOf (c :: t))).1
      = .leaf c.kind :: (middle?.toList ++ (shapesAll last.built (kindsOf middle.ahead)).1) := by
    rw [← hs, ← Outline.shapesAll_append_of_fits (reach_fits grammar budget (.expression 0) t)]
    rfl
  have hahead : (reach grammar (budget + 1) .alternatives (c :: t)).ahead = last.ahead := rfl
  rcases lastAlternative_shapes hg hlast with ⟨ho, ha⟩ | ⟨last?, hs', hop'⟩
  · -- the middle operand is the last one
    refine ⟨middle?.toList, ?_, fun hn => absurd hb hn, fun h => ?_⟩
    · have hnone : (shapesAll last.built (kindsOf middle.ahead)).1 = [] := by
        rw [show last.built = [] from ho]
        rfl
      rw [hnone, List.append_nil] at hshapes
      exact hshapes
    · cases middle? with
      | none => cases h
      | some e =>
        rw [hahead, show last.ahead = middle.ahead from ha]
        exact operatorLink?_mono (hop e rfl).2 (Nat.zero_le _)
  · refine ⟨middle?.toList ++ .leaf .colon :: last?.toList, ?_, fun hn => absurd hb hn, fun h => ?_⟩
    · rw [show (shapesAll last.built (kindsOf middle.ahead)).1 = _ from hs'] at hshapes
      exact hshapes
    · cases last? with
      | none => simp [isNode] at h
      | some e =>
        rw [hahead, hr]
        exact hop' e rfl

/-- A link keeps what is kept. The operator binds more loosely than the operand before it asks for, if
that is complete, and so it does not go on with the operand. -/
theorem GoesOn.link (hg : ∀ n, n < budget → GivesOperands n) {built : List Outline} {kind : NodeKind}
    {g : Goal} (h : GoesOn budget power s built t) (hk : operatorLink? power t = some (kind, g))
    (hl : Lasting budget g t) : GoesOn budget power s
      [.node kind (built ++ (reach grammar budget g t).built)] (reach grammar budget g t).ahead := by
  obtain ⟨c, t, b, rfl, hb, hle, hnode, hgoal⟩ := operatorLink?_eq_some hk
  obtain ⟨rest, hrest⟩ : ∃ rest, Continues b c rest (reach grammar budget g (c :: t)) t := by
    cases budget with
    | zero => exact absurd hl id
    | succ n =>
      rcases hgoal with ⟨hkind, hright, rfl⟩ | ⟨-, rfl⟩
      · exact alternatives_continue (hg n (Nat.lt_succ_self n)) (hnode.trans hkind) hright hl
      · exact operation_continues (hg n (Nat.lt_succ_self n)) hl
  obtain ⟨e, he, hoperand, hclosed⟩ := h.operand
  have hparts : (shapesAll (built ++ (reach grammar budget g (c :: t)).built) (kindsOf s)).1
      = e :: .leaf c.kind :: rest := by
    have happ := Outline.shapesAll_append_of_fits h.fits (reach grammar budget g (c :: t)).built
    rw [he, hrest.shapes] at happ
    exact happ
  have hbinding : (Tree.Shape.node kind (e :: .leaf c.kind :: rest)).binding? = some b := by
    rw [binding?, ← hnode, if_pos (isOperation_of_binding hb), hb]
  refine ⟨(h.fits.append (b := false) (reach_fits grammar budget g (c :: t))).regroup rfl,
    ⟨.node kind (e :: .leaf c.kind :: rest), ?_, ⟨rfl, ?_⟩, ?_⟩, fun hc => ?_⟩
  · show [Tree.Shape.node kind (shapesAll (built ++ _) (kindsOf s)).1] = _
    rw [hparts]
  · intro b' hb'
    cases hbinding.symm.trans hb'
    exact hle
  · intro hcomplete b' hb'
    cases hbinding.symm.trans hb'
    refine hrest.closed ?_
    cases rest with
    | nil => simp [Tree.Shape.IsComplete, isNode] at hcomplete
    | cons r rest => simpa [Tree.Shape.IsComplete] using hcomplete
  · refine .node (fun _ => ?_) (Action.obey_append h.fits (h.ranked hc) (hc g _ hl))
    refine ⟨e, c.kind, b, rest, hparts, hb, hnode, hoperand.1, ?_, fun hkind => ?_⟩
    · intro hcomplete b' hb'
      exact operatorLink?_eq_none_iff.mp (hclosed hcomplete b' hb') c rfl b hb
    · exact hrest.right (hnode ▸ hkind)

/-- An expression goes on to its end: it is one operand, and no operator is left that it takes. -/
theorem expression_goesOn (budget : Nat) {power : Nat} {s : List Cue}
    (hl : Lasting (budget + 1) (.expression power) s) (hs : startsExpression s = true) :
    GoesOn budget power s (reach grammar (budget + 1) (.expression power) s).built
        (reach grammar (budget + 1) (.expression power) s).ahead
      ∧ operatorLink? power (reach grammar (budget + 1) (.expression power) s).ahead = none := by
  induction budget using Nat.strongRecOn generalizing power s with
  | ind budget ih =>
    have hg : ∀ n, n < budget → GivesOperands n := by
      intro n hn power t hl
      cases n with
      | zero => exact absurd hl id
      | succ n =>
        cases ht : startsExpression t with
        | true =>
          obtain ⟨hgoes, hend⟩ := ih n (by omega) hl ht
          exact hgoes.givesOperand hend
        | false =>
          rw [expression_none n power ht]
          exact ⟨none, rfl, nofun⟩
    have hf := reach_fits grammar budget
    have hchain := hl.1 hs
    obtain ⟨kind, parts, hbuilt, hkind⟩ := operand_isNodeOf hs hchain.1
    have hstart : GoesOn budget power s (operand.perform budget (reach grammar budget) s).built
        (operand.perform budget (reach grammar budget) s).ahead := by
      have hnone := binding?_of_not_operation (NodeKind.isOperation_of_isOperand hkind)
        (shapesAll parts (kindsOf s)).1
      refine ⟨(operand.perform_fits hf s).regroup rfl, ⟨.node kind (shapesAll parts (kindsOf s)).1, ?_,
        ⟨rfl, ?_⟩, ?_⟩, fun hc => operand_ranks hf hc hchain.1⟩
      · rw [hbuilt]
        rfl
      · intro b hb
        cases hnone.symm.trans hb
      · intro _ b hb
        cases hnone.symm.trans hb
    rw [expression_some budget power hs]
    exact Action.wrap_invariant (fun built t kind g h hk hok => h.link hg hk hok) hchain.2.2 hstart

end Rule

/-- All operations in the outlines of a text are ranked. -/
theorem precedenceLaw_outline (cs : List Cue) :
    Obey Rule.precedenceLaw (outline cs) (kindsOf cs) := by
  refine outline_obey_of_chains Rule.precedenceLaw_of_not_linked ?_ cs
  intro budget head link s hgoals hc hl ho
  have hf := reach_fits grammar budget
  cases hc with
  | operand =>
    exact Rule.chain_obeys (Q := fun _ => True) hf hgoals (fun _ _ _ _ _ => trivial)
      (fun _ _ _ _ _ _ hk _ => Rule.precedenceLaw_of_operandLink hk _ _) trivial ho hl
  | expression power hs =>
    have hlasting : Lasting (budget + 1) (.expression power) s :=
      ⟨fun _ => hl, fun h => absurd (hs.symm.trans h) (by decide)⟩
    have hgoes := (Rule.expression_goesOn budget hlasting hs).1
    rw [Rule.expression_some budget power hs] at hgoes
    exact hgoes.ranked hgoals

end CppMend
