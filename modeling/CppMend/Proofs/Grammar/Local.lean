import CppMend.Proofs.Grammar.Closers

/-!
# Rules before closing braces

* `Action.Local`        the action does the same with more closing braces behind the last one, if it
                        does not take everything;
* `Rule.Local`          no test of a rule depends on them;
* `Rule.perform_local`  then the rule does the same as well, if its goals do;
* `grammar_local`       every rule of the grammar is local;
* `reach_local`         so every goal does the same.
-/

namespace CppMend

/-- the outcome with more cues ahead -/
def Outcome.before (o : Outcome) (ts : List Cue) : Outcome := { o with ahead := o.ahead ++ ts }

/-! ## actions -/

namespace Action

/-- The action does the same with more closing braces behind the last one, if it does not take
everything. -/
def Local (ts : List Cue) (p : Action) : Prop :=
  ∀ s, IsShut s → (p s).ahead ≠ [] → p (s ++ ts) = (p s).before ts

variable {ts : List Cue} {p q : Action}

theorem ahead_ne_nil {s : List Cue} {o : Outcome} (ho : o.Fits s) (h : o.ahead ≠ []) : s ≠ [] := by
  rintro rfl
  rw [ho.rest, List.drop_nil] at h
  exact h rfl

theorem ahead_shut {s : List Cue} {o : Outcome} (ho : o.Fits s) (hs : IsShut s) (h : o.ahead ≠ []) :
    IsShut o.ahead := by
  rw [ho.rest] at h ⊢
  exact hs.drop h

theorem token_local : Local ts token := by
  intro s hs _
  cases s with
  | nil => exact absurd rfl hs.ne_nil
  | cons c s => rfl

theorem tokens_local {length : List Cue → Nat} {s : List Cue}
    (hl : length s < s.length → length (s ++ ts) = length s)
    (h : (tokens (length s) s).ahead ≠ []) :
    tokens (length (s ++ ts)) (s ++ ts) = (tokens (length s) s).before ts := by
  have hlt : length s < s.length :=
    Nat.lt_of_not_ge fun hge => h (List.drop_of_length_le hge)
  rw [hl hlt, tokens, tokens, Outcome.before, List.take_append_of_le_length (Nat.le_of_lt hlt),
    List.drop_append_of_le_length (Nat.le_of_lt hlt)]

theorem andThen_local (hp : Local ts p) (hq : Local ts q) (hpf : ∀ s, (p s).Fits s)
    (hqf : ∀ s, (q s).Fits s) : Local ts (andThen p q) := by
  intro s hs h
  rw [andThen] at h
  cases hl : (p s).leaving with
  | true =>
    rw [hl, if_pos rfl] at h
    rw [andThen, andThen, hp s hs h, Outcome.before, hl, if_pos rfl, if_pos rfl]
    exact congrArg _ hl.symm
  | false =>
    rw [hl, if_neg Bool.false_ne_true] at h
    have hahead : (p s).ahead ≠ [] := ahead_ne_nil (hqf _) h
    have hrest := hq _ (ahead_shut (hpf s) hs hahead) h
    rw [andThen, andThen, hp s hs hahead, Outcome.before, hl, if_neg Bool.false_ne_true,
      if_neg Bool.false_ne_true, hrest]
    rfl

theorem loop_local (hp : Local ts p) (hpf : ∀ s, (p s).Fits s) (turns : Nat) :
    Local ts (loop p turns) := by
  induction turns with
  | zero => exact fun s _ h => absurd rfl h
  | succ turns ih =>
    intro s hs h
    rw [loop] at h
    cases hl : (p s).leaving with
    | true =>
      rw [hl, if_pos rfl] at h
      rw [loop, loop, hp s hs h, Outcome.before, hl, if_pos rfl, if_pos rfl]
      rfl
    | false =>
      rw [hl, if_neg Bool.false_ne_true] at h
      have hahead : (p s).ahead ≠ [] := ahead_ne_nil (loop_fits hpf turns _) h
      have hrest := ih _ (ahead_shut (hpf s) hs hahead) h
      rw [loop, loop, hp s hs hahead, Outcome.before, hl, if_neg Bool.false_ne_true,
        if_neg Bool.false_ne_true, hrest]
      rfl

variable {link : List Cue → Option (NodeKind × Goal)} {call : Goal → Action}

theorem wrap_ahead_nil (hcf : CallsFit call) (turns : Nat) (built : List Outline) :
    (wrap link call turns built []).ahead = [] := by
  induction turns generalizing built with
  | zero => rfl
  | succ turns ih =>
    rw [wrap]
    split
    · rfl
    · next kind g _ =>
      have hcall : (call g []).ahead = [] := by rw [(hcf g []).rest, List.drop_nil]
      show (wrap link call turns _ (call g []).ahead).ahead = []
      rw [hcall]
      exact ih _

theorem wrap_local (hlink : Near link) (hts : Closers ts) (hc : ∀ g, Local ts (call g))
    (hcf : CallsFit call) (turns : Nat) (built : List Outline) :
    Local ts (wrap link call turns built) := by
  induction turns generalizing built with
  | zero => exact fun s _ h => absurd rfl h
  | succ turns ih =>
    intro s hs h
    rw [wrap] at h
    rw [wrap, wrap, hlink s ts hs hts]
    cases hk : link s with
    | none => rfl
    | some k =>
      obtain ⟨kind, g⟩ := k
      rw [hk] at h
      have hahead : (call g s).ahead ≠ [] := by
        intro hn
        refine h ?_
        show (wrap link call turns _ (call g s).ahead).ahead = []
        rw [hn]
        exact wrap_ahead_nil hcf turns _
      show wrap link call turns [.node kind (built ++ (call g (s ++ ts)).built)] (call g (s ++ ts)).ahead
        = _
      rw [hc g s hs hahead]
      exact ih _ _ (ahead_shut (hcf g s) hs hahead) h

end Action

/-! ## rules -/

namespace Rule

open CppMend.Action

/-- No test of the rule depends on what follows the last brace. -/
def Local : Rule → Prop
  | .tokens length => ∀ s ts, Closers ts → length s < s.length → length (s ++ ts) = length s
  | .node _ body | .loop body | .atLeastOne body => body.Local
  | .seq p q => p.Local ∧ q.Local
  | .branch test p q => Near test ∧ p.Local ∧ q.Local
  | .headed p kind q => Near kind ∧ p.Local ∧ q.Local
  | .chain head link => Near link ∧ head.Local
  | _ => True

variable {budget : Nat} {call : Goal → Action} {ts : List Cue}

section

variable {body yes no head tail : Rule}

theorem perform_branch_local {test : List Cue → Bool} (hts : Closers ts) (ht : Near test)
    (hyes : Action.Local ts (yes.perform budget call)) (hno : Action.Local ts (no.perform budget call)) :
    Action.Local ts ((branch test yes no).perform budget call) := by
  intro s hs h
  rw [perform] at h
  rw [perform, perform, ht s ts hs hts]
  split
  · next ht =>
    rw [if_pos ht] at h
    exact hyes s hs h
  · next ht =>
    rw [if_neg ht] at h
    exact hno s hs h

theorem perform_atLeastOne_local (hcf : CallsFit call) (hbody : Action.Local ts (body.perform budget call)) :
    Action.Local ts ((atLeastOne body).perform budget call) := by
  intro s hs h
  rw [perform] at h
  cases ha : Outline.anyToken (body.perform budget call s).built with
  | true =>
    rw [ha, if_pos rfl] at h
    rw [perform, perform, hbody s hs h, Outcome.before, ha, if_pos rfl, if_pos rfl]
    rfl
  | false =>
    rw [ha, if_neg Bool.false_ne_true] at h
    have hahead : (body.perform budget call s).ahead ≠ [] := ahead_ne_nil (token_fits _) h
    have htoken : Action.Local ts Action.token := token_local
    have hlast := htoken _ (ahead_shut (body.perform_fits hcf s) hs hahead) h
    rw [perform, perform, hbody s hs hahead, Outcome.before, ha, if_neg Bool.false_ne_true,
      if_neg Bool.false_ne_true, hlast]
    rfl

theorem perform_headed_local {kind : List Cue → NodeKind} (hts : Closers ts) (hcf : CallsFit call)
    (hk : Near kind) (hhead : Action.Local ts (head.perform budget call))
    (htail : Action.Local ts (tail.perform budget call)) :
    Action.Local ts ((headed head kind tail).perform budget call) := by
  intro s hs h
  have hahead : (head.perform budget call s).ahead ≠ [] :=
    ahead_ne_nil (tail.perform_fits hcf _) h
  have hshut := ahead_shut (head.perform_fits hcf s) hs hahead
  rw [perform, perform, hhead s hs hahead]
  show (⟨[.node (kind ((head.perform budget call s).ahead ++ ts)) (_ ++ (tail.perform budget call
    ((head.perform budget call s).ahead ++ ts)).built)], (tail.perform budget call
    ((head.perform budget call s).ahead ++ ts)).ahead, false⟩ : Outcome) = _
  rw [hk _ ts hshut hts, htail _ hshut h]
  rfl

theorem perform_chain_local {link : List Cue → Option (NodeKind × Goal)} (hts : Closers ts)
    (hc : ∀ g, Action.Local ts (call g)) (hcf : CallsFit call) (hl : Near link)
    (hhead : Action.Local ts (head.perform budget call)) :
    Action.Local ts ((chain head link).perform budget call) := by
  intro s hs h
  have hahead : (head.perform budget call s).ahead ≠ [] := by
    intro hn
    refine h ?_
    rw [perform]
    show (wrap link call budget _ (head.perform budget call s).ahead).ahead = []
    rw [hn]
    exact wrap_ahead_nil hcf budget _
  rw [perform, perform, hhead s hs hahead]
  exact wrap_local hl hts hc hcf budget _ _ (ahead_shut (head.perform_fits hcf s) hs hahead) h

end

/-- By induction on the rule: what it leaves is left by each of its parts, so that none takes the last
brace. -/
theorem perform_local (hts : Closers ts) (hc : ∀ g, Action.Local ts (call g)) (hcf : CallsFit call)
    {r : Rule} (hr : r.Local) : Action.Local ts (r.perform budget call) := by
  induction r with
  | nothing | leave | blank => exact fun _ _ _ => rfl
  | token => exact token_local
  | tokens length => exact fun s hs h => tokens_local (hr s ts hts) h
  | node kind body ih =>
    intro s hs h
    rw [perform, perform, ih hr s hs h]
    rfl
  | seq p q ihp ihq =>
    exact andThen_local (ihp hr.1) (ihq hr.2) (p.perform_fits hcf) (q.perform_fits hcf)
  | branch test yes no ihy ihn => exact perform_branch_local hts hr.1 (ihy hr.2.1) (ihn hr.2.2)
  | loop body ih => exact loop_local (ih hr) (body.perform_fits hcf) budget
  | atLeastOne body ih => exact perform_atLeastOne_local hcf (ih hr)
  | headed head kind tail ihh iht =>
    exact perform_headed_local hts hcf hr.1 (ihh hr.2.1) (iht hr.2.2)
  | chain head link ih => exact perform_chain_local hts hc hcf hr.1 (ih hr.2)
  | goal g =>
    intro s hs h
    rw [perform, perform, hc g s hs h]
    rfl

/-! ## the rules of the grammar -/

section

variable {p q : Rule}

@[simp] theorem local_nothing : nothing.Local := trivial

@[simp] theorem local_leave : leave.Local := trivial

@[simp] theorem local_blank : blank.Local := trivial

@[simp] theorem local_token : token.Local := trivial

@[simp] theorem local_goal (g : Goal) : (goal g).Local := trivial

@[simp] theorem local_node {kind : NodeKind} : (node kind p).Local ↔ p.Local := Iff.rfl

@[simp] theorem local_loop : (loop p).Local ↔ p.Local := Iff.rfl

@[simp] theorem local_atLeastOne : (atLeastOne p).Local ↔ p.Local := Iff.rfl

@[simp] theorem local_seq : (seq p q).Local ↔ p.Local ∧ q.Local := Iff.rfl

@[simp] theorem local_branch {test : List Cue → Bool} :
    (branch test p q).Local ↔ Near test ∧ p.Local ∧ q.Local := Iff.rfl

@[simp] theorem local_headed {kind : List Cue → NodeKind} :
    (headed p kind q).Local ↔ Near kind ∧ p.Local ∧ q.Local := Iff.rfl

@[simp] theorem local_chain {link : List Cue → Option (NodeKind × Goal)} :
    (chain p link).Local ↔ Near link ∧ p.Local := Iff.rfl

end

@[simp] theorem local_inOrder {rs : List Rule} : (inOrder rs).Local ↔ ∀ r ∈ rs, r.Local := by
  induction rs with
  | nil => exact ⟨fun _ _ hr => absurd hr List.not_mem_nil, fun _ => trivial⟩
  | cons r rs ih =>
    cases rs with
    | nil => simp [inOrder]
    | cons q rs =>
      rw [List.forall_mem_cons, ← ih]
      rfl

@[simp] theorem local_choose {cases : List ((List Cue → Bool) × Rule)} {r : Rule} :
    (choose cases r).Local ↔ (∀ c ∈ cases, Near c.1 ∧ c.2.Local) ∧ r.Local := by
  induction cases with
  | nil => simp [choose]
  | cons c cases ih =>
    rw [List.forall_mem_cons, and_assoc, ← ih, and_assoc]
    rfl

@[simp] theorem local_onlyIf {test : List Cue → Bool} {r : Rule} :
    (onlyIf test r).Local ↔ Near test ∧ r.Local := by
  simp [onlyIf]

@[simp] theorem local_whileTrue {test : List Cue → Bool} {r : Rule} :
    (whileTrue test r).Local ↔ Near test ∧ r.Local := by
  simp [whileTrue]

@[simp] theorem local_untilTrue {test : List Cue → Bool} {r : Rule} :
    (untilTrue test r).Local ↔ Near test ∧ r.Local := by
  simp [untilTrue]

/-! ### groups and stretches -/

open Lookahead

/-- a group that ends before the last brace -/
theorem spanFrom_append {b : Bracket} {depth : Nat} {s ts : List Cue}
    (h : b.spanFrom depth s < s.length) : b.spanFrom depth (s ++ ts) = b.spanFrom depth s := by
  induction s generalizing depth with
  | nil => exact absurd h (Nat.not_lt_zero _)
  | cons c s ih =>
    rw [Bracket.spanFrom, List.length_cons] at h
    rw [List.cons_append, Bracket.spanFrom, Bracket.spanFrom]
    split_ifs at h ⊢
    · rw [ih (Nat.lt_of_succ_lt_succ h)]
    · rfl
    · rfl
    · rw [ih (Nat.lt_of_succ_lt_succ h)]

/-- a line that ends before the last brace -/
theorem lineSpan_append {joined : Bool} {s ts : List Cue} (h : lineSpan joined s < s.length) :
    lineSpan joined (s ++ ts) = lineSpan joined s := by
  induction s generalizing joined with
  | nil => exact absurd h (Nat.not_lt_zero _)
  | cons c s ih =>
    rw [lineSpan, List.length_cons] at h
    rw [List.cons_append, lineSpan, lineSpan]
    split_ifs at h ⊢
    · rfl
    · rw [ih (Nat.lt_of_succ_lt_succ h)]

@[simp] theorem group_local (b : Bracket) : (group b).Local := fun _ _ _ h => spanFrom_append h

@[simp] theorem eat_local (k : TokenKind) : (eat k).Local := by simp [eat]

@[simp] theorem skipTo_local (ks : List TokenKind) : (skipTo ks).Local := by simp [skipTo]

@[simp] theorem toSemicolon_local : toSemicolon.Local := by simp [toSemicolon]

/-! ### types and names -/

@[simp] theorem qualifiedTypeName_local : qualifiedTypeName.Local := by
  simp [qualifiedTypeName]

@[simp] theorem typeRef_local : typeRef.Local := by simp [typeRef]

@[simp] theorem declaratorName_local : declaratorName.Local := by
  simp [declaratorName, operatorName]

@[simp] theorem templateParameterList_local : templateParameterList.Local := by
  simp [templateParameterList, templateParameter, templateStep]

@[simp] theorem directive_local : directive.Local :=
  ⟨Near.directiveKind, trivial, trivial, fun _ _ _ h => lineSpan_append h⟩

/-! ### expressions -/

@[simp] theorem expression_local : expression.Local := trivial

@[simp] theorem block_local : block.Local := by simp [block]

@[simp] theorem initList_local : initList.Local := by simp [initList]

@[simp] theorem argList_local : argList.Local := by simp [argList]

@[simp] theorem assignedValue_local : assignedValue.Local := by simp [assignedValue]

@[simp] theorem parameterList_local : parameterList.Local := by
  simp [parameterList, parameter]

@[simp] theorem lambda_local : lambda.Local := by simp [lambda]

@[simp] theorem nameRef_local : nameRef.Local := by simp [nameRef]

@[simp] theorem literal_local : literal.Local := by simp [literal]

@[simp] theorem primary_local : primary.Local := by simp [primary]

@[simp] theorem operand_local : operand.Local := by simp [operand]

@[simp] theorem expressionOf_local (power : Nat) : (expressionOf power).Local := by
  simp [expressionOf]

/-! ### declarations -/

@[simp] theorem functionRest_local : functionRest.Local := by
  simp [functionRest, memberInitializers]

@[simp] theorem constructor_local : constructor.Local := by simp [constructor]

@[simp] theorem declaratorSuffix_local (place : Place) : (declaratorSuffix place).Local := by
  simp [declaratorSuffix]

@[simp] theorem declarators_local (place : Place) : (declarators place).Local := by
  simp [declarators]

@[simp] theorem declaration_local (place : Place) : (declaration place).Local := by
  have hkind : Near fun s => if place ≠ .body && next .lParen s then NodeKind.functionDef else place.node :=
    Near.of_head fun _ _ _ => rfl
  exact ⟨hkind, by simp, by simp⟩

@[simp] theorem enumDef_local (alone : Bool) : (enumDef alone).Local := by
  cases alone <;> simp [enumDef, enumeratorList]

@[simp] theorem usingDef_local : usingDef.Local := toSemicolon_local

@[simp] theorem recordMember_local : recordMember.Local := by
  simp [recordMember, accessSpecifier]

@[simp] theorem fieldList_local : fieldList.Local := by simp [fieldList]

@[simp] theorem recordDef_local (alone : Bool) : (recordDef alone).Local := by
  have hkind : Near fun s => if next .kwClass s then NodeKind.classDef else .structDef :=
    Near.of_head fun _ _ _ => rfl
  refine ⟨hkind, trivial, ?_⟩
  cases alone <;> simp

@[simp] theorem typedefDef_local : typedefDef.Local := by simp [typedefDef]

@[simp] theorem itemList_local : itemList.Local := by simp [itemList, items]

@[simp] theorem item_local : Rule.item.Local := by
  simp [Rule.item, linkageSpec, namespaceDef, templateDef]

/-! ### statements -/

@[simp] theorem subStatement_local : subStatement.Local := by simp [subStatement]

@[simp] theorem condition_local : condition.Local := by simp [condition]

@[simp] theorem exprStmt_local : exprStmt.Local := by simp [exprStmt]

@[simp] theorem forStmt_local : forStmt.Local := by simp [forStmt, forHead]

@[simp] theorem statement_local : Rule.statement.Local := by
  simp [Rule.statement, returnStmt, ifStmt, conditioned, doStmt, caseStmt]

end Rule

open Rule in
theorem grammar_local (g : Goal) : (grammar g).Local := by
  cases g with
  | item => exact item_local
  | statement => exact statement_local
  | expression power => exact expressionOf_local power
  | operation power => simp [grammar, operation]
  | alternatives => simp [grammar, alternatives]
  | arguments => exact argList_local
  | subscript => simp [grammar, subscript]
  | member => simp [grammar, member]
  | step => trivial

/-- Every goal does the same with more closing braces behind the last one, if it does not take
everything. -/
theorem reach_local {ts : List Cue} (hts : Closers ts) (budget : Nat) (g : Goal) :
    Action.Local ts (reach grammar budget g) := by
  induction budget generalizing g with
  | zero => exact fun s _ h => absurd rfl h
  | succ budget ih => exact Rule.perform_local hts ih (reach_fits grammar budget) (grammar_local g)

end CppMend
