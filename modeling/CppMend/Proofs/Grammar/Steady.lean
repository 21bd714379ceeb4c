import CppMend.Proofs.Grammar.Progress

/-!
# The constructs of the grammar get on

Each loop of the grammar takes a token or ends on each of its turns, and each item, statement and
expression that starts takes a token. Both are read off construct by construct.

* `typeRef_takes`, `item_takes`, `statement_takes`, `expressionOf_takes`   what takes a token where;
* `item_steady`, `statement_steady`   all loops of items and of statements get on;
* `reach_sound`                       the goals of the grammar take a token where they start.
-/

namespace CppMend

namespace Lookahead

variable {s : List Cue}

theorem ne_nil_of_next {k : TokenKind} (h : next k s = true) : s ≠ [] := by
  rintro rfl
  cases h

theorem ne_nil_of_nextIn {ks : List TokenKind} (h : nextIn ks s = true) : s ≠ [] := by
  rintro rfl
  cases h

theorem ne_nil_of_nextIs {p : TokenKind → Bool} (h : nextIs p s = true) : s ≠ [] := by
  rintro rfl
  cases h

theorem ne_nil_of_startsType (h : startsType s = true) : s ≠ [] := ne_nil_of_nextIs h

theorem ne_nil_of_startsExpression (h : startsExpression s = true) : s ≠ [] := ne_nil_of_nextIs h

theorem next_ident_of_nextIn (h : nextIn [.ident, .doubleColon] s = true)
    (hd : next .doubleColon s = false) : next .ident s = true := by
  cases s with
  | nil => cases h
  | cons c s =>
    have hk : c.kind ≠ .doubleColon := of_decide_eq_false hd
    have hm : c.kind = .ident ∨ c.kind = .doubleColon := by simpa [nextIn] using h
    exact decide_eq_true (hm.resolve_right hk)

/-- a group has its first bracket at least -/
theorem Bracket.span_pos (b : Bracket) (h : next b.opening s = true) : 0 < b.span s := by
  cases s with
  | nil => cases h
  | cons c s =>
    have hk : c.kind = b.opening := of_decide_eq_true h
    rw [span, spanFrom, if_pos hk]
    exact Nat.succ_pos _

/-- what a declaration starts with may start a type -/
theorem startsType_of_startsDeclaration (h : startsDeclaration s = true) :
    startsType s = true := by
  cases s with
  | nil => cases h
  | cons c s =>
    show (c.kind.isDeclSpecifier || c.kind.isBuiltinType || isTagWord c.kind
      || [.kwAuto, .ident, .doubleColon].contains c.kind) = true
    cases hd : c.kind.isDeclSpecifier with
    | true => rfl
    | false =>
      have hw : (c :: s).dropWhile (·.kind.isDeclSpecifier) = c :: s := by
        rw [List.dropWhile_cons, if_neg (by rw [hd]; exact Bool.false_ne_true)]
      rw [startsDeclaration, typeEnd?, hw] at h
      cases hn : afterTypeName? (c :: s) with
      | none =>
        rw [hn] at h
        cases h
      | some t =>
        rw [afterTypeName?] at hn
        cases hb : c.kind.isBuiltinType with
        | true => rfl
        | false =>
          cases ht : isTagWord c.kind with
          | true => rfl
          | false =>
            rw [hb, ht] at hn
            by_cases ha : c.kind = .kwAuto
            · rw [ha]
              rfl
            · by_cases hi : c.kind = .ident
              · rw [hi]
                rfl
              · by_cases hc : c.kind = .doubleColon
                · rw [hc]
                  rfl
                · rw [if_neg ha, if_neg hi, if_neg hc] at hn
                  cases hn

end Lookahead

namespace Rule

open Lookahead

variable {budget : Nat} {call : Goal → Action} {s : List Cue}

/-! ## tokens and groups -/

theorem eat_steady (k : TokenKind) : (eat k).Steady budget call := ⟨trivial, trivial⟩

theorem eat_takes {k : TokenKind} (h : next k s = true) : (eat k).Takes budget call s :=
  branch_takes (fun _ => token_takes (ne_nil_of_next h)) fun hf => absurd (h.symm.trans hf) (by decide)

theorem group_takes (b : Bracket) (h : next b.opening s = true) :
    (group b).Takes budget call s :=
  tokens_takes (ne_nil_of_next h) (b.span_pos h)

theorem skipTo_steady (ks : List TokenKind) : (skipTo ks).Steady budget call :=
  steady_untilTrue rfl trivial fun _ hs _ => (token_takes hs).turns

/-- a loop that takes tokens of some kind -/
theorem whileTrue_token_steady {test : List Cue → Bool} (he : test [] = false) :
    (whileTrue test token).Steady budget call :=
  steady_whileTrue he trivial fun _ hs _ => (token_takes hs).turns

theorem stretch_takes (hs : s ≠ []) :
    (choose [(next .lBrace, group .brace), (next .lParen, group .paren)] token).Takes
      budget call s :=
  branch_takes (group_takes .brace) fun _ => branch_takes (group_takes .paren) fun _ =>
    token_takes hs

theorem toSemicolon_steady : toSemicolon.Steady budget call := by
  refine ⟨?_, eat_steady .semicolon⟩
  exact steady_untilTrue rfl ⟨trivial, trivial, trivial⟩ fun _ hs _ => (stretch_takes hs).turns

/-- A stretch up to a `;` has a token, unless a `}` comes first. -/
theorem toSemicolon_takes (hc : CallsSound call) (hs : s ≠ []) (h : next .rBrace s = false) :
    toSemicolon.Takes budget call s := by
  cases he : endOr [.semicolon, .rBrace] s with
  | false => exact seq_takes_left (untilTrue_takes hs he (stretch_takes hs))
  | true =>
    refine seq_takes_right hc rfl (eat_takes ?_)
    cases s with
    | nil => exact absurd rfl hs
    | cons c s =>
      have hk : c.kind ≠ .rBrace := of_decide_eq_false h
      have hm : c.kind = .semicolon ∨ c.kind = .rBrace := by simpa [endOr] using he
      exact decide_eq_true (hm.resolve_right hk)

/-- a word and the tokens up to a `;` -/
theorem stretchNode_takes (hc : CallsSound call) {k : TokenKind} (hk : k ≠ .rBrace) {kind : NodeKind}
    (h : next k s = true) : (node kind toSemicolon).Takes budget call s := by
  have hs := ne_nil_of_next h
  refine node_takes (toSemicolon_takes hc hs ?_)
  cases s with
  | nil => exact absurd rfl hs
  | cons c s =>
    have hk' : c.kind = k := of_decide_eq_true h
    exact decide_eq_false (by rw [hk']; exact hk)

/-! ## types and declared names -/

theorem qualifiedTypeName_steady (hc : CallsSound call) : qualifiedTypeName.Steady budget call := by
  refine ⟨eat_steady .doubleColon, ?_⟩
  refine steady_whileTrue rfl ⟨trivial, ⟨trivial, trivial⟩, trivial, trivial⟩ ?_
  intro t ht _
  exact turns_of_moves hc rfl ht

theorem typeRef_steady (hc : CallsSound call) : typeRef.Steady budget call := by
  refine ⟨whileTrue_token_steady rfl, ?_, whileTrue_token_steady rfl⟩
  have hq : qualifiedTypeName.Steady budget call := qualifiedTypeName_steady hc
  exact ⟨whileTrue_token_steady rfl, trivial, ⟨trivial, hq⟩, hq, trivial⟩

theorem qualifiedTypeName_takes (hc : CallsSound call) (h : nextIn [.ident, .doubleColon] s = true) :
    qualifiedTypeName.Takes budget call s := by
  have hs := ne_nil_of_nextIn h
  cases hi : next .doubleColon s with
  | true => exact seq_takes_left (eat_takes hi)
  | false =>
    exact seq_takes_right hc rfl
      (whileTrue_takes hs (next_ident_of_nextIn h hi) (takes_of_sure hc rfl hs))

/-- A type takes a token where one may start. -/
theorem typeRef_takes (hc : CallsSound call) (h : startsType s = true) : typeRef.Takes budget call s := by
  have hs := ne_nil_of_startsType h
  refine node_takes ?_
  cases hd : nextIs TokenKind.isDeclSpecifier s with
  | true => exact seq_takes_left (whileTrue_takes hs hd (token_takes hs))
  | false =>
    refine seq_takes_right hc rfl (seq_takes_left ?_)
    refine branch_takes (fun hb => whileTrue_takes hs hb (token_takes hs)) fun hb => ?_
    refine branch_takes (fun _ => token_takes hs) fun ha => ?_
    refine branch_takes (fun _ => seq_takes_left (token_takes hs)) fun ht => ?_
    refine branch_takes (fun hq => qualifiedTypeName_takes hc hq) fun hq => ?_
    -- no other token starts a type
    cases s with
    | nil => exact absurd rfl hs
    | cons c s =>
      simp_all [startsType, nextIs, nextIn, next]

theorem operatorName_steady : operatorName.Steady budget call :=
  ⟨trivial, ⟨trivial, eat_steady .rParen⟩, skipTo_steady [.lParen]⟩

theorem declaratorName_steady (hc : CallsSound call) : declaratorName.Steady budget call := by
  refine ⟨operatorName_steady, ⟨⟨trivial, trivial⟩, trivial, trivial⟩, ?_⟩
  intro t
  cases t with
  | nil => exact Or.inl rfl
  | cons c t => exact turns_of_moves hc rfl (List.cons_ne_nil c t)

/-! ## template parameters and directives -/

theorem templateStep_takes (hs : s ≠ []) : templateStep.Takes budget call s :=
  branch_takes (group_takes .angle) fun _ => branch_takes (group_takes .paren) fun _ =>
    token_takes hs

theorem templateParameter_steady : templateParameter.Steady budget call :=
  ⟨⟨trivial, trivial, trivial⟩, steady_untilTrue rfl ⟨trivial, trivial, trivial⟩
    fun _ hs _ => (templateStep_takes hs).turns⟩

theorem templateParameter_takes (hs : s ≠ []) : templateParameter.Takes budget call s :=
  node_takes (seq_takes_left (templateStep_takes hs))

theorem templateParameterList_steady : templateParameterList.Steady budget call := by
  refine ⟨trivial, steady_untilTrue rfl ⟨templateParameter_steady, trivial, trivial⟩ ?_,
    eat_steady .greater⟩
  intro t ht _
  exact seq_turns_left (templateParameter_takes ht).turns

theorem directive_steady : directive.Steady budget call := ⟨trivial, trivial, trivial⟩

/-! ## parts of expressions -/

theorem statement_goal_takes (hc : CallsSound call) (hs : s ≠ []) :
    (goal .statement).Takes budget call s :=
  goal_takes hc (by cases s <;> trivial)

theorem block_steady (hc : CallsSound call) : block.Steady budget call := by
  refine ⟨trivial, steady_untilTrue rfl ⟨trivial, ?_⟩ ?_, eat_steady .rBrace⟩
  · intro t ht
    exact Or.inr (statement_goal_takes hc ht)
  · intro t ht _
    exact (atLeastOne_takes hc ht).turns

theorem expression_takes (hc : CallsSound call) (h : startsExpression s = true) : expression.Takes budget call s :=
  goal_takes hc h

theorem initList_steady (hc : CallsSound call) : initList.Steady budget call := by
  refine ⟨trivial, steady_untilTrue rfl ?_ ?_, skipTo_steady [.rBrace], eat_steady .rBrace⟩
  · exact ⟨⟨⟨trivial, eat_steady .ident, eat_steady .equal⟩, trivial⟩, ⟨trivial, trivial⟩,
      trivial, trivial⟩
  · intro t ht _
    refine seq_turns_right hc (seq_turns_left (Takes.turns ?_))
    exact branch_takes (expression_takes hc) fun _ => token_takes ht

theorem argList_steady (hc : CallsSound call) : argList.Steady budget call := by
  refine ⟨trivial, steady_untilTrue rfl ?_ ?_, skipTo_steady [.rParen, .lBrace, .semicolon],
    eat_steady .rParen⟩
  · exact ⟨⟨trivial, trivial, trivial⟩, ⟨trivial, trivial⟩, trivial⟩
  · intro t ht _
    refine branch_turns (fun h => seq_turns_left (expression_takes hc h).turns) fun _ => ?_
    exact turns_of_moves hc rfl ht

theorem assignedValue_steady : assignedValue.Steady budget call := ⟨trivial, trivial⟩

/-- one part of a parameter after its type -/
theorem parameterStep_takes (hc : CallsSound call) (hs : s ≠ []) :
    (choose [(next .equal, assignedValue), (next .lParen, group .paren),
      (next .lBracket, group .square)] token).Takes budget call s :=
  branch_takes (fun _ => takes_of_sure hc rfl hs) fun _ =>
    branch_takes (group_takes .paren) fun _ => branch_takes (group_takes .square) fun _ =>
      token_takes hs

theorem parameter_steady (hc : CallsSound call) : parameter.Steady budget call := by
  refine ⟨⟨⟨⟨typeRef_steady hc, eat_steady .ident⟩, trivial⟩, steady_untilTrue rfl ?_ ?_⟩, ?_⟩
  · exact ⟨assignedValue_steady, trivial, trivial, trivial⟩
  · intro t ht _
    exact (parameterStep_takes hc ht).turns
  · intro t ht
    cases hy : startsType t with
    | true =>
      right
      exact seq_takes_left (branch_takes (fun _ => seq_takes_left (typeRef_takes hc hy))
        fun hf => absurd (hy.symm.trans hf) (by decide))
    | false =>
      have ho : (onlyIf startsType (inOrder [typeRef, eat .ident])).perform budget call t
          = ⟨[], t, false⟩ := if_neg (by rw [hy]; exact Bool.false_ne_true)
      cases he : endOr [.comma, .rParen, .lBrace, .semicolon] t with
      | true =>
        rcases untilTrue_idle ht he with hb | hb
        · left
          rw [inOrder, seq_built (by rw [ho]), ho]
          · exact hb
          · exact List.cons_ne_nil _ _
        · exact Or.inr (seq_takes_right hc rfl hb)
      | false =>
        right
        exact seq_takes_right hc rfl (untilTrue_takes ht he (parameterStep_takes hc ht))

theorem parameterList_steady (hc : CallsSound call) : parameterList.Steady budget call := by
  refine ⟨trivial, steady_untilTrue rfl ⟨parameter_steady hc, trivial, trivial⟩ ?_,
    skipTo_steady [.rParen, .lBrace, .semicolon], eat_steady .rParen⟩
  intro t ht _
  exact turns_of_moves hc rfl ht

theorem lambda_steady (hc : CallsSound call) : lambda.Steady budget call :=
  ⟨trivial, ⟨parameterList_steady hc, trivial⟩, skipTo_steady [.lBrace, .semicolon, .rParen],
    block_steady hc, trivial⟩

/-! ## operands -/

theorem nameRef_steady (hc : CallsSound call) : nameRef.Steady budget call := by
  refine ⟨eat_steady .doubleColon, steady_whileTrue rfl ?_ ?_⟩
  · exact ⟨trivial, ⟨trivial, trivial⟩, ⟨trivial, eat_steady .tilde⟩, trivial⟩
  · intro t ht _
    exact turns_of_moves hc rfl ht

theorem nameRef_takes (hc : CallsSound call) (h : nextIn [.ident, .doubleColon] s = true) :
    nameRef.Takes budget call s := by
  have hs := ne_nil_of_nextIn h
  refine node_takes ?_
  cases hi : next .doubleColon s with
  | true => exact seq_takes_left (eat_takes hi)
  | false =>
    exact seq_takes_right hc rfl
      (whileTrue_takes hs (next_ident_of_nextIn h hi) (takes_of_sure hc rfl hs))

theorem literal_steady : literal.Steady budget call := ⟨whileTrue_token_steady rfl, trivial⟩

theorem literal_takes (hs : s ≠ []) : literal.Takes budget call s :=
  node_takes (branch_takes (fun h => whileTrue_takes hs h (token_takes hs)) fun _ =>
    token_takes hs)

theorem primary_steady (hc : CallsSound call) : primary.Steady budget call :=
  ⟨literal_steady, nameRef_steady hc, trivial, ⟨trivial, trivial, eat_steady .rParen⟩,
    initList_steady hc, lambda_steady hc, trivial⟩

/-- An operand without operators before it takes a token where an expression starts with none. -/
theorem primary_takes (hc : CallsSound call) (h : startsExpression s = true)
    (hp : nextIs isPrefixOperator s = false) : primary.Takes budget call s := by
  have hs := ne_nil_of_startsExpression h
  refine branch_takes (fun _ => literal_takes hs) fun hl => ?_
  refine branch_takes (fun hn => nameRef_takes hc hn) fun hn => ?_
  refine branch_takes (fun _ => token_takes hs) fun hb => ?_
  refine branch_takes (fun _ => takes_of_sure hc rfl hs) fun hr => ?_
  refine branch_takes (fun _ => takes_of_sure hc rfl hs) fun hi => ?_
  refine branch_takes (fun hq => seq_takes_left (group_takes .square hq)) fun hq => ?_
  -- no other token starts an expression
  cases s with
  | nil => exact absurd rfl hs
  | cons c s =>
    simp_all [startsExpression, nextIs, nextIn, next]

theorem operand_takes (hc : CallsSound call) (h : startsExpression s = true) :
    operand.Takes budget call s := by
  have hs := ne_nil_of_startsExpression h
  refine branch_takes (fun _ => takes_of_sure hc rfl hs) fun hp => ?_
  refine branch_takes (fun _ => takes_of_sure hc rfl hs) fun _ => ?_
  exact chain_takes (primary_takes hc h hp)

theorem expressionOf_takes (hc : CallsSound call) (power : Nat) (h : startsExpression s = true) :
    (expressionOf power).Takes budget call s :=
  branch_takes (fun _ => chain_takes (operand_takes hc h)) fun hf =>
    absurd (h.symm.trans hf) (by decide)

/-! ## declarations -/

theorem memberInitializers_steady (hc : CallsSound call) :
    memberInitializers.Steady budget call := by
  refine ⟨⟨whileTrue_token_steady rfl, ⟨trivial, trivial, trivial⟩, trivial, trivial⟩, ?_⟩
  intro t
  refine seq_turns_right hc (seq_turns_left ?_)
  refine branch_turns (fun h => (group_takes .paren h).turns) fun _ => ?_
  exact branch_turns (fun h => (group_takes .brace h).turns) fun _ => leave_turns

theorem functionRest_steady (hc : CallsSound call) : functionRest.Steady budget call := by
  refine ⟨⟨⟨block_steady hc, trivial⟩, ⟨trivial, trivial⟩, trivial,
    ⟨trivial, memberInitializers_steady hc⟩, ⟨toSemicolon_steady, trivial⟩, trivial, trivial⟩, ?_⟩
  intro t
  cases t with
  | nil => exact Or.inl rfl
  | cons c t =>
    have ht := List.cons_ne_nil c t
    refine branch_turns (fun _ => turns_of_moves hc rfl ht) fun _ => ?_
    refine branch_turns (fun _ => turns_of_moves hc rfl ht) fun _ => ?_
    refine branch_turns (fun _ => leave_turns) fun _ => ?_
    refine branch_turns (fun _ => turns_of_moves hc rfl ht) fun _ => ?_
    refine branch_turns (fun _ => seq_turns_right hc leave_turns) fun _ => ?_
    exact branch_turns (fun h => (group_takes .paren h).turns) fun _ => (token_takes ht).turns

theorem constructor_steady (hc : CallsSound call) : constructor.Steady budget call :=
  ⟨skipTo_steady [.lParen], parameterList_steady hc, functionRest_steady hc⟩

theorem declaratorSuffix_steady (hc : CallsSound call) (place : Place) :
    (declaratorSuffix place).Steady budget call := by
  refine ⟨steady_whileTrue rfl trivial ?_, ⟨⟨trivial, trivial⟩, trivial⟩,
    assignedValue_steady, initList_steady hc, argList_steady hc, trivial⟩
  intro t _ h
  exact (group_takes .square h).turns

theorem declarators_steady (hc : CallsSound call) (place : Place) :
    (declarators place).Steady budget call := by
  have hd : (declaratorSuffix place).Steady budget call := declaratorSuffix_steady hc place
  refine ⟨hd, steady_whileTrue rfl ?_ ?_, ⟨trivial, trivial⟩, toSemicolon_steady⟩
  · exact ⟨trivial, whileTrue_token_steady rfl, declaratorName_steady hc, hd⟩
  · intro t ht _
    exact turns_of_moves hc rfl ht

theorem declaration_steady (hc : CallsSound call) (place : Place) :
    (declaration place).Steady budget call :=
  ⟨⟨typeRef_steady hc, declaratorName_steady hc⟩,
    ⟨parameterList_steady hc, functionRest_steady hc⟩, declarators_steady hc place⟩

theorem declaration_takes (hc : CallsSound call) (place : Place)
    (h : startsDeclaration s = true) : (declaration place).Takes budget call s :=
  headed_takes_left (seq_takes_left (typeRef_takes hc (startsType_of_startsDeclaration h)))

/-! ## enumerations and records -/

theorem enumeratorList_steady (hc : CallsSound call) : enumeratorList.Steady budget call := by
  refine ⟨trivial, steady_whileTrue rfl ?_ ?_, skipTo_steady [.rBrace], eat_steady .rBrace⟩
  · exact ⟨⟨trivial, ⟨trivial, trivial⟩, trivial⟩, trivial, trivial⟩
  · intro t ht _
    exact turns_of_moves hc rfl ht

theorem enumDef_steady (hc : CallsSound call) (alone : Bool) :
    (enumDef alone).Steady budget call := by
  refine ⟨trivial, ⟨trivial, trivial⟩, eat_steady .ident, ⟨⟨trivial, typeRef_steady hc⟩, trivial⟩,
    ⟨enumeratorList_steady hc, trivial⟩, ?_⟩
  cases alone with
  | true => exact toSemicolon_steady
  | false => trivial

theorem recordMember_steady (hc : CallsSound call) : recordMember.Steady budget call :=
  ⟨⟨trivial, trivial⟩, toSemicolon_steady, constructor_steady hc, declaration_steady hc .record,
    trivial⟩

theorem recordMember_takes (hc : CallsSound call) (hs : s ≠ []) :
    recordMember.Takes budget call s := by
  refine branch_takes (fun _ => takes_of_sure hc rfl hs) fun _ => ?_
  refine branch_takes (fun h => stretchNode_takes hc (by decide) h) fun _ => ?_
  refine branch_takes (fun _ => takes_of_sure hc rfl hs) fun _ => ?_
  refine branch_takes (fun h => declaration_takes hc .record h) fun _ => ?_
  exact goal_takes hc (by cases s <;> trivial)

theorem fieldList_steady (hc : CallsSound call) : fieldList.Steady budget call := by
  refine ⟨trivial, steady_untilTrue rfl ⟨recordMember_steady hc, ?_⟩ ?_, eat_steady .rBrace⟩
  · intro t ht
    exact Or.inr (recordMember_takes hc ht)
  · intro t ht _
    exact (atLeastOne_takes hc ht).turns

theorem recordDef_steady (hc : CallsSound call) (alone : Bool) :
    (recordDef alone).Steady budget call := by
  refine ⟨trivial, trivial, eat_steady .ident,
    ⟨⟨trivial, skipTo_steady [.lBrace, .semicolon]⟩, trivial⟩, ⟨fieldList_steady hc, trivial⟩, ?_⟩
  cases alone with
  | true => exact toSemicolon_steady
  | false => trivial

/-! ## items -/

theorem typedefDef_steady (hc : CallsSound call) : typedefDef.Steady budget call :=
  ⟨trivial, ⟨recordDef_steady hc false, enumDef_steady hc false, typeRef_steady hc⟩,
    toSemicolon_steady⟩

theorem item_goal_takes (hc : CallsSound call) (hs : s ≠ []) :
    (goal .item).Takes budget call s :=
  goal_takes hc (by cases s <;> trivial)

theorem items_steady (hc : CallsSound call) (closers : List TokenKind) :
    (items closers).Steady budget call := by
  refine steady_untilTrue rfl ⟨trivial, ?_⟩ ?_
  · intro t ht
    exact Or.inr (item_goal_takes hc ht)
  · intro t ht _
    exact (atLeastOne_takes hc ht).turns

theorem itemList_steady (hc : CallsSound call) : itemList.Steady budget call :=
  ⟨trivial, items_steady hc [.rBrace], eat_steady .rBrace⟩

theorem linkageSpec_steady (hc : CallsSound call) : linkageSpec.Steady budget call :=
  ⟨trivial, trivial, itemList_steady hc, trivial⟩

theorem namespaceDef_steady (hc : CallsSound call) : namespaceDef.Steady budget call :=
  ⟨trivial, whileTrue_token_steady rfl, itemList_steady hc, toSemicolon_steady⟩

theorem templateDef_steady (hc : CallsSound call) : templateDef.Steady budget call := by
  refine ⟨trivial, ⟨templateParameterList_steady, trivial⟩, ⟨trivial, ?_⟩, trivial⟩
  intro t ht
  exact Or.inr (item_goal_takes hc ht)

theorem item_steady (hc : CallsSound call) : item.Steady budget call :=
  ⟨directive_steady, trivial, templateDef_steady hc, namespaceDef_steady hc, toSemicolon_steady,
    typedefDef_steady hc, linkageSpec_steady hc, recordDef_steady hc true, enumDef_steady hc true,
    constructor_steady hc, declaration_steady hc .file, trivial⟩

/-- An item takes a token wherever there is one. -/
theorem item_takes (hc : CallsSound call) (hs : s ≠ []) : item.Takes budget call s := by
  refine branch_takes (fun _ => takes_of_sure hc rfl hs) fun _ => ?_
  refine branch_takes (fun _ => takes_of_sure hc rfl hs) fun _ => ?_
  refine branch_takes (fun _ => takes_of_sure hc rfl hs) fun _ => ?_
  refine branch_takes (fun _ => takes_of_sure hc rfl hs) fun _ => ?_
  refine branch_takes (fun h => stretchNode_takes hc (by decide) h) fun _ => ?_
  refine branch_takes (fun _ => takes_of_sure hc rfl hs) fun _ => ?_
  refine branch_takes (fun _ => takes_of_sure hc rfl hs) fun _ => ?_
  refine branch_takes (fun _ => takes_of_sure hc rfl hs) fun _ => ?_
  refine branch_takes (fun _ => takes_of_sure hc rfl hs) fun _ => ?_
  refine branch_takes (fun _ => takes_of_sure hc rfl hs) fun _ => ?_
  exact branch_takes (fun h => declaration_takes hc .file h) fun _ => token_takes hs

/-! ## statements -/

theorem subStatement_steady : subStatement.Steady budget call := ⟨trivial, trivial⟩

theorem condition_steady (hc : CallsSound call) : condition.Steady budget call := by
  refine ⟨⟨trivial, ⟨?_, trivial⟩, steady_untilTrue rfl ⟨trivial, trivial⟩ ?_,
    eat_steady .rParen⟩, trivial⟩
  · exact ⟨typeRef_steady hc, declaratorName_steady hc, declaratorSuffix_steady hc .body⟩
  · intro t ht _
    exact branch_turns (fun h => (group_takes .paren h).turns) fun _ => (token_takes ht).turns

theorem ifStmt_steady (hc : CallsSound call) : ifStmt.Steady budget call :=
  ⟨trivial, eat_steady .kwConstexpr, condition_steady hc, subStatement_steady,
    ⟨trivial, subStatement_steady⟩, trivial⟩

theorem conditioned_steady (hc : CallsSound call) (kind : NodeKind) :
    (conditioned kind).Steady budget call :=
  ⟨trivial, condition_steady hc, subStatement_steady⟩

theorem doStmt_steady (hc : CallsSound call) : doStmt.Steady budget call :=
  ⟨trivial, subStatement_steady, ⟨⟨trivial, condition_steady hc⟩, trivial⟩, eat_steady .semicolon⟩

theorem exprStmt_steady : exprStmt.Steady budget call :=
  ⟨⟨trivial, trivial, trivial⟩, eat_steady .semicolon⟩

theorem forStmt_steady (hc : CallsSound call) : forStmt.Steady budget call := by
  refine ⟨trivial, ⟨⟨trivial, ?_⟩, trivial⟩, subStatement_steady⟩
  exact ⟨⟨declaration_steady hc .body, exprStmt_steady⟩, ⟨trivial, trivial⟩,
    eat_steady .semicolon, ⟨trivial, trivial⟩, skipTo_steady [.rParen, .lBrace],
    eat_steady .rParen⟩

theorem caseStmt_steady : caseStmt.Steady budget call :=
  ⟨⟨⟨trivial, trivial⟩, trivial⟩, eat_steady .colon⟩

theorem returnStmt_steady : returnStmt.Steady budget call :=
  ⟨trivial, ⟨trivial, trivial⟩, toSemicolon_steady⟩

theorem statement_steady (hc : CallsSound call) : statement.Steady budget call :=
  ⟨block_steady hc, directive_steady, returnStmt_steady, ifStmt_steady hc,
    conditioned_steady hc .whileStmt, doStmt_steady hc, forStmt_steady hc,
    conditioned_steady hc .switchStmt, caseStmt_steady, toSemicolon_steady, toSemicolon_steady,
    toSemicolon_steady, toSemicolon_steady, typedefDef_steady hc, recordDef_steady hc true,
    enumDef_steady hc true, declaration_steady hc .body, exprStmt_steady⟩

theorem exprStmt_takes (hc : CallsSound call) (hs : s ≠ []) : exprStmt.Takes budget call s := by
  refine node_takes ?_
  cases h : next .semicolon s with
  | true => exact seq_takes_right hc rfl (eat_takes h)
  | false =>
    refine seq_takes_left (branch_takes (fun hf => absurd (h.symm.trans hf) (by decide)) fun _ => ?_)
    exact branch_takes (fun he => expression_takes hc he) fun _ => token_takes hs

/-- A statement takes a token wherever there is one. -/
theorem statement_takes (hc : CallsSound call) (hs : s ≠ []) :
    statement.Takes budget call s := by
  refine branch_takes (fun _ => takes_of_sure hc rfl hs) fun _ => ?_
  refine branch_takes (fun _ => takes_of_sure hc rfl hs) fun _ => ?_
  refine branch_takes (fun _ => takes_of_sure hc rfl hs) fun _ => ?_
  refine branch_takes (fun _ => takes_of_sure hc rfl hs) fun _ => ?_
  refine branch_takes (fun _ => takes_of_sure hc rfl hs) fun _ => ?_
  refine branch_takes (fun _ => takes_of_sure hc rfl hs) fun _ => ?_
  refine branch_takes (fun _ => takes_of_sure hc rfl hs) fun _ => ?_
  refine branch_takes (fun _ => takes_of_sure hc rfl hs) fun _ => ?_
  refine branch_takes (fun _ => takes_of_sure hc rfl hs) fun _ => ?_
  refine branch_takes (fun h => stretchNode_takes hc (by decide) h) fun _ => ?_
  refine branch_takes (fun h => stretchNode_takes hc (by decide) h) fun _ => ?_
  refine branch_takes (fun h => stretchNode_takes hc (by decide) h) fun _ => ?_
  refine branch_takes (fun h => stretchNode_takes hc (by decide) h) fun _ => ?_
  refine branch_takes (fun _ => takes_of_sure hc rfl hs) fun _ => ?_
  refine branch_takes (fun _ => takes_of_sure hc rfl hs) fun _ => ?_
  refine branch_takes (fun _ => takes_of_sure hc rfl hs) fun _ => ?_
  exact branch_takes (fun h => declaration_takes hc .body h) fun _ => exprStmt_takes hc hs

end Rule

/-! ## the goals -/

theorem grammar_takes {budget : Nat} {call : Goal → Action} (hc : CallsSound call) (g : Goal)
    {s : List Cue} (h : g.starts s = true) : (grammar g).Takes budget call s := by
  cases g with
  | expression power => exact Rule.expressionOf_takes hc power h
  | item => exact Rule.item_takes hc (Goal.ne_nil_of_starts h)
  | statement => exact Rule.statement_takes hc (Goal.ne_nil_of_starts h)
  | _ => exact Rule.takes_of_sure hc rfl (Goal.ne_nil_of_starts h)

/-- Under any budget, the goals of the grammar take a token where they start. -/
theorem reach_sound (budget : Nat) : CallsSound (reach grammar budget) := by
  refine ⟨reach_fits grammar budget, ?_⟩
  induction budget with
  | zero =>
    intro g s h
    show 0 < Outline.sizes (s.map fun _ => .token)
    rw [Outline.sizes_tokens]
    exact List.length_pos_iff.mpr (Goal.ne_nil_of_starts h)
  | succ budget ih =>
    intro g s h
    exact grammar_takes ⟨reach_fits grammar budget, ih⟩ g h

end CppMend
