import CppMend.Proofs.Expression.Operands

/-!
# Where nodes are made

Each node of a text is made by one of the rules of the grammar, and most of these rules are performed
only where some test holds. A `Site` is such a rule and a place where the grammar performs it. The nodes
of operators, calls and members are not made so: they are wrapped around what is there, by the two chains
of the grammar. So a law of nodes holds in every text if it holds of what is made at each site, and of
what these chains wrap, and it may be used there that the budget lasts.

* `Rule.Site`                the rules that make nodes, and where;
* `Rule.Chained`             the chains of the grammar, and where;
* `grammar_sited`            the rules of the grammar make nodes at sites, and have these chains;
* `Rule.Makes`               a node made at a site, where the budget lasts;
* `outline_obey`             a law holds in a text if it does at the sites and the chains;
* `outline_made`             each node that no link wraps is made at a site;
* `outline_obey_of_sites`    a law that is not about linked nodes, from sites to texts;
* `outline_obey_of_chains`   a law of linked nodes, from chains to texts;
* `outline_obey_of_links`    such a law, from each link to texts.
-/

namespace CppMend

open Outline (Obey)

namespace Rule

open Lookahead

/-- A rule that makes a node, and what is next where the grammar performs it. -/
inductive Site : Rule → List Cue → Prop
  | typeRef {s : List Cue} : Site typeRef s
  | templateParameter {s : List Cue} : Site templateParameter s
  | templateParameterList {s : List Cue} (h : next .less s = true) : Site templateParameterList s
  | directive {s : List Cue} (h : startsDirective s = true) : Site directive s
  -- parts of expressions
  | block {s : List Cue} (h : next .lBrace s = true) : Site block s
  | initList {s : List Cue} (h : next .lBrace s = true) : Site initList s
  | argList {s : List Cue} : Site argList s
  | assignedValue {s : List Cue} (h : next .equal s = true) : Site assignedValue s
  | parameter {s : List Cue} : Site parameter s
  | parameterList {s : List Cue} : Site parameterList s
  | lambda {s : List Cue} (h : next .lBracket s = true) : Site lambda s
  -- operands
  | nameRef {s : List Cue} (h : nextIn [.ident, .doubleColon] s = true) : Site nameRef s
  | typeWord {s : List Cue} (h : nextIs TokenKind.isBuiltinType s = true) :
      Site (.node .nameRef .token) s
  | literal {s : List Cue} (h : nextIs TokenKind.isLiteral s = true) : Site literal s
  | parenExpr {s : List Cue} (h : next .lParen s = true) :
      Site (.node .parenExpr (inOrder [.token, expression, eat .rParen])) s
  | unaryExpr {s : List Cue} (h : nextIs isPrefixOperator s = true) :
      Site (.node .unaryExpr (inOrder [.token, onlyIf (next .lBracket) (group .square),
        .goal (.expression operandPower)])) s
  | castExpr {s : List Cue} (h : startsCast s = true) :
      Site (.node .castExpr (inOrder [.token, typeRef, eat .rParen,
        .goal (.expression operandPower)])) s
  -- declarations
  | constructor {s : List Cue} (h : startsConstructor s = true ∨ startsQualifiedConstructor s = true) :
      Site constructor s
  | bracedValue {s : List Cue} (h : next .lBrace s = true) : Site (.node .initializer initList) s
  | calledValue {s : List Cue} (h : next .lParen s = true) : Site (.node .initializer argList) s
  | declaration {s : List Cue} (place : Place) (h : startsDeclaration s = true) :
      Site (declaration place) s
  | enumerator {s : List Cue} (h : next .ident s = true) : Site (.node .enumerator (inOrder [
      .token, onlyIf (next .equal) (inOrder [.token, expression])])) s
  | enumeratorList {s : List Cue} (h : next .lBrace s = true) : Site enumeratorList s
  | enumDef {s : List Cue} (alone : Bool) (h : startsEnum s = true) : Site (enumDef alone) s
  | accessSpecifier {s : List Cue} (h : startsAccess s = true) : Site accessSpecifier s
  | usingDef {s : List Cue} (h : next .kwUsing s = true) : Site usingDef s
  | fieldList {s : List Cue} (h : next .lBrace s = true) : Site fieldList s
  | recordDef {s : List Cue} (alone : Bool) (h : startsRecord s = true) : Site (recordDef alone) s
  | typedefDef {s : List Cue} (h : next .kwTypedef s = true) : Site typedefDef s
  | itemList {s : List Cue} (h : next .lBrace s = true) : Site itemList s
  | linkageSpec {s : List Cue} (h : next .kwExtern s = true) : Site linkageSpec s
  | namespaceDef {s : List Cue} (h : next .kwNamespace s = true) : Site namespaceDef s
  | templateDef {s : List Cue} (h : next .kwTemplate s = true) : Site templateDef s
  -- statements
  | condition {s : List Cue} (h : next .lParen s = true) : Site (.node .condition (inOrder [
      .token,
      .branch startsDeclaration
        (.node .declStmt (inOrder [Rule.typeRef, declaratorName, declaratorSuffix .body]))
        expression,
      untilTrue (endOr [.rParen, .lBrace, .semicolon])
        (.branch (next .lParen) (group .paren) .token),
      eat .rParen])) s
  | declared {s : List Cue} (h : startsDeclaration s = true) :
      Site (.node .declStmt (inOrder [Rule.typeRef, declaratorName, declaratorSuffix .body])) s
  | ifStmt {s : List Cue} (h : next .kwIf s = true) : Site ifStmt s
  | elseBranch {s : List Cue} (h : next .kwElse s = true) :
      Site (.node .elseBranch (inOrder [.token, subStatement])) s
  | whileStmt {s : List Cue} (h : next .kwWhile s = true) : Site (conditioned .whileStmt) s
  | switchStmt {s : List Cue} (h : next .kwSwitch s = true) : Site (conditioned .switchStmt) s
  | doStmt {s : List Cue} (h : next .kwDo s = true) : Site doStmt s
  | exprStmt {s : List Cue} : Site exprStmt s
  | forStmt {s : List Cue} (h : next .kwFor s = true) : Site forStmt s
  | caseStmt {s : List Cue} (h : nextIn [.kwCase, .kwDefault] s = true) : Site caseStmt s
  | returnStmt {s : List Cue} (h : next .kwReturn s = true) : Site returnStmt s
  | breakStmt {s : List Cue} (h : next .kwBreak s = true) : Site (.node .breakStmt toSemicolon) s
  | continueStmt {s : List Cue} (h : next .kwContinue s = true) :
      Site (.node .continueStmt toSemicolon) s
  | gotoStmt {s : List Cue} (h : next .kwGoto s = true) : Site (.node .gotoStmt toSemicolon) s

/-- a chain, by what it starts with and its links, and what is next where the grammar performs it -/
inductive Chained : Rule → (List Cue → Option (NodeKind × Goal)) → List Cue → Prop
  | operand {s : List Cue} (h : startsExpression s = true) (hp : nextIs isPrefixOperator s = false) :
      Chained primary operandLink? s
  | expression {s : List Cue} (power : Nat) (h : startsExpression s = true) :
      Chained operand (operatorLink? power) s

/-- The rule makes nodes at sites only, and has no chains but those of the grammar. -/
abbrev Sited (r : Rule) (s : List Cue) : Prop := r.Throughout Site Chained s

variable {s : List Cue}

/-- a rule that makes no nodes -/
theorem sited_of_plain {r : Rule} (h : r.avoids (fun _ => true) = true) (s : List Cue) : r.Sited s :=
  throughout_of_avoids nofun h s

/-! ## types and names -/

theorem typeRef_sited : typeRef.Sited s := ⟨.typeRef, sited_of_plain rfl s⟩

theorem templateParameterList_sited (h : next .less s = true) : templateParameterList.Sited s :=
  ⟨.templateParameterList h, trivial, fun _ => ⟨fun _ => ⟨fun _ => trivial, fun _ =>
    ⟨⟨.templateParameter, sited_of_plain rfl _⟩, sited_of_plain rfl⟩⟩, sited_of_plain rfl⟩⟩

theorem directive_sited (h : startsDirective s = true) : directive.Sited s :=
  ⟨.directive h, trivial, sited_of_plain rfl⟩

/-! ## parts of expressions -/

theorem block_sited (h : next .lBrace s = true) : block.Sited s :=
  ⟨.block h, sited_of_plain rfl s⟩

theorem initList_sited (h : next .lBrace s = true) : initList.Sited s :=
  ⟨.initList h, sited_of_plain rfl s⟩

theorem argList_sited : argList.Sited s := ⟨.argList, sited_of_plain rfl s⟩

theorem assignedValue_sited (h : next .equal s = true) : assignedValue.Sited s :=
  ⟨.assignedValue h, sited_of_plain rfl s⟩

theorem parameter_sited : parameter.Sited s := by
  refine ⟨.parameter, ⟨fun _ => ⟨typeRef_sited, sited_of_plain rfl⟩, fun _ => trivial⟩, fun t => ?_⟩
  exact fun u => ⟨fun _ => trivial, fun _ => ⟨assignedValue_sited, fun _ => sited_of_plain rfl u⟩⟩

theorem parameterList_sited : parameterList.Sited s :=
  ⟨.parameterList, trivial, fun _ => ⟨fun _ => ⟨fun _ => trivial, fun _ =>
    ⟨parameter_sited, sited_of_plain rfl⟩⟩, sited_of_plain rfl⟩⟩

theorem lambda_sited (h : next .lBracket s = true) : lambda.Sited s :=
  ⟨.lambda h, trivial, fun _ => ⟨⟨fun _ => parameterList_sited, fun _ => trivial⟩, fun _ =>
    ⟨sited_of_plain rfl _, fun _ => ⟨block_sited, fun _ => trivial⟩⟩⟩⟩

/-! ## expressions -/

theorem primary_sited : primary.Sited s := by
  refine ⟨fun h => ⟨.literal h, sited_of_plain rfl s⟩, fun _ => ?_⟩
  refine ⟨fun h => ⟨.nameRef h, sited_of_plain rfl s⟩, fun _ => ?_⟩
  refine ⟨fun h => ⟨.typeWord h, trivial⟩, fun _ => ?_⟩
  refine ⟨fun h => ⟨.parenExpr h, sited_of_plain rfl s⟩, fun _ => ?_⟩
  exact ⟨initList_sited, fun _ => ⟨lambda_sited, fun _ => trivial⟩⟩

theorem operand_sited (h : startsExpression s = true) : operand.Sited s := by
  refine ⟨fun h => ⟨.unaryExpr h, sited_of_plain rfl s⟩, fun hp => ?_⟩
  refine ⟨fun h => ⟨.castExpr h, trivial, fun _ => ⟨typeRef_sited, sited_of_plain rfl⟩⟩, fun _ => ?_⟩
  exact ⟨.operand h hp, primary_sited⟩

theorem expressionOf_sited (power : Nat) : (expressionOf power).Sited s :=
  ⟨fun h => ⟨.expression power h, operand_sited h⟩, fun _ => trivial⟩

/-! ## declarations -/

theorem functionRest_sited : functionRest.Sited s :=
  fun t => ⟨fun h => ⟨block_sited h, fun _ => trivial⟩, fun _ => sited_of_plain rfl t⟩

theorem constructor_sited (h : startsConstructor s = true ∨ startsQualifiedConstructor s = true) :
    constructor.Sited s :=
  ⟨.constructor h, sited_of_plain rfl s, fun _ => ⟨parameterList_sited, fun _ => functionRest_sited⟩⟩

theorem declaratorSuffix_sited (place : Place) : (declaratorSuffix place).Sited s := by
  refine ⟨sited_of_plain rfl s, fun t => ⟨sited_of_plain rfl t, fun u => ?_⟩⟩
  refine ⟨assignedValue_sited, fun _ => ⟨fun h => ⟨.bracedValue h, initList_sited h⟩, fun _ => ?_⟩⟩
  exact ⟨fun h => ⟨.calledValue h, argList_sited⟩, fun _ => trivial⟩

theorem declarators_sited (place : Place) : (declarators place).Sited s := by
  refine ⟨declaratorSuffix_sited place, fun _ => ⟨fun t => ⟨fun _ => ?_, fun _ => trivial⟩,
    sited_of_plain rfl⟩⟩
  exact ⟨trivial, fun _ => ⟨sited_of_plain rfl _, fun _ => ⟨sited_of_plain rfl _, fun _ =>
    declaratorSuffix_sited place⟩⟩⟩

theorem declaration_sited (place : Place) (h : startsDeclaration s = true) :
    (declaration place).Sited s :=
  ⟨.declaration place h, ⟨typeRef_sited, sited_of_plain rfl⟩, fun _ =>
    ⟨fun _ => ⟨parameterList_sited, fun _ => functionRest_sited⟩, fun _ => declarators_sited place⟩⟩

theorem enumeratorList_sited (h : next .lBrace s = true) : enumeratorList.Sited s :=
  ⟨.enumeratorList h, trivial, fun _ => ⟨fun _ => ⟨fun h => ⟨⟨.enumerator h, sited_of_plain rfl _⟩,
    sited_of_plain rfl⟩, fun _ => trivial⟩, sited_of_plain rfl⟩⟩

theorem enumDef_sited (alone : Bool) (h : startsEnum s = true) : (enumDef alone).Sited s := by
  refine ⟨.enumDef alone h, trivial, fun _ => ⟨sited_of_plain rfl _, fun _ =>
    ⟨sited_of_plain rfl _, fun _ => ⟨⟨fun _ => ⟨trivial, fun _ => typeRef_sited⟩, fun _ => trivial⟩,
      fun _ => ⟨⟨enumeratorList_sited, fun _ => trivial⟩, fun t => ?_⟩⟩⟩⟩⟩
  cases alone <;> exact sited_of_plain rfl t

theorem usingDef_sited (h : next .kwUsing s = true) : usingDef.Sited s :=
  ⟨.usingDef h, sited_of_plain rfl s⟩

theorem recordMember_sited : recordMember.Sited s :=
  ⟨fun h => ⟨.accessSpecifier h, sited_of_plain rfl s⟩, fun _ => ⟨usingDef_sited, fun _ =>
    ⟨fun h => constructor_sited (.inl h), fun _ => ⟨declaration_sited .record, fun _ => trivial⟩⟩⟩⟩

theorem fieldList_sited (h : next .lBrace s = true) : fieldList.Sited s :=
  ⟨.fieldList h, trivial, fun _ => ⟨fun _ => ⟨fun _ => trivial, fun _ => recordMember_sited⟩,
    sited_of_plain rfl⟩⟩

theorem recordDef_sited (alone : Bool) (h : startsRecord s = true) : (recordDef alone).Sited s := by
  refine ⟨.recordDef alone h, trivial, fun _ => ⟨trivial, fun _ => ⟨sited_of_plain rfl _, fun _ =>
    ⟨sited_of_plain rfl _, fun _ => ⟨⟨fieldList_sited, fun _ => trivial⟩, fun t => ?_⟩⟩⟩⟩⟩
  cases alone <;> exact sited_of_plain rfl t

theorem typedefDef_sited (h : next .kwTypedef s = true) : typedefDef.Sited s :=
  ⟨.typedefDef h, trivial, fun _ => ⟨⟨recordDef_sited false, fun _ => ⟨enumDef_sited false, fun _ =>
    typeRef_sited⟩⟩, sited_of_plain rfl⟩⟩

theorem itemList_sited (h : next .lBrace s = true) : itemList.Sited s :=
  ⟨.itemList h, sited_of_plain rfl s⟩

theorem linkageSpec_sited (h : next .kwExtern s = true) : linkageSpec.Sited s :=
  ⟨.linkageSpec h, trivial, fun _ => ⟨trivial, fun _ => ⟨itemList_sited, fun _ => trivial⟩⟩⟩

theorem namespaceDef_sited (h : next .kwNamespace s = true) : namespaceDef.Sited s :=
  ⟨.namespaceDef h, trivial, fun _ => ⟨sited_of_plain rfl _, fun _ => ⟨itemList_sited, fun _ =>
    sited_of_plain rfl _⟩⟩⟩

theorem templateDef_sited (h : next .kwTemplate s = true) : templateDef.Sited s :=
  ⟨.templateDef h, trivial, fun _ => ⟨⟨templateParameterList_sited, fun _ => trivial⟩,
    sited_of_plain rfl⟩⟩

theorem item_sited : item.Sited s := by
  refine ⟨directive_sited, fun _ => ⟨fun _ => trivial, fun _ => ⟨templateDef_sited, fun _ => ?_⟩⟩⟩
  refine ⟨namespaceDef_sited, fun _ => ⟨usingDef_sited, fun _ => ⟨typedefDef_sited, fun _ => ?_⟩⟩⟩
  refine ⟨fun h => linkageSpec_sited (Bool.and_eq_true_iff.mp h).1, fun _ => ?_⟩
  refine ⟨recordDef_sited true, fun _ => ⟨enumDef_sited true, fun _ => ?_⟩⟩
  exact ⟨fun h => constructor_sited (.inr h), fun _ => ⟨declaration_sited .file, fun _ => trivial⟩⟩

/-! ## statements -/

theorem condition_sited : condition.Sited s := by
  refine ⟨fun h => ⟨.condition h, trivial, fun _ => ⟨?_, sited_of_plain rfl⟩⟩, fun _ => trivial⟩
  exact ⟨fun h => ⟨.declared h, typeRef_sited, fun _ => ⟨sited_of_plain rfl _, fun _ =>
    declaratorSuffix_sited .body⟩⟩, fun _ => trivial⟩

theorem ifStmt_sited (h : next .kwIf s = true) : ifStmt.Sited s := by
  refine ⟨.ifStmt h, trivial, fun _ => ⟨sited_of_plain rfl _, fun _ => ⟨condition_sited, fun _ =>
    ⟨sited_of_plain rfl _, fun _ => ?_⟩⟩⟩⟩
  exact ⟨fun h => ⟨.elseBranch h, sited_of_plain rfl _⟩, fun _ => trivial⟩

theorem conditioned_body_sited : (inOrder [.token, condition, subStatement]).Sited s :=
  ⟨trivial, fun _ => ⟨condition_sited, sited_of_plain rfl⟩⟩

theorem doStmt_sited (h : next .kwDo s = true) : doStmt.Sited s :=
  ⟨.doStmt h, trivial, fun _ => ⟨sited_of_plain rfl _, fun _ => ⟨⟨fun _ => ⟨trivial, fun _ =>
    condition_sited⟩, fun _ => trivial⟩, sited_of_plain rfl⟩⟩⟩

theorem exprStmt_sited : exprStmt.Sited s := ⟨.exprStmt, sited_of_plain rfl s⟩

theorem forStmt_sited (h : next .kwFor s = true) : forStmt.Sited s :=
  ⟨.forStmt h, trivial, fun _ => ⟨⟨fun _ => ⟨trivial, fun _ => ⟨⟨declaration_sited .body, fun _ =>
    exprStmt_sited⟩, sited_of_plain rfl⟩⟩, fun _ => trivial⟩, sited_of_plain rfl⟩⟩

theorem statement_sited : statement.Sited s := by
  refine ⟨block_sited, fun _ => ⟨directive_sited, fun _ => ?_⟩⟩
  refine ⟨fun h => ⟨.returnStmt h, sited_of_plain rfl s⟩, fun _ => ⟨ifStmt_sited, fun _ => ?_⟩⟩
  refine ⟨fun h => ⟨.whileStmt h, conditioned_body_sited⟩, fun _ => ⟨doStmt_sited, fun _ => ?_⟩⟩
  refine ⟨forStmt_sited, fun _ => ⟨fun h => ⟨.switchStmt h, conditioned_body_sited⟩, fun _ => ?_⟩⟩
  refine ⟨fun h => ⟨.caseStmt h, sited_of_plain rfl s⟩, fun _ => ?_⟩
  refine ⟨fun h => ⟨.breakStmt h, sited_of_plain rfl s⟩, fun _ => ?_⟩
  refine ⟨fun h => ⟨.continueStmt h, sited_of_plain rfl s⟩, fun _ => ?_⟩
  refine ⟨fun h => ⟨.gotoStmt h, sited_of_plain rfl s⟩, fun _ => ⟨usingDef_sited, fun _ => ?_⟩⟩
  refine ⟨typedefDef_sited, fun _ => ⟨recordDef_sited true, fun _ => ⟨enumDef_sited true, fun _ => ?_⟩⟩⟩
  exact ⟨declaration_sited .body, fun _ => exprStmt_sited⟩

end Rule

/-- All rules of the grammar make nodes at sites only. -/
theorem grammar_sited (g : Goal) (s : List Cue) : (grammar g).Sited s := by
  cases g with
  | item => exact Rule.item_sited
  | statement => exact Rule.statement_sited
  | expression power => exact Rule.expressionOf_sited power
  | arguments => exact Rule.argList_sited
  | _ => exact Rule.sited_of_plain rfl s

/-! ## laws at the sites -/

namespace Rule

/-- The rule makes this node at a site where the budget lasts. -/
structure Makes (budget : Nat) (r : Rule) (s : List Cue) (kind : NodeKind) (parts : List Outline) :
    Prop where
  site : Site r s
  lasts : r.Lasts budget (reach grammar budget) (Lasting budget) s
  built : (r.perform budget (reach grammar budget) s).built = [.node kind parts]

namespace Makes

variable {budget : Nat} {s : List Cue} {kind k : NodeKind} {parts : List Outline}

theorem node_eq {body : Rule} (h : Makes budget (.node k body) s kind parts) :
    kind = k ∧ parts = (body.perform budget (reach grammar budget) s).built := by
  cases h.built
  exact ⟨rfl, rfl⟩

theorem headed_eq {head tail : Rule} {kindOf : List Cue → NodeKind}
    (h : Makes budget (.headed head kindOf tail) s kind parts) :
    let o := head.perform budget (reach grammar budget) s
    kind = kindOf o.ahead
      ∧ parts = o.built ++ (tail.perform budget (reach grammar budget) o.ahead).built := by
  cases h.built
  exact ⟨rfl, rfl⟩

/-! the kinds of nodes that show after the head -/

theorem kind_of_directive (h : Makes budget directive s kind parts) :
    kind = .preprocInclude ∨ kind = .preprocDefine ∨ kind = .preprocDirective := by
  rw [h.headed_eq.1, directiveKind.eq_def]
  split
  · split <;> simp
  · simp

theorem kind_of_declaration {place : Place} (h : Makes budget (declaration place) s kind parts) :
    kind = .functionDef ∨ kind = place.node := by
  rw [h.headed_eq.1]
  split
  · exact .inl rfl
  · exact .inr rfl

theorem kind_of_recordDef {alone : Bool} (h : Makes budget (recordDef alone) s kind parts) :
    kind = .classDef ∨ kind = .structDef := by
  rw [h.headed_eq.1]
  split
  · exact .inl rfl
  · exact .inr rfl

theorem isLinked_eq_false {r : Rule} (h : Makes budget r s kind parts) : kind.isLinked = false := by
  cases h.site with
  | directive => rcases h.kind_of_directive with rfl | rfl | rfl <;> rfl
  | declaration place => rcases h.kind_of_declaration with rfl | rfl <;> cases place <;> rfl
  | recordDef => rcases h.kind_of_recordDef with rfl | rfl <;> rfl
  | _ => exact h.node_eq.1 ▸ rfl

end Makes

theorem operandLink?_isLinked {kind : NodeKind} {g : Goal} (h : operandLink? s = some (kind, g)) :
    kind.isLinked = true := by
  cases s with
  | nil => cases h
  | cons c s =>
    rw [operandLink?] at h
    split at h <;> cases h <;> rfl

/-- Chains make linked nodes. -/
theorem Chained.isLinked {head : Rule} {link : List Cue → Option (NodeKind × Goal)}
    (h : Chained head link s) {t : List Cue} {kind : NodeKind} {g : Goal}
    (hk : link t = some (kind, g)) : kind.isLinked = true := by
  cases h with
  | operand => exact operandLink?_isLinked hk
  | expression => exact NodeKind.isLinked_of_isOperation (operatorLink?_isOperation hk)

/-- The law holds of what a link wraps around an expression. -/
def KeptByLinks (P : NodeLaw) : Prop := ∀ budget s built t kind g,
  (Outcome.mk built t false).Fits s → IsNodeOf NodeKind.isExpression built →
  (operandLink? t = some (kind, g) ∨ ∃ power, operatorLink? power t = some (kind, g)) →
  Lasting budget g t → P kind (built ++ (reach grammar budget g t).built) (kindsOf s)

end Rule

section
variable {α : Type} {L : Law α} {seen : Cue → α} {P : NodeLaw}

/-- A law holds in the outlines of a text, if it holds of what is made at sites, and of what chains wrap
around what obeys it, where the goals within do. -/
theorem outline_obey
    (hsite : ∀ budget r s kind parts, Rule.Makes budget r s kind parts → L kind parts (s.map seen))
    (hchain : ∀ budget head link s,
      (∀ g t, Lasting budget g t → Obey L (reach grammar budget g t).built (t.map seen)) →
      Rule.Chained head link s →
      (Rule.chain head link).Lasts budget (reach grammar budget) (Lasting budget) s →
      Obey L (head.perform budget (reach grammar budget) s).built (s.map seen) →
      Obey L ((Rule.chain head link).perform budget (reach grammar budget) s).built (s.map seen))
    (cs : List Cue) : Obey L (outline cs) (cs.map seen) := by
  have hrule (budget : Nat)
      (hgoals : ∀ g t, Lasting budget g t → Obey L (reach grammar budget g t).built (t.map seen))
      {r : Rule} {s : List Cue} (hr : r.Sited s)
      (hl : r.Lasts budget (reach grammar budget) (Lasting budget) s) :
      Obey L (r.perform budget (reach grammar budget) s).built (s.map seen) :=
    Rule.obey_of_throughout (reach_fits grammar budget) hgoals
      (fun r s kind parts hr hl hb => hsite budget r s kind parts ⟨hr, hl, hb⟩)
      (fun head link s hc hl ho => hchain budget head link s hgoals hc hl ho) hr hl
  have hgoals (budget : Nat) : ∀ g t, Lasting budget g t →
      Obey L (reach grammar budget g t).built (t.map seen) := by
    induction budget with
    | zero => exact fun g s hl => absurd hl id
    | succ budget ih => exact fun g s hl => hrule budget ih (grammar_sited g s) hl
  exact hrule _ (hgoals _) (r := Rule.wholeText) (Rule.sited_of_plain rfl cs)
    (wholeText_lasts (Nat.le_refl _))

/-- Each node of a text that no link wraps is made at a site, with the cues of the text from there on. -/
theorem outline_made (cs : List Cue) : Obey (fun kind parts s =>
    kind.isLinked = false → ∃ budget r, Rule.Makes budget r s kind parts) (outline cs) cs := by
  have hobey : Obey (fun kind parts s =>
      kind.isLinked = false → ∃ budget r, Rule.Makes budget r s kind parts) (outline cs)
      (cs.map id) :=
    outline_obey (fun budget r s kind parts h _ => ⟨budget, r, by rw [List.map_id]; exact h⟩)
      (fun budget _ _ _ hgoals hc hl ho =>
        Rule.chain_obeys (Q := fun _ => True) (reach_fits grammar budget) hgoals
          (fun _ _ _ _ _ => trivial)
          (fun _ _ kind _ _ _ hk _ hlink => absurd ((hc.isLinked hk).symm.trans hlink) (by decide))
          trivial ho hl) cs
  rw [List.map_id] at hobey
  exact hobey

/-- so a law that is not about linked nodes holds by the sites alone -/
theorem outline_obey_of_sites (hlink : ∀ kind parts ks, kind.isLinked = true → P kind parts ks)
    (hsite : ∀ budget r s kind parts, Rule.Makes budget r s kind parts → P kind parts (kindsOf s))
    (cs : List Cue) : Obey P (outline cs) (kindsOf cs) := by
  intro p hp
  rw [← kindsOf_drop]
  cases hk : p.kind.isLinked with
  | true => exact hlink p.kind _ _ hk
  | false =>
    obtain ⟨budget, r, hmakes⟩ := outline_made cs p hp hk
    exact hsite budget r _ _ _ hmakes

/-- and with a law of linked nodes, by the chains alone -/
theorem outline_obey_of_chains (hP : ∀ kind parts ks, kind.isLinked = false → P kind parts ks)
    (hchain : ∀ budget head link s, GoalsObey P budget → Rule.Chained head link s →
      (Rule.chain head link).Lasts budget (reach grammar budget) (Lasting budget) s →
      Obey P (head.perform budget (reach grammar budget) s).built (kindsOf s) →
      Obey P ((Rule.chain head link).perform budget (reach grammar budget) s).built (kindsOf s))
    (cs : List Cue) : Obey P (outline cs) (kindsOf cs) :=
  outline_obey (fun _ _ _ _ _ h => hP _ _ _ h.isLinked_eq_false) hchain cs

/-- The outlines of a text obey a law of linked nodes that the links keep. -/
theorem outline_obey_of_links (hP : ∀ kind parts ks, kind.isLinked = false → P kind parts ks)
    (h : Rule.KeptByLinks P) (cs : List Cue) : Obey P (outline cs) (kindsOf cs) := by
  refine outline_obey_of_chains hP (fun budget head link s hgoals hc hl ho => ?_) cs
  have hf := reach_fits grammar budget
  cases hc with
  | operand hs hp =>
    refine Rule.chain_obeys (Q := Rule.IsNodeOf NodeKind.isExpression) hf hgoals
      (fun t kind g parts hk => ⟨kind, parts, rfl, ?_⟩)
      (fun built t kind g hfit hb hk hg => h budget s built t kind g hfit hb (.inl hk) hg)
      ((Rule.primary_isNodeOf hs hp).mono fun _ => NodeKind.isExpression_of_isOperand) ho hl
    exact NodeKind.isExpression_of_isOperand (Rule.operandLink?_isOperand hk)
  | expression power hs =>
    refine Rule.chain_obeys (Q := Rule.IsNodeOf NodeKind.isExpression) hf hgoals
      (fun t kind g parts hk => ⟨kind, parts, rfl, ?_⟩)
      (fun built t kind g hfit hb hk hg => h budget s built t kind g hfit hb (.inr ⟨power, hk⟩) hg)
      ((Rule.operand_isNodeOf hs hl.1).mono fun _ => NodeKind.isExpression_of_isOperand) ho hl
    exact NodeKind.isExpression_of_isOperation (Rule.operatorLink?_isOperation hk)

end

end CppMend
