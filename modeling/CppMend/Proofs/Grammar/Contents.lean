import CppMend.Proofs.Grammar.Sites

/-!
# What nodes are made of

A node of some kind has only nodes of certain kinds directly in it: a record has lists of members, a
list of members has items, fields and access specifiers, and so on. Which rules build which nodes side
by side is read off their form and off what their goals make.

* `NodeKind.holds`       the kinds of nodes that may stand directly in a node of some kind;
* `Goal.makes`           the kinds of nodes that a goal builds side by side;
* `Rule.Yields`          a rule builds nodes of certain kinds only, by its form;
* `contentLaw_outline`   the nodes of a text hold only what their kinds may hold;
* `outline_isItem`       side by side in a text stand items.
-/

namespace CppMend

/-! ## the kinds of nodes in nodes -/

namespace NodeKind

theorem mem_all (kind : NodeKind) : kind ∈ all := by cases kind <;> decide

/-- what stands outside of bodies and records -/
def isItem : NodeKind → Bool
  | .preprocInclude | .preprocDefine | .preprocDirective | .linkageSpec | .namespaceDef
  | .templateDef | .typedefDef | .usingDef | .structDef | .classDef | .enumDef | .functionDef
  | .variableDef => true
  | _ => false

/-- what stands in a record -/
def isMember (kind : NodeKind) : Bool := kind.isItem || kind = .fieldDef || kind = .accessSpecifier

/-- what stands where a statement may -/
def standsInBody : NodeKind → Bool
  | .usingDef | .typedefDef | .structDef | .classDef | .enumDef | .preprocInclude | .preprocDefine
  | .preprocDirective => true
  | kind => kind.isStatement

/-- Nodes of the second kind may stand directly in nodes of the first kind. -/
def holds : NodeKind → NodeKind → Bool
  | .root, k | .itemList, k => k.isItem
  | .linkageSpec, k => k = .itemList || k.isItem
  | .namespaceDef, k => k = .itemList
  | .templateDef, k => k = .templateParameterList || k.isItem
  | .templateParameterList, k => k = .templateParameter
  | .typedefDef, k => [.structDef, .classDef, .enumDef, .typeRef].contains k
  | .structDef, k | .classDef, k => k = .fieldList
  | .fieldList, k => k.isMember
  | .enumDef, k => k = .typeRef || k = .enumeratorList
  | .enumeratorList, k => k = .enumerator
  | .enumerator, k => k.isExpression
  | .functionDef, k => [.typeRef, .parameterList, .block].contains k
  | .parameterList, k => k = .parameter
  | .parameter, k => k = .typeRef || k = .initializer
  | .variableDef, k | .fieldDef, k | .declStmt, k => k = .typeRef || k = .initializer || k.isExpression
  | .initializer, k => k = .argList || k.isExpression
  | .block, k | .elseBranch, k => k.standsInBody
  | .ifStmt, k => k = .condition || k = .elseBranch || k.standsInBody
  | .whileStmt, k | .switchStmt, k | .doStmt, k => k = .condition || k.standsInBody
  | .forStmt, k => k.standsInBody || k.isExpression
  | .condition, k => k = .declStmt || k.isExpression
  | .callExpr, k => k = .argList || k.isExpression
  | .castExpr, k => k = .typeRef || k.isExpression
  | .lambdaExpr, k => k = .parameterList || k = .block
  | .caseStmt, k | .returnStmt, k | .exprStmt, k | .assignExpr, k | .conditionalExpr, k
  | .binaryExpr, k | .unaryExpr, k | .postfixExpr, k | .indexExpr, k | .memberExpr, k
  | .parenExpr, k | .initList, k | .argList, k => k.isExpression
  | _, _ => false

end NodeKind

/-- the kinds of nodes that a goal builds side by side -/
def Goal.makes : Goal → NodeKind → Bool
  | .item, k => k.isItem
  | .statement, k => k.standsInBody
  | .expression _, k | .operation _, k | .alternatives, k | .subscript, k => k.isExpression
  | .arguments, k => k = .argList
  | .member, _ | .step, _ => false

namespace Rule

open Lookahead

variable {budget : Nat} {call : Goal → Action} {allowed : NodeKind → Bool} {s : List Cue}

/-! ## what a rule builds by its form -/

/-- an outline that is no node of another kind than the allowed ones -/
def isOf (allowed : NodeKind → Bool) : Outline → Bool
  | .node kind _ => allowed kind
  | _ => true

/-- The nodes that the rule builds side by side are of allowed kinds. -/
def Yields (allowed : NodeKind → Bool) : Rule → Prop
  | .node kind _ => allowed kind = true
  | .seq p q | .branch _ p q => p.Yields allowed ∧ q.Yields allowed
  | .loop body | .atLeastOne body => body.Yields allowed
  | .headed _ kind _ => ∀ s, allowed (kind s) = true
  | .chain head link => head.Yields allowed ∧ ∀ s kind g, link s = some (kind, g) → allowed kind = true
  | .goal g => ∀ kind, g.makes kind = true → allowed kind = true
  | _ => True

/-- It is so, and can be seen without a look at cues. -/
def yields (allowed : NodeKind → Bool) : Rule → Bool
  | .node kind _ => allowed kind
  | .seq p q | .branch _ p q => p.yields allowed && q.yields allowed
  | .loop body | .atLeastOne body => body.yields allowed
  | .headed _ _ _ | .chain _ _ => false
  | .goal g => NodeKind.all.all fun kind => !g.makes kind || allowed kind
  | _ => true

theorem Yields.of_form {r : Rule} (h : r.yields allowed = true) : r.Yields allowed := by
  induction r with
  | node kind body => exact h
  | seq p q ihp ihq | branch test p q ihp ihq =>
    rw [yields, Bool.and_eq_true] at h
    exact ⟨ihp h.1, ihq h.2⟩
  | loop body ih | atLeastOne body ih => exact ih h
  | headed | chain => cases h
  | goal g =>
    intro kind hk
    have hall := List.all_eq_true.mp h kind (NodeKind.mem_all kind)
    rw [hk] at hall
    exact hall
  | _ => trivial

theorem tokens_isOf (s : List Cue) : (s.map fun _ => Outline.token).all (isOf allowed) = true := by
  simp [isOf]

theorem loop_isOf {body : Action} (hb : ∀ s, (body s).built.all (isOf allowed) = true) (turns : Nat)
    (s : List Cue) : (Action.loop body turns s).built.all (isOf allowed) = true := by
  induction turns generalizing s with
  | zero => exact tokens_isOf s
  | succ turns ih =>
    rw [Action.loop]
    split
    · exact hb s
    · rw [List.all_append, hb s, ih]
      rfl

theorem wrap_isOf {link : List Cue → Option (NodeKind × Goal)}
    (hlink : ∀ s kind g, link s = some (kind, g) → allowed kind = true) (turns : Nat)
    {built : List Outline} (hb : built.all (isOf allowed) = true) (s : List Cue) :
    (Action.wrap link call turns built s).built.all (isOf allowed) = true := by
  induction turns generalizing built s with
  | zero =>
    rw [Action.wrap, List.all_append, hb]
    exact tokens_isOf s
  | succ turns ih =>
    rw [Action.wrap]
    split
    · exact hb
    · next kind g hk => exact ih (by simp [isOf, hlink s kind g hk]) _

/-- goals make what they are said to -/
def CallsMake (call : Goal → Action) : Prop :=
  ∀ g s, (call g s).built.all (isOf g.makes) = true

theorem perform_isOf (hc : CallsMake call) {r : Rule} (hr : r.Yields allowed) (s : List Cue) :
    (r.perform budget call s).built.all (isOf allowed) = true := by
  induction r generalizing s with
  | token => cases s <;> rfl
  | tokens length => exact tokens_isOf _
  | node kind body =>
    rw [perform, List.all_cons]
    exact Bool.and_eq_true_iff.mpr ⟨hr, rfl⟩
  | seq p q ihp ihq =>
    cases hl : (p.perform budget call s).leaving with
    | true =>
      rw [seq_of_leaving hl]
      exact ihp hr.1 s
    | false =>
      rw [seq_built hl, List.all_append, ihp hr.1, ihq hr.2]
      rfl
  | branch test yes no ihy ihn =>
    rw [perform]
    split
    · exact ihy hr.1 s
    · exact ihn hr.2 s
  | loop body ih => exact loop_isOf (ih hr) budget s
  | atLeastOne body ih =>
    rw [perform]
    split
    · exact ih hr s
    · rw [List.all_append, ih hr]
      cases (body.perform budget call s).ahead <;> rfl
  | headed head kind tail =>
    rw [perform, List.all_cons]
    exact Bool.and_eq_true_iff.mpr ⟨hr _, rfl⟩
  | chain head link ih => exact wrap_isOf hr.2 budget (ih hr.1 s) _
  | goal g =>
    refine List.all_eq_true.mpr fun o ho => ?_
    have hg := List.all_eq_true.mp (hc g s) o ho
    cases o with
    | node kind parts => exact hr kind hg
    | _ => rfl
  | nothing | leave | blank => rfl

/-! ## the rules whose nodes show later -/

theorem directive_yields (h : allowed .preprocInclude = true ∧ allowed .preprocDefine = true
    ∧ allowed .preprocDirective = true) : directive.Yields allowed := by
  intro s
  rw [directiveKind.eq_def]
  split
  · split
    · exact h.1
    · exact h.2.1
    · exact h.2.2
  · exact h.2.2

theorem declaration_yields {place : Place} (hf : place ≠ .body → allowed .functionDef = true)
    (hd : allowed place.node = true) : (declaration place).Yields allowed := by
  intro s
  show allowed (if _ then _ else _) = true
  split
  · next h => exact hf (of_decide_eq_true (Bool.and_eq_true_iff.mp h).1)
  · exact hd

theorem recordDef_yields {alone : Bool} (h : allowed .structDef = true ∧ allowed .classDef = true) :
    (recordDef alone).Yields allowed := by
  intro s
  show allowed (if _ then _ else _) = true
  split
  · exact h.2
  · exact h.1

theorem item_yields : item.Yields NodeKind.isItem :=
  ⟨directive_yields ⟨rfl, rfl, rfl⟩, trivial, rfl, rfl, rfl, rfl, rfl, recordDef_yields ⟨rfl, rfl⟩,
    rfl, rfl, declaration_yields (fun _ => rfl) rfl, trivial⟩

theorem statement_yields : statement.Yields NodeKind.standsInBody :=
  ⟨rfl, directive_yields ⟨rfl, rfl, rfl⟩, rfl, rfl, rfl, rfl, rfl, rfl, rfl, rfl, rfl, rfl, rfl, rfl,
    recordDef_yields ⟨rfl, rfl⟩, rfl, declaration_yields (fun h => absurd rfl h) rfl, rfl⟩

theorem recordMember_yields : recordMember.Yields NodeKind.isMember :=
  ⟨rfl, rfl, rfl, declaration_yields (fun _ => rfl) rfl, fun kind hk => by
    rw [NodeKind.isMember, show kind.isItem = true from hk]
    rfl⟩

theorem expressionOf_yields (power : Nat) : (expressionOf power).Yields NodeKind.isExpression := by
  have hoperand : operand.Yields NodeKind.isExpression :=
    ⟨rfl, rfl, .of_form rfl, fun s kind g hk =>
      NodeKind.isExpression_of_isOperand (operandLink?_isOperand hk)⟩
  exact ⟨⟨hoperand, fun s kind g hk =>
    NodeKind.isExpression_of_isOperation (operatorLink?_isOperation hk)⟩, trivial⟩

theorem grammar_yields (g : Goal) : (grammar g).Yields g.makes := by
  cases g with
  | item => exact item_yields
  | statement => exact statement_yields
  | expression power => exact expressionOf_yields power
  | operation power => exact .of_form rfl
  | _ => exact .of_form rfl

/-- The goals of the grammar make what they are said to, under any budget. -/
theorem reach_makes (budget : Nat) : CallsMake (reach grammar budget) := by
  induction budget with
  | zero => exact fun g s => tokens_isOf s
  | succ budget ih => exact fun g s => perform_isOf ih (grammar_yields g) s

/-! ## the law of contents -/

/-- nodes hold only what their kinds may hold -/
def contentLaw : NodeLaw := fun kind parts _ => parts.all (isOf kind.holds) = true

variable {kind : NodeKind} {parts : List Outline} {ks : List TokenKind}

theorem contentLaw_of_node {k : NodeKind} {body : Rule} (h : Makes budget (.node k body) s kind parts)
    (hy : body.Yields k.holds) : contentLaw kind parts ks := by
  obtain ⟨rfl, rfl⟩ := h.node_eq
  exact perform_isOf (reach_makes budget) hy s

theorem contentLaw_of_headed {head tail : Rule} {kindOf : List Cue → NodeKind}
    (h : Makes budget (.headed head kindOf tail) s kind parts) (hh : head.Yields kind.holds)
    (ht : tail.Yields kind.holds) : contentLaw kind parts ks := by
  rw [contentLaw, h.headed_eq.2, List.all_append, perform_isOf (reach_makes budget) hh s,
    perform_isOf (reach_makes budget) ht]
  rfl

/-- In a declaration, what follows the name depends on the kind in the same way as the kind itself. -/
theorem contentLaw_of_declaration {place : Place} (h : Makes budget (declaration place) s kind parts) :
    contentLaw kind parts ks := by
  have hc := reach_makes budget
  obtain ⟨hkind, hparts⟩ := h.headed_eq
  let o := (inOrder [typeRef, declaratorName]).perform budget (reach grammar budget) s
  have hhead (hk : kind.holds .typeRef = true) : o.built.all (isOf kind.holds) = true :=
    perform_isOf (r := inOrder [typeRef, declaratorName]) hc ⟨hk, .of_form rfl⟩ s
  have hpart (h : kind.holds .typeRef = true) (htail : ((Rule.branch (fun s => place ≠ .body
      && next .lParen s) (inOrder [parameterList, functionRest]) (declarators place)).perform budget
      (reach grammar budget) o.ahead).built.all (isOf kind.holds) = true) :
      contentLaw kind parts ks := by
    rw [contentLaw, hparts, List.all_append]
    exact Bool.and_eq_true_iff.mpr ⟨hhead h, htail⟩
  cases htest : (place ≠ .body && next .lParen o.ahead : Bool) with
  | true =>
    obtain rfl : kind = .functionDef := hkind.trans (if_pos htest)
    refine hpart rfl ?_
    rw [perform, if_pos htest]
    exact perform_isOf hc (.of_form rfl) _
  | false =>
    obtain rfl : kind = place.node := hkind.trans (if_neg (by rw [htest]; exact Bool.false_ne_true))
    refine hpart (by cases place <;> rfl) ?_
    rw [perform, if_neg (by rw [htest]; exact Bool.false_ne_true)]
    exact perform_isOf hc (.of_form (by cases place <;> rfl)) _

theorem contentLaw_of_makes {r : Rule} (h : Makes budget r s kind parts) :
    contentLaw kind parts (kindsOf s) := by
  cases h.site with
  | directive => exact contentLaw_of_headed h trivial (.of_form rfl)
  | declaration place => exact contentLaw_of_declaration h
  | recordDef alone =>
    rcases h.kind_of_recordDef with rfl | rfl <;>
      exact contentLaw_of_headed h trivial (.of_form (by cases alone <;> rfl))
  | enumDef alone => exact contentLaw_of_node h (.of_form (by cases alone <;> rfl))
  | fieldList => exact contentLaw_of_node h ⟨trivial, ⟨trivial, recordMember_yields⟩, .of_form rfl⟩
  | typedefDef =>
    exact contentLaw_of_node h ⟨trivial, ⟨recordDef_yields ⟨rfl, rfl⟩, rfl, rfl⟩, .of_form rfl⟩
  | forStmt =>
    refine contentLaw_of_node h ⟨trivial, ⟨⟨trivial, ⟨declaration_yields (fun h => absurd rfl h) rfl,
      rfl⟩, .of_form rfl⟩, trivial⟩, .of_form rfl⟩
  | _ => exact contentLaw_of_node h (.of_form rfl)

/-- What a link wraps is an expression, and what the link's goal makes. -/
theorem contentLaw_of_link {built : List Outline} {t : List Cue} {g : Goal}
    (hb : IsNodeOf NodeKind.isExpression built)
    (hk : operandLink? t = some (kind, g) ∨ ∃ power, operatorLink? power t = some (kind, g)) :
    contentLaw kind (built ++ (reach grammar budget g t).built) ks := by
  obtain ⟨k, ps, rfl, hexp⟩ := hb
  have hold (h : kind.holds k = true) (hg : ∀ j, g.makes j = true → kind.holds j = true) :
      contentLaw kind ([.node k ps] ++ (reach grammar budget g t).built) ks := by
    refine List.all_eq_true.mpr fun o ho => ?_
    rcases List.mem_append.mp ho with ho | ho
    · rw [List.mem_singleton.mp ho]
      exact h
    · have hmade := List.all_eq_true.mp (reach_makes budget g t) o ho
      cases o with
      | node j parts => exact hg j hmade
      | _ => rfl
  rcases hk with hk | ⟨power, hk⟩
  · cases t with
    | nil => cases hk
    | cons c t =>
      rw [operandLink?] at hk
      split at hk <;> cases hk
      · exact hold (by simp [NodeKind.holds, hexp]) fun j hj => by
          simp_all [Goal.makes, NodeKind.holds]
      · exact hold hexp fun j hj => hj
      · exact hold hexp fun j hj => by cases hj
      · exact hold hexp fun j hj => by cases hj
      · exact hold hexp fun j hj => by cases hj
      · exact hold hexp fun j hj => by cases hj
  · obtain ⟨_, _, b, -, hb, -, rfl, hg⟩ := operatorLink?_eq_some hk
    have hop : b.node.isOperation = true := isOperation_of_binding hb
    have hholds (j : NodeKind) (hj : j.isExpression = true) : b.node.holds j = true := by
      cases hn : b.node <;> simp_all [NodeKind.isOperation, NodeKind.holds]
    refine hold (hholds k hexp) fun j hj => hholds j ?_
    rcases hg with ⟨-, -, rfl⟩ | ⟨-, rfl⟩ <;> exact hj

end Rule

open Rule

/-- All nodes in the outlines of a text hold only what their kinds may hold. -/
theorem contentLaw_outline (cs : List Cue) :
    Outline.Obey contentLaw (outline cs) (kindsOf cs) := by
  -- linked nodes and the others are made in different ways
  have hsites := outline_obey_of_sites
    (P := fun kind parts ks => kind.isLinked = false → contentLaw kind parts ks)
    (fun kind parts ks hk hn => absurd (hk.symm.trans hn) (by decide))
    (fun _ _ _ _ _ h _ => contentLaw_of_makes h) cs
  have hlinks := outline_obey_of_links
    (P := fun kind parts ks => kind.isLinked = true → contentLaw kind parts ks)
    (fun kind parts ks hk hn => absurd (hk.symm.trans hn) (by decide))
    (fun _ _ _ _ _ _ _ hb hk _ _ => contentLaw_of_link hb hk) cs
  intro p hp
  cases hk : p.kind.isLinked with
  | true => exact hlinks p hp hk
  | false => exact hsites p hp hk

/-- The nodes side by side in the outlines of a text are items. -/
theorem outline_isItem (cs : List Cue) : (outline cs).all (isOf NodeKind.isItem) = true :=
  perform_isOf (r := .seq (items []) .blank) (reach_makes _) (.of_form rfl) cs

end CppMend
