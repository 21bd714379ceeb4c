import CppMend.Proofs.Expression.Precedence

/-!
# The parts of expressions

What is wrapped around an expression starts with it, and goes on as its kind says: with an operator and
at most one operand, with arguments, or with the name of a member. So it is for malformed text too, where
an operand, a bracket or a name may be missing.

* `Rule.Follows`        what comes after the first operand in a node;
* `Rule.link_follows`   each link adds just that;
* `viewLaw_outline`     it is so with all wrapped nodes of a text.
-/

namespace CppMend

open Outline (shapesAll)

/-- a node of an expression -/
def Tree.Shape.IsExpression (e : Shape) : Prop :=
  ∃ kind parts, e = .node kind parts ∧ kind.isExpression = true

namespace Rule

open Lookahead

variable {budget : Nat} {s t : List Cue}

/-- What comes after the first operand in a node of some kind. -/
def Follows (kind : NodeKind) (rest : List Tree.Shape) : Prop :=
  match kind with
  | .binaryExpr | .assignExpr => ∃ k b, ∃ right? : Option Tree.Shape,
      rest = .leaf k :: right?.toList ∧ infixPower? k = some b ∧ b.node = kind
        ∧ ∀ right ∈ right?, right.IsExpression
  | .callExpr => ∃ arguments, rest = [.node .argList arguments]
  | .memberExpr => ∃ mark, ∃ names : List TokenKind, rest = .leaf mark :: names.map .leaf
      ∧ mark ∈ [.dot, .arrow] ∧ List.Sublist names [.tilde, .ident]
  | _ => True

/-- nodes that are wrapped around an expression start with it, and go on as their kind says -/
def viewLaw : NodeLaw := fun kind parts ks => kind.isLinked = true →
  ∃ first rest, (shapesAll parts ks).1 = first :: rest ∧ first.IsExpression ∧ Follows kind rest

/-! ## what links add -/

theorem shapes_of_isNodeOf {os : List Outline} (h : IsNodeOf NodeKind.isExpression os)
    (ks : List TokenKind) : ∃ e : Tree.Shape, (shapesAll os ks).1 = [e] ∧ e.IsExpression := by
  obtain ⟨kind, parts, rfl, hk⟩ := h
  exact ⟨.node kind (shapesAll parts ks).1, rfl, kind, _, rfl, hk⟩

/-- An expression is one operand, or none. -/
theorem expression_shapes {power : Nat} (h : Lasting budget (.expression power) s) :
    ∃ e? : Option Tree.Shape,
      (shapesAll (reach grammar budget (.expression power) s).built (kindsOf s)).1 = e?.toList
        ∧ ∀ e ∈ e?, e.IsExpression := by
  rcases expression_isNodeOf h with hb | hb
  · exact ⟨none, by rw [hb]; rfl, nofun⟩
  · obtain ⟨e, hs, he⟩ := shapes_of_isNodeOf hb (kindsOf s)
    exact ⟨some e, hs, by simpa using he⟩

theorem eat_shapes (budget : Nat) (call : Goal → Action) (k : TokenKind) (s : List Cue) :
    ∃ ks : List TokenKind, (shapesAll ((eat k).perform budget call s).built (kindsOf s)).1 = ks.map .leaf
      ∧ List.Sublist ks [k] := by
  rw [eat, onlyIf, perform]
  split
  · next h =>
    cases s with
    | nil => cases h
    | cons c s => exact ⟨[c.kind], rfl, of_decide_eq_true h ▸ List.Sublist.refl _⟩
  · exact ⟨[], rfl, List.nil_sublist _⟩

theorem member_follows {c : Cue} (hc : c.kind ∈ [.dot, .arrow]) : Follows .memberExpr
    (shapesAll (reach grammar (budget + 1) .member (c :: s)).built (kindsOf (c :: s))).1 := by
  let tilde := (eat .tilde).perform budget (reach grammar budget) s
  let name := (eat .ident).perform budget (reach grammar budget) tilde.ahead
  have hbuilt : (reach grammar (budget + 1) .member (c :: s)).built
      = .token :: (tilde.built ++ name.built) :=
    congrArg (Outline.token :: ·) (seq_built (leaving_of_stays (r := eat .tilde) rfl s))
  have hfits : tilde.Fits s := (eat .tilde).perform_fits (reach_fits grammar budget) s
  obtain ⟨tildes, ht, htilde⟩ := eat_shapes budget (reach grammar budget) .tilde s
  obtain ⟨names, hn, hname⟩ := eat_shapes budget (reach grammar budget) .ident tilde.ahead
  refine ⟨c.kind, tildes ++ names, ?_, hc, htilde.append hname⟩
  rw [hbuilt, List.map_append, ← ht, ← hn]
  exact congrArg (Tree.Shape.leaf c.kind :: ·) (Outline.shapesAll_append_of_fits hfits _)

theorem operand_follows {kind : NodeKind} {g : Goal} (hk : operandLink? t = some (kind, g))
    (hl : Lasting budget g t) :
    Follows kind (shapesAll (reach grammar budget g t).built (kindsOf t)).1 := by
  cases budget with
  | zero => exact absurd hl id
  | succ budget =>
    cases t with
    | nil => cases hk
    | cons c t =>
      rw [operandLink?] at hk
      split at hk <;> cases hk
      · exact ⟨_, rfl⟩
      · trivial
      · next h => exact member_follows (by rw [h]; decide)
      · next h => exact member_follows (by rw [h]; decide)
      · trivial
      · trivial

theorem operator_follows {power : Nat} {kind : NodeKind} {g : Goal}
    (hk : operatorLink? power t = some (kind, g)) (hl : Lasting budget g t) :
    Follows kind (shapesAll (reach grammar budget g t).built (kindsOf t)).1 := by
  obtain ⟨c, t, b, rfl, hb, -, rfl, ⟨hkind, -⟩ | ⟨hkind, rfl⟩⟩ := operatorLink?_eq_some hk
  · rw [hkind]
    trivial
  · cases budget with
    | zero => exact absurd hl id
    | succ budget =>
      obtain ⟨right?, hs, hright⟩ := expression_shapes (hl.2 rfl)
      have hshapes : (shapesAll (reach grammar (budget + 1) (.operation b.right) (c :: t)).built
          (kindsOf (c :: t))).1 = .leaf c.kind :: right?.toList :=
        congrArg (Tree.Shape.leaf c.kind :: ·) hs
      have hinfix : infixPower? c.kind = some b := by
        rw [operatorBinding?] at hb
        split at hb
        · cases hb
          exact absurd rfl hkind
        · exact hb
      rw [hshapes]
      rcases infixPower?_cases hinfix with hb | ⟨p, -, hb⟩
      all_goals
        rw [hb]
        exact ⟨c.kind, b, right?, rfl, hinfix, by rw [hb], hright⟩

theorem viewLaw_keptByLinks : KeptByLinks viewLaw := by
  intro budget s built t kind g hfit hnode hk hl _
  obtain ⟨first, hs, hfirst⟩ := shapes_of_isNodeOf hnode (kindsOf s)
  refine ⟨first, (shapesAll (reach grammar budget g t).built (kindsOf t)).1, ?_, hfirst, ?_⟩
  · have happ := Outline.shapesAll_append_of_fits hfit (reach grammar budget g t).built
    rw [hs] at happ
    exact happ
  · rcases hk with hk | ⟨power, hk⟩
    · exact operand_follows hk hl
    · exact operator_follows hk hl

end Rule

/-- All wrapped nodes in the outlines of a text start with an expression and go on as their kind says. -/
theorem viewLaw_outline (cs : List Cue) : Outline.Obey Rule.viewLaw (outline cs) (kindsOf cs) :=
  outline_obey_of_links (fun _ _ _ h hk => absurd (h.symm.trans hk) Bool.false_ne_true)
    Rule.viewLaw_keptByLinks cs

end CppMend
