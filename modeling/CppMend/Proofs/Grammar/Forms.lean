import CppMend.Proofs.Expression.Views
import CppMend.Proofs.Grammar.Functions
import CppMend.Proofs.Grammar.Gives

/-!
# Rules and the shapes they give

What a rule builds takes its shape from the kinds of the tokens that it groups. `Rule.Forms` says which
shapes these are and what is left, and a lemma for each way of writing rules says how they come together.

* `Rule.Forms`                what a rule makes of the cues ahead, as shapes;
* `Rule.forms_of_readsAny`    a rule that only takes tokens makes leaves of them;
* `Rule.forms_expression`     an expression is one node, or nothing;
* `Rule.forms_toSemicolon`    a flat stretch is skipped to its end.
-/

namespace CppMend

open Outline (shapesAll)

/-- some tokens side by side -/
def Tree.Shape.row (ks : List TokenKind) : List Tree.Shape := ks.map .leaf

@[simp] theorem Tree.Shape.row_nil : row [] = [] := rfl

@[simp] theorem Tree.Shape.row_cons (k : TokenKind) (ks : List TokenKind) :
    row (k :: ks) = .leaf k :: row ks := rfl

@[simp] theorem Tree.Shape.row_append (ks ls : List TokenKind) : row (ks ++ ls) = row ks ++ row ls :=
  List.map_append

theorem Outline.shapesAll_tokens (s t : List Cue) :
    (shapesAll (s.map fun _ => .token) (kindsOf (s ++ t))).1 = Tree.Shape.row (kindsOf s) := by
  induction s with
  | nil => rfl
  | cons c s ih =>
    show [.leaf c.kind] ++ (shapesAll (s.map fun _ => .token) (kindsOf (s ++ t))).1 = _
    rw [ih]
    rfl

namespace Rule

open Lookahead Tree.Shape

variable {b : Nat} {p q r : Rule} {s t u : List Cue} {ss us : List Tree.Shape}
  {test : List Cue → Bool} {c : Cue}

/-- Under the budget `b` the rule makes trees of the shapes `ss` from the cues `s` and leaves the cues
`t`. -/
def Forms (b : Nat) (r : Rule) (s : List Cue) (ss : List Tree.Shape) (t : List Cue) : Prop :=
  ∃ os, Gives b r s os t ∧ (shapesAll os (kindsOf s)).1 = ss

/-- the rule comes to its end under the budget `b` -/
abbrev Ends (b : Nat) (r : Rule) (s : List Cue) : Prop := r.Lasts b (reach grammar b) (Lasting b) s

/-- What a rule makes is known from what it builds. -/
theorem Forms.eq (h : Forms b r s ss t) :
    (shapesAll (r.perform b (reach grammar b) s).built (kindsOf s)).1 = ss
      ∧ (r.perform b (reach grammar b) s).ahead = t := by
  obtain ⟨os, hg, hs⟩ := h
  rw [hg]
  exact ⟨hs, rfl⟩

theorem forms_of_stays (h : r.stays = true) (s : List Cue) : ∃ ss t, Forms b r s ss t :=
  ⟨_, _, _, congrArg (Outcome.mk _ _) (leaving_of_stays h s), rfl⟩

theorem forms_nothing : Forms b .nothing s [] s := ⟨[], gives_nothing, rfl⟩

theorem forms_token : Forms b .token (c :: s) [.leaf c.kind] s := ⟨[.token], gives_token, rfl⟩

theorem Forms.seq (hp : Forms b p s ss t) (hq : Forms b q t us u) : Forms b (.seq p q) s (ss ++ us) u := by
  obtain ⟨os, hos, rfl⟩ := hp
  obtain ⟨ps, hps, rfl⟩ := hq
  have hfits : (Outcome.mk os t false).Fits s := hos ▸ p.perform_fits (reach_fits grammar b) s
  exact ⟨os ++ ps, hos.seq hps, Outline.shapesAll_append_of_fits hfits ps⟩

theorem Forms.branch (h : test s = true) (hp : Forms b p s ss t) : Forms b (.branch test p q) s ss t := by
  obtain ⟨os, hos, hs⟩ := hp
  exact ⟨os, hos.branch h, hs⟩

theorem Forms.otherwise (h : test s = false) (hq : Forms b q s ss t) :
    Forms b (.branch test p q) s ss t := by
  obtain ⟨os, hos, hs⟩ := hq
  exact ⟨os, hos.otherwise h, hs⟩

theorem forms_skip (h : test s = false) : Forms b (onlyIf test r) s [] s := .otherwise h forms_nothing

theorem Forms.node (kind : NodeKind) (hp : Forms b p s ss t) :
    Forms b (.node kind p) s [.node kind ss] t := by
  obtain ⟨os, hos, rfl⟩ := hp
  exact ⟨_, hos.node kind, rfl⟩

theorem Forms.headed {kind : List Cue → NodeKind} (hp : Forms b p s ss t) (hq : Forms b q t us u) :
    Forms b (.headed p kind q) s [.node (kind t) (ss ++ us)] u := by
  obtain ⟨os, hos, rfl⟩ := hp
  obtain ⟨ps, hps, rfl⟩ := hq
  have hfits : (Outcome.mk os t false).Fits s := hos ▸ p.perform_fits (reach_fits grammar b) s
  exact ⟨_, hos.headed hps, congrArg (fun us => [Tree.Shape.node (kind t) us])
    (Outline.shapesAll_append_of_fits hfits ps)⟩

/-- A node is made of something. -/
theorem forms_node (kind : NodeKind) (body : Rule) (s : List Cue) :
    ∃ ss t, Forms b (.node kind body) s [.node kind ss] t :=
  ⟨_, _, _, rfl, rfl⟩

/-- what comes after a rule, where both end -/
theorem Forms.ends (hp : Forms b p s ss t) (hl : (Rule.seq p q).Ends b s) : q.Ends b t := by
  obtain ⟨os, hos, -⟩ := hp
  have hq := hl.2
  rw [hos] at hq
  exact hq rfl

/-- A node that is made has the shape that its rule makes. -/
theorem Makes.shapes {kind k : NodeKind} {parts : List Outline} (h : Makes b r s kind parts)
    (hr : Forms b r s [.node k ss] t) : kind = k ∧ (shapesAll parts (kindsOf s)).1 = ss := by
  have hs := hr.eq.1
  rw [h.built] at hs
  injection hs with hs
  injection hs with hk hs
  exact ⟨hk, hs⟩

/-! ## tokens -/

theorem cons_of_next {k : TokenKind} (h : next k s = true) : ∃ c t, s = c :: t ∧ c.kind = k := by
  cases s with
  | nil => cases h
  | cons c s => exact ⟨c, s, rfl, of_decide_eq_true h⟩

theorem cons_of_nextIn {ks : List TokenKind} (h : nextIn ks s = true) :
    ∃ c t, s = c :: t ∧ c.kind ∈ ks := by
  cases s with
  | nil => cases h
  | cons c s => exact ⟨c, s, rfl, List.contains_iff_mem.mp h⟩

theorem forms_eat {k : TokenKind} (h : next k s = true) : ∃ t, Forms b (eat k) s [.leaf k] t := by
  obtain ⟨c, t, rfl, rfl⟩ := cons_of_next h
  exact ⟨t, forms_token.branch h⟩

/-- A rule that takes tokens without a look at them makes leaves of them. -/
theorem forms_of_readsAny (hstay : r.stays = true) (hr : r.ReadsAny s) (hl : r.Ends b s) :
    ∃ taken t, s = taken ++ t ∧ Forms b r s (row (kindsOf taken)) t := by
  obtain ⟨taken, hs, hbuilt⟩ := perform_isFlat hr hl
  refine ⟨taken, _, hs, _, congrArg (Outcome.mk _ _) (leaving_of_stays hstay s), ?_⟩
  have htokens := Outline.shapesAll_tokens taken (r.perform b (reach grammar b) s).ahead
  rw [← hs] at htokens
  rwa [hbuilt]

/-- the tokens up to a `;`, and that itself -/
theorem forms_toSemicolon (hl : toSemicolon.Ends b s) :
    ∃ taken t, s = taken ++ t ∧ Forms b toSemicolon s (row (kindsOf taken)) t :=
  forms_of_readsAny rfl ⟨beforeSemicolon_readsAny, fun _ => ⟨fun h => token_readsAny (ne_nil_of_next h),
    fun _ => trivial⟩⟩ hl

/-! ## expressions -/

/-- An expression is one node, or nothing. -/
theorem forms_expression (hl : expression.Ends b s) :
    ∃ (e? : Option Tree.Shape) (t : List Cue), Forms b expression s e?.toList t
      ∧ ∀ e ∈ e?, e.IsExpression := by
  obtain ⟨e?, hs, he⟩ := expression_shapes hl
  exact ⟨e?, _, ⟨_, rfl, hs⟩, he⟩

end Rule

end CppMend
