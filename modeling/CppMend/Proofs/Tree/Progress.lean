import CppMend.Proofs.Grammar.Fallbacks
import CppMend.Proofs.Tree.Construction

/-!
# Building gets on

Wherever a builder is among the tokens of a text, and whatever these are, each construct takes a
significant token if one is left. This is why building comes to its end. Some loops take one token as it
is where their body has not moved on; but the body always does, and without this fallback the same is
built.

* `Rule.Advances`           a rule takes a significant token, and so does the builder;
* `Rule.NeedsNoFallback`    a rule does the same in the grammar without fallbacks;
* `Rule.itemIn`             a declaration at some place, or an item;
* `Builder.advances`        each construct gets on wherever a builder is, and no fallback is needed.
-/

namespace CppMend

namespace Rule

/-- a declaration at some place, or whatever else may stand outside of bodies -/
def itemIn (place : Place) : Rule :=
  .branch Lookahead.startsDeclaration (declaration place) (.goal .item)

/-- The rule takes a token of those ahead of the builder. The builder does not fault on it: it goes on to
a later place in its tokens, with fewer significant ones left, which are those that the rule leaves. -/
structure Advances (budget : Nat) (r : Rule) (b : Builder) : Prop where
  takes : 0 < Outline.sizes (r.perform budget (reach grammar budget) b.cues).built
  builds : ∃ b' leaving, r.build budget (reachBuild grammar budget) b = .ok (b', leaving)
    ∧ b'.tokens = b.tokens ∧ b.place < b'.place
    ∧ Token.significant b'.feed.tokens < Token.significant b.feed.tokens
    ∧ b'.cues = (r.perform budget (reach grammar budget) b.cues).ahead

/-- The rule does the same in the grammar without fallbacks, and so does the builder. -/
structure NeedsNoFallback (budget : Nat) (r : Rule) (b : Builder) : Prop where
  performs : r.bare.perform budget (reach bareGrammar budget) b.cues
    = r.perform budget (reach grammar budget) b.cues
  builds : r.bare.build budget (reachBuild bareGrammar budget) b
    = r.build budget (reachBuild grammar budget) b

end Rule

namespace Builder

variable {b b₁ b₂ : Builder} {os : List Outline}

theorem length_cues (b : Builder) : b.cues.length = Token.significant b.feed.tokens :=
  cuesFrom_length _ _

/-- Where fewer significant tokens are left is a later place. -/
theorem place_lt (ht : b₁.tokens = b₂.tokens)
    (h : Token.significant b₁.feed.tokens < Token.significant b₂.feed.tokens) : b₂.place < b₁.place := by
  refine Nat.lt_of_not_le fun hle => ?_
  have hsub : (b₁.tokens.drop b₂.place).Sublist (b₁.tokens.drop b₁.place) :=
    List.drop_sublist_drop_left _ hle
  change _ < Token.significant (b₂.tokens.drop b₂.place) at h
  rw [← ht] at h
  exact Nat.not_lt_of_le hsub.countP_le h

/-- What has grown by some outlines is known by them. -/
theorem Grown.unique (h₁ : b.Grown os b₁) (h₂ : b.Grown os b₂) : b₁ = b₂ := by
  have hplace : b₁.place = b₂.place := by
    rw [place_eq h₁.place, place_eq h₂.place, h₁.feed, h₂.feed, h₁.tokens, h₂.tokens]
  have htokens := h₁.tokens.trans h₂.tokens.symm
  have hbegun := h₁.begun.trans h₂.begun.symm
  have hparts := h₁.parts.trans h₂.parts.symm
  cases b₁
  cases b₂
  congr

end Builder

/-- Steps that follow the same outcome are the same. -/
theorem Construct.Follows.unique {c c' : Construct} {b : Builder} {o : Outcome} (h : c.Follows b o)
    (h' : c'.Follows b o) : c b = c' b := by
  obtain ⟨b₁, h₁, hg₁⟩ := h
  obtain ⟨b₂, h₂, hg₂⟩ := h'
  rw [h₁, h₂, hg₁.unique hg₂]

/-! ## rules that do not fault -/

namespace Rule

variable {budget : Nat} {b : Builder} {r : Rule}

/-- with enough budget a rule whose loops get on comes to its end -/
theorem lasts_of_budget {s : List Cue} (hr : r.Steady budget (reach grammar budget))
    (h : budgetFor s.length ≤ budget) : r.Lasts budget (reach grammar budget) (Lasting budget) s := by
  rw [budgetFor] at h
  refine lasts_of_steady (reach_sound budget) hr (asks_all hr) (fun g t _ ht => ?_) (by omega)
    (Nat.le_refl s.length)
  have := g.need_le t.length
  exact lasting_of_need (by omega)

theorem build_follows_of_lasts (hb : b.Sound)
    (h : r.Lasts budget (reach grammar budget) (Lasting budget) b.cues) :
    (r.build budget (reachBuild grammar budget)).Follows b
      (r.perform budget (reach grammar budget) b.cues) :=
  build_follows (reach_fits grammar budget) (reachBuild_follows budget) hb h

/-- A rule that ends and takes a token builds without a fault, and the builder gets on. -/
theorem advances_of_takes (hb : b.Sound)
    (h : r.Lasts budget (reach grammar budget) (Lasting budget) b.cues)
    (ht : r.Takes budget (reach grammar budget) b.cues) : r.Advances budget b := by
  obtain ⟨b', hbuild, hg⟩ := build_follows_of_lasts hb h
  have hfits : (r.perform budget (reach grammar budget) b.cues).Fits b.cues :=
    r.perform_fits (reach_fits grammar budget) b.cues
  have hcues := hg.cues_of_fits hfits
  have hleft := (takes_iff (reach_sound budget)).mp ht
  rw [← hcues, Builder.length_cues, Builder.length_cues] at hleft
  exact ⟨ht, b', _, hbuild, hg.tokens, Builder.place_lt hg.tokens hleft, hleft, hcues⟩

/-! ## without fallbacks -/

/-- a goal without fallbacks does what the goal does -/
theorem reachBuild_bare_follows (budget : Nat) (g : Goal) (b : Builder) (hb : b.Sound)
    (h : Lasting budget g b.cues) :
    (reachBuild bareGrammar budget g).Follows b (reach grammar budget g b.cues) := by
  induction budget generalizing g b with
  | zero => cases h
  | succ budget ih =>
    have hspares : (grammar g).Spares budget (reach grammar budget) b.cues :=
      grammar_spares (reach_sound budget) g b.cues
    have hf := build_follows (r := bareGrammar g) (reach_fits grammar budget)
      (fun g b hb h => ih g b hb h) hb (lasts_bare hspares h)
    rw [bareGrammar, perform_bare hspares] at hf
    exact hf

/-- A rule that spares its fallbacks does the same without them, and without those of the goals. -/
theorem needsNoFallback_of_spares (hb : b.Sound) (hs : r.Spares budget (reach grammar budget) b.cues)
    (h : r.Lasts budget (reach grammar budget) (Lasting budget) b.cues) :
    r.NeedsNoFallback budget b := by
  have hf := build_follows (r := r.bare) (reach_fits grammar budget) (reachBuild_bare_follows budget) hb
    (lasts_bare hs h)
  rw [perform_bare hs] at hf
  exact ⟨by rw [reach_bare, perform_bare hs], hf.unique (build_follows_of_lasts hb h)⟩

/-! ## declarations and items -/

theorem itemIn_steady {call : Goal → Action} (hc : CallsSound call) (place : Place) :
    (itemIn place).Steady budget call := ⟨declaration_steady hc place, trivial⟩

theorem itemIn_takes {call : Goal → Action} {s : List Cue} (hc : CallsSound call) (place : Place)
    (hs : s ≠ []) : (itemIn place).Takes budget call s :=
  branch_takes (declaration_takes hc place) fun _ => item_goal_takes hc hs

theorem expressionOf_lasts_of_budget {s : List Cue} (power : Nat) (hs : s ≠ [])
    (h : budgetFor s.length ≤ budget) :
    (expressionOf power).Lasts budget (reach grammar budget) (Lasting budget) s := by
  obtain ⟨c, s, rfl⟩ := List.exists_cons_of_ne_nil hs
  rw [budgetFor, List.length_cons] at h
  refine expressionOf_lasts (m := s.length) (reach_sound budget) power (fun g t ht => ?_) (by omega)
    (Nat.le_refl _)
  have := g.need_le t.length
  exact lasting_of_need (by omega)

end Rule

open Lookahead in
/-- Take a builder at any place in any row of tokens. Where a significant token is left, an item, a
declaration or item at any place, a member of a record, a statement and a parameter all take one, without
a fault. So does an expression where the next token starts one; elsewhere there is none, and it takes
none. So the place is never the one from before when a loop over items, members or statements, or a
template with its item, looks whether it needs its fallback: all do the same without. -/
theorem Builder.advances {b : Builder} (hb : b.Sound) {budget : Nat}
    (h : budgetFor (Token.significant b.feed.tokens) ≤ budget) :
    (0 < Token.significant b.feed.tokens →
        (∀ r ∈ [Rule.item, Rule.recordMember, Rule.statement, Rule.parameter], r.Advances budget b)
        ∧ (∀ place, (Rule.itemIn place).Advances budget b)
        ∧ ∀ power, startsExpression b.cues = true → (Rule.expressionOf power).Advances budget b)
      ∧ (∀ power, startsExpression b.cues = false →
          (Rule.expressionOf power).build budget (reachBuild grammar budget) b = .ok (b.skip, false)
            ∧ Token.significant b.skip.feed.tokens = Token.significant b.feed.tokens)
      ∧ ∀ r ∈ [Rule.items [], Rule.items [.rBrace], Rule.fieldList, Rule.block, Rule.templateDef],
          r.NeedsNoFallback budget b := by
  have hc := reach_sound budget
  rw [← length_cues] at h ⊢
  refine ⟨fun hleft => ?_, fun power hno => ⟨?_, ?_⟩, fun r hr => ?_⟩
  · have hs : b.cues ≠ [] := List.length_pos_iff.mp hleft
    have hmoves : ∀ r : Rule, r.Steady budget (reach grammar budget) →
        r.Takes budget (reach grammar budget) b.cues → r.Advances budget b := fun r hr ht =>
      Rule.advances_of_takes hb (Rule.lasts_of_budget hr h) ht
    refine ⟨fun r hr => ?_, fun place => ?_, fun power hstart => ?_⟩
    · simp only [List.mem_cons, List.not_mem_nil, or_false] at hr
      rcases hr with rfl | rfl | rfl | rfl
      · exact hmoves _ (Rule.item_steady hc) (Rule.item_takes hc hs)
      · exact hmoves _ (Rule.recordMember_steady hc) (Rule.recordMember_takes hc hs)
      · exact hmoves _ (Rule.statement_steady hc) (Rule.statement_takes hc hs)
      · exact hmoves _ (Rule.parameter_steady hc) (Rule.takes_of_sure hc rfl hs)
    · exact hmoves _ (Rule.itemIn_steady hc place) (Rule.itemIn_takes hc place hs)
    · exact Rule.advances_of_takes hb (Rule.expressionOf_lasts_of_budget power hs h)
        (Rule.expressionOf_takes hc power hstart)
  · rw [Rule.expressionOf, Rule.build, look_eq hb, Construct.ok_bind, if_neg (Bool.eq_false_iff.mp hno)]
    rfl
  · rw [← length_cues, cues_skip hb]
  · have hsame : ∀ r : Rule, r.Steady budget (reach grammar budget) →
        r.Spares budget (reach grammar budget) b.cues → r.NeedsNoFallback budget b := fun r hr hspares =>
      Rule.needsNoFallback_of_spares hb hspares (Rule.lasts_of_budget hr h)
    simp only [List.mem_cons, List.not_mem_nil, or_false] at hr
    rcases hr with rfl | rfl | rfl | rfl | rfl
    · exact hsame _ (Rule.items_steady hc []) (Rule.items_spares hc [])
    · exact hsame _ (Rule.items_steady hc [.rBrace]) (Rule.items_spares hc [.rBrace])
    · exact hsame _ (Rule.fieldList_steady hc) (Rule.fieldList_spares hc)
    · exact hsame _ (Rule.block_steady hc) (Rule.block_spares hc)
    · exact hsame _ (Rule.templateDef_steady hc) (Rule.templateDef_spares hc)

/-- a builder in the middle of a record, with a blank before the next member -/
theorem Builder.advances_of_member :
    let b : Builder := ⟨scan "struct a \x7b int b; \x7d;".toList, 5, [], []⟩
    Rule.recordMember.Advances 20 b ∧ (Rule.expressionOf 0).Advances 20 b
      ∧ Rule.block.NeedsNoFallback 20 b := by
  intro b
  have hb : b.Sound := ⟨by decide +kernel, nofun⟩
  have hcount : Token.significant b.feed.tokens = 5 := by decide +kernel
  have hbudget : budgetFor (Token.significant b.feed.tokens) ≤ 20 := by rw [hcount]; decide
  have hleft : 0 < Token.significant b.feed.tokens := by rw [hcount]; decide
  obtain ⟨htakes, -, hsame⟩ := Builder.advances hb hbudget
  obtain ⟨hmoves, -, hexpression⟩ := htakes hleft
  exact ⟨hmoves _ (by simp), hexpression 0 (by decide +kernel), hsame _ (by simp)⟩

end CppMend
