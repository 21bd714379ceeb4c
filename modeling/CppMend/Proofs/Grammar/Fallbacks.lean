import CppMend.Proofs.Grammar.Budget

/-!
# The grammar does without its fallbacks

The loops over items, members and statements take a token by themselves where their body takes none, and
so does a template before its item. This is a fallback against loops that do not end. The body takes a
token wherever one is left, so the fallback is never come to, and the grammar without it does the same.
The fallback of a parameter is not of this sort: it takes what stands where a parameter should.

* `Rule.Spares`           wherever a rule has a fallback, its body takes a token;
* `Rule.bare`             the rule without its fallbacks;
* `Rule.perform_bare`     a rule that spares its fallbacks does the same without them;
* `grammar_spares`        the rules of the grammar do, whatever is ahead;
* `reach_bare`            so the goals do the same in the grammar without fallbacks.
-/

namespace CppMend

theorem Action.LoopLasts.imp {Ok Ok' : List Cue → Prop} {body : Action} (h : ∀ t, Ok t → Ok' t)
    {turns : Nat} {s : List Cue} (hl : LoopLasts Ok body turns s) : LoopLasts Ok' body turns s := by
  induction turns generalizing s with
  | zero => exact hl
  | succ turns ih => exact ⟨h s hl.1, fun hstay => ih (hl.2 hstay)⟩

namespace Rule

open Lookahead

/-- Wherever the rule has a fallback, outside of parameters, the body takes a token. -/
def Spares (budget : Nat) (call : Goal → Action) : Rule → List Cue → Prop
  | .node kind body, s => kind = .parameter ∨ body.Spares budget call s
  | .seq p q, s => p.Spares budget call s ∧ ∀ t, q.Spares budget call t
  | .branch test yes no, s =>
    (test s = true → yes.Spares budget call s) ∧ (test s = false → no.Spares budget call s)
  | .loop body, _ => ∀ t, body.Spares budget call t
  | .atLeastOne body, s => body.Takes budget call s ∧ body.Spares budget call s
  | .headed head _ tail, s => head.Spares budget call s ∧ ∀ t, tail.Spares budget call t
  | .chain head _, s => head.Spares budget call s
  | _, _ => True

/-- the rule has no fallback, but in parameters -/
def isPlain : Rule → Bool
  | .node kind body => kind = .parameter || body.isPlain
  | .seq p q | .branch _ p q | .headed p _ q => p.isPlain && q.isPlain
  | .loop body => body.isPlain
  | .chain head _ => head.isPlain
  | .atLeastOne _ => false
  | _ => true

/-- the rule without its fallbacks, but for those of parameters -/
def bare : Rule → Rule
  | .node kind body => .node kind (if kind = .parameter then body else body.bare)
  | .seq p q => .seq p.bare q.bare
  | .branch test yes no => .branch test yes.bare no.bare
  | .loop body => .loop body.bare
  | .atLeastOne body => body.bare
  | .headed head kind tail => .headed head.bare kind tail.bare
  | .chain head link => .chain head.bare link
  | r => r

variable {budget : Nat} {call : Goal → Action} {ok : Goal → List Cue → Prop} {s : List Cue}

theorem spares_of_isPlain {r : Rule} (h : r.isPlain = true) (s : List Cue) : r.Spares budget call s := by
  induction r generalizing s with
  | node kind body ih =>
    rw [isPlain, Bool.or_eq_true, decide_eq_true_eq] at h
    exact h.imp_right fun h => ih h s
  | seq p q ihp ihq =>
    rw [isPlain, Bool.and_eq_true] at h
    exact ⟨ihp h.1 s, ihq h.2⟩
  | branch test yes no ihy ihn =>
    rw [isPlain, Bool.and_eq_true] at h
    exact ⟨fun _ => ihy h.1 s, fun _ => ihn h.2 s⟩
  | loop body ih => exact ih h
  | atLeastOne body => cases h
  | headed head kind tail ihh iht =>
    rw [isPlain, Bool.and_eq_true] at h
    exact ⟨ihh h.1 s, iht h.2⟩
  | chain head link ih => exact ih h s
  | _ => trivial

/-! ## rules without fallbacks -/

/-- A rule that spares its fallbacks does the same without them. -/
theorem perform_bare {r : Rule} (h : r.Spares budget call s) :
    r.bare.perform budget call s = r.perform budget call s := by
  induction r generalizing s with
  | node kind body ih =>
    rw [bare, perform, perform]
    split
    · rfl
    · next hk => rw [ih (h.resolve_left hk)]
  | seq p q ihp ihq =>
    have hq : q.bare.perform budget call = q.perform budget call := funext fun t => ihq (h.2 t)
    show Action.andThen _ _ s = Action.andThen _ _ s
    rw [hq, Action.andThen, Action.andThen, ihp h.1]
  | branch test yes no ihy ihn =>
    rw [bare, perform, perform]
    split
    · next ht => exact ihy (h.1 ht)
    · next ht => exact ihn (h.2 (Bool.eq_false_iff.mpr ht))
  | loop body ih =>
    have hb : body.bare.perform budget call = body.perform budget call := funext fun t => ih (h t)
    show Action.loop _ budget s = Action.loop _ budget s
    rw [hb]
  | atLeastOne body ih =>
    rw [bare, ih h.2, perform, if_pos ((Outline.anyToken_iff _).mpr h.1)]
  | headed head kind tail ihh iht =>
    have ht : tail.bare.perform budget call = tail.perform budget call := funext fun t => iht (h.2 t)
    rw [bare, perform, perform, ihh h.1, ht]
  | chain head link ih => rw [bare, perform, perform, ih h]
  | _ => rfl

/-- and it comes to its end as before -/
theorem lasts_bare {r : Rule} (h : r.Spares budget call s) (hl : r.Lasts budget call ok s) :
    r.bare.Lasts budget call ok s := by
  induction r generalizing s with
  | node kind body ih =>
    rw [bare]
    split
    · exact hl
    · next hk => exact ih (h.resolve_left hk) hl
  | seq p q ihp ihq =>
    refine ⟨ihp h.1 hl.1, ?_⟩
    rw [perform_bare h.1]
    exact fun hstay => ihq (h.2 _) (hl.2 hstay)
  | branch test yes no ihy ihn =>
    exact ⟨fun ht => ihy (h.1 ht) (hl.1 ht), fun ht => ihn (h.2 ht) (hl.2 ht)⟩
  | loop body ih =>
    have hb : body.bare.perform budget call = body.perform budget call :=
      funext fun t => perform_bare (h t)
    show Action.LoopLasts _ (body.bare.perform budget call) budget s
    rw [hb]
    exact Action.LoopLasts.imp (fun t ht => ih (h t) ht) hl
  | atLeastOne body ih => exact ih h.2 hl.1
  | headed head kind tail ihh iht =>
    refine ⟨ihh h.1 hl.1, ?_⟩
    rw [perform_bare h.1]
    exact iht (h.2 _) hl.2
  | chain head link ih =>
    have hhead : head.bare.perform budget call s = head.perform budget call s := perform_bare h
    refine ⟨ih h hl.1, ?_⟩
    rw [hhead]
    exact hl.2
  | _ => trivial

/-! ## the rules of the grammar -/

/-- A loop with a fallback, up to a test that holds at the end of the text: it has its turns where a
token is left. -/
theorem untilTrue_spares {test : List Cue → Bool} {body : Rule} (he : test [] = true)
    (ht : ∀ t, t ≠ [] → body.Takes budget call t) (hb : ∀ t, body.Spares budget call t)
    (s : List Cue) : (untilTrue test (.atLeastOne body)).Spares budget call s := by
  refine fun t => ⟨fun _ => trivial, fun hf => ⟨ht t ?_, hb t⟩⟩
  rintro rfl
  exact absurd (he.symm.trans hf) (by decide)

theorem block_spares (hc : CallsSound call) : block.Spares budget call s :=
  .inr ⟨trivial, fun t => ⟨untilTrue_spares rfl (fun _ => statement_goal_takes hc) (fun _ => trivial) t,
    spares_of_isPlain rfl⟩⟩

theorem lambda_spares (hc : CallsSound call) : lambda.Spares budget call s := by
  refine .inr ⟨trivial, fun _ => ⟨spares_of_isPlain rfl _, fun _ => ⟨spares_of_isPlain rfl _, ?_⟩⟩⟩
  exact fun _ => ⟨fun _ => block_spares hc, fun _ => trivial⟩

theorem expressionOf_spares (hc : CallsSound call) (power : Nat) :
    (expressionOf power).Spares budget call s := by
  refine ⟨fun _ => ?_, fun _ => trivial⟩
  refine ⟨fun _ => spares_of_isPlain rfl s, fun _ => ⟨fun _ => spares_of_isPlain rfl s, fun _ => ?_⟩⟩
  refine ⟨fun _ => spares_of_isPlain rfl s, fun _ => ⟨fun _ => spares_of_isPlain rfl s, fun _ => ?_⟩⟩
  refine ⟨fun _ => spares_of_isPlain rfl s, fun _ => ⟨fun _ => spares_of_isPlain rfl s, fun _ => ?_⟩⟩
  exact ⟨fun _ => spares_of_isPlain rfl s, fun _ => ⟨fun _ => lambda_spares hc, fun _ => trivial⟩⟩

theorem functionRest_spares (hc : CallsSound call) : functionRest.Spares budget call s :=
  fun t => ⟨fun _ => ⟨block_spares hc, fun _ => trivial⟩, fun _ => spares_of_isPlain rfl t⟩

theorem constructor_spares (hc : CallsSound call) : constructor.Spares budget call s :=
  .inr ⟨spares_of_isPlain rfl s, fun _ => ⟨spares_of_isPlain rfl _, fun _ => functionRest_spares hc⟩⟩

theorem declaration_spares (hc : CallsSound call) (place : Place) :
    (declaration place).Spares budget call s :=
  ⟨spares_of_isPlain rfl s, fun t =>
    ⟨fun _ => ⟨spares_of_isPlain rfl t, fun _ => functionRest_spares hc⟩,
      fun _ => spares_of_isPlain rfl t⟩⟩

theorem recordMember_spares (hc : CallsSound call) : recordMember.Spares budget call s := by
  refine ⟨fun _ => spares_of_isPlain rfl s, fun _ => ⟨fun _ => spares_of_isPlain rfl s, fun _ => ?_⟩⟩
  refine ⟨fun _ => constructor_spares hc, fun _ => ?_⟩
  exact ⟨fun _ => declaration_spares hc .record, fun _ => trivial⟩

theorem fieldList_spares (hc : CallsSound call) : fieldList.Spares budget call s :=
  .inr ⟨trivial, fun t => ⟨untilTrue_spares rfl (fun _ => recordMember_takes hc)
    (fun _ => recordMember_spares hc) t, spares_of_isPlain rfl⟩⟩

theorem recordDef_spares (hc : CallsSound call) (alone : Bool) :
    (recordDef alone).Spares budget call s := by
  refine ⟨trivial, fun _ => ⟨trivial, fun _ => ⟨spares_of_isPlain rfl _, fun _ => ?_⟩⟩⟩
  refine ⟨spares_of_isPlain rfl _, fun _ => ⟨⟨fun _ => fieldList_spares hc, fun _ => trivial⟩, fun t => ?_⟩⟩
  cases alone <;> exact spares_of_isPlain rfl t

theorem enumDef_spares (alone : Bool) : (enumDef alone).Spares budget call s := by
  cases alone <;> exact spares_of_isPlain rfl s

theorem typedefDef_spares (hc : CallsSound call) : typedefDef.Spares budget call s :=
  .inr ⟨trivial, fun t => ⟨⟨fun _ => recordDef_spares hc false, fun _ => spares_of_isPlain rfl t⟩,
    spares_of_isPlain rfl⟩⟩

theorem items_spares (hc : CallsSound call) (closers : List TokenKind) :
    (items closers).Spares budget call s :=
  untilTrue_spares rfl (fun _ => item_goal_takes hc) (fun _ => trivial) s

theorem itemList_spares (hc : CallsSound call) : itemList.Spares budget call s :=
  .inr ⟨trivial, fun _ => ⟨items_spares hc [.rBrace], spares_of_isPlain rfl⟩⟩

theorem linkageSpec_spares (hc : CallsSound call) : linkageSpec.Spares budget call s :=
  .inr ⟨trivial, fun _ => ⟨trivial, fun _ => ⟨fun _ => itemList_spares hc, fun _ => trivial⟩⟩⟩

theorem namespaceDef_spares (hc : CallsSound call) : namespaceDef.Spares budget call s :=
  .inr ⟨trivial, fun _ => ⟨spares_of_isPlain rfl _, fun _ =>
    ⟨fun _ => itemList_spares hc, fun _ => spares_of_isPlain rfl _⟩⟩⟩

theorem templateDef_spares (hc : CallsSound call) : templateDef.Spares budget call s := by
  refine .inr ⟨trivial, fun _ => ⟨spares_of_isPlain rfl _, fun t => ⟨fun h => ?_, fun _ => trivial⟩⟩⟩
  refine ⟨item_goal_takes hc ?_, trivial⟩
  rintro rfl
  cases h

theorem item_spares (hc : CallsSound call) : item.Spares budget call s := by
  refine ⟨fun _ => spares_of_isPlain rfl s, fun _ => ⟨fun _ => trivial, fun _ =>
    ⟨fun _ => templateDef_spares hc, fun _ => ?_⟩⟩⟩
  refine ⟨fun _ => namespaceDef_spares hc, fun _ => ⟨fun _ => spares_of_isPlain rfl s, fun _ =>
    ⟨fun _ => typedefDef_spares hc, fun _ => ?_⟩⟩⟩
  refine ⟨fun _ => linkageSpec_spares hc, fun _ => ⟨fun _ => recordDef_spares hc true, fun _ => ?_⟩⟩
  refine ⟨fun _ => enumDef_spares true, fun _ => ⟨fun _ => constructor_spares hc, fun _ => ?_⟩⟩
  exact ⟨fun _ => declaration_spares hc .file, fun _ => trivial⟩

theorem forStmt_spares (hc : CallsSound call) : forStmt.Spares budget call s := by
  refine .inr ⟨trivial, fun _ => ⟨⟨fun _ => ⟨trivial, fun t => ?_⟩, fun _ => trivial⟩, spares_of_isPlain rfl⟩⟩
  exact ⟨⟨fun _ => declaration_spares hc .body, fun _ => spares_of_isPlain rfl t⟩, spares_of_isPlain rfl⟩

theorem statement_spares (hc : CallsSound call) : statement.Spares budget call s := by
  have plain : ∀ {r : Rule} {test : List Cue → Bool}, r.isPlain = true → test s = true →
      r.Spares budget call s := fun h _ => spares_of_isPlain h s
  refine ⟨fun _ => block_spares hc, fun _ => ⟨plain rfl, fun _ => ⟨plain rfl, fun _ => ?_⟩⟩⟩
  refine ⟨plain rfl, fun _ => ⟨plain rfl, fun _ => ⟨plain rfl, fun _ => ?_⟩⟩⟩
  refine ⟨fun _ => forStmt_spares hc, fun _ => ⟨plain rfl, fun _ => ⟨plain rfl, fun _ => ?_⟩⟩⟩
  refine ⟨plain rfl, fun _ => ⟨plain rfl, fun _ => ⟨plain rfl, fun _ => ⟨plain rfl, fun _ => ?_⟩⟩⟩⟩
  refine ⟨fun _ => typedefDef_spares hc, fun _ => ⟨fun _ => recordDef_spares hc true, fun _ => ?_⟩⟩
  refine ⟨fun _ => enumDef_spares true, fun _ => ⟨fun _ => declaration_spares hc .body, fun _ => ?_⟩⟩
  exact spares_of_isPlain rfl s

end Rule

/-- No rule of the grammar comes to a fallback. -/
theorem grammar_spares {budget : Nat} {call : Goal → Action} (hc : CallsSound call) (g : Goal)
    (s : List Cue) : (grammar g).Spares budget call s := by
  cases g with
  | item => exact Rule.item_spares hc
  | statement => exact Rule.statement_spares hc
  | expression power => exact Rule.expressionOf_spares hc power
  | _ => exact Rule.spares_of_isPlain rfl s

/-- the grammar without fallbacks, but for those of parameters -/
def bareGrammar (g : Goal) : Rule := (grammar g).bare

/-- Without fallbacks, all goals do the same. -/
theorem reach_bare (budget : Nat) : reach bareGrammar budget = reach grammar budget := by
  induction budget with
  | zero => rfl
  | succ budget ih =>
    funext g s
    rw [reach, reach, ih]
    exact Rule.perform_bare (grammar_spares (reach_sound budget) g s)

end CppMend
