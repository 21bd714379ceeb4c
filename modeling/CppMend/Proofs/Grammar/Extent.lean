import CppMend.Grammar.Statements

/-!
# What rules take

Rules take cues from the front of the list ahead, one by one, and leave the rest. That holds of
every rule and every grammar, whether the budget lasts or not.

* `Outcome.Fits`                  the outlines of an outcome group just the cues that it does not
                                  leave;
* `Rule.perform_fits`, `reach_fits`   every rule and every goal has outcomes that fit;
* `outline_eq`                    the outlines of a text group all of its tokens.
-/

namespace CppMend

/-! ## the size of outlines -/

namespace Outline

theorem sizes_nil : sizes [] = 0 := rfl

theorem sizes_cons (o : Outline) (os : List Outline) : sizes (o :: os) = o.size + sizes os := rfl

theorem sizes_append (os ps : List Outline) : sizes (os ++ ps) = sizes os + sizes ps := by
  induction os with
  | nil =>
    rw [List.nil_append, sizes_nil]
    omega
  | cons o os ih =>
    rw [List.cons_append, sizes_cons, sizes_cons, ih]
    omega

theorem sizes_singleton (o : Outline) : sizes [o] = o.size := rfl

theorem size_node (kind : NodeKind) (parts : List Outline) :
    (Outline.node kind parts).size = sizes parts := rfl

theorem sizes_tokens (s : List Cue) : sizes (s.map fun _ => .token) = s.length := by
  induction s with
  | nil => rfl
  | cons c s ih =>
    rw [List.map_cons, sizes_cons, ih, List.length_cons]
    show 1 + s.length = s.length + 1
    omega

theorem sizes_replicate (n : Nat) : sizes (List.replicate n .token) = n := by
  induction n with
  | zero => rfl
  | succ n ih => rw [List.replicate_succ, sizes_cons, ih, size, Nat.add_comm]

mutual

theorem hasToken_iff : ∀ o : Outline, o.hasToken = true ↔ 0 < o.size
  | .token => by simp [hasToken, size]
  | .blank => by simp [hasToken, size]
  | .node _ parts => by
    rw [hasToken, size]
    exact anyToken_iff parts

theorem anyToken_iff : ∀ os : List Outline, anyToken os = true ↔ 0 < sizes os
  | [] => by simp [anyToken, sizes]
  | o :: os => by
    rw [anyToken, sizes_cons, Bool.or_eq_true, hasToken_iff o, anyToken_iff os]
    omega

end

end Outline

/-! ## outcomes that fit -/

/-- The outlines group just the cues that are not left. -/
structure Outcome.Fits (o : Outcome) (s : List Cue) : Prop where
  le : Outline.sizes o.built ≤ s.length
  rest : o.ahead = s.drop (Outline.sizes o.built)

/-- every goal has outcomes that fit -/
def CallsFit (call : Goal → Action) : Prop := ∀ g s, (call g s).Fits s

namespace Outcome.Fits

variable {o p : Outcome} {s : List Cue}

theorem length (h : o.Fits s) : o.ahead.length + Outline.sizes o.built = s.length := by
  have := h.le
  rw [h.rest, List.length_drop]
  omega

/-- what takes no token leaves everything -/
theorem ahead_eq (h : o.Fits s) (h0 : Outline.sizes o.built = 0) : o.ahead = s := by
  rw [h.rest, h0, List.drop_zero]

/-- one outcome after another -/
theorem append {b : Bool} (h : o.Fits s) (h' : p.Fits o.ahead) :
    (Outcome.mk (o.built ++ p.built) p.ahead b).Fits s := by
  have hl := h.length
  have hl' := h'.length
  refine ⟨?_, ?_⟩
  · show Outline.sizes (o.built ++ p.built) ≤ s.length
    rw [Outline.sizes_append]
    omega
  · show p.ahead = s.drop (Outline.sizes (o.built ++ p.built))
    rw [Outline.sizes_append, h'.rest, h.rest, List.drop_drop]

/-- the tokens of an outcome may be grouped in any other way -/
theorem regroup {os : List Outline} {b : Bool} (h : o.Fits s)
    (hs : Outline.sizes os = Outline.sizes o.built) : (Outcome.mk os o.ahead b).Fits s := by
  refine ⟨?_, ?_⟩
  · show Outline.sizes os ≤ s.length
    rw [hs]
    exact h.le
  · show o.ahead = s.drop (Outline.sizes os)
    rw [hs]
    exact h.rest

end Outcome.Fits

namespace Action

theorem flat_fits (s : List Cue) : (flat s).Fits s := by
  refine ⟨?_, ?_⟩
  · show Outline.sizes (s.map fun _ => .token) ≤ s.length
    exact Nat.le_of_eq (Outline.sizes_tokens s)
  · show [] = s.drop (Outline.sizes (s.map fun _ => .token))
    rw [Outline.sizes_tokens, List.drop_length]

theorem token_fits (s : List Cue) : (token s).Fits s := by
  cases s with
  | nil => exact ⟨Nat.le_refl 0, rfl⟩
  | cons c s => exact ⟨Nat.succ_le_succ (Nat.zero_le _), rfl⟩

theorem tokens_fits (n : Nat) (s : List Cue) : (tokens n s).Fits s := by
  have hl : (s.take n).length = min n s.length := List.length_take
  refine ⟨?_, ?_⟩
  · show Outline.sizes ((s.take n).map fun _ => .token) ≤ s.length
    rw [Outline.sizes_tokens]
    omega
  · show s.drop n = s.drop (Outline.sizes ((s.take n).map fun _ => .token))
    rw [Outline.sizes_tokens, hl]
    rcases Nat.le_total n s.length with h | h
    · rw [Nat.min_eq_left h]
    · rw [Nat.min_eq_right h, List.drop_of_length_le h, List.drop_length]

theorem loop_fits {body : Action} (hb : ∀ s, (body s).Fits s) (turns : Nat) (s : List Cue) :
    (loop body turns s).Fits s := by
  induction turns generalizing s with
  | zero => exact flat_fits s
  | succ turns ih =>
    rw [loop]
    split
    · exact (hb s).regroup rfl
    · exact (hb s).append (ih (body s).ahead)

theorem wrap_fits {link : List Cue → Option (NodeKind × Goal)} {call : Goal → Action}
    (hc : CallsFit call) {o : Outcome} {s₀ : List Cue} (ho : o.Fits s₀) (turns : Nat) :
    (wrap link call turns o.built o.ahead).Fits s₀ := by
  induction turns generalizing o with
  | zero => exact ho.append (flat_fits o.ahead)
  | succ turns ih =>
    rw [wrap]
    split
    · exact ho.regroup rfl
    · next kind g _ =>
      have hw : (Outcome.mk [.node kind (o.built ++ (call g o.ahead).built)]
          (call g o.ahead).ahead false).Fits s₀ :=
        (ho.append (b := false) (hc g o.ahead)).regroup rfl
      exact ih hw

end Action

/-! ## rules and goals -/

theorem Rule.perform_fits {budget : Nat} {call : Goal → Action} (hc : CallsFit call) (r : Rule)
    (s : List Cue) : (r.perform budget call s).Fits s := by
  induction r generalizing s with
  | nothing => exact ⟨Nat.zero_le _, rfl⟩
  | leave => exact ⟨Nat.zero_le _, rfl⟩
  | token => exact Action.token_fits s
  | tokens length => exact Action.tokens_fits (length s) s
  | blank => exact ⟨Nat.zero_le _, rfl⟩
  | node kind body ih => exact (ih s).regroup rfl
  | seq p q ihp ihq =>
    show (Action.andThen (p.perform budget call) (q.perform budget call) s).Fits s
    rw [Action.andThen]
    split
    · exact ihp s
    · exact (ihp s).append (ihq _)
  | branch test yes no ihy ihn =>
    rw [Rule.perform]
    split
    · exact ihy s
    · exact ihn s
  | loop body ih => exact Action.loop_fits ih budget s
  | atLeastOne body ih =>
    rw [Rule.perform]
    split
    · exact ih s
    · exact (ih s).append (Action.token_fits _)
  | headed head kind tail ihh iht =>
    exact ((ihh s).append (b := false) (iht (head.perform budget call s).ahead)).regroup rfl
  | chain head link ih => exact Action.wrap_fits hc (ih s) budget
  | goal g => exact (hc g s).regroup rfl

theorem reach_fits (grammar : Goal → Rule) (budget : Nat) : CallsFit (reach grammar budget) := by
  induction budget with
  | zero =>
    intro g s
    exact Action.flat_fits s
  | succ budget ih =>
    intro g s
    exact (grammar g).perform_fits ih s

/-! ## whole texts -/

theorem Rule.perform_atLeastOne_leaving (budget : Nat) (call : Goal → Action) (body : Rule)
    (s : List Cue) : ((Rule.atLeastOne body).perform budget call s).leaving
      = (body.perform budget call s).leaving := by
  rw [Rule.perform]
  by_cases h : Outline.anyToken (body.perform budget call s).built = true
  · rw [if_pos h]
  · rw [if_neg h]

/-- A loop stops where its body leaves it, or takes everything. -/
theorem Action.loop_ahead (body : Action) (turns : Nat) (s : List Cue) :
    (loop body turns s).ahead = [] ∨
      ∃ t, (body t).leaving = true ∧ (loop body turns s).ahead = (body t).ahead := by
  induction turns generalizing s with
  | zero => exact Or.inl rfl
  | succ turns ih =>
    rw [loop]
    split
    · next h => exact Or.inr ⟨s, h, rfl⟩
    · exact ih (body s).ahead

/-- A loop whose body does not leave it stops where its test holds, or takes everything. -/
theorem Rule.untilTrue_ahead {budget : Nat} {call : Goal → Action} (test : List Cue → Bool)
    {r : Rule} (hr : ∀ s, (r.perform budget call s).leaving = false) (s : List Cue) :
    ((untilTrue test r).perform budget call s).ahead = [] ∨
      test ((untilTrue test r).perform budget call s).ahead = true := by
  rcases Action.loop_ahead ((Rule.branch test .leave r).perform budget call) budget s with
    h | ⟨t, hl, h⟩
  · exact Or.inl h
  · right
    have ht : test t = true := by
      cases ht : test t with
      | true => rfl
      | false =>
        rw [Rule.perform, ht, if_neg Bool.false_ne_true, hr t] at hl
        exact absurd hl Bool.false_ne_true
    have he : ((untilTrue test r).perform budget call s).ahead = t := by
      show (Action.loop _ budget s).ahead = t
      rw [h, Rule.perform, if_pos ht]
      rfl
    rw [he]
    exact ht

theorem Action.loop_leaving (body : Action) (turns : Nat) (s : List Cue) :
    (loop body turns s).leaving = false := by
  cases turns with
  | zero => rfl
  | succ turns =>
    rw [loop]
    split <;> rfl

theorem Rule.items_leaving {budget : Nat} {call : Goal → Action} (closers : List TokenKind)
    (s : List Cue) : ((items closers).perform budget call s).leaving = false :=
  Action.loop_leaving _ budget s

/-- items that nothing closes go on to the end of the text -/
theorem Rule.items_ahead {budget : Nat} {call : Goal → Action} (s : List Cue) :
    ((items []).perform budget call s).ahead = [] := by
  have hr : ∀ t, ((Rule.atLeastOne (.goal .item)).perform budget call t).leaving = false :=
    fun t => Rule.perform_atLeastOne_leaving budget call (.goal .item) t
  rcases Rule.untilTrue_ahead (Lookahead.endOr []) hr s with h | h
  · exact h
  · show ((untilTrue (Lookahead.endOr []) (.atLeastOne (.goal .item))).perform budget call s).ahead
      = []
    cases ht : ((untilTrue (Lookahead.endOr []) (.atLeastOne (.goal .item))).perform budget call
      s).ahead with
    | nil => rfl
    | cons c t =>
      rw [ht] at h
      exact absurd h Bool.false_ne_true

/-- The outlines of a text group all of its tokens, and end with a place for blanks. -/
theorem outline_eq (cs : List Cue) : ∃ os, outline cs = os ++ [.blank] ∧ Outline.sizes os = cs.length := by
  have hc := reach_fits grammar (budgetFor cs.length)
  have hf : ((Rule.items []).perform (budgetFor cs.length)
      (reach grammar (budgetFor cs.length)) cs).Fits cs := (Rule.items []).perform_fits hc cs
  have hl := hf.length
  rw [Rule.items_ahead, List.length_nil, Nat.zero_add] at hl
  refine ⟨_, ?_, hl⟩
  show (Action.andThen _ _ cs).built = _
  rw [Action.andThen, if_neg (by rw [Rule.items_leaving]; exact Bool.false_ne_true)]
  rfl

end CppMend
