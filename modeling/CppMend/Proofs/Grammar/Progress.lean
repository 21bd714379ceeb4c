import CppMend.Proofs.Grammar.Extent

/-!
# Rules that get on

A loop comes to its end by itself where each of its turns takes a token or leaves it. Whether a
rule takes a token is read off its parts and off the tests that lead to it.

* `Rule.Takes`, `Rule.Turns`   a rule takes a token; it takes one or leaves the loop around it;
* `Rule.stays`, `Rule.sure`    rules that never leave a loop, and rules that take a token wherever
                               there is one, by their form alone;
* `CallsSound`                 goals take a token where their first token stands;
* `Rule.Steady`                each loop of a rule gets on in each turn.
-/

namespace CppMend

namespace Action

variable (link : List Cue → Option (NodeKind × Goal)) (call : Goal → Action)

theorem wrap_leaving (turns : Nat) (built : List Outline) (s : List Cue) :
    (wrap link call turns built s).leaving = false := by
  induction turns generalizing built s with
  | zero => rfl
  | succ turns ih =>
    rw [wrap]
    split
    · rfl
    · exact ih _ _

theorem wrap_ne_nil (turns : Nat) {built : List Outline} {s : List Cue} (h : built ≠ []) :
    (wrap link call turns built s).built ≠ [] := by
  induction turns generalizing built s with
  | zero => exact List.append_ne_nil_of_left_ne_nil h _
  | succ turns ih =>
    rw [wrap]
    split
    · exact h
    · exact ih (List.cons_ne_nil _ _)

/-- links take nothing away from what was built -/
theorem sizes_le_wrap (turns : Nat) (built : List Outline) (s : List Cue) :
    Outline.sizes built ≤ Outline.sizes (wrap link call turns built s).built := by
  induction turns generalizing built s with
  | zero =>
    show _ ≤ Outline.sizes (built ++ _)
    rw [Outline.sizes_append]
    exact Nat.le_add_right _ _
  | succ turns ih =>
    rw [wrap]
    split
    · exact Nat.le_refl _
    · next kind g _ =>
      have h := ih [.node kind (built ++ (call g s).built)] (call g s).ahead
      rw [Outline.sizes_singleton, Outline.size_node, Outline.sizes_append] at h
      exact Nat.le_trans (Nat.le_add_right _ _) h

end Action

namespace Rule

variable {budget : Nat} {call : Goal → Action}

/-- the rule takes a token -/
def Takes (budget : Nat) (call : Goal → Action) (r : Rule) (s : List Cue) : Prop :=
  0 < Outline.sizes (r.perform budget call s).built

/-- the rule takes a token, or leaves the loop around it -/
def Turns (budget : Nat) (call : Goal → Action) (r : Rule) (s : List Cue) : Prop :=
  (r.perform budget call s).leaving = true ∨ r.Takes budget call s

/-! ## forms of rules -/

/-- the rule never leaves the loop around it -/
def stays : Rule → Bool
  | .leave => false
  | .seq p q => p.stays && q.stays
  | .branch _ yes no => yes.stays && no.stays
  | .atLeastOne body => body.stays
  | _ => true

/-- the rule takes a token wherever there is one -/
def sure : Rule → Bool
  | .token | .atLeastOne _ => true
  | .node _ body => body.sure
  | .seq p q => p.sure || (p.stays && q.sure)
  | .branch _ yes no => yes.sure && no.sure
  | .headed head _ tail => head.sure || tail.sure
  | .chain head _ => head.sure
  | _ => false

theorem leaving_of_stays {r : Rule} (h : r.stays = true) (s : List Cue) :
    (r.perform budget call s).leaving = false := by
  induction r generalizing s with
  | leave => cases h
  | token =>
    show (Action.token s).leaving = false
    cases s <;> rfl
  | seq p q ihp ihq =>
    rw [stays, Bool.and_eq_true] at h
    show (Action.andThen (p.perform budget call) (q.perform budget call) s).leaving = false
    rw [Action.andThen, if_neg (by rw [ihp h.1]; exact Bool.false_ne_true)]
    exact ihq h.2 _
  | branch test yes no ihy ihn =>
    rw [stays, Bool.and_eq_true] at h
    rw [perform]
    split
    · exact ihy h.1 s
    · exact ihn h.2 s
  | loop body => exact Action.loop_leaving _ budget s
  | atLeastOne body ih =>
    rw [perform_atLeastOne_leaving]
    exact ih h s
  | chain head link => exact Action.wrap_leaving link call budget _ _
  | _ => rfl

end Rule

/-! ## the parts of a rule -/

/-- where a goal takes a token for sure -/
def Goal.starts : Goal → List Cue → Bool
  | .expression _, s => Lookahead.startsExpression s
  | _, s => !s.isEmpty

theorem Goal.ne_nil_of_starts {g : Goal} {s : List Cue} (h : g.starts s = true) : s ≠ [] := by
  rintro rfl
  cases g <;> cases h

/-- What is asked of the goals: their outcomes fit, and they take a token where they start. -/
structure CallsSound (call : Goal → Action) : Prop where
  fits : CallsFit call
  takes : ∀ g s, g.starts s = true → 0 < Outline.sizes (call g s).built

namespace Rule

variable {budget : Nat} {call : Goal → Action} {s : List Cue}

theorem Takes.turns {r : Rule} (h : r.Takes budget call s) : r.Turns budget call s := Or.inr h

theorem leave_turns : leave.Turns budget call s := Or.inl rfl

/-- what takes no token leaves everything ahead -/
theorem ahead_of_not_takes (hc : CallsSound call) {r : Rule} (h : ¬r.Takes budget call s) :
    (r.perform budget call s).ahead = s :=
  (r.perform_fits hc.fits s).ahead_eq (Nat.eq_zero_of_not_pos h)

theorem takes_iff (hc : CallsSound call) {r : Rule} :
    r.Takes budget call s ↔ (r.perform budget call s).ahead.length < s.length := by
  have hf : (r.perform budget call s).Fits s := r.perform_fits hc.fits s
  have hl := hf.length
  rw [Takes]
  omega

theorem token_takes (hs : s ≠ []) : token.Takes budget call s := by
  cases s with
  | nil => exact absurd rfl hs
  | cons c s => exact Nat.zero_lt_one

theorem tokens_takes {length : List Cue → Nat} (hs : s ≠ []) (hn : 0 < length s) :
    (tokens length).Takes budget call s := by
  show 0 < Outline.sizes ((s.take (length s)).map fun _ => .token)
  rw [Outline.sizes_tokens, List.length_take]
  have := List.length_pos_iff.mpr hs
  omega

theorem node_takes {kind : NodeKind} {body : Rule} (h : body.Takes budget call s) :
    (node kind body).Takes budget call s := h

theorem seq_built {p q : Rule} (h : (p.perform budget call s).leaving = false) :
    ((seq p q).perform budget call s).built
      = (p.perform budget call s).built
        ++ (q.perform budget call (p.perform budget call s).ahead).built := by
  show (Action.andThen (p.perform budget call) (q.perform budget call) s).built = _
  rw [Action.andThen, if_neg (by rw [h]; exact Bool.false_ne_true)]

theorem seq_leaving {p q : Rule} (h : (p.perform budget call s).leaving = false) :
    ((seq p q).perform budget call s).leaving
      = (q.perform budget call (p.perform budget call s).ahead).leaving := by
  show (Action.andThen (p.perform budget call) (q.perform budget call) s).leaving = _
  rw [Action.andThen, if_neg (by rw [h]; exact Bool.false_ne_true)]

theorem seq_of_leaving {p q : Rule} (h : (p.perform budget call s).leaving = true) :
    (seq p q).perform budget call s = p.perform budget call s := by
  show Action.andThen (p.perform budget call) (q.perform budget call) s = _
  rw [Action.andThen, if_pos h]

theorem seq_takes_left {p q : Rule} (h : p.Takes budget call s) :
    (seq p q).Takes budget call s := by
  rw [Takes]
  cases hl : (p.perform budget call s).leaving with
  | true =>
    rw [seq_of_leaving hl]
    exact h
  | false =>
    rw [seq_built hl, Outline.sizes_append]
    rw [Takes] at h
    omega

/-- The second rule takes a token if the first one leaves it one. -/
theorem seq_takes_right (hc : CallsSound call) {p q : Rule} (hp : p.stays = true)
    (h : q.Takes budget call s) : (seq p q).Takes budget call s := by
  by_cases ht : p.Takes budget call s
  · exact seq_takes_left ht
  · rw [Takes, seq_built (leaving_of_stays hp s), ahead_of_not_takes hc ht, Outline.sizes_append]
    rw [Takes] at h
    omega

theorem branch_takes {test : List Cue → Bool} {yes no : Rule}
    (hy : test s = true → yes.Takes budget call s) (hn : test s = false → no.Takes budget call s) :
    (branch test yes no).Takes budget call s := by
  rw [Takes, perform]
  split
  · next h => exact hy h
  · next h => exact hn (Bool.eq_false_iff.mpr h)

theorem loop_takes {body : Rule} (hs : s ≠ []) (h : body.Takes budget call s) :
    (loop body).Takes budget call s := by
  show 0 < Outline.sizes (Action.loop (body.perform budget call) budget s).built
  rw [Takes] at h
  cases budget with
  | zero =>
    show 0 < Outline.sizes (s.map fun _ => .token)
    rw [Outline.sizes_tokens]
    exact List.length_pos_iff.mpr hs
  | succ turns =>
    rw [Action.loop]
    split
    · exact h
    · rw [Outline.sizes_append]
      omega

theorem whileTrue_takes {test : List Cue → Bool} {r : Rule} (hs : s ≠ []) (ht : test s = true)
    (h : r.Takes budget call s) : (whileTrue test r).Takes budget call s :=
  loop_takes hs (branch_takes (fun _ => h) fun hf => absurd (ht.symm.trans hf) (by decide))

theorem untilTrue_takes {test : List Cue → Bool} {r : Rule} (hs : s ≠ []) (ht : test s = false)
    (h : r.Takes budget call s) : (untilTrue test r).Takes budget call s :=
  loop_takes hs (branch_takes (fun hf => absurd (ht.symm.trans hf) (by decide)) fun _ => h)

/-- A loop whose test holds at once builds nothing, unless there is no budget for it. -/
theorem untilTrue_idle {test : List Cue → Bool} {r : Rule} (hs : s ≠ []) (ht : test s = true) :
    ((untilTrue test r).perform budget call s).built = [] ∨
      (untilTrue test r).Takes budget call s := by
  cases budget with
  | zero =>
    right
    show 0 < Outline.sizes (s.map fun _ => .token)
    rw [Outline.sizes_tokens]
    exact List.length_pos_iff.mpr hs
  | succ turns =>
    left
    show (Action.loop ((branch test leave r).perform (turns + 1) call) (turns + 1) s).built = []
    rw [Action.loop, perform, if_pos ht]
    rfl

theorem atLeastOne_takes (hc : CallsSound call) {body : Rule} (hs : s ≠ []) :
    (atLeastOne body).Takes budget call s := by
  rw [Takes, perform]
  split
  · next h => exact (Outline.anyToken_iff _).mp h
  · next h =>
    have ht : ¬body.Takes budget call s := fun ht => h ((Outline.anyToken_iff _).mpr ht)
    rw [ahead_of_not_takes hc ht, Outline.sizes_append]
    have h1 : token.Takes budget call s := token_takes hs
    rw [Takes, perform] at h1
    omega

theorem headed_takes_left {head tail : Rule} {kind : List Cue → NodeKind}
    (h : head.Takes budget call s) : (headed head kind tail).Takes budget call s := by
  show 0 < Outline.sizes ((head.perform budget call s).built ++ _)
  rw [Outline.sizes_append]
  exact Nat.add_pos_left h _

theorem headed_takes_right (hc : CallsSound call) {head tail : Rule} {kind : List Cue → NodeKind}
    (h : tail.Takes budget call s) : (headed head kind tail).Takes budget call s := by
  by_cases ht : head.Takes budget call s
  · exact headed_takes_left ht
  · show 0 < Outline.sizes ((head.perform budget call s).built
      ++ (tail.perform budget call (head.perform budget call s).ahead).built)
    rw [ahead_of_not_takes hc ht, Outline.sizes_append]
    exact Nat.add_pos_right _ h

theorem chain_takes {head : Rule} {link : List Cue → Option (NodeKind × Goal)}
    (h : head.Takes budget call s) : (chain head link).Takes budget call s :=
  Nat.lt_of_lt_of_le h (Action.sizes_le_wrap link call budget _ _)

theorem goal_takes (hc : CallsSound call) {g : Goal} (h : g.starts s = true) :
    (goal g).Takes budget call s := hc.takes g s h

/-- A sure rule takes a token wherever there is one. -/
theorem takes_of_sure (hc : CallsSound call) {r : Rule} (h : r.sure = true) (hs : s ≠ []) :
    r.Takes budget call s := by
  induction r with
  | token => exact token_takes hs
  | node kind body ih => exact node_takes (ih h)
  | seq p q ihp ihq =>
    rw [sure, Bool.or_eq_true, Bool.and_eq_true] at h
    rcases h with h | h
    · exact seq_takes_left (ihp h)
    · exact seq_takes_right hc h.1 (ihq h.2)
  | branch test yes no ihy ihn =>
    rw [sure, Bool.and_eq_true] at h
    exact branch_takes (fun _ => ihy h.1) fun _ => ihn h.2
  | atLeastOne body ih => exact atLeastOne_takes hc hs
  | headed head kind tail ihh iht =>
    rw [sure, Bool.or_eq_true] at h
    rcases h with h | h
    · exact headed_takes_left (ihh h)
    · exact headed_takes_right hc (iht h)
  | chain head link ih => exact chain_takes (ih h)
  | _ => cases h

/-! ## turns of loops -/

theorem branch_turns {test : List Cue → Bool} {yes no : Rule}
    (hy : test s = true → yes.Turns budget call s) (hn : test s = false → no.Turns budget call s) :
    (branch test yes no).Turns budget call s := by
  rw [Turns, Takes, perform]
  split
  · next h => exact hy h
  · next h => exact hn (Bool.eq_false_iff.mpr h)

theorem seq_turns_left {p q : Rule} (h : p.Turns budget call s) : (seq p q).Turns budget call s := by
  rcases h with h | h
  · left
    rw [seq_of_leaving h]
    exact h
  · exact Or.inr (seq_takes_left h)

theorem seq_turns_right (hc : CallsSound call) {p q : Rule} (h : q.Turns budget call s) :
    (seq p q).Turns budget call s := by
  by_cases ht : p.Turns budget call s
  · exact seq_turns_left ht
  · have hl : (p.perform budget call s).leaving = false :=
      Bool.eq_false_iff.mpr fun h => ht (Or.inl h)
    have ha := ahead_of_not_takes hc fun h => ht (Or.inr h)
    rcases h with h | h
    · left
      rw [seq_leaving hl, ha]
      exact h
    · right
      rw [Takes, seq_built hl, ha, Outline.sizes_append]
      exact Nat.add_pos_right _ h

/-- the rule takes a token or leaves the loop around it, wherever there is a token -/
def moves : Rule → Bool
  | .leave => true
  | .seq p q => p.moves || q.moves
  | .branch _ yes no => yes.moves && no.moves
  | r => r.sure

theorem turns_of_moves (hc : CallsSound call) {r : Rule} (h : r.moves = true) (hs : s ≠ []) :
    r.Turns budget call s := by
  induction r with
  | leave => exact leave_turns
  | seq p q ihp ihq =>
    rw [moves, Bool.or_eq_true] at h
    rcases h with h | h
    · exact seq_turns_left (ihp h)
    · exact seq_turns_right hc (ihq h)
  | branch test yes no ihy ihn =>
    rw [moves, Bool.and_eq_true] at h
    exact branch_turns (fun _ => ihy h.1) fun _ => ihn h.2
  | _ => exact (takes_of_sure hc h hs).turns

/-! ## steady rules -/

/-- Every loop in the rule gets on in each turn, wherever it is. A rule that is to take at least
one token builds nothing if it takes none. -/
def Steady (budget : Nat) (call : Goal → Action) : Rule → Prop
  | .node _ body => body.Steady budget call
  | .seq p q => p.Steady budget call ∧ q.Steady budget call
  | .branch _ yes no => yes.Steady budget call ∧ no.Steady budget call
  | .loop body => body.Steady budget call ∧ ∀ s, body.Turns budget call s
  | .atLeastOne body => body.Steady budget call ∧
      ∀ s, s ≠ [] → (body.perform budget call s).built = [] ∨ body.Takes budget call s
  | .headed head _ tail => head.Steady budget call ∧ tail.Steady budget call
  | .chain _ _ => False
  | _ => True

theorem steady_whileTrue {test : List Cue → Bool} {r : Rule} (he : test [] = false)
    (hr : r.Steady budget call) (ht : ∀ s, s ≠ [] → test s = true → r.Turns budget call s) :
    (whileTrue test r).Steady budget call := by
  refine ⟨⟨hr, trivial⟩, ?_⟩
  intro s
  refine branch_turns ?_ fun _ => leave_turns
  intro h
  refine ht s ?_ h
  rintro rfl
  exact absurd (he.symm.trans h) (by decide)

theorem steady_untilTrue {test : List Cue → Bool} {r : Rule} (he : test [] = true)
    (hr : r.Steady budget call) (ht : ∀ s, s ≠ [] → test s = false → r.Turns budget call s) :
    (untilTrue test r).Steady budget call := by
  refine ⟨⟨trivial, hr⟩, ?_⟩
  intro s
  refine branch_turns (fun _ => leave_turns) ?_
  intro h
  refine ht s ?_ h
  rintro rfl
  exact absurd (he.symm.trans h) (by decide)

end Rule

end CppMend
