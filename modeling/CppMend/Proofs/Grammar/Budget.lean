import CppMend.Proofs.Grammar.Steady

/-!
# The budget lasts

Rules are performed under a budget. What follows says that the budget of a text is never spent, so
that it only serves to define what rules do: with any larger budget they do the same.

* `Rule.Lasts`, `Lasting`     a rule and a goal come to their end before the budget is spent;
* `Rule.asks`, `Rule.defers`  which goals a rule may come to, and which it comes to at once;
* `need`                      a budget that is enough for a goal and a number of tokens;
* `lasting_of_need`           with that budget, every goal comes to its end;
* `outlineWithin_eq`          the outlines of a text do not depend on the budget.
-/

namespace CppMend

/-! ## ends before the budget is spent -/

namespace Action

/-- The loop ends before its turns are spent, and its body is as `ok` says on each turn. -/
def LoopLasts (ok : List Cue → Prop) (body : Action) : Nat → List Cue → Prop
  | 0, _ => False
  | turns + 1, s => ok s ∧ ((body s).leaving = false → LoopLasts ok body turns (body s).ahead)

/-- The links end before the turns are spent, and their goals are as `ok` says. -/
def WrapLasts (ok : Goal → List Cue → Prop) (link : List Cue → Option (NodeKind × Goal))
    (call : Goal → Action) : Nat → List Cue → Prop
  | 0, _ => False
  | turns + 1, s => ∀ kind g, link s = some (kind, g) →
      ok g s ∧ WrapLasts ok link call turns (call g s).ahead

end Action

/-- The rule comes to its end before the budget is spent, where its goals are as `ok` says. A chain
has something to link, and a rule that builds something without a token stands at the end of the
text, if it is to take a token. -/
def Rule.Lasts (budget : Nat) (call : Goal → Action) (ok : Goal → List Cue → Prop) :
    Rule → List Cue → Prop
  | .node _ body, s => body.Lasts budget call ok s
  | .seq p q, s => p.Lasts budget call ok s ∧ ((p.perform budget call s).leaving = false →
      q.Lasts budget call ok (p.perform budget call s).ahead)
  | .branch test yes no, s => (test s = true → yes.Lasts budget call ok s)
      ∧ (test s = false → no.Lasts budget call ok s)
  | .loop body, s =>
      Action.LoopLasts (body.Lasts budget call ok) (body.perform budget call) budget s
  | .atLeastOne body, s => body.Lasts budget call ok s
      ∧ (s = [] ∨ (body.perform budget call s).built = [] ∨ body.Takes budget call s)
  | .headed head _ tail, s => head.Lasts budget call ok s
      ∧ tail.Lasts budget call ok (head.perform budget call s).ahead
  | .chain head link, s => head.Lasts budget call ok s
      ∧ (head.perform budget call s).built ≠ []
      ∧ Action.WrapLasts ok link call budget (head.perform budget call s).ahead
  | .goal g, s => ok g s
  | _, _ => True

/-- The goal comes to its end before the budget is spent. -/
def Lasting : Nat → Goal → List Cue → Prop
  | 0, _, _ => False
  | budget + 1, g, s => (grammar g).Lasts budget (reach grammar budget) (Lasting budget) s

namespace Rule

variable {budget m : Nat} {call : Goal → Action} {ok : Goal → List Cue → Prop} {s : List Cue}

theorem length_ahead_le (hc : CallsSound call) (r : Rule) (s : List Cue) :
    (r.perform budget call s).ahead.length ≤ s.length := by
  have h : (r.perform budget call s).Fits s := r.perform_fits hc.fits s
  have := h.length
  omega

/-- what holds of a choice, if it holds of the rule that the test chooses -/
theorem branch_outcome {P : Outcome → Prop} {test : List Cue → Bool} {yes no : Rule}
    (hl : (branch test yes no).Lasts budget call ok s)
    (hy : test s = true → yes.Lasts budget call ok s → P (yes.perform budget call s))
    (hn : test s = false → no.Lasts budget call ok s → P (no.perform budget call s)) :
    P ((branch test yes no).perform budget call s) := by
  rw [perform]
  split
  · next h => exact hy h (hl.1 h)
  · next h =>
    have h := Bool.eq_false_iff.mpr h
    exact hn h (hl.2 h)

/-- A loop that gets on ends before it has had more turns than there are tokens. -/
theorem loopLasts_of_turns (hc : CallsSound call) {body : Rule}
    (hb : ∀ t, body.Turns budget call t) {Ok : List Cue → Prop} (hok : ∀ t, t.length ≤ m → Ok t)
    {turns : Nat} (hs : s.length ≤ m) (ht : s.length < turns) :
    Action.LoopLasts Ok (body.perform budget call) turns s := by
  induction turns generalizing s with
  | zero => exact absurd ht (Nat.not_lt_zero _)
  | succ turns ih =>
    refine ⟨hok s hs, ?_⟩
    intro hl
    have h : body.Takes budget call s := by
      rcases hb s with h | h
      · exact absurd (hl.symm.trans h) (by decide)
      · exact h
    have hlt := (takes_iff hc).mp h
    exact ih (by omega) (by omega)

/-! ## goals that a rule comes to -/

/-- the goals of the rule are among the allowed ones, and no chain is in it -/
def asks (allowed : Goal → Bool) : Rule → Bool
  | .node _ body | .loop body | .atLeastOne body => body.asks allowed
  | .seq p q | .branch _ p q | .headed p _ q => p.asks allowed && q.asks allowed
  | .goal g => allowed g
  | .chain _ _ => false
  | _ => true

/-- the goals that the rule comes to before it takes a token are among the allowed ones -/
def defers (allowed : Goal → Bool) : Rule → Bool
  | .node _ body | .loop body | .atLeastOne body => body.defers allowed
  | .seq p q | .headed p _ q => p.defers allowed && (p.sure || q.defers allowed)
  | .branch _ p q => p.defers allowed && q.defers allowed
  | .goal g => allowed g
  | .chain _ _ => false
  | _ => true

/-- A steady rule with enough budget for its loops ends if its goals do. -/
theorem lasts_of_steady (hc : CallsSound call) {allowed : Goal → Bool} {r : Rule}
    (hr : r.Steady budget call) (ha : r.asks allowed = true)
    (hok : ∀ g t, allowed g = true → t.length ≤ m → ok g t) (hb : m < budget)
    (hs : s.length ≤ m) : r.Lasts budget call ok s := by
  induction r generalizing s with
  | node kind body ih => exact ih hr ha hs
  | seq p q ihp ihq =>
    rw [asks, Bool.and_eq_true] at ha
    exact ⟨ihp hr.1 ha.1 hs, fun _ => ihq hr.2 ha.2 (Nat.le_trans (length_ahead_le hc p s) hs)⟩
  | branch test yes no ihy ihn =>
    rw [asks, Bool.and_eq_true] at ha
    exact ⟨fun _ => ihy hr.1 ha.1 hs, fun _ => ihn hr.2 ha.2 hs⟩
  | loop body ih =>
    exact loopLasts_of_turns hc hr.2 (fun t ht => ih hr.1 ha ht) hs (Nat.lt_of_le_of_lt hs hb)
  | atLeastOne body ih =>
    refine ⟨ih hr.1 ha hs, ?_⟩
    by_cases h : s = []
    · exact Or.inl h
    · exact Or.inr (hr.2 s h)
  | headed head kind tail ihh iht =>
    rw [asks, Bool.and_eq_true] at ha
    exact ⟨ihh hr.1 ha.1 hs, iht hr.2 ha.2 (Nat.le_trans (length_ahead_le hc head s) hs)⟩
  | chain head link => cases hr
  | goal g => exact hok g s ha hs
  | _ => trivial

theorem asks_all {r : Rule} (hr : r.Steady budget call) : r.asks (fun _ => true) = true := by
  induction r with
  | node kind body ih => exact ih hr
  | loop body ih => exact ih hr.1
  | atLeastOne body ih => exact ih hr.1
  | seq p q ihp ihq =>
    rw [asks, ihp hr.1, ihq hr.2]
    rfl
  | branch test yes no ihy ihn =>
    rw [asks, ihy hr.1, ihn hr.2]
    rfl
  | headed head kind tail ihh iht =>
    rw [asks, ihh hr.1, iht hr.2]
    rfl
  | chain head link => cases hr
  | _ => rfl

/-- What holds after the first of two rules, if it holds of fewer tokens, and of as many where the
first one is not sure to take one. -/
theorem second_of_first (hc : CallsSound call) {p : Rule} {Q : Prop} {L : List Cue → Prop}
    (hs : s.length ≤ m + 1) (h : p.sure = true ∨ Q) (hlater : ∀ t, t.length ≤ m → L t)
    (hnow : Q → ∀ t, t.length ≤ m + 1 → L t) : L (p.perform budget call s).ahead := by
  have hl : (p.perform budget call s).ahead.length ≤ s.length := length_ahead_le hc p s
  rcases h with h | h
  · refine hlater _ ?_
    by_cases hn : s = []
    · rw [hn, List.length_nil] at hl
      rw [hn]
      omega
    · have ht : p.Takes budget call s := takes_of_sure hc h hn
      have := (takes_iff hc).mp ht
      omega
  · exact hnow h _ (Nat.le_trans hl hs)

/-- A steady rule ends if its goals end on fewer tokens, and those that it may come to at once end
on all tokens. -/
theorem lasts_of_defers (hc : CallsSound call) {allowed : Goal → Bool} {r : Rule}
    (hr : r.Steady budget call) (hd : r.defers allowed = true)
    (hok : ∀ g t, t.length ≤ m → ok g t) (hnow : ∀ g t, allowed g = true → t.length ≤ m + 1 → ok g t)
    (hb : m + 1 < budget) (hs : s.length ≤ m + 1) : r.Lasts budget call ok s := by
  -- what comes after the first token
  have later : ∀ {q : Rule} {t : List Cue}, q.Steady budget call → t.length ≤ m →
      q.Lasts budget call ok t := fun hq ht =>
    lasts_of_steady hc hq (asks_all hq) (fun g u _ => hok g u) (by omega) ht
  induction r generalizing s with
  | node kind body ih => exact ih hr hd hs
  | seq p q ihp ihq =>
    rw [defers, Bool.and_eq_true, Bool.or_eq_true] at hd
    exact ⟨ihp hr.1 hd.1 hs, fun _ => second_of_first hc hs hd.2 (fun t => later hr.2)
      fun h t => ihq hr.2 h⟩
  | branch test yes no ihy ihn =>
    rw [defers, Bool.and_eq_true] at hd
    exact ⟨fun _ => ihy hr.1 hd.1 hs, fun _ => ihn hr.2 hd.2 hs⟩
  | loop body ih =>
    exact loopLasts_of_turns hc hr.2 (fun t ht => ih hr.1 hd ht) hs (Nat.lt_of_le_of_lt hs hb)
  | atLeastOne body ih =>
    refine ⟨ih hr.1 hd hs, ?_⟩
    by_cases h : s = []
    · exact Or.inl h
    · exact Or.inr (hr.2 s h)
  | headed head kind tail ihh iht =>
    rw [defers, Bool.and_eq_true, Bool.or_eq_true] at hd
    exact ⟨ihh hr.1 hd.1 hs, second_of_first hc hs hd.2 (fun t => later hr.2)
      fun h t => iht hr.2 h⟩
  | chain head link => cases hr
  | goal g => exact hnow g s hd hs
  | _ => trivial

/-! ## chains -/

/-- A chain ends if its head takes a token and each link goes on with a goal that takes one. -/
theorem chain_lasts (hc : CallsSound call) {head : Rule}
    {link : List Cue → Option (NodeKind × Goal)} (hh : head.Lasts budget call ok s)
    (ht : head.Takes budget call s)
    (hlink : ∀ t kind g, link t = some (kind, g) → g.starts t = true)
    (hok : ∀ g t, t.length ≤ m → ok g t) (hb : m < budget) (hs : s.length ≤ m + 1) :
    (chain head link).Lasts budget call ok s := by
  refine ⟨hh, ?_, ?_⟩
  · intro hn
    rw [Takes, hn] at ht
    exact absurd ht (Nat.lt_irrefl 0)
  · have hlt := (takes_iff hc).mp ht
    -- by induction on the turns, of which there are more than tokens ahead
    have turn : ∀ turns t, t.length ≤ m → t.length < turns →
        Action.WrapLasts ok link call turns t := by
      intro turns
      induction turns with
      | zero =>
        intro t _ h
        exact absurd h (Nat.not_lt_zero _)
      | succ turns ih =>
        intro t htm htt kind g hk
        refine ⟨hok g t htm, ?_⟩
        have hp := hc.takes g t (hlink t kind g hk)
        have hf := (hc.fits g t).length
        exact ih _ (by omega) (by omega)
    exact turn budget _ (by omega) (by omega)

theorem operandLink_starts (t : List Cue) (kind : NodeKind) (g : Goal)
    (h : operandLink? t = some (kind, g)) : g.starts t = true := by
  cases t with
  | nil => cases h
  | cons c t =>
    rw [operandLink?] at h
    split at h <;> cases h <;> rfl

theorem operatorLink_starts (power : Nat) (t : List Cue) (kind : NodeKind) (g : Goal)
    (h : operatorLink? power t = some (kind, g)) : g.starts t = true := by
  cases t with
  | nil => cases h
  | cons c t =>
    rw [operatorLink?] at h
    split at h
    · split at h <;> cases h
      rfl
    · split at h
      · cases h
      · split at h <;> cases h
        rfl

open Lookahead

theorem operand_lasts (hc : CallsSound call) (h : startsExpression s = true)
    (hok : ∀ g t, t.length ≤ m → ok g t) (hb : m + 1 < budget) (hs : s.length ≤ m + 1) :
    operand.Lasts budget call ok s := by
  have deferred : ∀ {r : Rule}, r.Steady budget call → r.defers (fun _ => false) = true →
      r.Lasts budget call ok s := fun hr hd =>
    lasts_of_defers hc hr hd hok (fun _ _ hf => absurd hf (by decide)) hb hs
  refine ⟨fun _ => ?_, fun hp => ⟨fun _ => ?_, fun _ => ?_⟩⟩
  · exact deferred (r := .node .unaryExpr _) ⟨trivial, ⟨trivial, trivial⟩, trivial⟩ rfl
  · exact deferred (r := .node .castExpr _) ⟨trivial, typeRef_steady hc, eat_steady .rParen, trivial⟩
      rfl
  · exact chain_lasts hc (deferred (primary_steady hc) rfl) (primary_takes hc h hp)
      operandLink_starts hok (by omega) hs

theorem expressionOf_lasts (hc : CallsSound call) (power : Nat)
    (hok : ∀ g t, t.length ≤ m → ok g t) (hb : m + 1 < budget) (hs : s.length ≤ m + 1) :
    (expressionOf power).Lasts budget call ok s :=
  ⟨fun h => chain_lasts hc (operand_lasts hc h hok hb hs) (operand_takes hc h)
    (operatorLink_starts power) hok (by omega) hs, fun _ => trivial⟩

/-! ## the end of the text -/

/-- Where no test holds, only the rule that is left has to end. -/
theorem choose_lasts {cases : List ((List Cue → Bool) × Rule)} {otherwise : Rule}
    (h : cases.all (fun c => !c.1 s) = true) (ho : otherwise.Lasts budget call ok s) :
    (choose cases otherwise).Lasts budget call ok s := by
  induction cases with
  | nil => exact ho
  | cons c cases ih =>
    rw [List.all_cons, Bool.and_eq_true, Bool.not_eq_true'] at h
    exact ⟨fun hf => absurd (h.1.symm.trans hf) (by decide), fun _ => ih h.2⟩

end Rule

/-! ## enough budget -/

namespace Goal

def isExpression : Goal → Bool
  | .expression _ => true
  | _ => false

/-- A budget that is enough for a goal and `n` tokens. A statement may come to an expression before
it takes a token, and no other goal comes to one. -/
def need (g : Goal) (n : Nat) : Nat := if g.isExpression then 2 * n + 1 else 2 * n + 2

theorem need_le (g : Goal) (n : Nat) : g.need n ≤ 2 * n + 2 := by
  rw [need]
  split <;> omega

end Goal

open Rule in
theorem grammar_steady {budget : Nat} {call : Goal → Action} (hc : CallsSound call) {g : Goal}
    (h : g.isExpression = false) : (grammar g).Steady budget call := by
  cases g with
  | item => exact item_steady hc
  | statement => exact statement_steady hc
  | expression power => cases h
  | operation power => exact ⟨trivial, trivial⟩
  | alternatives => exact ⟨trivial, trivial, ⟨trivial, trivial⟩, trivial⟩
  | arguments => exact argList_steady hc
  | subscript => exact ⟨trivial, trivial, eat_steady .rBracket⟩
  | member => exact ⟨trivial, eat_steady .tilde, eat_steady .ident⟩
  | step => exact trivial

theorem grammar_defers {g : Goal} (h : g.isExpression = false) :
    (grammar g).defers Goal.isExpression = true := by
  cases g with
  | expression power => cases h
  | _ => rfl

/-- At the end of the text a goal comes to expressions at most, and these take no budget. -/
theorem lasting_nil {budget : Nat} {g : Goal} (h : g.need 0 ≤ budget) : Lasting budget g [] := by
  -- expressions end at once
  have he : ∀ b h t, Goal.isExpression h = true → t.length ≤ 0 → Lasting (b + 1) h t := by
    intro b h t hx ht
    rw [List.eq_nil_of_length_eq_zero (Nat.le_zero.mp ht)]
    cases h with
    | expression power => exact ⟨fun hf => absurd hf (by decide), fun _ => trivial⟩
    | _ => cases hx
  cases hg : g.isExpression with
  | true =>
    rw [Goal.need, hg] at h
    obtain ⟨b, rfl⟩ : ∃ b, budget = b + 1 := ⟨budget - 1, by simp at h; omega⟩
    exact he b g [] hg (Nat.le_refl 0)
  | false =>
    rw [Goal.need, hg] at h
    obtain ⟨b, rfl⟩ : ∃ b, budget = b + 2 := ⟨budget - 2, by simp at h; omega⟩
    have hc := reach_sound (b + 1)
    have steady : (grammar g).asks Goal.isExpression = true → Lasting (b + 2) g [] := fun ha =>
      Rule.lasts_of_steady hc (grammar_steady hc hg) ha (he b) (by omega) (Nat.le_refl 0)
    cases g with
    | item => exact Rule.choose_lasts rfl trivial
    | statement =>
      exact Rule.choose_lasts rfl (Rule.lasts_of_steady hc Rule.exprStmt_steady rfl (he b)
        (by omega) (Nat.le_refl 0))
    | expression power => cases hg
    | _ => exact steady rfl

/-- With a budget of twice the number of tokens, and two, every goal comes to its end. -/
theorem lasting_of_need {budget : Nat} {g : Goal} {s : List Cue} (h : g.need s.length ≤ budget) :
    Lasting budget g s := by
  induction hn : s.length using Nat.strongRecOn generalizing budget g s with
  | ind n ih =>
    cases n with
    | zero =>
      rw [List.eq_nil_of_length_eq_zero hn] at h ⊢
      exact lasting_nil h
    | succ m =>
      -- the goals on fewer tokens
      have fewer : ∀ b, 2 * m + 2 ≤ b → ∀ g t, t.length ≤ m → Lasting b g t := by
        intro b hb g t ht
        have := g.need_le t.length
        exact ih t.length (by omega) (by omega) rfl
      have expr : ∀ b power, 2 * (m + 1) + 1 ≤ b → ∀ t : List Cue, t.length ≤ m + 1 →
          Lasting b (.expression power) t := by
        intro b power hb t ht
        obtain ⟨b, rfl⟩ : ∃ c, b = c + 1 := ⟨b - 1, by omega⟩
        exact Rule.expressionOf_lasts (reach_sound b) power (fewer b (by omega)) (by omega) ht
      rw [hn, Goal.need] at h
      cases hg : g.isExpression with
      | true =>
        rw [hg] at h
        cases g with
        | expression power => exact expr budget power h s (Nat.le_of_eq hn)
        | _ => cases hg
      | false =>
        rw [hg] at h
        obtain ⟨b, rfl⟩ : ∃ c, budget = c + 1 := ⟨budget - 1, by simp at h; omega⟩
        have hb : 2 * (m + 1) + 1 ≤ b := Nat.le_of_succ_le_succ h
        have hc := reach_sound b
        refine Rule.lasts_of_defers hc (grammar_steady hc hg) (grammar_defers hg)
          (fewer b (by omega)) ?_ (by omega) (Nat.le_of_eq hn)
        intro g t hx ht
        cases g with
        | expression power => exact expr b power hb t ht
        | _ => cases hx

/-! ## larger budgets -/

namespace Action

variable {body body' : Action} {Ok : List Cue → Prop}

theorem loop_eq_of_lasts {turns turns' : Nat} {s : List Cue} (h : LoopLasts Ok body turns s)
    (hb : ∀ t, Ok t → body' t = body t) (hle : turns ≤ turns') :
    loop body' turns' s = loop body turns s := by
  induction turns generalizing turns' s with
  | zero => cases h
  | succ turns ih =>
    obtain ⟨turns', rfl⟩ : ∃ k, turns' = k + 1 := ⟨turns' - 1, by omega⟩
    rw [loop, loop, hb s h.1]
    cases hl : (body s).leaving with
    | true => rfl
    | false =>
      rw [if_neg Bool.false_ne_true, if_neg Bool.false_ne_true, ih (h.2 hl) (by omega)]

theorem wrap_eq_of_lasts {ok : Goal → List Cue → Prop}
    {link : List Cue → Option (NodeKind × Goal)} {call call' : Goal → Action}
    (hcall : ∀ g t, ok g t → call' g t = call g t) {turns turns' : Nat} {built : List Outline}
    {s : List Cue} (h : WrapLasts ok link call turns s) (hle : turns ≤ turns') :
    wrap link call' turns' built s = wrap link call turns built s := by
  induction turns generalizing turns' built s with
  | zero => cases h
  | succ turns ih =>
    obtain ⟨turns', rfl⟩ : ∃ k, turns' = k + 1 := ⟨turns' - 1, by omega⟩
    rw [wrap, wrap]
    cases hk : link s with
    | none => rfl
    | some k =>
      obtain ⟨kind, g⟩ := k
      have hg := h kind g hk
      show wrap link call' turns' [.node kind (built ++ (call' g s).built)] (call' g s).ahead
        = wrap link call turns [.node kind (built ++ (call g s).built)] (call g s).ahead
      rw [hcall g s hg.1]
      exact ih hg.2 (by omega)

end Action

/-- What ends before its budget is spent does the same with any larger one. -/
theorem Rule.perform_eq_of_lasts {budget budget' : Nat} {call call' : Goal → Action}
    {ok : Goal → List Cue → Prop} (hcall : ∀ g t, ok g t → call' g t = call g t)
    (hle : budget ≤ budget') {r : Rule} {s : List Cue} (h : r.Lasts budget call ok s) :
    r.perform budget' call' s = r.perform budget call s := by
  induction r generalizing s with
  | node kind body ih =>
    rw [perform, perform, ih h]
  | seq p q ihp ihq =>
    show Action.andThen (p.perform budget' call') (q.perform budget' call') s
      = Action.andThen (p.perform budget call) (q.perform budget call) s
    rw [Action.andThen, Action.andThen, ihp h.1]
    cases hl : (p.perform budget call s).leaving with
    | true => rfl
    | false =>
      rw [if_neg Bool.false_ne_true, if_neg Bool.false_ne_true, ihq (h.2 hl)]
  | branch test yes no ihy ihn =>
    rw [perform, perform]
    cases ht : test s with
    | true =>
      rw [if_pos rfl, if_pos rfl]
      exact ihy (h.1 ht)
    | false =>
      rw [if_neg Bool.false_ne_true, if_neg Bool.false_ne_true]
      exact ihn (h.2 ht)
  | loop body ih => exact Action.loop_eq_of_lasts h (fun t ht => ih ht) hle
  | atLeastOne body ih =>
    rw [perform, perform, ih h.1]
  | headed head kind tail ihh iht =>
    rw [perform, perform, ihh h.1, iht h.2]
  | chain head link ih =>
    rw [perform, perform, ih h.1]
    exact Action.wrap_eq_of_lasts hcall h.2.2 hle
  | goal g =>
    rw [perform, perform, hcall g s h]
  | _ => rfl

theorem reach_eq_of_lasting {budget budget' : Nat} {g : Goal} {s : List Cue}
    (h : Lasting budget g s) (hle : budget ≤ budget') :
    reach grammar budget' g s = reach grammar budget g s := by
  induction budget generalizing budget' g s with
  | zero => cases h
  | succ budget ih =>
    obtain ⟨budget', rfl⟩ : ∃ k, budget' = k + 1 := ⟨budget' - 1, by omega⟩
    exact Rule.perform_eq_of_lasts (fun g t hg => ih hg (by omega)) (by omega) h

/-! ## whole texts -/

/-- the rule of a whole text: items to its end, and the blanks there -/
def Rule.wholeText : Rule := .seq (items []) .blank

/-- the outlines of a whole text under some budget -/
def outlineWithin (budget : Nat) (cs : List Cue) : List Outline :=
  (Rule.wholeText.perform budget (reach grammar budget) cs).built

theorem Rule.items_lasts {closers : List TokenKind} {budget : Nat} {cs : List Cue}
    (h : budgetFor cs.length ≤ budget) :
    (items closers).Lasts budget (reach grammar budget) (Lasting budget) cs := by
  have hc := reach_sound budget
  have hr : (items closers).Steady budget (reach grammar budget) := items_steady hc closers
  rw [budgetFor] at h
  refine lasts_of_steady hc hr (asks_all hr) ?_ (by omega) (Nat.le_refl cs.length)
  intro g t _ ht
  have := g.need_le t.length
  exact lasting_of_need (by omega)

theorem wholeText_lasts {budget : Nat} {cs : List Cue} (h : budgetFor cs.length ≤ budget) :
    Rule.wholeText.Lasts budget (reach grammar budget) (Lasting budget) cs :=
  ⟨Rule.items_lasts h, fun _ => trivial⟩

/-- With any budget that is enough, a text has the same outlines. -/
theorem outlineWithin_eq {budget : Nat} {cs : List Cue} (h : budgetFor cs.length ≤ budget) :
    outlineWithin budget cs = outline cs :=
  congrArg Outcome.built (Rule.perform_eq_of_lasts
    (fun _ _ hg => reach_eq_of_lasting hg h) h (wholeText_lasts (Nat.le_refl _)))

end CppMend
