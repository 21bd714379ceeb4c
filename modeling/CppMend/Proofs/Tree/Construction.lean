import CppMend.Proofs.Grammar.Budget
import CppMend.Proofs.Tree.Builder

/-!
# Rules build the trees of their outlines

A rule may also be performed on a `Builder`, which puts the tokens into nodes at once. All that a
rule needs on its way is checked there, the budget included. What follows says that no check fails,
and that the tree comes out that the outlines of the rule stand for.

* `Rule.build`, `reachBuild`   what rules and goals do with a builder;
* `Rule.build_follows`         a rule that lasts builds the trees of its outlines;
* `construct_eq`               any text is built without a fault, and its tree is that of `rootOf`.
-/

namespace CppMend

/-- A step of building, and whether it leaves the loop around it. -/
abbrev Construct := Builder → Except Fault (Builder × Bool)

namespace Construct

/-- at most `n` turns -/
def turns (body : Construct) : Nat → Construct
  | 0, _ => .error .budget
  | n + 1, b => do
    let (b, leaving) ← body b
    if leaving then .ok (b, false) else turns body n b

/-- wraps the parts from number `mark` on, and the goal of a link, at most `n` times -/
def links (link : List Cue → Option (NodeKind × Goal)) (call : Goal → Construct) (mark : Nat) :
    Nat → Construct
  | 0, _ => .error .budget
  | n + 1, b => do
    let s ← b.look
    match link s with
    | none => .ok (b, false)
    | some (kind, g) =>
      let b ← b.startAt mark kind
      let (b, _) ← call g b
      let b ← b.finish
      links link call mark n b

end Construct

/-- what a rule does with a builder, where `call` says what goals do -/
def Rule.build (budget : Nat) (call : Goal → Construct) : Rule → Construct
  | .nothing, b => .ok (b, false)
  | .leave, b => .ok (b, true)
  | .token, b => .ok (b.bump, false)
  | .tokens length, b => do
    let s ← b.look
    .ok (Builder.bumps (s.take (length s)).length b, false)
  | .blank, b => .ok (b.skip, false)
  | .node kind body, b => do
    let b ← b.skip.startAt b.skip.parts.length kind
    let (b, _) ← body.build budget call b
    let b ← b.finish
    .ok (b, false)
  | .seq p q, b => do
    let (b, leaving) ← p.build budget call b
    if leaving then .ok (b, true) else q.build budget call b
  | .branch test yes no, b => do
    let s ← b.look
    if test s then yes.build budget call b else no.build budget call b
  | .loop body, b => Construct.turns (body.build budget call) budget b
  | .atLeastOne body, b => do
    let (b', leaving) ← body.build budget call b
    .ok (if b'.place = b.place then b'.bump else b', leaving)
  | .headed head kind tail, b => do
    let mark := b.skip.parts.length
    let (b, _) ← head.build budget call b.skip
    let s ← b.look
    let b ← b.startAt mark (kind s)
    let (b, _) ← tail.build budget call b
    let b ← b.finish
    .ok (b, false)
  | .chain head link, b => do
    let mark := b.skip.parts.length
    let (b, _) ← head.build budget call b.skip
    Construct.links link call mark budget b
  | .goal g, b => do
    let (b, _) ← call g b
    .ok (b, false)

/-- what the goals of a grammar do with a builder under a budget -/
def reachBuild (grammar : Goal → Rule) : Nat → Goal → Construct
  | 0, _, _ => .error .budget
  | budget + 1, g, b => (grammar g).build budget (reachBuild grammar budget) b

/-! ## building by outlines -/

/-- The step does not fault, and grows the builder by the outlines of an outcome. -/
def Construct.Follows (c : Construct) (b : Builder) (o : Outcome) : Prop :=
  ∃ b', c b = .ok (b', o.leaving) ∧ b.Grown o.built b'

theorem Construct.ok_bind {α β : Type} (a : α) (f : α → Except Fault β) :
    (Except.ok a >>= f) = f a := rfl

namespace Builder

variable {b b' : Builder} {o : Outcome}

/-- What a builder sees after an outcome is what the outcome leaves. -/
theorem Grown.cues_of_fits (h : b.Grown o.built b') (hf : o.Fits b.cues) : b'.cues = o.ahead := by
  rw [h.cues_eq hf.le, hf.rest]

end Builder

namespace Construct

variable {body : Construct} {act : Action} {ok : List Cue → Prop}

theorem turns_follows (hfit : ∀ s, (act s).Fits s)
    (hbody : ∀ b, b.Sound → ok b.cues → body.Follows b (act b.cues)) {n : Nat} {b : Builder}
    (hb : b.Sound) (h : Action.LoopLasts ok act n b.cues) :
    (turns body n).Follows b (Action.loop act n b.cues) := by
  induction n generalizing b with
  | zero => cases h
  | succ n ih =>
    obtain ⟨b₁, h₁, hg₁⟩ := hbody b hb h.1
    have hc := hg₁.cues_of_fits (hfit b.cues)
    rw [Follows, turns, Action.loop, h₁, Construct.ok_bind]
    cases hl : (act b.cues).leaving with
    | true => exact ⟨b₁, rfl, hg₁⟩
    | false =>
      have h₂ := h.2 hl
      rw [← hc] at h₂
      obtain ⟨b₂, h₂, hg₂⟩ := ih (hg₁.sound hb) h₂
      rw [hc, Action.loop_leaving] at h₂
      rw [hc] at hg₂
      exact ⟨b₂, h₂, hg₁.append hg₂⟩

/-- Links wrap what has grown since the mark. The builder grew by `built`, after the blanks. -/
theorem links_follows {link : List Cue → Option (NodeKind × Goal)} {call : Goal → Action}
    {callB : Goal → Construct} {ok : Goal → List Cue → Prop} (hfit : CallsFit call)
    (hcall : ∀ g b, b.Sound → ok g b.cues → (callB g).Follows b (call g b.cues)) {n : Nat}
    {b₀ b : Builder} {o : Outcome} (hb₀ : b₀.Sound) (hfresh : b₀.feed.Fresh)
    (hg : b₀.Grown o.built b) (ho : o.Fits b₀.cues)
    (h : Action.WrapLasts ok link call n o.ahead) :
    ∃ b', links link callB b₀.parts.length n b = .ok (b', false)
      ∧ b₀.Grown (Action.wrap link call n o.built o.ahead).built b' := by
  induction n generalizing b o with
  | zero => cases h
  | succ n ih =>
    have hb := hg.sound hb₀
    have hc := hg.cues_of_fits ho
    rw [links, Action.wrap, Builder.look_eq hb, hc, Construct.ok_bind]
    cases hk : link o.ahead with
    | none => exact ⟨b, rfl, hg⟩
    | some k =>
      obtain ⟨kind, g⟩ := k
      have hn := h kind g hk
      have hstart := Builder.startAt_eq hb₀ hg kind
      have hs : (b.push b₀.parts.length kind).Sound := by
        refine Builder.sound_push hb ?_ kind
        rw [hg.parts, List.length_append]
        exact Nat.le_add_right _ _
      -- the goal of the link, inside of the node
      have hok : ok g (b.push b₀.parts.length kind).cues := by
        rw [Builder.cues_push, hc]
        exact hn.1
      obtain ⟨b₁, h₁, hg₁⟩ := hcall g _ hs hok
      rw [Builder.cues_push, hc] at h₁ hg₁
      have hall := (hg.push b₀.parts.length kind).append hg₁
      obtain ⟨b₂, h₂, hg₂⟩ := Builder.finish_grown hfresh hall
      have hw : (Outcome.mk [.node kind (o.built ++ (call g o.ahead).built)]
          (call g o.ahead).ahead false).Fits b₀.cues :=
        (ho.append (b := false) (hfit g o.ahead)).regroup rfl
      obtain ⟨b₃, h₃, hg₃⟩ := ih hg₂ hw hn.2
      refine ⟨b₃, ?_, hg₃⟩
      show (b.startAt b₀.parts.length kind >>= _) = _
      rw [hstart, Construct.ok_bind, h₁, Construct.ok_bind]
      show (b₁.finish >>= _) = _
      rw [h₂, Construct.ok_bind]
      exact h₃

end Construct

/-! ## rules -/

/-- A rule whose goals follow, and which lasts, builds the trees of its outlines without a fault. -/
theorem Rule.build_follows {budget : Nat} {call : Goal → Action} {callB : Goal → Construct}
    {ok : Goal → List Cue → Prop} (hfit : CallsFit call)
    (hcall : ∀ g b, b.Sound → ok g b.cues → (callB g).Follows b (call g b.cues)) {r : Rule}
    {b : Builder} (hb : b.Sound) (h : r.Lasts budget call ok b.cues) :
    (r.build budget callB).Follows b (r.perform budget call b.cues) := by
  induction r generalizing b with
  | nothing => exact ⟨b, rfl, Builder.Grown.refl hb⟩
  | leave => exact ⟨b, rfl, Builder.Grown.refl hb⟩
  | token =>
    refine ⟨b.bump, ?_, Builder.bump_grown_cues hb⟩
    show Except.ok (b.bump, false) = .ok (b.bump, (Action.token b.cues).leaving)
    cases b.cues <;> rfl
  | tokens length =>
    refine ⟨Builder.bumps (b.cues.take (length b.cues)).length b, ?_, ?_⟩
    · rw [build, Builder.look_eq hb]
      rfl
    · show b.Grown ((b.cues.take (length b.cues)).map fun _ => .token) _
      rw [List.map_const']
      exact Builder.bumps_grown hb _
  | blank => exact ⟨b.skip, rfl, Builder.skip_grown hb⟩
  | node kind body ih =>
    have hs := (Builder.skip_grown hb).sound hb
    have hp := Builder.sound_push hs (Nat.le_refl _) kind
    have hc : (b.skip.push b.skip.parts.length kind).cues = b.cues := Builder.cues_skip hb
    obtain ⟨b₁, h₁, hg₁⟩ := ih (b := b.skip.push b.skip.parts.length kind) hp (by rw [hc]; exact h)
    rw [hc] at h₁ hg₁
    have hfresh : b.skip.feed.Fresh := by
      rw [Builder.feed_skip]
      exact Feed.fresh_takeBlanks _
    obtain ⟨b₂, h₂, hg₂⟩ := Builder.finish_grown hfresh hg₁
    refine ⟨b₂, ?_, hg₂.of_skip (List.cons_ne_nil _ _)⟩
    rw [build, Builder.startAt_eq hs (Builder.Grown.refl hs) kind, Construct.ok_bind, h₁,
      Construct.ok_bind]
    show (b₁.finish >>= _) = _
    rw [h₂]
    rfl
  | seq p q ihp ihq =>
    obtain ⟨b₁, h₁, hg₁⟩ := ihp hb h.1
    have hc := hg₁.cues_of_fits (p.perform_fits hfit b.cues)
    show ∃ b', _ = Except.ok (b', (Action.andThen (p.perform budget call) (q.perform budget call)
      b.cues).leaving) ∧ b.Grown (Action.andThen (p.perform budget call) (q.perform budget call)
      b.cues).built b'
    rw [build, h₁, Construct.ok_bind, Action.andThen]
    cases hl : (p.perform budget call b.cues).leaving with
    | true =>
      rw [if_pos rfl, hl]
      exact ⟨b₁, rfl, hg₁⟩
    | false =>
      have h₂ := h.2 hl
      rw [← hc] at h₂
      obtain ⟨b₂, h₂, hg₂⟩ := ihq (hg₁.sound hb) h₂
      rw [hc] at h₂ hg₂
      exact ⟨b₂, h₂, hg₁.append hg₂⟩
  | branch test yes no ihy ihn =>
    rw [Construct.Follows, build, perform, Builder.look_eq hb, Construct.ok_bind]
    cases ht : test b.cues with
    | true => exact ihy hb (h.1 ht)
    | false => exact ihn hb (h.2 ht)
  | loop body ih =>
    exact Construct.turns_follows (body.perform_fits hfit) (fun b hb h => ih hb h) hb h
  | atLeastOne body ih =>
    obtain ⟨b₁, h₁, hg₁⟩ := ih hb h.1
    have hf : (body.perform budget call b.cues).Fits b.cues := body.perform_fits hfit b.cues
    have hc := hg₁.cues_of_fits hf
    rw [Construct.Follows, build, perform, h₁, Construct.ok_bind]
    by_cases ht : Outline.anyToken (body.perform budget call b.cues).built = true
    · rw [if_pos ht]
      have hp := hg₁.place_ne ((Outline.anyToken_iff _).mp ht) hf.le
      exact ⟨b₁, congrArg (fun c => Except.ok (c, _)) (if_neg hp), hg₁⟩
    · rw [if_neg ht]
      have ht : ¬body.Takes budget call b.cues := fun h => ht ((Outline.anyToken_iff _).mpr h)
      have hb₁ := hg₁.sound hb
      by_cases hp : b₁.place = b.place
      · have hg₂ := Builder.bump_grown_cues hb₁
        rw [hc] at hg₂
        exact ⟨b₁.bump, congrArg (fun c => Except.ok (c, _)) (if_pos hp), hg₁.append hg₂⟩
      · -- something was built of blanks alone, so the text ends here
        have hn : (body.perform budget call b.cues).built ≠ [] := by
          intro hn
          rw [hn] at hg₁
          exact hp (hg₁.place_of_nil hb)
        have hs : b.cues = [] := by
          rcases h.2 with h | h | h
          · exact h
          · exact absurd h hn
          · exact absurd h ht
        have ha : (body.perform budget call b.cues).ahead = [] := by
          rw [hf.ahead_eq (Nat.eq_zero_of_not_pos ht), hs]
        rw [ha]
        exact ⟨b₁, congrArg (fun c => Except.ok (c, _)) (if_neg hp),
          hg₁.append (hg₁.blank_of_spent hn hs)⟩
  | headed head kind tail ihh iht =>
    have hs := (Builder.skip_grown hb).sound hb
    have hc := Builder.cues_skip hb
    have hfresh : b.skip.feed.Fresh := by
      rw [Builder.feed_skip]
      exact Feed.fresh_takeBlanks _
    obtain ⟨b₁, h₁, hg₁⟩ := ihh hs (by rw [hc]; exact h.1)
    have hf : (head.perform budget call b.skip.cues).Fits b.skip.cues :=
      head.perform_fits hfit b.skip.cues
    have hc₁ := hg₁.cues_of_fits hf
    rw [hc] at h₁ hg₁ hc₁
    let k := kind (head.perform budget call b.cues).ahead
    have hk := Builder.startAt_eq hs hg₁ k
    have hs₁ : (b₁.push b.skip.parts.length k).Sound := by
      refine Builder.sound_push (hg₁.sound hs) ?_ k
      rw [hg₁.parts, List.length_append]
      exact Nat.le_add_right _ _
    obtain ⟨b₂, h₂, hg₂⟩ := iht hs₁ (by rw [Builder.cues_push, hc₁]; exact h.2)
    rw [Builder.cues_push, hc₁] at h₂ hg₂
    have hall := (hg₁.push b.skip.parts.length k).append hg₂
    obtain ⟨b₃, h₃, hg₃⟩ := Builder.finish_grown hfresh hall
    refine ⟨b₃, ?_, hg₃.of_skip (List.cons_ne_nil _ _)⟩
    rw [build]
    show (head.build budget callB b.skip >>= _) = _
    rw [h₁, Construct.ok_bind]
    show (b₁.look >>= _) = _
    rw [Builder.look_eq (hg₁.sound hs), Construct.ok_bind, hc₁, hk, Construct.ok_bind, h₂,
      Construct.ok_bind]
    show (b₂.finish >>= _) = _
    rw [h₃]
    rfl
  | chain head link ih =>
    have hs := (Builder.skip_grown hb).sound hb
    have hc := Builder.cues_skip hb
    have hfresh : b.skip.feed.Fresh := by
      rw [Builder.feed_skip]
      exact Feed.fresh_takeBlanks _
    obtain ⟨b₁, h₁, hg₁⟩ := ih hs (by rw [hc]; exact h.1)
    rw [hc] at h₁ hg₁
    have hf : (head.perform budget call b.cues).Fits b.skip.cues := by
      rw [hc]
      exact head.perform_fits hfit b.cues
    obtain ⟨b₂, h₂, hg₂⟩ := Construct.links_follows hfit hcall hs hfresh hg₁ hf h.2.2
    have hn : (Action.wrap link call budget (head.perform budget call b.cues).built
        (head.perform budget call b.cues).ahead).built ≠ [] :=
      Action.wrap_ne_nil link call budget h.2.1
    refine ⟨b₂, ?_, hg₂.of_skip hn⟩
    rw [build, perform, Action.wrap_leaving]
    show (head.build budget callB b.skip >>= _) = _
    rw [h₁, Construct.ok_bind]
    exact h₂
  | goal g =>
    obtain ⟨b₁, h₁, hg₁⟩ := hcall g b hb h
    refine ⟨b₁, ?_, hg₁⟩
    rw [build, h₁]
    rfl

/-- A goal that lasts builds the trees of its outlines without a fault. -/
theorem reachBuild_follows (budget : Nat) (g : Goal) (b : Builder) (hb : b.Sound)
    (h : Lasting budget g b.cues) :
    (reachBuild grammar budget g).Follows b (reach grammar budget g b.cues) := by
  induction budget generalizing g b with
  | zero => cases h
  | succ budget ih =>
    exact Rule.build_follows (reach_fits grammar budget) (fun g b hb h => ih g b hb h) hb h

/-! ## whole texts -/

/-- The tree of some tokens, built in checked steps: the root is begun, the items and the blanks
after them are built into it, and it is finished. -/
def construct (budget : Nat) (tokens : List Token) : Except Fault Tree := do
  let b ← (Builder.mk tokens 0 [] []).startAt 0 .root
  let (b, _) ← Rule.wholeText.build budget (reachBuild grammar budget) b
  let b ← b.finish
  b.done

/-- With enough budget, no step of building a text faults, and the tree is that of its outlines. -/
theorem construct_eq (tokens : List Token) {budget : Nat}
    (h : budgetFor (cues tokens).length ≤ budget) :
    construct budget tokens = .ok (rootOf tokens).tree := by
  let b₀ : Builder := ⟨tokens, 0, [], []⟩
  have hb₀ : b₀.Sound := ⟨Nat.zero_le _, fun e he => by cases he⟩
  have hb : (b₀.push 0 .root).Sound := Builder.sound_push hb₀ (Nat.le_refl 0) .root
  have hc : (b₀.push 0 .root).cues = cues tokens := rfl
  have hl := wholeText_lasts h
  rw [← hc] at hl
  obtain ⟨b₁, h₁, hg₁⟩ := Rule.build_follows (reach_fits grammar budget)
    (reachBuild_follows budget) hb hl
  have ho : (Rule.wholeText.perform budget (reach grammar budget) (b₀.push 0 .root).cues).built
      = outline (cues tokens) := outlineWithin_eq h
  rw [ho] at hg₁
  have hfin := Builder.finish_eq (b := b₀) hg₁
  have hstart : b₀.startAt 0 .root = .ok (b₀.push 0 .root) :=
    Builder.startAt_eq hb₀ (Builder.Grown.refl hb₀) .root
  show (b₀.startAt 0 .root >>= _) = _
  rw [hstart, Construct.ok_bind, h₁, Construct.ok_bind]
  show (b₁.finish >>= _) = _
  rw [hfin]
  rfl

end CppMend
