import CppMend.Proofs.Grammar.Budget
import CppMend.Proofs.Grammar.Laws

/-!
# Rules and chains that obey a law

What a rule builds obeys a law if the nodes that it makes itself do, and what its chains wrap. The nodes
of operators between operands, and of what comes after an operand, are made by chains: each link wraps
one of them around what is there already, so a law about them is kept from link to link.

* `NodeKind.isLinked`          the kinds of nodes that chains make;
* `Action.wrap_invariant`      what each link keeps holds at the end of a chain;
* `Rule.chain_obeys`           a law that each link keeps holds of what a chain builds;
* `Rule.obey_of_throughout`    what a rule builds obeys a law of the nodes that it makes.
-/

namespace CppMend

/-- the nodes that are wrapped around what is there already -/
def NodeKind.isLinked : NodeKind → Bool
  | .binaryExpr | .assignExpr | .conditionalExpr | .callExpr | .indexExpr | .memberExpr
  | .postfixExpr => true
  | _ => false

namespace Action

variable {α : Type} {P : Law α} {seen : Cue → α}

/-- What holds before a chain, and is kept by each of its links, holds at its end, where no link is
left. -/
theorem wrap_invariant {ok : Goal → List Cue → Prop} {link : List Cue → Option (NodeKind × Goal)}
    {call : Goal → Action} {Inv : List Outline → List Cue → Prop}
    (hstep : ∀ built t kind g, Inv built t → link t = some (kind, g) → ok g t →
      Inv [.node kind (built ++ (call g t).built)] (call g t).ahead)
    {turns : Nat} {built : List Outline} {s : List Cue} (hl : WrapLasts ok link call turns s)
    (h : Inv built s) : Inv (wrap link call turns built s).built (wrap link call turns built s).ahead
      ∧ link (wrap link call turns built s).ahead = none := by
  induction turns generalizing built s with
  | zero => exact absurd hl id
  | succ turns ih =>
    rw [wrap]
    cases hk : link s with
    | none => exact ⟨h, hk⟩
    | some k =>
      obtain ⟨kind, g⟩ := k
      obtain ⟨hok, hmore⟩ := hl kind g hk
      exact ih hmore (hstep built s kind g h hk hok)

theorem loop_obey_of_lasts {body : Action} {Ok : List Cue → Prop} (hf : ∀ s, (body s).Fits s)
    (hb : ∀ s, Ok s → Outline.Obey P (body s).built (s.map seen)) {turns : Nat} {s : List Cue}
    (h : LoopLasts Ok body turns s) : Outline.Obey P (loop body turns s).built (s.map seen) := by
  induction turns generalizing s with
  | zero => exact absurd h id
  | succ turns ih =>
    rw [loop]
    split
    · exact hb s h.1
    · next hl =>
      exact obey_append (hf s) (hb s h.1) (ih (h.2 (Bool.eq_false_iff.mpr hl)))

end Action

namespace Rule

open Outline (Obey)

variable {α : Type} {P : Law α} {seen : Cue → α} {budget : Nat} {call : Goal → Action}
  {ok : Goal → List Cue → Prop} {s : List Cue}

/-- A law holds of what a chain builds, if each link keeps it that is wrapped around outlines of some
sort. -/
theorem chain_obeys {Q : List Outline → Prop} {head : Rule}
    {link : List Cue → Option (NodeKind × Goal)} (hf : CallsFit call)
    (hgoals : ∀ g t, ok g t → Obey P (call g t).built (t.map seen))
    (hQ : ∀ t kind g parts, link t = some (kind, g) → Q [.node kind parts])
    (hlink : ∀ built t kind g, (Outcome.mk built t false).Fits s → Q built →
      link t = some (kind, g) → ok g t → P kind (built ++ (call g t).built) (s.map seen))
    (hhead : Q (head.perform budget call s).built)
    (ho : Obey P (head.perform budget call s).built (s.map seen))
    (hl : (chain head link).Lasts budget call ok s) :
    Obey P ((chain head link).perform budget call s).built (s.map seen) := by
  let Inv (built : List Outline) (t : List Cue) : Prop :=
    (Outcome.mk built t false).Fits s ∧ Q built ∧ Obey P built (s.map seen)
  have hstep : ∀ built t kind g, Inv built t → link t = some (kind, g) → ok g t →
      Inv [.node kind (built ++ (call g t).built)] (call g t).ahead := by
    rintro built t kind g ⟨hfit, hb, hobey⟩ hk hok
    exact ⟨(hfit.append (b := false) (hf g t)).regroup rfl, hQ t kind g _ hk,
      .node (hlink built t kind g hfit hb hk hok) (Action.obey_append hfit hobey (hgoals g t hok))⟩
  have hfit : (head.perform budget call s).Fits s := head.perform_fits hf s
  exact (Action.wrap_invariant hstep hl.2.2 ⟨hfit.regroup rfl, hhead, ho⟩).1.2.2

/-- What a rule builds obeys a law, if it holds of the nodes that the rule makes itself, and of what its
chains wrap, and the goals that the rule comes to obey it. -/
theorem obey_of_throughout {N : Rule → List Cue → Prop}
    {C : Rule → (List Cue → Option (NodeKind × Goal)) → List Cue → Prop} (hf : CallsFit call)
    (hgoals : ∀ g t, ok g t → Obey P (call g t).built (t.map seen))
    (hnode : ∀ r s kind parts, N r s → r.Lasts budget call ok s →
      (r.perform budget call s).built = [.node kind parts] → P kind parts (s.map seen))
    (hchain : ∀ head link s, C head link s → (chain head link).Lasts budget call ok s →
      Obey P (head.perform budget call s).built (s.map seen) →
      Obey P ((chain head link).perform budget call s).built (s.map seen))
    {r : Rule} (hr : r.Throughout N C s) (hl : r.Lasts budget call ok s) :
    Obey P (r.perform budget call s).built (s.map seen) := by
  have hfits : ∀ (r : Rule) s, (r.perform budget call s).Fits s := fun r s => r.perform_fits hf s
  induction r generalizing s with
  | nothing => exact Outline.obey_nil
  | leave => exact Outline.obey_nil
  | token => exact Action.token_obeys s
  | tokens length => exact Outline.obey_tokens (s.take (length s))
  | blank => exact fun _ hp => nomatch hp
  | node kind body ih => exact .node (hnode _ s kind _ hr.1 hl rfl) (ih hr.2 hl)
  | seq p q ihp ihq =>
    show Obey P (Action.andThen (p.perform budget call) (q.perform budget call) s).built _
    rw [Action.andThen]
    split
    · exact ihp hr.1 hl.1
    · next hstay =>
      exact Action.obey_append (hfits p s) (ihp hr.1 hl.1)
        (ihq (hr.2 _) (hl.2 (Bool.eq_false_iff.mpr hstay)))
  | branch test yes no ihy ihn =>
    rw [perform]
    split
    · next ht => exact ihy (hr.1 ht) (hl.1 ht)
    · next ht =>
      have ht := Bool.eq_false_iff.mpr ht
      exact ihn (hr.2 ht) (hl.2 ht)
  | loop body ih => exact Action.loop_obey_of_lasts (hfits body) (fun t ht => ih (hr t) ht) hl
  | atLeastOne body ih =>
    rw [perform]
    split
    · exact ih hr hl.1
    · exact Action.obey_append (hfits body s) (ih hr hl.1) (Action.token_obeys _)
  | headed head kind tail ihh iht =>
    exact .node (hnode _ s _ _ hr.1 hl rfl)
      (Action.obey_append (hfits head s) (ihh hr.2.1 hl.1) (iht (hr.2.2 _) hl.2))
  | chain head link ih => exact hchain head link s hr.1 hl (ih hr.2 hl.1)
  | goal g => exact hgoals g s hl

end Rule

/-- The goal obeys the law wherever it comes to its end. -/
def GoalsObey (P : NodeLaw) (budget : Nat) : Prop :=
  ∀ g s, Lasting budget g s → Outline.Obey P (reach grammar budget g s).built (kindsOf s)

end CppMend
