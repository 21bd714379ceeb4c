import CppMend.Proofs.Grammar.Sites

/-!
# Constructs in braces

Blocks, lists of items, members and enumerators, and initial values in braces start with a `{`.
Each ends with a `}` that it takes itself, or goes on to the end of the text.

* `NodeKind.isBraced`   the kinds of nodes that have braces of their own;
* `Outline.Braced`      how such a node starts and ends;
* `braceLaw_outline`    every such node in the outlines of a text starts and ends so.
-/

namespace CppMend

/-- constructs that have braces of their own -/
def NodeKind.isBraced : NodeKind → Bool
  | .block | .itemList | .fieldList | .enumeratorList | .initList => true
  | _ => false

/-- Outlines of tokens of the kinds `ks` end with a `}` by itself, or nothing is left. -/
def Outline.Shut (os : List Outline) (ks : List TokenKind) : Prop :=
  ks.drop (sizes os) = [] ∨
    ∃ ps, os = ps ++ [.token] ∧ (ks.drop (sizes ps)).head? = some .rBrace

/-- A `{` that stands by itself, and then outlines that are shut. -/
def Outline.Braced (parts : List Outline) (ks : List TokenKind) : Prop :=
  ∃ os rest, ks = .lBrace :: rest ∧ parts = .token :: os ∧ Shut os rest

/-- constructs with braces of their own start and end with them -/
def braceLaw : NodeLaw := fun kind parts ks => kind.isBraced = true → Outline.Braced parts ks

theorem braceLaw_of_not_braced (kind : NodeKind) (parts : List Outline) (ks : List TokenKind)
    (h : kind.isBraced = false) : braceLaw kind parts ks :=
  fun hk => absurd (h.symm.trans hk) Bool.false_ne_true

namespace Rule

open Lookahead

variable {budget : Nat} {call : Goal → Action}

/-! ## what ends with a `}` -/

/-- What the rule builds is shut, wherever it starts. -/
def Shuts (budget : Nat) (call : Goal → Action) (r : Rule) : Prop :=
  ∀ s, Outline.Shut (r.perform budget call s).built (kindsOf s)

/-- a `}` after a rule that stops nowhere but there -/
theorem shuts_eat (hf : CallsFit call) {p : Rule} (hp : p.stays = true)
    (h : ∀ s, (p.perform budget call s).ahead = [] ∨
      endOr [.rBrace] (p.perform budget call s).ahead = true) :
    (seq p (eat .rBrace)).Shuts budget call := by
  intro s
  have hfit : (p.perform budget call s).Fits s := p.perform_fits hf s
  rw [seq_built (leaving_of_stays hp s)]
  rcases ha : (p.perform budget call s).ahead with _ | ⟨c, t⟩
  · left
    have hr := hfit.rest
    rw [ha] at hr
    show (kindsOf s).drop (Outline.sizes (_ ++ [])) = []
    rw [List.append_nil, ← kindsOf_drop, ← hr]
    rfl
  · right
    have hk : c.kind = .rBrace := by
      rcases h s with h | h
      · exact absurd (ha.symm.trans h) (List.cons_ne_nil c t)
      · rw [ha] at h
        simpa [endOr] using h
    have hn : next .rBrace (c :: t) = true := decide_eq_true hk
    have hb : ((eat .rBrace).perform budget call (c :: t)).built = [.token] := by
      rw [eat, onlyIf, perform, if_pos hn]
      rfl
    refine ⟨(p.perform budget call s).built, by rw [hb], ?_⟩
    rw [← kindsOf_drop, ← hfit.rest, ha, ← hk]
    rfl

theorem shuts_seq (hf : CallsFit call) {p q : Rule} (hp : p.stays = true)
    (hq : q.Shuts budget call) : (seq p q).Shuts budget call := by
  intro s
  have hfit : (p.perform budget call s).Fits s := p.perform_fits hf s
  rw [seq_built (leaving_of_stays hp s)]
  have hd : kindsOf (p.perform budget call s).ahead
      = (kindsOf s).drop (Outline.sizes (p.perform budget call s).built) := by
    rw [hfit.rest, kindsOf_drop]
  rcases hq (p.perform budget call s).ahead with h | ⟨ps, hps, h⟩
  · left
    rw [Outline.sizes_append, ← List.drop_drop, ← hd]
    exact h
  · right
    refine ⟨(p.perform budget call s).built ++ ps, ?_, ?_⟩
    · rw [hps, List.append_assoc]
    · rw [Outline.sizes_append, ← List.drop_drop, ← hd]
      exact h

/-- a loop up to a `}`, and the `}` -/
theorem shuts_untilBrace (hf : CallsFit call) {r : Rule} (hr : r.stays = true) :
    (seq (untilTrue (endOr [.rBrace]) r) (eat .rBrace)).Shuts budget call :=
  shuts_eat hf rfl fun s => untilTrue_ahead _ (leaving_of_stays hr) s

/-- A construct in braces, where a `{` is next. -/
theorem braced_of_shuts {q : Rule} (hq : q.Shuts budget call) {s : List Cue}
    (hs : next .lBrace s = true) :
    Outline.Braced ((seq token q).perform budget call s).built (kindsOf s) := by
  cases s with
  | nil => cases hs
  | cons c s =>
    have hk : c.kind = .lBrace := of_decide_eq_true hs
    exact ⟨_, kindsOf s, by rw [← hk]; rfl, rfl, hq s⟩

/-! ## the constructs -/

variable {s : List Cue} {kind : NodeKind} {parts : List Outline}

/-- The law holds of all that is made at sites. -/
theorem braceLaw_of_makes {r : Rule} (h : Makes budget r s kind parts) :
    braceLaw kind parts (kindsOf s) := by
  have hf : CallsFit (reach grammar budget) := reach_fits grammar budget
  have braced {k : NodeKind} {q : Rule} (h : Makes budget (.node k (seq token q)) s kind parts)
      (hq : q.Shuts budget (reach grammar budget)) (hs : next .lBrace s = true) :
      braceLaw kind parts (kindsOf s) := by
    rw [h.node_eq.2]
    exact fun _ => braced_of_shuts hq hs
  have other (hk : kind.isBraced = false) : braceLaw kind parts (kindsOf s) :=
    braceLaw_of_not_braced kind parts (kindsOf s) hk
  cases h.site with
  | block hs => exact braced h (shuts_untilBrace hf rfl) hs
  | itemList hs => exact braced h (shuts_untilBrace hf rfl) hs
  | fieldList hs => exact braced h (shuts_untilBrace hf rfl) hs
  | initList hs => exact braced h (shuts_seq hf rfl (shuts_untilBrace hf rfl)) hs
  | enumeratorList hs => exact braced h (shuts_seq hf rfl (shuts_untilBrace hf rfl)) hs
  | directive => exact other (by rcases h.kind_of_directive with rfl | rfl | rfl <;> rfl)
  | declaration place =>
    exact other (by rcases h.kind_of_declaration with rfl | rfl <;> cases place <;> rfl)
  | recordDef => exact other (by rcases h.kind_of_recordDef with rfl | rfl <;> rfl)
  | _ => exact other (h.node_eq.1 ▸ rfl)

end Rule

/-- Each construct in braces in a text starts with a `{`, and ends with a `}` that stands by itself
or at the end of the text. -/
theorem braceLaw_outline (cs : List Cue) : Outline.Obey braceLaw (outline cs) (kindsOf cs) := by
  refine outline_obey_of_sites (fun kind parts ks hk => braceLaw_of_not_braced kind parts ks ?_)
    (fun _ _ _ _ _ h => Rule.braceLaw_of_makes h) cs
  cases kind <;> first | rfl | cases hk

end CppMend
