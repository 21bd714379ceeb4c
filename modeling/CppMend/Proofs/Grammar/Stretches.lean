import CppMend.Proofs.Grammar.Functions
import CppMend.Proofs.Lexical.Nesting

/-!
# Stretches up to a semicolon

What is not looked into is skipped up to a `;`. Groups in braces are skipped as a whole, and so are those
in parentheses, but these break off at a `;` and at any brace. It all comes to a simple rule: a `;` outside
of braces ends the stretch, and so does a `}` that closes no brace in it. Parentheses do not matter.

* `Covered`                    each `;` and `}` among some tokens is in braces that open among them;
* `IsStretch`                  what is taken up to a `;`, and what is left;
* `Bracket.span_brace`, `Bracket.spanFrom_paren`   the tokens of groups;
* `Rule.toSemicolon_perform`   skipping takes just a stretch.
-/

namespace CppMend

/-- No `;` and no `}` comes where all braces before it are closed: each is in braces that open among the
tokens. -/
def Covered (ks : List TokenKind) : Prop :=
  ∀ before k after, ks = before ++ k :: after → Nested before → k ≠ .semicolon ∧ k ≠ .rBrace

/-- What is taken of some tokens, and what is left. The first `;` outside of braces is the last token
that is taken; the first `}` that closes no brace among the tokens is left; and if neither comes, nothing
is left. -/
inductive IsStretch : List TokenKind → List TokenKind → Prop
  | semicolon {front left : List TokenKind} (hc : Covered front) (hn : Nested front) :
      IsStretch (front ++ [.semicolon]) left
  | closer {front left : List TokenKind} (hc : Covered front) (hn : Nested front) :
      IsStretch front (.rBrace :: left)
  | whole {ks : List TokenKind} (hc : Covered ks) : IsStretch ks []

/-! ## covered tokens -/

section

variable {ks front inner : List TokenKind} {d : Nat}

theorem nested_nil : Nested [] := rfl

theorem covered_nil : Covered [] := fun _ _ _ h => absurd h (by simp)

theorem Nested.append (hf : Nested front) (hk : Nested ks) : Nested (front ++ ks) := by
  rw [Nested, braceDepth?_append, hf]
  exact hk

theorem Covered.of_append (h : Covered (front ++ ks)) : Covered front := fun before k after hs hn =>
  h before k (after ++ ks) (by rw [hs, List.append_assoc, List.cons_append]) hn

/-- Braces that are all closed cover nothing of what comes after them. -/
theorem Covered.append (hf : Covered front) (hn : Nested front) (hk : Covered ks) : Covered (front ++ ks) := by
  intro before k after hs hb
  rcases List.append_eq_append_iff.mp hs with ⟨more, rfl, hks⟩ | ⟨more, rfl, hafter⟩
  · refine hk more k after hks ?_
    rw [Nested, braceDepth?_append, hn] at hb
    exact hb
  · cases more with
    | nil =>
      rw [List.append_nil] at hn
      exact hk [] k after hafter.symm nested_nil
    | cons j more =>
      obtain ⟨rfl, -⟩ := List.cons.inj hafter
      exact hf before k more rfl hb

/-- what is neither a `;` nor a brace -/
theorem covered_of_plain (h : ∀ k ∈ ks, k ≠ .semicolon ∧ k ≠ .lBrace ∧ k ≠ .rBrace) :
    Covered ks ∧ Nested ks := by
  constructor
  · rintro before k after rfl -
    have hk := h k (by simp)
    exact ⟨hk.1, hk.2.2⟩
  · induction ks with
    | nil => rfl
    | cons k ks ih =>
      obtain ⟨⟨-, hl, hr⟩, h⟩ := List.forall_mem_cons.mp h
      rw [Nested, braceDepth?_skip 0 ks hl hr]
      exact ih h

theorem exists_braceDepth_front {depth : Nat} (hf : front <+: ks) (h : braceDepth? depth ks = some d) :
    ∃ e, braceDepth? depth front = some e := by
  obtain ⟨ks, rfl⟩ := hf
  rw [braceDepth?_append] at h
  obtain ⟨e, he, -⟩ := Option.bind_eq_some_iff.mp h
  exact ⟨e, he⟩

/-- A `{` covers all that comes before the `}` that closes it. -/
theorem covered_open (h : ∀ before k after, ks = before ++ k :: after → ∃ d, braceDepth? 0 before = some d) :
    Covered (.lBrace :: ks) := by
  intro before k after hs hn
  cases before with
  | nil =>
    obtain ⟨rfl, -⟩ := List.cons.inj hs
    exact ⟨by decide, by decide⟩
  | cons j before =>
    obtain ⟨rfl, htail⟩ := List.cons.inj hs
    obtain ⟨d, hd⟩ := h before k after htail
    rw [Nested, braceDepth?_open, braceDepth?_add 1 hd] at hn
    cases hn

theorem covered_unclosed (h : braceDepth? 0 ks = some d) : Covered (.lBrace :: ks) :=
  covered_open fun _ _ _ hs => exists_braceDepth_front ⟨_, hs.symm⟩ h

theorem covered_closed (h : Nested inner) : Covered (.lBrace :: (inner ++ [.rBrace])) := by
  refine covered_open fun before k after hs => exists_braceDepth_front ?_ h
  have hp : before <+: inner ++ [.rBrace] := ⟨_, hs.symm⟩
  refine (List.prefix_concat_iff.mp hp).resolve_left fun he => ?_
  have := congrArg List.length hs
  rw [← he, List.length_append, List.length_cons] at this
  omega

/-- Each `}` among covered tokens closes a `{` among them. -/
theorem Covered.exists_depth (h : Covered ks) : ∃ d, braceDepth? 0 ks = some d := by
  induction ks using List.reverseRecOn with
  | nil => exact ⟨0, rfl⟩
  | append_singleton ks k ih =>
    obtain ⟨d, hd⟩ := ih h.of_append
    rw [braceDepth?_append, hd, Option.bind_some]
    by_cases hl : k = .lBrace
    · exact ⟨d + 1, by rw [hl, braceDepth?_open]; rfl⟩
    by_cases hr : k = .rBrace
    · cases d with
      | zero => exact absurd hr (h ks k [] rfl hd).2
      | succ d => exact ⟨d, by rw [hr, braceDepth?_close]; rfl⟩
    · exact ⟨d, by rw [braceDepth?_skip d [] hl hr]; rfl⟩

/-- Outside of braces, a stretch has no `}`, and no `;` but at its end. -/
theorem IsStretch.outside {taken left before after : List TokenKind} {k : TokenKind} (h : IsStretch taken left)
    (hs : taken = before ++ k :: after) (hn : Nested before) : k ≠ .rBrace ∧ (k = .semicolon → after = []) := by
  cases h with
  | semicolon hc _ =>
    rcases List.eq_nil_or_concat after with rfl | ⟨after, last, rfl⟩
    · obtain ⟨-, hk⟩ := List.append_inj' hs rfl
      obtain rfl := List.singleton_inj.mp hk
      exact ⟨by decide, fun _ => rfl⟩
    · rw [List.concat_eq_append, ← List.cons_append, ← List.append_assoc] at hs
      obtain ⟨hfront, -⟩ := List.append_inj' hs rfl
      have hk := hc before k after hfront hn
      exact ⟨hk.2, fun he => absurd he hk.1⟩
  | closer hc _ | whole hc =>
    have hk := hc before k after hs hn
    exact ⟨hk.2, fun he => absurd he hk.1⟩

/-- Some tokens start with one stretch only. -/
theorem IsStretch.unique {taken left taken' left' : List TokenKind} (h : IsStretch taken left)
    (h' : IsStretch taken' left') (hs : taken ++ left = taken' ++ left') : taken = taken' := by
  -- a stretch that goes on where another one ends has the token in it that ends the other one
  have goes {ts ls us more : List TokenKind} (ht : IsStretch ts (more ++ ls)) (hu : IsStretch (ts ++ more) us) :
      more = [] := by
    generalize hl : more ++ ls = left at ht
    cases ht with
    | semicolon _ hn => exact (hu.outside (List.append_assoc ..) hn).2 rfl
    | closer _ hn =>
      cases more with
      | nil => rfl
      | cons k more =>
        obtain ⟨rfl, -⟩ := List.cons.inj hl
        exact absurd rfl (hu.outside rfl hn).1
    | whole => exact (List.append_eq_nil_iff.mp hl).1
  rcases List.append_eq_append_iff.mp hs with ⟨more, rfl, rfl⟩ | ⟨more, rfl, rfl⟩
  · rw [goes h h', List.append_nil]
  · rw [goes h' h, List.append_nil]

/-- Each `}` of a stretch closes a `{` in it. -/
theorem IsStretch.exists_depth {taken left : List TokenKind} (h : IsStretch taken left) :
    ∃ d, braceDepth? 0 taken = some d := by
  cases h with
  | semicolon hc hn => exact ⟨0, by rw [braceDepth?_append, hn]; rfl⟩
  | closer hc hn => exact ⟨0, hn⟩
  | whole hc => exact hc.exists_depth

end

namespace Lookahead.Bracket

variable {s : List Cue} {c : Cue} {depth : Nat}

/-! ## groups -/

theorem spanFrom_lBrace (h : c.kind = .lBrace) :
    brace.spanFrom depth (c :: s) = brace.spanFrom (depth + 1) s + 1 := by
  rw [spanFrom]
  exact if_pos h

theorem spanFrom_rBrace (h : c.kind = .rBrace) :
    brace.spanFrom depth (c :: s) = if depth - 1 = 0 then 1 else brace.spanFrom (depth - 1) s + 1 := by
  rw [spanFrom, h]
  rfl

/-- a token in braces that is no brace -/
theorem spanFrom_inside (hl : c.kind ≠ .lBrace) (hr : c.kind ≠ .rBrace) :
    brace.spanFrom (depth + 1) (c :: s) = brace.spanFrom (depth + 1) s + 1 := by
  have hcloses : brace.closes c.kind = 0 := (if_neg hr).trans (if_neg (by simp))
  rw [spanFrom, hcloses]
  exact (if_neg hl).trans ((if_neg (by simp [stops])).trans (if_neg (by omega)))

/-- A group in braces goes up to the `}` that closes the first of them, or to the end of the text. Inside
of the first one, `depth` more braces are open. -/
theorem spanFrom_brace (depth : Nat) (s : List Cue) :
    (∃ inner, kindsOf (s.take (brace.spanFrom (depth + 1) s)) = inner ++ [.rBrace]
        ∧ braceDepth? depth inner = some 0)
      ∨ s.drop (brace.spanFrom (depth + 1) s) = [] ∧ ∃ d, braceDepth? depth (kindsOf s) = some d := by
  induction s generalizing depth with
  | nil => exact .inr ⟨rfl, depth, rfl⟩
  | cons c s ih =>
    -- what holds after one more token inside of the group
    have further {e : Nat} (hk : ∀ ks, braceDepth? depth (c.kind :: ks) = braceDepth? e ks)
        (hn : brace.spanFrom (depth + 1) (c :: s) = brace.spanFrom (e + 1) s + 1) :
        (∃ inner, kindsOf ((c :: s).take (brace.spanFrom (depth + 1) (c :: s))) = inner ++ [.rBrace]
            ∧ braceDepth? depth inner = some 0)
          ∨ (c :: s).drop (brace.spanFrom (depth + 1) (c :: s)) = []
            ∧ ∃ d, braceDepth? depth (kindsOf (c :: s)) = some d := by
      rw [hn, List.take_succ_cons, List.drop_succ_cons]
      rcases ih e with ⟨inner, htake, hinner⟩ | ⟨hdrop, d, hd⟩
      · exact .inl ⟨c.kind :: inner, congrArg (List.cons c.kind) htake, (hk inner).trans hinner⟩
      · exact .inr ⟨hdrop, d, (hk (kindsOf s)).trans hd⟩
    by_cases hl : c.kind = .lBrace
    · refine further (e := depth + 1) (fun ks => ?_) (spanFrom_lBrace hl)
      rw [hl, braceDepth?_open]
    by_cases hr : c.kind = .rBrace
    · cases depth with
      | zero =>
        refine .inl ⟨[], ?_, rfl⟩
        rw [spanFrom_rBrace hr, if_pos rfl, List.take_succ_cons, List.take_zero]
        exact congrArg (fun k => [k]) hr
      | succ depth =>
        refine further (e := depth) (fun ks => ?_) ?_
        · rw [hr, braceDepth?_close]
        · rw [spanFrom_rBrace hr, Nat.add_sub_cancel, if_neg (Nat.succ_ne_zero depth)]
    · exact further (fun ks => braceDepth?_skip depth ks hl hr) (spanFrom_inside hl hr)

/-- A group in braces covers what it holds, and closes its braces unless the text ends before. -/
theorem span_brace (h : next .lBrace s = true) : Covered (kindsOf (s.take (brace.span s)))
    ∧ (s.drop (brace.span s) = [] ∨ Nested (kindsOf (s.take (brace.span s)))) := by
  cases s with
  | nil => cases h
  | cons c s =>
    have hk : c.kind = .lBrace := of_decide_eq_true h
    have hspan : brace.span (c :: s) = brace.spanFrom 1 s + 1 := spanFrom_lBrace hk
    have htake : kindsOf ((c :: s).take (brace.span (c :: s)))
        = .lBrace :: kindsOf (s.take (brace.spanFrom 1 s)) := by
      rw [hspan, List.take_succ_cons, ← hk]
      rfl
    rw [htake, hspan, List.drop_succ_cons]
    rcases spanFrom_brace 0 s with ⟨inner, hinner, hn⟩ | ⟨hdrop, d, hd⟩
    · rw [hinner]
      exact ⟨covered_closed hn, .inr (Nested.enclose hn)⟩
    · rw [List.take_of_length_le (List.drop_eq_nil_iff.mp hdrop)]
      exact ⟨covered_unclosed hd, .inl hdrop⟩

/-- A group in parentheses has no `;` and no brace in it. -/
theorem spanFrom_paren (depth : Nat) (s : List Cue) : ∀ k ∈ kindsOf (s.take (paren.spanFrom depth s)),
    k ≠ .semicolon ∧ k ≠ .lBrace ∧ k ≠ .rBrace := by
  induction s generalizing depth with
  | nil => exact List.forall_mem_nil _
  | cons c s ih =>
    -- the tokens that do not break the group off
    have further {n : Nat} (hc : paren.stops c.kind = false) (hs : ∀ k ∈ kindsOf (s.take n),
        k ≠ .semicolon ∧ k ≠ .lBrace ∧ k ≠ .rBrace) : ∀ k ∈ kindsOf ((c :: s).take (n + 1)),
        k ≠ .semicolon ∧ k ≠ .lBrace ∧ k ≠ .rBrace := by
      refine List.forall_mem_cons.mpr ⟨?_, hs⟩
      show c.kind ≠ .semicolon ∧ c.kind ≠ .lBrace ∧ c.kind ≠ .rBrace
      refine ⟨?_, ?_, ?_⟩ <;> intro hk <;> rw [hk] at hc <;> cases hc
    rw [spanFrom]
    split
    · next hk => exact further (by rw [hk]; rfl) (ih (depth + 1))
    · split
      · exact List.forall_mem_nil _
      · next hk =>
        have hc : paren.stops c.kind = false := by
          revert hk
          cases c.kind <;> decide
        split
        · exact further hc (List.forall_mem_nil _)
        · exact further hc (ih _)

end Lookahead.Bracket

namespace Rule

open Lookahead

variable {s : List Cue}

/-! ## skipping -/

/-- one token of a stretch, or one group -/
def stretchStep : Rule := choose [(next .lBrace, group .brace), (next .lParen, group .paren)] .token

theorem stretchStep_perform (budget : Nat) (call : Goal → Action)
    (h : endOr [.semicolon, .rBrace] s = false) : ∃ front t, s = front ++ t
    ∧ front ≠ [] ∧ stretchStep.perform budget call s = ⟨front.map fun _ => .token, t, false⟩
    ∧ Covered (kindsOf front) ∧ (t = [] ∨ Nested (kindsOf front)) := by
  have hsplit (b : Bracket) (hb : next b.opening s = true) : s.take (b.span s) ≠ [] := by
    intro hn
    have hpos := b.span_pos hb
    rcases List.take_eq_nil_iff.mp hn with hz | hz
    · omega
    · exact ne_nil_of_next hb hz
  rw [stretchStep, choose, perform]
  cases hbrace : next .lBrace s with
  | true =>
    obtain ⟨hc, hn⟩ := Bracket.span_brace hbrace
    exact ⟨_, _, (List.take_append_drop _ s).symm, hsplit .brace hbrace, rfl, hc, hn⟩
  | false =>
    rw [if_neg Bool.false_ne_true, choose, perform]
    cases hparen : next .lParen s with
    | true =>
      obtain ⟨hc, hn⟩ := covered_of_plain (Bracket.spanFrom_paren 0 s)
      exact ⟨_, _, (List.take_append_drop _ s).symm, hsplit .paren hparen, rfl, hc, .inr hn⟩
    | false =>
      cases s with
      | nil => cases h
      | cons c t =>
        have hends : c.kind ≠ .semicolon ∧ c.kind ≠ .rBrace := by simpa [endOr] using h
        have hl : c.kind ≠ .lBrace := of_decide_eq_false hbrace
        have hplain : Covered [c.kind] ∧ Nested [c.kind] :=
          covered_of_plain (by simpa using ⟨hends.1, hl, hends.2⟩)
        exact ⟨[c], t, rfl, List.cons_ne_nil c [], rfl, hplain.1, .inr hplain.2⟩

/-- The tokens before the end of a stretch: the text ends after them, or all their braces are closed and a
`;` or `}` comes next. -/
theorem stretch_loop (budget : Nat) (call : Goal → Action) {turns : Nat} (h : s.length < turns) :
    ∃ front t, s = front ++ t
    ∧ Action.loop ((branch (endOr [.semicolon, .rBrace]) leave stretchStep).perform budget call) turns s
      = ⟨front.map fun _ => .token, t, false⟩
    ∧ Covered (kindsOf front)
    ∧ (t = [] ∨ Nested (kindsOf front) ∧ endOr [.semicolon, .rBrace] t = true) := by
  induction turns generalizing s with
  | zero => exact absurd h (Nat.not_lt_zero _)
  | succ turns ih =>
    rw [Action.loop, perform]
    cases he : endOr [.semicolon, .rBrace] s with
    | true => exact ⟨[], s, rfl, rfl, covered_nil, .inr ⟨nested_nil, he⟩⟩
    | false =>
      obtain ⟨front, t, rfl, hne, hstep, hc, hn⟩ := stretchStep_perform budget call he
      have hlt : t.length < turns := by
        have := List.length_pos_iff.mpr hne
        rw [List.length_append] at h
        omega
      obtain ⟨more, u, rfl, hloop, hcmore, hend⟩ := ih hlt
      refine ⟨front ++ more, u, (List.append_assoc ..).symm, ?_, ?_, ?_⟩
      · rw [if_neg Bool.false_ne_true, hstep, List.map_append]
        show Outcome.mk (_ ++ (Action.loop _ turns (more ++ u)).built) (Action.loop _ turns (more ++ u)).ahead
          false = _
        rw [hloop]
      · rw [kindsOf, List.map_append]
        rcases hn with hnil | hn
        · rw [(List.append_eq_nil_iff.mp hnil).1, List.map_nil, List.append_nil]
          exact hc
        · exact hc.append hn hcmore
      · rcases hn with hnil | hn
        · exact .inl (List.append_eq_nil_iff.mp hnil).2
        · refine hend.imp_right fun h => ⟨?_, h.2⟩
          rw [kindsOf, List.map_append]
          exact hn.append h.1

/-- Skipping to a `;` takes just a stretch, as it is. -/
theorem toSemicolon_perform {budget : Nat} (call : Goal → Action) (h : s.length < budget) :
    ∃ taken left, s = taken ++ left
    ∧ toSemicolon.perform budget call s = ⟨taken.map fun _ => .token, left, false⟩
    ∧ IsStretch (kindsOf taken) (kindsOf left) := by
  obtain ⟨front, t, rfl, hloop, hc, hend⟩ := stretch_loop budget call h
  have hrun : toSemicolon.perform budget call (front ++ t)
      = ⟨front.map (fun _ => .token) ++ ((eat .semicolon).perform budget call t).built,
        ((eat .semicolon).perform budget call t).ahead,
        ((eat .semicolon).perform budget call t).leaving⟩ := by
    show Action.andThen (Action.loop ((branch _ leave stretchStep).perform budget call) budget) _ _ = _
    rw [Action.andThen, hloop]
    rfl
  rw [hrun]
  cases hs : next .semicolon t with
  | true =>
    cases t with
    | nil => cases hs
    | cons c t =>
      have hk : c.kind = .semicolon := of_decide_eq_true hs
      have hn : Nested (kindsOf front) := (hend.resolve_left (List.cons_ne_nil c t)).1
      refine ⟨front ++ [c], t, by rw [List.append_assoc]; rfl, ?_, ?_⟩
      · rw [eat_of_next hs, List.map_append]
        rfl
      · rw [kindsOf, List.map_append, List.map_singleton, hk]
        exact .semicolon hc hn
  | false =>
    rw [eat_of_not_next hs, List.append_nil]
    refine ⟨front, t, rfl, rfl, ?_⟩
    cases t with
    | nil => exact .whole hc
    | cons c t =>
      obtain ⟨hn, he⟩ := hend.resolve_left (List.cons_ne_nil c t)
      have hk : c.kind = .rBrace := by
        have hne : c.kind ≠ .semicolon := of_decide_eq_false hs
        simpa [endOr, hne] using he
      show IsStretch _ (c.kind :: kindsOf t)
      rw [hk]
      exact .closer hc hn

end Rule

end CppMend
