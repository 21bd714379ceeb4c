import CppMend.Proofs.Grammar.Parts
import Mathlib.Data.List.TakeWhile

/-!
# Declarators, part by part

The rules of declarators take one part after the other, and no rule takes what an earlier one could have
gone on with.

* `Rule.TakesParts`       a rule that makes parts which follow each other;
* `Rule.loop_takesParts`  a loop of such rules, by an invariant;
* `Rule.Reached`          how far a declarator is, and what it does not go on with;
* `Rule.declaratorName_takesParts`, `Rule.declaratorSuffix_takesParts`   the rules of one declarator;
* `Rule.declarators_takesParts`   those of all declarators of a declaration.
-/

namespace CppMend

namespace Rule

open Lookahead CppMend.Part
open Tree.Shape (row)

variable {b : Nat} {place : Place} {q r : Rule} {p? : Option Part} {s t : List Cue}
  {I J : Option Part → List Cue → Prop}

/-! ## tokens -/

theorem forms_group (b : Nat) (br : Bracket) (h : next br.opening s = true) : ∃ ks t,
    Forms b (group br) s (row ks) t ∧ br.IsGroup ks ∧ ∀ c ∈ t.head?, br.endsBefore ks c.kind = true := by
  obtain ⟨hgroup, hends⟩ := Bracket.span_isGroup h
  refine ⟨_, _, ⟨_, rfl, ?_⟩, hgroup, hends⟩
  have htokens := Outline.shapesAll_tokens (s.take (br.span s)) (s.drop (br.span s))
  rwa [List.take_append_drop] at htokens

theorem skipTo_ahead {ks : List TokenKind} (hl : (skipTo ks).Ends b s) :
    ((skipTo ks).perform b (reach grammar b) s).ahead = s.dropWhile fun c => !ks.contains c.kind := by
  have hbody (c : Cue) (s : List Cue) : (branch (endOr ks) leave token).perform b (reach grammar b) (c :: s)
      = if ks.contains c.kind then ⟨[], c :: s, true⟩ else ⟨[.token], s, false⟩ := rfl
  refine loop_ends (E := fun s t => t = s.dropWhile fun c => !ks.contains c.kind) (fun s hs => ?_)
    (fun s t hs ht => ?_) hl
  · cases s with
    | nil => rfl
    | cons c s =>
      rw [hbody] at hs ⊢
      split at hs
      · next hc => rw [if_pos hc, List.dropWhile_cons_of_neg (by rw [hc]; exact Bool.false_ne_true)]
      · cases hs
  · cases s with
    | nil => cases hs
    | cons c s =>
      rw [hbody] at hs ht
      split at hs
      · cases hs
      · next hc =>
        rw [if_neg hc] at ht
        rw [List.dropWhile_cons_of_pos (by rw [Bool.eq_false_iff.mpr hc]; rfl)]
        exact ht

/-- What is skipped is all that stands before one of the tokens. -/
theorem forms_skipTo {ks : List TokenKind} (hl : (skipTo ks).Ends b s) :
    Forms b (skipTo ks) s (row (kindsOf (s.takeWhile fun c => !ks.contains c.kind)))
      (s.dropWhile fun c => !ks.contains c.kind) := by
  obtain ⟨taken, t, hs, h⟩ := forms_of_readsAny (r := skipTo ks) rfl (skipTo_readsAny ks) hl
  obtain rfl : t = s.dropWhile fun c => !ks.contains c.kind := by rw [← skipTo_ahead hl, h.eq.2]
  have hsplit := (s.takeWhile_append_dropWhile (p := fun c => !ks.contains c.kind)).trans hs
  rwa [List.append_cancel_right hsplit]

/-! ## parts -/

/-- The rule makes parts that follow each other, behind a part or the type, and then some condition holds
of the last part and what is ahead. -/
def TakesParts (b : Nat) (place : Place) (r : Rule) (p? : Option Part) (s : List Cue)
    (J : Option Part → List Cue → Prop) : Prop :=
  ∃ ps t, Forms b r s (ps.flatMap Part.shapes) t ∧ Part.Path place p? ps ∧ J (last p? ps) t

theorem takesParts_nothing (h : J p? s) : TakesParts b place .nothing p? s J :=
  ⟨[], s, forms_nothing, trivial, h⟩

theorem takesParts_one (part : Part) (hr : Forms b r s part.shapes t) (hpart : Part.Follows place p? part)
    (hj : J (some part) t) : TakesParts b place r p? s J :=
  ⟨[part], t, by rwa [List.flatMap_singleton], ⟨hpart, trivial⟩, hj⟩

theorem TakesParts.seq (hr : TakesParts b place r p? s I)
    (hq : ∀ p? t, I p? t → q.Ends b t → TakesParts b place q p? t J) (hl : (Rule.seq r q).Ends b s) :
    TakesParts b place (.seq r q) p? s J := by
  obtain ⟨ps, t, hforms, hpath, hi⟩ := hr
  obtain ⟨qs, u, hforms', hpath', hj⟩ := hq _ t hi (hforms.ends hl)
  refine ⟨ps ++ qs, u, ?_, hpath.append hpath', by rwa [last_append]⟩
  rw [List.flatMap_append]
  exact hforms.seq hforms'

theorem TakesParts.branch {test : List Cue → Bool} (h : test s = true) (hr : TakesParts b place r p? s J) :
    TakesParts b place (.branch test r q) p? s J := by
  obtain ⟨ps, t, hforms, hrest⟩ := hr
  exact ⟨ps, t, hforms.branch h, hrest⟩

theorem TakesParts.otherwise {test : List Cue → Bool} (h : test s = false) (hq : TakesParts b place q p? s J) :
    TakesParts b place (.branch test r q) p? s J := by
  obtain ⟨ps, t, hforms, hrest⟩ := hq
  exact ⟨ps, t, hforms.otherwise h, hrest⟩

theorem takesParts_token {part : Part} {c : Cue} (hs : part.shapes = [.leaf c.kind])
    (hpart : Part.Follows place p? part) (hj : J (some part) s) : TakesParts b place .token p? (c :: s) J :=
  takesParts_one part (hs ▸ forms_token) hpart hj

/-- A loop makes parts that follow each other, if each turn does, and keeps what the next one needs. -/
theorem loop_takesParts (hturn : ∀ p? s, I p? s → r.Ends b s →
      Leaves b r s ∧ J p? s ∨ TakesParts b place r p? s I)
    (hi : I p? s) (hl : (Rule.loop r).Ends b s) : TakesParts b place (.loop r) p? s J := by
  have hloop : ∀ turns, ∀ {p? : Option Part} {s : List Cue}, I p? s →
      Action.LoopLasts (r.Lasts b (reach grammar b) (Lasting b)) (r.perform b (reach grammar b)) turns s →
        ∃ ps os t, Action.loop (r.perform b (reach grammar b)) turns s = ⟨os, t, false⟩
          ∧ (Outline.shapesAll os (kindsOf s)).1 = ps.flatMap Part.shapes ∧ Part.Path place p? ps
          ∧ J (last p? ps) t := by
    intro turns
    induction turns with
    | zero => exact fun _ hl => absurd hl id
    | succ turns ih =>
      intro p? s hi hl
      rcases hturn p? s hi hl.1 with ⟨hleaves, hj⟩ | ⟨ps, t, ⟨os, hgives, hshapes⟩, hpath, hi'⟩
      · refine ⟨[], [], s, ?_, rfl, trivial, hj⟩
        rw [Action.loop, hleaves, if_pos rfl]
      · have hmore := hl.2 (by rw [hgives])
        rw [hgives] at hmore
        obtain ⟨qs, us, u, hu, hshapes', hpath', hj⟩ := ih hi' hmore
        refine ⟨ps ++ qs, os ++ us, u, ?_, ?_, hpath.append hpath', by rwa [last_append]⟩
        · rw [Action.loop, hgives, if_neg Bool.false_ne_true]
          show (⟨os ++ (Action.loop _ turns t).built, (Action.loop _ turns t).ahead, false⟩ : Outcome) = _
          rw [hu]
        · have hfits : (Outcome.mk os t false).Fits s :=
            hgives ▸ r.perform_fits (reach_fits grammar b) s
          rw [List.flatMap_append, ← hshapes, ← hshapes']
          exact Outline.shapesAll_append_of_fits hfits us
  obtain ⟨ps, os, t, hgives, hshapes, hrest⟩ := hloop b hi hl
  exact ⟨ps, t, ⟨os, hgives, hshapes⟩, hrest⟩

/-! ## how far a declarator is -/

/-- The last part is of stage `n` at most and may end here, and a token of the kinds `ks` is next only if
the declarators do not go on with it. -/
structure Reached (place : Place) (ks : List TokenKind) (n : Nat) (p? : Option Part) (s : List Cue) : Prop where
  stage : stage p? ≤ n
  ends : ∀ c ∈ s.head?, endsBefore p? c.kind = true
  done : ∀ k ∈ ks, goesOn place p? k = true → next k s = false

/-- the marks before a name -/
def marks : List TokenKind := [.star, .amp, .andAnd, .kwConst]

/-- the tokens that a declarator starts with, and those in its name -/
def names : List TokenKind := marks ++ [.kwOperator, .less, .ident, .doubleColon, .tilde]

/-- and those that extents start with -/
def extents : List TokenKind := names ++ [.lBracket]

/-- and those that a width starts with -/
def widths (place : Place) : List TokenKind := extents ++ if place = .record then [.colon] else []

/-- and those that a value starts with -/
def values (place : Place) : List TokenKind := widths place ++ [.equal, .lBrace, .lParen]

/-- and those that another declarator starts with -/
def commas (place : Place) : List TokenKind := values place ++ [.comma]

namespace Reached

variable {ks ls : List TokenKind} {m n : Nat} {k : TokenKind} {c : Cue}

theorem weaken (h : Reached place ks m p? s) (hn : m ≤ n) : Reached place ks n p? s :=
  ⟨h.stage.trans hn, h.ends, h.done⟩

/-- One more kind of token is not next. -/
theorem beside (h : Reached place ks n p? s)
    (hls : ∀ k ∈ ls, goesOn place p? k = true → next k s = false) : Reached place (ks ++ ls) n p? s :=
  ⟨h.stage, h.ends, List.forall_mem_append.mpr ⟨h.done, hls⟩⟩

/-- A part that the declarators go on with follows the last one. -/
theorem follows {q : Part} (h : Reached place ks n p? s) (hok : q.Ok) (hrest : q.isRest = false)
    (hnext : next q.head s = true) (hgo : goesOn place p? q.head = true) : Part.Follows place p? q := by
  obtain ⟨c, t, rfl, hc⟩ := cons_of_next hnext
  refine ⟨hok, ?_, by rw [hrest, hgo]; rfl, by rw [← hc]; exact h.ends c rfl⟩
  rintro p rfl
  cases p with
  | rest j ls => exact absurd ((goesOn_rest place j ls q.head).symm.trans hgo) Bool.false_ne_true
  | _ => rfl

end Reached

theorem next_of_not_nextIn {ks : List TokenKind} {k : TokenKind} (h : nextIn ks s = false) (hk : k ∈ ks) :
    next k s = false := by
  cases s with
  | nil => rfl
  | cons c s =>
    have hc : c.kind ∉ ks := fun hc => by simp [nextIn, hc] at h
    exact decide_eq_false fun he => hc (he ▸ hk)

/-! ## names -/

/-- what is not next inside a name -/
def beforeWord : List TokenKind := marks ++ [.kwOperator, .less]

theorem isName_of_stage (h : Part.stage p? = 0) : isName p? = false := by
  cases p? with
  | none => rfl
  | some p => cases p <;> first | rfl | cases h

theorem reached_arguments {ks : List TokenKind}
    (h : ∀ c ∈ t.head?, Bracket.angle.endsBefore ks c.kind = true) :
    Reached place beforeWord 1 (some (.arguments ks)) t :=
  ⟨Nat.le_refl 1, h, by simp [beforeWord, marks, goesOn, Part.stage, isMark, isName]⟩

theorem reached_word {k : TokenKind} (h : k = .ident → next .less t = false) :
    Reached place beforeWord 1 (some (.word k)) t := by
  refine ⟨Nat.le_refl 1, fun _ _ => rfl, fun j hj hgo => ?_⟩
  simp only [beforeWord, marks, List.mem_append, List.mem_cons, List.not_mem_nil, or_false] at hj
  rcases hj with (rfl | rfl | rfl | rfl) | rfl | rfl <;> first | exact h (of_decide_eq_true hgo) | cases hgo

/-- a name, and the template arguments behind it -/
def argumentedName : Rule := inOrder [.token, group .angle]

/-- one turn of a name -/
def nameStep : Rule :=
  choose [
    (fun s => next .ident s && secondIs (· = .less) s, argumentedName),
    (nextIn [.ident, .doubleColon, .tilde], .token)]
    .leave

theorem declaratorName_eq : declaratorName = .branch (next .kwOperator) operatorName (.loop nameStep) := rfl

theorem argumentedName_takesParts (h : Reached place beforeWord 1 p? s) (hi : next .ident s = true)
    (hless : secondIs (· = .less) s = true) :
    TakesParts b place argumentedName p? s (Reached place beforeWord 1) := by
  obtain ⟨c, s, rfl, hc⟩ := cons_of_next hi
  obtain ⟨d, t, rfl, hd⟩ : ∃ d t, s = d :: t ∧ d.kind = .less := by
    cases s with
    | nil => cases hless
    | cons d t => exact ⟨d, t, rfl, of_decide_eq_true hless⟩
  obtain ⟨ks, u, hforms, hgroup, hends⟩ :=
    forms_group (s := d :: t) b .angle (decide_eq_true hd)
  have hword : Part.Follows place p? (.word .ident) :=
    h.follows (by simp [Part.Ok]) rfl hi (by simpa [goesOn, head] using h.stage)
  have harguments : Part.Follows place (some (.word .ident)) (.arguments ks) :=
    ⟨hgroup, by rintro p ⟨⟩; rfl, rfl, rfl⟩
  refine ⟨[.word .ident, .arguments ks], u, ?_, ⟨hword, harguments, trivial⟩, reached_arguments hends⟩
  have hboth : Forms b argumentedName (c :: d :: t) ([.leaf c.kind] ++ row ks) u := forms_token.seq hforms
  rw [hc] at hboth
  simpa [Part.shapes] using hboth

theorem nameStep_takesParts (h : Reached place beforeWord 1 p? s) :
    Leaves b nameStep s ∧ Reached place names 1 p? s
      ∨ TakesParts b place nameStep p? s (Reached place beforeWord 1) := by
  cases hless : next .ident s && secondIs (· = .less) s with
  | true =>
    obtain ⟨hi, hl⟩ := Bool.and_eq_true_iff.mp hless
    exact .inr ((argumentedName_takesParts h hi hl).branch hless)
  | false =>
    cases hword : nextIn [.ident, .doubleColon, .tilde] s with
    | true =>
      obtain ⟨c, s, rfl, hc⟩ := cons_of_nextIn hword
      have hfollows : Part.Follows place p? (.word c.kind) := by
        refine h.follows hc rfl (decide_eq_true rfl) ?_
        have hstage := decide_eq_true h.stage
        simp only [List.mem_cons, List.not_mem_nil, or_false] at hc
        rcases hc with hc | hc | hc <;> rw [head, hc] <;> exact hstage
      have hreached : Reached place beforeWord 1 (some (.word c.kind)) s := by
        refine reached_word fun hk => ?_
        cases s with
        | nil => rfl
        | cons d s => simpa [next, secondIs, hk] using hless
      exact .inr (.otherwise hless (.branch hword (takesParts_token rfl hfollows hreached)))
    | false =>
      left
      exact ⟨.otherwise hless (.otherwise hword leaves_leave), h.beside fun k hk _ => next_of_not_nextIn hword hk⟩

theorem reached_operator {ks : List TokenKind}
    (h : ∀ c ∈ t.head?, endsBefore (some (.operator ks)) c.kind = true) :
    Reached place names 2 (some (.operator ks)) t :=
  ⟨Nat.le_refl 2, h, by simp [names, marks, goesOn, Part.stage, isMark, isName]⟩

theorem operatorName_takesParts (h : Reached place marks 0 p? s) (ho : next .kwOperator s = true)
    (hl : operatorName.Ends b s) : TakesParts b place operatorName p? s (Reached place names 2) := by
  obtain ⟨c, s, rfl, hc⟩ := cons_of_next ho
  have hstage : goesOn place p? .kwOperator = true := decide_eq_true (Nat.le_zero.mp h.stage)
  -- the tokens of the name, and what may come behind it
  have named {ks : List TokenKind} {t : List Cue} (hname : (Part.operator ks).Ok)
      (hforms : Forms b operatorName (c :: s) (row ks) t)
      (hends : ∀ c ∈ t.head?, endsBefore (some (.operator ks)) c.kind = true) :
      TakesParts b place operatorName p? (c :: s) (Reached place names 2) :=
    takesParts_one (.operator ks) hforms (h.follows hname rfl ho hstage) (reached_operator hends)
  cases hparen : next .lParen s with
  | true =>
    obtain ⟨d, s, rfl, hd⟩ := cons_of_next hparen
    cases hclose : next .rParen s with
    | true =>
      obtain ⟨e, t, rfl, he⟩ := cons_of_next hclose
      have hforms : Forms b operatorName (c :: d :: e :: t) _ t :=
        forms_token.seq (.branch hparen (forms_token.seq (forms_token.branch hclose)))
      rw [hc, hd, he] at hforms
      exact named (.inr (.inl rfl)) hforms fun c _ => by simp [endsBefore]
    | false =>
      have hforms : Forms b operatorName (c :: d :: s) _ s :=
        forms_token.seq (.branch hparen (forms_token.seq (forms_skip hclose)))
      rw [hc, hd] at hforms
      refine named (.inl rfl) hforms fun e he => ?_
      cases s with
      | nil => cases he
      | cons e' s =>
        cases he
        simpa [endsBefore, next] using hclose
  | false =>
    have hskip := forms_skipTo ((forms_token.ends hl).2 hparen)
    have hforms : Forms b operatorName (c :: s)
        (row (c.kind :: kindsOf (s.takeWhile fun c => !([TokenKind.lParen].contains c.kind)))) _ :=
      forms_token.seq (.otherwise hparen hskip)
    rw [hc] at hforms
    refine named (.inr (.inr ⟨rfl, ?_⟩)) hforms fun e he => ?_
    · simp only [kindsOf, List.mem_cons, List.mem_map, not_or, not_exists, not_and]
      refine ⟨by decide, fun e he => ?_⟩
      have := List.mem_takeWhile_imp he
      simpa using this
    · have := List.head?_dropWhile_not (fun c : Cue => !([TokenKind.lParen].contains c.kind)) s
      rw [he] at this
      have hk : e.kind = .lParen := by simpa using this
      rw [endsBefore, hk]
      split <;> rfl

theorem declaratorName_takesParts (h : Reached place marks 0 p? s) (hl : declaratorName.Ends b s) :
    TakesParts b place declaratorName p? s (Reached place names 2) := by
  rw [declaratorName_eq] at hl ⊢
  cases ho : next .kwOperator s with
  | true => exact (operatorName_takesParts h ho (hl.1 ho)).branch ho
  | false =>
    have hstart : Reached place beforeWord 1 p? s := by
      refine (h.beside fun k hk hgo => ?_).weaken (Nat.zero_le 1)
      simp only [List.mem_cons, List.not_mem_nil, or_false] at hk
      rcases hk with rfl | rfl
      · exact ho
      · rw [goesOn, isName_of_stage (Nat.le_zero.mp h.stage)] at hgo
        cases hgo
    exact .otherwise ho (loop_takesParts (fun p? s hi _ => (nameStep_takesParts hi).imp_left fun hend =>
      ⟨hend.1, hend.2.weaken (Nat.le_succ 1)⟩) hstart (hl.2 ho))

/-! ## what comes behind a name -/

/-- the extents of an array -/
def arrayExtents : Rule := whileTrue (next .lBracket) (group .square)

/-- a width, where there may be one -/
def bitWidth (place : Place) : Rule :=
  onlyIf (fun s => place = .record && next .colon s) (inOrder [.token, expression])

/-- an initial value -/
def initialValue : Rule :=
  choose [
    (next .equal, assignedValue),
    (next .lBrace, .node .initializer initList),
    (next .lParen, .node .initializer argList)]
    .nothing

theorem declaratorSuffix_eq :
    declaratorSuffix place = .seq arrayExtents (.seq (bitWidth place) initialValue) := rfl

theorem reached_extent {ks : List TokenKind}
    (h : ∀ c ∈ t.head?, Bracket.square.endsBefore ks c.kind = true) :
    Reached place names 3 (some (.extent ks)) t :=
  ⟨Nat.le_refl 3, h, by simp [names, marks, goesOn, Part.stage, isMark, isName]⟩

theorem arrayExtents_takesParts (h : Reached place names 3 p? s) (hl : arrayExtents.Ends b s) :
    TakesParts b place arrayExtents p? s (Reached place extents 3) := by
  refine loop_takesParts (I := Reached place names 3) (fun p? s h _ => ?_) h hl
  cases hopen : next .lBracket s with
  | true =>
    obtain ⟨ks, t, hforms, hgroup, hends⟩ := forms_group b .square hopen
    have hfollows : Part.Follows place p? (.extent ks) :=
      h.follows hgroup rfl hopen (decide_eq_true h.stage)
    exact .inr ((takesParts_one (.extent ks) hforms hfollows (reached_extent hends)).branch hopen)
  | false =>
    refine .inl ⟨.otherwise hopen leaves_leave, h.beside fun k hk _ => ?_⟩
    rw [List.mem_singleton.mp hk]
    exact hopen

theorem width_takesParts (h : Part.Follows place p? (.width none)) (hc : next .colon s = true)
    (hl : (inOrder [.token, expression]).Ends b s)
    (hj : ∀ value? t, J (some (.width value?)) t) : TakesParts b place (inOrder [.token, expression]) p? s J := by
  obtain ⟨c, s, rfl, hk⟩ := cons_of_next hc
  obtain ⟨value?, t, hvalue, hok⟩ := forms_expression (forms_token.ends hl)
  have hforms : Forms b (inOrder [.token, expression]) (c :: s) _ t := forms_token.seq hvalue
  rw [hk] at hforms
  exact takesParts_one (.width value?) hforms ⟨hok, h.more, h.skipped, h.ends⟩ (hj value? t)

theorem bitWidth_takesParts (h : Reached place extents 3 p? s) (hl : (bitWidth place).Ends b s) :
    TakesParts b place (bitWidth place) p? s (Reached place (widths place) 4) := by
  cases hc : (place = .record && next .colon s : Bool) with
  | true =>
    obtain ⟨hplace, hcolon⟩ := Bool.and_eq_true_iff.mp hc
    have hplace : place = .record := of_decide_eq_true hplace
    have hgo : goesOn place p? .colon = true := by
      rw [hplace]
      exact Bool.or_eq_true_iff.mpr (.inl (decide_eq_true h.stage))
    refine .branch hc (width_takesParts (h.follows (by rintro e ⟨⟩) rfl hcolon hgo) hcolon (hl.1 hc) fun value? t => ?_)
    refine ⟨Nat.le_refl 4, fun _ _ => rfl, ?_⟩
    simp [widths, extents, names, marks, goesOn, Part.stage, isMark, isName, hplace]
  | false =>
    refine .otherwise hc (takesParts_nothing ((h.beside fun k hk _ => ?_).weaken (Nat.le_succ 3)))
    split at hk
    · next hplace =>
      rw [List.mem_singleton.mp hk]
      simpa [hplace] using hc
    · cases hk

theorem initialValue_takesParts (h : Reached place (widths place) 4 p? s) :
    TakesParts b place initialValue p? s (Reached place (values place) 5) := by
  have hstage := decide_eq_true h.stage
  -- a value, by its first token
  have valued {k : TokenKind} {parts : List Tree.Shape} {r : Rule} {t : List Cue}
      (hforms : Forms b r s [.node .initializer parts] t) (hvalue : IsValue k parts)
      (hk : goesOn place p? k = decide (Part.stage p? ≤ 4)) (hn : next k s = true) :
      TakesParts b place r p? s (Reached place (values place) 5) := by
    refine takesParts_one (.value k parts) hforms (h.follows hvalue rfl hn (hk.trans hstage))
      ⟨Nat.le_refl 5, fun _ _ => rfl, ?_⟩
    cases place <;> simp [values, widths, extents, names, marks, goesOn, Part.stage, isMark, isName]
  cases he : next .equal s with
  | true =>
    obtain ⟨c, s, rfl, hc⟩ := cons_of_next he
    obtain ⟨ss, t, hexpression⟩ := forms_of_stays (b := b) (r := expression) rfl s
    have hforms : Forms b assignedValue (c :: s) [.node .initializer (.leaf c.kind :: ss)] t :=
      (forms_token.seq hexpression).node .initializer
    rw [hc] at hforms
    exact (valued hforms ⟨ss, .inl ⟨rfl, rfl⟩⟩ rfl he).branch he
  | false =>
    cases hb : next .lBrace s with
    | true =>
      obtain ⟨ss, t, hlist⟩ := forms_node (b := b) .initList _ s
      exact .otherwise he (.branch hb (valued (hlist.node .initializer) ⟨ss, .inr (.inl ⟨rfl, rfl⟩)⟩ rfl hb))
    | false =>
      cases hp : next .lParen s with
      | true =>
        obtain ⟨ss, t, hlist⟩ := forms_node (b := b) .argList _ s
        exact .otherwise he (.otherwise hb (.branch hp
          (valued (hlist.node .initializer) ⟨ss, .inr (.inr ⟨rfl, rfl⟩)⟩ rfl hp)))
      | false =>
        refine .otherwise he (.otherwise hb (.otherwise hp (takesParts_nothing
          ((h.beside fun k hk _ => ?_).weaken (Nat.le_succ 4)))))
        simp only [List.mem_cons, List.not_mem_nil, or_false] at hk
        rcases hk with rfl | rfl | rfl
        · exact he
        · exact hb
        · exact hp

theorem declaratorSuffix_takesParts (h : Reached place names 3 p? s) (hl : (declaratorSuffix place).Ends b s) :
    TakesParts b place (declaratorSuffix place) p? s (Reached place (values place) 5) := by
  rw [declaratorSuffix_eq] at hl ⊢
  refine (arrayExtents_takesParts h hl.1).seq (fun p? t h hl => ?_) hl
  exact (bitWidth_takesParts h hl.1).seq (fun p? u h _ => initialValue_takesParts h) hl

/-! ## all declarators -/

/-- the marks of pointers behind a comma -/
def pointers : Rule := whileTrue (nextIn marks) .token

theorem pointers_takesParts (hl : pointers.Ends b s) {k : TokenKind} (hk : p? = some (.mark k)) :
    TakesParts b place pointers p? s (Reached place marks 0) := by
  refine loop_takesParts (I := fun p? _ => ∃ k, p? = some (.mark k)) (fun p? s hi _ => ?_) ⟨k, hk⟩ hl
  obtain ⟨k, rfl⟩ := hi
  cases hm : nextIn marks s with
  | true =>
    obtain ⟨c, s, rfl, hc⟩ := cons_of_nextIn hm
    have hfollows : Part.Follows place (some (.mark k)) (.mark c.kind) := by
      refine ⟨List.mem_cons_of_mem _ hc, by rintro p ⟨⟩; rfl, ?_, rfl⟩
      simp only [marks, List.mem_cons, List.not_mem_nil, or_false] at hc
      rcases hc with hc | hc | hc | hc <;> rw [head, hc] <;> rfl
    exact .inr (.branch hm (takesParts_token rfl hfollows ⟨_, rfl⟩))
  | false =>
    exact .inl ⟨.otherwise hm leaves_leave, Nat.le_refl 0, fun _ _ => rfl, fun k hk _ => next_of_not_nextIn hm hk⟩

/-- what comes behind a comma -/
def nextDeclarator (place : Place) : Rule :=
  inOrder [.token, pointers, declaratorName, declaratorSuffix place]

/-- what comes behind the last declarator -/
def declarationRest (place : Place) : Rule :=
  .branch (fun s => place = .body && next .colon s) (inOrder [.token, expression]) toSemicolon

theorem declarators_eq : declarators place = .seq (declaratorSuffix place)
    (.seq (whileTrue (next .comma) (nextDeclarator place)) (declarationRest place)) := rfl

theorem nextDeclarator_takesParts (h : Reached place (values place) 5 p? s) (hc : next .comma s = true)
    (hl : (nextDeclarator place).Ends b s) :
    TakesParts b place (nextDeclarator place) p? s (Reached place (values place) 5) := by
  obtain ⟨c, s, rfl, hk⟩ := cons_of_next hc
  have hcomma : Part.Follows place p? (.mark c.kind) :=
    h.follows (by simp [Part.Ok, hk]) rfl (decide_eq_true rfl) (by rw [head, hk]; exact decide_eq_true h.stage)
  have hfirst : TakesParts b place .token p? (c :: s) fun p? t => p? = some (.mark c.kind) ∧ t = s :=
    takesParts_token rfl hcomma ⟨rfl, rfl⟩
  refine hfirst.seq (fun p? t hp hl => ?_) hl
  refine (pointers_takesParts hl.1 hp.1).seq (fun p? t h hl => ?_) hl
  refine (declaratorName_takesParts h hl.1).seq (fun p? t h hl => ?_) hl
  exact declaratorSuffix_takesParts (h.weaken (Nat.le_succ 2)) hl

/-- what the declarators go on with -/
theorem mem_commas_of_goesOn {k : TokenKind} (h : goesOn place p? k = true) :
    k ∈ commas place ∨ place = .body ∧ k = .colon := by
  by_cases hk : k = .colon
  · subst hk
    cases place with
    | file => cases h
    | record => exact .inl (by decide)
    | body => exact .inr ⟨rfl, rfl⟩
  · left
    cases k <;> first | exact absurd rfl hk | cases h | skip
    all_goals simp [commas, values, widths, extents, names, marks]

theorem declarationRest_takesParts (h : Reached place (commas place) 5 p? s)
    (hl : (declarationRest place).Ends b s) :
    TakesParts b place (declarationRest place) p? s fun _ _ => True := by
  cases hc : (place = .body && next .colon s : Bool) with
  | true =>
    obtain ⟨hplace, hcolon⟩ := Bool.and_eq_true_iff.mp hc
    have hgo : goesOn place p? .colon = true := by simp [goesOn, of_decide_eq_true hplace, h.stage]
    exact .branch hc (width_takesParts (h.follows (by rintro e ⟨⟩) rfl hcolon hgo) hcolon (hl.1 hc)
      fun _ _ => trivial)
  | false =>
    refine .otherwise hc ?_
    obtain ⟨taken, t, rfl, hforms⟩ := forms_toSemicolon (hl.2 hc)
    cases taken with
    | nil => exact ⟨[], t, hforms, trivial, trivial⟩
    | cons c taken =>
      have hskipped : goesOn place p? c.kind = false := by
        by_contra hgo
        rw [Bool.not_eq_false] at hgo
        have hnext : next c.kind (c :: (taken ++ t)) = true := decide_eq_true rfl
        rcases mem_commas_of_goesOn hgo with hk | ⟨rfl, hk⟩
        · exact absurd ((h.done c.kind hk hgo).symm.trans hnext) Bool.false_ne_true
        · rw [hk] at hnext
          simp [hnext] at hc
      have hends : endsBefore p? c.kind = true := h.ends c rfl
      refine takesParts_one (.rest c.kind (kindsOf taken)) hforms ⟨trivial, ?_, ?_, hends⟩ trivial
      · rintro p rfl
        cases p with
        | rest k ks => exact absurd h.stage (by simp [Part.stage])
        | _ => rfl
      · rw [head, hskipped]
        rfl

theorem declarators_takesParts (h : Reached place names 2 p? s) (hl : (declarators place).Ends b s) :
    TakesParts b place (declarators place) p? s fun _ _ => True := by
  rw [declarators_eq] at hl ⊢
  refine (declaratorSuffix_takesParts (h.weaken (Nat.le_succ 2)) hl.1).seq (fun p? t h hl => ?_) hl
  refine TakesParts.seq (loop_takesParts (I := Reached place (values place) 5) (fun p? s h hl => ?_) h hl.1)
    (fun p? t h hl => declarationRest_takesParts h hl) hl
  cases hc : next .comma s with
  | true => exact .inr ((nextDeclarator_takesParts h hc (hl.1 hc)).branch hc)
  | false =>
    refine .inl ⟨.otherwise hc leaves_leave, h.beside fun k hk _ => ?_⟩
    rw [List.mem_singleton.mp hk]
    exact hc

end Rule

end CppMend
