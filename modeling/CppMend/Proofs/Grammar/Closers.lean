import CppMend.Proofs.Grammar.Extent
import Mathlib.Data.List.TakeWhile
import Mathlib.Tactic.SplitIfs

/-!
# What follows the brace that ends a list

The tests of the grammar read ahead as far as they need to, but none of them is decided by what comes
after a `}` that it does not go across. So where some cues end with a `}`, and a rule does not take all
of them, the rule does the same if more such braces follow.

* `Near`                        what a test finds does not depend on the braces after the last one;
* `Rule.Local`                  all tests of a rule are so;
* `Rule.perform_local`          then what the rule does is so as well, if it does not take everything;
* `grammar_local`, `reach_local`   every rule of the grammar is local, and so is every goal.
-/

namespace CppMend

/-! ## cues that end with a brace -/

/-- The last cue is a `}`. -/
def IsShut (s : List Cue) : Prop := ∃ c, s.getLast? = some c ∧ c.kind = .rBrace

/-- All cues are a `}`. -/
def Closers (ts : List Cue) : Prop := ∀ c ∈ ts, c.kind = .rBrace ∧ c.mark = .plain

namespace IsShut

variable {s : List Cue} {c : Cue}

theorem ne_nil (h : IsShut s) : s ≠ [] := by
  rintro rfl
  obtain ⟨c, hc, -⟩ := h
  cases hc

theorem drop (h : IsShut s) {n : Nat} (hn : s.drop n ≠ []) : IsShut (s.drop n) := by
  obtain ⟨c, hc, hk⟩ := h
  refine ⟨c, ?_, hk⟩
  have hlt : n < s.length := Nat.lt_of_not_ge fun hge => hn (List.drop_of_length_le hge)
  rw [List.getLast?_drop, if_neg (by omega), hc]

theorem tail (h : IsShut (c :: s)) (hs : s ≠ []) : IsShut s := h.drop (n := 1) hs

/-- what is not a `}` has something after it -/
theorem rest (h : IsShut (c :: s)) (hc : c.kind ≠ .rBrace) : IsShut s := by
  refine h.tail ?_
  rintro rfl
  obtain ⟨d, hd, hk⟩ := h
  rw [← Option.some.inj hd] at hk
  exact hc hk

theorem dropWhile (h : IsShut s) (ts : List Cue) {p : Cue → Bool}
    (hp : ∀ c, c.kind = .rBrace → p c = false) :
    (s ++ ts).dropWhile p = s.dropWhile p ++ ts ∧ IsShut (s.dropWhile p) := by
  induction s with
  | nil => exact absurd rfl h.ne_nil
  | cons c s ih =>
    rw [List.cons_append, List.dropWhile_cons, List.dropWhile_cons]
    cases hc : p c with
    | false =>
      rw [if_neg Bool.false_ne_true, if_neg Bool.false_ne_true]
      exact ⟨rfl, h⟩
    | true =>
      rw [if_pos rfl, if_pos rfl]
      refine ih (h.rest fun hk => ?_)
      rw [hp c hk] at hc
      cases hc

end IsShut

theorem forall_mem_none {α : Type} {P : α → Prop} : ∀ a ∈ (none : Option α), P a :=
  fun a ha => absurd ha (Option.not_mem_none a)

theorem forall_mem_some {α : Type} {P : α → Prop} {a : α} (h : P a) : ∀ b ∈ some a, P b :=
  fun _ hb => Option.some.inj hb ▸ h

/-! ## tests -/

/-- What is found ahead does not depend on how many braces follow the one at the end. -/
def Near {α : Type} (f : List Cue → α) : Prop :=
  ∀ s ts, IsShut s → Closers ts → f (s ++ ts) = f s

/-- What is left ahead is the same, with the braces that follow. -/
def NearRest (f : List Cue → Option (List Cue)) : Prop :=
  ∀ s ts, IsShut s → Closers ts → f (s ++ ts) = (f s).map (· ++ ts) ∧ ∀ t ∈ f s, IsShut t

namespace Near

open Lookahead

variable {f g : List Cue → Bool} {s ts : List Cue}

/-- what depends on the next cue alone -/
theorem of_head {α : Type} {f : List Cue → α} (h : ∀ c s t, f (c :: s) = f (c :: t)) : Near f := by
  intro s ts hs _
  cases s with
  | nil => exact absurd rfl hs.ne_nil
  | cons c s => exact h c (s ++ ts) s

@[simp] theorem const {α : Type} (a : α) : Near fun _ => a := fun _ _ _ _ => rfl

@[simp] theorem and (hf : Near f) (hg : Near g) : Near fun s => f s && g s := by
  intro s ts hs hts
  show (f (s ++ ts) && g (s ++ ts)) = _
  rw [hf s ts hs hts, hg s ts hs hts]

@[simp] theorem not (hf : Near f) : Near fun s => !f s :=
  fun s ts hs hts => congrArg (!·) (hf s ts hs hts)

@[simp] theorem next (k : TokenKind) : Near (next k) := of_head fun _ _ _ => rfl

@[simp] theorem nextIn (ks : List TokenKind) : Near (nextIn ks) := of_head fun _ _ _ => rfl

@[simp] theorem endOr (ks : List TokenKind) : Near (endOr ks) := of_head fun _ _ _ => rfl

@[simp] theorem nextIs (p : TokenKind → Bool) : Near (nextIs p) := of_head fun _ _ _ => rfl

@[simp] theorem secondIs {p : TokenKind → Bool} (hp : p .rBrace = false) : Near (secondIs p) := by
  intro s ts hs hts
  match s, ts with
  | [], _ => exact absurd rfl hs.ne_nil
  | [_], [] => rfl
  | [_], d :: _ =>
    show p d.kind = false
    rw [(hts d List.mem_cons_self).1, hp]
  | _ :: _ :: _, _ => rfl

/-- where a test holds that does not hold at a `}`, of what comes after the next token -/
theorem after (hp : ∀ c s, f (c :: s) = true → c.kind ≠ .rBrace) (hf : Near f) (hg : Near g) :
    Near fun s => f s && g (s.drop 1) := by
  intro s ts hs hts
  show (f (s ++ ts) && g ((s ++ ts).drop 1)) = (f s && g (s.drop 1))
  rw [hf s ts hs hts]
  cases s with
  | nil => exact absurd rfl hs.ne_nil
  | cons c s =>
    cases hc : f (c :: s) with
    | false => rfl
    | true => exact hg s ts (hs.rest (hp c s hc)) hts

/-- of what comes after some tokens, as many as there are -/
theorem dropWhile {p : Cue → Bool} (hp : ∀ c, c.kind = .rBrace → p c = false) (hg : Near g) :
    Near fun s => g (s.dropWhile p) := by
  intro s ts hs hts
  obtain ⟨happend, hshut⟩ := hs.dropWhile ts hp
  show g ((s ++ ts).dropWhile p) = g (s.dropWhile p)
  rw [happend, hg _ ts hshut hts]

/-- of what comes after a token that may be there -/
theorem skip (hp : ∀ c s, f (c :: s) = true → c.kind ≠ .rBrace) (hf : Near f) (hg : Near g) :
    Near fun s => g (if f s then s.drop 1 else s) := by
  intro s ts hs hts
  show g (if f (s ++ ts) then (s ++ ts).drop 1 else s ++ ts) = g (if f s then s.drop 1 else s)
  rw [hf s ts hs hts]
  cases s with
  | nil => exact absurd rfl hs.ne_nil
  | cons c s =>
    cases hc : f (c :: s) with
    | false => exact hg (c :: s) ts hs hts
    | true => exact hg s ts (hs.rest (hp c s hc)) hts

end Near

/-- a test for one kind of tokens, or for some, does not hold at a `}`, unless it asks for one -/
theorem Lookahead.ne_rBrace_of_next {k : TokenKind} (hk : k ≠ .rBrace) (c : Cue) (s : List Cue)
    (h : next k (c :: s) = true) : c.kind ≠ .rBrace := by
  rw [show c.kind = k from of_decide_eq_true h]
  exact hk

theorem Lookahead.ne_rBrace_of_nextIn {ks : List TokenKind} (hk : ks.contains .rBrace = false) (c : Cue)
    (s : List Cue) (h : nextIn ks (c :: s) = true) : c.kind ≠ .rBrace := by
  intro hc
  rw [nextIn, hc, hk] at h
  cases h

theorem Lookahead.ne_rBrace_of_nextIs {p : TokenKind → Bool} (hp : p .rBrace = false) (c : Cue)
    (s : List Cue) (h : nextIs p (c :: s) = true) : c.kind ≠ .rBrace := by
  intro hc
  rw [nextIs, hc, hp] at h
  cases h

/-! ## types -/

namespace Lookahead

/-- An argument list does not go across a `}`. -/
theorem argumentsEnd?_shut {s : List Cue} (hs : IsShut s) (ts : List Cue) (depth : Nat) :
    argumentsEnd? depth (s ++ ts) = argumentsEnd? depth s
      ∧ ∀ n ∈ argumentsEnd? depth s, n < s.length := by
  induction s generalizing depth with
  | nil => exact absurd rfl hs.ne_nil
  | cons c s ih =>
    rw [List.cons_append, argumentsEnd?, argumentsEnd?]
    by_cases hc : c.kind = .rBrace
    · rw [hc]
      exact ⟨rfl, forall_mem_none⟩
    · have hrest := hs.rest hc
      have hone : 1 < (c :: s).length := Nat.succ_lt_succ (List.length_pos_iff.mpr hrest.ne_nil)
      have further (d : Nat) : ∀ n ∈ (argumentsEnd? d s).map (· + 1), n < (c :: s).length := by
        intro n hn
        obtain ⟨m, hm, rfl⟩ := Option.map_eq_some_iff.mp hn
        exact Nat.succ_lt_succ ((ih hrest d).2 m hm)
      rw [(ih hrest (depth + 1)).1, (ih hrest (depth - 1)).1, (ih hrest (depth - 2)).1,
        (ih hrest depth).1]
      refine ⟨rfl, ?_⟩
      split_ifs
      · exact further _
      · exact forall_mem_some hone
      · exact further _
      · exact forall_mem_some hone
      · exact forall_mem_none
      · exact further _
      · exact forall_mem_none
      · exact further _

theorem afterName?_near : NearRest afterName? := by
  intro s ts hs hts
  induction hlen : s.length using Nat.strongRecOn generalizing s with
  | ind n ih =>
    subst hlen
    cases s with
    | nil => exact absurd rfl hs.ne_nil
    | cons c rest =>
      rw [List.cons_append, afterName?.eq_def, afterName?.eq_def (c :: rest)]
      by_cases hk : c.kind = .ident
      · have hrest : IsShut rest := hs.rest (by rw [hk]; decide)
        simp only [if_pos hk, Near.next .less rest ts hrest hts, argumentList?,
          (argumentsEnd?_shut hrest ts 0).1]
        have hskip : ∀ n ∈ (if next .less rest then argumentsEnd? 0 rest else some 0), n < rest.length := by
          split
          · exact (argumentsEnd?_shut hrest ts 0).2
          · exact forall_mem_some (List.length_pos_iff.mpr hrest.ne_nil)
        cases hn : (if next .less rest then argumentsEnd? 0 rest else some 0) with
        | none => exact ⟨rfl, forall_mem_none⟩
        | some n =>
          have hlt := hskip n hn
          have hdrop : IsShut (rest.drop n) := hrest.drop (by simpa using hlt)
          simp only [List.drop_append_of_le_length hlt, List.drop_append_of_le_length (Nat.le_of_lt hlt),
            Near.next .doubleColon _ ts hdrop hts]
          split
          · next hcolon =>
            have htail : IsShut (rest.drop (n + 1)) := by
              obtain ⟨d, t, ht⟩ := List.exists_cons_of_ne_nil hdrop.ne_nil
              rw [ht] at hdrop hcolon
              rw [← List.drop_drop, ht]
              refine hdrop.rest ?_
              rw [show d.kind = .doubleColon from of_decide_eq_true hcolon]
              decide
            refine ih _ ?_ _ htail rfl
            rw [List.length_drop, List.length_cons]
            omega
          · exact ⟨rfl, forall_mem_some hdrop⟩
      · simp only [if_neg hk]
        exact ⟨rfl, forall_mem_none⟩

theorem afterTypeName?_near : NearRest afterTypeName? := by
  intro s ts hs hts
  cases s with
  | nil => exact absurd rfl hs.ne_nil
  | cons c rest =>
    rw [List.cons_append, afterTypeName?, afterTypeName?]
    by_cases hc : c.kind = .rBrace
    · rw [hc]
      exact ⟨rfl, forall_mem_none⟩
    · have hrest := hs.rest hc
      rw [Near.next .ident rest ts hrest hts]
      split_ifs with hbuiltin hauto htag hnamed hcolon hname
      · have hwords := hs.dropWhile ts (p := (·.kind.isBuiltinType)) fun d hd => by rw [hd]; rfl
        exact ⟨congrArg some hwords.1, forall_mem_some hwords.2⟩
      · exact ⟨rfl, forall_mem_some hrest⟩
      · cases rest with
        | nil => cases hnamed
        | cons d u => exact ⟨rfl, forall_mem_some (hrest.rest (ne_rBrace_of_next (by decide) d u hnamed))⟩
      · exact ⟨rfl, forall_mem_some hrest⟩
      · exact afterName?_near rest ts hrest hts
      · exact afterName?_near (c :: rest) ts hs hts
      · exact ⟨rfl, forall_mem_none⟩

/-- A type ends before a `}`. -/
theorem typeEnd?_near : NearRest typeEnd? := by
  intro s ts hs hts
  obtain ⟨happend, hshut⟩ := hs.dropWhile ts (p := (·.kind.isDeclSpecifier))
    fun d hd => by rw [hd]; rfl
  obtain ⟨hname, hends⟩ := afterTypeName?_near _ ts hshut hts
  rw [typeEnd?, happend, hname, typeEnd?]
  cases hn : afterTypeName? (s.dropWhile (·.kind.isDeclSpecifier)) with
  | none => exact ⟨rfl, forall_mem_none⟩
  | some t =>
    obtain ⟨hsuffix, hend⟩ := (hends t hn).dropWhile ts (p := (isTypeSuffix ·.kind))
      fun d hd => by rw [hd]; rfl
    exact ⟨congrArg some hsuffix, forall_mem_some hend⟩

end Lookahead

/-! ## the tests of the grammar -/

namespace Near

open Lookahead Rule

@[simp] theorem startsType : Near startsType := nextIs _

@[simp] theorem startsExpression : Near startsExpression := nextIs _

theorem startsDeclarator : Near startsDeclarator := by
  intro s ts hs hts
  rw [Lookahead.startsDeclarator, next .ident s ts hs hts, secondIs rfl s ts hs hts,
    nextIn _ s ts hs hts]
  rfl

@[simp] theorem startsDeclaration : Near startsDeclaration := by
  intro s ts hs hts
  obtain ⟨hend, hshut⟩ := typeEnd?_near s ts hs hts
  rw [Lookahead.startsDeclaration, hend, Lookahead.startsDeclaration]
  cases ht : typeEnd? s with
  | none => rfl
  | some t => exact startsDeclarator t ts (hshut t ht) hts

@[simp] theorem startsDirective : Near startsDirective := of_head fun _ _ _ => rfl

@[simp] theorem directiveKind : Near directiveKind := by
  intro s ts hs hts
  match s, ts with
  | [], _ => exact absurd rfl hs.ne_nil
  | [_], [] => rfl
  | [_], d :: _ =>
    rw [List.singleton_append, Rule.directiveKind, (hts d List.mem_cons_self).2]
    rfl
  | _ :: _ :: _, _ => rfl

@[simp] theorem startsRecord : Near startsRecord := by
  have hrest : Near fun s => Lookahead.next .lBrace s
      || (Lookahead.next .ident s && Lookahead.secondIs [TokenKind.lBrace, .colon, .semicolon].contains s) := by
    intro s ts hs hts
    have hsecond : Near (Lookahead.secondIs [TokenKind.lBrace, .colon, .semicolon].contains) := secondIs rfl
    simp only [next _ s ts hs hts, hsecond s ts hs hts]
  have h := after (ne_rBrace_of_nextIs (p := isRecordWord) rfl) (nextIs isRecordWord) hrest
  intro s ts hs hts
  cases s with
  | nil => exact absurd rfl hs.ne_nil
  | cons c s => exact h (c :: s) ts hs hts

@[simp] theorem startsEnum : Near startsEnum :=
  after (ne_rBrace_of_next (by decide)) (next .kwEnum)
    (skip (ne_rBrace_of_nextIn rfl) (nextIn [.kwClass, .kwStruct])
      (skip (ne_rBrace_of_next (by decide)) (next .ident) (nextIn [.lBrace, .colon, .semicolon])))

@[simp] theorem startsConstructor : Near startsConstructor := by
  have hname : Near fun s => Lookahead.next .ident s && Lookahead.secondIs (· = .lParen) s :=
    and (next .ident) (secondIs rfl)
  have hwords : ∀ c : Cue, c.kind = .rBrace →
      [TokenKind.kwExplicit, .kwInline, .kwVirtual, .kwConstexpr].contains c.kind = false :=
    fun c hc => by rw [hc]; rfl
  exact dropWhile hwords (skip (ne_rBrace_of_next (by decide)) (next .tilde) hname)

theorem qualifiersThenParen (qualified : Bool) : Near (qualifiersThenParen qualified) := by
  intro s ts hs hts
  fun_induction Lookahead.qualifiersThenParen qualified s with
  | case1 => exact absurd rfl hs.ne_nil
  | case2 qualified c hc => exact absurd rfl (hs.rest (by rw [hc]; decide)).ne_nil
  | case3 qualified c hc d rest hd ih =>
    have hshut : IsShut (d :: rest) := hs.rest (by rw [hc]; decide)
    have hrest := ih (hshut.rest (by rw [hd]; decide))
    rw [Lookahead.qualifiersThenParen.eq_def]
    simp only [List.cons_append, if_pos hc, if_pos hd, hrest]
  | case4 qualified c hc d hn hd e rest ih =>
    have hshut : IsShut (d :: e :: rest) := hs.rest (by rw [hc]; decide)
    have hshut' : IsShut (e :: rest) := hshut.rest (by rw [hd]; decide)
    rw [Lookahead.qualifiersThenParen.eq_def]
    simp only [List.cons_append, if_pos hc, if_neg hn, if_pos hd]
    by_cases he : e.kind = .ident
    · rw [ih (hshut'.rest (by rw [he]; decide))]
    · rw [decide_eq_false he, Bool.false_and, Bool.false_and]
  | case5 qualified c hc d hn hd =>
    have hshut : IsShut [d] := hs.rest (by rw [hc]; decide)
    exact absurd rfl (hshut.rest (by rw [hd]; decide)).ne_nil
  | case6 qualified c hc d rest hn hd =>
    rw [Lookahead.qualifiersThenParen.eq_def]
    simp only [List.cons_append, if_pos hc, if_neg hn, if_neg hd]
  | case7 qualified c rest hc =>
    rw [Lookahead.qualifiersThenParen.eq_def]
    simp only [List.cons_append, if_neg hc]

@[simp] theorem startsQualifiedConstructor : Near startsQualifiedConstructor := by
  have hname : Near fun s => Lookahead.next .ident s && Lookahead.qualifiersThenParen false (s.drop 1) :=
    after (ne_rBrace_of_next (by decide)) (next .ident) (qualifiersThenParen false)
  have hwords : ∀ c : Cue, c.kind = .rBrace →
      [TokenKind.kwInline, .kwConstexpr].contains c.kind = false :=
    fun c hc => by rw [hc]; rfl
  exact dropWhile hwords hname

@[simp] theorem startsCast : Near startsCast := by
  -- up to a parenthesis or semicolon, or to the end of the braces
  have hcloses : Near fun s => Lookahead.next .rParen
      (s.dropWhile fun c => c.kind ≠ .rParen && c.kind ≠ .semicolon) := by
    intro s ts _ hts
    have hall : ts.dropWhile (fun c => c.kind ≠ .rParen && c.kind ≠ .semicolon) = [] :=
      List.dropWhile_eq_nil_iff.mpr fun c hc => by rw [(hts c hc).1]; rfl
    show Lookahead.next .rParen ((s ++ ts).dropWhile _) = Lookahead.next .rParen (s.dropWhile _)
    rw [List.dropWhile_append]
    split
    · next h => rw [hall, List.isEmpty_iff.mp h]
    · next h =>
      obtain ⟨c, t, ht⟩ := List.exists_cons_of_ne_nil (fun hn => h (List.isEmpty_iff.mpr hn))
      rw [ht]
      rfl
  have htype : Near fun s => Lookahead.nextIs
      (fun k => k.isBuiltinType || [.kwStruct, .kwUnion, .kwEnum].contains k) s
      && Lookahead.next .rParen (s.dropWhile fun c => c.kind ≠ .rParen && c.kind ≠ .semicolon) :=
    and (nextIs _) hcloses
  have hwords : ∀ c : Cue, c.kind = .rBrace →
      [TokenKind.kwConst, .kwVolatile].contains c.kind = false :=
    fun c hc => by rw [hc]; rfl
  exact after (ne_rBrace_of_next (by decide)) (next .lParen) (dropWhile hwords htype)

@[simp] theorem startsArguments : Near startsArguments := by
  intro s ts hs hts
  have hlist := argumentsEnd?_shut hs ts 0
  rw [Rule.startsArguments, next .less s ts hs hts, argumentList?, hlist.1, Rule.startsArguments,
    argumentList?]
  cases hn : argumentsEnd? 0 s with
  | none => rfl
  | some n =>
    have hlt := hlist.2 n hn
    have hdrop : IsShut (s.drop n) := hs.drop (by simpa using hlt)
    rw [Option.any_some, Option.any_some, List.drop_append_of_le_length (Nat.le_of_lt hlt),
      nextIs _ _ ts hdrop hts]

/-- an argument list that a `<` starts -/
@[simp] theorem argumentList? : Near fun s => (argumentList? s).isSome := by
  intro s ts hs hts
  exact congrArg Option.isSome (argumentsEnd?_shut hs ts 0).1

@[simp] theorem startsAccess : Near startsAccess := and (nextIn _) (secondIs rfl)

@[simp] theorem operandLink? : Near operandLink? := of_head fun _ _ _ => rfl

@[simp] theorem operatorLink? (power : Nat) : Near (operatorLink? power) := of_head fun _ _ _ => rfl

end Near

end CppMend
