import CppMend.Proofs.Grammar.Contents
import CppMend.Proofs.Grammar.Reading

/-!
# Declarations, ahead and taken

Whether a declaration comes next is told by looking ahead over a type, and the type is then taken by a
rule of its own. Both go through specifiers, the name of the type and its suffixes, with tests of their
own. Where lookahead finds a declarator after the type, the rule stops right there.

* `Rule.typeNameStep_of_afterName?`  one turn of a qualified name, taken as it was seen ahead;
* `Rule.typeName_ahead`              the name of a type ends where lookahead says;
* `Rule.typeRef_of_startsDeclaration`  so does the type, and it is not empty;
* `declarationLaw_outline`           declarations start with a type and a declarator.
-/

namespace CppMend

namespace Rule

open Lookahead

variable {budget : Nat} {call : Goal → Action} {ok : Goal → List Cue → Prop} {s t u v : List Cue}

/-! ## where loops end -/

/-- A loop that ends is at the end that its turns lead to. -/
theorem loop_ends {body : Action} {Ok : List Cue → Prop} {E : List Cue → List Cue → Prop}
    (hlast : ∀ s, (body s).leaving = true → E s (body s).ahead)
    (hturn : ∀ s t, (body s).leaving = false → E (body s).ahead t → E s t) {turns : Nat}
    {s : List Cue} (h : Action.LoopLasts Ok body turns s) : E s (Action.loop body turns s).ahead := by
  induction turns generalizing s with
  | zero => exact absurd h id
  | succ turns ih =>
    rw [Action.loop]
    split
    · next hl => exact hlast s hl
    · next hl =>
      have hl := Bool.eq_false_iff.mpr hl
      exact hturn s _ hl (ih (h.2 hl))

theorem whileTrue_ends {test : List Cue → Bool} {r : Rule} {E : List Cue → List Cue → Prop}
    (hnone : ∀ s, test s = false → E s s)
    (hlast : ∀ s, test s = true → (r.perform budget call s).leaving = true →
      E s (r.perform budget call s).ahead)
    (hturn : ∀ s t, test s = true → (r.perform budget call s).leaving = false →
      E (r.perform budget call s).ahead t → E s t)
    (hl : (whileTrue test r).Lasts budget call ok s) :
    E s ((whileTrue test r).perform budget call s).ahead := by
  have hbody (s : List Cue) : (branch test r leave).perform budget call s
      = if test s = true then r.perform budget call s else ⟨[], s, true⟩ := rfl
  refine loop_ends (fun s hs => ?_) (fun s t hs ht => ?_) hl
  · rw [hbody] at hs ⊢
    split
    · next h =>
      rw [if_pos h] at hs
      exact hlast s h hs
    · next h => exact hnone s (Bool.eq_false_iff.mpr h)
  · rw [hbody] at hs ht
    split at hs
    · next h =>
      rw [if_pos h] at ht
      exact hturn s t h hs ht
    · cases hs

/-- words of some sort, one by one -/
theorem words_ahead {p : TokenKind → Bool} (hl : (whileTrue (nextIs p) token).Lasts budget call ok s) :
    ((whileTrue (nextIs p) token).perform budget call s).ahead = s.dropWhile (p ·.kind) := by
  refine whileTrue_ends (E := fun s t => t = s.dropWhile (p ·.kind)) (fun s h => ?_)
    (fun s h hs => ?_) (fun s t h _ ht => ?_) hl
  · cases s with
    | nil => rfl
    | cons c s => rw [List.dropWhile_cons, if_neg (by rw [show p c.kind = false from h]; simp)]
  · cases s <;> cases hs
  · cases s with
    | nil => cases h
    | cons c s =>
      rw [List.dropWhile_cons, if_pos (show p c.kind = true from h)]
      exact ht

theorem whileTrue_idle {test : List Cue → Bool} {r : Rule} (h : test s = false)
    (hl : (whileTrue test r).Lasts budget call ok s) :
    ((whileTrue test r).perform budget call s).ahead = s := by
  refine whileTrue_ends (E := fun s t => test s = false → t = s) (fun s _ _ => rfl)
    (fun s ht _ hf => absurd (ht.symm.trans hf) (by decide))
    (fun s t ht _ _ hf => absurd (ht.symm.trans hf) (by decide)) hl h

theorem eat_of_next {k : TokenKind} (h : next k s = true) :
    (eat k).perform budget call s = ⟨[.token], s.drop 1, false⟩ := by
  rw [eat, onlyIf, perform, if_pos h]
  cases s with
  | nil => cases h
  | cons c s => rfl

theorem eat_of_not_next {k : TokenKind} (h : next k s = false) :
    (eat k).perform budget call s = ⟨[], s, false⟩ := by
  rw [eat, onlyIf, perform, if_neg (by rw [h]; exact Bool.false_ne_true)]
  rfl

theorem seq_ahead {p q : Rule} (h : (p.perform budget call s).leaving = false) :
    ((seq p q).perform budget call s).ahead
      = (q.perform budget call (p.perform budget call s).ahead).ahead := by
  show (Action.andThen (p.perform budget call) (q.perform budget call) s).ahead = _
  rw [Action.andThen, if_neg (by rw [h]; exact Bool.false_ne_true)]

/-! ## names of types -/

/-- a name that lookahead steps over, and what it finds behind it -/
theorem afterName?_eq_some (h : afterName? s = some u) : ∃ c rest n, s = c :: rest ∧ c.kind = .ident
    ∧ (if next .less rest then argumentList? rest else some 0) = some n
    ∧ (next .doubleColon (rest.drop n) = true ∧ afterName? (rest.drop (n + 1)) = some u
      ∨ next .doubleColon (rest.drop n) = false ∧ rest.drop n = u) := by
  rw [afterName?.eq_def] at h
  split at h
  · cases h
  · next c rest =>
    split at h
    · next hk =>
      split at h
      · cases h
      · next n hn =>
        refine ⟨c, rest, n, rfl, hk, hn, ?_⟩
        split at h
        · next hd => exact .inl ⟨hd, h⟩
        · next hd => exact .inr ⟨Bool.eq_false_iff.mpr hd, Option.some.inj h⟩
    · cases h

/-- an argument list after a name in a type, if there is one -/
def typeArguments : Rule :=
  onlyIf (fun s => next .less s && (argumentList? s).isSome) (group .angle)

/-- one turn of a qualified name in a type -/
def typeNameStep : Rule :=
  inOrder [.token, typeArguments,
    .branch (fun s => next .doubleColon s && secondIs (· = .ident) s) .token .leave]

theorem qualifiedTypeName_eq :
    qualifiedTypeName = .seq (eat .doubleColon) (whileTrue (next .ident) typeNameStep) := rfl

theorem typeArguments_ahead {n : Nat}
    (h : (if next .less s then argumentList? s else some 0) = some n) :
    (typeArguments.perform budget call s).ahead = s.drop n := by
  rw [typeArguments, onlyIf, perform]
  split at h
  · next hs =>
    rw [if_pos (by rw [hs, h]; rfl)]
    show s.drop (Bracket.angle.span s) = _
    rw [span_of_argumentList? hs h]
  · next hs =>
    cases h
    rw [if_neg (by simp [Bool.eq_false_iff.mpr hs])]
    rfl

/-- A turn of a qualified name takes what lookahead stepped over: the last name, or one more. -/
theorem typeNameStep_of_afterName? (h : afterName? s = some u) :
    let o := typeNameStep.perform budget call s
    o.leaving = true ∧ o.ahead = u ∨ o.leaving = false ∧ afterName? o.ahead = some u := by
  obtain ⟨c, rest, n, rfl, -, hn, hend⟩ := afterName?_eq_some h
  let separator : Rule :=
    .branch (fun s => next .doubleColon s && secondIs (· = .ident) s) .token .leave
  have hargs : (typeArguments.perform budget call rest).leaving = false := leaving_of_stays rfl rest
  have hdrop : (typeArguments.perform budget call rest).ahead = rest.drop n := typeArguments_ahead hn
  have hahead : (typeNameStep.perform budget call (c :: rest)).ahead
      = (separator.perform budget call (rest.drop n)).ahead := by
    rw [← hdrop]
    exact seq_ahead hargs
  have hleaving : (typeNameStep.perform budget call (c :: rest)).leaving
      = (separator.perform budget call (rest.drop n)).leaving := by
    rw [← hdrop]
    exact seq_leaving hargs
  intro o
  rw [hahead, hleaving]
  rcases hend with ⟨hd, hmore⟩ | ⟨hd, rfl⟩
  · right
    obtain ⟨d, more, -, hdrop, hk, -⟩ := afterName?_eq_some hmore
    rw [← List.drop_drop] at hmore hdrop
    cases hv : rest.drop n with
    | nil =>
      rw [hv] at hd
      cases hd
    | cons e v =>
      rw [hv] at hd hmore hdrop
      obtain rfl : v = d :: more := hdrop
      rw [perform, if_pos (by simp [hd, secondIs, hk])]
      exact ⟨rfl, hmore⟩
  · left
    rw [perform, if_neg (by simp [hd])]
    exact ⟨rfl, rfl⟩

theorem typeNames_ahead (hl : (whileTrue (next .ident) typeNameStep).Lasts budget call ok s)
    (h : afterName? s = some u) :
    ((whileTrue (next .ident) typeNameStep).perform budget call s).ahead = u := by
  refine whileTrue_ends (E := fun s t => ∀ u, afterName? s = some u → t = u) (fun s hs u hu => ?_)
    (fun s _ hleave u hu => ?_) (fun s t _ hstay ht u hu => ?_) hl u h
  · obtain ⟨c, rest, n, rfl, hk, -⟩ := afterName?_eq_some hu
    simp [next, hk] at hs
  · rcases typeNameStep_of_afterName? hu with ⟨-, ha⟩ | ⟨hf, -⟩
    · exact ha
    · exact absurd (hleave.symm.trans hf) (by decide)
  · rcases typeNameStep_of_afterName? hu with ⟨hf, -⟩ | ⟨-, ha⟩
    · exact absurd (hstay.symm.trans hf) (by decide)
    · exact ht u ha

/-! ## types -/

/-- What stands before a declarator is none of the tokens that a type could go on with. -/
theorem next_of_startsDeclarator {k : TokenKind} (hk : isTypeSuffix k = false)
    (hd : [.ident, .kwOperator, .tilde].contains k = false)
    (h : startsDeclarator (s.dropWhile (isTypeSuffix ·.kind)) = true) : next k s = false := by
  cases hn : next k s with
  | false => rfl
  | true =>
    cases s with
    | nil => cases hn
    | cons c s =>
      obtain rfl : c.kind = k := of_decide_eq_true hn
      rw [List.dropWhile_cons, if_neg (by simp [hk])] at h
      simp [startsDeclarator, next, nextIn] at h hd
      simp [hd] at h

theorem qualifiedTypeName_ahead (hl : qualifiedTypeName.Lasts budget call ok s)
    (h : afterName? (if next .doubleColon s then s.drop 1 else s) = some u) :
    (qualifiedTypeName.perform budget call s).ahead = u := by
  have heat : (eat .doubleColon).perform budget call s
      = ⟨if next .doubleColon s then [.token] else [], if next .doubleColon s then s.drop 1 else s,
        false⟩ := by
    cases hd : next .doubleColon s with
    | true => exact eat_of_next hd
    | false => exact eat_of_not_next hd
  have hnames := hl.2 (by rw [heat])
  rw [qualifiedTypeName_eq, seq_ahead (by rw [heat])]
  rw [heat] at hnames ⊢
  exact typeNames_ahead hnames h

/-- no name after `struct` and the like -/
theorem qualifiedTypeName_idle (hl : qualifiedTypeName.Lasts budget call ok s)
    (hd : next .doubleColon s = false) (hi : next .ident s = false) :
    (qualifiedTypeName.perform budget call s).ahead = s := by
  have heat : (eat .doubleColon).perform budget call s = ⟨[], s, false⟩ := eat_of_not_next hd
  have hnames := hl.2 (by rw [heat])
  rw [qualifiedTypeName_eq, seq_ahead (by rw [heat])]
  rw [heat] at hnames ⊢
  exact whileTrue_idle hi hnames

/-- a type without its specifiers and suffixes -/
def typeName : Rule :=
  choose [
    (nextIs TokenKind.isBuiltinType, whileTrue (nextIs TokenKind.isBuiltinType) .token),
    (next .kwAuto, .token),
    (nextIs isTagWord, inOrder [.token, qualifiedTypeName]),
    (nextIn [.ident, .doubleColon], qualifiedTypeName)]
    .nothing

theorem typeRef_eq : typeRef = .node .typeRef (inOrder [
    whileTrue (nextIs TokenKind.isDeclSpecifier) .token, typeName,
    whileTrue (nextIs isTypeSuffix) .token]) := rfl

/-- After `struct` and the like, lookahead knows of a plain name only. -/
theorem tagged_ahead (hl : qualifiedTypeName.Lasts budget call ok s)
    (hd : startsDeclarator ((if next .ident s then s.drop 1 else s).dropWhile
      (isTypeSuffix ·.kind)) = true) :
    (qualifiedTypeName.perform budget call s).ahead = if next .ident s then s.drop 1 else s := by
  cases hi : next .ident s with
  | false =>
    rw [hi, if_neg Bool.false_ne_true] at hd
    exact qualifiedTypeName_idle hl (next_of_startsDeclarator rfl rfl hd) hi
  | true =>
    rw [hi, if_pos rfl] at hd
    cases s with
    | nil => cases hi
    | cons c s =>
      have hk : c.kind = .ident := of_decide_eq_true hi
      have hless : next .less s = false := next_of_startsDeclarator rfl rfl hd
      have hcolon : next .doubleColon s = false := next_of_startsDeclarator rfl rfl hd
      refine qualifiedTypeName_ahead hl ?_
      rw [if_neg (by simp [next, hk]), afterName?.eq_def]
      simp [hk, hless, hcolon]

theorem typeName_ahead (hl : typeName.Lasts budget call ok s) (h : afterTypeName? s = some u)
    (hd : startsDeclarator (u.dropWhile (isTypeSuffix ·.kind)) = true) :
    (typeName.perform budget call s).ahead = u := by
  cases s with
  | nil => cases h
  | cons c s =>
    rw [afterTypeName?] at h
    refine branch_outcome (P := (·.ahead = u)) hl (fun hb hl => ?builtin) fun hb hl => ?_
    case builtin =>
      rw [if_pos (show c.kind.isBuiltinType = true from hb)] at h
      cases h
      exact words_ahead hl
    replace hb : ¬c.kind.isBuiltinType = true := Bool.eq_false_iff.mp hb
    rw [if_neg hb] at h
    refine branch_outcome (P := (·.ahead = u)) hl (fun ha _ => ?auto) fun ha hl => ?_
    case auto =>
      rw [if_pos (of_decide_eq_true ha)] at h
      cases h
      rfl
    rw [if_neg (of_decide_eq_false ha)] at h
    refine branch_outcome (P := (·.ahead = u)) hl (fun ht hl => ?tagged) fun ht hl => ?_
    case tagged =>
      rw [if_pos (show isTagWord c.kind = true from ht)] at h
      cases h
      exact tagged_ahead (hl.2 rfl) hd
    replace ht : ¬isTagWord c.kind = true := Bool.eq_false_iff.mp ht
    rw [if_neg ht] at h
    refine branch_outcome (P := (·.ahead = u)) hl (fun _ hl => ?named) fun hn _ => ?none
    case named =>
      refine qualifiedTypeName_ahead hl ?_
      by_cases hk : c.kind = .doubleColon
      · simpa [next, hk] using h
      · by_cases hi : c.kind = .ident
        · simpa [next, hi] using h
        · simp [hk, hi] at h
    case none =>
      have hk : c.kind ≠ .ident ∧ c.kind ≠ .doubleColon := by simpa [nextIn] using hn
      simp [hk] at h

/-- The type ends where lookahead has found a declarator. -/
theorem typeRef_ahead (hl : typeRef.Lasts budget call ok s) (h : typeEnd? s = some t)
    (hd : startsDeclarator t = true) : (typeRef.perform budget call s).ahead = t := by
  obtain ⟨u, hu, rfl⟩ := Option.map_eq_some_iff.mp h
  have hwords (p : TokenKind → Bool) (s : List Cue) :
      ((whileTrue (nextIs p) token).perform budget call s).leaving = false := leaving_of_stays rfl s
  have hnames (s : List Cue) : (typeName.perform budget call s).leaving = false :=
    leaving_of_stays rfl s
  rw [typeRef_eq] at hl
  obtain ⟨hspec, hrest⟩ := hl
  obtain ⟨hname, hsuffix⟩ := hrest (hwords _ _)
  have hspecs := words_ahead hspec
  have hnamed := typeName_ahead hname (u := u) (by rw [hspecs]; exact hu) hd
  have hsuffixes := words_ahead (hsuffix (hnames _))
  rw [hnamed] at hsuffixes
  rw [← hsuffixes, ← hnamed]
  exact (seq_ahead (hwords _ _)).trans (seq_ahead (hnames _))

/-- What lookahead says of a declaration, and what the rule of types takes there: the same tokens, one at
least, up to a declarator. -/
structure StartsWithType (budget : Nat) (call : Goal → Action) (s taken t : List Cue) : Prop where
  split : s = taken ++ t
  nonempty : taken ≠ []
  seen : typeEnd? s = some t
  took : typeRef.perform budget call s = ⟨[.node .typeRef (taken.map fun _ => .token)], t, false⟩
  declarator : startsDeclarator t = true

theorem typeRef_of_startsDeclaration (hc : CallsSound call) (hl : typeRef.Lasts budget call ok s)
    (h : startsDeclaration s = true) : ∃ taken t, StartsWithType budget call s taken t := by
  obtain ⟨t, ht, hd⟩ := Option.any_eq_true _ _ |>.mp h
  obtain ⟨body, hr, hreads⟩ := typeRef_reads
  have hlasts : (node .typeRef body).Lasts budget call ok s := hr ▸ hl
  obtain ⟨taken, pieces, hs, hb, -, -⟩ := perform_spells (hreads s) hlasts
  have hahead : (body.perform budget call s).ahead = t := by
    have := typeRef_ahead hl ht hd
    rwa [hr] at this
  rw [hahead] at hs
  have htook : typeRef.perform budget call s
      = ⟨[.node .typeRef (taken.map fun _ => .token)], t, false⟩ := by
    rw [hr, perform, hahead, hb]
  refine ⟨taken, t, hs, ?_, ht, htook, hd⟩
  rintro rfl
  have htakes : typeRef.Takes budget call s := typeRef_takes hc (startsType_of_startsDeclaration h)
  rw [Takes, htook] at htakes
  exact absurd htakes (Nat.lt_irrefl 0)

/-! ## declarators -/

/-- the first token of a declarator -/
def isDeclaratorStart (k : TokenKind) : Bool := [.ident, .kwOperator, .tilde].contains k

theorem nextIs_of_startsDeclarator (h : startsDeclarator s = true) :
    nextIs isDeclaratorStart s = true := by
  cases s with
  | nil => cases h
  | cons c s =>
    simp only [startsDeclarator, next, nextIn, Bool.or_eq_true, Bool.and_eq_true,
      decide_eq_true_eq] at h
    rcases h with ⟨hk, -⟩ | hk
    · simp [nextIs, isDeclaratorStart, hk]
    · simp only [nextIs, isDeclaratorStart]
      simp at hk ⊢
      exact .inr hk

theorem loop_starts {body : Action} {Ok : List Cue → Prop} {o : Outline} {turns : Nat}
    (hl : Action.LoopLasts Ok body turns s) (h : ∃ rest, (body s).built = o :: rest) :
    ∃ rest, (Action.loop body turns s).built = o :: rest := by
  obtain ⟨rest, h⟩ := h
  cases turns with
  | zero => exact absurd hl id
  | succ turns =>
    rw [Action.loop]
    split
    · exact ⟨rest, h⟩
    · exact ⟨_, by rw [h]; rfl⟩

/-- The name of what is declared starts with a token that stands by itself. -/
theorem declaratorName_starts (hl : declaratorName.Lasts budget call ok s)
    (h : nextIs isDeclaratorStart s = true) :
    ∃ rest, (declaratorName.perform budget call s).built = .token :: rest := by
  cases s with
  | nil => cases h
  | cons c s =>
    refine branch_outcome (P := fun o => ∃ rest, o.built = .token :: rest) hl (fun _ _ => ⟨_, rfl⟩)
      fun ho hl => loop_starts hl ?_
    rw [choose, perform]
    split
    · exact ⟨_, rfl⟩
    · rw [choose, perform]
      split
      · exact ⟨_, rfl⟩
      · next hn =>
        simp_all [nextIs, isDeclaratorStart, nextIn, next]

/-! ## declarations -/

/-- A node that starts with a type, and then the first token of a declarator. -/
def StartsDeclared (parts : List Outline) (ks : List TokenKind) : Prop :=
  ∃ n rest k, 0 < n ∧ parts = .node .typeRef (List.replicate n .token) :: .token :: rest
    ∧ ks[n]? = some k ∧ isDeclaratorStart k = true

/-- What follows a type in a declaration starts with the declarator. -/
theorem StartsWithType.declared {taken : List Cue} (h : StartsWithType budget call s taken t) {q : Rule}
    (hq : ∃ rest, (q.perform budget call t).built = .token :: rest) :
    StartsDeclared ((seq typeRef q).perform budget call s).built (kindsOf s) := by
  obtain ⟨rest, hrest⟩ := hq
  have hd := nextIs_of_startsDeclarator h.declarator
  cases t with
  | nil => cases hd
  | cons c t =>
    refine ⟨taken.length, rest, c.kind, List.length_pos_iff.mpr h.nonempty, ?_, ?_, hd⟩
    · rw [seq_built (by rw [h.took]), h.took, hrest, List.map_const']
      rfl
    · rw [h.split, kindsOf, List.map_append, List.getElem?_append_right (by simp)]
      simp

theorem StartsDeclared.append {parts : List Outline} {ks : List TokenKind}
    (h : StartsDeclared parts ks) (more : List Outline) : StartsDeclared (parts ++ more) ks := by
  obtain ⟨n, rest, k, hn, rfl, hk, hd⟩ := h
  exact ⟨n, rest ++ more, k, hn, rfl, hk, hd⟩

/-- A declaration starts with a type and a declarator, for that was seen ahead. -/
theorem declaration_starts {place : Place} {kind : NodeKind} {parts : List Outline}
    (h : Makes budget (declaration place) s kind parts) (hs : startsDeclaration s = true) :
    StartsDeclared parts (kindsOf s) := by
  obtain ⟨⟨htype, hname⟩, -⟩ := h.lasts
  obtain ⟨taken, t, ht⟩ := typeRef_of_startsDeclaration (reach_sound budget) htype hs
  rw [ht.took] at hname
  rw [h.headed_eq.2]
  exact (ht.declared (declaratorName_starts (hname rfl)
    (nextIs_of_startsDeclarator ht.declarator))).append _

/-- So does one in a condition. -/
theorem condition_starts {kind : NodeKind} {parts : List Outline} {suffix : Rule}
    (h : Makes budget (.node .declStmt (inOrder [typeRef, declaratorName, suffix])) s kind parts)
    (hs : startsDeclaration s = true) : StartsDeclared parts (kindsOf s) := by
  obtain ⟨htype, hrest⟩ := h.lasts
  obtain ⟨taken, t, ht⟩ := typeRef_of_startsDeclaration (reach_sound budget) htype hs
  rw [ht.took] at hrest
  obtain ⟨rest, hstarts⟩ := declaratorName_starts (hrest rfl).1
    (nextIs_of_startsDeclarator ht.declarator)
  have hstay : (declaratorName.perform budget (reach grammar budget) t).leaving = false :=
    leaving_of_stays rfl t
  rw [h.node_eq.2]
  exact ht.declared (q := seq declaratorName suffix) ⟨_, by rw [seq_built hstay, hstarts]; rfl⟩

/-! ## functions without a type -/

/-- A constructor has no type among its parts. -/
theorem constructor_untyped {kind : NodeKind} {parts : List Outline}
    (h : Makes budget constructor s kind parts) (ps : List Outline) : .node .typeRef ps ∉ parts := by
  intro hm
  let body : Rule := inOrder [skipTo [.lParen], parameterList, functionRest]
  have hall : (body.perform budget (reach grammar budget) s).built.all
      (isOf fun k => k = .parameterList || k = .block) = true :=
    perform_isOf (reach_makes budget) (.of_form rfl) s
  rw [← Makes.node_eq (k := .functionDef) h |>.2, List.all_eq_true] at hall
  exact absurd (hall _ hm) (by simp [isOf])

/-! ## the law of declarations -/

/-- Declarations, and functions that have a type, start with the type and a declarator. -/
def declarationLaw : NodeLaw := fun kind parts ks =>
  kind ∈ [.variableDef, .fieldDef, .declStmt]
    ∨ kind = .functionDef ∧ (∃ ps, .node .typeRef ps ∈ parts) → StartsDeclared parts ks

theorem declarationLaw_of_makes {r : Rule} {kind : NodeKind} {parts : List Outline}
    (h : Makes budget r s kind parts) : declarationLaw kind parts (kindsOf s) := by
  have other (hk : kind ∉ [.variableDef, .fieldDef, .declStmt, .functionDef]) :
      declarationLaw kind parts (kindsOf s) := by
    rintro (hd | ⟨rfl, -⟩)
    · exact absurd hd fun hd => hk (by simp at hd ⊢; tauto)
    · simp at hk
  cases h.site with
  | declaration place hs => exact fun _ => declaration_starts h hs
  | declared hs => exact fun _ => condition_starts h hs
  | constructor =>
    rintro (hd | ⟨-, ps, hp⟩)
    · rw [Makes.node_eq (k := .functionDef) h |>.1] at hd
      exact absurd hd (by decide)
    · exact absurd hp (constructor_untyped h ps)
  | directive => exact other (by rcases h.kind_of_directive with rfl | rfl | rfl <;> decide)
  | recordDef => exact other (by rcases h.kind_of_recordDef with rfl | rfl <;> decide)
  | _ => exact other (by rw [h.node_eq.1]; decide)

end Rule

/-- All declarations in the outlines of a text start with a type and a declarator. -/
theorem declarationLaw_outline (cs : List Cue) :
    Outline.Obey Rule.declarationLaw (outline cs) (kindsOf cs) := by
  refine outline_obey_of_sites (fun kind parts ks hk hn => ?_)
    (fun _ _ _ _ _ h => Rule.declarationLaw_of_makes h) cs
  rcases hn with hn | ⟨rfl, -⟩
  · simp at hn
    rcases hn with rfl | rfl | rfl <;> cases hk
  · cases hk

end CppMend
