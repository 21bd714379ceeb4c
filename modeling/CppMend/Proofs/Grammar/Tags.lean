import CppMend.Proofs.Grammar.Forms

/-!
# Records and enumerations

A record or an enumeration is made of words, perhaps a type and a body, and perhaps the words of what is
declared with it. A name of its own is among the words before the body. Without one, these are known: they
are a word like `struct` and nothing else, or the words of an enumeration.

* `Rule.IsTagged`           what a record or an enumeration is made of;
* `Rule.recordDef_forms`, `Rule.enumDef_forms`   the rules make such nodes;
* `tagLaw_outline`          all records and enumerations of a text are like that;
* `aliasLaw_outline`        nothing comes after the body of one in a `typedef`.
-/

namespace CppMend

open Outline (shapesAll)

namespace NodeKind

/-- records and enumerations -/
def isTag : NodeKind → Bool
  | .structDef | .classDef | .enumDef => true
  | _ => false

/-- the node of the body of a record or an enumeration -/
def tagBody (kind : NodeKind) : NodeKind := if kind = .enumDef then .enumeratorList else .fieldList

/-- the words before the body where there is no name -/
def unnamedWords : NodeKind → List (List TokenKind)
  | .structDef => [[.kwStruct], [.kwUnion]]
  | .classDef => [[.kwClass]]
  | .enumDef => [[.kwEnum], [.kwEnum, .kwClass], [.kwEnum, .kwStruct], [.kwEnum, .colon],
      [.kwEnum, .kwClass, .colon], [.kwEnum, .kwStruct, .colon]]
  | _ => []

theorem isLinked_of_isTag {kind : NodeKind} (h : kind.isTag = true) : kind.isLinked = false := by
  cases kind <;> first | rfl | cases h

end NodeKind

/-- a node of a kind, if what is in it is given -/
def Tree.Shape.nodeOf? (kind : NodeKind) (parts? : Option (List Tree.Shape)) : List Tree.Shape :=
  (parts?.map (Tree.Shape.node kind)).toList

namespace Rule

open Lookahead Tree.Shape

/-- Words, perhaps a type, perhaps a body, and words. A name is among the first words, or they are those of
a record or an enumeration without one. -/
structure IsTagged (kind : NodeKind) (words : List TokenKind) (type? body? : Option (List Tree.Shape))
    (after : List TokenKind) (ss : List Tree.Shape) : Prop where
  shapes : ss = row words ++ nodeOf? .typeRef type? ++ nodeOf? kind.tagBody body? ++ row after
  words : .ident ∈ words ∨ words ∈ kind.unnamedWords

variable {b : Nat} {c : Cue} {s t u : List Cue} {alone : Bool}

/-! ## after the words -/

/-- a body, if one starts here, and what is declared with it -/
def bodyAndRest (body : Rule) (alone : Bool) : Rule :=
  inOrder [onlyIf (next .lBrace) body, if alone then toSemicolon else .nothing]

theorem forms_bodyAndRest {k : NodeKind} {body : Rule}
    (hl : (bodyAndRest (.node k body) alone).Ends b s) : ∃ body? after t,
      Forms b (bodyAndRest (.node k body) alone) s (nodeOf? k body? ++ row after) t
        ∧ (alone = false → after = []) := by
  have hbody : ∃ body? t, Forms b (onlyIf (next .lBrace) (.node k body)) s (nodeOf? k body?) t := by
    cases hn : next .lBrace s with
    | true =>
      obtain ⟨ss, t, h⟩ := forms_node k body s
      exact ⟨some ss, t, h.branch hn⟩
    | false => exact ⟨none, s, forms_skip hn⟩
  obtain ⟨body?, t, hbody⟩ := hbody
  cases alone with
  | true =>
    obtain ⟨after, u, -, hafter⟩ := forms_toSemicolon (hbody.ends hl)
    exact ⟨body?, kindsOf after, u, hbody.seq hafter, nofun⟩
  | false => exact ⟨body?, [], t, hbody.seq forms_nothing, fun _ => rfl⟩

/-! ## records -/

/-- the bases of a record, as tokens -/
def bases : Rule := onlyIf (next .colon) (inOrder [.token, skipTo [.lBrace, .semicolon]])

/-- the node of a record, by its first word -/
def recordKindOf (s : List Cue) : NodeKind := if next .kwClass s then .classDef else .structDef

theorem recordDef_eq : recordDef alone = .headed .nothing recordKindOf
    (.seq .token (.seq (eat .ident) (.seq bases (bodyAndRest fieldList alone)))) := rfl

theorem recordKindOf_spec (h : isRecordWord c.kind = true) : (recordKindOf (c :: s)).isTag = true
    ∧ (recordKindOf (c :: s)).tagBody = .fieldList
    ∧ [c.kind] ∈ (recordKindOf (c :: s)).unnamedWords := by
  by_cases hc : c.kind = .kwClass
  · have hk : recordKindOf (c :: s) = .classDef := if_pos (decide_eq_true hc)
    rw [hk, hc]
    decide
  · have hk : recordKindOf (c :: s) = .structDef := if_neg (by simpa [next] using hc)
    rw [hk]
    revert h hc
    cases c.kind <;> decide

theorem forms_bases (hl : bases.Ends b s) : ∃ taken t, Forms b bases s (row taken) t := by
  obtain ⟨taken, t, -, h⟩ := forms_of_readsAny (r := bases) rfl
    ⟨fun h => ⟨token_readsAny (ne_nil_of_next h), fun _ => skipTo_readsAny _⟩, fun _ => trivial⟩ hl
  exact ⟨kindsOf taken, t, h⟩

/-- A record is seen ahead by its name or, if it has none, by its body. -/
theorem forms_named (h : startsRecord (c :: s) = true) {r : Rule}
    (hl : (Rule.seq (eat .ident) (.seq bases r)).Ends b s) : ∃ name t taken u,
      Forms b (eat .ident) s (row name) t ∧ Forms b bases t (row taken) u
        ∧ (.ident ∈ name ∨ name ++ taken = []) := by
  cases hname : next .ident s with
  | true =>
    obtain ⟨t, heats⟩ := forms_eat (b := b) hname
    obtain ⟨taken, u, hbases⟩ := forms_bases (heats.ends hl).1
    exact ⟨[.ident], t, taken, u, heats, hbases, .inl List.mem_cons_self⟩
  | false =>
    rw [startsRecord, hname] at h
    obtain ⟨d, t, rfl, hd⟩ := cons_of_next (k := .lBrace) (by simpa using (Bool.and_eq_true_iff.mp h).2)
    exact ⟨[], d :: t, [], d :: t, forms_skip hname, forms_skip (by simp [next, hd]), .inr rfl⟩

/-- Where a record is seen ahead, it is made as it should be. -/
theorem recordDef_forms (h : startsRecord s = true) (hl : (recordDef alone).Ends b s) :
    ∃ kind ss t, Forms b (recordDef alone) s [.node kind ss] t ∧ kind.isTag = true
      ∧ ∃ words body? after, IsTagged kind words none body? after ss ∧ (alone = false → after = []) := by
  cases s with
  | nil => cases h
  | cons c s =>
    obtain ⟨htag, hbody, hwords⟩ := recordKindOf_spec (s := s) (Bool.and_eq_true_iff.mp h).1
    rw [recordDef_eq] at hl ⊢
    have hrest := (forms_token (c := c) (s := s)).ends hl.2
    obtain ⟨name, t, taken, u, heats, hbases, hname⟩ := forms_named h hrest
    obtain ⟨body?, after, v, hall, halone⟩ := forms_bodyAndRest (hbases.ends (heats.ends hrest))
    refine ⟨_, _, v, forms_nothing.headed (forms_token.seq (heats.seq (hbases.seq hall))), htag,
      c.kind :: (name ++ taken), body?, after, ⟨?_, ?_⟩, halone⟩
    · simp [hbody, nodeOf?]
    · refine hname.imp (fun hm => by simp [hm]) fun hnone => ?_
      rw [hnone]
      exact hwords

/-! ## enumerations -/

/-- the type of the numbers behind an enumeration -/
def underlying : Rule := onlyIf (next .colon) (inOrder [.token, typeRef])

/-- `class` or `struct` -/
def scoping : Rule := onlyIf (nextIn [.kwClass, .kwStruct]) .token

theorem enumDef_eq : enumDef alone = .node .enumDef (.seq .token (.seq scoping (.seq (eat .ident)
    (.seq underlying (bodyAndRest enumeratorList alone))))) := rfl

theorem forms_scoping (s : List Cue) : ∃ scope t, Forms b scoping s (row scope) t
    ∧ scope ∈ [[], [.kwClass], [.kwStruct]] := by
  cases h : nextIn [.kwClass, .kwStruct] s with
  | true =>
    obtain ⟨c, t, rfl, hc⟩ := cons_of_nextIn h
    exact ⟨[c.kind], t, forms_token.branch h, by simpa using hc⟩
  | false => exact ⟨[], s, forms_skip h, by simp⟩

theorem forms_name (s : List Cue) : ∃ name t, Forms b (eat .ident) s (row name) t
    ∧ name ∈ [[], [.ident]] := by
  cases h : next .ident s with
  | true =>
    obtain ⟨t, ht⟩ := forms_eat (b := b) h
    exact ⟨[.ident], t, ht, by simp⟩
  | false => exact ⟨[], s, forms_skip h, by simp⟩

theorem forms_underlying (s : List Cue) : ∃ colon type? t,
    Forms b underlying s (row colon ++ nodeOf? .typeRef type?) t ∧ colon ∈ [[], [.colon]] := by
  cases h : next .colon s with
  | true =>
    obtain ⟨c, t, rfl, hc⟩ := cons_of_next h
    obtain ⟨ss, u, htype⟩ := forms_node (b := b) .typeRef _ t
    have hboth : Forms b (inOrder [.token, typeRef]) (c :: t) ([.leaf c.kind] ++ [.node .typeRef ss]) u :=
      forms_token.seq htype
    rw [hc] at hboth
    exact ⟨[.colon], some ss, u, hboth.branch h, by simp⟩
  | false => exact ⟨[], none, s, forms_skip h, by simp⟩

/-- Where an enumeration is seen ahead, it is made as it should be. -/
theorem enumDef_forms (h : startsEnum s = true) (hl : (enumDef alone).Ends b s) :
    ∃ ss t, Forms b (enumDef alone) s [.node .enumDef ss] t
      ∧ ∃ words type? body? after, IsTagged .enumDef words type? body? after ss
        ∧ (alone = false → after = []) := by
  obtain ⟨c, s, rfl, hc⟩ := cons_of_next (Bool.and_eq_true_iff.mp h).1
  rw [enumDef_eq] at hl ⊢
  obtain ⟨scope, t, hscope, hs⟩ := forms_scoping (b := b) s
  obtain ⟨name, u, hname, hn⟩ := forms_name (b := b) t
  obtain ⟨colon, type?, v, htype, hk⟩ := forms_underlying (b := b) u
  have hrest : (bodyAndRest enumeratorList alone).Ends b v :=
    htype.ends (hname.ends (hscope.ends (forms_token.ends hl)))
  obtain ⟨body?, after, w, hbody, halone⟩ := forms_bodyAndRest hrest
  refine ⟨_, w, (forms_token.seq (hscope.seq (hname.seq (htype.seq hbody)))).node .enumDef,
    .kwEnum :: (scope ++ name ++ colon), type?, body?, after, ⟨?_, ?_⟩, halone⟩
  · simp [hc, NodeKind.tagBody]
  · revert hs hn hk
    have hall : ∀ scope ∈ [[], [.kwClass], [.kwStruct]], ∀ name ∈ [[], [.ident]],
        ∀ colon ∈ [[], [TokenKind.colon]], .ident ∈ TokenKind.kwEnum :: (scope ++ name ++ colon)
          ∨ TokenKind.kwEnum :: (scope ++ name ++ colon) ∈ NodeKind.enumDef.unnamedWords := by
      decide
    exact fun hs hn hk => hall scope hs name hn colon hk

/-! ## the laws -/

/-- records and enumerations are made as they should be -/
def tagLaw : NodeLaw := fun kind parts ks => kind.isTag = true →
  ∃ words type? body? after, IsTagged kind words type? body? after (shapesAll parts ks).1

/-- An alias is given for one thing, and if that is a record or an enumeration, it ends with its body. -/
def aliasLaw : NodeLaw := fun kind parts ks => kind = .typedefDef →
  ∃ k ss after, (shapesAll parts ks).1 = .leaf .kwTypedef :: .node k ss :: row after
    ∧ (k.isTag = true → ∃ words type? body?, IsTagged k words type? body? [] ss)

variable {kind : NodeKind} {parts : List Outline}

theorem tagLaw_of_makes {r : Rule} (h : Makes b r s kind parts) : tagLaw kind parts (kindsOf s) := by
  have other (hk : kind.isTag = false) : tagLaw kind parts (kindsOf s) :=
    fun htag => absurd (hk.symm.trans htag) Bool.false_ne_true
  cases h.site with
  | recordDef alone hs =>
    obtain ⟨k, ss, t, hforms, -, words, body?, after, his, -⟩ := recordDef_forms hs h.lasts
    obtain ⟨rfl, hshapes⟩ := h.shapes hforms
    exact fun _ => ⟨words, none, body?, after, hshapes ▸ his⟩
  | enumDef alone hs =>
    obtain ⟨ss, t, hforms, words, type?, body?, after, his, -⟩ := enumDef_forms hs h.lasts
    obtain ⟨rfl, hshapes⟩ := h.shapes hforms
    exact fun _ => ⟨words, type?, body?, after, hshapes ▸ his⟩
  | directive => exact other (by rcases h.kind_of_directive with rfl | rfl | rfl <;> rfl)
  | declaration place => exact other (by rcases h.kind_of_declaration with rfl | rfl <;> cases place <;> rfl)
  | _ => exact other (by rw [h.node_eq.1]; rfl)

/-- what an alias is given for -/
def aliased : Rule := choose [(startsRecord, recordDef false), (startsEnum, enumDef false)] typeRef

theorem aliased_forms (hl : aliased.Ends b s) : ∃ k ss t, Forms b aliased s [.node k ss] t
    ∧ (k.isTag = true → ∃ words type? body?, IsTagged k words type? body? [] ss) := by
  cases hr : startsRecord s with
  | true =>
    obtain ⟨k, ss, t, hforms, -, words, body?, after, his, halone⟩ := recordDef_forms hr (hl.1 hr)
    exact ⟨k, ss, t, hforms.branch hr, fun _ => ⟨words, none, body?, halone rfl ▸ his⟩⟩
  | false =>
    have hl := hl.2 hr
    cases he : startsEnum s with
    | true =>
      obtain ⟨ss, t, hforms, words, type?, body?, after, his, halone⟩ := enumDef_forms he (hl.1 he)
      exact ⟨_, ss, t, (hforms.branch he).otherwise hr, fun _ => ⟨words, type?, body?, halone rfl ▸ his⟩⟩
    | false =>
      obtain ⟨ss, t, hforms⟩ := forms_node (b := b) .typeRef _ s
      exact ⟨_, ss, t, .otherwise hr (.otherwise he hforms), fun h => by cases h⟩

theorem aliasLaw_of_makes {r : Rule} (h : Makes b r s kind parts) : aliasLaw kind parts (kindsOf s) := by
  have other (hk : kind ≠ .typedefDef) : aliasLaw kind parts (kindsOf s) := fun heq => absurd heq hk
  cases h.site with
  | typedefDef hs =>
    obtain ⟨c, s, rfl, hc⟩ := cons_of_next hs
    have hall : (Rule.seq .token (.seq aliased toSemicolon)).Ends b (c :: s) := h.lasts
    have hrest := forms_token.ends hall
    obtain ⟨k, ss, t, haliased, htag⟩ := aliased_forms hrest.1
    obtain ⟨after, u, -, hafter⟩ := forms_toSemicolon (haliased.ends hrest)
    obtain ⟨-, hshapes⟩ := h.shapes ((forms_token.seq (haliased.seq hafter)).node .typedefDef)
    exact fun _ => ⟨k, ss, kindsOf after, by rw [hshapes, hc]; rfl, htag⟩
  | directive => exact other (by rcases h.kind_of_directive with rfl | rfl | rfl <;> decide)
  | declaration place => exact other (by rcases h.kind_of_declaration with rfl | rfl <;> cases place <;> decide)
  | recordDef => exact other (by rcases h.kind_of_recordDef with rfl | rfl <;> decide)
  | _ => exact other (by rw [h.node_eq.1]; decide)

end Rule

/-- All records and enumerations in the outlines of a text are made as they should be. -/
theorem tagLaw_outline (cs : List Cue) : Outline.Obey Rule.tagLaw (outline cs) (kindsOf cs) :=
  outline_obey_of_sites
    (fun _ _ _ hk htag => absurd ((NodeKind.isLinked_of_isTag htag).symm.trans hk) Bool.false_ne_true)
    (fun _ _ _ _ _ h => Rule.tagLaw_of_makes h) cs

/-- Nothing comes after the body of a record or an enumeration that an alias is given for. -/
theorem aliasLaw_outline (cs : List Cue) : Outline.Obey Rule.aliasLaw (outline cs) (kindsOf cs) :=
  outline_obey_of_sites (fun kind _ _ hk htag => by subst htag; cases hk)
    (fun _ _ _ _ _ h => Rule.aliasLaw_of_makes h) cs

end CppMend
