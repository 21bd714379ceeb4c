import CppMend.Proofs.Grammar.ArgumentLists
import CppMend.Proofs.Grammar.Sites

/-!
# Types and names, token by token

The rules of types and names group nothing within a node: they take tokens one by one, and groups in
angle brackets at once. So what they take is spelled out by their tests alone.

* `Outcome.Spells`          an outcome that takes tokens in pieces of some sort, and groups none;
* `Rule.Reads`              a rule that takes tokens in such pieces, by its form and its tests;
* `Rule.perform_spells`     where the budget lasts, its outcomes are like that;
* `nameLaw_outline`         types and names are words and template argument lists.
-/

namespace CppMend

variable {Piece : List TokenKind → Prop}

/-- The outcome takes tokens in pieces of some sort, and groups none of them. -/
def Outcome.Spells (Piece : List TokenKind → Prop) (o : Outcome) (s : List Cue) : Prop :=
  ∃ taken pieces, s = taken ++ o.ahead ∧ o.built = taken.map (fun _ => .token)
    ∧ kindsOf taken = List.flatten pieces ∧ ∀ p ∈ pieces, Piece p

namespace Outcome

variable {o p : Outcome} {s : List Cue} {b : Bool}

theorem spells_nothing (s : List Cue) (b : Bool) : Spells Piece ⟨[], s, b⟩ s :=
  ⟨[], [], rfl, rfl, rfl, nofun⟩

theorem spells_piece {taken t : List Cue} (h : Piece (kindsOf taken)) :
    Spells Piece ⟨taken.map fun _ => .token, t, b⟩ (taken ++ t) :=
  ⟨taken, [kindsOf taken], rfl, rfl, by simp, by simpa using h⟩

theorem Spells.append (h : o.Spells Piece s) (h' : p.Spells Piece o.ahead) :
    Spells Piece ⟨o.built ++ p.built, p.ahead, b⟩ s := by
  obtain ⟨taken, pieces, hs, hb, hk, hp⟩ := h
  obtain ⟨more, others, hs', hb', hk', hp'⟩ := h'
  refine ⟨taken ++ more, pieces ++ others, ?_, ?_, ?_, ?_⟩
  · rw [List.append_assoc, ← hs', ← hs]
  · rw [List.map_append, ← hb, ← hb']
  · rw [List.flatten_append, ← hk, ← hk']
    exact List.map_append
  · exact List.forall_mem_append.mpr ⟨hp, hp'⟩

end Outcome

namespace Rule

open Lookahead

variable {budget : Nat} {call : Goal → Action} {ok : Goal → List Cue → Prop} {s : List Cue}

/-- The rule takes tokens in pieces of some sort, and groups none of them. -/
def Reads (Piece : List TokenKind → Prop) : Rule → List Cue → Prop
  | .nothing, _ | .leave, _ => True
  | .token, s => ∃ c t, s = c :: t ∧ Piece [c.kind]
  | .tokens length, s => Piece (kindsOf (s.take (length s)))
  | .seq p q, s => p.Reads Piece s ∧ ∀ t, q.Reads Piece t
  | .branch test yes no, s => (test s = true → yes.Reads Piece s) ∧ (test s = false → no.Reads Piece s)
  | .loop body, _ => ∀ t, body.Reads Piece t
  | _, _ => False

theorem loop_spells {body : Action} {Ok : List Cue → Prop}
    (hb : ∀ t, Ok t → (body t).Spells Piece t) {turns : Nat} {s : List Cue}
    (h : Action.LoopLasts Ok body turns s) : (Action.loop body turns s).Spells Piece s := by
  induction turns generalizing s with
  | zero => exact absurd h id
  | succ turns ih =>
    rw [Action.loop]
    split
    · exact hb s h.1
    · next hl => exact (hb s h.1).append (ih (h.2 (Bool.eq_false_iff.mpr hl)))

theorem perform_spells {r : Rule} (hr : r.Reads Piece s) (hl : r.Lasts budget call ok s) :
    (r.perform budget call s).Spells Piece s := by
  induction r generalizing s with
  | nothing => exact Outcome.spells_nothing s false
  | leave => exact Outcome.spells_nothing s true
  | token =>
    obtain ⟨c, t, rfl, hp⟩ := hr
    exact Outcome.spells_piece (show Piece (kindsOf [c]) from hp)
  | tokens length =>
    have h := Outcome.spells_piece (b := false) (t := s.drop (length s)) hr
    rwa [List.take_append_drop] at h
  | seq p q ihp ihq =>
    show (Action.andThen (p.perform budget call) (q.perform budget call) s).Spells Piece s
    rw [Action.andThen]
    split
    · exact ihp hr.1 hl.1
    · next hstay =>
      exact (ihp hr.1 hl.1).append (ihq (hr.2 _) (hl.2 (Bool.eq_false_iff.mpr hstay)))
  | branch test yes no ihy ihn =>
    rw [perform]
    split
    · next ht => exact ihy (hr.1 ht) (hl.1 ht)
    · next ht =>
      have ht := Bool.eq_false_iff.mpr ht
      exact ihn (hr.2 ht) (hl.2 ht)
  | loop body ih => exact loop_spells (fun t ht => ih (hr t) ht) hl
  | _ => exact absurd hr id

/-! ## words and argument lists -/

/-- a word or a list of template arguments -/
def IsNamePiece (ks : List TokenKind) : Prop := IsWord ks ∨ IsArgumentList ks

theorem token_reads {p : TokenKind → Bool} (hp : ∀ k, p k = true → k.isBracket = false)
    (h : nextIs p s = true) : token.Reads IsNamePiece s := by
  cases s with
  | nil => cases h
  | cons c s => exact ⟨c, s, rfl, .inl ⟨c.kind, rfl, hp c.kind h⟩⟩

theorem token_reads_of_next {k : TokenKind} (hk : k.isBracket = false) (h : next k s = true) :
    token.Reads IsNamePiece s := by
  cases s with
  | nil => cases h
  | cons c s =>
    have hc : c.kind = k := of_decide_eq_true h
    exact ⟨c, s, rfl, .inl ⟨c.kind, rfl, by rw [hc, hk]⟩⟩

theorem eat_reads {k : TokenKind} (hk : k.isBracket = false) : (eat k).Reads IsNamePiece s :=
  ⟨token_reads_of_next hk, fun _ => trivial⟩

theorem whileTrue_reads {test : List Cue → Bool} {r : Rule}
    (h : ∀ t, test t = true → r.Reads IsNamePiece t) : (whileTrue test r).Reads IsNamePiece s :=
  fun t => ⟨h t, fun _ => trivial⟩

/-- the group after a name, if it is an argument list -/
theorem arguments_read (h : next .less s = true) (ha : (argumentList? s).isSome = true) :
    (group .angle).Reads IsNamePiece s := by
  obtain ⟨n, hn⟩ := Option.isSome_iff_exists.mp ha
  show IsNamePiece (kindsOf (s.take (Bracket.angle.span s)))
  rw [span_of_argumentList? h hn]
  exact .inr (argumentList?_isArgumentList h hn)

theorem qualifiedTypeName_reads : qualifiedTypeName.Reads IsNamePiece s := by
  refine ⟨eat_reads rfl, fun _ => whileTrue_reads fun t ht => ?_⟩
  refine ⟨token_reads_of_next rfl ht, fun u => ⟨⟨fun h => ?_, fun _ => trivial⟩, fun v => ?_⟩⟩
  · rw [Bool.and_eq_true] at h
    exact arguments_read h.1 h.2
  · refine ⟨fun h => ?_, fun _ => trivial⟩
    exact token_reads_of_next rfl (Bool.and_eq_true_iff.mp h).1

theorem typeRef_reads : ∃ body, typeRef = .node .typeRef body ∧ ∀ s, body.Reads IsNamePiece s := by
  have word {p : TokenKind → Bool} (hp : ∀ k, p k = true → k.isBracket = false) {s : List Cue} :
      (whileTrue (nextIs p) token).Reads IsNamePiece s := whileTrue_reads fun _ => token_reads hp
  refine ⟨_, rfl, fun s => ⟨word ?_, fun t => ⟨?_, fun u => word ?_⟩⟩⟩
  · exact fun k hk => by cases k <;> first | rfl | cases hk
  · refine ⟨fun _ => word fun k hk => ?_, fun _ => ⟨token_reads_of_next rfl, fun _ => ?_⟩⟩
    · cases k <;> first | rfl | cases hk
    · refine ⟨fun h => ⟨token_reads (fun k hk => ?_) h, fun _ => qualifiedTypeName_reads⟩, fun _ => ?_⟩
      · cases k <;> first | rfl | cases hk
      · exact ⟨fun _ => qualifiedTypeName_reads, fun _ => trivial⟩
  · exact fun k hk => by cases k <;> first | rfl | cases hk

theorem nameRef_reads : ∃ body, nameRef = .node .nameRef body ∧ ∀ s, body.Reads IsNamePiece s := by
  refine ⟨_, rfl, fun s => ⟨eat_reads rfl, fun _ => whileTrue_reads fun t ht => ?_⟩⟩
  refine ⟨token_reads_of_next rfl ht, fun u => ⟨⟨fun h => ?_, fun _ => trivial⟩, fun v => ?_⟩⟩
  · rw [startsArguments, Bool.and_eq_true, Option.any_eq_true] at h
    obtain ⟨n, hn, -⟩ := h.2
    exact arguments_read h.1 (by rw [hn]; rfl)
  · refine ⟨fun h => ⟨?_, fun _ => eat_reads rfl⟩, fun _ => trivial⟩
    exact token_reads_of_next rfl (Bool.and_eq_true_iff.mp h).1

/-! ## the law of names -/

/-- types and names in expressions are words and argument lists -/
def nameLaw : NodeLaw := fun kind parts ks => kind = .typeRef ∨ kind = .nameRef →
  ∃ pieces : List (List TokenKind),
    ks.take (Outline.sizes parts) = pieces.flatten ∧ ∀ p ∈ pieces, IsNamePiece p

theorem nameLaw_of_spells {o : Outcome} (h : o.Spells IsNamePiece s) (kind : NodeKind) :
    nameLaw kind o.built (kindsOf s) := by
  obtain ⟨taken, pieces, hs, hb, hk, hp⟩ := h
  have htake : (kindsOf s).take (Outline.sizes o.built) = kindsOf taken := by
    rw [hb, Outline.sizes_tokens, hs, kindsOf, List.map_append]
    exact List.take_left' (List.length_map _)
  exact fun _ => ⟨pieces, htake.trans hk, hp⟩

theorem nameLaw_of_makes {r : Rule} {kind : NodeKind} {parts : List Outline}
    (h : Makes budget r s kind parts) : nameLaw kind parts (kindsOf s) := by
  have named {body : Rule} (hb : body.Reads IsNamePiece s)
      (hl : body.Lasts budget (reach grammar budget) (Lasting budget) s) (kind : NodeKind) :
      nameLaw kind (body.perform budget (reach grammar budget) s).built (kindsOf s) :=
    nameLaw_of_spells (perform_spells hb hl) kind
  have other (hk : ¬(kind = .typeRef ∨ kind = .nameRef)) : nameLaw kind parts (kindsOf s) :=
    fun hn => absurd hn hk
  cases h.site with
  | typeRef =>
    obtain ⟨body, hr, hreads⟩ := typeRef_reads
    rw [hr] at h
    obtain ⟨rfl, rfl⟩ := h.node_eq
    exact named (hreads s) h.lasts _
  | nameRef =>
    obtain ⟨body, hr, hreads⟩ := nameRef_reads
    rw [hr] at h
    obtain ⟨rfl, rfl⟩ := h.node_eq
    exact named (hreads s) h.lasts _
  | typeWord hw =>
    obtain ⟨rfl, rfl⟩ := h.node_eq
    exact named (token_reads (fun k hk => by cases k <;> first | rfl | cases hk) hw) h.lasts _
  | directive => exact other (by rcases h.kind_of_directive with rfl | rfl | rfl <;> decide)
  | declaration place =>
    exact other (by rcases h.kind_of_declaration with rfl | rfl <;> cases place <;> decide)
  | recordDef => exact other (by rcases h.kind_of_recordDef with rfl | rfl <;> decide)
  | _ => exact other (by rw [h.node_eq.1]; decide)

end Rule

/-- All types and names in the outlines of a text are words and argument lists. -/
theorem nameLaw_outline (cs : List Cue) :
    Outline.Obey Rule.nameLaw (outline cs) (kindsOf cs) := by
  refine outline_obey_of_sites (fun kind parts ks hk hn => ?_)
    (fun _ _ _ _ _ h => Rule.nameLaw_of_makes h) cs
  rcases hn with rfl | rfl <;> cases hk

end CppMend
