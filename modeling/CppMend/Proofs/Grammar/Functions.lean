import CppMend.Proofs.Grammar.Declared

/-!
# Functions

A function starts in one of two ways: with a type and a name, or, where none of its tokens is a type,
with whatever stands before a `(`. What comes after the parameters is a loop, which takes tokens and
groups until a body, a `;`, or a place where nothing more of the function can come.

* `Outcome.IsFlat`           an outcome that groups nothing;
* `Outcome.Closes`           tokens, and then a body or a place where a function ends;
* `Rule.functionRest_closes` what comes after the parameters is like that;
* `functionLaw_outline`      the functions of a text have these parts.
-/

namespace CppMend

/-- The outcome takes tokens from the front and groups none of them. -/
def Outcome.IsFlat (o : Outcome) (s : List Cue) : Prop :=
  ∃ taken, s = taken ++ o.ahead ∧ o.built = taken.map fun _ => .token

/-- a node of a kind, if its parts are given -/
def Outline.nodeOf? (kind : NodeKind) (parts? : Option (List Outline)) : List Outline :=
  (parts?.map (Outline.node kind)).toList

/-- The outcome takes tokens, and then a body. Without one, it ends with a `;`, or before a `}` or the end
of the text. -/
def Outcome.Closes (o : Outcome) (s : List Cue) : Prop :=
  ∃ (taken : List Cue) (body? : Option (List Outline)),
    o.built = taken.map (fun _ => .token) ++ Outline.nodeOf? .block body?
      ∧ (body? = none → s = taken ++ o.ahead
        ∧ (taken.getLast?.map (·.kind) = some .semicolon ∨ Lookahead.endOr [.rBrace] o.ahead = true))

namespace Outcome

variable {o p : Outcome} {s : List Cue} {b : Bool}

theorem Spells.isFlat {Piece : List TokenKind → Prop} (h : o.Spells Piece s) : o.IsFlat s := by
  obtain ⟨taken, -, hs, hb, -⟩ := h
  exact ⟨taken, hs, hb⟩

/-- tokens before what closes a function -/
theorem IsFlat.closes (h : o.IsFlat s) (h' : p.Closes o.ahead) :
    Closes ⟨o.built ++ p.built, p.ahead, b⟩ s := by
  obtain ⟨taken, hs, hb⟩ := h
  obtain ⟨more, body?, hb', hends⟩ := h'
  refine ⟨taken ++ more, body?, ?_, fun hn => ?_⟩
  · show o.built ++ p.built = _
    rw [hb, hb', List.map_append, List.append_assoc]
  · obtain ⟨hs', hends⟩ := hends hn
    refine ⟨by rw [List.append_assoc, ← hs', ← hs], hends.imp_left fun hlast => ?_⟩
    cases hm : more.getLast? with
    | none =>
      rw [hm] at hlast
      cases hlast
    | some c =>
      rw [hm] at hlast
      rw [List.getLast?_append, hm]
      exact hlast

end Outcome

namespace Rule

open Lookahead

variable {budget : Nat} {call : Goal → Action} {ok : Goal → List Cue → Prop} {s t : List Cue}

/-- a rule that takes tokens without a look at what they are -/
abbrev ReadsAny (r : Rule) (s : List Cue) : Prop := r.Reads (fun _ => True) s

theorem perform_isFlat {r : Rule} (hr : r.ReadsAny s) (hl : r.Lasts budget call ok s) :
    (r.perform budget call s).IsFlat s :=
  (perform_spells hr hl).isFlat

theorem token_readsAny (h : s ≠ []) : token.ReadsAny s := by
  cases s with
  | nil => exact absurd rfl h
  | cons c s => exact ⟨c, s, rfl, trivial⟩

theorem ne_nil_of_not_endOr {ks : List TokenKind} (h : endOr ks s = false) : s ≠ [] := by
  rintro rfl
  cases h

theorem skipTo_readsAny (ks : List TokenKind) : (skipTo ks).ReadsAny s :=
  fun _ => ⟨fun _ => trivial, fun h => token_readsAny (ne_nil_of_not_endOr h)⟩

/-! ## up to a `;` -/

/-- the tokens and groups before a `;` -/
def beforeSemicolon : Rule :=
  untilTrue (endOr [.semicolon, .rBrace])
    (choose [(next .lBrace, group .brace), (next .lParen, group .paren)] .token)

theorem toSemicolon_eq : toSemicolon = .seq beforeSemicolon (eat .semicolon) := rfl

theorem beforeSemicolon_readsAny : beforeSemicolon.ReadsAny s :=
  fun _ => ⟨fun _ => trivial, fun h => ⟨fun _ => trivial, fun _ => ⟨fun _ => trivial, fun _ =>
    token_readsAny (ne_nil_of_not_endOr h)⟩⟩⟩

/-- a `;`, if one is next, where nothing else but a `}` or the end can be -/
theorem eat_closes (h : endOr [.semicolon, .rBrace] s = true) :
    ((eat .semicolon).perform budget call s).Closes s := by
  cases hn : next .semicolon s with
  | true =>
    rw [eat_of_next hn]
    cases s with
    | nil => cases hn
    | cons c s =>
      exact ⟨[c], none, rfl, fun _ => ⟨rfl, .inl (congrArg some (of_decide_eq_true hn))⟩⟩
  | false =>
    rw [eat_of_not_next hn]
    refine ⟨[], none, rfl, fun _ => ⟨rfl, .inr ?_⟩⟩
    cases s with
    | nil => rfl
    | cons c s =>
      have hk : c.kind ≠ .semicolon := of_decide_eq_false hn
      simpa [endOr, hk] using h

theorem toSemicolon_closes (hl : toSemicolon.Lasts budget call ok s) :
    (toSemicolon.perform budget call s).Closes s := by
  rw [toSemicolon_eq] at hl ⊢
  have hflat := perform_isFlat beforeSemicolon_readsAny hl.1
  have hstay : (beforeSemicolon.perform budget call s).leaving = false := leaving_of_stays rfl s
  have hend : endOr [.semicolon, .rBrace] (beforeSemicolon.perform budget call s).ahead = true := by
    have hgroups (s : List Cue) : ((choose [(next .lBrace, group .brace), (next .lParen, group .paren)]
        .token).perform budget call s).leaving = false := leaving_of_stays rfl s
    rcases untilTrue_ahead _ hgroups s with h | h
    · rw [beforeSemicolon, h]
      rfl
    · exact h
  show (Action.andThen _ _ s).Closes s
  rw [Action.andThen, if_neg (by rw [hstay]; exact Bool.false_ne_true)]
  exact hflat.closes (eat_closes hend)

/-! ## after the parameters -/

/-- one turn of what comes after the parameters -/
def functionTurn : Rule :=
  choose [
    (next .lBrace, inOrder [block, .leave]),
    (next .semicolon, inOrder [.token, .leave]),
    (endOr [.rBrace], .leave),
    (next .colon, inOrder [.token, memberInitializers]),
    (next .equal, inOrder [toSemicolon, .leave]),
    (next .lParen, group .paren)]
    .token

theorem functionRest_eq : functionRest = .loop functionTurn := rfl

theorem memberInitializers_readsAny : memberInitializers.ReadsAny s := by
  refine fun t => ⟨fun _ => ⟨fun h => token_readsAny (ne_nil_of_nextIn h), fun _ => trivial⟩, fun _ =>
    ⟨?_, fun _ => ⟨fun h => token_readsAny (ne_nil_of_next h), fun _ => trivial⟩⟩⟩
  exact ⟨fun _ => trivial, fun _ => ⟨fun _ => trivial, fun _ => trivial⟩⟩

/-- A turn takes tokens, or it is the last one and closes the function. -/
theorem functionTurn_outcome (hl : functionTurn.Lasts budget call ok s) :
    let o := functionTurn.perform budget call s
    o.leaving = true ∧ o.Closes s ∨ o.leaving = false ∧ o.IsFlat s := by
  let Turn (o : Outcome) : Prop := o.leaving = true ∧ o.Closes s ∨ o.leaving = false ∧ o.IsFlat s
  have flat {r : Rule} (hstay : r.stays = true) (hr : r.ReadsAny s) (hl : r.Lasts budget call ok s) :
      Turn (r.perform budget call s) := .inr ⟨leaving_of_stays hstay s, perform_isFlat hr hl⟩
  have last {r : Rule} (hstay : r.stays = true) (hr : (r.perform budget call s).Closes s) :
      Turn ((inOrder [r, .leave]).perform budget call s) := by
    have hrun : (inOrder [r, .leave]).perform budget call s
        = ⟨(r.perform budget call s).built ++ [], (r.perform budget call s).ahead, true⟩ := by
      show Action.andThen _ _ s = _
      rw [Action.andThen, if_neg (by rw [leaving_of_stays hstay s]; exact Bool.false_ne_true)]
      rfl
    rw [hrun, List.append_nil]
    exact .inl ⟨rfl, hr⟩
  refine branch_outcome (P := Turn) hl (fun _ _ => ?body) fun _ hl => ?_
  case body => exact last rfl ⟨[], some _, rfl, fun h => absurd h (Option.some_ne_none _)⟩
  refine branch_outcome (P := Turn) hl (fun h _ => ?semicolon) fun _ hl => ?_
  case semicolon =>
    cases s with
    | nil => cases h
    | cons c s => exact last rfl ⟨[c], none, rfl, fun _ => ⟨rfl, .inl (congrArg some (of_decide_eq_true h))⟩⟩
  refine branch_outcome (P := Turn) hl (fun h _ => ?ends) fun hopen hl => ?_
  case ends => exact .inl ⟨rfl, [], none, rfl, fun _ => ⟨rfl, .inr h⟩⟩
  have htoken : token.ReadsAny s := token_readsAny (ne_nil_of_not_endOr hopen)
  refine branch_outcome (P := Turn) hl (fun _ hl => ?colon) fun _ hl => ?_
  case colon => exact flat rfl ⟨htoken, fun _ => memberInitializers_readsAny⟩ hl
  refine branch_outcome (P := Turn) hl (fun _ hl => ?equal) fun _ hl => ?_
  case equal => exact last rfl (toSemicolon_closes hl.1)
  refine branch_outcome (P := Turn) hl (fun _ hl => ?paren) fun _ hl => ?token
  case paren => exact flat rfl trivial hl
  case token => exact flat rfl htoken hl

/-- What comes after the parameters closes the function. -/
theorem functionRest_closes (hl : functionRest.Lasts budget call ok s) :
    (functionRest.perform budget call s).Closes s := by
  have hloop {turns : Nat} {s : List Cue}
      (hl : Action.LoopLasts (functionTurn.Lasts budget call ok) (functionTurn.perform budget call)
        turns s) : (Action.loop (functionTurn.perform budget call) turns s).Closes s := by
    induction turns generalizing s with
    | zero => exact absurd hl id
    | succ turns ih =>
      rw [Action.loop]
      rcases functionTurn_outcome hl.1 with ⟨hleave, hcloses⟩ | ⟨hstay, hflat⟩
      · rw [if_pos hleave]
        exact hcloses
      · rw [if_neg (by rw [hstay]; exact Bool.false_ne_true)]
        exact hflat.closes (ih (hl.2 hstay))
  rw [functionRest_eq] at hl ⊢
  exact hloop hl

/-! ## up to the parameters -/

theorem secondIs_mem {p : TokenKind → Bool} (h : secondIs p s = true) : ∃ c ∈ s, p c.kind = true := by
  match s, h with
  | _ :: c :: _, h => exact ⟨c, by simp, h⟩

theorem qualifiersThenParen_mem {qualified : Bool} (h : qualifiersThenParen qualified s = true) :
    ∃ c ∈ s, c.kind = .lParen := by
  fun_induction qualifiersThenParen qualified s with
  | case1 => cases h
  | case2 => cases h
  | case3 qualified c _ d rest _ ih =>
    obtain ⟨e, he, hk⟩ := ih h
    exact ⟨e, by simp [he], hk⟩
  | case4 qualified c _ d _ _ e rest ih =>
    obtain ⟨f, hf, hk⟩ := ih (Bool.and_eq_true_iff.mp h).2
    exact ⟨f, by simp [hf], hk⟩
  | case5 => cases h
  | case6 => cases h
  | case7 qualified c rest =>
    exact ⟨c, List.mem_cons_self, of_decide_eq_true (Bool.and_eq_true_iff.mp h).2⟩

/-- Where a function without a type is seen ahead, there is a `(`. -/
theorem exists_paren_of_constructor
    (h : startsConstructor s = true ∨ startsQualifiedConstructor s = true) :
    ∃ c ∈ s, c.kind = .lParen := by
  rcases h with h | h
  · obtain ⟨c, hc, hk⟩ := secondIs_mem (Bool.and_eq_true_iff.mp h).2
    split at hc
    · exact ⟨c, (List.dropWhile_suffix _).mem (List.mem_of_mem_drop hc), of_decide_eq_true hk⟩
    · exact ⟨c, (List.dropWhile_suffix _).mem hc, of_decide_eq_true hk⟩
  · obtain ⟨c, hc, hk⟩ := qualifiersThenParen_mem (Bool.and_eq_true_iff.mp h).2
    exact ⟨c, (List.dropWhile_suffix _).mem (List.mem_of_mem_drop hc), hk⟩

/-- What is skipped up to a token that is there ends right before one. -/
theorem skipTo_finds {k : TokenKind} (hl : (skipTo [k]).Lasts budget call ok s)
    (h : ∃ c ∈ s, c.kind = k) : next k ((skipTo [k]).perform budget call s).ahead = true := by
  refine loop_ends (E := fun s t => (∃ c ∈ s, c.kind = k) → next k t = true) (fun s hs h => ?last)
    (fun s t hs ht h => ht ?turn) hl h
  case last =>
    obtain ⟨d, hd, -⟩ := h
    cases s with
    | nil => cases hd
    | cons c s =>
      rw [perform] at hs ⊢
      split at hs
      · next he =>
        rw [if_pos he]
        simpa [endOr, next, perform] using he
      · cases hs
  case turn =>
    obtain ⟨d, hd, hk⟩ := h
    cases s with
    | nil => cases hd
    | cons c s =>
      rw [perform] at hs ⊢
      split at hs
      · cases hs
      · next he =>
        rw [if_neg he]
        have hc : c.kind ≠ k := by simpa [endOr] using he
        rcases List.mem_cons.mp hd with rfl | hd
        · exact absurd hk hc
        · exact ⟨d, hd, hk⟩

theorem declaratorName_readsAny : declaratorName.ReadsAny s := by
  refine ⟨fun h => ⟨token_readsAny (ne_nil_of_next h), fun t => ⟨fun h => ?_, fun _ =>
    skipTo_readsAny _⟩⟩, fun _ t => ⟨fun h => ?_, fun _ => ⟨fun h => ?_, fun _ => trivial⟩⟩⟩
  · exact ⟨token_readsAny (ne_nil_of_next h), fun u => ⟨fun h => token_readsAny (ne_nil_of_next h),
      fun _ => trivial⟩⟩
  · exact ⟨token_readsAny (ne_nil_of_next (Bool.and_eq_true_iff.mp h).1), fun _ => trivial⟩
  · exact token_readsAny (ne_nil_of_nextIn h)

/-! ## the law of functions -/

/-- A function: perhaps a type, then tokens, parameters that start with a `(`, tokens again, and perhaps
a body. Without one, its last token is a `;`, or a `}` or nothing comes next. -/
structure FunctionOf (type? : Option (List Outline)) (named : Nat) (params : List Outline) (more : Nat)
    (body? : Option (List Outline)) (parts : List Outline) (ks : List TokenKind) : Prop where
  parts_eq : parts = (Outline.nodeOf? .typeRef type? ++ List.replicate named .token)
    ++ .node .parameterList (.token :: params)
      :: (List.replicate more .token ++ Outline.nodeOf? .block body?)
  opens : (ks.drop (Outline.sizes (Outline.nodeOf? .typeRef type? ++ List.replicate named .token))).head?
    = some .lParen
  ends : body? = none → (ks.take (Outline.sizes parts)).getLast? = some .semicolon
    ∨ ∀ k ∈ (ks.drop (Outline.sizes parts)).head?, k = .rBrace

/-- functions have the parts of functions -/
def functionLaw : NodeLaw := fun kind parts ks => kind = .functionDef →
  ∃ type? named params more body?, FunctionOf type? named params more body? parts ks

theorem parameterList_built (h : next .lParen s = true) : ∃ params,
    (parameterList.perform budget call s).built = [.node .parameterList (.token :: params)] := by
  cases s with
  | nil => cases h
  | cons c s => exact ⟨_, rfl⟩

/-- the first token after what was read is the next one -/
theorem head?_drop_kindsOf {o : Outcome} (ho : o.Fits s) {k : TokenKind} (hn : next k o.ahead = true) :
    ((kindsOf s).drop (Outline.sizes o.built)).head? = some k := by
  rw [← kindsOf_drop, ← ho.rest]
  cases hs : o.ahead with
  | nil =>
    rw [hs] at hn
    cases hn
  | cons c t =>
    rw [hs] at hn
    exact congrArg some (of_decide_eq_true hn)

/-- Where tokens without a body close a function, it ends with a `;`, or a `}` or nothing comes next. -/
theorem ends_of_closes {o p : Outcome} (ho : o.Fits s) (hp : p.Fits o.ahead) {taken : List Cue}
    (hbuilt : p.built = taken.map fun _ => .token) (hs : o.ahead = taken ++ p.ahead)
    (hends : taken.getLast?.map (·.kind) = some .semicolon ∨ endOr [.rBrace] p.ahead = true) :
    ((kindsOf s).take (Outline.sizes (o.built ++ p.built))).getLast? = some .semicolon
      ∨ ∀ k ∈ ((kindsOf s).drop (Outline.sizes (o.built ++ p.built))).head?, k = .rBrace := by
  have hkinds : kindsOf o.ahead = (kindsOf s).drop (Outline.sizes o.built) := by
    rw [ho.rest, kindsOf_drop]
  refine hends.imp (fun hlast => ?_) (fun hend => ?_)
  · have htake : (kindsOf o.ahead).take (Outline.sizes p.built) = kindsOf taken := by
      rw [hbuilt, hs, kindsOf, List.map_append, Outline.sizes_tokens]
      exact List.take_left' (List.length_map _)
    have hkind : (kindsOf taken).getLast? = some .semicolon := by
      rw [kindsOf, List.getLast?_map]
      exact hlast
    rw [Outline.sizes_append, List.take_add, ← hkinds, htake, List.getLast?_append, hkind]
    rfl
  · rw [Outline.sizes_append, ← List.drop_drop, ← hkinds, ← kindsOf_drop, ← hp.rest]
    cases ha : p.ahead with
    | nil => exact fun k hk => absurd hk (Option.not_mem_none k)
    | cons c t =>
      rw [ha] at hend
      intro k hk
      cases hk
      simpa [endOr] using hend

/-- Parameters and what comes after them, where a `(` is next. -/
theorem functionOf_of_signature (hf : CallsFit call) {o : Outcome} {type? : Option (List Outline)}
    {named : Nat} (ho : o.Fits s)
    (hb : o.built = Outline.nodeOf? .typeRef type? ++ List.replicate named .token)
    (hn : next .lParen o.ahead = true)
    (hl : (seq parameterList functionRest).Lasts budget call ok o.ahead) :
    ∃ params more body?, FunctionOf type? named params more body?
      (o.built ++ ((seq parameterList functionRest).perform budget call o.ahead).built)
      (kindsOf s) := by
  let p := parameterList.perform budget call o.ahead
  let q := functionRest.perform budget call p.ahead
  have hstay : p.leaving = false := leaving_of_stays rfl _
  obtain ⟨params, hparams⟩ : ∃ params, p.built = [.node .parameterList (.token :: params)] :=
    parameterList_built hn
  obtain ⟨taken, body?, hbuilt, hends⟩ := functionRest_closes (hl.2 hstay)
  have hparts : o.built ++ ((seq parameterList functionRest).perform budget call o.ahead).built
      = (o.built ++ p.built) ++ q.built := by
    rw [seq_built hstay, List.append_assoc]
  have hsignature : (Outcome.mk (o.built ++ p.built) p.ahead false).Fits s :=
    ho.append (parameterList.perform_fits hf o.ahead)
  refine ⟨params, taken.length, body?, ?_, ?_, fun hnone => ?_⟩
  · rw [hparts, hb, hparams, hbuilt, List.map_const', List.append_assoc]
    rfl
  · rw [← hb]
    exact head?_drop_kindsOf ho hn
  · obtain ⟨hs, hends⟩ := hends hnone
    rw [hnone] at hbuilt
    rw [hparts]
    exact ends_of_closes hsignature (functionRest.perform_fits hf p.ahead)
      (hbuilt.trans (List.append_nil _)) hs hends

variable {kind : NodeKind} {parts : List Outline}

theorem functionLaw_of_constructor (h : Makes budget constructor s kind parts)
    (hs : startsConstructor s = true ∨ startsQualifiedConstructor s = true) :
    functionLaw kind parts (kindsOf s) := by
  have hf : CallsFit (reach grammar budget) := reach_fits grammar budget
  have hstay : ((skipTo [.lParen]).perform budget (reach grammar budget) s).leaving = false :=
    leaving_of_stays rfl s
  obtain ⟨hskip, hrest⟩ : (seq (skipTo [.lParen]) (seq parameterList functionRest)).Lasts budget
    (reach grammar budget) (Lasting budget) s := h.lasts
  obtain ⟨taken, -, hb⟩ := perform_isFlat (skipTo_readsAny _) hskip
  rw [List.map_const'] at hb
  have huntyped : ((skipTo [.lParen]).perform budget (reach grammar budget) s).built
      = Outline.nodeOf? .typeRef none ++ List.replicate taken.length .token := hb
  obtain ⟨params, more, body?, hfun⟩ := functionOf_of_signature hf
    ((skipTo [.lParen]).perform_fits hf s) huntyped
    (skipTo_finds hskip (exists_paren_of_constructor hs)) (hrest hstay)
  refine fun _ => ⟨none, taken.length, params, more, body?, ?_⟩
  rw [← seq_built hstay] at hfun
  rw [Makes.node_eq (k := .functionDef) h |>.2]
  exact hfun

theorem functionLaw_of_declaration {place : Place} (h : Makes budget (declaration place) s kind parts) :
    functionLaw kind parts (kindsOf s) := by
  intro hk
  have hf : CallsFit (reach grammar budget) := reach_fits grammar budget
  have hstay : (typeRef.perform budget (reach grammar budget) s).leaving = false := rfl
  obtain ⟨hhead, htail⟩ := h.lasts
  obtain ⟨-, hname⟩ : (seq typeRef declaratorName).Lasts budget (reach grammar budget)
    (Lasting budget) s := hhead
  obtain ⟨taken, -, hb⟩ := perform_isFlat declaratorName_readsAny (hname hstay)
  obtain ⟨hkind, rfl⟩ := h.headed_eq
  let o := (inOrder [typeRef, declaratorName]).perform budget (reach grammar budget) s
  have ho : o.Fits s := (inOrder [typeRef, declaratorName]).perform_fits hf s
  obtain ⟨type, htype⟩ : ∃ type, (typeRef.perform budget (reach grammar budget) s).built
      = Outline.nodeOf? .typeRef (some type) := ⟨_, rfl⟩
  have hbuilt : o.built = Outline.nodeOf? .typeRef (some type)
      ++ List.replicate taken.length .token := by
    rw [List.map_const'] at hb
    rw [← hb, ← htype]
    exact seq_built hstay
  have htest : (place ≠ .body && next .lParen o.ahead) = true := by
    by_contra hn
    have hplace : kind = place.node := hkind.trans (if_neg hn)
    cases place <;> cases hplace.symm.trans hk
  have hn : next .lParen o.ahead = true := (Bool.and_eq_true_iff.mp htest).2
  obtain ⟨params, more, body?, hfun⟩ := functionOf_of_signature hf ho hbuilt hn (htail.1 htest)
  refine ⟨some type, taken.length, params, more, body?, ?_⟩
  show FunctionOf _ _ _ _ _ (o.built ++ (Rule.perform budget (reach grammar budget)
    (.branch (fun s => place ≠ .body && next .lParen s) _ _) o.ahead).built) _
  rw [perform, if_pos htest]
  exact hfun

theorem functionLaw_of_makes {r : Rule} (h : Makes budget r s kind parts) :
    functionLaw kind parts (kindsOf s) := by
  have other (hk : kind ≠ .functionDef) : functionLaw kind parts (kindsOf s) := fun hn => absurd hn hk
  cases h.site with
  | constructor hs => exact functionLaw_of_constructor h hs
  | declaration place => exact functionLaw_of_declaration h
  | directive => exact other (by rcases h.kind_of_directive with rfl | rfl | rfl <;> decide)
  | recordDef => exact other (by rcases h.kind_of_recordDef with rfl | rfl <;> decide)
  | _ => exact other (by rw [h.node_eq.1]; decide)

end Rule

/-- All functions in the outlines of a text have the parts of functions. -/
theorem functionLaw_outline (cs : List Cue) :
    Outline.Obey Rule.functionLaw (outline cs) (kindsOf cs) := by
  refine outline_obey_of_sites (fun kind parts ks hk hn => ?_)
    (fun _ _ _ _ _ h => Rule.functionLaw_of_makes h) cs
  rw [hn] at hk
  cases hk

end CppMend
