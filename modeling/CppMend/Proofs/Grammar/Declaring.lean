import CppMend.Proofs.Grammar.Declarators

/-!
# Nodes that declare names

Functions, variables, fields and declarations in bodies start with a type, and then the parts of declarators
follow each other; a function goes on with its parameters. Where a function has no type, the words that may
stand before its name are there. So these nodes are taken apart in one way only.

* `Declaring`          a node by what is before its declarators, by their parts, and by what is behind;
* `Declaring.unique`   it is known from the tokens and nodes;
* `declaringLaw_outline`   all such nodes of a text are like that.
-/

namespace CppMend

open Tree.Shape (row)

namespace NodeKind

/-- the kinds of nodes that declare the names in declarators -/
def hasDeclarators : NodeKind → Bool
  | .variableDef | .fieldDef | .declStmt | .functionDef => true
  | _ => false

/-- where such a node stands; the name of a function reads the same everywhere -/
def place : NodeKind → Rule.Place
  | .fieldDef => .record
  | .declStmt => .body
  | _ => .file

theorem place_node (place : Rule.Place) : place.node.place = place := by cases place <;> rfl

end NodeKind

/-- the words before the name of a function without a type -/
def specifiers : List TokenKind := [.kwExplicit, .kwInline, .kwVirtual, .kwConstexpr]

/-- A node has a type or the words before a function, then the parts of declarators, and behind them nothing
or the parameters of a function, of whose parts none is skipped. -/
structure Declaring (kind : NodeKind) (front : List Tree.Shape) (ps : List Part) (back : List Tree.Shape) :
    Prop where
  path : Part.Path kind.place none ps
  front : (∃ type, front = [.node .typeRef type])
    ∨ kind = .functionDef ∧ ∃ ks, front = row ks ∧ ∀ k ∈ ks, k ∈ specifiers
  back : if kind = .functionDef then
      (∀ p ∈ ps, p.isRest = false) ∧ ∃ params rest, back = .node .parameterList params :: rest
    else back = []

namespace Declaring

open CppMend.Part

variable {kind : NodeKind} {front back us vs : List Tree.Shape} {ps qs : List Part}

theorem stops (h : Declaring kind front ps back) : Part.Stops back := by
  intro u hu
  have hback := h.back
  split at hback
  · obtain ⟨-, params, rest, rfl⟩ := hback
    exact ⟨params, (Option.some.inj hu).symm⟩
  · rw [hback] at hu
    cases hu

/-- what the declarators and what is behind them start with -/
theorem head_cases (h : Declaring kind front ps back) {x : Tree.Shape}
    (hx : x ∈ (ps.flatMap shapes ++ back).head?) : (∃ p ∈ ps, p.Ok ∧ x = .leaf p.head)
      ∨ ∃ k parts, x = .node k parts ∧ k ≠ .typeRef := by
  have hpath := h.path
  cases ps with
  | nil =>
    obtain ⟨parts, rfl⟩ := h.stops x hx
    exact .inr ⟨_, parts, rfl, by decide⟩
  | cons p ps =>
    rcases hpath.1.ok.shapes_eq with ⟨ss, hs⟩ | ⟨k, parts, rfl⟩
    · rw [List.flatMap_cons, hs] at hx
      exact .inl ⟨p, List.mem_cons_self, hpath.1.ok, (Option.some.inj hx).symm⟩
    · exact .inr ⟨.initializer, parts, (Option.some.inj hx).symm, by decide⟩

theorem not_specifiers {p : Part} (h : p.Ok) (hrest : p.isRest = false) : p.head ∉ specifiers := by
  cases p with
  | word k | mark k =>
    intro hk
    simp only [Ok, specifiers, head, List.mem_cons, List.not_mem_nil, or_false] at h hk
    rcases hk with rfl | rfl | rfl | rfl <;> simp at h
  | value k parts =>
    obtain ⟨ss, ⟨rfl, -⟩ | ⟨rfl, -⟩ | ⟨rfl, -⟩⟩ := (show IsValue k parts from h) <;> simp [specifiers, head]
  | arguments | operator | extent | width => simp [specifiers, head]
  | rest => cases hrest

/-- A type is neither a word nor a part. -/
theorem typed_ne {type xs : List Tree.Shape} {ks : List TokenKind} (h : Declaring kind us qs vs) :
    [.node .typeRef type] ++ xs ≠ row ks ++ (qs.flatMap shapes ++ vs) := by
  intro he
  cases ks with
  | nil =>
    have hhead : .node .typeRef type ∈ (qs.flatMap shapes ++ vs).head? := congrArg List.head? he.symm
    rcases h.head_cases hhead with ⟨_, -, -, hx⟩ | ⟨k, _, hx, hk⟩
    · cases hx
    · cases hx
      exact hk rfl
  | cons k ks => cases he

/-- Behind the words before a name, there is no such word. -/
theorem specifiers_append {ks js : List TokenKind} {k : TokenKind} {ss : List Tree.Shape}
    (h : Declaring .functionDef front ps back) (he : ps.flatMap shapes ++ back = .leaf k :: ss) :
    ¬∀ j ∈ ks ++ k :: js, j ∈ specifiers := by
  intro hall
  have hk : k ∈ specifiers := hall k (by simp)
  rcases h.head_cases (x := .leaf k) (by rw [he]; rfl) with ⟨p, hp, hok, hx⟩ | ⟨_, _, hx, -⟩
  · obtain rfl : k = p.head := by simpa using hx
    exact not_specifiers hok (h.back.1 p hp) hk
  · cases hx

/-- A node that declares names is taken apart in one way only. -/
theorem unique (h : Declaring kind front ps back) (h' : Declaring kind us qs vs)
    (he : front ++ (ps.flatMap shapes ++ back) = us ++ (qs.flatMap shapes ++ vs)) :
    front = us ∧ ps = qs ∧ back = vs := by
  have hfront : front = us := by
    rcases h.front with ⟨type, rfl⟩ | ⟨rfl, ks, rfl, hks⟩ <;>
      rcases h'.front with ⟨type', rfl⟩ | ⟨hk', ls, rfl, hls⟩
    · exact congrArg (fun x => [x]) (List.cons.inj he).1
    · exact absurd he h'.typed_ne
    · exact absurd he.symm h.typed_ne
    · rw [row_unique (P := fun ks => ∀ k ∈ ks, k ∈ specifiers) hks hls
        (fun _ _ hx _ => h.specifiers_append hx) (fun _ _ hx _ => h'.specifiers_append hx) he]
  subst hfront
  exact ⟨rfl, h.path.unique h'.path h.stops h'.stops (List.append_cancel_left he)⟩

end Declaring

namespace Rule

open Lookahead CppMend.Part

variable {b : Nat} {place : Rule.Place} {p? : Option Part} {s t : List Cue} {kind : NodeKind} {parts : List Outline}

/-- nodes that declare names are made of declarators -/
def declaringLaw : NodeLaw := fun kind parts ks => kind.hasDeclarators = true →
  ∃ front ps back, (Outline.shapesAll parts ks).1 = front ++ (ps.flatMap Part.shapes ++ back)
    ∧ Declaring kind front ps back

/-! ## with a type -/

/-- a type, and a name behind it -/
def typeAndName : Rule := .seq typeRef declaratorName

theorem reached_none (place : Rule.Place) (s : List Cue) : Reached place marks 0 none s :=
  ⟨Nat.le_refl 0, fun _ _ => rfl, by simp [marks, goesOn, isMark]⟩

theorem forms_typeAndName (place : Rule.Place) (hl : typeAndName.Ends b s) : ∃ type ps t,
    Forms b typeAndName s ([.node .typeRef type] ++ ps.flatMap Part.shapes) t ∧ Part.Path place none ps
      ∧ Reached place names 2 (last none ps) t := by
  obtain ⟨type, t, htype⟩ := forms_node (b := b) .typeRef _ s
  obtain ⟨ps, u, hname, hpath, hreached⟩ := declaratorName_takesParts (reached_none place t) (htype.ends hl)
  exact ⟨type, ps, u, htype.seq hname, hpath, hreached⟩

/-- Nothing is skipped before something else. -/
theorem not_isRest_of_path {ps : List Part} {p? : Option Part} (h : Part.Path place p? ps)
    (hstage : Part.stage (last p? ps) ≤ 5) : ∀ p ∈ ps, p.isRest = false := by
  induction ps generalizing p? with
  | nil => exact nofun
  | cons q qs ih =>
    refine List.forall_mem_cons.mpr ⟨?_, ih h.2 hstage⟩
    cases qs with
    | nil =>
      cases q with
      | rest k ks => exact absurd hstage (by simp [last, Part.stage])
      | _ => rfl
    | cons r rs => exact h.2.1.more q rfl

/-- the parameters and the rest of a function -/
def signature : Rule := .seq parameterList functionRest

theorem forms_signature (b : Nat) (s : List Cue) : ∃ params rest t,
    Forms b signature s (.node .parameterList params :: rest) t := by
  obtain ⟨params, t, hparams⟩ := forms_node (b := b) .parameterList _ s
  obtain ⟨rest, u, hrest⟩ := forms_of_stays (b := b) (r := functionRest) rfl t
  exact ⟨params, rest, u, hparams.seq hrest⟩

/-- a `(` starts the parameters of a function, but not in bodies -/
def startsParameters (place : Rule.Place) (s : List Cue) : Bool := place ≠ .body && next .lParen s

theorem declaration_eq : declaration place = .headed typeAndName
    (fun s => if startsParameters place s then .functionDef else place.node)
    (.branch (startsParameters place) signature (declarators place)) := rfl

theorem declaringLaw_of_declaration (h : Makes b (declaration place) s kind parts) :
    declaringLaw kind parts (kindsOf s) := by
  intro _
  have hl := h.lasts
  rw [declaration_eq] at h hl
  cases htest : startsParameters place (typeAndName.perform b (reach grammar b) s).ahead with
  | true =>
    obtain ⟨type, ps, t, hforms, hpath, hreached⟩ := forms_typeAndName .file hl.1
    rw [hforms.eq.2] at htest
    obtain ⟨params, rest, u, hsignature⟩ := forms_signature b t
    obtain ⟨rfl, hshapes⟩ := h.shapes (hforms.headed (hsignature.branch htest))
    rw [if_pos htest]
    refine ⟨_, ps, _, hshapes.trans (List.append_assoc ..), hpath, .inl ⟨type, rfl⟩, ?_⟩
    exact ⟨not_isRest_of_path hpath (hreached.stage.trans (by decide)), params, rest, rfl⟩
  | false =>
    obtain ⟨type, ps, t, hforms, hpath, hreached⟩ := forms_typeAndName place hl.1
    have hrest := hl.2
    rw [hforms.eq.2] at htest hrest
    obtain ⟨qs, u, hmore, hpath', -⟩ := declarators_takesParts hreached (hrest.2 htest)
    obtain ⟨rfl, hshapes⟩ := h.shapes (hforms.headed (hmore.otherwise htest))
    rw [if_neg (by rw [htest]; exact Bool.false_ne_true)]
    refine ⟨[.node .typeRef type], ps ++ qs, [], ?_, ?_, .inl ⟨type, rfl⟩, ?_⟩
    · rw [hshapes, List.flatMap_append, List.append_nil, List.append_assoc]
    · rw [NodeKind.place_node]
      exact hpath.append hpath'
    · cases place <;> rfl

theorem declaringLaw_of_condition
    (h : Makes b (.node .declStmt (inOrder [typeRef, declaratorName, declaratorSuffix .body])) s kind parts) :
    declaringLaw kind parts (kindsOf s) := by
  intro _
  obtain ⟨htype, hrest⟩ : (Rule.seq typeRef (.seq declaratorName (declaratorSuffix .body))).Ends b s := h.lasts
  obtain ⟨type, t, hforms⟩ := forms_node (b := b) .typeRef _ s
  obtain ⟨ps, u, hmore, hpath, -⟩ := (declaratorName_takesParts (reached_none .body t)
      (hforms.ends ⟨htype, hrest⟩).1).seq
    (fun _ _ hreached hl => declaratorSuffix_takesParts (hreached.weaken (Nat.le_succ 2)) hl)
    (hforms.ends ⟨htype, hrest⟩)
  obtain ⟨rfl, hshapes⟩ := h.shapes ((hforms.seq hmore).node .declStmt)
  exact ⟨[.node .typeRef type], ps, [], by rw [hshapes, List.append_nil], hpath, .inl ⟨type, rfl⟩, rfl⟩

/-! ## without a type -/

/-- the words of a name -/
def nameWords : List TokenKind := [.ident, .doubleColon, .tilde]

/-- Words of a name come next, and then a `(`. -/
def WordsAhead (s : List Cue) : Prop :=
  ∃ words c rest, s = words ++ c :: rest ∧ (∀ d ∈ words, d.kind ∈ nameWords) ∧ c.kind = .lParen

theorem WordsAhead.cons {c : Cue} (hc : c.kind ∈ nameWords) (h : WordsAhead s) : WordsAhead (c :: s) := by
  obtain ⟨words, d, rest, rfl, hwords, hd⟩ := h
  exact ⟨c :: words, d, rest, rfl, List.forall_mem_cons.mpr ⟨hc, hwords⟩, hd⟩

theorem wordsAhead_paren {c : Cue} (hc : c.kind = .lParen) : WordsAhead (c :: s) :=
  ⟨[], c, s, rfl, nofun, hc⟩

theorem wordsAhead_of_qualifiers {qualified : Bool} (h : qualifiersThenParen qualified s = true) :
    WordsAhead s := by
  fun_induction qualifiersThenParen qualified s with
  | case1 => cases h
  | case2 => cases h
  | case3 qualified c hc d rest hd ih =>
    exact .cons (by simp [nameWords, hc]) (.cons (by simp [nameWords, hd]) (ih h))
  | case4 qualified c hc d _ hd e rest ih =>
    obtain ⟨he, h⟩ := Bool.and_eq_true_iff.mp h
    exact .cons (by simp [nameWords, hc]) (.cons (by simp [nameWords, hd])
      (.cons (by simp [nameWords, of_decide_eq_true he]) (ih h)))
  | case5 => cases h
  | case6 => cases h
  | case7 qualified c rest => exact wordsAhead_paren (of_decide_eq_true (Bool.and_eq_true_iff.mp h).2)

theorem wordsAhead_of_next (hi : next .ident s = true) (h : WordsAhead (s.drop 1)) : WordsAhead s := by
  obtain ⟨c, s, rfl, hc⟩ := cons_of_next hi
  exact .cons (by rw [hc]; decide) h

theorem wordsAhead_of_second (hi : next .ident s = true) (hp : secondIs (· = .lParen) s = true) :
    WordsAhead s := by
  refine wordsAhead_of_next hi ?_
  match s, hp with
  | _ :: c :: s, hp => exact wordsAhead_paren (of_decide_eq_true hp)

theorem wordsAhead_of_tilde (hi : next .ident (if next .tilde s then s.drop 1 else s) = true)
    (hp : secondIs (· = .lParen) (if next .tilde s then s.drop 1 else s) = true) : WordsAhead s := by
  split at hi
  · next ht =>
    rw [if_pos ht] at hp
    obtain ⟨c, s, rfl, hc⟩ := cons_of_next ht
    exact .cons (by rw [hc]; decide) (wordsAhead_of_second hi hp)
  · next ht =>
    rw [if_neg ht] at hp
    exact wordsAhead_of_second hi hp

/-- Where a function without a type is seen ahead, there are words before its name, and then that name. -/
theorem words_of_constructor (h : startsConstructor s = true ∨ startsQualifiedConstructor s = true) :
    ∃ front t, s = front ++ t ∧ (∀ d ∈ front, d.kind ∈ specifiers) ∧ WordsAhead t := by
  have split (ws : List TokenKind) (hws : ∀ k ∈ ws, k ∈ specifiers)
      (ht : WordsAhead (s.dropWhile fun c => ws.contains c.kind)) :
      ∃ front t, s = front ++ t ∧ (∀ d ∈ front, d.kind ∈ specifiers) ∧ WordsAhead t :=
    ⟨_, _, List.takeWhile_append_dropWhile.symm,
      fun d hd => hws d.kind (by simpa using List.mem_takeWhile_imp hd), ht⟩
  rcases h with h | h
  · refine split specifiers (fun _ hk => hk) ?_
    obtain ⟨hi, hparen⟩ := Bool.and_eq_true_iff.mp h
    exact wordsAhead_of_tilde hi hparen
  · refine split [.kwInline, .kwConstexpr] (by decide) ?_
    obtain ⟨hi, hmore⟩ := Bool.and_eq_true_iff.mp h
    exact wordsAhead_of_next hi (wordsAhead_of_qualifiers hmore)

/-- Words follow each other in a name. -/
theorem path_words {ks : List TokenKind} (h : ∀ k ∈ ks, k ∈ nameWords)
    (hp : p? = none ∨ ∃ k, p? = some (.word k)) : Part.Path place p? (ks.map .word) := by
  induction ks generalizing p? with
  | nil => trivial
  | cons k ks ih =>
    obtain ⟨hk, hks⟩ := List.forall_mem_cons.mp h
    refine ⟨⟨hk, ?_, ?_, ?_⟩, ih hks (.inr ⟨k, rfl⟩)⟩
    · rintro p rfl
      obtain ⟨j, hj⟩ := hp.resolve_left (Option.some_ne_none p)
      cases hj
      rfl
    · have hstage : Part.stage p? ≤ 1 := by rcases hp with rfl | ⟨j, rfl⟩ <;> simp [Part.stage]
      simp only [nameWords, List.mem_cons, List.not_mem_nil, or_false] at hk
      rcases hk with rfl | rfl | rfl <;> simp [isRest, head, goesOn, hstage]
    · rcases hp with rfl | ⟨j, rfl⟩ <;> rfl

theorem flatMap_words (ks : List TokenKind) : (ks.map Part.word).flatMap Part.shapes = row ks := by
  induction ks with
  | nil => rfl
  | cons k ks ih => rw [List.map_cons, List.flatMap_cons, ih]; rfl

theorem declaringLaw_of_constructor (h : Makes b constructor s kind parts)
    (hs : startsConstructor s = true ∨ startsQualifiedConstructor s = true) :
    declaringLaw kind parts (kindsOf s) := by
  intro _
  obtain ⟨front, t, rfl, hfront, words, c, rest, rfl, hwords, hc⟩ := words_of_constructor hs
  have hl : (Rule.seq (skipTo [.lParen]) signature).Ends b (front ++ (words ++ c :: rest)) := h.lasts
  -- the `(` that is seen ahead is the first one
  have htaken : (front ++ (words ++ c :: rest)).takeWhile (fun c => !([TokenKind.lParen].contains c.kind))
      = front ++ words := by
    have hopen : ∀ d ∈ front ++ words, (!([TokenKind.lParen].contains d.kind)) = true := by
      have hall : ∀ k ∈ specifiers ++ nameWords, (!([TokenKind.lParen].contains k)) = true := by decide
      exact fun d hd => hall d.kind (List.mem_append.mpr ((List.mem_append.mp hd).imp (hfront d) (hwords d)))
    rw [← List.append_assoc, List.takeWhile_append_of_pos hopen,
      List.takeWhile_cons_of_neg (by simp [hc]), List.append_nil]
  have hskip := forms_skipTo hl.1
  rw [htaken] at hskip
  obtain ⟨params, more, u, hsignature⟩ := forms_signature b _
  obtain ⟨rfl, hshapes⟩ := h.shapes ((hskip.seq hsignature).node .functionDef)
  refine ⟨row (kindsOf front), (kindsOf words).map .word, .node .parameterList params :: more, ?_,
    path_words ?_ (.inl rfl), .inr ⟨rfl, kindsOf front, rfl, ?_⟩, ?_, params, more, rfl⟩
  · rw [hshapes, flatMap_words, kindsOf, List.map_append, Tree.Shape.row_append, List.append_assoc]
    rfl
  · simpa [kindsOf] using hwords
  · simpa [kindsOf] using hfront
  · intro p hp
    obtain ⟨k, -, rfl⟩ := List.mem_map.mp hp
    rfl

/-! ## the law -/

theorem declaringLaw_of_makes {r : Rule} (h : Makes b r s kind parts) : declaringLaw kind parts (kindsOf s) := by
  have other (hk : kind.hasDeclarators = false) : declaringLaw kind parts (kindsOf s) :=
    fun hd => absurd (hk.symm.trans hd) Bool.false_ne_true
  cases h.site with
  | declaration place => exact declaringLaw_of_declaration h
  | declared => exact declaringLaw_of_condition h
  | constructor hs => exact declaringLaw_of_constructor h hs
  | directive => exact other (by rcases h.kind_of_directive with rfl | rfl | rfl <;> rfl)
  | recordDef => exact other (by rcases h.kind_of_recordDef with rfl | rfl <;> rfl)
  | _ => exact other (by rw [h.node_eq.1]; rfl)

end Rule

/-- All nodes of a text that declare names are made of declarators. -/
theorem declaringLaw_outline (cs : List Cue) : Outline.Obey Rule.declaringLaw (outline cs) (kindsOf cs) := by
  refine outline_obey_of_sites (fun kind parts ks hk hd => ?_)
    (fun _ _ _ _ _ h => Rule.declaringLaw_of_makes h) cs
  cases kind <;> first | exact absurd hd Bool.false_ne_true | exact absurd hk Bool.false_ne_true

end CppMend
