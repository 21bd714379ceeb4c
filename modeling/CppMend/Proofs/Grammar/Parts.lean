import CppMend.Proofs.Grammar.Forms

/-!
# The parts of declarators

After its type, a declaration is a row of parts: the words and argument lists of a name, the extents of an
array, a width, an initial value, the marks before the next name, and at the end whatever is skipped up to a
`;`. What a part may be depends on the one before it, and where a part begins and ends shows in the tokens.
So there is one way only to take a declaration apart.

* `Bracket.IsGroup`     a group in brackets, shut or broken off;
* `Part`, `Part.Ok`     the parts, and what they are made of;
* `Follows`, `Path`     what may follow what, in a declaration at some place;
* `Path.unique`         a row of tokens and nodes is such a path in one way.
-/

namespace CppMend

open Lookahead (Bracket next)
open Tree.Shape (row)

/-! ## groups -/

namespace Lookahead.Bracket

variable {b : Bracket} {depth n : Nat} {k : TokenKind} {ks ls xs ys : List TokenKind}

/-- The number of levels that are open after some tokens, where `depth` were open before. There is none if
all are closed before the last token, or if a mark is there that ends the group. -/
def level? (b : Bracket) : Nat → List TokenKind → Option Nat
  | depth, [] => some depth
  | depth, k :: ks =>
    if k = b.opening then b.level? (depth + 1) ks
    else if b.closes k = 0 ∧ b.stops k then none
    else if depth - b.closes k = 0 then if ks = [] then some 0 else none
    else b.level? (depth - b.closes k) ks

/-- a group: it goes on to its last token -/
def IsGroup (b : Bracket) (ks : List TokenKind) : Prop :=
  ks.head? = some b.opening ∧ (b.level? 0 ks).isSome = true

/-- all brackets are closed -/
def isShut (b : Bracket) (ks : List TokenKind) : Bool :=
  ks.head? = some b.opening && b.level? 0 ks = some 0

/-- A group that is closed, or that is not and has one of the marks behind it that it stops at. -/
def endsBefore (b : Bracket) (ks : List TokenKind) (k : TokenKind) : Bool :=
  b.isShut ks || b.stops k

theorem not_opening_of_stops (h : b.stops k = true) : k ≠ b.opening ∧ b.closes k = 0 := by
  cases b <;> cases k <;> first | exact absurd h (by decide) | decide

theorem level?_append_open (h : b.level? depth ks = some (n + 1)) :
    b.level? depth (ks ++ ls) = b.level? (n + 1) ls := by
  induction ks generalizing depth with
  | nil =>
    obtain rfl : depth = n + 1 := Option.some.inj h
    rfl
  | cons k ks ih =>
    rw [level?] at h
    rw [List.cons_append, level?]
    split_ifs at h ⊢ with h1 h2 h3 h4 <;> first | exact ih h | simp at h

theorem ne_nil_of_level? (h : b.level? depth ks = some 0) (hd : depth ≠ 0) : ks ≠ [] := by
  rintro rfl
  exact hd (Option.some.inj h)

theorem level?_append_shut (h : b.level? depth ks = some 0) (hks : ks ≠ []) (hls : ls ≠ []) :
    b.level? depth (ks ++ ls) = none := by
  induction ks generalizing depth with
  | nil => exact absurd rfl hks
  | cons k ks ih =>
    rw [level?] at h
    rw [List.cons_append, level?]
    split_ifs at h ⊢ with hopen hstop hlast hend
    · exact ih h (ne_nil_of_level? h (Nat.succ_ne_zero _))
    · exact absurd (List.append_eq_nil_iff.mp hend).2 hls
    · rfl
    · exact ih h (ne_nil_of_level? h hlast)

theorem level?_of_stops (h : b.stops k = true) : b.level? depth (k :: ks) = none := by
  rw [level?, if_neg (not_opening_of_stops h).1, if_pos ⟨(not_opening_of_stops h).2, h⟩]

/-- A group that ends before a token does not go on with it. -/
theorem not_isGroup_append (h : b.IsGroup ks) (hk : b.endsBefore ks k = true) :
    ¬b.IsGroup (ks ++ k :: ls) := by
  intro hlong
  obtain ⟨n, hn⟩ := Option.isSome_iff_exists.mp h.2
  have hnone : b.level? 0 (ks ++ k :: ls) = none := by
    have hne : ks ≠ [] := fun he => by
      have hhead := h.1
      rw [he] at hhead
      cases hhead
    cases n with
    | zero => exact level?_append_shut hn hne (List.cons_ne_nil _ _)
    | succ n =>
      rw [level?_append_open hn]
      refine level?_of_stops ((Bool.or_eq_true _ _ ▸ hk).resolve_left ?_)
      simp [isShut, hn]
  have hsome := hlong.2
  rw [hnone] at hsome
  cases hsome

theorem spanFrom_level? {s : List Cue} (h : 0 < depth ∨ next b.opening s = true) :
    ∃ n, b.level? depth (kindsOf (s.take (b.spanFrom depth s))) = some n
      ∧ (n = 0 ∨ ∀ c ∈ (s.drop (b.spanFrom depth s)).head?, b.stops c.kind = true) := by
  induction s generalizing depth with
  | nil => exact ⟨depth, rfl, .inr nofun⟩
  | cons c s ih =>
    rw [spanFrom]
    split_ifs with hopen hstop hlast
    · obtain ⟨n, hn, hends⟩ := ih (.inl (Nat.succ_pos depth))
      exact ⟨n, (if_pos hopen).trans hn, hends⟩
    · exact ⟨depth, rfl, .inr fun d hd => by cases hd; exact hstop.2⟩
    · refine ⟨0, ?_, .inl rfl⟩
      show b.level? depth [c.kind] = some 0
      rw [level?, if_neg hopen, if_neg hstop, if_pos hlast, if_pos rfl]
    · obtain ⟨n, hn, hends⟩ := ih (.inl (Nat.pos_of_ne_zero hlast))
      refine ⟨n, ?_, hends⟩
      show b.level? depth (c.kind :: kindsOf (s.take _)) = some n
      rw [level?, if_neg hopen, if_neg hstop, if_neg hlast, hn]

/-- What is spanned from an opening bracket is a group, and it ends there. -/
theorem span_isGroup {s : List Cue} (h : next b.opening s = true) :
    b.IsGroup (kindsOf (s.take (b.span s)))
      ∧ ∀ c ∈ (s.drop (b.span s)).head?, b.endsBefore (kindsOf (s.take (b.span s))) c.kind = true := by
  obtain ⟨n, hn, hends⟩ := @spanFrom_level? b 0 s (.inr h)
  have hhead : (kindsOf (s.take (b.span s))).head? = some b.opening := by
    cases s with
    | nil => cases h
    | cons c s =>
      have hk : c.kind = b.opening := of_decide_eq_true h
      rw [span, spanFrom, if_pos hk]
      exact congrArg some hk
  refine ⟨⟨hhead, Option.isSome_iff_exists.mpr ⟨n, hn⟩⟩, fun c hc => ?_⟩
  rw [endsBefore, Bool.or_eq_true]
  refine hends.imp (fun h0 => ?_) fun hstops => hstops c hc
  rw [h0] at hn
  rw [isShut, hhead, span, hn]
  simp

end Lookahead.Bracket
/-! ## parts -/

/-- The parts of a declaration behind its type. -/
inductive Part where
  /-- a word of a name, `::` or `~` -/
  | word (k : TokenKind)
  /-- the template arguments of the word before -/
  | arguments (ks : List TokenKind)
  /-- `operator`, and the tokens that name it -/
  | operator (ks : List TokenKind)
  /-- a comma, and the marks of pointers behind it -/
  | mark (k : TokenKind)
  /-- the extent of an array -/
  | extent (ks : List TokenKind)
  /-- `:` and the width of a field, or the range of a loop -/
  | width (value? : Option Tree.Shape)
  /-- an initial value, by its first token and its parts -/
  | value (k : TokenKind) (parts : List Tree.Shape)
  /-- what is skipped -/
  | rest (k : TokenKind) (ks : List TokenKind)

namespace Part

/-- the token that a part starts with -/
def head : Part → TokenKind
  | word k | mark k | value k _ | rest k _ => k
  | arguments _ => .less
  | operator _ => .kwOperator
  | extent _ => .lBracket
  | width _ => .colon

/-- the tokens and nodes of a part -/
def shapes : Part → List Tree.Shape
  | word k | mark k => [.leaf k]
  | arguments ks | operator ks | extent ks => row ks
  | width value? => .leaf .colon :: value?.toList
  | value _ parts => [.node .initializer parts]
  | rest k ks => .leaf k :: row ks

def isRest : Part → Bool
  | rest .. => true
  | _ => false

/-- `operator` and what names it: `()`, or all tokens before a `(` -/
def IsOperatorName (ks : List TokenKind) : Prop :=
  ks = [.kwOperator, .lParen] ∨ ks = [.kwOperator, .lParen, .rParen]
    ∨ ks.head? = some .kwOperator ∧ .lParen ∉ ks

/-- a value that is assigned, or in braces or parentheses -/
def IsValue (k : TokenKind) (parts : List Tree.Shape) : Prop :=
  ∃ ss, k = .equal ∧ parts = .leaf .equal :: ss ∨ k = .lBrace ∧ parts = [.node .initList ss]
    ∨ k = .lParen ∧ parts = [.node .argList ss]

/-- what a part is made of -/
def Ok : Part → Prop
  | word k => k ∈ [.ident, .doubleColon, .tilde]
  | arguments ks => Bracket.angle.IsGroup ks
  | operator ks => IsOperatorName ks
  | mark k => k ∈ [.comma, .star, .amp, .andAnd, .kwConst]
  | extent ks => Bracket.square.IsGroup ks
  | width value? => ∀ e ∈ value?, e.IsExpression
  | value k parts => IsValue k parts
  | rest .. => True

/-! ## the order of parts -/

/-- How far a declarator is. It starts behind the type and behind a comma. -/
def stage : Option Part → Nat
  | none | some (mark _) => 0
  | some (word _) | some (arguments _) => 1
  | some (operator _) => 2
  | some (extent _) => 3
  | some (width _) => 4
  | some (value ..) => 5
  | some (rest ..) => 6

def isMark : Option Part → Bool
  | some (mark _) => true
  | _ => false

def isName : Option Part → Bool
  | some (word k) => k = .ident
  | _ => false

/-- Behind a part, or behind the type, the declarators go on with a token of this kind. -/
def goesOn (place : Rule.Place) (p? : Option Part) : TokenKind → Bool
  | .ident | .doubleColon | .tilde => stage p? ≤ 1
  | .less => isName p?
  | .kwOperator => stage p? = 0
  | .star | .amp | .andAnd | .kwConst => isMark p?
  | .lBracket => stage p? ≤ 3
  | .colon => place = .record && stage p? ≤ 3 || place = .body && stage p? ≤ 5
  | .equal | .lBrace | .lParen => stage p? ≤ 4
  | .comma => stage p? ≤ 5
  | _ => false

theorem goesOn_rest (place : Rule.Place) (j : TokenKind) (ls : List TokenKind) (k : TokenKind) :
    goesOn place (some (rest j ls)) k = false := by
  cases k <;> first | rfl | (cases place <;> rfl)

/-- The part may end before a token of this kind. -/
def endsBefore : Option Part → TokenKind → Bool
  | some (arguments ks), k => Bracket.angle.endsBefore ks k
  | some (extent ks), k => Bracket.square.endsBefore ks k
  | some (operator ks), k =>
    if ks = [.kwOperator, .lParen] then k ≠ .rParen
    else k = .lParen || ks = [.kwOperator, .lParen, .rParen]
  | _, _ => true

/-- The part comes next, behind another one or behind the type. Whatever the declarators do not go on with
is skipped. -/
structure Follows (place : Rule.Place) (p? : Option Part) (q : Part) : Prop where
  ok : q.Ok
  more : ∀ p ∈ p?, p.isRest = false
  skipped : q.isRest = !goesOn place p? q.head
  ends : endsBefore p? q.head = true

/-- some parts that follow each other, behind one or behind the type -/
def Path (place : Rule.Place) : Option Part → List Part → Prop
  | _, [] => True
  | p?, q :: qs => Follows place p? q ∧ Path place (some q) qs

/-- the part behind which some parts end -/
def last : Option Part → List Part → Option Part
  | p?, [] => p?
  | _, q :: qs => last (some q) qs

variable {place : Rule.Place} {p? : Option Part} {p q : Part} {ps qs : List Part}
  {xs ys us vs : List Tree.Shape} {k : TokenKind} {ks ls : List TokenKind}

theorem last_append (p? : Option Part) (ps qs : List Part) : last p? (ps ++ qs) = last (last p? ps) qs := by
  induction ps generalizing p? with
  | nil => rfl
  | cons p ps ih => exact ih (some p)

theorem Path.append (hp : Path place p? ps) (hq : Path place (last p? ps) qs) : Path place p? (ps ++ qs) := by
  induction ps generalizing p? with
  | nil => exact hq
  | cons p ps ih => exact ⟨hp.1, ih hp.2 hq⟩

theorem Path.ok (h : Path place p? ps) : ∀ p ∈ ps, p.Ok := by
  induction ps generalizing p? with
  | nil => exact nofun
  | cons p ps ih => exact List.forall_mem_cons.mpr ⟨h.1.ok, ih h.2⟩

/-- Parameters are no part. -/
theorem Ok.ne_parameters (h : p.Ok) {s : Tree.Shape} (hs : s ∈ p.shapes) (params : List Tree.Shape) :
    s ≠ .node .parameterList params := by
  rintro rfl
  have hrow (ks : List TokenKind) : .node .parameterList params ∉ row ks := by
    intro hm
    obtain ⟨k, -, he⟩ := List.mem_map.mp hm
    cases he
  cases p with
  | word k | mark k => cases List.mem_singleton.mp hs
  | value k parts => cases List.mem_singleton.mp hs
  | arguments ks | operator ks | extent ks => exact hrow ks hs
  | rest k ks => exact hrow (k :: ks) hs
  | width value? =>
    rcases List.mem_cons.mp hs with hs | hs
    · cases hs
    · obtain ⟨kind, parts, he, hk⟩ := h _ (Option.mem_toList.mp hs)
      cases he
      cases hk

/-! ## one way to take it apart -/

/-- what a row of parts stops at: nothing, or parameters -/
def Stops (us : List Tree.Shape) : Prop := ∀ u ∈ us.head?, ∃ parts, u = .node .parameterList parts

/-- what stands behind a part -/
structure Behind (place : Rule.Place) (p : Part) (xs : List Tree.Shape) : Prop where
  leaf : ∀ k ss, xs = .leaf k :: ss → p.isRest = false ∧ endsBefore (some p) k = true
    ∧ (k = .lParen → goesOn place (some p) .lParen = false)
  node : ∀ x ∈ xs.head?, ¬x.IsExpression

theorem exists_of_head? {k : TokenKind} (h : ks.head? = some k) : ∃ ls, ks = k :: ls := by
  cases ks with
  | nil => cases h
  | cons j ls => exact ⟨ls, by rw [Option.some.inj h]⟩

/-- A part starts with its first token, unless it is a value. -/
theorem Ok.shapes_eq (h : q.Ok) : (∃ ss, q.shapes = .leaf q.head :: ss)
    ∨ ∃ k parts, q = .value k parts := by
  cases q with
  | value k parts => exact .inr ⟨k, parts, rfl⟩
  | arguments ks =>
    obtain ⟨ls, rfl⟩ := exists_of_head? (show Bracket.angle.IsGroup ks from h).1
    exact .inl ⟨row ls, rfl⟩
  | extent ks =>
    obtain ⟨ls, rfl⟩ := exists_of_head? (show Bracket.square.IsGroup ks from h).1
    exact .inl ⟨row ls, rfl⟩
  | operator ks =>
    obtain ⟨ls, rfl⟩ : ∃ ls, ks = .kwOperator :: ls := by
      rcases h with rfl | rfl | ⟨h, -⟩
      · exact ⟨_, rfl⟩
      · exact ⟨_, rfl⟩
      · exact exists_of_head? h
    exact .inl ⟨row ls, rfl⟩
  | word k | mark k | width _ | rest k _ => exact .inl ⟨_, rfl⟩

theorem not_isExpression_leaf (k : TokenKind) : ¬(Tree.Shape.leaf k).IsExpression := by
  rintro ⟨_, _, he, -⟩
  cases he

theorem not_isExpression_node {kind : NodeKind} (h : kind.isExpression = false) (parts : List Tree.Shape) :
    ¬(Tree.Shape.node kind parts).IsExpression := by
  rintro ⟨_, _, he, hk⟩
  cases he
  rw [h] at hk
  cases hk

/-- Only a value or something skipped starts with `(`. -/
theorem Ok.of_lParen (h : q.Ok) (hk : q.head = .lParen) : (∃ parts, q = .value .lParen parts)
    ∨ q.isRest = true := by
  cases q with
  | value k parts => exact .inl ⟨parts, by rw [show k = .lParen from hk]⟩
  | rest => exact .inr rfl
  | word k | mark k =>
    rw [head] at hk
    rw [hk] at h
    simp [Ok] at h
  | arguments | operator | extent | width => cases hk

theorem behind_of_path (h : Path place (some p) ps) (hu : Stops us) :
    Behind place p (ps.flatMap shapes ++ us) := by
  cases ps with
  | nil =>
    refine ⟨fun k ss he => ?_, fun x hx => ?_⟩
    · obtain ⟨parts, hp⟩ := hu (.leaf k) (by rw [show us = .leaf k :: ss from he]; rfl)
      cases hp
    · obtain ⟨parts, rfl⟩ := hu x hx
      exact not_isExpression_node rfl parts
  | cons q qs =>
    obtain ⟨hq, -⟩ := h
    have hshapes : (q :: qs).flatMap shapes ++ us = q.shapes ++ (qs.flatMap shapes ++ us) := by
      rw [List.flatMap_cons, List.append_assoc]
    rcases hq.ok.shapes_eq with ⟨ss, hs⟩ | ⟨k, parts, rfl⟩
    · rw [hshapes, hs]
      refine ⟨fun k us he => ?_, fun x hx => ?_⟩
      · obtain ⟨rfl, -⟩ : q.head = k ∧ _ := by simpa using he
        refine ⟨hq.more p rfl, hq.ends, fun hk => ?_⟩
        rcases hq.ok.of_lParen hk with ⟨parts, rfl⟩ | hrest
        · cases hs
        · have hskipped := hq.skipped
          rw [hrest, hk] at hskipped
          simpa using hskipped
      · obtain rfl : .leaf q.head = x := Option.some.inj hx
        exact not_isExpression_leaf _
    · rw [hshapes]
      refine ⟨fun j us he => (by cases he), fun x hx => ?_⟩
      obtain rfl : .node .initializer parts = x := Option.some.inj hx
      exact not_isExpression_node rfl parts

/-- Tokens at the start of a row are known if they cannot be more of their kind. -/
theorem row_unique {P : List TokenKind → Prop} (hks : P ks) (hls : P ls)
    (hx : ∀ k ss, xs = .leaf k :: ss → ∀ js, ¬P (ks ++ k :: js))
    (hy : ∀ k ss, ys = .leaf k :: ss → ∀ js, ¬P (ls ++ k :: js)) (h : row ks ++ xs = row ls ++ ys) :
    ks = ls := by
  have hlonger : ∀ {ks ls : List TokenKind} {xs ys us : List Tree.Shape}, P ls →
      (∀ k ss, xs = .leaf k :: ss → ∀ js, ¬P (ks ++ k :: js)) → row ls = row ks ++ us → xs = us ++ ys →
        ks = ls := by
    intro ks ls xs ys us hls hx hrow hxs
    obtain ⟨is, js, rfl, hi, rfl⟩ := List.map_eq_append_iff.mp hrow
    obtain rfl : is = ks := (List.map_injective_iff.mpr fun _ _ he => by cases he; rfl) hi
    cases js with
    | nil => rw [List.append_nil]
    | cons k js => exact absurd hls (hx k _ hxs js)
  rcases List.append_eq_append_iff.mp h with ⟨us, hrow, hxs⟩ | ⟨us, hrow, hys⟩
  · exact hlonger hls hx hrow hxs
  · exact (hlonger hks hy hrow hys).symm

theorem not_isOperatorName_append (h : IsOperatorName ks) (hk : endsBefore (some (operator ks)) k = true)
    (hparen : k ≠ .lParen) : ¬IsOperatorName (ks ++ k :: ls) := by
  rcases h with rfl | rfl | ⟨hhead, hnot⟩
  · have hk : k ≠ .rParen := by simpa [endsBefore] using hk
    simp [IsOperatorName, hk]
  · simp [IsOperatorName]
  · have hks : ks ≠ [.kwOperator, .lParen] ∧ ks ≠ [.kwOperator, .lParen, .rParen] :=
      ⟨fun he => hnot (by simp [he]), fun he => hnot (by simp [he])⟩
    simp [endsBefore, hks, hparen] at hk

/-- what a part is that is neither skipped nor a value, by its first token -/
def OfHead (q : Part) : TokenKind → Prop
  | .ident | .doubleColon | .tilde => q = .word q.head
  | .less => ∃ ks, q = .arguments ks
  | .kwOperator => ∃ ks, q = .operator ks
  | .comma | .star | .amp | .andAnd | .kwConst => q = .mark q.head
  | .lBracket => ∃ ks, q = .extent ks
  | .colon => ∃ value?, q = .width value?
  | _ => False

theorem Ok.ofHead (h : q.Ok) (hrest : q.isRest = false) (hvalue : ∀ k parts, q ≠ .value k parts) :
    q.OfHead q.head := by
  cases q with
  | word k =>
    simp only [Ok, List.mem_cons, List.not_mem_nil, or_false] at h
    rcases h with rfl | rfl | rfl <;> rfl
  | mark k =>
    simp only [Ok, List.mem_cons, List.not_mem_nil, or_false] at h
    rcases h with rfl | rfl | rfl | rfl | rfl <;> rfl
  | arguments ks | operator ks | extent ks => exact ⟨ks, rfl⟩
  | width value? => exact ⟨value?, rfl⟩
  | value k parts => exact absurd rfl (hvalue k parts)
  | rest => cases hrest

theorem IsValue.unique {j : TokenKind} {parts : List Tree.Shape} (h : IsValue k parts) (h' : IsValue j parts) :
    k = j := by
  obtain ⟨ss, ⟨rfl, rfl⟩ | ⟨rfl, rfl⟩ | ⟨rfl, rfl⟩⟩ := h <;>
    obtain ⟨us, ⟨rfl, he⟩ | ⟨rfl, he⟩ | ⟨rfl, he⟩⟩ := h' <;> first | rfl | cases he

/-- A group in brackets is known, as it ends there. -/
theorem group_unique {b : Bracket} (hks : b.IsGroup ks) (hls : b.IsGroup ls)
    (hx : ∀ k ss, xs = .leaf k :: ss → b.endsBefore ks k = true)
    (hy : ∀ k ss, ys = .leaf k :: ss → b.endsBefore ls k = true) (h : row ks ++ xs = row ls ++ ys) : ks = ls :=
  row_unique hks hls (fun k ss he _ => Bracket.not_isGroup_append hks (hx k ss he))
    (fun k ss he _ => Bracket.not_isGroup_append hls (hy k ss he)) h

theorem operator_unique (hks : IsOperatorName ks) (hls : IsOperatorName ls)
    (hx : Behind place (operator ks) xs) (hy : Behind place (operator ls) ys)
    (h : row ks ++ xs = row ls ++ ys) : ks = ls := by
  have longer {ks : List TokenKind} {xs : List Tree.Shape} (hks : IsOperatorName ks)
      (hx : Behind place (operator ks) xs) (k : TokenKind) (ss : List Tree.Shape)
      (he : xs = .leaf k :: ss) (js : List TokenKind) : ¬IsOperatorName (ks ++ k :: js) :=
    not_isOperatorName_append hks (hx.leaf k ss he).2.1 fun hk =>
      absurd ((hx.leaf k ss he).2.2 hk) (by simp [goesOn, stage])
  exact row_unique hks hls (longer hks hx) (longer hls hy) h

/-- Behind what is skipped, there is no token. -/
theorem rest_unique {j : TokenKind} (hx : Behind place (rest j ks) xs) (hy : Behind place (rest k ls) ys)
    (h : row ks ++ xs = row ls ++ ys) : ks = ls := by
  have longer {j : TokenKind} {ks : List TokenKind} {xs : List Tree.Shape} (hx : Behind place (rest j ks) xs)
      (k : TokenKind) (ss : List Tree.Shape) (he : xs = .leaf k :: ss) (_ : List TokenKind) : ¬True :=
    absurd (hx.leaf k ss he).1 Bool.noConfusion
  exact row_unique (P := fun _ => True) trivial trivial (longer hx) (longer hy) h

/-- Behind a `:`, there is an expression or none. -/
theorem width_unique {d? e? : Option Tree.Shape} (hd : (width d?).Ok) (he : (width e?).Ok)
    (hx : Behind place (width d?) xs) (hy : Behind place (width e?) ys)
    (h : d?.toList ++ xs = e?.toList ++ ys) : d? = e? := by
  cases d? with
  | none =>
    cases e? with
    | none => rfl
    | some e => exact absurd (he e rfl) (hx.node e (by rw [show xs = e :: ys from h]; rfl))
  | some d =>
    cases e? with
    | none => exact absurd (hd d rfl) (hy.node d (by rw [show ys = d :: xs from h.symm]; rfl))
    | some e => rw [(List.cons.inj h).1]

/-- Parts that start with the same token, and are both skipped or both not, are known from what they are
made of. -/
theorem eq_of_head (hp : p.Ok) (hq : q.Ok) (hhead : p.head = q.head) (hsame : p.isRest = q.isRest)
    (hp' : ∀ k parts, p ≠ .value k parts) (hq' : ∀ k parts, q ≠ .value k parts)
    (h : p.shapes ++ xs = q.shapes ++ ys) (hx : Behind place p xs) (hy : Behind place q ys) : p = q := by
  have hqof (hrest : p.isRest = false) : q.OfHead p.head := hhead ▸ hq.ofHead (hsame ▸ hrest) hq'
  cases p with
  | word k =>
    have hk : k ∈ [.ident, .doubleColon, .tilde] := hp
    simp only [List.mem_cons, List.not_mem_nil, or_false] at hk
    have hword : q = .word q.head := by rcases hk with rfl | rfl | rfl <;> exact hqof rfl
    rw [hword, ← hhead, head]
  | mark k =>
    have hk : k ∈ [.comma, .star, .amp, .andAnd, .kwConst] := hp
    simp only [List.mem_cons, List.not_mem_nil, or_false] at hk
    have hmark : q = .mark q.head := by rcases hk with rfl | rfl | rfl | rfl | rfl <;> exact hqof rfl
    rw [hmark, ← hhead, head]
  | arguments ks =>
    obtain ⟨ls, rfl⟩ := hqof rfl
    rw [group_unique hp hq (fun k ss he => (hx.leaf k ss he).2.1) (fun k ss he => (hy.leaf k ss he).2.1) h]
  | extent ks =>
    obtain ⟨ls, rfl⟩ := hqof rfl
    rw [group_unique hp hq (fun k ss he => (hx.leaf k ss he).2.1) (fun k ss he => (hy.leaf k ss he).2.1) h]
  | operator ks =>
    obtain ⟨ls, rfl⟩ := hqof rfl
    rw [operator_unique hp hq hx hy h]
  | width d? =>
    obtain ⟨e?, rfl⟩ := hqof rfl
    rw [width_unique hp hq hx hy (by simpa [shapes] using h)]
  | value k parts => exact absurd rfl (hp' k parts)
  | rest k ks =>
    cases q with
    | rest j ls =>
      obtain rfl : k = j := hhead
      rw [rest_unique hx hy (by simpa [shapes] using h)]
    | _ => cases hsame

/-- The first part is known from the tokens and nodes. -/
theorem Follows.unique (hp : Follows place p? p) (hq : Follows place p? q)
    (h : p.shapes ++ xs = q.shapes ++ ys) (hx : Behind place p xs) (hy : Behind place q ys) : p = q := by
  rcases hp.ok.shapes_eq with ⟨ss, hs⟩ | ⟨k, parts, rfl⟩ <;>
    rcases hq.ok.shapes_eq with ⟨us, hu⟩ | ⟨j, others, rfl⟩
  · have hhead : p.head = q.head := by
      rw [hs, hu] at h
      exact Tree.Shape.leaf.inj (List.cons.inj h).1
    have hsame : p.isRest = q.isRest := by rw [hp.skipped, hq.skipped, hhead]
    refine eq_of_head hp.ok hq.ok hhead hsame ?_ ?_ h hx hy
    · rintro k parts rfl
      cases hs
    · rintro k parts rfl
      cases hu
  · rw [hs] at h
    cases h
  · rw [hu] at h
    cases h
  · obtain ⟨rfl, -⟩ : parts = others ∧ _ := by simpa [shapes] using h
    rw [IsValue.unique hp.ok hq.ok]

/-- There is one way only to take a row of tokens and nodes for parts that follow each other. -/
theorem Path.unique (hp : Path place p? ps) (hq : Path place p? qs) (hu : Stops us) (hv : Stops vs)
    (h : ps.flatMap shapes ++ us = qs.flatMap shapes ++ vs) : ps = qs ∧ us = vs := by
  -- what a row stops at starts no part
  have hnone {p? : Option Part} {q : Part} {qs : List Part} {us vs : List Tree.Shape} (hq : Follows place p? q)
      (hu : Stops us) (h : us = (q :: qs).flatMap shapes ++ vs) : False := by
    rcases hq.ok.shapes_eq with ⟨ss, hs⟩ | ⟨k, parts, rfl⟩
    · obtain ⟨parts, he⟩ := hu (.leaf q.head) (by rw [h, List.flatMap_cons, hs]; rfl)
      cases he
    · obtain ⟨others, he⟩ := hu (.node .initializer parts) (by rw [h]; rfl)
      cases he
  induction ps generalizing p? qs with
  | nil =>
    cases qs with
    | nil => exact ⟨rfl, h⟩
    | cons q qs => exact absurd h fun h => hnone hq.1 hu h
  | cons p ps ih =>
    cases qs with
    | nil => exact absurd h fun h => hnone hp.1 hv h.symm
    | cons q qs =>
      rw [List.flatMap_cons, List.flatMap_cons, List.append_assoc, List.append_assoc] at h
      obtain rfl : p = q :=
        hp.1.unique hq.1 h (behind_of_path hp.2 hu) (behind_of_path hq.2 hv)
      obtain ⟨rfl, rfl⟩ := ih hp.2 hq.2 (List.append_cancel_left h)
      exact ⟨rfl, rfl⟩

end Part

end CppMend
