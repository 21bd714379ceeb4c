import CppMend.Proofs.Grammar.Budget
import CppMend.Proofs.Grammar.Gives
import CppMend.Proofs.Grammar.Local
import CppMend.Proofs.Lexical.Closers
import CppMend.Proofs.Lexical.Names
import CppMend.Proofs.Tree.Builder
import CppMend.Proofs.Tree.Shapes

/-!
# Namespaces in namespaces

A text of complete items is read in the same way in the braces of any namespaces. What is in the braces
is a `Body`; a namespace around a body makes another one.

* `IsComplete`              the items of a text in braces end just at the brace behind it;
* `Rule.items_gives`        such items under any budget, and with more closing braces behind them;
* `Namespaces.Header`       what stands between `namespace` and the brace;
* `Namespaces.Body`         what stands in the braces, with the outlines of it;
* `Namespaces.item_gives`   a namespace is one item;
* `Namespaces.outline_block`   a text that is a namespace has one item.
-/

namespace CppMend

open Token

/-! ## complete items -/

/-- the text and the brace that closes it, as they stand behind an opening brace -/
def braced (x : Text) : Text := ' ' :: x ++ [' ', '}']

/-- what the rule of items in braces does with some tokens -/
def itemsOf (ts : List Token) : Outcome :=
  let cs := cuesFrom false ts
  (Rule.items [.rBrace]).perform (budgetFor cs.length) (reach grammar (budgetFor cs.length)) cs

theorem itemsOf_fits (ts : List Token) : (itemsOf ts).Fits (cuesFrom false ts) :=
  (Rule.items [.rBrace]).perform_fits (reach_fits grammar _) _

/-- The text is made of complete items: in braces, its items end at the brace behind it. -/
structure IsComplete (x : Text) : Prop where
  closes : (scan (braced x)).getLast? = some closeBrace
  ends : (itemsOf (scan (braced x))).ahead.length = 1

instance (x : Text) : Decidable (IsComplete x) :=
  decidable_of_iff ((scan (braced x)).getLast? = some closeBrace
    ∧ (itemsOf (scan (braced x))).ahead.length = 1) ⟨fun h => ⟨h.1, h.2⟩, fun h => ⟨h.1, h.2⟩⟩

namespace Rule

variable {b : Nat} {s t : List Cue} {os : List Outline}

/-- Items that end at a last brace do so under any budget, whatever closing braces follow. -/
theorem items_gives {cs ts : List Cue} {c : Cue} (hcs : IsShut cs) (hts : Closers ts)
    (h : (items [.rBrace]).perform (budgetFor cs.length) (reach grammar (budgetFor cs.length)) cs
      = ⟨os, [c], false⟩) (hb : budgetFor cs.length ≤ b) :
    Gives b (items [.rBrace]) (cs ++ ts) os (c :: ts) := by
  have hlarger : (items [.rBrace]).perform b (reach grammar b) cs = ⟨os, [c], false⟩ := by
    rw [← h]
    exact perform_eq_of_lasts (fun _ _ hg => reach_eq_of_lasting hg hb) hb
      (items_lasts (Nat.le_refl _))
  have hlocal : (items [.rBrace]).Local := by simp [items]
  have hahead : ((items [.rBrace]).perform b (reach grammar b) cs).ahead ≠ [] := by
    rw [hlarger]
    exact List.cons_ne_nil _ _
  have hlonger := perform_local hts (reach_local hts b) (reach_fits grammar b) hlocal cs hcs
    hahead
  rw [Gives, hlonger, hlarger]
  rfl

/-- tokens that a test holds of, up to one that it does not hold of -/
theorem gives_while_tokens {test : List Cue → Bool} {words : List Cue}
    (hwords : ∀ c ∈ words, ∀ u, test (c :: u) = true) (hs : test s = false) (hb : words.length < b) :
    Gives b (whileTrue test .token) (words ++ s) (words.map fun _ => .token) s := by
  have hturns : ∀ turns, words.length < turns →
      Action.loop ((Rule.branch test .token .leave).perform b (reach grammar b)) turns (words ++ s)
        = ⟨words.map fun _ => .token, s, false⟩ := by
    induction words with
    | nil =>
      intro turns ht
      obtain ⟨turns, rfl⟩ : ∃ n, turns = n + 1 := ⟨turns - 1, by simp at ht; omega⟩
      have hleaves : Leaves b (.branch test .token .leave) s := .otherwise hs leaves_leave
      rw [List.nil_append, Action.loop, hleaves, if_pos rfl]
      rfl
    | cons c words ih =>
      intro turns ht
      rw [List.length_cons] at ht hb
      obtain ⟨turns, rfl⟩ : ∃ n, turns = n + 1 := ⟨turns - 1, by omega⟩
      have htoken : Gives b (.branch test .token .leave) (c :: (words ++ s)) [.token] (words ++ s) :=
        .branch (hwords c List.mem_cons_self _) gives_token
      have hrest := ih (fun d hd => hwords d (List.mem_cons_of_mem c hd)) (by omega) turns (by omega)
      rw [List.cons_append, Action.loop, htoken, if_neg Bool.false_ne_true]
      show (⟨[.token] ++ (Action.loop _ turns (words ++ s)).built, (Action.loop _ turns (words ++ s)).ahead,
        false⟩ : Outcome) = _
      rw [hrest]
      rfl
  exact hturns b hb

end Rule

/-! ## what follows a body -/

namespace Token

/-- the word that starts a namespace -/
def namespaceWord : Token := ⟨.kwNamespace, "namespace".toList⟩

/-- Only blanks and closing braces are among the tokens. -/
def Closing (us : List Token) : Prop := ∀ u ∈ us, u = blank ∨ u = closeBrace

variable {us : List Token}

theorem Closing.closers (h : Closing us) (fresh : Bool) : Closers (cuesFrom fresh us) := by
  induction us generalizing fresh with
  | nil => exact fun _ hc => absurd hc List.not_mem_nil
  | cons u us ih =>
    have hrest := ih fun v hv => h v (List.mem_cons_of_mem u hv)
    rcases h u List.mem_cons_self with rfl | rfl
    · exact hrest _
    · exact List.forall_mem_cons.mpr ⟨⟨rfl, rfl⟩, hrest _⟩

end Token

/-! ## headers and bodies -/

namespace Namespaces

/-- What stands between `namespace` and the brace: names and `::`, and blanks before them. -/
structure Header where
  tokens : List Token
  words : ∀ t ∈ tokens, t.isTrivia = false → [TokenKind.ident, .doubleColon].contains t.kind = true
  last : ∀ t ∈ tokens.getLast?, t.isTrivia = false

/-- What stands in the braces, without the last one, and how it is grouped wherever only closing braces
follow that one. -/
structure Body where
  tokens : List Token
  outlines : List Outline
  sized : Outline.sizes outlines = Token.significant tokens
  given : ∀ us, Closing us → ∀ b, 2 * Token.significant tokens + 4 ≤ b →
    ∃ c : Cue, c.kind = .rBrace ∧ Rule.Gives b (Rule.items [.rBrace])
      (cuesFrom false (tokens ++ closeBrace :: us)) outlines (c :: cuesFrom false us)

/-- the tokens of a namespace -/
def block (h : Header) (b : Body) : List Token :=
  namespaceWord :: h.tokens ++ blank :: openBrace :: b.tokens ++ [closeBrace]

/-- how the tokens of the braces are grouped -/
def listOf (b : Body) : Outline := .node .itemList (.token :: b.outlines ++ [.token])

def partsOf (h : Header) (b : Body) : List Outline :=
  .token :: List.replicate (Token.significant h.tokens) .token ++ [listOf b]

/-- how the tokens of a namespace are grouped -/
def outlineOf (h : Header) (b : Body) : Outline := .node .namespaceDef (partsOf h b)

variable (h : Header) (b : Body)

/-- what the grammar sees of a namespace -/
theorem cuesFrom_block (fresh : Bool) (us : List Token) : ∃ c : Cue, c.kind = .lBrace
    ∧ cuesFrom fresh (block h b ++ us) = ⟨.kwNamespace, fresh, .plain⟩
      :: (cuesFrom false h.tokens ++ c :: cuesFrom false (b.tokens ++ closeBrace :: us)) := by
  refine ⟨⟨.lBrace, freshAfter false (h.tokens ++ [blank]), .plain⟩, rfl, ?_⟩
  have htokens : block h b ++ us = namespaceWord :: (h.tokens ++ blank :: openBrace
      :: (b.tokens ++ closeBrace :: us)) := by
    simp [block]
  rw [htokens, cuesFrom, if_neg (by decide), cuesFrom_append, freshAfter_append]
  rfl

theorem significant_block : Token.significant (block h b)
    = Token.significant h.tokens + Token.significant b.tokens + 3 := by
  have hword : namespaceWord.isTrivia = false := rfl
  have hblank : blank.isTrivia = true := rfl
  have hopen : openBrace.isTrivia = false := rfl
  have hclose : closeBrace.isTrivia = false := rfl
  simp [block, Token.significant, hword, hblank, hopen, hclose]
  omega

theorem words_cues (u : List Cue) :
    ∀ c ∈ cuesFrom false h.tokens, Lookahead.nextIn [.ident, .doubleColon] (c :: u) = true := by
  intro c hc
  have hkind : c.kind ∈ Token.kinds h.tokens := by
    rw [← Token.map_kind_cuesFrom false]
    exact List.mem_map_of_mem hc
  obtain ⟨t, ht, htk⟩ := List.mem_map.mp hkind
  obtain ⟨hmem, htrivia⟩ := List.mem_filter.mp ht
  show [TokenKind.ident, .doubleColon].contains c.kind = true
  rw [← htk]
  exact h.words t hmem (by simpa using htrivia)

/-- A namespace takes its block, and no more. -/
theorem namespaceDef_gives {budget : Nat} (fresh : Bool) {us : List Token} (hus : Closing us)
    (hb : 2 * Token.significant (block h b) ≤ budget) :
    Rule.Gives budget Rule.namespaceDef (cuesFrom fresh (block h b ++ us)) [outlineOf h b]
      (cuesFrom false us) := by
  obtain ⟨c, hc, hcues⟩ := cuesFrom_block h b fresh us
  rw [significant_block] at hb
  obtain ⟨d, hd, hitems⟩ := b.given us hus budget (by omega)
  have hlist : Rule.Gives budget Rule.itemList (c :: cuesFrom false (b.tokens ++ closeBrace :: us))
      [.node .itemList ([.token] ++ (b.outlines ++ [.token]))] (cuesFrom false us) :=
    .node .itemList (.seq Rule.gives_token (.seq hitems (.branch (decide_eq_true hd) Rule.gives_token)))
  have hwords : Rule.Gives budget (Rule.whileTrue (Lookahead.nextIn [.ident, .doubleColon]) .token)
      (cuesFrom false h.tokens ++ c :: cuesFrom false (b.tokens ++ closeBrace :: us))
      ((cuesFrom false h.tokens).map fun _ => .token)
      (c :: cuesFrom false (b.tokens ++ closeBrace :: us)) := by
    refine Rule.gives_while_tokens (fun c hc u => words_cues h u c hc) ?_ ?_
    · rw [Lookahead.nextIn, hc]
      rfl
    · rw [cuesFrom_length]
      omega
  have houtline : outlineOf h b = .node .namespaceDef ([.token]
      ++ (((cuesFrom false h.tokens).map fun _ => .token)
        ++ [.node .itemList ([.token] ++ (b.outlines ++ [.token]))])) := by
    rw [outlineOf, partsOf, List.map_const', cuesFrom_length]
    rfl
  rw [hcues, houtline]
  exact .node .namespaceDef (.seq Rule.gives_token (.seq hwords (.branch (decide_eq_true hc) hlist)))

/-- A namespace is one item. -/
theorem item_gives {budget : Nat} (fresh : Bool) {us : List Token} (hus : Closing us)
    (hb : 2 * Token.significant (block h b) ≤ budget) :
    Rule.Gives budget Rule.item (cuesFrom fresh (block h b ++ us)) [outlineOf h b]
      (cuesFrom false us) := by
  have hdef := namespaceDef_gives h b fresh hus hb
  obtain ⟨c, -, hcues⟩ := cuesFrom_block h b fresh us
  rw [hcues] at hdef ⊢
  -- the word is no `#`, no `;` and not `template`
  exact .otherwise rfl (.otherwise rfl (.otherwise rfl (.branch rfl hdef)))

/-- A namespace is all there is among items that end behind it. -/
theorem items_give_block {budget : Nat} {closers : List TokenKind} (hn : closers.contains .kwNamespace = false)
    (fresh : Bool) {us : List Token} (hus : Closing us)
    (hend : Lookahead.endOr closers (cuesFrom false us) = true)
    (hb : 2 * Token.significant (block h b) + 1 ≤ budget) :
    Rule.Gives budget (Rule.items closers) (cuesFrom fresh (block h b ++ us)) [outlineOf h b]
      (cuesFrom false us) := by
  obtain ⟨budget, rfl⟩ : ∃ n, budget = n + 1 := ⟨budget - 1, by omega⟩
  have hpos : 3 ≤ Token.significant (block h b) := by
    rw [significant_block]
    omega
  have hitem : Rule.Gives (budget + 1) (.goal .item) (cuesFrom fresh (block h b ++ us)) [outlineOf h b]
      (cuesFrom false us) := .goal (item_gives h b fresh hus (by omega))
  obtain ⟨c, -, hcues⟩ := cuesFrom_block h b fresh us
  refine .until_once (by omega) ?_ (.atLeastOne hitem rfl) hend
  rw [hcues]
  exact hn

/-! ## whole texts, and bodies in bodies -/

/-- A text that is a namespace has one item. -/
theorem outline_block : outline (cues (block h b)) = [outlineOf h b, .blank] := by
  have hlen : (cues (block h b)).length = Token.significant (block h b) := cuesFrom_length true _
  have hnil : Closing [] := fun _ hu => absurd hu List.not_mem_nil
  have hitems : Rule.Gives (budgetFor (cues (block h b)).length) (Rule.items []) (cues (block h b))
      [outlineOf h b] [] := by
    have hgives : Rule.Gives (budgetFor (cues (block h b)).length) (Rule.items [])
        (cuesFrom true (block h b ++ [])) [outlineOf h b] (cuesFrom false []) :=
      items_give_block h b rfl true hnil rfl (by rw [hlen, budgetFor]; omega)
    rw [List.append_nil] at hgives
    exact hgives
  exact congrArg Outcome.built (hitems.seq Rule.gives_blank)

theorem size_outlineOf : (outlineOf h b).size = Token.significant (block h b) := by
  rw [significant_block, outlineOf, Outline.size_node, partsOf, List.cons_append, Outline.sizes_cons,
    Outline.sizes_append, Outline.sizes_replicate, Outline.sizes_singleton, listOf, Outline.size_node,
    List.cons_append, Outline.sizes_cons, Outline.sizes_append, b.sized]
  show 1 + (_ + (1 + (_ + 1))) = _
  omega

theorem significant_around :
    Token.significant (blank :: block h b ++ [blank]) = Token.significant (block h b) := by
  have hblank : Token.significant [blank] = 0 := rfl
  rw [← List.singleton_append, List.append_assoc, Token.significant_append, Token.significant_append,
    hblank, Nat.zero_add, Nat.add_zero]

/-- the body of a namespace that has nothing but another one in it -/
def Header.around (h : Header) (b : Body) : Body where
  tokens := blank :: block h b ++ [blank]
  outlines := [outlineOf h b]
  sized := by rw [Outline.sizes_singleton, size_outlineOf, significant_around]
  given := by
    intro us hus budget hb
    rw [significant_around] at hb
    have hclosing : Closing (blank :: closeBrace :: us) :=
      List.forall_mem_cons.mpr ⟨.inl rfl, List.forall_mem_cons.mpr ⟨.inr rfl, hus⟩⟩
    have hcues : cuesFrom false (blank :: block h b ++ [blank] ++ closeBrace :: us)
        = cuesFrom false (block h b ++ blank :: closeBrace :: us) := by
      rw [List.append_assoc]
      rfl
    refine ⟨⟨.rBrace, false, .plain⟩, rfl, ?_⟩
    rw [hcues]
    exact items_give_block h b rfl false hclosing rfl (by omega)

end Namespaces

namespace IsComplete

variable {x : Text} (hx : IsComplete x)

include hx

theorem tokens_eq : (scan (braced x)).dropLast ++ [closeBrace] = scan (braced x) :=
  List.dropLast_append_getLast? closeBrace hx.closes

/-- what the grammar sees of the text ends with the brace -/
theorem cues_eq : ∃ cs, ∃ c : Cue, c.kind = .rBrace ∧ cuesFrom false (scan (braced x)) = cs ++ [c]
    ∧ cs.length = Token.significant (scan (braced x)).dropLast := by
  refine ⟨cuesFrom false (scan (braced x)).dropLast,
    ⟨.rBrace, freshAfter false (scan (braced x)).dropLast, .plain⟩, rfl, ?_, cuesFrom_length false _⟩
  have happend := cuesFrom_append false (scan (braced x)).dropLast [closeBrace]
  rw [hx.tokens_eq] at happend
  exact happend

theorem significant_eq : Token.significant (scan (braced x))
    = Token.significant (scan (braced x)).dropLast + 1 := by
  have happend := Token.significant_append (scan (braced x)).dropLast [closeBrace]
  rw [hx.tokens_eq] at happend
  exact happend

theorem sizes_built : Outline.sizes (itemsOf (scan (braced x))).built
    = Token.significant (scan (braced x)).dropLast := by
  have hlength := (itemsOf_fits (scan (braced x))).length
  rw [hx.ends, cuesFrom_length, hx.significant_eq] at hlength
  omega

/-- The items of the text leave the brace behind it. -/
theorem outcome : ∃ c : Cue, c.kind = .rBrace
    ∧ itemsOf (scan (braced x)) = ⟨(itemsOf (scan (braced x))).built, [c], false⟩ := by
  obtain ⟨cs, c, hc, hcues, hlen⟩ := hx.cues_eq
  have hahead : (itemsOf (scan (braced x))).ahead = [c] := by
    rw [(itemsOf_fits _).rest, hcues, hx.sizes_built, ← hlen, List.drop_left]
  have hleaving : (itemsOf (scan (braced x))).leaving = false := Rule.items_leaving _ _
  refine ⟨c, hc, ?_⟩
  rw [← hahead, ← hleaving]

end IsComplete

namespace Namespaces

/-- the body that complete items make -/
def bodyOf {x : Text} (hx : IsComplete x) : Body where
  tokens := (scan (braced x)).dropLast
  outlines := (itemsOf (scan (braced x))).built
  sized := hx.sizes_built
  given := by
    intro us hus budget hb
    obtain ⟨cs, d, hd, hcues, -⟩ := hx.cues_eq
    obtain ⟨c, hc, houtcome⟩ := hx.outcome
    have hshut : IsShut (cuesFrom false (scan (braced x))) := by
      rw [hcues]
      exact ⟨d, List.getLast?_concat, hd⟩
    have hlonger : cuesFrom false ((scan (braced x)).dropLast ++ closeBrace :: us)
        = cuesFrom false (scan (braced x)) ++ cuesFrom false us := by
      rw [← hx.tokens_eq, cuesFrom_append, cuesFrom_append, List.append_assoc, hx.tokens_eq]
      rfl
    have hbudget : budgetFor (cuesFrom false (scan (braced x))).length ≤ budget := by
      rw [cuesFrom_length, hx.significant_eq, budgetFor]
      omega
    refine ⟨c, hc, ?_⟩
    rw [hlonger]
    exact Rule.items_gives hshut (hus.closers false) houtcome hbudget

end Namespaces

end CppMend
