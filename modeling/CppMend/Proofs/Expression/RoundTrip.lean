import CppMend.Proofs.Expression.Grouping
import CppMend.Proofs.Grammar.Budget
import CppMend.Proofs.Parsed.Lossless

/-!
# Parsing undoes writing

A variable with an expression as its initial value is parsed into that expression: all tokens of the
text are those that were written, and they are grouped as the expression says.

* `Expr.scan_source`      the tokens of the text;
* `Expr.outline_source`   how the grammar groups them;
* `parse_written`         the tree of the text.
-/

namespace CppMend

open Rule Lookahead

namespace Expr

/-! ## the tokens of the text -/

/-- what stands before the expression -/
def declared : List Token := [.ofKind .kwInt, ⟨.ident, ['v']⟩, .ofKind .equal]

theorem isPlain_declared : ∀ t ∈ declared, t.IsPlain := by
  have hall : declared.all
      (fun t => t.cutsPlainly (TokenClass.afterText TokenClass.all t.text)) = true := by
    decide
  exact fun t ht => Token.isPlain_of_cutsPlainly (List.all_eq_true.mp hall t ht)

theorem isPlain_line (e : Expr) : ∀ t ∈ declared ++ e.tokens, t.IsPlain :=
  List.forall_mem_append.mpr ⟨isPlain_declared, isPlain_of_mem_tokens⟩

theorem line_declared {ts : List Token} (hts : ts ≠ []) :
    Token.line (declared ++ ts) = "int v = ".toList ++ Token.line ts := by
  have hint : (Token.ofKind .kwInt).text = "int".toList := rfl
  have hequal : (Token.ofKind .equal).text = "=".toList := rfl
  have hwords : "int v = ".toList = "int".toList ++ ' ' :: (['v'] ++ ' ' :: ("=".toList ++ [' '])) := by
    decide
  have happend : declared ++ ts = .ofKind .kwInt :: ⟨.ident, ['v']⟩ :: .ofKind .equal :: ts := rfl
  rw [happend, Token.line_cons _ (List.cons_ne_nil _ _), Token.line_cons _ (List.cons_ne_nil _ _),
    Token.line_cons _ hts, hint, hequal, hwords]
  simp only [List.append_assoc, List.cons_append, List.nil_append]

theorem source_eq (e : Expr) :
    e.source = Token.line (declared ++ e.guarded.tokens) ++ [';'] := by
  rw [line_declared e.guarded.tokens_ne_nil]
  rfl

theorem scan_source (e : Expr) : scan e.source
    = (declared ++ e.guarded.tokens).intersperse Token.blank ++ [.ofKind .semicolon] := by
  have hlast : scan [';'] = [.ofKind .semicolon] := by decide +kernel
  rw [source_eq, Token.scan_line e.guarded.isPlain_line (by simp [declared]), hlast]

/-- what the grammar sees of the text -/
def sourceCues (e : Expr) : List Cue :=
  ⟨.kwInt, true, .plain⟩ :: ⟨.ident, false, .plain⟩ :: ⟨.equal, false, .plain⟩
    :: (e.cues ++ [⟨.semicolon, false, .plain⟩])

theorem cues_source (e : Expr) : CppMend.cues (scan e.source) = e.guarded.sourceCues := by
  have hp : ∀ t ∈ declared.tail ++ e.guarded.tokens, t.IsPlain :=
    fun t ht => e.guarded.isPlain_line t (List.mem_cons_of_mem _ ht)
  have hrest := Token.cuesFrom_line hp [.ofKind .semicolon]
  rw [scan_source]
  -- the first token starts the line of all the others
  show ⟨.kwInt, true, .plain⟩
    :: cuesFrom false ((declared.tail ++ e.guarded.tokens).intersperse Token.blank ++ _) = _
  rw [hrest, sourceCues]
  show _ :: List.map Token.plainCue (_ :: _ :: e.guarded.tokens) ++ [_] = _
  rfl

/-! ## grouping -/

/-- the type and the name before the `=` -/
theorem gives_typeRef {b : Nat} (hb : 1 < b) (s : List Cue) :
    Gives b typeRef (⟨.kwInt, true, .plain⟩ :: ⟨.ident, false, .plain⟩ :: s)
      [.node .typeRef [.token]] (⟨.ident, false, .plain⟩ :: s) := by
  have h0 : 0 < b := by omega
  exact .node _ ((gives_while_none h0 rfl).seq
    ((Gives.branch rfl (gives_token.while_once hb rfl rfl)).seq (gives_while_none h0 rfl)))

theorem gives_declaratorName {b : Nat} (hb : 1 < b) (s : List Cue) :
    Gives b declaratorName (⟨.ident, false, .plain⟩ :: ⟨.equal, false, .plain⟩ :: s)
      [.token] (⟨.equal, false, .plain⟩ :: s) :=
  .otherwise rfl (.loop_once hb (.otherwise rfl (.branch rfl gives_token))
    (.otherwise rfl (.otherwise rfl leaves_leave)))

/-- the initial value and the `;` after it -/
theorem gives_declarators {e : Expr} (he : e.Groups) {b : Nat} (hb : 2 * e.tokens.length + 2 ≤ b) :
    Gives b (declarators .file)
      (⟨.equal, false, .plain⟩ :: (e.cues ++ [⟨.semicolon, false, .plain⟩]))
      [.node .initializer [.token, e.outline], .token] [] := by
  have h0 : 0 < b := by omega
  have hstop : Stops 0 [⟨.semicolon, false, .plain⟩] := stops_of_plain (by decide) 0
  have hvalue : Gives b assignedValue
      (⟨.equal, false, .plain⟩ :: (e.cues ++ [⟨.semicolon, false, .plain⟩]))
      [.node .initializer [.token, e.outline]] [⟨.semicolon, false, .plain⟩] :=
    .node _ (gives_token.seq (he.goal (Nat.zero_le _) (Nat.zero_le _) hstop (by omega)))
  have hsuffix : Gives b (declaratorSuffix .file)
      (⟨.equal, false, .plain⟩ :: (e.cues ++ [⟨.semicolon, false, .plain⟩]))
      [.node .initializer [.token, e.outline]] [⟨.semicolon, false, .plain⟩] :=
    (gives_while_none h0 rfl).seq ((gives_skip rfl).seq (.branch rfl hvalue))
  have hend : Gives b toSemicolon [⟨.semicolon, false, .plain⟩] [.token] [] :=
    (gives_until_none h0 rfl).seq (.branch rfl gives_token)
  exact hsuffix.seq ((gives_while_none h0 rfl).seq (.otherwise rfl hend))

/-- the variable with its initial value, as the one item of the text -/
theorem gives_item {e : Expr} (he : e.Groups) {b : Nat} (hb : 2 * e.tokens.length + 2 ≤ b) :
    Gives b Rule.item e.sourceCues
      [.node .variableDef [.node .typeRef [.token], .token,
        .node .initializer [.token, e.outline], .token]] [] := by
  have h1 : 1 < b := by omega
  have hdeclaration : Gives b (declaration .file) e.sourceCues
      [.node .variableDef [.node .typeRef [.token], .token,
        .node .initializer [.token, e.outline], .token]] [] :=
    ((gives_typeRef h1 _).seq (gives_declaratorName h1 _)).headed (gives_declarators he hb)
  -- the tests before that of declarations ask for other words
  exact .otherwise rfl (.otherwise rfl (.otherwise rfl (.otherwise rfl (.otherwise rfl
    (.otherwise rfl (.otherwise rfl (.otherwise rfl (.otherwise rfl (.otherwise rfl
    (.branch rfl hdeclaration))))))))))

theorem outline_source {e : Expr} (he : e.Groups) : CppMend.outline e.sourceCues
    = [.node .variableDef [.node .typeRef [.token], .token,
        .node .initializer [.token, e.outline], .token], .blank] := by
  have hlen : e.sourceCues.length = e.tokens.length + 4 := by
    simp [sourceCues, cues]
  have hbudget : budgetFor e.sourceCues.length ≤ 2 * e.tokens.length + 10 := by
    rw [hlen, budgetFor]
    omega
  have hitem := (gives_item he (show _ ≤ 2 * e.tokens.length + 9 by omega)).goal (g := .item)
  have hwhole : Gives (2 * e.tokens.length + 10) wholeText e.sourceCues
      [.node .variableDef [.node .typeRef [.token], .token,
        .node .initializer [.token, e.outline], .token], .blank] [] :=
    ((hitem.atLeastOne rfl).until_once (by omega) rfl rfl).seq gives_blank
  rw [← outlineWithin_eq hbudget]
  exact congrArg Outcome.built hwhole

theorem kinds_sourceCues (e : Expr) : e.sourceCues.map (·.kind)
    = .kwInt :: .ident :: .equal :: (e.kinds ++ [.semicolon]) := by
  have hcues : e.cues.map (·.kind) = e.kinds := List.map_map
  simp only [sourceCues, List.map_cons, List.map_append, hcues, List.map_nil]

/-- the shape of the whole text -/
def sourceShape (e : Expr) : Tree.Shape :=
  .node .root [.node .variableDef [.node .typeRef [.leaf .kwInt], .leaf .ident,
    .node .initializer [.leaf .equal, e.shape], .leaf .semicolon]]

theorem shape_source (e : Expr) : (parse e.source).root.shape = e.guarded.sourceShape := by
  have h := shape_rootOf (scan e.source)
  rw [cues_source, outline_source (groups e.tight_guarded), kinds_sourceCues] at h
  show (rootOf (scan e.source)).shape = _
  rw [h]
  simp [Outline.shapes, Outline.shapesAll, shapes_outline, sourceShape]

theorem tokens_source (e : Expr) : (parse e.source).tokens.map Leaf.token
    = declared ++ e.guarded.tokens ++ [.ofKind .semicolon] := by
  have hleaves : (parse e.source).root.leaves = Leaf.row 0 (scan e.source) :=
    leaves_rootOf (scan e.source)
  show ((parse e.source).root.leaves.filter (!·.isTrivia)).map Leaf.token = _
  rw [hleaves, Leaf.filter_row, scan_source, List.filter_append,
    Token.filter_line e.guarded.isPlain_line]
  rfl

/-! ## what a tree says -/

theorem eq_of_kind {op op' : BinaryOperator} (h : op.kind = op'.kind) : op = op' := by
  have hi := op.infixPower?_eq
  rw [h, op'.infixPower?_eq, Option.some.injEq, Binding.mk.injEq] at hi
  exact BinaryOperator.ext h hi.1.symm

/-- The shape of an expression and its tokens say what it is. -/
theorem eq_of_shape_tokens {e f : Expr} (hs : e.shape = f.shape) (ht : e.tokens = f.tokens) :
    e = f := by
  induction e generalizing f with
  | literal n =>
    cases f with
    | literal n' =>
      rw [Numeral.ext (congrArg Token.text (List.cons.inj ht).1)]
    | _ => cases hs
  | prefixed op e ih =>
    cases f with
    | prefixed op' e' =>
      simp only [shape, Tree.Shape.node.injEq, List.cons.injEq, Tree.Shape.leaf.injEq, true_and,
        and_true] at hs
      rw [PrefixOperator.ext hs.1, ih hs.2 (List.cons.inj ht).2]
    | _ => cases hs
  | binary op l r ihl ihr =>
    cases f with
    | binary op' l' r' =>
      simp only [shape, Tree.Shape.node.injEq, List.cons.injEq, Tree.Shape.leaf.injEq, true_and,
        and_true] at hs
      obtain ⟨hl, hk, hr⟩ := hs
      obtain ⟨hlt, hrt⟩ := List.append_inj ht (length_tokens_eq hl)
      rw [eq_of_kind hk, ihl hl hlt, ihr hr (List.cons.inj hrt).2]
    | _ => cases hs
  | assign op t v iht ihv =>
    cases f with
    | assign op' t' v' =>
      simp only [shape, Tree.Shape.node.injEq, List.cons.injEq, Tree.Shape.leaf.injEq, true_and,
        and_true] at hs
      obtain ⟨hl, hk, hr⟩ := hs
      obtain ⟨hlt, hrt⟩ := List.append_inj ht (length_tokens_eq hl)
      rw [AssignOperator.ext hk, iht hl hlt, ihv hr (List.cons.inj hrt).2]
    | _ => cases hs
  | conditional c y n ihc ihy ihn =>
    cases f with
    | conditional c' y' n' =>
      simp only [shape, Tree.Shape.node.injEq, List.cons.injEq, true_and, and_true] at hs
      obtain ⟨hc, hy, hn⟩ := hs
      obtain ⟨hct, hrest⟩ := List.append_inj ht (length_tokens_eq hc)
      obtain ⟨hyt, hnt⟩ := List.append_inj (List.cons.inj hrest).2 (length_tokens_eq hy)
      rw [ihc hc hct, ihy hy hyt, ihn hn (List.cons.inj hnt).2]
    | _ => cases hs
  | paren e ih =>
    cases f with
    | paren e' =>
      simp only [shape, Tree.Shape.node.injEq, List.cons.injEq, true_and, and_true] at hs
      rw [ih hs (List.append_inj (List.cons.inj ht).2 (length_tokens_eq hs)).1]
    | _ => cases hs

/-- So no two expressions are written in the same way, once their parentheses are put in. -/
theorem guarded_eq_of_source {e f : Expr} (h : e.source = f.source) : e.guarded = f.guarded := by
  have hs : e.guarded.sourceShape = f.guarded.sourceShape := by
    rw [← shape_source, ← shape_source, h]
  have ht := e.tokens_source
  rw [h, f.tokens_source, List.append_assoc, List.append_assoc] at ht
  simp only [sourceShape, Tree.Shape.node.injEq, List.cons.injEq, true_and, and_true] at hs
  exact eq_of_shape_tokens hs (List.append_inj_left' (List.append_cancel_left ht) rfl).symm

end Expr

/-- Parsing undoes writing. Where an expression is written with a blank between each two tokens, and
with parentheses around just those operands that bind too loosely for their place, and is put into a
text as the initial value of a variable, the tree of the text has the expression as that value, with
the operators, the parentheses and the numbers that were written, and nothing else. Parentheses are
put in only where some are missing, and no other expression is written in the same way. -/
theorem parse_written (e : Expr) :
    (parse e.source).root.shape
        = .node .root [.node .variableDef [.node .typeRef [.leaf .kwInt], .leaf .ident,
            .node .initializer [.leaf .equal, e.guarded.shape], .leaf .semicolon]]
      ∧ (parse e.source).tokens.map Leaf.token
        = [⟨.kwInt, "int".toList⟩, ⟨.ident, "v".toList⟩, ⟨.equal, "=".toList⟩]
          ++ e.guarded.tokens ++ [⟨.semicolon, ";".toList⟩]
      ∧ e.guarded.Tight
      ∧ (e.Tight → e.guarded = e)
      ∧ e.guarded.ungrouped = e.ungrouped
      ∧ ∀ f : Expr, f.source = e.source → f.guarded = e.guarded :=
  ⟨e.shape_source, e.tokens_source, e.tight_guarded, Expr.guarded_of_tight, e.ungrouped_guarded,
    fun _ h => Expr.guarded_eq_of_source h⟩

/-- one minus the difference of two and three -/
def Expr.differences : Expr :=
  .binary ⟨.minus, 21, by decide⟩ (.literal ⟨['1'], Token.lexeme_digit (by decide)⟩)
    (.binary ⟨.minus, 21, by decide⟩ (.literal ⟨['2'], Token.lexeme_digit (by decide)⟩)
      (.literal ⟨['3'], Token.lexeme_digit (by decide)⟩))

/-- On the right of a `-`, a difference needs its parentheses. -/
theorem parse_written_differences : (parse "int v = 1 - ( 2 - 3 );".toList).root.shape
    = .node .root [.node .variableDef [.node .typeRef [.leaf .kwInt], .leaf .ident,
        .node .initializer [.leaf .equal,
          .node .binaryExpr [.node .literal [.leaf .integer], .leaf .minus,
            .node .parenExpr [.leaf .lParen,
              .node .binaryExpr [.node .literal [.leaf .integer], .leaf .minus,
                .node .literal [.leaf .integer]],
              .leaf .rParen]]],
        .leaf .semicolon]] := by
  have hsource : Expr.differences.source = "int v = 1 - ( 2 - 3 );".toList := by decide
  rw [← hsource]
  exact (parse_written Expr.differences).1

end CppMend
