import CppMend.Proofs.Grammar.Sites
import CppMend.Proofs.Parsed.Layout
import CppMend.Proofs.Parsed.Lossless
import CppMend.Proofs.Tree.Nodes

/-!
# Directives are lines

A directive starts with a `#` that is the first token on its line, and goes on to the end of the line. A
backslash joins the next line on, so the lines that a directive stands on are one line to the
preprocessor, and the directive is just this line.

* `Spaced.IsLine`               some tokens are the line of a directive, among those around them;
* `Rule.lineSpan_ends`          counting comes to the end of the line;
* `Rule.Makes.directive_of_kind`   nodes of directives are made by one rule, at a `#` that starts a line;
* `directive_line`              the nodes of directives are lines, in every text.
-/

namespace CppMend

/-- the kinds of directives -/
def NodeKind.isDirective : NodeKind → Bool
  | .preprocInclude | .preprocDefine | .preprocDirective => true
  | _ => false

namespace Spaced

/-- No line ends between two tokens, unless a backslash joins the lines. -/
def Continues (s u : Spaced) : Prop := u.newLine = true → s.joins = true

/-- The tokens `line` are the line of a directive, if those of the text before and after it are `before`
and `after`. -/
structure IsLine (before line after : List Spaced) : Prop where
  hash : ∃ s ∈ line.head?, s.kind = .hash
  /-- nothing stands before the `#` on its line -/
  starts : ∀ s ∈ line.head?, before = [] ∨ s.newLine = true
  /-- the line does not end within -/
  one : line.IsChain Continues
  /-- and it ends behind -/
  ends : ∀ u ∈ after.head?, u.newLine = true ∧ ∀ s ∈ line.getLast?, s.joins = false

/-- what the grammar sees of a token that is not the first one -/
def cue (s : Spaced) : Cue := Token.cue s.newLine s.token

theorem mark_eq_lineJoin_iff (s : Spaced) : s.token.mark = .lineJoin ↔ s.joins = true := by
  rw [Token.mark_eq]
  constructor
  · intro h
    split_ifs at h with _ _ hj
    exact hj
  · intro hj
    have hk : s.kind ≠ .ident := by
      rw [joins, Bool.and_eq_true, decide_eq_true_eq] at hj
      rw [kind, hj.1]
      decide
    rw [if_neg fun h => hk h.1, if_neg fun h => hk h.1, if_pos hj]

end Spaced

/-! ## spaced tokens in parts -/

namespace Token

/-- the blanks and comments that come after the last significant token, where there were some before -/
def pending (blanks : List Token) : List Token → List Token
  | [] => blanks
  | t :: ts => if t.isTrivia then pending (blanks ++ [t]) ts else pending [] ts

theorem spacedFrom_append (blanks ts us : List Token) :
    spacedFrom blanks (ts ++ us) = spacedFrom blanks ts ++ spacedFrom (pending blanks ts) us := by
  induction ts generalizing blanks with
  | nil => rfl
  | cons t ts ih =>
    rw [List.cons_append, spacedFrom, spacedFrom, pending]
    split
    · exact ih _
    · rw [ih, List.cons_append]

theorem map_token_spacedFrom (blanks ts : List Token) :
    (spacedFrom blanks ts).map (·.token) = ts.filter (!·.isTrivia) := by
  induction ts generalizing blanks with
  | nil => rfl
  | cons t ts ih =>
    rw [spacedFrom, List.filter_cons]
    cases ht : t.isTrivia with
    | true => exact ih _
    | false => exact congrArg (List.cons t) (ih _)

theorem length_spacedFrom (blanks ts : List Token) : (spacedFrom blanks ts).length = significant ts := by
  rw [← List.length_map (·.token), map_token_spacedFrom, significant, List.countP_eq_length_filter]

theorem spaced_parts (past : List Token) {t : Token} (ts more : List Token) (ht : t.isTrivia = false) :
    spaced (past ++ (t :: ts ++ more)) = spaced past ++ ⟨pending [] past, t⟩
      :: (spacedFrom [] ts ++ spacedFrom (pending [] ts) more) := by
  rw [spaced, spacedFrom_append, List.cons_append, spacedFrom, if_neg (Bool.eq_false_iff.mp ht),
    spacedFrom_append]
  rfl

/-- the cues of a text from some token on -/
theorem drop_cues {ts : List Token} {before rest : List Spaced} {s : Spaced}
    (h : spaced ts = before ++ s :: rest) : (cues ts).drop before.length
      = cue (before.isEmpty || s.newLine) s.token :: rest.map Spaced.cue := by
  rw [cues, cuesFrom_true [] ts]
  rw [spaced] at h
  rw [h]
  cases before with
  | nil => rfl
  | cons b before =>
    show List.drop before.length ((before ++ s :: rest).map Spaced.cue) = _
    rw [List.map_append, List.drop_left' (List.length_map _)]
    rfl

end Token

/-! ## the rule -/

namespace Rule

theorem lineSpan_le (joined : Bool) (s : List Cue) : lineSpan joined s ≤ s.length := by
  induction s generalizing joined with
  | nil => exact Nat.le_refl 0
  | cons c s ih =>
    rw [lineSpan]
    split
    · exact Nat.zero_le _
    · exact Nat.succ_le_succ (ih _)

theorem lineSpan_cue (s u : Spaced) (rest : List Cue) : lineSpan s.joins (u.cue :: rest)
    = if !s.joins && u.newLine then 0 else lineSpan u.joins rest + 1 := by
  have hjoins : decide (u.cue.mark = .lineJoin) = u.joins := by
    rw [Bool.eq_iff_iff, decide_eq_true_eq]
    exact u.mark_eq_lineJoin_iff
  rw [lineSpan, hjoins]
  rfl

/-- The tokens that are counted do not end a line, and where the count stops, the line or the text
ends. -/
theorem lineSpan_ends {s : Spaced} {line after : List Spaced}
    (h : lineSpan s.joins ((line ++ after).map Spaced.cue) = line.length) :
    (s :: line).IsChain Spaced.Continues
      ∧ ∀ u ∈ after.head?, u.newLine = true ∧ ∀ l ∈ (s :: line).getLast?, l.joins = false := by
  induction line generalizing s with
  | nil =>
    refine ⟨.singleton s, fun u hu => ?_⟩
    obtain ⟨rest, rfl⟩ := List.head?_eq_some_iff.mp hu
    rw [List.nil_append, List.map_cons, lineSpan_cue] at h
    split at h
    · next hend =>
      rw [Bool.and_eq_true, Bool.not_eq_true'] at hend
      refine ⟨hend.2, ?_⟩
      rintro _ ⟨⟩
      exact hend.1
    · cases h
  | cons u line ih =>
    rw [List.cons_append, List.map_cons, lineSpan_cue] at h
    split at h
    · cases h
    · next hgo =>
      obtain ⟨hchain, hends⟩ := ih (Nat.succ.inj h)
      refine ⟨List.isChain_cons_cons.mpr ⟨fun hline => ?_, hchain⟩, ?_⟩
      · by_contra hj
        exact hgo (by rw [Bool.eq_false_iff.mpr hj]; exact hline)
      · rw [List.getLast?_cons_cons]
        exact hends

variable {budget : Nat} {s : List Cue} {kind : NodeKind} {parts : List Outline}

/-- The nodes of directives are made by the rule of directives. -/
theorem Makes.directive_of_kind {r : Rule} (h : Makes budget r s kind parts)
    (hk : kind.isDirective = true) : r = directive ∧ startsDirective s = true := by
  cases hsite : h.site with
  | directive hs => exact ⟨rfl, hs⟩
  | declaration place =>
    rcases h.kind_of_declaration with rfl | rfl
    · cases hk
    · cases place <;> cases hk
  | recordDef => rcases h.kind_of_recordDef with rfl | rfl <;> cases hk
  | _ =>
    rw [h.node_eq.1] at hk
    cases hk

/-- A directive takes its `#` and what the count of its line says. -/
theorem Makes.sizes_of_directive (h : Makes budget directive s kind parts)
    (hs : startsDirective s = true) : ∃ c rest, s = c :: rest ∧ c.kind = .hash ∧ c.startsLine = true
      ∧ Outline.sizes parts = 1 + lineSpan false rest := by
  cases s with
  | nil => cases hs
  | cons c rest =>
    rw [startsDirective, Bool.and_eq_true, decide_eq_true_eq] at hs
    refine ⟨c, rest, rfl, hs.1, hs.2, ?_⟩
    rw [h.headed_eq.2]
    show Outline.sizes (.token :: (rest.take (lineSpan false rest)).map fun _ => .token) = _
    rw [Outline.sizes_cons, Outline.sizes_tokens, List.length_take,
      Nat.min_eq_left (lineSpan_le false rest)]
    rfl

end Rule

/-! ## whole texts -/

theorem Leaf.length_filter_row (offset : Nat) (ts : List Token) :
    ((row offset ts).filter (!·.isTrivia)).length = Token.significant ts := by
  rw [← List.length_map token, filter_row, Token.significant, List.countP_eq_length_filter]

/-- The `#` and the rest of what was taken for a directive are a line. -/
theorem Spaced.isLine_of_count {before line after : List Spaced} {s : Spaced} (hs : s.kind = .hash)
    (hstart : (before.isEmpty || s.newLine) = true)
    (hcount : Rule.lineSpan false ((line ++ after).map cue) = line.length) :
    IsLine before (s :: line) after := by
  have hj : s.joins = false := by
    rw [joins, show s.token.kind = .hash from hs]
    rfl
  rw [← hj] at hcount
  obtain ⟨hchain, hends⟩ := Rule.lineSpan_ends hcount
  refine ⟨⟨s, rfl, hs⟩, ?_, hchain, hends⟩
  rintro _ ⟨⟩
  rwa [Bool.or_eq_true, List.isEmpty_iff] at hstart

/-- A directive in a text is made of some of its tokens, which are a line there. -/
theorem exists_line_of_directive {ts : List Token} {n : Node}
    (hn : n ∈ Tree.nodesOf (rootOf ts).children) (hk : n.kind.isDirective = true) :
    ∃ past taken more, ts = past ++ (taken ++ more) ∧ n.leaves = Leaf.row (Feed.width past) taken
      ∧ (∃ hash ∈ taken.head?, hash.kind = .hash)
      ∧ ∃ before line after, Token.spaced ts = before ++ line ++ after
        ∧ before.length = Token.significant past ∧ line.length = Token.significant taken
        ∧ Spaced.IsLine before line after := by
  obtain ⟨p, hp, hplaced⟩ := exists_left_of_mem (rootOf_spots ts) hn
  have hkind : n.kind = p.kind := by
    obtain ⟨-, -, -, -, -, rfl⟩ := hplaced
    rfl
  rw [hkind] at hk
  have hlinked : p.kind.isLinked = false := by
    revert hk
    cases p.kind <;> decide
  obtain ⟨budget, r, hmakes⟩ := outline_made (cues ts) p hp hlinked
  obtain ⟨rfl, hstarts⟩ := hmakes.directive_of_kind hk
  obtain ⟨c, ahead, hcues, hhash, hline, hsizes⟩ := hmakes.sizes_of_directive hstarts
  obtain ⟨past, taken, more, hts, hleaves, hfirst, hbefore, hcount⟩ := hplaced.exists_taken
  have hahead : Token.significant ts - p.before = ahead.length + 1 := by
    rw [← cuesFrom_length true ts, ← List.length_drop]
    exact congrArg List.length hcues
  have hle := Rule.lineSpan_le false ahead
  rw [Nat.min_eq_left (by omega)] at hbefore
  rw [hsizes, hahead, Nat.min_eq_left (by omega)] at hcount
  obtain ⟨hash, rest, rfl⟩ : ∃ hash rest, taken = hash :: rest := by
    refine List.exists_cons_of_ne_nil fun hnil => ?_
    rw [hnil, Token.significant, List.countP_nil] at hcount
    omega
  have hsharp : hash.isTrivia = false := hfirst hash rfl
  have hspaced := Token.spaced_parts past rest more hsharp
  rw [← hts] at hspaced
  have hdrop := Token.drop_cues hspaced
  rw [Token.spaced, Token.length_spacedFrom, hbefore, hcues, List.cons.injEq] at hdrop
  obtain ⟨rfl, rfl⟩ := hdrop
  have hrest : Token.significant (hash :: rest) = Token.significant rest + 1 :=
    List.countP_cons_of_pos (by rw [hsharp]; rfl)
  have hstop : Rule.lineSpan false ((Token.spacedFrom [] rest
      ++ Token.spacedFrom (Token.pending [] rest) more).map Spaced.cue)
      = (Token.spacedFrom [] rest).length := by
    rw [Token.length_spacedFrom]
    omega
  refine ⟨past, hash :: rest, more, hts, hleaves, ⟨hash, rfl, hhash⟩, _, _, _, ?_, ?_, ?_,
    Spaced.isLine_of_count hhash hline hstop⟩
  · rw [hspaced, List.append_assoc, List.cons_append]
    rfl
  · exact Token.length_spacedFrom [] past
  · rw [List.length_cons, Token.length_spacedFrom, hrest]

/-- The significant tokens of a text and the table have the same order. Each node of a directive has just
the tokens of one line: they start with a `#`, before which there is nothing on its line, no line ends
between two of them unless the first of the two is a backslash, and after the last one, which is no
backslash, the line ends before the next token. -/
theorem directive_line (source : Text) :
    (parse source).tokens.map Leaf.token = (Token.spaced (scan source)).map (·.token)
      ∧ ∀ n ∈ (parse source).root.descendants, n.kind.isDirective = true →
          ∃ before line after, Token.spaced (scan source) = before ++ line ++ after
            ∧ ((parse source).tokens.drop before.length).take line.length
              = n.leaves.filter (!·.isTrivia)
            ∧ (∃ l ∈ n.leaves.head?, l.kind = .hash)
            ∧ Spaced.IsLine before line after := by
  refine ⟨?_, fun n hn hk => ?_⟩
  · show ((parse source).root.leaves.filter (!·.isTrivia)).map Leaf.token = _
    rw [parse_leaves, Leaf.filter_row, Token.spaced, Token.map_token_spacedFrom]
  · rcases List.mem_cons.mp hn with rfl | hn
    · cases hk
    · obtain ⟨past, taken, more, hts, hleaves, hhash, before, line, after, hspaced, hbefore, hcount,
        hline⟩ := exists_line_of_directive hn hk
      refine ⟨before, line, after, hspaced, ?_, ?_, hline⟩
      · show (((parse source).root.leaves.filter _).drop _).take _ = _
        rw [parse_leaves, hts, Leaf.row_append, Leaf.row_append, List.filter_append, List.filter_append,
          List.drop_left' (by rw [Leaf.length_filter_row, hbefore]), hleaves, Nat.zero_add,
          List.take_left' (by rw [Leaf.length_filter_row, hcount])]
      · obtain ⟨hash, hhead, hk⟩ := hhash
        obtain ⟨rest, rfl⟩ := List.head?_eq_some_iff.mp hhead
        rw [hleaves]
        exact ⟨_, rfl, hk⟩

/-- a macro on two lines, and a declaration on the third -/
theorem directive_line_of_macro : ∃ n ∈ (parse "#define A \\\n  1\nint x;".toList).root.descendants,
    n.kind.isDirective = true ∧ (n.leaves.filter (!·.isTrivia)).length = 5
      ∧ ∃ before line after, line.length = 5 ∧ Spaced.IsLine before line after := by
  have h : ∃ n ∈ (parse "#define A \\\n  1\nint x;".toList).root.descendants,
      n.kind.isDirective = true ∧ (n.leaves.filter (!·.isTrivia)).length = 5 := by
    decide +kernel
  obtain ⟨n, hn, hk, hcount⟩ := h
  obtain ⟨before, line, after, hspaced, htokens, -, hline⟩ := (directive_line _).2 n hn hk
  refine ⟨n, hn, hk, hcount, before, line, after, ?_, hline⟩
  have hlen := congrArg List.length htokens
  have hall := congrArg List.length hspaced
  have htable := congrArg List.length (directive_line "#define A \\\n  1\nint x;".toList).1
  simp only [List.length_take, List.length_drop, List.length_append, List.length_map] at hlen hall htable
  omega

end CppMend
