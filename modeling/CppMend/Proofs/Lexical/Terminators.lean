import CppMend.Proofs.Lexical.Comments
import CppMend.Proofs.Lexical.Literals
import CppMend.Proofs.Lexical.Munch
import Mathlib.Data.List.TakeWhile

/-!
# Where comments and literals end

Each pattern of a comment or a literal is met at one place only. So the longest text that is a comment or
a literal at the start of a token is the only one there, and its end is that of the pattern.

* `lexeme_literal`, `lexeme_comment`   the lexemes of literals and of comments;
* `scan_only`                          a lexeme that no other one is as long as;
* `scan_terminators`                   where the comments and the literals of a text end.
-/

namespace CppMend

open Pattern TokenClass

variable {w : List Char} {quote : Char}

/-! ## lexemes -/

/-- The lexemes of the two kinds of literals. -/
theorem lexeme_literal {kind : TokenKind} (hq : quoteOf? kind = some quote) :
    Lexeme kind w ↔ IsLiteral kind w := by
  have hlexeme {p : Pattern} (hs : kind.spelling? = none)
      (hp : patterned.filter (·.kind = kind) = [⟨kind, p⟩]) : Lexeme kind w ↔ Matches p w := by
    constructor
    · rintro ⟨k, hk, rfl, hm⟩
      have hmem : k ∈ patterned.filter (·.kind = k.kind) :=
        List.mem_filter.mpr ⟨mem_patterned hk hs, decide_eq_true rfl⟩
      rw [hp, List.mem_singleton] at hmem
      rw [hmem] at hm
      exact hm
    · intro hm
      have hmem : (⟨kind, p⟩ : TokenClass) ∈ patterned.filter (·.kind = kind) := by
        rw [hp]
        exact List.mem_singleton_self _
      exact ⟨_, List.mem_append_right _ (List.mem_filter.mp hmem).1, rfl, hm⟩
  rw [quoteOf?.eq_def] at hq
  split at hq
  · rw [hlexeme (p := character) rfl rfl, character, matches_quoted]
    simp only [matches_plus (p := quotedChar '\'') rfl,
      matches_quotedChars (show '\'' ≠ '\\' by decide), IsLiteral, quoteOf?, Option.mem_some_iff,
      exists_eq_left', forall_const, and_assoc]
  · rw [hlexeme (p := string) rfl rfl, string, matches_quoted]
    simp only [matches_quotedChars (show '"' ≠ '\\' by decide), IsLiteral, quoteOf?,
      Option.mem_some_iff, exists_eq_left', reduceCtorEq, false_implies, and_true]
  · cases hq

theorem spelled_unquoted : spelled.all (fun k => k.spelling.all (· ∉ ['\'', '"'])
    && !(['/', '/'].isPrefixOf k.spelling) && !(['/', '*'].isPrefixOf k.spelling)) = true := by
  decide +kernel

/-- What starts with a mark and a quote is a literal of the kind of the quote, if it is anything. -/
theorem kind_of_quote {kind other : TokenKind} {mark r : List Char} (hq : quoteOf? kind = some quote)
    (hmark : mark ∈ encodings) (h : Lexeme other (mark ++ quote :: r)) : other = kind := by
  obtain ⟨k, hk, rfl, hm⟩ := h
  have hmem : quote ∈ ['\'', '"'] := by
    rw [quoteOf?.eq_def] at hq
    split at hq <;> cases hq <;> decide
  rcases List.mem_append.mp hk with hk | hk
  · have hplain := List.all_eq_true.mp spelled_unquoted k hk
    rw [(pattern_of_mem_spelled hk).1] at hm
    rw [← matches_word.mp hm] at hplain
    simp only [Bool.and_eq_true, List.all_append, List.all_cons] at hplain
    exact absurd hmem (of_decide_eq_true hplain.1.1.2.1)
  · have hquoted : Matches (.seq encoding (.seq (.word [quote]) (.word r))) (mark ++ quote :: r) :=
      .seq (matches_encoding.mpr hmark) (.seq (.word [quote]) (.word r))
    have hfamily := family_quoted hmem hquoted
    rw [family_of_matches hk hm] at hfamily
    rw [hfamily]
    rw [quoteOf?.eq_def] at hq
    split at hq <;> cases hq <;> rfl

/-- What starts with the mark of a comment is a comment, if it is anything. -/
theorem lexeme_comment {kind : TokenKind} {c : Char} {r : List Char} (hc : c = '/' ∨ c = '*') :
    Lexeme kind ('/' :: c :: r) ↔ kind = .comment
      ∧ Matches (if c = '/' then lineComment else blockComment) ('/' :: c :: r) := by
  constructor
  · rintro ⟨k, hk, rfl, hm⟩
    rcases List.mem_append.mp hk with hk | hk
    · have hplain := List.all_eq_true.mp spelled_unquoted k hk
      rw [(pattern_of_mem_spelled hk).1] at hm
      rw [← matches_word.mp hm] at hplain
      rcases hc with rfl | rfl <;> simp at hplain
    · have hkind : k.kind = .comment := (family_of_matches hk hm).symm.trans (family_slash _)
      refine ⟨hkind, ?_⟩
      have hmem : k ∈ patterned.filter (·.kind = .comment) :=
        List.mem_filter.mpr ⟨hk, decide_eq_true hkind⟩
      rw [show patterned.filter (·.kind = .comment) = [⟨.comment, lineComment⟩, ⟨.comment, blockComment⟩]
        from rfl] at hmem
      have hline {c : Char} (h : Matches lineComment ('/' :: c :: r)) : c = '/' := by
        obtain ⟨u, v, hu, -, he⟩ := matches_seq.mp h
        rw [matches_word.mp hu] at he
        exact (List.cons.inj (List.cons.inj he).2).1
      have hblock {c : Char} (h : Matches blockComment ('/' :: c :: r)) : c = '*' := by
        obtain ⟨inner, he, -⟩ := matches_blockComment.mp h
        exact (List.cons.inj (List.cons.inj he).2).1
      rcases List.mem_cons.mp hmem with rfl | hmem
      · rw [if_pos (hline hm)]
        exact hm
      · obtain rfl := List.mem_singleton.mp hmem
        rw [if_neg (by rw [hblock hm]; decide)]
        exact hm
  · rintro ⟨rfl, hm⟩
    split at hm
    · exact ⟨⟨.comment, lineComment⟩, List.mem_append_right _ (by simp [patterned]), rfl, hm⟩
    · exact ⟨⟨.comment, blockComment⟩, List.mem_append_right _ (by simp [patterned]), rfl, hm⟩

/-! ## the tokens of a text -/

/-- A lexeme is the token at its place, if no other one there is as long. -/
theorem scan_only {cs : Text} {t : Token} {after : List Token} {kind : TokenKind}
    (h : scan cs = t :: after) (hp : w <+: cs) (hw : Lexeme kind w)
    (honly : ∀ other v, v <+: cs → w.length ≤ v.length → Lexeme other v → other = kind ∧ v = w) :
    t = ⟨kind, w⟩ := by
  have hprefix : t.text <+: cs := by
    rw [← scan_text cs, h, List.flatMap_cons]
    exact List.prefix_append _ _
  obtain ⟨hlex, hlong, -⟩ := (scan_head h).2.1 ⟨kind, w, hp, hw⟩
  obtain ⟨hkind, htext⟩ := honly t.kind t.text hprefix (hlong kind w hp hw) hlex
  rw [← hkind, ← htext]

/-- Of the texts that another one starts with, those of two characters or more start with the same two. -/
theorem exists_of_prefix_two {a b : Char} {v body : List Char} (h : v <+: a :: b :: body)
    (hlen : 2 ≤ v.length) : ∃ r, v = a :: b :: r ∧ r <+: body := by
  match v, hlen with
  | c :: d :: r, _ =>
    simp only [List.cons_prefix_cons] at h
    obtain ⟨rfl, rfl, hr⟩ := h
    exact ⟨r, rfl, hr⟩

/-- A token that is no error is a lexeme. -/
theorem lexeme_of_scan {cs : Text} {t : Token} {after : List Token} (h : scan cs = t :: after)
    (hk : t.kind ≠ .error) : Lexeme t.kind t.text := by
  by_cases hlex : ∃ kind w, w <+: cs ∧ Lexeme kind w
  · exact ((scan_head h).2.1 hlex).1
  · exact absurd ((scan_head h).2.2 hlex) hk

/-- A token where `/*` stands is a comment just if it is closed, and then it ends with the first `*/`. -/
theorem scan_block {body : Text} {t : Token} {after : List Token}
    (h : scan ('/' :: '*' :: body) = t :: after) : (t.kind = .comment ↔ HasClose body)
      ∧ (t.kind = .comment → ∃ inner tail, body = inner ++ '*' :: '/' :: tail
        ∧ t.text = '/' :: '*' :: (inner ++ ['*', '/']) ∧ ¬HasClose (inner ++ ['*'])) := by
  have hclosed : HasClose body → ∃ inner tail, body = inner ++ '*' :: '/' :: tail
      ∧ t = ⟨.comment, '/' :: '*' :: (inner ++ ['*', '/'])⟩ ∧ ¬HasClose (inner ++ ['*']) := by
    intro hb
    obtain ⟨inner, tail, rfl, hfirst⟩ := exists_first_close hb
    refine ⟨inner, tail, rfl, ?_, hfirst⟩
    refine scan_only h ⟨tail, by simp⟩
      ((lexeme_comment (.inr rfl)).mpr ⟨rfl, matches_blockComment.mpr ⟨inner, rfl, hfirst⟩⟩) ?_
    intro other v hv hlen hlex
    obtain ⟨r, rfl, hr⟩ := exists_of_prefix_two hv (Nat.le_trans (Nat.le_add_left _ _) hlen)
    obtain ⟨rfl, hm⟩ := (lexeme_comment (.inr rfl)).mp hlex
    obtain ⟨inner', he, hfirst'⟩ := matches_blockComment.mp hm
    obtain rfl : r = inner' ++ ['*', '/'] := (List.cons.inj (List.cons.inj he).2).2
    obtain ⟨tail', ht⟩ := hr
    rw [List.append_assoc] at ht
    have hle := length_le_of_first_close hfirst ht.symm
    have hle' := length_le_of_first_close hfirst' ht
    rw [(List.append_inj ht (Nat.le_antisymm hle' hle)).1]
    exact ⟨rfl, rfl⟩
  have hcomment : t.kind = .comment → HasClose body := by
    intro hk
    have hlex := lexeme_of_scan h (by rw [hk]; decide)
    have hprefix : t.text <+: '/' :: '*' :: body := by
      rw [← scan_text ('/' :: '*' :: body), h, List.flatMap_cons]
      exact List.prefix_append _ _
    rw [hk] at hlex
    have hlen : 2 ≤ t.text.length := by
      match ht : t.text, hprefix with
      | [], _ => exact absurd ht hlex.ne_nil
      | [c], hprefix =>
        -- a slash alone is another token
        obtain rfl := (List.cons_prefix_cons.mp hprefix).1
        rw [ht] at hlex
        have hslash : kindOf? all ['/'] = some .slash := by decide
        rcases kind_unique hslash hlex with hs | ⟨hs, -⟩ <;> cases hs
      | _ :: _ :: r, _ => exact Nat.le_add_left 2 r.length
    obtain ⟨r, ht, hr⟩ := exists_of_prefix_two hprefix hlen
    rw [ht] at hlex
    obtain ⟨inner, he, -⟩ := matches_blockComment.mp ((lexeme_comment (.inr rfl)).mp hlex).2
    obtain rfl : r = inner ++ ['*', '/'] := (List.cons.inj (List.cons.inj he).2).2
    exact (List.suffix_append inner _).isInfix.trans hr.isInfix
  refine ⟨⟨hcomment, fun hb => ?_⟩, fun hk => ?_⟩
  · obtain ⟨-, -, -, rfl, -⟩ := hclosed hb
    rfl
  · obtain ⟨inner, tail, hb, ht, hfirst⟩ := hclosed (hcomment hk)
    exact ⟨inner, tail, hb, by rw [ht], hfirst⟩

/-- A comment to the end of the line is as long as the line. -/
theorem scan_line_comment {body : Text} {t : Token} {after : List Token}
    (h : scan ('/' :: '/' :: body) = t :: after) :
    t = ⟨.comment, '/' :: '/' :: body.takeWhile (· ≠ '\n')⟩ := by
  have hline : '\n' ∉ body.takeWhile (· ≠ '\n') := fun hm =>
    absurd (List.mem_takeWhile_imp hm) (by decide)
  refine scan_only h ?_ ((lexeme_comment (.inl rfl)).mpr ⟨rfl, matches_lineComment.mpr hline⟩) ?_
  · exact (List.prefix_append_right_inj ['/', '/']).mpr (List.takeWhile_prefix _)
  · intro other v hv hlen hlex
    obtain ⟨r, rfl, hr⟩ := exists_of_prefix_two hv (Nat.le_trans (Nat.le_add_left _ _) hlen)
    obtain ⟨rfl, hm⟩ := (lexeme_comment (.inl rfl)).mp hlex
    have hall : ∀ d ∈ r, decide (d ≠ '\n') = true := by
      intro d hd
      refine decide_eq_true ?_
      rintro rfl
      exact matches_lineComment.mp hm hd
    obtain ⟨x, rfl⟩ := hr
    rw [List.takeWhile_append_of_pos hall] at hlen ⊢
    rw [← (List.prefix_append r _).eq_of_length_le (by simpa using hlen)]
    exact ⟨rfl, rfl⟩

/-- A literal is the token at its place. -/
theorem scan_literal {cs : Text} {t : Token} {after : List Token} {kind : TokenKind}
    (h : scan cs = t :: after) (hw : IsLiteral kind w) (hp : w <+: cs) : t = ⟨kind, w⟩ := by
  obtain ⟨quote, hq, mark, hmark, inner, rfl, hinner, -⟩ := id hw
  have hmem : quote ∈ ['\'', '"'] := by
    rw [Option.mem_def, quoteOf?.eq_def] at hq
    split at hq <;> cases hq <;> decide
  refine scan_only h hp ((lexeme_literal hq).mpr hw) ?_
  intro other v hv hlen hlex
  obtain ⟨x, rfl⟩ := List.prefix_of_prefix_length_le hp hv hlen
  have hassoc : mark ++ quote :: (inner ++ [quote]) ++ x = mark ++ quote :: (inner ++ quote :: x) := by
    simp
  rw [hassoc] at hlex ⊢
  obtain rfl := kind_of_quote hq hmark hlex
  obtain ⟨quote', hq', mark', hmark', inner', he, hinner', -⟩ := (lexeme_literal hq).mp hlex
  obtain rfl : quote = quote' := Option.some.inj (hq.symm.trans hq')
  -- the first quote ends the mark, and the next one that is not escaped the literal
  obtain rfl := (enclosed_encoding hmem hmark).unique (enclosed_encoding hmem hmark') he
  have he := (List.cons.inj (List.append_cancel_left he)).2
  obtain rfl := hinner.unique hinner' he
  rw [he]
  exact ⟨rfl, rfl⟩

/-- Comments and literals end where they should. Where `/*` stands at the start of a token, the token
is a comment just if a `*/` follows behind these two characters, and it ends with the first one that
does. Where `//` does, the token is a comment to the end of the line. A character or string literal
is a mark of its encoding and two quotes, of which the second one is the first that is not escaped,
all on one line; and where such a text stands at the start of a token, it is the token. -/
theorem scan_terminators (text : Text) : ∀ before t after, scan text = before ++ t :: after →
    (∀ body, (t :: after).flatMap (·.text) = '/' :: '*' :: body →
        (t.kind = .comment ↔ ['*', '/'] <:+: body)
          ∧ (t.kind = .comment → ∃ inner tail, body = inner ++ '*' :: '/' :: tail
              ∧ t.text = '/' :: '*' :: (inner ++ ['*', '/'])
              ∧ ∀ u v, body = u ++ '*' :: '/' :: v → inner.length ≤ u.length))
      ∧ (∀ body, (t :: after).flatMap (·.text) = '/' :: '/' :: body →
          t = ⟨.comment, '/' :: '/' :: body.takeWhile (· ≠ '\n')⟩)
      ∧ (t.kind = .char ∨ t.kind = .string → IsLiteral t.kind t.text ∧ '\n' ∉ t.text)
      ∧ ∀ kind w, IsLiteral kind w → w <+: (t :: after).flatMap (·.text) → t = ⟨kind, w⟩ := by
  intro before t after h
  have hscan := scan_split h
  refine ⟨fun body hb => ?_, fun body hb => ?_, fun hk => ?_, fun kind w hw hp => ?_⟩
  · rw [hb] at hscan
    obtain ⟨hiff, hends⟩ := scan_block hscan
    refine ⟨hiff, fun hk => ?_⟩
    obtain ⟨inner, tail, rfl, ht, hfirst⟩ := hends hk
    exact ⟨inner, tail, rfl, ht, fun u v he => length_le_of_first_close hfirst he⟩
  · rw [hb] at hscan
    exact scan_line_comment hscan
  · have hlex := lexeme_of_scan hscan (by rintro he; rw [he] at hk; rcases hk with hk | hk <;> cases hk)
    have hlit : IsLiteral t.kind t.text := by
      rcases hk with hk | hk <;> rw [hk] at hlex ⊢ <;> exact (lexeme_literal rfl).mp hlex
    refine ⟨hlit, ?_⟩
    obtain ⟨quote, hq, mark, hmark, inner, ht, -, hline, -⟩ := hlit
    have hquote : '\n' ≠ quote := by
      rintro rfl
      rcases hk with hk | hk <;> rw [hk] at hq <;> cases hq
    have hm : ∀ m ∈ encodings, '\n' ∉ m := by decide
    rw [ht]
    simp [hm mark hmark, hline, hquote]
  · exact scan_literal hscan hw hp

/-- stars and slashes in a comment, and an escaped quote and slashes in a string -/
theorem scan_terminators_of_slashes :
    scan "/*/**/u8\"\\\"//\"//*/".toList = [] ++ ⟨.comment, "/*/**/".toList⟩
        :: [⟨.string, "u8\"\\\"//\"".toList⟩, ⟨.comment, "//*/".toList⟩]
      ∧ (∀ u v, "/**/u8\"\\\"//\"//*/".toList = u ++ '*' :: '/' :: v → 2 ≤ u.length)
      ∧ IsLiteral .string "u8\"\\\"//\"".toList := by
  have h : scan "/*/**/u8\"\\\"//\"//*/".toList = [] ++ ⟨.comment, "/*/**/".toList⟩
      :: [⟨.string, "u8\"\\\"//\"".toList⟩, ⟨.comment, "//*/".toList⟩] := by
    decide +kernel
  obtain ⟨inner, tail, -, ht, hfirst⟩ := ((scan_terminators _ _ _ _ h).1 _ rfl).2 rfl
  have hlength : inner.length = 2 := by
    have := congrArg List.length ht
    simpa using this.symm
  exact ⟨h, fun u v he => hlength ▸ hfirst u v he,
    ((scan_terminators _ [_] _ _ h).2.2.1 (.inr rfl)).1⟩

end CppMend
