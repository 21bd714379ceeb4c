import CppMend.Proofs.Lexical.Blanks

/-!
# What follows a closing brace

Where the last token of a text is a `}`, the tokens of the text stay what they are if blanks and more
of such braces follow: a longer token would have the brace inside of it and a blank or a brace at its
end, so that it could only be a comment to the end of the line, and then the brace had been in that
comment before.

* `munch_append`     where no class goes on to the end of a text, what follows does not matter;
* `lexeme_closed`    which texts have a brace inside and a blank or a brace at the end;
* `scan_append`      a text that ends with a `}` and more closing braces.
-/

namespace CppMend

open Pattern TokenClass

/-! ## following classes along a longer text -/

theorem afterText_nil (w : List Char) : afterText [] w = [] := by
  induction w with
  | nil => rfl
  | cons c w ih => exact ih

theorem munch_append {ks : List TokenClass} {cs : Text} (h : afterText ks cs = []) (taken : Nat)
    (best? : Option (TokenKind × Nat)) (us : Text) :
    munch ks taken best? (cs ++ us) = munch ks taken best? cs := by
  induction cs generalizing ks taken best? with
  | nil =>
    have hks : ks = [] := h
    subst hks
    cases us <;> rfl
  | cons c cs ih =>
    by_cases hs : survivors c ks = []
    · rw [List.cons_append, munch, munch, hs]
    · rw [List.cons_append, munch_cons hs, munch_cons hs]
      exact ih h _ _

/-- Where some class goes on to the end of a text, nothing is stuck before. -/
theorem munch_stuck {ks : List TokenClass} {cs : Text} (h : afterText ks cs ≠ []) (taken : Nat)
    (best? : Option (TokenKind × Nat)) :
    (munch ks taken best? cs).stuck = taken + cs.length := by
  induction cs generalizing ks taken best? with
  | nil => rfl
  | cons c cs ih =>
    have hs : survivors c ks ≠ [] := by
      intro hnil
      apply h
      show afterText (survivors c ks) cs = []
      rw [hnil, afterText_nil]
    rw [munch_cons hs, ih h, List.length_cons]
    omega

theorem munch_stuck_le (ks : List TokenClass) (cs : Text) (taken : Nat)
    (best? : Option (TokenKind × Nat)) : (munch ks taken best? cs).stuck ≤ taken + cs.length := by
  induction cs generalizing ks taken best? with
  | nil => exact Nat.le_refl _
  | cons c cs ih =>
    by_cases hs : survivors c ks = []
    · rw [munch, hs]
      exact Nat.le_add_right _ _
    · rw [munch_cons hs, List.length_cons]
      have := ih (survivors c ks) (taken + 1)
        (((survivors c ks).find? (·.pattern.complete)).elim best? fun done => some (done.kind, taken + 1))
      omega

/-- how long the first token of a text is -/
def firstSize (text : Text) : Nat := (munch TokenClass.all 0 none text).verdict.2

theorem firstSize_le (text : Text) : firstSize text ≤ text.length := by
  rw [firstSize, Reach.verdict]
  rcases munch_best TokenClass.all 0 none text with ⟨kind, n, hl, hb⟩ | ⟨-, hb⟩
  · rw [hb, Nat.zero_add]
    exact hl.le
  · rw [hb]
    have := munch_stuck_le TokenClass.all text 0 none
    show (munch TokenClass.all 0 none text).stuck ≤ text.length
    omega

/-- The first token of a text, and the tokens of the rest. -/
theorem scan_rest (c : Char) (rest : Text) : scan (c :: rest)
    = ⟨(munch TokenClass.all 0 none (c :: rest)).verdict.1, c :: rest.take (firstSize (c :: rest) - 1)⟩
      :: scan (rest.drop (firstSize (c :: rest) - 1)) := by
  rw [scan]
  rfl

/-! ## a brace inside of a token -/

/-- what stands after a text that is closed -/
def closing : List Char := [' ', '}']

theorem ends_quoted {p : Pattern} {quote : Char} (hq : quote ∉ closing) :
    (inOrder [encoding, .word [quote], p, .word [quote]]).Ends (· ∉ closing) := by
  have hquote : (Pattern.word [quote]).Ends (· ∉ closing) := by
    intro c hc
    rw [← Option.some.inj hc]
    exact hq
  have hrest : (inOrder [p, .word [quote]]).complete = false := Bool.and_false _
  exact ends_seq (ends_seq (ends_seq hquote rfl) hrest) rfl

theorem ends_digits : (plus (oneOf digits)).Ends (· ∉ closing) :=
  ⟨ends_set (by decide), fun _ => ends_set (by decide)⟩

theorem ends_floatMark : (opt (oneOf floatMarks)).Ends (· ∉ closing) :=
  ends_opt (ends_set (by decide))

theorem ends_exponent : exponent.Ends (· ∉ closing) :=
  ends_seq (ends_seq ends_digits rfl) rfl

/-- Blanks and comments to the end of the line apart, no token ends with a blank or a brace. -/
theorem ends_patterned {k : TokenClass} (hk : k ∈ patterned) :
    k.pattern = whitespace ∨ k.pattern = lineComment ∨ k.pattern.Ends (· ∉ closing) := by
  have hpoint : (Pattern.word ['.']).Ends (· ∉ closing) := by
    intro c hc
    rw [← Option.some.inj hc]
    decide
  simp only [patterned, List.mem_cons, List.not_mem_nil, or_false] at hk
  rcases hk with rfl | rfl | rfl | rfl | rfl | rfl | rfl | rfl | rfl | rfl | rfl
  · exact .inl rfl
  · exact .inr (.inl rfl)
  all_goals refine .inr (.inr ?_)
  · have hslash : (Pattern.word ['/']).Ends (· ∉ closing) := by
      intro c hc
      rw [← Option.some.inj hc]
      decide
    exact ends_seq (ends_seq (ends_seq hslash rfl) rfl) rfl
  · exact ⟨ends_set (by decide), fun _ => ends_set (by decide)⟩
  · exact ends_quoted (by decide)
  · exact ends_quoted (by decide)
  · have hhex : (plus (oneOf hexDigits)).Ends (· ∉ closing) :=
      ⟨ends_set (by decide), fun _ => ends_set (by decide)⟩
    exact ends_seq (ends_seq ⟨ends_set (by decide), fun _ => hhex⟩ rfl) rfl
  · exact ⟨ends_set (by decide), fun _ => ends_digits⟩
  · exact ends_seq ⟨⟨⟨ends_floatMark, fun _ => ends_opt ends_exponent⟩, fun _ => ends_set (by decide)⟩,
      fun _ => hpoint⟩ rfl
  · exact ends_seq ⟨⟨ends_floatMark, fun _ => ends_opt ends_exponent⟩, fun _ => ends_digits⟩ rfl
  · exact ends_seq ⟨ends_floatMark, fun _ => ends_exponent⟩ rfl

theorem ends_spelled : spelled.all (fun k => k.spelling.length = 1
    || k.spelling.getLast?.all (· ∉ closing)) = true := by
  decide

/-- a comment to the end of the line may be cut anywhere behind its mark -/
theorem matches_lineComment_of_append {w v : List Char} (h : Matches lineComment (w ++ v))
    (hw : 1 < w.length) : Matches lineComment w := by
  obtain ⟨u, r, hu, hr, heq⟩ := matches_seq.mp h
  rw [matches_word.mp hu] at heq
  match w, hw with
  | a :: b :: w, _ =>
    simp only [List.cons_append, List.nil_append, List.cons.injEq] at heq
    obtain ⟨rfl, rfl, rfl⟩ := heq
    have honly : (Pattern.star (noneOf ['\n'])).Only (fun c => (!(['\n'].contains c)) = true) :=
      fun c hc => hc
    have hall := honly.sound hr
    have hstar : ∀ w : List Char, (∀ c ∈ w, (!(['\n'].contains c)) = true) →
        Matches (.star (noneOf ['\n'])) w := by
      intro w hw
      induction w with
      | nil => exact .done
      | cons c w ih =>
        exact Matches.more (.char (hw c List.mem_cons_self))
          (ih fun d hd => hw d (List.mem_cons_of_mem c hd))
    exact Matches.seq (.word ['/', '/']) (hstar w fun c hc => hall c (List.mem_append_left v hc))

/-- A text with a brace inside and a blank or a brace at the end is a comment to the end of the line,
and so is each of its starts with the brace in it. -/
theorem lexeme_closed {kind : TokenKind} {w v : List Char} (h : Lexeme kind (w ++ v))
    (hw : '}' ∈ w) (hlen : 1 < w.length) (hv : v ≠ []) (hc : ∀ c ∈ v, c ∈ closing) :
    Lexeme .comment w := by
  obtain ⟨k, hk, -, hm⟩ := h
  have hlast : ∃ c ∈ closing, (w ++ v).getLast? = some c := by
    refine ⟨v.getLast hv, hc _ (List.getLast_mem hv), ?_⟩
    rw [List.getLast?_append, List.getLast?_eq_some_getLast hv, Option.some_or]
  obtain ⟨c, hmem, hlast⟩ := hlast
  rcases List.mem_append.mp hk with hk | hk
  · -- the marks that end so are one character long
    rw [(pattern_of_mem_spelled hk).1] at hm
    have hspell := List.all_eq_true.mp ends_spelled k hk
    rw [← matches_word.mp hm, hlast] at hspell
    simp only [Option.all_some, Bool.or_eq_true, decide_eq_true_eq, List.length_append] at hspell
    rcases hspell with hone | hout
    · omega
    · exact absurd hmem hout
  · rcases ends_patterned hk with hblank | hline | hends
    · rw [hblank] at hm
      have ho : whitespace.Only (· ∈ blanks) :=
        ⟨only_oneOf.mpr fun _ h => h, only_oneOf.mpr fun _ h => h⟩
      exact absurd (ho.sound hm '}' (List.mem_append_left v hw)) (by decide)
    · rw [hline] at hm
      exact ⟨⟨.comment, lineComment⟩, List.mem_append_right _ (by simp [patterned]), rfl,
        matches_lineComment_of_append hm hlen⟩
    · exact absurd hmem (hends.sound hm c hlast)

/-! ## the tokens of a longer text -/

namespace Token

def openBrace : Token := ⟨.lBrace, ['{']⟩

def closeBrace : Token := ⟨.rBrace, ['}']⟩

theorem closeBrace_endsAt {c : Char} (hc : c ∈ closing) : closeBrace.EndsAt c := by
  simp only [closing, List.mem_cons, List.not_mem_nil, or_false] at hc
  rcases hc with rfl | rfl <;> exact endsAt_of_afterText (by decide) (by decide)

end Token

open Token

/-- A longest start with more of the text behind it is no longer where closing braces follow. -/
theorem longest_append {text us : Text} {kind : TokenKind} {n : Nat}
    (h : Longest TokenClass.all text kind n) (hn : n < text.length) (hbrace : '}' ∈ text)
    (hus : ∀ c ∈ us, c ∈ closing) : Longest TokenClass.all (text ++ us) kind n := by
  have hpos := h.pos
  refine ⟨hpos, ?_, ?_, fun m hm hle => ?_⟩
  · rw [List.length_append]
    omega
  · rw [List.take_append_of_le_length h.le]
    exact h.kind
  · rcases Nat.lt_or_ge text.length m with hlt | hge
    · -- it would be a comment, and so would be the whole text
      refine kindOf?_eq_none.mpr fun other ho => ?_
      obtain ⟨k, rfl⟩ : ∃ k, m = text.length + k := ⟨m - text.length, by omega⟩
      rw [List.take_length_add_append] at ho
      have hv : us.take k ≠ [] := by
        rw [List.length_append] at hle
        exact List.ne_nil_of_length_pos (by rw [List.length_take]; omega)
      have hcomment : Lexeme .comment text :=
        lexeme_closed ho hbrace (by omega) hv fun d hd => hus d (List.mem_of_mem_take hd)
      have hnone := h.last text.length hn (Nat.le_refl _)
      rw [List.take_length] at hnone
      exact kindOf?_eq_none.mp hnone .comment hcomment
    · rw [List.take_append_of_le_length hge]
      exact h.last m hm hge

/-- The first token of a text is no other one where closing braces follow, if it is not the last. -/
theorem first_append {text us : Text} {t u : Token} {ts : List Token} (h : scan text = t :: u :: ts)
    (hbrace : '}' ∈ text) (hus : ∀ c ∈ us, c ∈ closing) :
    ∃ rest, scan (text ++ us) = t :: scan (rest ++ us) ∧ scan rest = u :: ts := by
  cases text with
  | nil => cases hbrace
  | cons c rest =>
    by_cases hs : afterText TokenClass.all (c :: rest) = []
    · -- no class comes to the end of the text
      have hmunch := munch_append hs 0 none us
      have hsize := firstSize_le (c :: rest)
      have hle : firstSize (c :: rest) - 1 ≤ rest.length := by
        rw [List.length_cons] at hsize
        omega
      have hfirst : firstSize (c :: (rest ++ us)) = firstSize (c :: rest) := by
        rw [firstSize, ← List.cons_append, hmunch, firstSize]
      have hlonger := scan_rest c (rest ++ us)
      rw [hfirst, List.take_append_of_le_length hle, List.drop_append_of_le_length hle,
        ← List.cons_append, hmunch] at hlonger
      rw [scan_rest, List.cons.injEq] at h
      refine ⟨rest.drop (firstSize (c :: rest) - 1), ?_, h.2⟩
      rw [hlonger, h.1]
    · rcases munch_best TokenClass.all 0 none (c :: rest) with ⟨kind, n, hl, -⟩ | ⟨-, hb⟩
      · rw [scan_longest hl, List.cons.injEq] at h
        have hn : n < (c :: rest).length := by
          refine Nat.lt_of_le_of_ne hl.le fun heq => ?_
          have hrest := h.2
          rw [heq, List.drop_length, scan_nil] at hrest
          cases hrest
        refine ⟨(c :: rest).drop n, ?_, h.2⟩
        rw [scan_longest (longest_append hl hn hbrace hus), List.take_append_of_le_length hl.le,
          List.drop_append_of_le_length hl.le, h.1]
      · -- an error that goes on to the end of the text is its last token
        have hsize : firstSize (c :: rest) = rest.length + 1 := by
          rw [firstSize, Reach.verdict, hb]
          show (munch TokenClass.all 0 none (c :: rest)).stuck = _
          rw [munch_stuck hs, List.length_cons, Nat.zero_add]
        rw [scan_rest, hsize, Nat.add_sub_cancel, List.drop_length, scan_nil] at h
        cases h

/-- The tokens of a text whose last one is a `}`, where blanks and closing braces follow. -/
theorem scan_append {text us : Text} {ts : List Token} (h : scan text = ts ++ [closeBrace])
    (hus : ∀ c ∈ us, c ∈ closing) : scan (text ++ us) = scan text ++ scan us := by
  induction ts generalizing text with
  | nil =>
    have htext : text = ['}'] := by
      rw [← scan_text text, h]
      rfl
    subst htext
    cases us with
    | nil => rw [scan_nil, List.append_nil, List.append_nil]
    | cons c us =>
      rw [h]
      exact scan_endsAt (closeBrace_endsAt (hus c List.mem_cons_self)) us
  | cons t ts ih =>
    have hbrace : '}' ∈ text := by
      rw [← scan_text text, h]
      simp [closeBrace]
    obtain ⟨u, us', hu⟩ : ∃ u us', ts ++ [closeBrace] = u :: us' := by
      cases ts <;> exact ⟨_, _, rfl⟩
    rw [List.cons_append, hu] at h
    obtain ⟨rest, hlonger, hrest⟩ := first_append h hbrace hus
    rw [← hu] at hrest
    rw [hlonger, ih hrest, h, hrest, hu]
    rfl

end CppMend
