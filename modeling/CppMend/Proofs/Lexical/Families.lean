import CppMend.Lexical.Classes
import CppMend.Proofs.Lexical.Matching
import Mathlib.Data.List.Nodup

/-!
# No two classes share a text

A text of a class with many texts shows its kind: by its first character, by the quote after its mark,
or by what tells a fraction from a whole number. So no text is of two kinds, unless it is a reserved
word, which is spelled as a name.

* `TokenClass.family`             the kind that a text shows;
* `TokenClass.family_of_matches`  it is the kind of the class that describes the text;
* `TokenClass.spelled_apart`      a mark or a reserved word is of no other kind, but for names;
* `Lexeme`                        the texts of a kind;
* `Lexeme.unique`                 a text of two kinds is a reserved word and a name.
-/

namespace CppMend

namespace TokenClass

open Pattern

variable {w : List Char}

/-! ## the kind that a text shows -/

/-- what may stand before the quote of a literal -/
def marks : List Char := ['u', '8', 'U', 'L']

def family (w : List Char) : TokenKind :=
  match w with
  | [] => .error
  | c :: _ =>
    if c ∈ blanks then .whitespace
    else if c = '/' then .comment
    else if c ∈ '.' :: digits then
      if w.any (· ∈ ['x', 'X']) then .integer
      else if w.any (· ∈ ['.', 'e', 'E']) then .float
      else .integer
    else if (w.dropWhile (· ∈ marks)).head? = some '\'' then .char
    else if (w.dropWhile (· ∈ marks)).head? = some '"' then .string
    else .ident

/-- a text of a pattern that is not complete starts as the pattern says -/
theorem exists_head {p : Pattern} {P : Char → Prop} (hp : p.complete = false) (hb : p.Begins P)
    (hw : Matches p w) : ∃ c r, w = c :: r ∧ P c := by
  cases w with
  | nil =>
    rw [← complete_iff, hp] at hw
    cases hw
  | cons c r => exact ⟨c, r, rfl, hb.sound hw c rfl⟩

theorem family_whitespace (hw : Matches whitespace w) : family w = .whitespace := by
  have hb : whitespace.Begins (· ∈ blanks) := ⟨begins_oneOf.mpr fun _ h => h, nofun⟩
  obtain ⟨c, r, rfl, hc⟩ := exists_head rfl hb hw
  exact if_pos hc

theorem family_slash (r : List Char) : family ('/' :: r) = .comment := by
  rw [family, if_neg (by decide), if_pos rfl]

theorem family_comment {p : Pattern} (hp : p = lineComment ∨ p = blockComment)
    (hw : Matches p w) : family w = .comment := by
  have hb : p.Begins (· = '/') ∧ p.complete = false := by
    rcases hp with rfl | rfl <;> exact ⟨⟨fun c hc => (Option.some.inj hc).symm, nofun⟩, rfl⟩
  obtain ⟨c, r, rfl, rfl⟩ := exists_head hb.2 hb.1 hw
  exact family_slash r

/-! ### numbers -/

/-- what a number with a fraction or an exponent is made of -/
def floatChars : List Char := digits ++ ['.', 'e', 'E', '+', '-'] ++ floatMarks

theorem family_number {c : Char} {r : List Char} (hc : c ∈ '.' :: digits) : family (c :: r)
    = if (c :: r).any (· ∈ ['x', 'X']) then .integer
      else if (c :: r).any (· ∈ ['.', 'e', 'E']) then .float else .integer := by
  have hsep : ∀ c ∈ '.' :: digits, c ∉ blanks ∧ c ≠ '/' :=
    List.all_iff_forall_prop.mp (by decide)
  obtain ⟨hblank, hslash⟩ := hsep c hc
  rw [family, if_neg hblank, if_neg hslash, if_pos hc]

theorem family_hexInteger (hw : Matches hexInteger w) : family w = .integer := by
  have hb : hexInteger.Begins (· ∈ '.' :: digits) := by
    refine ⟨fun c hc => ?_, nofun⟩
    rw [← Option.some.inj hc]
    decide
  have hx : hexInteger.Has (· ∈ ['x', 'X']) := .inr (.inl (has_oneOf.mpr fun _ h => h))
  obtain ⟨c, r, rfl, hc⟩ := exists_head rfl hb hw
  obtain ⟨d, hd, hx⟩ := hx.sound hw
  rw [family_number hc, if_pos (List.any_eq_true.mpr ⟨d, hd, decide_eq_true hx⟩)]

theorem family_decimalInteger (hw : Matches decimalInteger w) : family w = .integer := by
  have hb : decimalInteger.Begins (· ∈ '.' :: digits) :=
    ⟨⟨begins_oneOf.mpr fun _ h => List.mem_cons_of_mem _ h, nofun⟩, nofun⟩
  have ho : decimalInteger.Only (· ∉ ['.', 'e', 'E']) := by
    refine ⟨⟨only_set ?_, only_set ?_⟩, only_set ?_⟩ <;> decide
  obtain ⟨c, r, rfl, hc⟩ := exists_head rfl hb hw
  have hn : ¬(c :: r).any (· ∈ ['.', 'e', 'E']) = true := by
    rw [List.any_eq_true]
    rintro ⟨d, hd, h⟩
    exact ho.sound hw d hd (of_decide_eq_true h)
  rw [family_number hc, if_neg hn]
  exact ite_self _

theorem only_exponent : exponent.Only (· ∈ floatChars) := by
  refine ⟨only_set ?_, ⟨nofun, only_set ?_⟩, only_set ?_, only_set ?_⟩ <;> decide

theorem only_digits : (plus (oneOf digits)).Only (· ∈ floatChars) := by
  refine ⟨only_set ?_, only_set ?_⟩ <;> decide

theorem only_floatMark : (opt (oneOf floatMarks)).Only (· ∈ floatChars) :=
  ⟨nofun, only_set (by decide)⟩

theorem only_point : (word ['.']).Only (· ∈ floatChars) := by
  intro c hc
  rw [List.mem_singleton.mp hc]
  decide

theorem begins_digits : (plus (oneOf digits)).Begins (· ∈ '.' :: digits) :=
  ⟨begins_oneOf.mpr fun _ h => List.mem_cons_of_mem _ h, nofun⟩

/-- a number with a point or an exponent, and without the mark of a hexadecimal one -/
theorem family_float {p : Pattern} (hp : p.complete = false) (hb : p.Begins (· ∈ '.' :: digits))
    (ho : p.Only (· ∈ floatChars)) (hh : p.Has (· ∈ ['.', 'e', 'E'])) (hw : Matches p w) :
    family w = .float := by
  have hsep : ∀ c ∈ floatChars, c ∉ ['x', 'X'] := List.all_iff_forall_prop.mp (by decide)
  obtain ⟨c, r, rfl, hc⟩ := exists_head hp hb hw
  have hn : ¬(c :: r).any (· ∈ ['x', 'X']) = true := by
    rw [List.any_eq_true]
    rintro ⟨d, hd, h⟩
    exact hsep d (ho.sound hw d hd) (of_decide_eq_true h)
  obtain ⟨d, hd, hx⟩ := hh.sound hw
  rw [family_number hc, if_neg hn, if_pos (List.any_eq_true.mpr ⟨d, hd, decide_eq_true hx⟩)]

theorem has_point : (word ['.']).Has (· ∈ ['.', 'e', 'E']) :=
  ⟨'.', List.mem_singleton_self _, List.mem_cons_self⟩

theorem family_pointedFloat (hw : Matches pointedFloat w) : family w = .float :=
  family_float (p := pointedFloat) rfl ⟨begins_digits, nofun⟩
    ⟨only_digits, only_point, only_digits.2, ⟨nofun, only_exponent⟩, only_floatMark⟩
    (.inr (.inl has_point)) hw

theorem family_bareFloat (hw : Matches bareFloat w) : family w = .float := by
  refine family_float (p := bareFloat) rfl ⟨?_, nofun⟩
    ⟨only_point, only_digits, ⟨nofun, only_exponent⟩, only_floatMark⟩ (.inl has_point) hw
  intro c hc
  rw [← Option.some.inj hc]
  exact List.mem_cons_self

theorem family_scaledFloat (hw : Matches scaledFloat w) : family w = .float := by
  refine family_float (p := scaledFloat) rfl ⟨begins_digits, nofun⟩
    ⟨only_digits, only_exponent, only_floatMark⟩ (.inr (.inl (.inl (has_oneOf.mpr ?_)))) hw
  exact List.all_iff_forall_prop.mp (by decide)

/-! ### names and quoted texts -/

/-- what a name or a mark starts with is neither a blank nor a slash, nor the start of a number -/
theorem family_other {c : Char} {r : List Char} (hc : c ∈ '\'' :: '"' :: nameHead) :
    family (c :: r)
      = if ((c :: r).dropWhile (· ∈ marks)).head? = some '\'' then .char
        else if ((c :: r).dropWhile (· ∈ marks)).head? = some '"' then .string else .ident := by
  have hsep : ∀ c ∈ '\'' :: '"' :: nameHead, c ∉ blanks ∧ c ≠ '/' ∧ c ∉ '.' :: digits :=
    List.all_iff_forall_prop.mp (by decide)
  obtain ⟨hblank, hslash, hnumber⟩ := hsep c hc
  rw [family, if_neg hblank, if_neg hslash, if_neg hnumber]

theorem family_name (hw : Matches name w) : family w = .ident := by
  have hb : name.Begins (· ∈ nameHead) := ⟨begins_oneOf.mpr fun _ h => h, nofun⟩
  have ho : name.Only (· ∈ nameTail) :=
    ⟨only_oneOf.mpr fun _ h => List.mem_append_left _ h, only_oneOf.mpr fun _ h => h⟩
  have hquote : ∀ d, d ∉ nameTail → (w.dropWhile (· ∈ marks)).head? ≠ some d := by
    intro d hd h
    exact hd (ho.sound hw d ((List.dropWhile_suffix _).subset (List.mem_of_head? h)))
  obtain ⟨c, r, rfl, hc⟩ := exists_head rfl hb hw
  rw [family_other (List.mem_cons_of_mem _ (List.mem_cons_of_mem _ hc)),
    if_neg (hquote '\'' (by decide)), if_neg (hquote '"' (by decide))]

/-- a literal, by the quote that comes after its mark -/
theorem family_quoted {quote : Char} {rest : Pattern} (hq : quote ∈ ['\'', '"'])
    (hw : Matches (.seq encoding (.seq (.word [quote]) rest)) w) :
    family w = if quote = '\'' then .char else .string := by
  obtain ⟨m, v, hm, hv, rfl⟩ := matches_seq.mp hw
  obtain ⟨u, r, hu, -, rfl⟩ := matches_seq.mp hv
  rw [matches_word.mp hu, List.cons_append, List.nil_append]
  have ho : encoding.Only (· ∈ marks) := by
    have hword : ∀ c ∈ ['u', '8'], c ∈ marks := List.all_iff_forall_prop.mp (by decide)
    exact ⟨nofun, hword, only_set (by decide)⟩
  have hmark : ∀ c ∈ m, c ∈ marks := ho.sound hm
  have hout : ∀ c ∈ ['\'', '"'], c ∉ marks := List.all_iff_forall_prop.mp (by decide)
  have hdrop : (m ++ quote :: r).dropWhile (· ∈ marks) = quote :: r := by
    rw [List.dropWhile_append_of_pos fun c hc => decide_eq_true (hmark c hc), List.dropWhile_cons,
      if_neg (by simpa using hout quote hq)]
  -- the text starts with its quote or with a letter of its mark
  have hfamily : family (m ++ quote :: r)
      = if ((m ++ quote :: r).dropWhile (· ∈ marks)).head? = some '\'' then .char
        else if ((m ++ quote :: r).dropWhile (· ∈ marks)).head? = some '"' then .string
        else .ident := by
    have hfirst : encoding.Begins (· ∈ ['u', 'U', 'L']) := by
      refine ⟨nofun, ?_, begins_oneOf.mpr fun _ h => h⟩
      intro c hc
      rw [← Option.some.inj hc]
      exact List.mem_cons_self
    cases m with
    | nil =>
      rw [List.nil_append]
      refine family_other ?_
      simp only [List.mem_cons, List.not_mem_nil, or_false] at hq
      rcases hq with rfl | rfl
      · exact List.mem_cons_self
      · exact List.mem_cons_of_mem _ List.mem_cons_self
    | cons c m =>
      refine family_other ?_
      have hc : c ∈ ['u', 'U', 'L'] := hfirst.sound hm c rfl
      have hhead : ∀ c ∈ ['u', 'U', 'L'], c ∈ nameHead :=
        List.all_iff_forall_prop.mp (by decide)
      exact List.mem_cons_of_mem _ (List.mem_cons_of_mem _ (hhead c hc))
  rw [hfamily, hdrop]
  simp only [List.mem_cons, List.not_mem_nil, or_false] at hq
  rcases hq with rfl | rfl <;> rfl

/-- The kind that a text shows is that of the class that describes it. -/
theorem family_of_matches {k : TokenClass} (hk : k ∈ patterned) (hw : Matches k.pattern w) :
    family w = k.kind := by
  simp only [patterned, List.mem_cons, List.not_mem_nil, or_false] at hk
  rcases hk with rfl | rfl | rfl | rfl | rfl | rfl | rfl | rfl | rfl | rfl | rfl
  · exact family_whitespace hw
  · exact family_comment (.inl rfl) hw
  · exact family_comment (.inr rfl) hw
  · exact family_name hw
  · exact family_quoted (by decide) hw
  · exact family_quoted (by decide) hw
  · exact family_hexInteger hw
  · exact family_decimalInteger hw
  · exact family_pointedFloat hw
  · exact family_bareFloat hw
  · exact family_scaledFloat hw

/-! ## marks and reserved words -/

/-- the text of a class of one text -/
def spelling (k : TokenClass) : List Char :=
  match k.pattern with
  | .word text => text
  | _ => []

theorem pattern_of_mem_spelled {k : TokenClass} (hk : k ∈ spelled) :
    k.pattern = .word k.spelling ∧ k.kind ∈ TokenKind.all
      ∧ ∃ s, k.kind.spelling? = some s ∧ k.spelling = s.toList := by
  obtain ⟨kind, hmem, hs⟩ := List.mem_filterMap.mp hk
  obtain ⟨s, hspell, rfl⟩ := Option.map_eq_some_iff.mp hs
  exact ⟨rfl, hmem, s, hspell, rfl⟩

/-- what has no spelling of its own is of a class of many texts -/
theorem mem_patterned {k : TokenClass} (hk : k ∈ TokenClass.all) (hs : k.kind.spelling? = none) :
    k ∈ patterned := by
  rcases List.mem_append.mp hk with hk | hk
  · obtain ⟨-, -, s, hspell, -⟩ := pattern_of_mem_spelled hk
    rw [hs] at hspell
    cases hspell
  · exact hk

/-- A reserved word shows itself as a name, and no class of the kind that a mark shows has the
mark. -/
def standsAlone (k : TokenClass) : Bool :=
  if k.kind.isKeyword then family k.spelling = .ident
  else (patterned.filter (·.kind = family k.spelling)).all (!·.pattern.accepts k.spelling)

theorem spelled_standsAlone : spelled.all standsAlone = true := by
  decide +kernel

/-- Of the classes with many texts, only that of names has the text of a class of one text, and only
if that is a reserved word. -/
theorem spelled_apart {s k : TokenClass} (hs : s ∈ spelled) (hk : k ∈ patterned)
    (hw : Matches k.pattern s.spelling) : k.kind = .ident ∧ s.kind.isKeyword = true := by
  have hfamily := family_of_matches hk hw
  have h := List.all_eq_true.mp spelled_standsAlone s hs
  rw [standsAlone] at h
  split at h
  · next hkey => exact ⟨by rw [← hfamily]; exact of_decide_eq_true h, hkey⟩
  · have hm : k ∈ patterned.filter (·.kind = family s.spelling) :=
      List.mem_filter.mpr ⟨hk, decide_eq_true hfamily.symm⟩
    have ha := List.all_eq_true.mp h k hm
    rw [(accepts_iff k.pattern s.spelling).mpr hw] at ha
    cases ha

/-- a number for a text -/
def code (w : List Char) : Nat := w.foldl (fun n c => 0x110000 * n + c.toNat) 0

theorem spelled_codes : (spelled.map fun k => code k.spelling).Nodup := by
  decide +kernel

/-- two marks or reserved words are spelled differently -/
theorem spelled_distinct {s k : TokenClass} (hs : s ∈ spelled) (hk : k ∈ spelled)
    (h : s.spelling = k.spelling) : s = k :=
  List.inj_on_of_nodup_map spelled_codes hs hk (congrArg code h)

end TokenClass

/-! ## all classes -/

open Pattern TokenClass

/-- Some class of the kind describes the text. -/
def Lexeme (kind : TokenKind) (w : List Char) : Prop :=
  ∃ k ∈ TokenClass.all, k.kind = kind ∧ Matches k.pattern w

theorem Lexeme.ne_nil {kind : TokenKind} {w : List Char} (h : Lexeme kind w) : w ≠ [] := by
  obtain ⟨k, hk, -, hw⟩ := h
  have hall : TokenClass.all.all (!·.pattern.complete) = true := by decide
  rintro rfl
  have hc := List.all_eq_true.mp hall k hk
  rw [(complete_iff k.pattern).mpr hw] at hc
  cases hc

/-- A text of two kinds is a reserved word, and one of the kinds is that of names. -/
theorem Lexeme.unique {kind other : TokenKind} {w : List Char} (h : Lexeme kind w)
    (h' : Lexeme other w) : kind = other ∨ (other = .ident ∧ kind.isKeyword = true)
      ∨ (kind = .ident ∧ other.isKeyword = true) := by
  obtain ⟨k, hk, rfl, hw⟩ := h
  obtain ⟨k', hk', rfl, hw'⟩ := h'
  have spelled_text : ∀ {s : TokenClass}, s ∈ spelled → Matches s.pattern w → w = s.spelling := by
    intro s hs hm
    rw [(pattern_of_mem_spelled hs).1] at hm
    exact matches_word.mp hm
  rcases List.mem_append.mp hk with hk | hk <;> rcases List.mem_append.mp hk' with hk' | hk'
  · have he := (spelled_text hk hw).symm.trans (spelled_text hk' hw')
    exact .inl (congrArg TokenClass.kind (TokenClass.spelled_distinct hk hk' he))
  · rw [spelled_text hk hw] at hw'
    exact .inr (.inl (TokenClass.spelled_apart hk hk' hw'))
  · rw [spelled_text hk' hw'] at hw
    exact .inr (.inr (TokenClass.spelled_apart hk' hk hw))
  · exact .inl ((family_of_matches hk hw).symm.trans (family_of_matches hk' hw'))

end CppMend
