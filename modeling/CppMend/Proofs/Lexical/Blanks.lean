import CppMend.Grammar.Cue
import CppMend.Proofs.Lexical.Munch
import CppMend.Text.Pieces

/-!
# Tokens with blanks between them

Some tokens are the same whatever text they are in, as long as a blank follows them. A text that is
made of such tokens and of one blank between each two is cut at its blanks.

* `Token.EndsAt`          the token ends where a certain character follows;
* `Token.scan_endsAt`     then it is the first token of a text that begins so;
* `Token.IsPlain`         it ends at a blank and at a `;`, and it starts with no blank;
* `Token.isPlain_of_cutsPlainly`, `Token.isPlain_numeral`  a fixed token, by computation, and integers;
* `Token.scan_line`       cutting a line of such tokens.
-/

namespace CppMend

open Pattern TokenClass

namespace TokenClass

/-- the classes that can still go on after a text -/
def afterText (ks : List TokenClass) (w : List Char) : List TokenClass :=
  w.foldl (fun ks c => survivors c ks) ks

theorem kindOf?_afterText (ks : List TokenClass) (w u : List Char) :
    kindOf? (afterText ks w) u = kindOf? ks (w ++ u) := by
  induction w generalizing ks with
  | nil => rfl
  | cons c w ih =>
    show kindOf? (afterText (survivors c ks) w) u = _
    rw [ih, kindOf?_survivors]
    rfl

end TokenClass

namespace Token

/-! ## where a token ends -/

/-- The token is of its kind, and no text of any kind goes on after it with the character. -/
structure EndsAt (t : Token) (c : Char) : Prop where
  kind : kindOf? TokenClass.all t.text = some t.kind
  last : ∀ u, kindOf? TokenClass.all (t.text ++ c :: u) = none

theorem EndsAt.text_ne_nil {t : Token} {c : Char} (h : t.EndsAt c) : t.text ≠ [] :=
  (lexeme_of_kindOf? h.kind).ne_nil

/-- Such a token is the longest text at the start of what it begins. -/
theorem EndsAt.longest {t : Token} {c : Char} (h : t.EndsAt c) (rest : Text) :
    Longest TokenClass.all (t.text ++ c :: rest) t.kind t.text.length where
  pos := List.length_pos_of_ne_nil h.text_ne_nil
  le := by
    rw [List.length_append]
    omega
  kind := by
    rw [List.take_left]
    exact h.kind
  last := by
    -- a longer start goes on with the character
    intro m hm _
    obtain ⟨k, rfl⟩ : ∃ k, m = t.text.length + (k + 1) := ⟨m - t.text.length - 1, by omega⟩
    rw [List.take_length_add_append, List.take_succ_cons, h.last]

theorem scan_endsAt {t : Token} {c : Char} (h : t.EndsAt c) (rest : Text) :
    scan (t.text ++ c :: rest) = t :: scan (c :: rest) := by
  rw [scan_longest (h.longest rest), List.take_left, List.drop_left]

theorem endsAt_of_afterText {t : Token} {c : Char}
    (hk : kindOf? (afterText TokenClass.all t.text) [] = some t.kind)
    (hs : (survivors c (afterText TokenClass.all t.text)).isEmpty = true) : t.EndsAt c := by
  constructor
  · rw [← hk, kindOf?_afterText, List.append_nil]
  · intro u
    rw [← kindOf?_afterText, ← kindOf?_survivors, List.isEmpty_iff.mp hs, kindOf?_nil]

/-! ## plain tokens -/

structure IsPlain (t : Token) : Prop where
  blank : t.EndsAt ' '
  semicolon : t.EndsAt ';'
  head : ∀ c ∈ t.text.head?, c ∉ blanks
  mark : t.mark = .plain
  significant : t.isTrivia = false

/-- the mark or the reserved word of a kind -/
def ofKind (k : TokenKind) : Token := ⟨k, (k.spelling?.getD "").toList⟩

/-- what makes a token plain, by computation; `left` are the classes that its text leaves -/
def cutsPlainly (t : Token) (left : List TokenClass) : Bool :=
  kindOf? left [] = some t.kind && (survivors ' ' left).isEmpty && (survivors ';' left).isEmpty
    && t.text.head?.all (· ∉ blanks) && t.mark = .plain && !t.isTrivia

theorem isPlain_of_cutsPlainly {t : Token}
    (h : t.cutsPlainly (afterText TokenClass.all t.text) = true) : t.IsPlain := by
  simp only [cutsPlainly, Bool.and_eq_true, decide_eq_true_eq, Bool.not_eq_true'] at h
  obtain ⟨⟨⟨⟨⟨hk, hb⟩, hs⟩, hh⟩, hm⟩, ht⟩ := h
  refine ⟨endsAt_of_afterText hk hb, endsAt_of_afterText hk hs, fun c hc => ?_, hm, ht⟩
  rw [Option.mem_def.mp hc] at hh
  exact of_decide_eq_true hh

/-! ### numbers -/

/-- the classes of numbers -/
def numeric : List TokenClass :=
  [⟨.integer, hexInteger⟩, ⟨.integer, decimalInteger⟩, ⟨.float, pointedFloat⟩, ⟨.float, bareFloat⟩,
   ⟨.float, scaledFloat⟩]

theorem mem_numeric {k : TokenClass} (hk : k ∈ patterned)
    (hn : k.kind = .integer ∨ k.kind = .float) : k ∈ numeric := by
  have heq : patterned.filter (fun k => k.kind = .integer ∨ k.kind = .float) = numeric := rfl
  rw [← heq]
  exact List.mem_filter.mpr ⟨hk, decide_eq_true hn⟩

/-- No number has a blank or a `;` in it. -/
theorem only_numeric {k : TokenClass} (hk : k ∈ numeric) : k.pattern.Only (· ∉ [' ', ';']) := by
  have hdigits : (plus (oneOf digits)).Only (· ∉ [' ', ';']) :=
    ⟨only_set (by decide), only_set (by decide)⟩
  have hexponent : exponent.Only (· ∉ [' ', ';']) :=
    ⟨only_set (by decide), ⟨nofun, only_set (by decide)⟩, hdigits⟩
  have hpoint : (Pattern.word ['.']).Only (· ∉ [' ', ';']) :=
    List.all_iff_forall_prop.mp (by decide)
  have hmark : (opt (oneOf floatMarks)).Only (· ∉ [' ', ';']) := ⟨nofun, only_set (by decide)⟩
  simp only [numeric, List.mem_cons, List.not_mem_nil, or_false] at hk
  rcases hk with rfl | rfl | rfl | rfl | rfl
  · have hzero : (Pattern.word ['0']).Only (· ∉ [' ', ';']) :=
      List.all_iff_forall_prop.mp (by decide)
    exact ⟨hzero, only_set (by decide),
      ⟨only_set (by decide), only_set (by decide)⟩, only_set (by decide)⟩
  · exact ⟨hdigits, only_set (by decide)⟩
  · exact ⟨hdigits, hpoint, hdigits.2, ⟨nofun, hexponent⟩, hmark⟩
  · exact ⟨hpoint, hdigits, ⟨nofun, hexponent⟩, hmark⟩
  · exact ⟨hdigits, hexponent, hmark⟩

theorem spelled_starts :
    spelled.all (fun k => k.spelling.head?.all (· ∉ digits ++ blanks)) = true := by
  decide

/-- what starts with a digit or a blank is of no class of one text -/
theorem patterned_of_start {k : TokenClass} {c : Char} {r : List Char} (hk : k ∈ TokenClass.all)
    (hm : Matches k.pattern (c :: r)) (hc : c ∈ digits ++ blanks) : k ∈ patterned := by
  rcases List.mem_append.mp hk with hk | hk
  · rw [(pattern_of_mem_spelled hk).1] at hm
    have hstart := List.all_eq_true.mp spelled_starts k hk
    rw [← matches_word.mp hm] at hstart
    exact absurd hc (of_decide_eq_true hstart)
  · exact hk

/-- a text that starts with a digit is a number, if it is anything -/
theorem numeric_of_digit {kind : TokenKind} {c : Char} {r : List Char} (hc : c ∈ digits)
    (hw : Lexeme kind (c :: r)) : ∃ k ∈ numeric, k.kind = kind ∧ Matches k.pattern (c :: r) := by
  obtain ⟨k, hk, rfl, hm⟩ := hw
  have hk := patterned_of_start hk hm (List.mem_append_left _ hc)
  refine ⟨k, mem_numeric hk ?_, rfl, hm⟩
  rw [← family_of_matches hk hm, family_number (List.mem_cons_of_mem _ hc)]
  split
  · exact .inl rfl
  · split
    · exact .inr rfl
    · exact .inl rfl

/-- A digit is a number. -/
theorem lexeme_digit {c : Char} (hc : c ∈ digits) : Lexeme .integer [c] := by
  refine ⟨⟨.integer, decimalInteger⟩, List.mem_append_right _ (by simp [patterned]), rfl, ?_⟩
  have hall : digits.all (fun c => decimalInteger.accepts [c]) = true := by decide
  exact (accepts_iff _ _).mp (List.all_eq_true.mp hall c hc)

/-- an integer starts with a digit -/
theorem integer_head {w : List Char} (hw : Lexeme .integer w) : ∃ c r, w = c :: r ∧ c ∈ digits := by
  obtain ⟨k, hk, hkind, hm⟩ := hw
  have hpatterned : k ∈ patterned := mem_patterned hk (by rw [hkind]; rfl)
  have hint : k ∈ [⟨.integer, hexInteger⟩, ⟨.integer, decimalInteger⟩] := by
    have heq : patterned.filter (fun k => k.kind = .integer)
        = [⟨.integer, hexInteger⟩, ⟨.integer, decimalInteger⟩] := rfl
    rw [← heq]
    exact List.mem_filter.mpr ⟨hpatterned, decide_eq_true hkind⟩
  simp only [List.mem_cons, List.not_mem_nil, or_false] at hint
  rcases hint with rfl | rfl
  · have hb : hexInteger.Begins (· ∈ digits) := by
      refine ⟨fun c hc => ?_, nofun⟩
      rw [← Option.some.inj hc]
      decide
    exact exists_head rfl hb hm
  · have hb : decimalInteger.Begins (· ∈ digits) := ⟨⟨begins_oneOf.mpr fun _ h => h, nofun⟩, nofun⟩
    exact exists_head rfl hb hm

/-- the token of an integer -/
def numeral (w : Text) : Token := ⟨.integer, w⟩

theorem kindOf?_integer {w : List Char} (hw : Lexeme .integer w) :
    kindOf? TokenClass.all w = some .integer := by
  cases hk : kindOf? TokenClass.all w with
  | none => exact absurd hw (kindOf?_eq_none.mp hk .integer)
  | some kind =>
    rcases kind_unique hk hw with rfl | ⟨h, -⟩
    · rfl
    · cases h

theorem numeral_endsAt {w : List Char} (hw : Lexeme .integer w) {c : Char} (hc : c ∈ [' ', ';']) :
    (numeral w).EndsAt c := by
  refine ⟨kindOf?_integer hw, fun u => kindOf?_eq_none.mpr fun kind hl => ?_⟩
  obtain ⟨d, r, rfl, hd⟩ := integer_head hw
  obtain ⟨k, hk, -, hm⟩ := numeric_of_digit hd hl
  have hmem : c ∈ d :: r ++ c :: u := List.mem_append_right _ List.mem_cons_self
  exact (only_numeric hk).sound hm c hmem hc

theorem isPlain_numeral {w : List Char} (hw : Lexeme .integer w) : (numeral w).IsPlain := by
  have hsep : ∀ c ∈ digits, c ∉ blanks := List.all_iff_forall_prop.mp (by decide)
  refine ⟨numeral_endsAt hw (by decide), numeral_endsAt hw (by decide), fun c hc => ?_, rfl, rfl⟩
  obtain ⟨d, r, rfl, hd⟩ := integer_head hw
  rw [← Option.some.inj hc]
  exact hsep d hd

/-! ## lines of tokens -/

def blank : Token := ⟨.whitespace, [' ']⟩

/-- the text of some tokens, with a blank between each two -/
def line (ts : List Token) : Text := Text.joined [' '] (ts.map (·.text))

theorem line_cons (t : Token) {ts : List Token} (hts : ts ≠ []) :
    line (t :: ts) = t.text ++ ' ' :: line ts := by
  obtain ⟨u, us, rfl⟩ := List.exists_cons_of_ne_nil hts
  show t.text ++ [' '] ++ line (u :: us) = _
  rw [List.append_assoc, List.singleton_append]

/-- A blank ends before what is not one. -/
theorem blank_endsAt {c : Char} (hc : c ∉ blanks) : blank.EndsAt c := by
  refine ⟨by decide, fun u => kindOf?_eq_none.mpr ?_⟩
  rintro kind ⟨k, hk, -, hm⟩
  have hk := patterned_of_start hk hm (by decide)
  have hkind : k.kind = .whitespace := (family_of_matches hk hm).symm
  have heq : patterned.filter (fun k => k.kind = .whitespace) = [⟨.whitespace, whitespace⟩] := rfl
  have hmem : k ∈ patterned.filter (fun k => k.kind = .whitespace) :=
    List.mem_filter.mpr ⟨hk, decide_eq_true hkind⟩
  rw [heq, List.mem_singleton] at hmem
  subst hmem
  have ho : whitespace.Only (· ∈ blanks) := ⟨only_oneOf.mpr fun _ h => h, only_oneOf.mpr fun _ h => h⟩
  exact hc (ho.sound hm c (List.mem_append_right _ List.mem_cons_self))

/-- Cutting a line gives back its tokens and the blanks between them. -/
theorem scan_line {ts : List Token} (hp : ∀ t ∈ ts, t.IsPlain) (hts : ts ≠ []) (rest : Text) :
    scan (line ts ++ ';' :: rest) = ts.intersperse blank ++ scan (';' :: rest) := by
  induction ts with
  | nil => exact absurd rfl hts
  | cons t ts ih =>
    have ht : t.IsPlain := hp t List.mem_cons_self
    cases ts with
    | nil => exact scan_endsAt ht.semicolon rest
    | cons u us =>
      have hu : u.IsPlain := hp u (List.mem_cons_of_mem _ List.mem_cons_self)
      have hrest := ih (fun v hv => hp v (List.mem_cons_of_mem t hv)) (List.cons_ne_nil _ _)
      -- the blank is a token of its own, since the next token starts with none
      obtain ⟨c, w, hw⟩ := List.exists_cons_of_ne_nil hu.blank.text_ne_nil
      have hc : c ∉ blanks := hu.head c (by rw [hw]; rfl)
      have hline : ∃ v, line (u :: us) ++ ';' :: rest = c :: v := by
        cases us with
        | nil => exact ⟨w ++ ';' :: rest, congrArg (· ++ ';' :: rest) hw⟩
        | cons v vs =>
          rw [line_cons u (List.cons_ne_nil v vs), hw]
          exact ⟨_, rfl⟩
      obtain ⟨v, hv⟩ := hline
      have hblank : scan (' ' :: c :: v) = blank :: scan (c :: v) :=
        scan_endsAt (blank_endsAt hc) v
      rw [line_cons t (List.cons_ne_nil u us), List.append_assoc, List.cons_append,
        scan_endsAt ht.blank, hv, hblank, ← hv, hrest]
      rfl

/-! ## what the grammar sees of a line -/

/-- the cue of a plain token inside of a line -/
def plainCue (t : Token) : Cue := ⟨t.kind, false, .plain⟩

theorem cuesFrom_line {ts : List Token} (hp : ∀ t ∈ ts, t.IsPlain) (us : List Token) :
    cuesFrom false (ts.intersperse blank ++ us) = ts.map plainCue ++ cuesFrom false us := by
  induction ts with
  | nil => rfl
  | cons t ts ih =>
    have ht : t.IsPlain := hp t List.mem_cons_self
    have hrest := ih fun v hv => hp v (List.mem_cons_of_mem t hv)
    have hfirst : ∀ vs, cuesFrom false (t :: vs) = t.plainCue :: cuesFrom false vs := by
      intro vs
      rw [cuesFrom, if_neg (by rw [ht.significant]; exact Bool.false_ne_true), ht.mark]
      rfl
    cases ts with
    | nil => exact hfirst us
    | cons u vs =>
      show cuesFrom false (t :: blank :: ((u :: vs).intersperse blank ++ us)) = _
      have hblank : blank.isTrivia = true := rfl
      rw [hfirst, cuesFrom, if_pos hblank]
      show t.plainCue :: cuesFrom false ((u :: vs).intersperse blank ++ us) = _
      rw [hrest]
      rfl

/-- the significant tokens of a line -/
theorem filter_line {ts : List Token} (hp : ∀ t ∈ ts, t.IsPlain) :
    (ts.intersperse blank).filter (!·.isTrivia) = ts := by
  induction ts with
  | nil => rfl
  | cons t ts ih =>
    have ht : t.isTrivia = false := (hp t List.mem_cons_self).significant
    have hrest := ih fun v hv => hp v (List.mem_cons_of_mem t hv)
    cases ts with
    | nil => rw [List.intersperse_singleton, List.filter_cons, ht]; rfl
    | cons u vs =>
      rw [List.intersperse_cons_cons, List.filter_cons, ht]
      show t :: ((u :: vs).intersperse blank).filter (!·.isTrivia) = _
      rw [hrest]

end Token

end CppMend
