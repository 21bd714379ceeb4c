import CppMend.Proofs.Lexical.Families
import CppMend.Proofs.Lexical.Tiling
import CppMend.Proofs.Text.Boundaries

/-!
# The longest text at a place

`munch` drops a class as soon as it cannot go on, and keeps the last complete text on its way. So it
ends with the longest text that any class describes, and with the class listed first of those that
describe it.

* `TokenClass.kindOf?`      the kind of a text: that of the first class that describes it;
* `Longest`                 the longest start of a text that has a kind;
* `munch_best`              `munch` finds it;
* `scan_split`              what follows a token is cut as a text of its own;
* `scan_munches`            each token of a text is the longest one at its place.
-/

namespace CppMend

open Pattern

namespace TokenClass

/-! ## the kind of a text -/

/-- the kind of the first class that describes a text -/
def kindOf? (ks : List TokenClass) (w : List Char) : Option TokenKind :=
  (ks.find? (·.pattern.accepts w)).map (·.kind)

/-- The classes that survive a character describe what may come after it. -/
theorem kindOf?_survivors (c : Char) (ks : List TokenClass) (w : List Char) :
    kindOf? (survivors c ks) w = kindOf? ks (c :: w) := by
  induction ks with
  | nil => rfl
  | cons k ks ih =>
    rw [kindOf?, kindOf?] at ih
    rw [kindOf?, kindOf?, survivors, List.map_cons, List.filter_cons, List.find?_cons, accepts]
    cases hh : (k.pattern.after c).hopeless with
    | true =>
      rw [accepts_of_hopeless hh]
      exact ih
    | false =>
      show Option.map _ (List.find? _ ({ k with pattern := k.pattern.after c } :: survivors c ks)) = _
      rw [List.find?_cons]
      cases (k.pattern.after c).accepts w with
      | true => rfl
      | false => exact ih

theorem kindOf?_eq_none {w : List Char} : kindOf? all w = none ↔ ∀ kind, ¬Lexeme kind w := by
  rw [kindOf?, Option.map_eq_none_iff, List.find?_eq_none]
  simp only [accepts_iff]
  constructor
  · rintro h kind ⟨k, hk, -, hw⟩
    exact h k hk hw
  · exact fun h k hk hw => h k.kind ⟨k, hk, rfl, hw⟩

theorem lexeme_of_kindOf? {w : List Char} {kind : TokenKind} (h : kindOf? all w = some kind) :
    Lexeme kind w := by
  obtain ⟨k, hk, rfl⟩ := Option.map_eq_some_iff.mp h
  have hw := List.find?_some (p := fun k : TokenClass => k.pattern.accepts w) hk
  exact ⟨k, List.mem_of_find?_eq_some hk, rfl, (accepts_iff k.pattern w).mp hw⟩

/-- The classes of reserved words are listed before that of names. -/
theorem kindOf?_ne_ident {w : List Char} {kind : TokenKind} (hw : Lexeme kind w)
    (hkey : kind.isKeyword = true) : kindOf? all w ≠ some .ident := by
  intro h
  obtain ⟨k, hk, hki⟩ := Option.map_eq_some_iff.mp h
  obtain ⟨s, hs, rfl, hm⟩ := hw
  have hspelled : s ∈ spelled := by
    rcases List.mem_append.mp hs with hs | hs
    · exact hs
    · have hp : patterned.all (!·.kind.isKeyword) = true := by decide
      have hn := List.all_eq_true.mp hp s hs
      rw [hkey] at hn
      cases hn
  -- so a class of one text comes first
  rw [all, List.find?_append] at hk
  cases hf : spelled.find? (·.pattern.accepts w) with
  | none =>
    have hn := List.find?_eq_none.mp hf s hspelled
    exact hn ((accepts_iff s.pattern w).mpr hm)
  | some f =>
    rw [hf, Option.some_or, Option.some.injEq] at hk
    subst hk
    obtain ⟨-, -, text, ht, -⟩ := pattern_of_mem_spelled (List.mem_of_find?_eq_some hf)
    rw [hki] at ht
    cases ht

/-- of two kinds of a text, a reserved word is preferred to a name -/
theorem kind_unique {w : List Char} {kind other : TokenKind} (h : kindOf? all w = some kind)
    (hw : Lexeme other w) : other = kind ∨ (other = .ident ∧ kind.isKeyword = true) := by
  rcases (lexeme_of_kindOf? h).unique hw with he | hi | ⟨hi, hkey⟩
  · exact .inl he.symm
  · exact .inr hi
  · rw [hi] at h
    exact absurd h (kindOf?_ne_ident hw hkey)

end TokenClass

open TokenClass

/-! ## the longest start of a text -/

/-- The first `n` characters of a text have a kind, and no more of them do. -/
structure Longest (ks : List TokenClass) (cs : Text) (kind : TokenKind) (n : Nat) : Prop where
  pos : 0 < n
  le : n ≤ cs.length
  kind : kindOf? ks (cs.take n) = some kind
  last : ∀ m, n < m → m ≤ cs.length → kindOf? ks (cs.take m) = none

/-- Only one start of a text is the longest. -/
theorem Longest.unique {ks : List TokenClass} {cs : Text} {kind kind' : TokenKind} {n m : Nat}
    (h : Longest ks cs kind n) (h' : Longest ks cs kind' m) : kind = kind' ∧ n = m := by
  have le {kind kind' : TokenKind} {n m : Nat} (h : Longest ks cs kind n)
      (h' : Longest ks cs kind' m) : m ≤ n := by
    refine Nat.le_of_not_lt fun hlt => ?_
    have hkind := h'.kind
    rw [h.last m hlt h'.le] at hkind
    cases hkind
  obtain rfl : n = m := Nat.le_antisymm (le h' h) (le h h')
  exact ⟨Option.some.inj (h.kind.symm.trans h'.kind), rfl⟩

/-- no start of a text has a kind -/
def NoneFits (ks : List TokenClass) (cs : Text) : Prop :=
  ∀ m, 0 < m → m ≤ cs.length → kindOf? ks (cs.take m) = none

/-- One character more. The best text so far is one character longer if a class is complete now. -/
theorem munch_cons {ks : List TokenClass} {c : Char} (hs : survivors c ks ≠ []) (taken : Nat)
    (best? : Option (TokenKind × Nat)) (cs : Text) :
    munch ks taken best? (c :: cs)
      = munch (survivors c ks) (taken + 1)
          (((survivors c ks).find? (·.pattern.complete)).elim best?
            fun done => some (done.kind, taken + 1)) cs := by
  rw [munch]
  split
  · next h => exact absurd h hs
  · next k rest h =>
    rw [h]
    cases (k :: rest).find? (·.pattern.complete) <;> rfl

theorem kindOf?_nil (w : List Char) : kindOf? [] w = none := rfl

/-- By induction on the text: what the classes that are left find behind the first character, all of
them find one character later. -/
theorem munch_best (ks : List TokenClass) (taken : Nat) (best? : Option (TokenKind × Nat))
    (cs : Text) :
    (∃ kind n, Longest ks cs kind n ∧ (munch ks taken best? cs).best? = some (kind, taken + n))
      ∨ (NoneFits ks cs ∧ (munch ks taken best? cs).best? = best?) := by
  induction cs generalizing ks taken best? with
  | nil =>
    refine .inr ⟨fun m hm hle => ?_, rfl⟩
    rw [List.length_nil] at hle
    omega
  | cons c cs ih =>
    have step : ∀ m, kindOf? ks ((c :: cs).take (m + 1)) = kindOf? (survivors c ks) (cs.take m) :=
      fun m => (kindOf?_survivors c ks (cs.take m)).symm
    -- what has no kind behind the character has none with it
    have none_after : ∀ {n}, (∀ m, n < m → m ≤ cs.length →
        kindOf? (survivors c ks) (cs.take m) = none) →
        ∀ m, n + 1 < m → m ≤ (c :: cs).length → kindOf? ks ((c :: cs).take m) = none := by
      intro n h m hm hle
      obtain ⟨m, rfl⟩ : ∃ j, m = j + 1 := ⟨m - 1, by omega⟩
      rw [step]
      exact h m (by omega) (by rw [List.length_cons] at hle; omega)
    by_cases hs : survivors c ks = []
    · refine .inr ⟨fun m hm hle => ?_, ?_⟩
      · obtain ⟨m, rfl⟩ : ∃ j, m = j + 1 := ⟨m - 1, by omega⟩
        rw [step, hs, kindOf?_nil]
      · rw [munch, hs]
    · rw [munch_cons hs]
      rcases ih (survivors c ks) (taken + 1) (((survivors c ks).find? (·.pattern.complete)).elim best?
          fun done => some (done.kind, taken + 1)) with ⟨kind, n, hl, hb⟩ | ⟨hn, hb⟩
      · refine .inl ⟨kind, n + 1, ⟨Nat.succ_pos n, Nat.succ_le_succ hl.le, ?_, none_after hl.last⟩, ?_⟩
        · rw [step]
          exact hl.kind
        · rw [hb, Nat.add_assoc, Nat.add_comm 1 n]
      · -- nothing longer than the one character
        have hfirst : kindOf? ks ((c :: cs).take 1)
            = ((survivors c ks).find? (·.pattern.complete)).map (·.kind) := step 0
        have hlater := none_after (n := 0) fun m hm hle => hn m hm hle
        cases hd : (survivors c ks).find? (·.pattern.complete) with
        | some done =>
          rw [hd] at hb hfirst
          refine .inl ⟨done.kind, 1, ⟨Nat.one_pos, ?_, hfirst, hlater⟩, hb⟩
          rw [List.length_cons]
          omega
        | none =>
          rw [hd] at hb hfirst
          refine .inr ⟨fun m hm hle => ?_, hb⟩
          by_cases h1 : m = 1
          · rw [h1]
            exact hfirst
          · exact hlater m (by omega) hle

/-! ## the tokens of a text -/

/-- The first token of a text is the longest one that some class describes, or an error. -/
theorem scan_first (c : Char) (rest : Text) :
    (∃ kind n, Longest TokenClass.all (c :: rest) kind n
        ∧ scan (c :: rest) = ⟨kind, (c :: rest).take n⟩ :: scan ((c :: rest).drop n))
      ∨ (NoneFits TokenClass.all (c :: rest) ∧ ∃ n,
          scan (c :: rest) = ⟨.error, c :: rest.take n⟩ :: scan (rest.drop n)) := by
  rcases munch_best TokenClass.all 0 none (c :: rest) with ⟨kind, n, hl, hb⟩ | ⟨hn, hb⟩
  · refine .inl ⟨kind, n, hl, ?_⟩
    have hv : (munch TokenClass.all 0 none (c :: rest)).verdict = (kind, n) := by
      rw [Reach.verdict, hb, Nat.zero_add]
      rfl
    obtain ⟨n, rfl⟩ : ∃ j, n = j + 1 := ⟨n - 1, by have := hl.pos; omega⟩
    rw [scan, hv]
    rfl
  · refine .inr ⟨hn, (munch TokenClass.all 0 none (c :: rest)).stuck - 1, ?_⟩
    have hv : (munch TokenClass.all 0 none (c :: rest)).verdict
        = (.error, (munch TokenClass.all 0 none (c :: rest)).stuck) := by
      rw [Reach.verdict, hb]
      rfl
    rw [scan, hv]

/-- The longest start of a text that has a kind is the first token. -/
theorem scan_longest {text : Text} {kind : TokenKind} {n : Nat}
    (h : Longest TokenClass.all text kind n) :
    scan text = ⟨kind, text.take n⟩ :: scan (text.drop n) := by
  cases text with
  | nil => exact absurd (Nat.lt_of_lt_of_le h.pos h.le) (Nat.lt_irrefl 0)
  | cons c rest =>
    rcases scan_first c rest with ⟨kind', m, hm, hs⟩ | ⟨hn, -⟩
    · obtain ⟨rfl, rfl⟩ := h.unique hm
      exact hs
    · have hkind := h.kind
      rw [hn n h.pos h.le] at hkind
      cases hkind

/-- The tokens from some place on are those of what the text has from there on. -/
theorem scan_split {text : Text} {before after : List Token} (h : scan text = before ++ after) :
    scan (after.flatMap (·.text)) = after := by
  induction before generalizing text with
  | nil => rw [← List.nil_append after, ← h, scan_text, h]
  | cons t before ih =>
    cases text with
    | nil =>
      rw [scan_nil] at h
      cases h
    | cons c rest =>
      obtain ⟨kind, size, hs⟩ := scan_cons c rest
      rw [hs, List.cons_append, List.cons.injEq] at h
      exact ih h.2

theorem exists_take_of_prefix {cs w : Text} (h : w <+: cs) : w = cs.take w.length :=
  List.prefix_iff_eq_take.mp h

/-- what the first token of a text is -/
theorem scan_head {t : Token} {after : List Token} {cs : Text} (h : scan cs = t :: after) :
    t.text ≠ [] ∧ ((∃ kind w, w <+: cs ∧ Lexeme kind w) →
        Lexeme t.kind t.text
          ∧ (∀ kind w, w <+: cs → Lexeme kind w → w.length ≤ t.text.length)
          ∧ ∀ kind, Lexeme kind t.text → kind = t.kind ∨ (kind = .ident ∧ t.kind.isKeyword = true))
      ∧ ((¬∃ kind w, w <+: cs ∧ Lexeme kind w) → t.kind = .error) := by
  cases cs with
  | nil =>
    rw [scan_nil] at h
    cases h
  | cons c rest =>
    have pos_of_lexeme : ∀ {kind : TokenKind} {w : Text}, Lexeme kind w → 0 < w.length :=
      fun hw => List.length_pos_of_ne_nil hw.ne_nil
    rcases scan_first c rest with ⟨kind, n, hl, hs⟩ | ⟨hn, n, hs⟩
    · rw [hs, List.cons.injEq] at h
      obtain ⟨rfl, -⟩ := h
      have hlex : Lexeme kind ((c :: rest).take n) := lexeme_of_kindOf? hl.kind
      refine ⟨hlex.ne_nil, fun _ => ⟨hlex, ?_, fun other ho => kind_unique hl.kind ho⟩, ?_⟩
      · intro other w hw ho
        show w.length ≤ ((c :: rest).take n).length
        rw [List.length_take, Nat.min_eq_left hl.le]
        -- a longer text has no kind
        by_contra hlong
        have hk := hl.last w.length (by omega) hw.length_le
        rw [← exists_take_of_prefix hw] at hk
        exact kindOf?_eq_none.mp hk other ho
      · intro hno
        exact absurd ⟨kind, _, List.take_prefix n _, hlex⟩ hno
    · rw [hs, List.cons.injEq] at h
      obtain ⟨rfl, -⟩ := h
      refine ⟨List.cons_ne_nil _ _, ?_, fun _ => rfl⟩
      rintro ⟨kind, w, hw, hlex⟩
      have hk := hn w.length (pos_of_lexeme hlex) hw.length_le
      rw [← exists_take_of_prefix hw] at hk
      exact absurd hlex (kindOf?_eq_none.mp hk kind)

/-- The tokens of a text tile it, each the longest one at its place. None is empty, all begin and end
between characters, and together they are the text. Where some class describes a start of what is left
of the text, the token there is the longest such start, and its kind is that of a class that describes
it, of a reserved word rather than of names; where none does, the token is an error. No text at all is
of two kinds, but for a reserved word, which is spelled as a name. -/
theorem scan_munches (text : Text) :
    (scan text).flatMap (·.text) = text
      ∧ (∀ before t after, scan text = before ++ t :: after →
          t.text ≠ []
          ∧ Text.isBoundary (Text.byteSize (before.flatMap (·.text))) text = true
          ∧ Text.isBoundary (Text.byteSize ((before ++ [t]).flatMap (·.text))) text = true
          ∧ ((∃ kind w, w <+: (t :: after).flatMap (·.text) ∧ Lexeme kind w) →
              Lexeme t.kind t.text
                ∧ (∀ kind w, w <+: (t :: after).flatMap (·.text) → Lexeme kind w →
                    w.length ≤ t.text.length)
                ∧ ∀ kind, Lexeme kind t.text →
                    kind = t.kind ∨ (kind = .ident ∧ t.kind.isKeyword = true))
          ∧ ((¬∃ kind w, w <+: (t :: after).flatMap (·.text) ∧ Lexeme kind w) → t.kind = .error))
      ∧ ∀ w kind other, Lexeme kind w → Lexeme other w → kind = other
          ∨ (other = .ident ∧ kind.isKeyword = true) ∨ (kind = .ident ∧ other.isKeyword = true) := by
  refine ⟨scan_text text, ?_, fun _ _ _ h h' => h.unique h'⟩
  intro before t after h
  have htext := scan_text text
  rw [h, List.flatMap_append] at htext
  obtain ⟨hne, hfits, hnone⟩ := scan_head (scan_split h)
  refine ⟨hne, ?_, ?_, hfits, hnone⟩
  · exact Text.isBoundary_iff.mpr ⟨_, _, htext.symm, rfl⟩
  · refine Text.isBoundary_iff.mpr ⟨_, after.flatMap (·.text), ?_, rfl⟩
    rw [← htext, List.flatMap_cons, List.flatMap_append, List.append_assoc, List.flatMap_singleton]

/-- a number that stops before an exponent without digits -/
theorem scan_munches_fraction :
    scan "x.5e+".toList = [⟨.ident, ['x']⟩] ++ ⟨.float, ['.', '5']⟩ :: [⟨.ident, ['e']⟩, ⟨.plus, ['+']⟩]
      ∧ ∀ kind w, w <+: ".5e+".toList → Lexeme kind w → w.length ≤ 2 := by
  have h : scan "x.5e+".toList
      = [⟨.ident, ['x']⟩] ++ ⟨.float, ['.', '5']⟩ :: [⟨.ident, ['e']⟩, ⟨.plus, ['+']⟩] := by
    decide +kernel
  obtain ⟨-, -, -, hfits, -⟩ := (scan_munches "x.5e+".toList).2.1 _ _ _ h
  have hdot : Lexeme .dot ['.'] := lexeme_of_kindOf? (by decide)
  exact ⟨h, (hfits ⟨.dot, ['.'], by decide, hdot⟩).2.1⟩

end CppMend
