import CppMend.Proofs.Lexical.Blanks

/-!
# Names between colons

A name ends where a blank or a colon follows, and `::` ends wherever it stands. So names with `::`
between them are cut at the colons.

* `Token.name_endsAt`, `Token.colons_endsAt`  where a name and where `::` ends;
* `Token.scan_qualified`                      the tokens of a qualified name.
-/

namespace CppMend

open Pattern TokenClass

namespace Token

/-- the token of a name -/
def ofName (w : Text) : Token := ⟨.ident, w⟩

/-- the token `::` -/
def colons : Token := ⟨.doubleColon, [':', ':']⟩

/-- a text that is a name, and no reserved word -/
def IsName (w : Text) : Prop := kindOf? TokenClass.all w = some .ident

instance (w : Text) : Decidable (IsName w) := inferInstanceAs (Decidable (_ = _))

theorem pattern_of_ident {k : TokenClass} (hk : k ∈ patterned) (hi : k.kind = .ident) :
    k.pattern = name := by
  have heq : patterned.filter (fun k => k.kind = .ident) = [⟨.ident, name⟩] := rfl
  have hmem : k ∈ patterned.filter (fun k => k.kind = .ident) :=
    List.mem_filter.mpr ⟨hk, decide_eq_true hi⟩
  rw [heq, List.mem_singleton] at hmem
  rw [hmem]

theorem only_name : name.Only (· ∈ nameTail) :=
  ⟨only_oneOf.mpr fun _ h => List.mem_append_left _ h, only_oneOf.mpr fun _ h => h⟩

/-- a name starts with a letter, and goes on with letters and digits -/
theorem IsName.parts {w : Text} (h : IsName w) :
    (∃ c r, w = c :: r ∧ c ∈ nameHead) ∧ ∀ c ∈ w, c ∈ nameTail := by
  obtain ⟨k, hk, hi, hm⟩ := lexeme_of_kindOf? h
  rw [pattern_of_ident (mem_patterned hk (by rw [hi]; rfl)) hi] at hm
  have hb : name.Begins (· ∈ nameHead) := ⟨begins_oneOf.mpr fun _ h => h, nofun⟩
  exact ⟨exists_head rfl hb hm, only_name.sound hm⟩

/-- what is written with a letter first has no mark in it -/
theorem spelled_words : spelled.all (fun k => k.spelling.head?.all (· ∉ nameHead)
    || k.spelling.all (· ∈ nameTail)) = true := by
  decide +kernel

/-- What goes on after letters and digits with another character has no quote where a literal has it. -/
theorem head?_ne_quote {w u : Text} {c q : Char} (hw : ∀ d ∈ w, d ∈ nameTail) (hc : c ∉ marks)
    (hcq : c ≠ q) (hq : q ∉ nameTail) : ((w ++ c :: u).dropWhile (· ∈ marks)).head? ≠ some q := by
  rw [List.dropWhile_append]
  split
  · rw [List.dropWhile_cons, if_neg (by simpa using hc)]
    exact fun heq => hcq (Option.some.inj heq)
  · next hne =>
    intro heq
    have hne : w.dropWhile (· ∈ marks) ≠ [] := by simpa using hne
    rw [List.head?_append_of_ne_nil _ hne] at heq
    exact hq (hw q ((List.dropWhile_suffix _).subset (List.mem_of_head? heq)))

theorem name_endsAt {w : Text} (h : IsName w) {c : Char} (hc : c ∈ [' ', ':']) :
    (ofName w).EndsAt c := by
  refine ⟨h, fun u => kindOf?_eq_none.mpr ?_⟩
  rintro kind ⟨k, hk, -, hm⟩
  obtain ⟨⟨d, r, hw, hd⟩, hall⟩ := h.parts
  have hout : ∀ c ∈ [' ', ':'], c ∉ nameTail ∧ c ∉ marks ∧ c ≠ '\'' ∧ c ≠ '"' :=
    List.all_iff_forall_prop.mp (by decide)
  obtain ⟨htail, hmark, hsingle, hdouble⟩ := hout c hc
  have hmem : c ∈ w ++ c :: u := List.mem_append_right _ List.mem_cons_self
  have htext : w ++ c :: u = d :: (r ++ c :: u) := by rw [hw, List.cons_append]
  change Matches k.pattern (w ++ c :: u) at hm
  rcases List.mem_append.mp hk with hk | hk
  · rw [(pattern_of_mem_spelled hk).1] at hm
    have hword := List.all_eq_true.mp spelled_words k hk
    rw [← matches_word.mp hm, Bool.or_eq_true] at hword
    rcases hword with hhead | hword
    · rw [htext] at hhead
      exact absurd hd (of_decide_eq_true hhead)
    · exact htail (of_decide_eq_true (List.all_eq_true.mp hword c hmem))
  · -- no quote comes before the blank or the colon, so that it is no literal
    have hfamily : family (w ++ c :: u) = .ident := by
      rw [htext, family_other (List.mem_cons_of_mem _ (List.mem_cons_of_mem _ hd)), ← htext,
        if_neg (head?_ne_quote hall hmark hsingle (by decide)),
        if_neg (head?_ne_quote hall hmark hdouble (by decide))]
    have hi : k.kind = .ident := by rw [← family_of_matches hk hm, hfamily]
    rw [pattern_of_ident hk hi] at hm
    exact htail (only_name.sound hm c hmem)

theorem colons_endsAt (c : Char) : colons.EndsAt c := by
  refine endsAt_of_afterText (by decide) ?_
  have hleft : afterText TokenClass.all colons.text = [⟨.doubleColon, .word []⟩] := rfl
  rw [hleft]
  rfl

/-! ## qualified names -/

/-- the tokens of a name and of the names after it, with `::` before each of these -/
def qualified (w : Text) (ws : List Text) : List Token :=
  ofName w :: ws.flatMap fun w => [colons, ofName w]

theorem scan_qualified {w : Text} {ws : List Text} (h : ∀ v ∈ w :: ws, IsName v) (rest : Text) :
    scan (Text.joined [':', ':'] (w :: ws) ++ ' ' :: rest) = qualified w ws ++ scan (' ' :: rest) := by
  induction ws generalizing w with
  | nil => exact scan_endsAt (name_endsAt (h w List.mem_cons_self) (by decide)) rest
  | cons v ws ih =>
    have hw : (ofName w).EndsAt ':' := name_endsAt (h w List.mem_cons_self) (by decide)
    have hrest := ih fun x hx => h x (List.mem_cons_of_mem w hx)
    have htext : Text.joined [':', ':'] (w :: v :: ws) ++ ' ' :: rest
        = w ++ ':' :: ':' :: (Text.joined [':', ':'] (v :: ws) ++ ' ' :: rest) := by
      show w ++ [':', ':'] ++ Text.joined [':', ':'] (v :: ws) ++ ' ' :: rest = _
      simp only [List.append_assoc, List.cons_append, List.nil_append]
    have hne : Text.joined [':', ':'] (v :: ws) ++ ' ' :: rest ≠ [] :=
      List.append_ne_nil_of_right_ne_nil _ (List.cons_ne_nil _ _)
    obtain ⟨c, u, hu⟩ := List.exists_cons_of_ne_nil hne
    have hcolons : scan (':' :: ':' :: c :: u) = colons :: scan (c :: u) :=
      scan_endsAt (colons_endsAt c) u
    have hname : scan (w ++ ':' :: ':' :: c :: u) = ofName w :: scan (':' :: ':' :: c :: u) :=
      scan_endsAt hw (':' :: c :: u)
    rw [htext, hu, hname, hcolons, ← hu, hrest]
    rfl

end Token

end CppMend
