import CppMend.Proofs.Tree.Construction
import CppMend.Proofs.Tree.Shapes
import Mathlib.Data.List.Forall2

/-!
# Layout does not matter

What blanks and comments a text has, and what its names are, does not matter for the shape of its
tree. Only the kinds of the significant tokens do, where lines break between them, and which tokens
are one of the three spellings that directives depend on.

* `Token.Alike`              the tokens of two texts agree in all that matters;
* `Token.Relaid`             they agree but for the layout and the choice of names;
* `Token.cues_eq_of_alike`   then the grammar sees the same;
* `parse_shape`              and the trees of the texts have the same shape.
-/

namespace CppMend

/-- A significant token, and the blanks and comments between it and the one before it. -/
structure Spaced where
  blanks : List Token
  token : Token
  deriving DecidableEq, Repr

namespace Spaced

/-- a line feed stands between the token and the one before it -/
def newLine (s : Spaced) : Bool := s.blanks.any Token.breaksLine

def kind (s : Spaced) : TokenKind := s.token.kind

def spells (word : String) (s : Spaced) : Bool := s.token.text = word.toList

/-- a backslash, which is a token of no kind -/
def joins (s : Spaced) : Bool := s.token.kind = .error && s.spells "\\"

/-- The kinds are the same, and what is asked about the spellings is. -/
structure Alike (s u : Spaced) : Prop where
  kind : s.kind = u.kind
  includes : s.spells "include" = u.spells "include"
  defines : s.spells "define" = u.spells "define"
  joins : s.joins = u.joins

/-- a name that no directive depends on -/
def IsName (s : Spaced) : Prop :=
  s.kind = .ident ∧ s.spells "include" = false ∧ s.spells "define" = false

/-- the same token, or one name for another -/
def Renamed (s u : Spaced) : Prop := s.token = u.token ∨ s.IsName ∧ u.IsName

instance (s u : Spaced) : Decidable (s.Alike u) :=
  decidable_of_iff (s.kind = u.kind ∧ s.spells "include" = u.spells "include"
      ∧ s.spells "define" = u.spells "define" ∧ s.joins = u.joins)
    ⟨fun ⟨hk, hi, hd, hj⟩ => ⟨hk, hi, hd, hj⟩, fun ⟨hk, hi, hd, hj⟩ => ⟨hk, hi, hd, hj⟩⟩

instance (s : Spaced) : Decidable s.IsName := inferInstanceAs (Decidable (_ ∧ _))

instance (s u : Spaced) : Decidable (s.Renamed u) := inferInstanceAs (Decidable (_ ∨ _))

theorem Renamed.alike {s u : Spaced} (h : s.Renamed u) : s.Alike u := by
  obtain ht | ⟨⟨hk, hi, hd⟩, hk', hi', hd'⟩ := h
  · refine ⟨?_, ?_, ?_, ?_⟩ <;> simp only [kind, spells, joins, ht]
  · have hj : s.joins = u.joins := by
      have hs : s.token.kind = .ident := hk
      have hu : u.token.kind = .ident := hk'
      rw [joins, joins, hs, hu]
      rfl
    exact ⟨hk.trans hk'.symm, hi.trans hi'.symm, hd.trans hd'.symm, hj⟩

end Spaced

namespace Token

/-- the significant tokens with what stands before each, where `blanks` stands before the first -/
def spacedFrom (blanks : List Token) : List Token → List Spaced
  | [] => []
  | t :: ts => if t.isTrivia then spacedFrom (blanks ++ [t]) ts else ⟨blanks, t⟩ :: spacedFrom [] ts

def spaced (ts : List Token) : List Spaced := spacedFrom [] ts

/-- The significant tokens are alike, and lines break between the same of them. What stands before
the first one does not matter. -/
structure Alike (ts us : List Token) : Prop where
  tokens : List.Forall₂ Spaced.Alike (spaced ts) (spaced us)
  lines : (spaced ts).tail.map (·.newLine) = (spaced us).tail.map (·.newLine)

/-- The layout may differ, but for the lines, and so may names. -/
structure Relaid (ts us : List Token) : Prop where
  tokens : List.Forall₂ Spaced.Renamed (spaced ts) (spaced us)
  lines : (spaced ts).tail.map (·.newLine) = (spaced us).tail.map (·.newLine)

instance (ts us : List Token) : Decidable (Alike ts us) :=
  decidable_of_iff (List.Forall₂ Spaced.Alike (spaced ts) (spaced us)
      ∧ (spaced ts).tail.map (·.newLine) = (spaced us).tail.map (·.newLine))
    ⟨fun h => ⟨h.1, h.2⟩, fun h => ⟨h.1, h.2⟩⟩

instance (ts us : List Token) : Decidable (Relaid ts us) :=
  decidable_of_iff (List.Forall₂ Spaced.Renamed (spaced ts) (spaced us)
      ∧ (spaced ts).tail.map (·.newLine) = (spaced us).tail.map (·.newLine))
    ⟨fun h => ⟨h.1, h.2⟩, fun h => ⟨h.1, h.2⟩⟩

theorem Relaid.alike {ts us : List Token} (h : Relaid ts us) : Alike ts us :=
  ⟨h.tokens.imp fun _ _ h => h.alike, h.lines⟩

/-! ## what the grammar sees -/

/-- the cue of a token, where `fresh` says whether it starts a line -/
def cue (fresh : Bool) (t : Token) : Cue := ⟨t.kind, fresh, t.mark⟩

theorem cuesFrom_eq (blanks ts : List Token) :
    cuesFrom (blanks.any breaksLine) ts
      = (spacedFrom blanks ts).map fun s => cue s.newLine s.token := by
  induction ts generalizing blanks with
  | nil => rfl
  | cons t ts ih =>
    rw [cuesFrom, spacedFrom]
    by_cases ht : t.isTrivia = true
    · have hb : (blanks ++ [t]).any breaksLine = (blanks.any breaksLine || t.breaksLine) := by
        simp [List.any_append]
      rw [if_pos ht, if_pos ht, ← hb, ih]
    · rw [if_neg ht, if_neg ht, List.map_cons, ← ih []]
      rfl

/-- The first significant token starts a line whatever stands before it. -/
theorem cuesFrom_true (blanks ts : List Token) : cuesFrom true ts
    = ((spacedFrom blanks ts).take 1).map (fun s => cue true s.token)
      ++ (spacedFrom blanks ts).tail.map fun s => cue s.newLine s.token := by
  induction ts generalizing blanks with
  | nil => rfl
  | cons t ts ih =>
    rw [cuesFrom, spacedFrom]
    by_cases ht : t.isTrivia = true
    · rw [if_pos ht, if_pos ht, Bool.true_or]
      exact ih _
    · have h := cuesFrom_eq [] ts
      rw [List.any_nil] at h
      rw [if_neg ht, if_neg ht, h]
      rfl

/-- the mark of a token by what is asked about its spelling -/
theorem mark_eq (s : Spaced) : s.token.mark
    = if s.kind = .ident ∧ s.spells "include" = true then .includeWord
      else if s.kind = .ident ∧ s.spells "define" = true then .defineWord
      else if s.joins = true then .lineJoin else .plain := by
  have hi : "include".toList = ['i', 'n', 'c', 'l', 'u', 'd', 'e'] := rfl
  have hd : "define".toList = ['d', 'e', 'f', 'i', 'n', 'e'] := rfl
  have hb : "\\".toList = ['\\'] := rfl
  simp [mark, Spaced.kind, Spaced.spells, Spaced.joins, hi, hd, hb]

end Token

namespace Spaced

/-- alike tokens have the same cue, if both start a line or neither does -/
theorem Alike.cue_eq {s u : Spaced} (h : s.Alike u) (fresh : Bool) :
    Token.cue fresh s.token = Token.cue fresh u.token := by
  have hm : s.token.mark = u.token.mark := by
    rw [Token.mark_eq, Token.mark_eq, h.kind, h.includes, h.defines, h.joins]
  have hk : s.token.kind = u.token.kind := h.kind
  rw [Token.cue, Token.cue, hm, hk]

theorem cues_eq_of_alike {ss us : List Spaced} (h : List.Forall₂ Alike ss us)
    (hl : ss.map (·.newLine) = us.map (·.newLine)) :
    ss.map (fun s => Token.cue s.newLine s.token)
      = us.map fun u => Token.cue u.newLine u.token := by
  induction h with
  | nil => rfl
  | cons h _ ih =>
    rw [List.map_cons, List.map_cons, List.cons.injEq] at hl
    rw [List.map_cons, List.map_cons, ih hl.2, hl.1, h.cue_eq]

end Spaced

theorem Token.cues_eq_of_alike {ts us : List Token} (h : Alike ts us) : cues ts = cues us := by
  obtain ⟨ha, hl⟩ := h
  rw [cues, cues, cuesFrom_true [] ts, cuesFrom_true [] us]
  rw [spaced, spaced] at ha hl
  generalize spacedFrom [] ts = ss, spacedFrom [] us = vs at ha hl
  cases ha with
  | nil => rfl
  | cons h hs =>
    show cue true _ :: _ = cue true _ :: _
    rw [h.cue_eq]
    exact congrArg _ (Spaced.cues_eq_of_alike hs hl)

/-! ## whole texts -/

/-- The tree of a text depends on nothing but the kinds of its significant tokens, the line breaks
between them, and which of them are `include`, `define` or a backslash: texts that agree in these
have trees of the same shape, whose leaves are those tokens. So have texts that differ in layout and
in the choice of names alone. It is the shape that the checked steps come to as well, whatever
blanks they count on their way. -/
theorem parse_shape (a b : Text) :
    (Token.Alike (scan a) (scan b) → (parse a).root.shape = (parse b).root.shape)
      ∧ (Token.Relaid (scan a) (scan b) → (parse a).root.shape = (parse b).root.shape)
      ∧ (parse a).root.shape.leaves = (parse a).tokens.map (·.kind)
      ∧ ∀ extra, ∃ t, construct (budgetFor (cues (scan a)).length + extra) (scan a) = .ok t
          ∧ t.shapes = [(parse a).root.shape] := by
  have hs : Token.Alike (scan a) (scan b) → (parse a).root.shape = (parse b).root.shape := by
    intro h
    show (rootOf (scan a)).shape = (rootOf (scan b)).shape
    rw [shape_rootOf, shape_rootOf, Token.cues_eq_of_alike h]
  refine ⟨hs, fun h => hs h.alike, (parse a).root.leaves_shape, ?_⟩
  intro extra
  exact ⟨_, construct_eq (scan a) (Nat.le_add_right _ _), rfl⟩

/-- other values on the one hand, other names and another layout on the other -/
theorem parse_shape_of_call :
    (parse "f(1);".toList).root.shape = (parse "g( 23 );".toList).root.shape
      ∧ (parse "f(a); // b\ng();".toList).root.shape
        = (parse "h( c );\n\tg();".toList).root.shape := by
  have ha : Token.Alike (scan "f(1);".toList) (scan "g( 23 );".toList) := by decide +kernel
  have hr : Token.Relaid (scan "f(a); // b\ng();".toList) (scan "h( c );\n\tg();".toList) := by
    decide +kernel
  exact ⟨(parse_shape _ _).1 ha, (parse_shape _ _).2.1 hr⟩

end CppMend
