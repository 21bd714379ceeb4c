import CppMend.Text.Bytes

/-!
# Pieces of a text

* `pieces`     the parts of a text, or of bytes, between what cuts it; there is always one;
* `joined`     some texts with a separator between each two;
* `contains`   whether a text occurs in another.
-/

namespace CppMend

namespace Text

def pieces {α : Type} (cut : α → Bool) : List α → List (List α)
  | [] => [[]]
  | c :: cs =>
    if cut c then [] :: pieces cut cs
    else
      match pieces cut cs with
      | [] => [[c]]
      | p :: ps => (c :: p) :: ps

theorem pieces_ne_nil {α : Type} (cut : α → Bool) (cs : List α) : pieces cut cs ≠ [] := by
  cases cs with
  | nil => simp [pieces]
  | cons c cs =>
    rw [pieces]
    split
    · simp
    · split <;> simp

/-- Names without what cuts a path are its pieces, after the empty one before it. -/
theorem pieces_flatMap {α : Type} {cut : α → Bool} {mark : α} (hmark : cut mark = true)
    {segments : List (List α)} (h : ∀ s ∈ segments, ∀ c ∈ s, cut c = false) :
    pieces cut (segments.flatMap (mark :: ·)) = [] :: segments := by
  have hpiece : ∀ s rest : List α, (∀ c ∈ s, cut c = false) → ∀ p ps, pieces cut rest = p :: ps →
      pieces cut (s ++ rest) = (s ++ p) :: ps := by
    intro s rest hs p ps hrest
    induction s with
    | nil => exact hrest
    | cons c s ih =>
      have hc : cut c = false := hs c List.mem_cons_self
      have ih := ih fun x hx => hs x (List.mem_cons_of_mem _ hx)
      simp [pieces, hc, ih]
  induction segments with
  | nil => rfl
  | cons s segments ih =>
    have ih := ih fun x hx => h x (List.mem_cons_of_mem _ hx)
    rw [List.flatMap_cons, List.cons_append, pieces, if_pos hmark,
      hpiece s _ (h s List.mem_cons_self) [] segments ih, List.append_nil]

def joined (separator : Text) : List Text → Text
  | [] => []
  | [p] => p
  | p :: ps => p ++ separator ++ joined separator ps

/-- the text occurs somewhere -/
def contains (part : Text) : Text → Bool
  | [] => part.isEmpty
  | c :: cs => part.isPrefixOf (c :: cs) || contains part cs

end Text

end CppMend
