import Mathlib.Data.List.Basic
import Mathlib.Data.List.Pairwise

/-!
# Sorts with ties

A sort leaves elements that it does not tell apart in the order in which they were.

* `ties`               the order does not tell two elements apart;
* `filter_mergeSort`   a sort keeps the order of those that tie;
* `eq_of_ties`         lists in order are the same if those that tie are.
-/

namespace CppMend

variable {α : Type} {le : α → α → Bool}

/-- the order does not tell the two apart -/
def ties (le : α → α → Bool) (x y : α) : Bool := le x y && le y x

/-- A sort leaves elements that it does not tell apart in the order in which they were. -/
theorem filter_mergeSort (trans : ∀ a b c, le a b = true → le b c = true → le a c = true)
    (total : ∀ a b, (le a b || le b a) = true) (x : α) (l : List α) :
    (l.mergeSort le).filter (ties le x) = l.filter (ties le x) := by
  have hties : (l.filter (ties le x)).Pairwise fun a b => le a b = true := by
    refine List.pairwise_of_forall_mem_list fun a ha b hb => ?_
    have hxa := (List.mem_filter.mp ha).2
    have hxb := (List.mem_filter.mp hb).2
    rw [ties, Bool.and_eq_true] at hxa hxb
    exact trans a x b hxa.2 hxb.1
  have hsub := (List.sublist_mergeSort trans total hties List.filter_sublist).filter (ties le x)
  simp only [List.filter_filter, Bool.and_self] at hsub
  have hperm := (List.mergeSort_perm l le).filter (ties le x)
  exact (hsub.eq_of_length hperm.length_eq.symm).symm

/-- Two lists in order are the same if they have the same elements between any that tie. -/
theorem eq_of_ties (refl : ∀ a, le a a = true) {l m : List α}
    (hl : l.Pairwise fun a b => le a b = true) (hm : m.Pairwise fun a b => le a b = true)
    (h : ∀ x, l.filter (ties le x) = m.filter (ties le x)) : l = m := by
  have hself : ∀ x, ties le x x = true := fun x => by rw [ties, refl]; rfl
  induction l generalizing m with
  | nil =>
    cases m with
    | nil => rfl
    | cons b m =>
      have hb := h b
      rw [List.filter_nil, List.filter_cons_of_pos (hself b)] at hb
      cases hb
  | cons a l ih =>
    -- the first elements are each found in the other list, so they tie
    have ha := h a
    rw [List.filter_cons_of_pos (hself a)] at ha
    cases m with
    | nil => cases ha
    | cons b m =>
      have hb := h b
      rw [List.filter_cons_of_pos (hself b)] at hb
      have hba : le b a = true := by
        have hmem : a ∈ b :: m := List.mem_of_mem_filter (ha ▸ List.mem_cons_self)
        rcases List.mem_cons.mp hmem with rfl | hmem
        · exact refl a
        · exact List.rel_of_pairwise_cons hm hmem
      have hab : le a b = true := by
        have hmem : b ∈ a :: l := List.mem_of_mem_filter (hb ▸ List.mem_cons_self)
        rcases List.mem_cons.mp hmem with rfl | hmem
        · exact refl b
        · exact List.rel_of_pairwise_cons hl hmem
      have htie : ties le a b = true := by rw [ties, hab, hba]; rfl
      rw [List.filter_cons_of_pos htie, List.cons.injEq] at ha
      obtain ⟨rfl, -⟩ := ha
      rw [ih hl.of_cons hm.of_cons fun x => ?_]
      have hx := h x
      by_cases hxa : ties le x a = true
      · rw [List.filter_cons_of_pos hxa, List.filter_cons_of_pos hxa] at hx
        exact (List.cons.inj hx).2
      · rwa [List.filter_cons_of_neg hxa, List.filter_cons_of_neg hxa] at hx

end CppMend
