import Mathlib.Data.List.Induction
import Mathlib.Data.List.Pairwise

/-!
# Lists without what comes again

Of a list, everything is kept where it comes first.

* `nodup_eraseDups`     so nothing comes twice;
* `eraseDups_of_nodup`  a list in which nothing comes twice is kept as it is;
* `eraseDups_pairwise`  the first places keep their order.
-/

namespace CppMend

variable {α : Type} [BEq α] [LawfulBEq α]

theorem eraseDups_concat (l : List α) (a : α) :
    (l ++ [a]).eraseDups = l.eraseDups ++ if l.elem a then [] else [a] := by
  rw [List.eraseDups_append, List.removeAll, List.filter_cons, List.filter_nil]
  cases l.elem a <;> rfl

theorem nodup_eraseDups (l : List α) : l.eraseDups.Nodup := by
  induction l using List.reverseRecOn with
  | nil => exact List.nodup_nil
  | append_singleton l a ih =>
    rw [eraseDups_concat]
    split
    · rwa [List.append_nil]
    · next h =>
      refine List.nodup_append.mpr ⟨ih, List.pairwise_singleton _ a, fun x hx y hy he => h ?_⟩
      rw [List.mem_singleton] at hy
      rw [List.elem_iff, ← hy, ← he]
      exact List.mem_eraseDups.mp hx

theorem eraseDups_of_nodup {l : List α} (h : l.Nodup) : l.eraseDups = l := by
  induction l with
  | nil => rfl
  | cons a l ih =>
    obtain ⟨hnot, hnodup⟩ := List.nodup_cons.mp h
    have hself : l.filter (!· == a) = l := by
      rw [List.filter_eq_self]
      intro b hb
      simpa using fun e : b = a => hnot (e ▸ hb)
    rw [List.eraseDups_cons, hself, ih hnodup]

/-- If something is in a part at the start of a list, then so is what comes before it. -/
theorem eraseDups_pairwise (l : List α) :
    l.eraseDups.Pairwise fun x y => ∀ before after, l = before ++ after → y ∈ before → x ∈ before := by
  rw [List.pairwise_iff_forall_sublist]
  rintro x y hsub before after rfl hy
  have hpair : (before ++ after).eraseDups.Pairwise fun x y => y ∈ before → x ∈ before := by
    rw [List.eraseDups_append, List.pairwise_append]
    have hlater : ∀ z ∈ (after.removeAll before).eraseDups, z ∉ before := fun z hz => by
      rw [List.mem_eraseDups, List.removeAll, List.mem_filter] at hz
      simpa using hz.2
    exact ⟨List.pairwise_of_forall_mem_list fun x hx _ _ _ => List.mem_eraseDups.mp hx,
      List.pairwise_of_forall_mem_list fun _ _ y hy h => absurd h (hlater y hy),
      fun _ _ y hy h => absurd h (hlater y hy)⟩
  exact List.pairwise_iff_forall_sublist.mp hpair hsub hy

end CppMend
