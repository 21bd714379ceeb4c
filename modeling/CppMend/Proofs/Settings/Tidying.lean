import CppMend.Proofs.Order.Firsts
import CppMend.Settings.Basic
import Mathlib.Data.List.DropRight

/-!
# Tidy lists of texts

A user's list of texts is kept without the white space around each text, without texts in which there
is nothing else, and without what comes again.

* `Text.IsTrimOf`       a text without the white space around it;
* `Settings.Tidy`       a list in which nothing is left to do;
* `Settings.TidyOf`     what is kept of a list, and in what order;
* `Settings.tidyOf_iff` this is what the settings keep.
-/

namespace CppMend

/-! ## trimmed texts -/

namespace Text

/-- no white space stands before or after the text -/
structure Trim (cs : Text) : Prop where
  head : ∀ c ∈ cs.head?, isBlank c = false
  last : ∀ c ∈ cs.getLast?, isBlank c = false

/-- One text is the other without the white space around it. -/
structure IsTrimOf (t cs : Text) : Prop where
  trim : t.Trim
  around : ∃ front back, cs = front ++ (t ++ back)
    ∧ (∀ c ∈ front, isBlank c = true) ∧ ∀ c ∈ back, isBlank c = true

theorem trimmed_eq_rdropWhile (cs : Text) :
    trimmed cs = (cs.dropWhile isBlank).rdropWhile isBlank := rfl

theorem trim_trimmed (cs : Text) : Trim (trimmed cs) := by
  rw [trimmed_eq_rdropWhile]
  constructor
  · intro c hc
    -- what is dropped at the end leaves the head in its place
    obtain ⟨t, ht⟩ := List.rdropWhile_prefix isBlank (cs.dropWhile isBlank)
    have hhead : (cs.dropWhile isBlank).head? = some c := by
      rw [← ht, List.head?_append, hc, Option.some_or]
    have hnot := List.head?_dropWhile_not isBlank cs
    rw [hhead] at hnot
    exact hnot
  · intro c hc
    have hne : (cs.dropWhile isBlank).rdropWhile isBlank ≠ [] := by
      intro hnil
      rw [hnil] at hc
      cases hc
    have hnot := List.rdropWhile_last_not isBlank (cs.dropWhile isBlank) hne
    rw [List.getLast?_eq_some_getLast hne] at hc
    rw [← Option.some.inj hc]
    exact Bool.eq_false_iff.mpr hnot

/-- White space around a trimmed text is what is trimmed. -/
theorem Trim.trimmed_append {t front back : Text} (h : Trim t) (hfront : ∀ c ∈ front, isBlank c = true)
    (hback : ∀ c ∈ back, isBlank c = true) : trimmed (front ++ (t ++ back)) = t := by
  rw [trimmed_eq_rdropWhile, List.dropWhile_append_of_pos hfront]
  cases t with
  | nil =>
    have hnil : back.dropWhile isBlank = [] := List.dropWhile_eq_nil_iff.mpr hback
    rw [List.nil_append, hnil, List.rdropWhile_nil]
  | cons c t =>
    have hhead : (c :: t ++ back).dropWhile isBlank = c :: t ++ back :=
      List.dropWhile_cons_of_neg (Bool.eq_false_iff.mp (h.head c rfl))
    have hreverse : ∀ c ∈ back.reverse, isBlank c = true := fun c hc =>
      hback c (List.mem_reverse.mp hc)
    rw [hhead, List.rdropWhile, List.reverse_append, List.dropWhile_append_of_pos hreverse]
    show (c :: t).rdropWhile isBlank = c :: t
    rw [List.rdropWhile_eq_self_iff]
    intro hne
    exact Bool.eq_false_iff.mp (h.last _ (List.getLast?_eq_some_getLast hne))

/-- There is one such text, the trimmed one. -/
theorem isTrimOf_iff {t cs : Text} : IsTrimOf t cs ↔ cs.trimmed = t := by
  constructor
  · rintro ⟨htrim, front, back, rfl, hfront, hback⟩
    exact htrim.trimmed_append hfront hback
  · rintro rfl
    refine ⟨trim_trimmed cs, cs.takeWhile isBlank, (cs.dropWhile isBlank).rtakeWhile isBlank, ?_,
      fun c hc => List.mem_takeWhile_imp hc, fun c hc => List.mem_rtakeWhile_imp hc⟩
    rw [trimmed_eq_rdropWhile, List.rdropWhile_append_rtakeWhile, List.takeWhile_append_dropWhile]

theorem Trim.trimmed_eq {cs : Text} (h : Trim cs) : trimmed cs = cs := by
  have hnone : ∀ c ∈ ([] : Text), isBlank c = true := fun c hc => by cases hc
  have happend := h.trimmed_append hnone hnone
  rwa [List.nil_append, List.append_nil] at happend

end Text

/-! ## tidy lists -/

namespace Settings

/-- trimmed texts, each once and none empty -/
structure Tidy (texts : List Text) : Prop where
  trim : ∀ t ∈ texts, t.Trim
  nonempty : ∀ t ∈ texts, t ≠ []
  distinct : texts.Nodup

/-- What is kept of a list of texts. -/
structure TidyOf (texts kept : List Text) : Prop where
  /-- Each text is kept without the white space around it, unless nothing is left, and nothing else is
  kept. -/
  mem : ∀ t, t ∈ kept ↔ t ≠ [] ∧ ∃ cs ∈ texts, Text.IsTrimOf t cs
  distinct : kept.Nodup
  /-- Of two texts that are kept, the first one is there as soon as the second one. -/
  order : kept.Pairwise fun t t' => ∀ before after, texts = before ++ after →
    (∃ cs ∈ before, Text.IsTrimOf t' cs) → ∃ cs ∈ before, Text.IsTrimOf t cs

variable {texts kept : List Text}

theorem mem_tidy {t : Text} : t ∈ tidy texts ↔ t ≠ [] ∧ ∃ cs ∈ texts, cs.trimmed = t := by
  rw [tidy, List.mem_eraseDups, List.mem_filter, List.mem_map, decide_eq_true_iff, and_comm]

theorem tidyOf_tidy (texts : List Text) : TidyOf texts (tidy texts) where
  mem t := by simp only [mem_tidy, Text.isTrimOf_iff]
  distinct := nodup_eraseDups _
  order := by
    refine List.Pairwise.imp_of_mem ?_ (eraseDups_pairwise _)
    intro t t' _ ht' h before after htexts hbefore
    simp only [Text.isTrimOf_iff] at hbefore ⊢
    have hkept : t ∈ (before.map Text.trimmed).filter (· ≠ []) := by
      refine h _ ((after.map Text.trimmed).filter (· ≠ [])) ?_ ?_
      · rw [htexts, List.map_append, List.filter_append]
      · exact List.mem_filter.mpr
          ⟨List.mem_map.mpr hbefore, decide_eq_true (mem_tidy.mp ht').1⟩
    exact List.mem_map.mp (List.mem_filter.mp hkept).1

/-- Two texts of which each is there as soon as the other one are the same. -/
theorem eq_of_order {t t' : Text} (ht : ∃ cs ∈ texts, Text.IsTrimOf t cs)
    (h : ∀ before after, texts = before ++ after →
      (∃ cs ∈ before, Text.IsTrimOf t' cs) → ∃ cs ∈ before, Text.IsTrimOf t cs)
    (h' : ∀ before after, texts = before ++ after →
      (∃ cs ∈ before, Text.IsTrimOf t cs) → ∃ cs ∈ before, Text.IsTrimOf t' cs) : t = t' := by
  simp only [Text.isTrimOf_iff] at ht h h'
  induction texts with
  | nil =>
    obtain ⟨cs, hcs, -⟩ := ht
    cases hcs
  | cons cs texts ih =>
    have hone {u u' : Text} (h : ∀ before after, cs :: texts = before ++ after →
        (∃ cs ∈ before, cs.trimmed = u) → ∃ cs ∈ before, cs.trimmed = u') (hu : cs.trimmed = u) :
        u = u' := by
      obtain ⟨cs', hcs', hu'⟩ := h [cs] texts rfl ⟨cs, List.mem_singleton_self cs, hu⟩
      rw [List.mem_singleton.mp hcs', hu] at hu'
      exact hu'
    by_cases hcs : cs.trimmed = t
    · exact hone h' hcs
    by_cases hcs' : cs.trimmed = t'
    · exact (hone h hcs').symm
    -- the first text is neither, and says nothing of what comes first
    have hskip {u : Text} (hu : cs.trimmed ≠ u) (before : List Text) :
        (∃ c ∈ cs :: before, c.trimmed = u) ↔ ∃ c ∈ before, c.trimmed = u := by
      simp [hu]
    refine ih ((hskip hcs texts).mp ht) ?_ ?_
    · intro before after htexts
      rw [← hskip hcs before, ← hskip hcs' before]
      exact h (cs :: before) after (congrArg (cs :: ·) htexts)
    · intro before after htexts
      rw [← hskip hcs before, ← hskip hcs' before]
      exact h' (cs :: before) after (congrArg (cs :: ·) htexts)

/-- What is kept of a list is settled, its order included. -/
theorem TidyOf.unique {other : List Text} (h : TidyOf texts kept) (h' : TidyOf texts other) :
    kept = other := by
  have hperm : kept.Perm other := (List.perm_ext_iff_of_nodup h.distinct h'.distinct).mpr fun t =>
    (h.mem t).trans (h'.mem t).symm
  refine List.Perm.eq_of_pairwise ?_ h.order h'.order hperm
  intro t t' ht _ hle hle'
  exact eq_of_order ((h.mem t).mp ht).2 hle hle'

/-- The settings keep of a list what is to be kept. -/
theorem tidyOf_iff : TidyOf texts kept ↔ tidy texts = kept :=
  ⟨fun h => (tidyOf_tidy texts).unique h, fun h => h ▸ tidyOf_tidy texts⟩

theorem TidyOf.tidy (h : TidyOf texts kept) : Tidy kept where
  trim t ht := by
    obtain ⟨-, cs, -, hcs⟩ := (h.mem t).mp ht
    exact hcs.trim
  nonempty t ht := ((h.mem t).mp ht).1
  distinct := h.distinct

theorem Tidy.tidy_eq (h : Tidy texts) : Settings.tidy texts = texts := by
  have hmap : texts.map Text.trimmed = texts := by
    rw [List.map_congr_left fun t ht => (h.trim t ht).trimmed_eq, List.map_id']
  have hfilter : texts.filter (· ≠ []) = texts := by
    rw [List.filter_eq_self]
    exact fun t ht => decide_eq_true (h.nonempty t ht)
  rw [Settings.tidy, hmap, hfilter, eraseDups_of_nodup h.distinct]

end Settings

end CppMend
