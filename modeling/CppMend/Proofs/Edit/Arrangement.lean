import CppMend.Proofs.Edit.Weaving
import CppMend.Proofs.Order.Ties
import Mathlib.Data.List.Forall2

/-!
# Edits by position

The edits of a change set are sorted, and then each is only compared with the one behind it. That is
enough: edits of which each ends before the next one starts are all apart. Two edits that the sort
does not tell apart span the same bytes. They overlap if there are any, and so only insertions tie.

* `ChangeSet.Fits`            what a change set needs to be carried out;
* `ChangeSet.Arranged`        the edits from left to right, with insertions as they were recorded;
* `ChangeSet.sorted_ok_iff`   a change set that fits is arranged, and no other one is;
* `ChangeSet.apply_exact`     the text that comes of it;
* `ChangeSet.apply_eq_of_perm`   of the order of the edits, only that of insertions shows.
-/

namespace CppMend

namespace ChangeSet

open Text (byteSize)

/-! ## the order of edits -/

theorem precedes_iff {a b : Edit} : precedes a b = true ↔ a.span.start < b.span.start
    ∨ a.span.start = b.span.start ∧ a.span.stop ≤ b.span.stop := by
  simp [precedes]

theorem precedes_refl (a : Edit) : precedes a a = true :=
  precedes_iff.mpr (.inr ⟨rfl, Nat.le_refl _⟩)

theorem precedes_total (a b : Edit) : (precedes a b || precedes b a) = true := by
  rw [Bool.or_eq_true, precedes_iff, precedes_iff]
  omega

theorem precedes_trans (a b c : Edit) (hab : precedes a b = true) (hbc : precedes b c = true) :
    precedes a c = true := by
  rw [precedes_iff] at hab hbc ⊢
  omega

/-- Edits that tie span the same bytes. -/
theorem ties_precedes (a : Edit) : ties precedes a = fun b => decide (b.span = a.span) := by
  funext b
  obtain ⟨⟨s, n⟩, t⟩ := a
  obtain ⟨⟨s', n'⟩, t'⟩ := b
  rw [Bool.eq_iff_iff, ties, Bool.and_eq_true, precedes_iff, precedes_iff, decide_eq_true_eq,
    Span.mk.injEq]
  show (s < s' ∨ s = s' ∧ s + n ≤ s' + n') ∧ (s' < s ∨ s' = s ∧ s' + n' ≤ s + n) ↔ _
  omega

theorem pairwise_precedes_mergeSort (es : List Edit) :
    (es.mergeSort precedes).Pairwise fun a b => precedes a b = true :=
  List.pairwise_mergeSort precedes_trans precedes_total es

/-! ## edits that are apart -/

/-- one ends at or before the start of the other -/
def Apart (a b : Edit) : Prop := a.span.stop ≤ b.span.start ∨ b.span.stop ≤ a.span.start

instance : DecidableRel Apart := fun a b =>
  inferInstanceAs (Decidable (a.span.stop ≤ b.span.start ∨ b.span.stop ≤ a.span.start))

/-- every edit lies in the text, between characters, and any two are apart -/
structure Fits (c : ChangeSet) (text : Text) : Prop where
  inside : ∀ e ∈ c.edits, e.span.stop ≤ text.byteSize
  starts : ∀ e ∈ c.edits, text.isBoundary e.span.start = true
  stops : ∀ e ∈ c.edits, text.isBoundary e.span.stop = true
  apart : c.edits.Pairwise Apart

/-- The recorded edits from left to right. Insertions at one offset are in the order in which they
were recorded. -/
structure Arranged (recorded order : List Edit) : Prop where
  edits : order.Perm recorded
  leftToRight : order.Pairwise fun a b => a.span.stop ≤ b.span.start
  insertions : ∀ offset, order.filter (·.span = .empty offset)
    = recorded.filter (·.span = .empty offset)

/-- Insertions need only be compared where an edit starts. -/
theorem filter_insertions_eq {l m : List Edit} (hp : l.Perm m)
    (h : ∀ e ∈ l, l.filter (·.span = .empty e.span.start) = m.filter (·.span = .empty e.span.start))
    (offset : Nat) : l.filter (·.span = .empty offset) = m.filter (·.span = .empty offset) := by
  by_cases hstart : ∃ e ∈ l, e.span.start = offset
  · obtain ⟨e, he, rfl⟩ := hstart
    exact h e he
  · have hl : l.filter (·.span = .empty offset) = [] := by
      refine List.filter_eq_nil_iff.mpr fun e he hspan => hstart ⟨e, he, ?_⟩
      rw [of_decide_eq_true hspan]
      rfl
    have hm := hp.filter (·.span = .empty offset)
    rw [hl] at hm ⊢
    exact hm.nil_eq

theorem start_le_stop (s : Span) : s.start ≤ s.stop := Nat.le_add_right _ _

/-- Neighbours that do not overlap are enough: what is between two edits does not end before it
starts. -/
theorem overlap?_eq_none_iff (es : List Edit) :
    overlap? es = none ↔ es.Pairwise fun a b => a.span.stop ≤ b.span.start := by
  induction es with
  | nil => simp [overlap?]
  | cons a es ih =>
    constructor
    · intro h
      obtain ⟨hes, hnext⟩ := overlap?_cons h
      have hes := ih.mp hes
      refine List.pairwise_cons.mpr ⟨fun c hc => ?_, hes⟩
      cases es with
      | nil => cases hc
      | cons b es =>
        have hab := hnext b rfl
        rcases List.mem_cons.mp hc with rfl | hc
        · exact hab
        · have hb := start_le_stop b.span
          have hbc := List.rel_of_pairwise_cons hes hc
          omega
    · intro h
      cases es with
      | nil => rfl
      | cons b es =>
        have hab := List.rel_of_pairwise_cons h List.mem_cons_self
        rw [overlap?, if_neg (by omega)]
        exact ih.mpr h.of_cons

/-- Edits that are apart, and sorted, are one behind the other. One that starts with the other and
does not end before it starts is an insertion, and comes first. -/
theorem leftToRight_of_apart {es : List Edit} (hs : es.Pairwise fun a b => precedes a b = true)
    (ha : es.Pairwise Apart) : es.Pairwise fun a b => a.span.stop ≤ b.span.start := by
  refine (hs.and ha).imp ?_
  rintro a b ⟨hp, hab⟩
  rw [precedes_iff] at hp
  have hb := start_le_stop b.span
  unfold Apart at hab
  omega

namespace Arranged

variable {recorded other order : List Edit}

theorem pairwise_precedes (h : Arranged recorded order) :
    order.Pairwise fun a b => precedes a b = true := by
  refine h.leftToRight.imp fun {a b} hab => precedes_iff.mpr ?_
  have ha := start_le_stop a.span
  have hb := start_le_stop b.span
  omega

/-- Of edits that stand in order, no two that span something span the same. -/
theorem filter_span_eq {l m : List Edit} (h : Arranged recorded l) (h' : Arranged recorded m)
    {s : Span} (hs : s.size ≠ 0) : l.filter (·.span = s) = m.filter (·.span = s) := by
  have hp := (h.edits.trans h'.edits.symm).filter (·.span = s)
  refine List.Perm.eq_of_pairwise ?_ (h.leftToRight.filter _) (h'.leftToRight.filter _) hp
  intro a b ha hb hab
  have ha : a.span = s := by simpa using (List.mem_filter.mp ha).2
  have hb : b.span = s := by simpa using (List.mem_filter.mp hb).2
  have hstop : s.stop = s.start + s.size := rfl
  rw [ha, hb] at hab
  omega

/-- There is only one way to arrange edits. -/
theorem unique (h : Arranged recorded order) (h' : Arranged recorded other) : order = other := by
  refine eq_of_ties precedes_refl h.pairwise_precedes h'.pairwise_precedes fun x => ?_
  rw [ties_precedes]
  by_cases hx : x.span.size = 0
  · have hx : x.span = .empty x.span.start := by rw [Span.empty, ← hx]
    rw [hx, h.insertions, h'.insertions]
  · exact h.filter_span_eq h' hx

/-- The order in which edits were recorded matters as far as insertions go. -/
theorem of_perm (h : Arranged recorded order) (hp : recorded.Perm other)
    (hi : ∀ offset, recorded.filter (·.span = .empty offset)
      = other.filter (·.span = .empty offset)) : Arranged other order where
  edits := h.edits.trans hp
  leftToRight := h.leftToRight
  insertions offset := (h.insertions offset).trans (hi offset)

/-- What starts where something is inserted comes after it. -/
theorem insertions_first (h : Arranged recorded order) :
    order.Pairwise fun a b => b.span = .empty a.span.start → a.span.isEmpty = true := by
  refine h.leftToRight.imp fun {a b} hab hb => ?_
  have hstop : a.span.stop = a.span.start + a.span.size := rfl
  have hstart : b.span.start = a.span.start := by rw [hb]; rfl
  rw [Span.isEmpty, decide_eq_true_eq]
  omega

end Arranged

/-- the sort arranges edits that are apart -/
theorem arranged_mergeSort {es : List Edit} (h : es.Pairwise Apart) :
    Arranged es (es.mergeSort precedes) where
  edits := List.mergeSort_perm es precedes
  leftToRight := by
    refine leftToRight_of_apart (pairwise_precedes_mergeSort es) ?_
    exact ((List.mergeSort_perm es precedes).pairwise_iff Or.symm).mpr h
  insertions offset := by
    have hx := filter_mergeSort precedes_trans precedes_total ⟨.empty offset, []⟩ es
    rwa [ties_precedes] at hx

theorem Fits.of_perm {c d : ChangeSet} {text : Text} (h : c.Fits text)
    (hp : c.edits.Perm d.edits) : d.Fits text where
  inside e he := h.inside e (hp.mem_iff.mpr he)
  starts e he := h.starts e (hp.mem_iff.mpr he)
  stops e he := h.stops e (hp.mem_iff.mpr he)
  apart := (hp.pairwise_iff Or.symm).mp h.apart

/-- A change set is accepted just if it fits, and then its edits are arranged. -/
theorem sorted_ok_iff {c : ChangeSet} {text : Text} {order : List Edit} :
    c.sorted text = .ok order ↔ c.Fits text ∧ Arranged c.edits order := by
  have hp := List.mergeSort_perm c.edits precedes
  rw [sorted_eq_ok_iff, overlap?_eq_none_iff]
  constructor
  · rintro ⟨hfit, hlr, rfl⟩
    have hfit : ∀ e ∈ c.edits, _ := fun e he => misfit?_eq_none_iff.mp (hfit e (hp.mem_iff.mpr he))
    have hapart : c.edits.Pairwise Apart := (hp.pairwise_iff Or.symm).mp (hlr.imp Or.inl)
    refine ⟨⟨fun e he => (hfit e he).1, fun e he => (hfit e he).2.1, fun e he => (hfit e he).2.2,
      hapart⟩, arranged_mergeSort hapart⟩
  · rintro ⟨hf, ha⟩
    refine ⟨fun e he => ?_, ha.leftToRight, ha.unique (arranged_mergeSort hf.apart)⟩
    have he := ha.edits.mem_iff.mp he
    exact misfit?_eq_none_iff.mpr ⟨hf.inside e he, hf.starts e he, hf.stops e he⟩

theorem exists_sorted_iff {c : ChangeSet} {text : Text} :
    (∃ order, c.sorted text = .ok order) ↔ c.Fits text := by
  constructor
  · rintro ⟨order, h⟩
    exact (sorted_ok_iff.mp h).1
  · intro h
    exact ⟨_, sorted_ok_iff.mpr ⟨h, arranged_mergeSort h.apart⟩⟩

theorem apply_eq_ok_iff {c : ChangeSet} {text result : Text} :
    c.apply text = .ok result ↔ ∃ order, c.sorted text = .ok order ∧ weave 0 text order = result := by
  rw [apply]
  cases c.sorted text <;> simp [Except.map]

theorem apply_of_arranged {c : ChangeSet} {text : Text} {order : List Edit} (hf : c.Fits text)
    (ha : Arranged c.edits order) : c.apply text = .ok (weave 0 text order) :=
  apply_eq_ok_iff.mpr ⟨order, sorted_ok_iff.mpr ⟨hf, ha⟩, rfl⟩

/-! ## the edited text -/

/-- A change set can be carried out just if it fits. Its edits are then arranged, in the only way
there is: insertions at one offset as they were recorded, and before what is replaced from there on.
The text keeps everything that no edit spans. It is the text with the edits carried out one by one,
the last one first, and it is put together from slices of the text, each of which there is. -/
theorem apply_exact (c : ChangeSet) (text : Text) :
    ((∃ order, c.sorted text = .ok order) ↔ c.Fits text)
      ∧ ((∃ result, c.apply text = .ok result) ↔ c.Fits text)
      ∧ ∀ result, c.apply text = .ok result → ∃ order, c.sorted text = .ok order
        ∧ Arranged c.edits order ∧ (∀ other, Arranged c.edits other → other = order)
        ∧ order.Pairwise (fun a b => b.span = .empty a.span.start → a.span.isEmpty = true)
        ∧ order.foldr Edit.splice text = result
        ∧ Woven 0 text order result
        ∧ slices? text 0 order = some result := by
  refine ⟨exists_sorted_iff, ?_, ?_⟩
  · rw [← exists_sorted_iff]
    simp only [apply_eq_ok_iff]
    exact ⟨fun ⟨_, order, h, _⟩ => ⟨order, h⟩, fun ⟨order, h⟩ => ⟨_, order, h, rfl⟩⟩
  · intro result h
    obtain ⟨order, hs, rfl⟩ := apply_eq_ok_iff.mp h
    have ha := (sorted_ok_iff.mp hs).2
    obtain ⟨hfit, hov⟩ := sorted_ok hs
    have hwhole : text = [] ++ text := rfl
    have hw : Woven 0 text order (weave 0 text order) :=
      woven_weave hfit hov hwhole fun _ _ => Nat.zero_le _
    exact ⟨order, hs, ha, fun _ h' => h'.unique ha, ha.insertions_first,
      hw.foldr_splice hwhole rfl, hw, hw.slices hwhole rfl⟩

/-- In `aébc`, the second character is replaced, two are inserted before it, and the third one goes.
The insertions were recorded after the replacement, and come before it. -/
theorem apply_exact_accents :
    let c : ChangeSet := ⟨[⟨⟨3, 1⟩, []⟩, ⟨⟨1, 2⟩, ['e']⟩, ⟨.empty 1, ['(']⟩, ⟨.empty 1, ['*']⟩]⟩
    c.apply "aébc".toList = .ok "a(*ec".toList
      ∧ ∃ order, Arranged c.edits order ∧ order.foldr Edit.splice "aébc".toList = "a(*ec".toList
        ∧ slices? "aébc".toList 0 order = some "a(*ec".toList := by
  intro c
  have hf : c.Fits "aébc".toList := by constructor <;> decide
  have ha : Arranged c.edits
      [⟨.empty 1, ['(']⟩, ⟨.empty 1, ['*']⟩, ⟨⟨1, 2⟩, ['e']⟩, ⟨⟨3, 1⟩, []⟩] := by
    have hp : [⟨.empty 1, ['(']⟩, ⟨.empty 1, ['*']⟩, ⟨⟨1, 2⟩, ['e']⟩, ⟨⟨3, 1⟩, []⟩].Perm c.edits := by
      decide
    exact ⟨hp, by decide, filter_insertions_eq hp (by decide)⟩
  have h : c.apply "aébc".toList = .ok "a(*ec".toList := apply_of_arranged hf ha
  obtain ⟨order, -, ha, -, -, hsplice, -, hslices⟩ := (apply_exact c "aébc".toList).2.2 _ h
  exact ⟨h, order, ha, hsplice, hslices⟩

/-! ## the order of recording -/

/-- what is wrong with edits in order: one that does not fit, or else two that overlap -/
def flaw? (text : Text) (order : List Edit) : Option EditError :=
  (order.findSome? (misfit? text)).or (overlap? order)

theorem sorted_eq_error_iff {c : ChangeSet} {text : Text} {error : EditError} :
    c.sorted text = .error error ↔ flaw? text (c.edits.mergeSort precedes) = some error := by
  rw [sorted, flaw?]
  cases (c.edits.mergeSort precedes).findSome? (misfit? text) with
  | some first => simp
  | none => cases overlap? (c.edits.mergeSort precedes) <;> simp

/-- What is wrong shows in the spans alone. -/
theorem flaw?_congr {text : Text} {l m : List Edit}
    (h : List.Forall₂ (fun a b => a.span = b.span) l m) : flaw? text l = flaw? text m := by
  have hmisfit : l.findSome? (misfit? text) = m.findSome? (misfit? text) := by
    induction h with
    | nil => rfl
    | cons hab _ ih => rw [List.findSome?_cons, List.findSome?_cons, misfit?, misfit?, hab, ih]
  have hoverlap : overlap? l = overlap? m := by
    clear hmisfit
    induction h with
    | nil => rfl
    | cons hab hlm ih =>
      cases hlm with
      | nil => rfl
      | cons hab' _ => rw [overlap?, overlap?, hab, hab', ih]
  rw [flaw?, flaw?, hmisfit, hoverlap]

/-- However edits were recorded, the sort comes to the same spans. -/
theorem spans_mergeSort {l m : List Edit} (hp : l.Perm m) : List.Forall₂
    (fun a b => a.span = b.span) (l.mergeSort precedes) (m.mergeSort precedes) := by
  have hsorted (es : List Edit) : ((es.mergeSort precedes).map (·.span)).Pairwise
      fun s t => s.start < t.start ∨ s.start = t.start ∧ s.stop ≤ t.stop :=
    List.pairwise_map.mpr ((pairwise_precedes_mergeSort es).imp precedes_iff.mp)
  have hspans : (l.mergeSort precedes).map (·.span) = (m.mergeSort precedes).map (·.span) := by
    refine List.Perm.eq_of_pairwise ?_ (hsorted l) (hsorted m) (List.Perm.map _ ?_)
    · rintro ⟨s, n⟩ ⟨s', n'⟩ - - h h'
      simp only [Span.stop, Span.mk.injEq] at h h' ⊢
      omega
    · exact (List.mergeSort_perm l _).trans (hp.trans (List.mergeSort_perm m _).symm)
  rw [← List.forall₂_eq_eq_eq, List.forall₂_map_left_iff, List.forall₂_map_right_iff] at hspans
  exact hspans

/-- Change sets with the same edits, which have the insertions at each offset in the same order, come
to the same: the same edits in order and the same text, or the same error. -/
theorem apply_eq_of_perm (c d : ChangeSet) (text : Text) (hedits : c.edits.Perm d.edits)
    (hinsertions : ∀ offset, c.edits.filter (·.span = .empty offset)
      = d.edits.filter (·.span = .empty offset)) :
    c.sorted text = d.sorted text ∧ c.apply text = d.apply text := by
  have hsorted : c.sorted text = d.sorted text := by
    cases hc : c.sorted text with
    | error error =>
      rw [sorted_eq_error_iff, flaw?_congr (spans_mergeSort hedits)] at hc
      exact (sorted_eq_error_iff.mpr hc).symm
    | ok order =>
      obtain ⟨hfits, harranged⟩ := sorted_ok_iff.mp hc
      exact (sorted_ok_iff.mpr ⟨hfits.of_perm hedits, harranged.of_perm hedits hinsertions⟩).symm
  exact ⟨hsorted, by rw [apply, apply, hsorted]⟩

/-- In `abcdef`, a character is put in the place of the `d`, and two are inserted before it. They may
be recorded before it or around it. -/
theorem apply_eq_of_perm_around :
    let c : ChangeSet := (((ChangeSet.empty.replace ⟨3, 1⟩ ['x']).insert 3 ['(']).insert 3 ['*'])
    let d : ChangeSet := (((ChangeSet.empty.insert 3 ['(']).replace ⟨3, 1⟩ ['x']).insert 3 ['*'])
    c.apply "abcdef".toList = .ok "abc(*xef".toList
      ∧ d.apply "abcdef".toList = .ok "abc(*xef".toList := by
  intro c d
  have hf : c.Fits "abcdef".toList := by constructor <;> decide
  have hp : c.edits.Perm d.edits := .swap _ _ _
  have ha : Arranged c.edits [⟨.empty 3, ['(']⟩, ⟨.empty 3, ['*']⟩, ⟨⟨3, 1⟩, ['x']⟩] := by
    have hp : [⟨.empty 3, ['(']⟩, ⟨.empty 3, ['*']⟩, ⟨⟨3, 1⟩, ['x']⟩].Perm c.edits := by decide
    exact ⟨hp, by decide, filter_insertions_eq hp (by decide)⟩
  have h : c.apply "abcdef".toList = .ok "abc(*xef".toList := apply_of_arranged hf ha
  have heq := apply_eq_of_perm c d "abcdef".toList hp (filter_insertions_eq hp (by decide))
  exact ⟨h, heq.2.symm.trans h⟩

end ChangeSet

end CppMend
