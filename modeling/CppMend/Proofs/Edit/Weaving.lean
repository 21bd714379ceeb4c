import CppMend.Edit.ChangeSet
import CppMend.Proofs.Text.Boundaries

/-!
# Texts with edits carried out

Edits from left to right cut a text into stretches that are kept and stretches that are replaced.
The edited text is the kept ones in order, with the texts of the edits between them.

* `ChangeSet.Woven`         a text with edits carried out, stretch by stretch;
* `ChangeSet.woven_weave`   edits that fit, and that do not overlap, are carried out so;
* `ChangeSet.Woven.foldr`   the same text comes from the edits one at a time, the last one first;
* `ChangeSet.Woven.slices`  and from slices of the text, each of which there is.
-/

namespace CppMend

open Text (byteSize byteSize_append)

theorem Edit.splice_append (a b c t : Text) :
    Edit.splice ⟨⟨byteSize a, byteSize b⟩, t⟩ (a ++ (b ++ c)) = a ++ (t ++ c) := by
  rw [Edit.splice, Text.cut_append]
  show a ++ t ++ (Text.cut (byteSize b) (b ++ c)).2 = _
  rw [Text.cut_append, List.append_assoc]

namespace ChangeSet

/-! ## what the checks say -/

theorem misfit?_eq_none_iff {text : Text} {e : Edit} : misfit? text e = none
    ↔ e.span.stop ≤ text.byteSize ∧ text.isBoundary e.span.start = true
      ∧ text.isBoundary e.span.stop = true := by
  unfold misfit?
  by_cases h : text.byteSize < e.span.stop
  · have hn : ¬e.span.stop ≤ text.byteSize := by omega
    simp [h, hn]
  · have hle : e.span.stop ≤ text.byteSize := by omega
    cases text.isBoundary e.span.start <;> cases text.isBoundary e.span.stop <;> simp [h, hle]

/-- an edit with both ends between characters ends within the text -/
theorem misfit?_eq_none {text : Text} {e : Edit} (hstart : text.isBoundary e.span.start = true)
    (hstop : text.isBoundary e.span.stop = true) : misfit? text e = none := by
  obtain ⟨front, rest, rfl, hf⟩ := Text.isBoundary_iff.mp hstop
  refine misfit?_eq_none_iff.mpr ⟨?_, hstart, hstop⟩
  rw [← hf, byteSize_append]
  exact Nat.le_add_right _ _

/-- An edit that fits cuts the text into what is before it, what it replaces, and what follows. -/
theorem parts_of_fit {text : Text} {e : Edit} (h : misfit? text e = none) :
    ∃ a b c, text = a ++ (b ++ c) ∧ byteSize a = e.span.start ∧ byteSize b = e.span.size := by
  obtain ⟨-, hs, hp⟩ := misfit?_eq_none_iff.mp h
  obtain ⟨a, r, har, ha⟩ := Text.isBoundary_iff.mp hs
  obtain ⟨f, c, hfc, hf⟩ := Text.isBoundary_iff.mp hp
  have hstop : e.span.stop = e.span.start + e.span.size := rfl
  rw [har] at hfc
  rcases List.append_eq_append_iff.mp hfc with ⟨b, hb, hr⟩ | ⟨b, hb, hr⟩
  · rw [hb, byteSize_append] at hf
    exact ⟨a, b, c, by rw [har, hr], ha, by omega⟩
  · -- the end is not before the start, so nothing is replaced
    rw [hb, byteSize_append] at ha
    have hn : b = [] := Text.eq_nil_of_byteSize_eq_zero (by omega)
    subst hn
    have hz : byteSize ([] : Text) = 0 := rfl
    exact ⟨a, [], r, har, by rw [hb, byteSize_append, ha], by omega⟩

/-- Of edits that do not overlap, each one starts behind the one before it. -/
theorem overlap?_cons {a : Edit} {es : List Edit} (h : overlap? (a :: es) = none) :
    overlap? es = none ∧ ∀ b ∈ es.head?, a.span.stop ≤ b.span.start := by
  cases es with
  | nil => exact ⟨rfl, fun b hb => by cases hb⟩
  | cons b es =>
    rw [overlap?] at h
    split at h
    · cases h
    · next hle =>
      refine ⟨h, ?_⟩
      intro c hc
      have hc : b = c := Option.some.inj hc
      rw [← hc]
      exact Nat.le_of_not_lt hle

theorem sorted_eq_ok_iff {c : ChangeSet} {text : Text} {order : List Edit} :
    c.sorted text = .ok order ↔ (∀ e ∈ order, misfit? text e = none) ∧ overlap? order = none
      ∧ order = c.edits.mergeSort precedes := by
  rw [sorted]
  cases hm : (c.edits.mergeSort precedes).findSome? (misfit? text) with
  | some error =>
    obtain ⟨e, he, hx⟩ := List.exists_of_findSome?_eq_some hm
    refine ⟨nofun, ?_⟩
    rintro ⟨hfit, -, rfl⟩
    rw [hfit e he] at hx
    cases hx
  | none =>
    have hfit := List.findSome?_eq_none_iff.mp hm
    cases ho : overlap? (c.edits.mergeSort precedes) with
    | some error =>
      refine ⟨nofun, ?_⟩
      rintro ⟨-, hov, rfl⟩
      rw [ho] at hov
      cases hov
    | none =>
      constructor
      · intro h
        cases h
        exact ⟨hfit, ho, rfl⟩
      · rintro ⟨-, -, rfl⟩
        rfl

/-- what is known of the edits of a change set that is accepted -/
theorem sorted_ok {c : ChangeSet} {text : Text} {edits : List Edit}
    (h : c.sorted text = .ok edits) :
    (∀ e ∈ edits, misfit? text e = none) ∧ overlap? edits = none :=
  ⟨(sorted_eq_ok_iff.mp h).1, (sorted_eq_ok_iff.mp h).2.1⟩

/-! ## weaving -/

/-- The text `rest`, which starts at an offset, with edits from left to right carried out: what is
before an edit is kept, and the text of the edit takes the place of what it spans. -/
inductive Woven : Nat → Text → List Edit → Text → Prop
  | done (offset : Nat) (rest : Text) : Woven offset rest [] rest
  | edit {offset : Nat} {kept removed rest result : Text} {e : Edit} {es : List Edit}
      (place : e.span = ⟨offset + byteSize kept, byteSize removed⟩)
      (more : Woven e.span.stop rest es result) :
      Woven offset (kept ++ (removed ++ rest)) (e :: es) (kept ++ (e.text ++ result))

/-- where an edit ends, by the text before it and what it replaces -/
theorem stop_of_place {front kept removed : Text} {e : Edit}
    (place : e.span = ⟨byteSize front + byteSize kept, byteSize removed⟩) :
    e.span.stop = byteSize (front ++ (kept ++ removed)) := by
  rw [place, byteSize_append, byteSize_append, ← Nat.add_assoc]
  rfl

/-- Edits that fit, and that do not overlap, are woven into what is left of the text. By induction
on the edits: what is behind the first one is left for the others. -/
theorem woven_weave {text : Text} {es : List Edit} (hfit : ∀ e ∈ es, misfit? text e = none)
    (hov : overlap? es = none) {front rest : Text} (ht : text = front ++ rest)
    (hfront : ∀ e ∈ es.head?, byteSize front ≤ e.span.start) :
    Woven (byteSize front) rest es (weave (byteSize front) rest es) := by
  induction es generalizing front rest with
  | nil => exact .done _ _
  | cons e es ih =>
    obtain ⟨a, removed, after, hp, ha, hb⟩ := parts_of_fit (hfit e List.mem_cons_self)
    obtain ⟨hov', hnext⟩ := overlap?_cons hov
    have hle : byteSize front ≤ e.span.start := hfront e rfl
    -- the front is a part of what is before the edit
    obtain ⟨kept, rfl, rfl⟩ : ∃ k, a = front ++ k ∧ rest = k ++ (removed ++ after) := by
      rw [ht] at hp
      rcases List.append_eq_append_iff.mp hp with ⟨k, hk, hr⟩ | ⟨k, hk, hr⟩
      · exact ⟨k, hk, hr⟩
      · rw [hk, byteSize_append] at hle
        have hn : k = [] := Text.eq_nil_of_byteSize_eq_zero (by omega)
        subst hn
        exact ⟨[], by simpa using hk.symm, hr.symm⟩
    rw [byteSize_append] at ha
    have place : e.span = ⟨byteSize front + byteSize kept, byteSize removed⟩ := by rw [ha, hb]
    have hstop := stop_of_place place
    have more : Woven e.span.stop after es (weave e.span.stop after es) := by
      rw [hstop]
      refine ih (fun f hf => hfit f (List.mem_cons_of_mem _ hf)) hov' ?_ ?_
      · rw [hp, List.append_assoc, List.append_assoc, List.append_assoc]
      · intro f hf
        rw [← hstop]
        exact hnext f hf
    have hw : weave (byteSize front) (kept ++ (removed ++ after)) (e :: es)
        = kept ++ (e.text ++ weave e.span.stop after es) := by
      have hs : e.span.start - byteSize front = byteSize kept := by omega
      rw [weave, hs, Text.cut_append]
      show kept ++ e.text ++ weave e.span.stop (Text.cut e.span.size (removed ++ after)).2 es = _
      rw [← hb, Text.cut_append, List.append_assoc]
    rw [hw]
    exact .edit place more

namespace Woven

variable {text front rest result : Text} {offset : Nat} {es : List Edit}

/-- Steps that each carry out one edit, while the text behind it may have changed, come to the woven
text if the last edit is the first to be carried out. -/
theorem foldr {step : Edit → Text → Text}
    (hstep : ∀ e ∈ es, ∀ {a b c : Text}, text = a ++ (b ++ c) →
      e.span = ⟨byteSize a, byteSize b⟩ → ∀ c', step e (a ++ (b ++ c')) = a ++ (e.text ++ c'))
    (h : Woven offset rest es result) (ht : text = front ++ rest) (hf : byteSize front = offset) :
    es.foldr step text = front ++ result := by
  induction h generalizing front with
  | done => exact ht
  | @edit offset kept removed rest result e es place more ih =>
    subst hf
    have hstop := stop_of_place place
    have hcut : text = front ++ kept ++ (removed ++ rest) := by rw [ht, List.append_assoc]
    have hlater : es.foldr step text = front ++ kept ++ (removed ++ result) := by
      have hrest : text = front ++ (kept ++ removed) ++ rest := by rw [ht]; simp
      rw [ih (fun f hf => hstep f (List.mem_cons_of_mem _ hf)) hrest hstop.symm]
      simp
    have hspan : e.span = ⟨byteSize (front ++ kept), byteSize removed⟩ := by
      rw [place, byteSize_append]
    rw [List.foldr_cons, hlater, hstep e List.mem_cons_self hcut hspan, List.append_assoc]

theorem foldr_splice (h : Woven offset rest es result) (ht : text = front ++ rest)
    (hf : byteSize front = offset) : es.foldr Edit.splice text = front ++ result := by
  refine h.foldr ?_ ht hf
  rintro ⟨span, t⟩ - a b c - rfl c'
  exact Edit.splice_append a b c' t

end Woven

/-- The slices of a text between edits, from an offset on, with the texts of the edits. A slice that
does not lie in the text, or that cuts a character, is none, and then so is the whole. -/
def slices? (text : Text) (cursor : Nat) : List Edit → Option Text
  | [] => text.slice? cursor text.byteSize
  | e :: es =>
    (text.slice? cursor e.span.start).bind fun kept =>
      (slices? text e.span.stop es).map fun after => kept ++ e.text ++ after

theorem Woven.slices {text front rest result : Text} {offset : Nat} {es : List Edit}
    (h : Woven offset rest es result) (ht : text = front ++ rest) (hf : byteSize front = offset) :
    slices? text offset es = some result := by
  induction h generalizing front with
  | done offset rest =>
    subst ht hf
    have hs := Text.slice?_append front rest []
    rw [List.append_nil, ← byteSize_append] at hs
    exact hs
  | @edit offset kept removed rest result e es place more ih =>
    subst hf
    have hs := Text.slice?_append front kept (removed ++ rest)
    have hrest : text = front ++ (kept ++ removed) ++ rest := by rw [ht]; simp
    have hm := ih hrest (stop_of_place place).symm
    have hstart : e.span.start = byteSize front + byteSize kept := by rw [place]
    rw [slices?, hstart, ht, hs, Option.bind_some, ← ht, hm, Option.map_some, List.append_assoc]

end ChangeSet

end CppMend
