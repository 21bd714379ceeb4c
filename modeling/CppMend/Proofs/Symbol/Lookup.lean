import CppMend.Proofs.Order.Ties
import CppMend.Symbol.Index
import Mathlib.Data.Char
import Mathlib.Data.List.Lex
import Mathlib.Data.List.Pairwise

/-!
# The places of a name

The places where a name is declared are sorted by file and offset. Two declarations of one file may
have the same offset, and then the sort leaves them as they are in the file. So the order in which the
files are gone through never shows, as long as no two of them are spelled alike.

* `Located.find?_byName`             what is filed under a name;
* `Snapshot.lookup_eq_of_perm`       the order of the files does not show;
* `Snapshot.lookup_sorted`           the places are in order;
* `Snapshot.lookup_of_file`          those of one file are the entries of the file.
-/

namespace CppMend

/-- Where no two elements give anything that is not empty, their order does not matter. -/
theorem flatMap_eq_of_perm {α β : Type} {f : α → List β} {l m : List α} (hp : l.Perm m)
    (h : l.Pairwise fun a b => f a = [] ∨ f b = []) : l.flatMap f = m.flatMap f := by
  induction hp with
  | nil => rfl
  | cons a _ ih => rw [List.flatMap_cons, List.flatMap_cons, ih h.of_cons]
  | swap a b l =>
    have hab := List.rel_of_pairwise_cons h List.mem_cons_self
    simp only [List.flatMap_cons]
    rcases hab with hab | hab <;> simp [hab]
  | trans h₁ _ ih₁ ih₂ =>
    rw [ih₁ h, ih₂ ((h₁.pairwise_iff fun h => h.symm).mp h)]

/-! ## the order of places -/

namespace Located

theorem precedes_iff {a b : Located} : precedes a b = true ↔ a.uri.render < b.uri.render
    ∨ a.uri.render = b.uri.render ∧ a.symbol.nameSpan.start ≤ b.symbol.nameSpan.start := by
  rw [precedes]
  split
  · next h => simp [h]
  · next h => simp [h]

theorem precedes_total (a b : Located) : (precedes a b || precedes b a) = true := by
  rw [Bool.or_eq_true, precedes_iff, precedes_iff]
  rcases lt_trichotomy a.uri.render b.uri.render with h | h | h
  · exact .inl (.inl h)
  · rcases Nat.le_total a.symbol.nameSpan.start b.symbol.nameSpan.start with hs | hs
    · exact .inl (.inr ⟨h, hs⟩)
    · exact .inr (.inr ⟨h.symm, hs⟩)
  · exact .inr (.inl h)

theorem precedes_trans (a b c : Located) (hab : precedes a b = true) (hbc : precedes b c = true) :
    precedes a c = true := by
  rw [precedes_iff] at hab hbc ⊢
  rcases hab with hab | ⟨hab, hs⟩ <;> rcases hbc with hbc | ⟨hbc, ht⟩
  · exact .inl (lt_trans hab hbc)
  · exact .inl (hbc ▸ hab)
  · exact .inl (hab ▸ hbc)
  · exact .inr ⟨hab.trans hbc, hs.trans ht⟩

/-- Places that tie are in files that are spelled alike. -/
theorem render_eq_of_ties {a b : Located} (h : ties precedes a b = true) :
    a.uri.render = b.uri.render := by
  rw [ties, Bool.and_eq_true, precedes_iff, precedes_iff] at h
  obtain ⟨h | h, h' | h'⟩ := h
  · exact absurd (lt_trans h h') (lt_irrefl _)
  · exact h'.1.symm
  · exact h.1
  · exact h.1

/-! ## what is filed under a name -/

/-- A place is filed under its own name, behind those that are there. -/
theorem find?_filed (t : Table Text (List Located)) (l : Located) (name : Text) :
    ((filed t l).find? name).getD []
      = (t.find? name).getD [] ++ if l.symbol.name = name then [l] else [] := by
  rw [filed, Table.find?_insert]
  by_cases h : l.symbol.name = name
  · rw [if_pos h.symm, if_pos h, h, Option.getD_some]
  · rw [if_neg (Ne.symm h), if_neg h, List.append_nil]

theorem find?_foldl_filed (ls : List Located) (t : Table Text (List Located)) (name : Text) :
    ((ls.foldl filed t).find? name).getD []
      = (t.find? name).getD [] ++ ls.filter (·.symbol.name = name) := by
  induction ls generalizing t with
  | nil => exact (List.append_nil _).symm
  | cons l ls ih =>
    rw [List.foldl_cons, ih, find?_filed, List.append_assoc, List.filter_cons]
    by_cases h : l.symbol.name = name
    · rw [if_pos h, decide_eq_true h, if_pos rfl, List.singleton_append]
    · rw [if_neg h, decide_eq_false h, if_neg Bool.false_ne_true, List.nil_append]

theorem mem_keys_foldl_filed (ls : List Located) (t : Table Text (List Located)) (name : Text) :
    name ∈ (ls.foldl filed t).keys ↔ name ∈ t.keys ∨ ∃ l ∈ ls, l.symbol.name = name := by
  induction ls generalizing t with
  | nil => simp
  | cons l ls ih =>
    rw [List.foldl_cons, ih, filed, Table.mem_keys_insert, List.exists_mem_cons_iff,
      or_comm (a := name = _), or_assoc, eq_comm (a := name)]

variable (files : Table Uri (List Symbol)) (name : Text)

/-- Under a name are all its places, in order. -/
theorem find?_byName : ((byName files).find? name).getD []
    = ((ofFiles files).filter (·.symbol.name = name)).mergeSort precedes := by
  have hfiled := find?_foldl_filed (ofFiles files) .empty name
  rw [Table.find?_empty, Option.getD_none, List.nil_append] at hfiled
  rw [byName, Table.find?_map, ← hfiled]
  cases ((ofFiles files).foldl filed .empty).find? name with
  | none => exact List.mergeSort_nil.symm
  | some ls => rfl

/-- Only names that are declared have places. -/
theorem mem_keys_byName : name ∈ (byName files).keys ↔ ∃ l ∈ ofFiles files, l.symbol.name = name := by
  rw [byName, Table.keys_map, mem_keys_foldl_filed, Table.keys_empty, List.mem_nil_iff, false_or]

end Located

namespace Snapshot

open Located

/-- The places of a name are those of all that have it, in order. -/
theorem lookup_eq_filter (s : Snapshot) (name : Text) :
    s.lookup name = (s.all.filter (·.symbol.name = name)).mergeSort precedes := by
  rw [lookup, s.byName_eq, find?_byName]
  rfl

/-- the places of a name in one file, in the order of the file -/
def placesIn (name : Text) (file : Uri × List Symbol) : List Located :=
  (file.2.filter (·.name = name)).map (⟨file.1, ·⟩)

theorem filter_all (s : Snapshot) (name : Text) :
    s.all.filter (·.symbol.name = name) = s.files.entries.flatMap (placesIn name) := by
  rw [all, ofFiles, List.filter_flatMap]
  congr 1
  funext file
  rw [List.filter_map]
  rfl

theorem lookup_eq (s : Snapshot) (name : Text) :
    s.lookup name = (s.files.entries.flatMap (placesIn name)).mergeSort precedes := by
  rw [lookup_eq_filter, filter_all]

theorem lookup_sorted (s : Snapshot) (name : Text) : (s.lookup name).Pairwise fun l m =>
    l.uri.render < m.uri.render
      ∨ l.uri.render = m.uri.render ∧ l.symbol.nameSpan.start ≤ m.symbol.nameSpan.start := by
  rw [lookup_eq]
  exact (List.pairwise_mergeSort precedes_trans precedes_total _).imp precedes_iff.mp

theorem mem_keys_of_mem_lookup {s : Snapshot} {name : Text} {l : Located} (h : l ∈ s.lookup name) :
    l.uri ∈ s.files.keys := by
  rw [lookup_eq] at h
  obtain ⟨file, hfile, hl⟩ := List.mem_flatMap.mp ((List.mergeSort_perm _ _).mem_iff.mp h)
  obtain ⟨symbol, -, rfl⟩ := List.mem_map.mp hl
  exact List.mem_map_of_mem hfile

/-- The order in which the files are listed does not show in what is found. -/
theorem lookup_eq_of_perm {s t : Snapshot} (hp : s.files.entries.Perm t.files.entries)
    (hspell : ∀ u ∈ s.files.keys, ∀ v ∈ s.files.keys, u.render = v.render → u = v) (name : Text) :
    s.lookup name = t.lookup name := by
  have refl : ∀ a, precedes a a = true := fun a => precedes_iff.mpr (.inr ⟨rfl, Nat.le_refl _⟩)
  rw [lookup_eq, lookup_eq]
  refine eq_of_ties refl (List.pairwise_mergeSort precedes_trans precedes_total _)
    (List.pairwise_mergeSort precedes_trans precedes_total _) fun x => ?_
  rw [filter_mergeSort precedes_trans precedes_total, filter_mergeSort precedes_trans precedes_total,
    List.filter_flatMap, List.filter_flatMap]
  -- only one file has places that tie with `x`
  have hempty : ∀ file : Uri × List Symbol, file.1.render ≠ x.uri.render →
      (placesIn name file).filter (ties precedes x) = [] := by
    intro file hne
    rw [List.filter_eq_nil_iff]
    rintro l hl htie
    obtain ⟨symbol, -, rfl⟩ := List.mem_map.mp hl
    exact hne (render_eq_of_ties htie).symm
  have hdistinct : s.files.entries.Pairwise fun a b => a.1 ≠ b.1 :=
    List.pairwise_map.mp s.files.distinct
  refine flatMap_eq_of_perm hp (hdistinct.imp_of_mem fun {a b} ha hb hab => ?_)
  by_cases hx : a.1.render = x.uri.render
  · refine .inr (hempty b fun hb' => hab ?_)
    exact hspell _ (List.mem_map_of_mem ha) _ (List.mem_map_of_mem hb) (hx.trans hb'.symm)
  · exact .inl (hempty a hx)

/-- What is declared in a file are the entries of the file. -/
theorem filter_uri_all (s : Snapshot) (uri : Uri) :
    s.all.filter (·.uri = uri) = (s.symbolsIn uri).map (⟨uri, ·⟩) := by
  have hfile (file : Uri × List Symbol) : (file.2.map (Located.mk file.1)).filter (·.uri = uri)
      = if file.1 = uri then file.2.map (Located.mk file.1) else [] := by
    split
    · next h =>
      refine List.filter_eq_self.mpr fun l hl => ?_
      obtain ⟨symbol, -, rfl⟩ := List.mem_map.mp hl
      exact decide_eq_true h
    · next h =>
      refine List.filter_eq_nil_iff.mpr fun l hl he => ?_
      obtain ⟨symbol, -, rfl⟩ := List.mem_map.mp hl
      exact h (of_decide_eq_true he)
  rw [all, ofFiles, List.filter_flatMap]
  simp only [hfile]
  have hd := s.files.distinct
  rw [symbolsIn, Table.find?]
  generalize s.files.entries = es at hd
  -- by induction on the files, of which one at most is the file asked for
  induction es with
  | nil => rfl
  | cons e es ih =>
    rw [List.map_cons, List.nodup_cons] at hd
    rw [List.flatMap_cons, List.find?_cons]
    by_cases he : e.1 = uri
    · have hrest : es.flatMap (fun a => if a.1 = uri then a.2.map (Located.mk a.1) else []) = [] := by
        rw [List.flatMap_eq_nil_iff]
        intro a ha
        refine if_neg fun h => hd.1 ?_
        rw [he, ← h]
        exact List.mem_map_of_mem ha
      rw [if_pos he, hrest, List.append_nil, decide_eq_true he, he]
      rfl
    · rw [if_neg he, List.nil_append, ih hd.2, decide_eq_false he]

/-- The places that are found in a file are the entries of the file that have the name. -/
theorem lookup_of_file (s : Snapshot) (name : Text) (uri : Uri) :
    ((s.lookup name).filter (·.uri = uri)).Perm
      (((s.symbolsIn uri).filter (·.name = name)).map (⟨uri, ·⟩)) := by
  rw [lookup_eq_filter]
  refine ((List.mergeSort_perm _ _).filter _).trans (.of_eq ?_)
  rw [List.filter_filter, List.filter_congr fun l _ => Bool.and_comm _ _, ← List.filter_filter,
    filter_uri_all, List.filter_map]
  rfl

end Snapshot

end CppMend
