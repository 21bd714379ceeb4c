import CppMend.Proofs.Lexical.Names
import CppMend.Proofs.Symbol.Functions
import CppMend.Proofs.Symbol.Provider
import CppMend.Proofs.Text.ByteOrder
import Mathlib.Algebra.GroupWithZero.Nat
import Mathlib.Data.List.Infix

/-!
# Searching for names

A search goes through all names that have the query in them, in order, and lists for each what a lookup
of it finds, up to a limit. So it finds what the entries of the files say, whatever the order in which
the files were scanned, and a lower limit only cuts off the end.

* `Snapshot.found`             all that a query finds;
* `Snapshot.namesWith`         the names that have the query in them;
* `Snapshot.found_eq`          what is found, name by name;
* `Snapshot.IsLowerCase`       a mapping to lower case, as far as names in ASCII can tell;
* `Provider.snapshot_searches` what a search finds in a snapshot that is served.
-/

namespace CppMend

/-! ## parts of texts -/

theorem Text.contains_iff (part t : Text) : contains part t = true ↔ part <:+: t := by
  induction t with
  | nil => rw [contains, List.isEmpty_iff, List.infix_nil]
  | cons c t ih => rw [contains, Bool.or_eq_true, ih, List.isPrefixOf_iff_prefix, List.infix_cons_iff]

/-! ## the order of what is found -/

namespace Located

/-- by name, then by file and offset -/
def precedesByName (a b : Located) : Bool :=
  if a.symbol.name = b.symbol.name then precedes a b else a.symbol.name < b.symbol.name

theorem precedesByName_iff {a b : Located} : precedesByName a b = true
    ↔ a.symbol.name < b.symbol.name ∨ a.symbol.name = b.symbol.name ∧ precedes a b = true := by
  rw [precedesByName]
  split
  · next h => simp [h]
  · next h => simp [h]

theorem precedesByName_total (a b : Located) : (precedesByName a b || precedesByName b a) = true := by
  rw [Bool.or_eq_true, precedesByName_iff, precedesByName_iff]
  rcases lt_trichotomy a.symbol.name b.symbol.name with h | h | h
  · exact .inl (.inl h)
  · rcases Bool.or_eq_true_iff.mp (precedes_total a b) with hp | hp
    · exact .inl (.inr ⟨h, hp⟩)
    · exact .inr (.inr ⟨h.symm, hp⟩)
  · exact .inr (.inl h)

theorem precedesByName_trans (a b c : Located) (hab : precedesByName a b = true)
    (hbc : precedesByName b c = true) : precedesByName a c = true := by
  rw [precedesByName_iff] at hab hbc ⊢
  rcases hab with hab | ⟨hab, hp⟩ <;> rcases hbc with hbc | ⟨hbc, hq⟩
  · exact .inl (lt_trans hab hbc)
  · exact .inl (hbc ▸ hab)
  · exact .inl (hab ▸ hbc)
  · exact .inr ⟨hab.trans hbc, precedes_trans a b c hp hq⟩

/-- Places tie by name if the name is the same and they tie. -/
theorem ties_byName (a b : Located) : ties precedesByName a b
    = (decide (b.symbol.name = a.symbol.name) && ties precedes a b) := by
  rw [Bool.eq_iff_iff, ties, Bool.and_eq_true, Bool.and_eq_true, precedesByName_iff,
    precedesByName_iff, decide_eq_true_iff, ties, Bool.and_eq_true]
  constructor
  · rintro ⟨h | h, h' | h'⟩
    · exact absurd (lt_trans h h') (lt_irrefl _)
    · exact absurd (h'.1 ▸ h) (lt_irrefl _)
    · exact absurd (h.1 ▸ h') (lt_irrefl _)
    · exact ⟨h'.1, h.2, h'.2⟩
  · rintro ⟨h, hp, hq⟩
    exact ⟨.inr ⟨h.symm, hp⟩, .inr ⟨h, hq⟩⟩

/-- by name, then by file, both as their bytes are ordered, then by the offset of the name -/
def Before (l m : Located) : Prop :=
  Bytes.ofText l.symbol.name < Bytes.ofText m.symbol.name
    ∨ l.symbol.name = m.symbol.name
      ∧ (Bytes.ofText l.uri.render < Bytes.ofText m.uri.render
        ∨ l.uri = m.uri ∧ l.symbol.nameSpan.start ≤ m.symbol.nameSpan.start)

end Located

namespace Snapshot

open Located

variable (s : Snapshot) (query : Text)

/-! ## all that a query finds -/

/-- all places of names that have the query in them, in order -/
def found : List Located := (s.all.filter fun l => answers query l.symbol.name).mergeSort precedesByName

theorem mem_namesWith {name : Text} : name ∈ s.namesWith query
    ↔ (∃ l ∈ s.all, l.symbol.name = name) ∧ answers query name = true := by
  rw [namesWith, (List.mergeSort_perm _ _).mem_iff, List.mem_filter, s.byName_eq, mem_keys_byName]
  rfl

theorem namesWith_sorted : (s.namesWith query).Pairwise (· < ·) := by
  have hnodup : (s.namesWith query).Nodup :=
    (List.mergeSort_perm _ _).nodup_iff.mpr (s.byName.distinct.filter _)
  have hle {a b : Text} : (!decide (b < a)) = true ↔ a ≤ b := by
    rw [Bool.not_eq_true', decide_eq_false_iff_not, not_lt]
  have hsorted : (s.namesWith query).Pairwise fun a b => a ≤ b := by
    rw [namesWith]
    refine List.Pairwise.imp (fun {a b} h => hle.mp h)
      (List.pairwise_mergeSort (fun a b c hab hbc => ?_) (fun a b => ?_) _)
    · exact hle.mpr ((hle.mp hab).trans (hle.mp hbc))
    · rw [Bool.or_eq_true, hle, hle]
      exact le_total a b
  exact (hsorted.and hnodup).imp fun h => lt_of_le_of_ne h.1 h.2

theorem name_of_mem_lookup {name : Text} {l : Located} (h : l ∈ s.lookup name) :
    l ∈ s.all ∧ l.symbol.name = name := by
  rw [lookup_eq_filter, (List.mergeSort_perm _ _).mem_iff, List.mem_filter] at h
  exact ⟨h.1, of_decide_eq_true h.2⟩

/-- What is found of a name is in order, and so are the names. -/
theorem lookups_sorted {names : List Text} (h : names.Pairwise (· < ·)) :
    (names.flatMap s.lookup).Pairwise fun a b => precedesByName a b = true := by
  rw [List.pairwise_flatMap]
  refine ⟨fun name _ => ?_, h.imp fun {m n} hmn a ha b hb => ?_⟩
  · have hsorted : (s.lookup name).Pairwise fun a b => precedes a b = true :=
      (s.lookup_sorted name).imp precedes_iff.mpr
    refine hsorted.imp_of_mem fun {a b} ha hb hab => precedesByName_iff.mpr (.inr ⟨?_, hab⟩)
    rw [(s.name_of_mem_lookup ha).2, (s.name_of_mem_lookup hb).2]
  · refine precedesByName_iff.mpr (.inl ?_)
    rw [(s.name_of_mem_lookup ha).2, (s.name_of_mem_lookup hb).2]
    exact hmn

/-- The places that tie with one of a name are among those of this name. -/
theorem filter_lookup (x : Located) (name : Text) : (s.lookup name).filter (ties precedesByName x)
    = if name = x.symbol.name then s.all.filter (ties precedesByName x) else [] := by
  have hname : ∀ l ∈ s.lookup name, decide (l.symbol.name = x.symbol.name)
      = decide (name = x.symbol.name) := fun l hl => by rw [(s.name_of_mem_lookup hl).2]
  split
  · next h =>
    have hties : (s.lookup name).filter (ties precedesByName x)
        = (s.lookup name).filter (ties precedes x) :=
      List.filter_congr fun l hl => by rw [ties_byName, hname l hl, decide_eq_true h, Bool.true_and]
    rw [hties, lookup_eq_filter, filter_mergeSort precedes_trans precedes_total, List.filter_filter]
    exact List.filter_congr fun l _ => by rw [ties_byName, h, Bool.and_comm]
  · next h =>
    refine List.filter_eq_nil_iff.mpr fun l hl htie => ?_
    rw [ties_byName, hname l hl, decide_eq_false h] at htie
    cases htie

theorem flatMap_ite_of_nodup {names : List Text} (h : names.Nodup) (name : Text) (ls : List Located) :
    (names.flatMap fun n => if n = name then ls else []) = if name ∈ names then ls else [] := by
  induction names with
  | nil => rfl
  | cons n names ih =>
    obtain ⟨hn, h⟩ := List.nodup_cons.mp h
    rw [List.flatMap_cons, ih h]
    by_cases hname : n = name
    · subst hname
      rw [if_pos rfl, if_neg hn, if_pos List.mem_cons_self, List.append_nil]
    · rw [if_neg hname, List.nil_append]
      simp [Ne.symm hname]

/-- What is found are the places that a lookup finds of each name that has the query in it. -/
theorem found_eq : s.found query = (s.namesWith query).flatMap s.lookup := by
  have refl : ∀ a, precedesByName a a = true := fun a =>
    (Bool.or_self _).symm.trans (precedesByName_total a a)
  refine eq_of_ties refl
    (List.pairwise_mergeSort precedesByName_trans precedesByName_total _)
    (s.lookups_sorted (s.namesWith_sorted query)) fun x => ?_
  rw [found, filter_mergeSort precedesByName_trans precedesByName_total, List.filter_flatMap,
    List.filter_filter]
  simp only [s.filter_lookup x]
  -- of all names, only that of `x` has places that tie with `x`
  rw [flatMap_ite_of_nodup ((s.namesWith_sorted query).imp ne_of_lt)]
  have hname {l : Located} (h : ties precedesByName x l = true) : l.symbol.name = x.symbol.name := by
    rw [ties_byName, Bool.and_eq_true, decide_eq_true_iff] at h
    exact h.1
  split
  · next hx =>
    refine List.filter_congr fun l _ => ?_
    cases htie : ties precedesByName x l with
    | false => rfl
    | true =>
      rw [Bool.true_and, hname htie]
      exact ((s.mem_namesWith query).mp hx).2
  · next hx =>
    refine List.filter_eq_nil_iff.mpr fun l hl h => hx ?_
    obtain ⟨htie, hanswers⟩ := Bool.and_eq_true_iff.mp h
    rw [hname htie] at hanswers
    exact (s.mem_namesWith query).mpr ⟨⟨l, hl, hname htie⟩, hanswers⟩

/-- Where no two files have the same URI, what is found is in order. -/
theorem found_sorted (h : ∀ u ∈ s.files.keys, u.Proper) : (s.found query).Pairwise Before := by
  have hkey : ∀ l ∈ s.found query, l.uri.Proper := by
    intro l hl
    rw [s.found_eq, List.mem_flatMap] at hl
    obtain ⟨name, -, hl⟩ := hl
    exact h _ (Snapshot.mem_keys_of_mem_lookup hl)
  refine (List.pairwise_mergeSort precedesByName_trans precedesByName_total _).imp_of_mem
    fun {l m} hl hm h => ?_
  rcases precedesByName_iff.mp h with h | ⟨hname, h⟩
  · exact .inl (Bytes.ofText_lt_ofText h)
  · refine .inr ⟨hname, ?_⟩
    rcases precedes_iff.mp h with h | ⟨hr, hstart⟩
    · exact .inl (Bytes.ofText_lt_ofText h)
    · exact .inr ⟨Uri.eq_of_render (hkey l hl) (hkey m hm) hr, hstart⟩

/-- What is found in a file are the entries of the file whose names have the query in them. -/
theorem found_of_file (uri : Uri) : ((s.found query).filter (·.uri = uri)).Perm
    (((s.symbolsIn uri).filter fun e => answers query e.name).map (⟨uri, ·⟩)) := by
  refine ((List.mergeSort_perm _ _).filter _).trans (.of_eq ?_)
  rw [List.filter_filter, List.filter_congr fun l _ => Bool.and_comm _ _, ← List.filter_filter,
    filter_uri_all, List.filter_map]
  rfl

theorem search_eq (limit : Nat) : s.search query limit = (s.found query).take limit := by
  rw [search, found_eq]

/-- All names have the empty text in them. -/
theorem answers_nil (name : Text) : answers [] name = true :=
  (Text.contains_iff _ _).mpr List.nil_infix

/-- What is counted is what is filed under the names. -/
theorem size_eq_sum : s.size = (s.byName.keys.map fun name => (s.lookup name).length).sum := by
  rw [size, List.length_flatMap, Table.keys, List.map_map]
  congr 1
  refine List.map_congr_left fun e he => ?_
  have hlookup : s.byName.find? e.1 = some e.2 := (Table.find?_eq_some_iff _ _ _).mpr he
  rw [Function.comp_apply, lookup, hlookup, Option.getD_some]

theorem length_found_nil : (s.found []).length = s.size := by
  have hnames : (s.namesWith []).Perm s.byName.keys := by
    rw [namesWith, List.filter_eq_self.mpr fun name _ => answers_nil name]
    exact List.mergeSort_perm _ _
  rw [found_eq, List.length_flatMap, size_eq_sum]
  exact (hnames.map _).sum_nat

/-- All that is declared is counted. -/
theorem size_eq : s.size = s.all.length := by
  rw [← length_found_nil, found, List.length_mergeSort,
    List.filter_eq_self.mpr fun l _ => answers_nil l.symbol.name]

/-- The order of the files does not show in what is found. -/
theorem found_eq_of_perm {s t : Snapshot} (hp : s.files.entries.Perm t.files.entries)
    (hspell : ∀ u ∈ s.files.keys, ∀ v ∈ s.files.keys, u.render = v.render → u = v) (query : Text) :
    s.found query = t.found query := by
  have hall : s.all.Perm t.all := hp.flatMap_right _
  have hnames : s.namesWith query = t.namesWith query := by
    have hantisymm (a b : Text) (_ : a ∈ s.namesWith query) (_ : b ∈ t.namesWith query)
        (hab : a < b) (hba : b < a) : a = b := absurd (lt_trans hab hba) (lt_irrefl a)
    refine List.Perm.eq_of_pairwise hantisymm (s.namesWith_sorted query) (t.namesWith_sorted query) ?_
    refine (List.perm_ext_iff_of_nodup ((s.namesWith_sorted query).imp ne_of_lt)
      ((t.namesWith_sorted query).imp ne_of_lt)).mpr fun name => ?_
    simp only [mem_namesWith, hall.mem_iff]
  rw [found_eq, found_eq, hnames]
  exact List.flatMap_congr fun name _ => lookup_eq_of_perm hp hspell name

end Snapshot

/-! ## lower case -/

section
variable (source : Text)

open TokenClass in
/-- The names of symbols are in ASCII. -/
theorem mem_nameTail_of_symbol {e : Symbol} (h : e ∈ (parse source).root.symbols) :
    ∀ c ∈ e.name, c ∈ nameTail := by
  obtain ⟨o, hd, -, hplace⟩ := exists_name_of_symbol source h
  have hleaf : o.name ∈ (parse source).root.leaves := by
    have hsnd : ((parse source).root.tree.leavesUnder []).map Prod.snd = (parse source).root.leaves :=
      Tree.leavesUnder_snd [] _
    exact hsnd ▸ List.mem_map_of_mem hplace
  rw [parse_leaves] at hleaf
  have htoken : o.name.token ∈ scan source := by
    have := List.mem_map_of_mem (f := Leaf.token) hleaf
    rwa [Leaf.map_token_row] at this
  obtain ⟨before, after, hscan⟩ := List.append_of_mem htoken
  obtain ⟨-, hlexeme, herror⟩ := scan_head (scan_split hscan)
  by_cases hsome : ∃ kind w, w <+: (o.name.token :: after).flatMap (·.text) ∧ Lexeme kind w
  · obtain ⟨k, hk, hi, hm⟩ := (hlexeme hsome).1
    have hi : k.kind = .ident := hi.trans hd.isIdent
    rw [Token.pattern_of_ident (mem_patterned hk (by rw [hi]; rfl)) hi] at hm
    rw [hd.name]
    exact Token.only_name.sound hm
  · have hkind := herror hsome
    rw [show o.name.token.kind = o.name.kind from rfl, hd.isIdent] at hkind
    cases hkind

end

namespace Snapshot

/-- ASCII, or the Kelvin sign, the other character that is an ASCII letter in lower case -/
def IsPlain (c : Char) : Prop := c.toNat < 128 ∨ c = '\u212a'

/-- A mapping to lower case. It is known for ASCII, and it gives no ASCII alone where there is another
character. -/
structure IsLowerCase (lower : Text → Text) : Prop where
  plain : ∀ t, (∀ c ∈ t, IsPlain c) →
    lower t = t.map fun c => if c = '\u212a' then 'k' else c.toLower
  other : ∀ t, (∃ c ∈ t, ¬IsPlain c) → ∃ c ∈ lower t, 128 ≤ c.toNat

theorem foldChar_of_not_plain {c : Char} (h : ¬IsPlain c) : foldChar c = c := by
  have hc : ¬(c.toNat < 128 ∨ c = '\u212a') := h
  rw [not_or, Nat.not_lt] at hc
  rw [foldChar, if_neg hc.2]
  refine dif_neg ?_
  rintro ⟨-, hz⟩
  have hle : c.toNat ≤ 90 := UInt32.le_iff_toNat_le.mp hz
  omega

/-- Names alone do not tell the mapping here from another one. -/
theorem isLowerCase_fold : IsLowerCase fold where
  plain _ _ := rfl
  other t := by
    rintro ⟨c, hc, hnot⟩
    refine ⟨c, List.mem_map.mpr ⟨c, hc, foldChar_of_not_plain hnot⟩, ?_⟩
    exact Nat.not_lt.mp fun h => hnot (.inl h)

theorem ascii_of_mem_nameTail : ∀ c ∈ TokenClass.nameTail, c.toNat < 128 ∧ (foldChar c).toNat < 128 := by
  have hall : TokenClass.nameTail.all
      (fun c => decide (c.toNat < 128) && decide ((foldChar c).toNat < 128)) = true := by
    decide
  simpa using hall

/-- Only such a mapping matters for what is found. -/
theorem answers_iff {lower : Text → Text} (h : IsLowerCase lower) {name : Text}
    (hname : ∀ c ∈ name, c ∈ TokenClass.nameTail) (query : Text) :
    answers query name = true ↔ lower query <:+: lower name := by
  have hlower : lower name = fold name :=
    h.plain name fun c hc => .inl (ascii_of_mem_nameTail c (hname c hc)).1
  have hascii : ∀ c ∈ fold name, c.toNat < 128 := by
    intro c hc
    obtain ⟨d, hd, rfl⟩ := List.mem_map.mp hc
    exact (ascii_of_mem_nameTail d (hname d hd)).2
  rw [answers, Text.contains_iff, hlower]
  by_cases hplain : ∀ c ∈ query, IsPlain c
  · rw [h.plain query hplain]
    exact Iff.rfl
  · -- a character that is not plain is in no name, in lower case or not
    obtain ⟨c, hc, hnot⟩ : ∃ c ∈ query, ¬IsPlain c := by simpa using hplain
    have hfold : c ∈ fold query := List.mem_map.mpr ⟨c, hc, foldChar_of_not_plain hnot⟩
    obtain ⟨d, hd, hlarge⟩ := h.other query ⟨c, hc, hnot⟩
    have hc128 : ¬c.toNat < 128 := fun hlt => hnot (.inl hlt)
    refine iff_of_false (fun hin => hc128 (hascii c (hin.subset hfold))) fun hin => ?_
    exact absurd (hascii d (hin.subset hd)) (Nat.not_lt.mpr hlarge)

end Snapshot

namespace Provider

variable {calls others : List Call}

/-- Runs that leave the same trees record the same entries. -/
theorem entries_perm (h : ∀ uri, (lastTree? others uri).map (·.root.symbols)
      = (lastTree? calls uri).map (·.root.symbols)) :
    (ran others).index.files.entries.Perm (ran calls).index.files.entries := by
  have hnodup (t : Table Uri (List Symbol)) : t.entries.Nodup := .of_map Prod.fst t.distinct
  refine (List.perm_ext_iff_of_nodup (hnodup _) (hnodup _)).mpr fun ⟨uri, symbols⟩ => ?_
  rw [← Table.find?_eq_some_iff, ← Table.find?_eq_some_iff, find?_ran, find?_ran]
  exact h uri ▸ Iff.rfl

/-- What a search finds in a snapshot that a provider serves. There is one sequence for a query, and a
search gives as much of its start as the limit allows. The sequence lists every entry that is recorded
and has the query in its name, both in lower case, once, by the bytes of the name, then by those of
the URI and then by the offset of the name. So it lists, for each of these names in order, what a lookup
of the name finds. Runs that leave the same trees of all files find the same, whatever was scanned
first. -/
theorem snapshot_searches (calls : List Call) (hcalls : ∀ c ∈ calls, ∀ u ∈ c.uri?, u.Proper)
    (a : Arrangement) (query : Text) :
    ∃ (s : Snapshot) (found : List Located) (names : List Text),
    (ran (calls ++ [.snapshot a])).built[((ran calls).snapshot a).2]? = some s
      ∧ (∀ limit, s.search query limit = found.take limit)
      ∧ (∀ m n, m ≤ n → s.search query m <+: s.search query n)
      ∧ (∀ uri, (found.filter (·.uri = uri)).Perm
          ((((lastTree? calls uri).elim [] fun t => t.root.symbols).filter
            fun e => Snapshot.fold query <:+: Snapshot.fold e.name).map (⟨uri, ·⟩)))
      ∧ found.Pairwise Located.Before
      ∧ names.Pairwise (· < ·) ∧ found = names.flatMap s.lookup
      ∧ (query = [] → s.size = (names.map fun name => (s.lookup name).length).sum
          ∧ ∀ limit, s.size ≤ limit → (s.search query limit).length = s.size)
      ∧ (∀ others b, (∀ c ∈ others, ∀ u ∈ c.uri?, u.Proper) →
          (∀ uri, (lastTree? others uri).map (·.root.symbols)
            = (lastTree? calls uri).map (·.root.symbols)) →
          ∀ t, (ran (others ++ [.snapshot b])).built[((ran others).snapshot b).2]? = some t →
            ∀ limit, t.search query limit = s.search query limit)
      ∧ ∀ lower, Snapshot.IsLowerCase lower → ∀ l ∈ s.all,
          (∃ source, l.symbol ∈ (parse source).root.symbols) →
            (l ∈ found ↔ lower query <:+: lower l.symbol.name) := by
  obtain ⟨-, -, a', hplace⟩ := snapshot_spec (ran_sound calls) a
  have hproper := proper_keys hcalls a'
  obtain ⟨hfind, -⟩ := snapshotIn_holds hcalls a'
  generalize hs : (ran calls).index.snapshotIn a' = s at hplace hproper hfind
  have hnil (hq : query = []) : (s.found query).length = s.size := by
    rw [hq, Snapshot.length_found_nil]
  refine ⟨s, s.found query, s.namesWith query, ?_, s.search_eq query, fun m n h => ?_, fun uri => ?_,
    ?_, s.namesWith_sorted query, s.found_eq query, fun hq => ⟨?_, fun limit h => ?_⟩, ?_, ?_⟩
  · rw [ran_concat]
    exact hplace
  · rw [s.search_eq, s.search_eq]
    exact List.take_prefix_take_left h
  · refine (s.found_of_file query uri).trans (.of_eq ?_)
    have hfile : s.symbolsIn uri = (lastTree? calls uri).elim [] fun t => t.root.symbols := by
      rw [Snapshot.symbolsIn, hfind]
      cases lastTree? calls uri <;> rfl
    rw [hfile]
    congr 1
    refine List.filter_congr fun e _ => ?_
    rw [Bool.eq_iff_iff, decide_eq_true_iff]
    exact Text.contains_iff _ _
  · exact s.found_sorted query hproper
  · rw [← hnil hq, s.found_eq, List.length_flatMap]
  · rw [s.search_eq, List.length_take, hnil hq, Nat.min_eq_right h]
  · intro others b hothers hsame t ht limit
    obtain ⟨-, -, b', hplace'⟩ := snapshot_spec (ran_sound others) b
    rw [ran_concat] at ht
    obtain rfl := Option.some.inj (hplace'.symm.trans ht)
    rw [Snapshot.search_eq, Snapshot.search_eq]
    have hperm : ((ran others).index.snapshotIn b').files.entries.Perm s.files.entries := by
      rw [← hs]
      exact (b'.perm _).trans ((entries_perm hsame).trans (a'.perm _).symm)
    have hkeys := proper_keys hothers b'
    rw [Snapshot.found_eq_of_perm hperm fun u hu v hv => Uri.eq_of_render (hkeys u hu) (hkeys v hv)]
  · rintro lower hlower l hl ⟨source, hsymbol⟩
    rw [Snapshot.found, (List.mergeSort_perm _ _).mem_iff, List.mem_filter,
      and_iff_right hl]
    exact Snapshot.answers_iff hlower (mem_nameTail_of_symbol source hsymbol) query

/-- the function in the file that is kept -/
def keptFunction : Symbol :=
  ⟨"f".toList, .function, ⟨5, 1⟩, ⟨0, 14⟩, [], true⟩

/-- Of two files, of which one was removed, a search finds what is in the other one. It finds the same
where the other one alone was scanned. -/
theorem snapshot_searches_one_of_two : (∀ c ∈ oneOfTwo, ∀ u ∈ c.uri?, u.Proper)
    ∧ ∃ s : Snapshot,
      (ran (oneOfTwo ++ [.snapshot .asScanned])).built[((ran oneOfTwo).snapshot .asScanned).2]? = some s
      ∧ s.search "F".toList 1 = [⟨keptHeader, keptFunction⟩]
      ∧ s.search "F".toList 0 = []
      ∧ ∀ t, (ran ([.scanText keptHeader "void f(int n);".toList] ++ [.snapshot .asScanned])).built[0]?
          = some t → t.search "F".toList 1 = s.search "F".toList 1 := by
  have hcalls : ∀ c ∈ oneOfTwo, ∀ u ∈ c.uri?, u.Proper := by
    intro c hc u hu
    simp only [oneOfTwo, List.mem_cons, List.not_mem_nil, or_false] at hc
    rcases hc with rfl | rfl | rfl <;> exact .inr ⟨_, (Option.some.inj hu).symm⟩
  have hlast (uri : Uri) : lastTree? oneOfTwo uri
      = lastTree? [.scanText keptHeader "void f(int n);".toList] uri := by
    simp only [lastTree?, oneOfTwo, List.reverse_cons, List.reverse_nil, List.nil_append,
      List.cons_append, List.findSome?_cons, List.findSome?_nil, Call.left?]
    by_cases hgone : goneHeader = uri
    · have hne : keptHeader ≠ uri := fun h => absurd (hgone.trans h.symm) (by decide)
      rw [if_pos hgone, if_neg hne]
      rfl
    · rw [if_neg hgone]
      by_cases hkept : keptHeader = uri
      · rw [if_pos hkept]
      · rw [if_neg hkept, if_neg hgone]
  obtain ⟨s, found, names, hs, hsearch, -, hfile, -, -, -, -, hsame, -⟩ :=
    snapshot_searches oneOfTwo hcalls .asScanned "F".toList
  have hkept : found.filter (·.uri = keptHeader) = [⟨keptHeader, keptFunction⟩] := by
    have hperm := hfile keptHeader
    rw [hlast, lastTree?, List.reverse_singleton, List.findSome?_singleton, Call.left?, if_pos rfl] at hperm
    exact List.perm_singleton.mp (hperm.trans (.of_eq (by decide +kernel)))
  have huri : ∀ l ∈ found, l.uri = keptHeader := by
    intro l hl
    by_contra hne
    have hperm := hfile l.uri
    rw [hlast, lastTree?, List.reverse_singleton, List.findSome?_singleton, Call.left?,
      if_neg (Ne.symm hne)] at hperm
    have hmem : l ∈ found.filter (·.uri = l.uri) := List.mem_filter.mpr ⟨hl, decide_eq_true rfl⟩
    exact absurd (hperm.subset hmem) List.not_mem_nil
  rw [List.filter_eq_self.mpr fun l hl => decide_eq_true (huri l hl)] at hkept
  refine ⟨hcalls, s, hs, ?_, ?_, fun t ht => ?_⟩
  · rw [hsearch, hkept]
    rfl
  · rw [hsearch, List.take_zero]
  · refine hsame _ .asScanned ?_ (fun uri => by rw [hlast]) t ht 1
    intro c hc u hu
    rw [List.mem_singleton.mp hc] at hu
    exact .inr ⟨_, (Option.some.inj hu).symm⟩

end Provider

end CppMend
