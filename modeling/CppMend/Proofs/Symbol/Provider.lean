import CppMend.Proofs.Symbol.Lookup
import CppMend.Proofs.Uri.Read
import CppMend.Symbol.Provider
import Mathlib.Data.List.Induction

/-!
# Snapshots are neither stale nor partial

A provider hands out the snapshot it keeps as long as the generation of its index stands still. As a
generation stands for one state of the index, that snapshot is right.

* `Provider.lastTree?`    the tree that the last call about a file left, if it was a scan;
* `Provider.find?_ran`    the index holds the symbols of just these trees;
* `Provider.Sound`        only the snapshot that is kept can be of the current generation;
* `Provider.ran_sound`    which every call preserves;
* `Provider.isCurrent_iff_mod`  so 64 bits of a generation are enough;
* `Provider.snapshot_serves`  what follows for each snapshot, then and later.
-/

namespace CppMend

namespace Provider

/-! ## what the calls say -/

namespace Call

def uri? : Call → Option Uri
  | .scan uri _ => some uri
  | .scanText uri _ => some uri
  | .remove uri => some uri
  | .snapshot _ => none

/-- The tree that a call leaves of a file, if any. A call that is not about the file says nothing. -/
def left? (uri : Uri) : Call → Option (Option Parsed)
  | .scan u t => if u = uri then some (some t) else none
  | .scanText u source => if u = uri then some (some (parse source)) else none
  | .remove u => if u = uri then some none else none
  | .snapshot _ => none

end Call

/-- the tree of the last call about a file, if that was a scan -/
def lastTree? (calls : List Call) (uri : Uri) : Option Parsed :=
  (calls.reverse.findSome? (Call.left? uri)).join

/-- a scan, or the removal of a file that is there after the calls before -/
def counts (before : List Call) : Call → Bool
  | .scan _ _ => true
  | .scanText _ _ => true
  | .remove uri => (lastTree? before uri).isSome
  | .snapshot _ => false

/-- a new provider after some calls -/
def ran (calls : List Call) : Provider := calls.foldl serve empty

theorem ran_append (calls later : List Call) : ran (calls ++ later) = later.foldl serve (ran calls) :=
  List.foldl_append

theorem ran_concat (calls : List Call) (c : Call) : ran (calls ++ [c]) = (ran calls).serve c :=
  ran_append calls [c]

theorem lastTree?_concat (calls : List Call) (c : Call) (uri : Uri) :
    lastTree? (calls ++ [c]) uri = (c.left? uri).getD (lastTree? calls uri) := by
  rw [lastTree?, List.reverse_append, List.reverse_singleton, List.singleton_append,
    List.findSome?_cons]
  cases c.left? uri <;> rfl

/-! ## the index -/

theorem index_snapshot (p : Provider) (a : Arrangement) : (p.snapshot a).1.index = p.index := by
  rw [snapshot]
  split <;> rfl

theorem find?_remove (i : Index) (u uri : Uri) :
    (i.remove u).files.find? uri = if u = uri then none else i.files.find? uri := by
  rw [Index.remove]
  by_cases h : u = uri
  · subst h
    rw [if_pos rfl]
    split
    · rw [Table.find?_erase, if_pos rfl]
    · next hc => exact Option.not_isSome_iff_eq_none.mp hc
  · rw [if_neg h]
    split
    · rw [Table.find?_erase, if_neg (Ne.symm h)]
    · rfl

theorem find?_scan (i : Index) (u uri : Uri) (t : Parsed) : (i.scan u t).files.find? uri
    = if u = uri then some t.root.symbols else i.files.find? uri := by
  rw [Index.scan, Table.find?_insert]
  simp only [eq_comm]

/-- One call changes what the index has of a file as the call says. -/
theorem find?_serve (p : Provider) (c : Call) (uri : Uri) : (p.serve c).index.files.find? uri
    = ((c.left? uri).map (Option.map fun t => t.root.symbols)).getD (p.index.files.find? uri) := by
  cases c with
  | scan u t =>
    show (p.index.scan u t).files.find? uri = _
    rw [find?_scan, Call.left?]
    split <;> rfl
  | scanText u source =>
    show (p.index.scan u (parse source)).files.find? uri = _
    rw [find?_scan, Call.left?]
    split <;> rfl
  | remove u =>
    show (p.index.remove u).files.find? uri = _
    rw [find?_remove, Call.left?]
    split <;> rfl
  | snapshot a =>
    show (p.snapshot a).1.index.files.find? uri = _
    rw [index_snapshot]
    rfl

theorem find?_ran (calls : List Call) (uri : Uri) :
    (ran calls).index.files.find? uri = (lastTree? calls uri).map fun t => t.root.symbols := by
  induction calls using List.reverseRecOn with
  | nil => rfl
  | append_singleton calls c ih =>
    rw [ran_concat, find?_serve, ih, lastTree?_concat]
    cases c.left? uri <;> rfl

/-- the files of the index are files of the calls -/
theorem mem_keys_ran {calls : List Call} {uri : Uri} (h : uri ∈ (ran calls).index.files.keys) :
    ∃ c ∈ calls, uri ∈ c.uri? := by
  rw [← Table.contains_eq_true_iff, Table.contains, find?_ran, Option.isSome_map] at h
  obtain ⟨t, ht⟩ := Option.isSome_iff_exists.mp h
  rw [lastTree?, Option.join_eq_some_iff] at ht
  obtain ⟨c, hc, hl⟩ := List.exists_of_findSome?_eq_some ht
  refine ⟨c, List.mem_reverse.mp hc, ?_⟩
  cases c with
  | scan u _ | scanText u _ | remove u =>
    rw [Call.left?] at hl
    split at hl
    · next h => exact congrArg some h
    · cases hl
  | snapshot a => cases hl

/-! ## generations -/

/-- A generation is added by the calls that count. -/
theorem generation_ran (calls : List Call) (c : Call) : (ran (calls ++ [c])).generation
    = (ran calls).generation + if counts calls c then 1 else 0 := by
  rw [ran_concat]
  cases c with
  | scan uri t => rfl
  | scanText uri source => rfl
  | remove uri =>
    have hc : (ran calls).index.files.contains uri = (lastTree? calls uri).isSome := by
      rw [Table.contains, find?_ran, Option.isSome_map]
    show ((ran calls).index.remove uri).generation = _
    rw [Index.remove, hc, counts]
    split <;> rfl
  | snapshot a =>
    show ((ran calls).snapshot a).1.index.generation = _
    rw [index_snapshot]
    rfl

/-- A call adds one generation at most. -/
theorem generation_le_length (calls : List Call) : (ran calls).generation ≤ calls.length := by
  induction calls using List.reverseRecOn with
  | nil => exact Nat.le_refl 0
  | append_singleton calls c ih =>
    rw [generation_ran, List.length_append, List.length_singleton]
    split <;> omega

theorem generation_le (calls later : List Call) :
    (ran calls).generation ≤ (ran (calls ++ later)).generation := by
  induction later using List.reverseRecOn with
  | nil => rw [List.append_nil]
  | append_singleton later c ih =>
    rw [← List.append_assoc, generation_ran]
    omega

/-- The generation stands still just as long as no call counts. -/
theorem generation_eq_iff (calls later : List Call) :
    (ran (calls ++ later)).generation = (ran calls).generation
      ↔ ∀ x c y, later = x ++ c :: y → counts (calls ++ x) c = false := by
  induction later generalizing calls with
  | nil =>
    refine ⟨fun _ x c y h => ?_, fun _ => by rw [List.append_nil]⟩
    simp at h
  | cons d later ih =>
    have hd := generation_ran calls d
    have hle := generation_le (calls ++ [d]) later
    have happend : calls ++ d :: later = (calls ++ [d]) ++ later := by simp
    rw [happend]
    constructor
    · intro h x c y hx
      have hnone : counts calls d = false := by
        cases hc : counts calls d with
        | false => rfl
        | true =>
          rw [hc, if_pos rfl] at hd
          omega
      cases x with
      | nil =>
        rw [List.nil_append, List.cons.injEq] at hx
        rw [List.append_nil, ← hx.1]
        exact hnone
      | cons e x =>
        rw [List.cons_append, List.cons.injEq] at hx
        obtain ⟨rfl, hx⟩ := hx
        rw [hnone] at hd
        have hstill := (ih (calls ++ [d])).mp (h.trans hd.symm) x c y hx
        rwa [List.append_assoc, List.singleton_append] at hstill
    · intro h
      have hnone : counts calls d = false := by
        have := h [] d later rfl
        rwa [List.append_nil] at this
      rw [hnone] at hd
      refine ((ih (calls ++ [d])).mpr fun x c y hx => ?_).trans hd
      have := h (d :: x) c y (by rw [hx]; rfl)
      rwa [List.append_assoc, List.singleton_append]

/-! ## what is built -/

/-- No snapshot is of a later generation than the index, and only the one that is kept is of the same
one. That one has the files of the index. -/
structure Sound (p : Provider) : Prop where
  past : ∀ s ∈ p.built, s.generation ≤ p.generation
  present : ∀ n s, p.built[n]? = some s → s.generation = p.generation →
    p.kept? = some n ∧ ∃ a, s = p.index.snapshotIn a

theorem sound_empty : empty.Sound := ⟨nofun, nofun⟩

/-- Where the index counts on, nothing that was built is of its generation any more. -/
theorem Sound.counted {p q : Provider} (hp : p.Sound) (hb : q.built = p.built)
    (hg : p.generation < q.generation) : q.Sound := by
  have hpast : ∀ s ∈ q.built, s.generation < q.generation := by
    intro s hs
    rw [hb] at hs
    exact Nat.lt_of_le_of_lt (hp.past s hs) hg
  refine ⟨fun s hs => Nat.le_of_lt (hpast s hs), fun n s hs heq => ?_⟩
  have := hpast s (List.mem_of_getElem? hs)
  omega

/-- what a call for a snapshot gives, and what it leaves -/
theorem snapshot_spec {p : Provider} (hp : p.Sound) (a : Arrangement) :
    (p.snapshot a).1.Sound ∧ p.built <+: (p.snapshot a).1.built
      ∧ ∃ b, (p.snapshot a).1.built[(p.snapshot a).2]? = some (p.index.snapshotIn b) := by
  rw [snapshot]
  split
  · next n hn =>
    obtain ⟨-, hfresh⟩ := Option.filter_eq_some_iff.mp hn
    rw [isFresh, Option.any_eq_true] at hfresh
    obtain ⟨s, hs, hcurrent⟩ := hfresh
    obtain ⟨-, b, rfl⟩ := hp.present n s hs (of_decide_eq_true hcurrent)
    exact ⟨hp, List.prefix_rfl, b, hs⟩
  · next hnone =>
    have hlast : (p.built ++ [p.index.snapshotIn a])[p.built.length]? = some (p.index.snapshotIn a) :=
      List.getElem?_concat_length
    refine ⟨⟨?_, ?_⟩, List.prefix_append _ _, a, hlast⟩
    · intro s hs
      rcases List.mem_append.mp hs with hs | hs
      · exact hp.past s hs
      · rw [List.mem_singleton.mp hs]
        exact Nat.le_refl _
    · intro n s hs hg
      rcases Nat.lt_trichotomy n p.built.length with hlt | rfl | hgt
      · -- one that was built before is kept and fresh, so it would have been handed out
        have hs : p.built[n]? = some s := by rwa [List.getElem?_append_left hlt] at hs
        have hkept := (hp.present n s hs hg).1
        have hfresh : p.isFresh n = true := by
          rw [isFresh, hs]
          exact decide_eq_true hg
        rw [hkept, Option.filter_some, if_pos hfresh] at hnone
        cases hnone
      · rw [hlast, Option.some.injEq] at hs
        exact ⟨rfl, a, hs.symm⟩
      · rw [List.getElem?_eq_none (by rw [List.length_append]; exact hgt)] at hs
        cases hs

theorem serve_sound {p : Provider} (hp : p.Sound) (c : Call) : (p.serve c).Sound := by
  cases c with
  | scan uri t => exact hp.counted rfl (Nat.lt_succ_self _)
  | scanText uri source => exact hp.counted rfl (Nat.lt_succ_self _)
  | remove uri =>
    cases hc : p.index.files.contains uri with
    | true =>
      refine hp.counted rfl ?_
      show p.index.generation < (p.index.remove uri).generation
      rw [Index.remove, if_pos hc]
      exact Nat.lt_succ_self _
    | false =>
      have hsame : p.remove uri = p := by
        rw [remove, Index.remove, if_neg (by rw [hc]; exact Bool.false_ne_true)]
      show (p.remove uri).Sound
      rwa [hsame]
  | snapshot a => exact (snapshot_spec hp a).1

theorem ran_sound (calls : List Call) : (ran calls).Sound := by
  induction calls using List.reverseRecOn with
  | nil => exact sound_empty
  | append_singleton calls c ih =>
    rw [ran_concat]
    exact serve_sound ih c

/-- For fewer calls than there are generations in 64 bits, their 64 bits alone tell whether a snapshot
is current. -/
theorem isCurrent_iff_mod {calls : List Call} (hfew : calls.length < generationCount) {s : Snapshot}
    (hs : s ∈ (ran calls).built) : (ran calls).index.isCurrent s = true
      ↔ s.generation % generationCount = (ran calls).generation % generationCount := by
  have hle := generation_le_length calls
  have hpast := (ran_sound calls).past s hs
  rw [Index.isCurrent, decide_eq_true_iff, Nat.mod_eq_of_lt (by omega), Nat.mod_eq_of_lt (by omega)]
  rfl

theorem built_serve {p : Provider} (hp : p.Sound) (c : Call) : p.built <+: (p.serve c).built := by
  cases c with
  | scan _ _ | scanText _ _ | remove _ => exact List.prefix_rfl
  | snapshot a => exact (snapshot_spec hp a).2.1

/-- What was built once stays in its place. -/
theorem built_ran (calls later : List Call) : (ran calls).built <+: (ran (calls ++ later)).built := by
  induction later using List.reverseRecOn with
  | nil => simp only [List.append_nil, List.prefix_rfl]
  | append_singleton later c ih =>
    rw [← List.append_assoc, ran_concat]
    exact ih.trans (built_serve (ran_sound _) c)

theorem getElem?_of_prefix {α : Type} {xs ys : List α} {n : Nat} {x : α} (h : xs <+: ys)
    (hx : xs[n]? = some x) : ys[n]? = some x := by
  obtain ⟨hn, rfl⟩ := List.getElem?_eq_some_iff.mp hx
  exact List.prefix_iff_getElem?.mp h n hn

/-! ## snapshots -/

/-- A snapshot of the current generation is handed out again. -/
theorem snapshot_again {p : Provider} (hp : p.Sound) {n : Nat} {s : Snapshot} (a : Arrangement)
    (hs : p.built[n]? = some s) (hg : s.generation = p.generation) : p.snapshot a = (p, n) := by
  have hfresh : p.isFresh n = true := by
    rw [isFresh, hs]
    exact decide_eq_true hg
  rw [snapshot, (hp.present n s hs hg).1, Option.filter_some, if_pos hfresh]

/-- Two calls give the same snapshot just if no call between them counts. -/
theorem snapshot_same_iff (calls between : List Call) (a b : Arrangement) :
    ((ran (calls ++ .snapshot a :: between)).snapshot b).2 = ((ran calls).snapshot a).2
      ↔ ∀ x c y, between = x ++ c :: y → counts (calls ++ .snapshot a :: x) c = false := by
  have hsplit : ∀ cs, (calls ++ [.snapshot a]) ++ cs = calls ++ .snapshot a :: cs := fun cs => by
    rw [List.append_assoc, List.singleton_append]
  have hgeneration : (ran (calls ++ [.snapshot a])).generation = (ran calls).generation :=
    generation_ran calls (.snapshot a)
  have hbuilt := built_ran (calls ++ [.snapshot a]) between
  have hstill := generation_eq_iff (calls ++ [.snapshot a]) between
  simp only [hsplit] at hbuilt hstill
  rw [← hstill]
  obtain ⟨-, -, a', hplace⟩ := snapshot_spec (ran_sound calls) a
  have hfirst : (ran (calls ++ [.snapshot a])).built[((ran calls).snapshot a).2]?
      = some ((ran calls).index.snapshotIn a') := by
    rw [ran_concat]
    exact hplace
  have hlater := getElem?_of_prefix hbuilt hfirst
  have hsound := ran_sound (calls ++ .snapshot a :: between)
  constructor
  · intro heq
    -- one snapshot has one generation
    obtain ⟨-, hkept, b', hsecond⟩ := snapshot_spec hsound b
    rw [heq, getElem?_of_prefix hkept hlater, Option.some.injEq] at hsecond
    exact (congrArg Snapshot.generation hsecond).symm.trans hgeneration.symm
  · intro heq
    have hcurrent : ((ran calls).index.snapshotIn a').generation
        = (ran (calls ++ .snapshot a :: between)).generation := (heq.trans hgeneration).symm
    rw [snapshot_again hsound b hlater hcurrent]

/-- The files of an index are the same in any order. -/
theorem find?_table (a : Arrangement) (t : Table Uri (List Symbol)) (uri : Uri) :
    (a.table t).find? uri = t.find? uri := by
  refine Option.ext fun symbols => ?_
  rw [Table.find?_eq_some_iff, Table.find?_eq_some_iff]
  exact (a.perm t.entries).mem_iff

theorem proper_keys {calls : List Call} (hcalls : ∀ c ∈ calls, ∀ u ∈ c.uri?, u.Proper) (a : Arrangement) :
    ∀ u ∈ ((ran calls).index.snapshotIn a).files.keys, u.Proper := by
  intro u hu
  have hu : u ∈ (ran calls).index.files.keys := ((a.perm _).map Prod.fst).mem_iff.mp hu
  obtain ⟨c, hc, hcu⟩ := mem_keys_ran hu
  exact hcalls c hc u hcu

/-- What a snapshot of the index after some calls holds. -/
theorem snapshotIn_holds {calls : List Call} (hcalls : ∀ c ∈ calls, ∀ u ∈ c.uri?, u.Proper)
    (a : Arrangement) : let s := (ran calls).index.snapshotIn a
    (∀ uri, s.files.find? uri = (lastTree? calls uri).map fun t => t.root.symbols)
      ∧ ∀ name,
        (s.lookup name).Pairwise (fun l m => l.uri.render < m.uri.render
          ∨ l.uri = m.uri ∧ l.symbol.nameSpan.start ≤ m.symbol.nameSpan.start)
        ∧ (∀ uri, ((s.lookup name).filter (·.uri = uri)).Perm
            ((((lastTree? calls uri).elim [] fun t => t.root.symbols).filter (·.name = name)).map
              (⟨uri, ·⟩)))
        ∧ ∀ b, s.lookup name = ((ran calls).index.snapshotIn b).lookup name := by
  intro s
  have hfind : ∀ uri, s.files.find? uri = (lastTree? calls uri).map fun t => t.root.symbols := by
    intro uri
    rw [← find?_ran]
    exact find?_table a _ uri
  have hproper := proper_keys hcalls a
  refine ⟨hfind, fun name => ⟨?_, fun uri => ?_, fun b => ?_⟩⟩
  · refine (s.lookup_sorted name).imp_of_mem fun {l m} hl hm h => h.imp_right fun ⟨hr, hs⟩ => ⟨?_, hs⟩
    exact Uri.eq_of_render (hproper _ (Snapshot.mem_keys_of_mem_lookup hl))
      (hproper _ (Snapshot.mem_keys_of_mem_lookup hm)) hr
  · have h := s.lookup_of_file name uri
    rw [Snapshot.symbolsIn, hfind] at h
    cases hl : lastTree? calls uri with
    | none => rwa [hl] at h
    | some t => rwa [hl] at h
  · refine Snapshot.lookup_eq_of_perm ((a.perm _).trans (b.perm _).symm) ?_ name
    exact fun u hu v hv => Uri.eq_of_render (hproper u hu) (hproper v hv)

/-- A provider serves no stale and no partial snapshot. After any calls, a snapshot that it gives holds
just the files whose last call was a scan, each with the symbols of its last tree. It finds for a name
the entries of these files that have it, each once, by the text of the URI and then by the offset of
the name, in whatever order the files are listed. Nothing later changes what is found at its place,
and a later call gives the same place just if no scan and no removal of a file that was there came
between. The generation is one more after each of these, and after nothing else. -/
theorem snapshot_serves (calls : List Call) (hcalls : ∀ c ∈ calls, ∀ u ∈ c.uri?, u.Proper)
    (a : Arrangement) :
    (∃ s, (∀ later, (ran (calls ++ .snapshot a :: later)).built[((ran calls).snapshot a).2]? = some s)
      ∧ s.generation = (ran calls).generation
      ∧ (∀ uri, s.files.find? uri = (lastTree? calls uri).map fun t => t.root.symbols)
      ∧ ∀ name,
        (s.lookup name).Pairwise (fun l m => l.uri.render < m.uri.render
          ∨ l.uri = m.uri ∧ l.symbol.nameSpan.start ≤ m.symbol.nameSpan.start)
        ∧ (∀ uri, ((s.lookup name).filter (·.uri = uri)).Perm
            ((((lastTree? calls uri).elim [] fun t => t.root.symbols).filter (·.name = name)).map
              (⟨uri, ·⟩)))
        ∧ ∀ b, s.lookup name = ((ran calls).index.snapshotIn b).lookup name)
    ∧ (∀ between b,
        ((ran (calls ++ .snapshot a :: between)).snapshot b).2 = ((ran calls).snapshot a).2
          ↔ ∀ x c y, between = x ++ c :: y → counts (calls ++ .snapshot a :: x) c = false)
    ∧ ∀ c, (ran (calls ++ [c])).generation
        = (ran calls).generation + if counts calls c then 1 else 0 := by
  refine ⟨?_, fun between b => snapshot_same_iff calls between a b, generation_ran calls⟩
  obtain ⟨-, -, a', hplace⟩ := snapshot_spec (ran_sound calls) a
  refine ⟨(ran calls).index.snapshotIn a', fun later => ?_, rfl, snapshotIn_holds hcalls a'⟩
  have hbuilt := built_ran (calls ++ [.snapshot a]) later
  rw [List.append_assoc, List.singleton_append, ran_concat] at hbuilt
  exact getElem?_of_prefix hbuilt hplace

def keptHeader : Uri := Uri.ofFile [.ofString "kept.h"]

def goneHeader : Uri := Uri.ofFile [.ofString "gone.h"]

/-- two files are scanned, and one is removed -/
def oneOfTwo : List Call :=
  [.scanText goneHeader "int n;".toList, .scanText keptHeader "void f(int n);".toList, .remove goneHeader]

/-- The other one is served. To remove the file once more is not seen, and to scan it is. -/
theorem snapshot_serves_one_of_two : (∀ c ∈ oneOfTwo, ∀ u ∈ c.uri?, u.Proper)
    ∧ (∃ s, (ran (oneOfTwo ++ [.snapshot .asScanned])).built[((ran oneOfTwo).snapshot .asScanned).2]?
          = some s
        ∧ s.files.find? keptHeader = some (parse "void f(int n);".toList).root.symbols
        ∧ s.files.find? goneHeader = none)
    ∧ ((ran (oneOfTwo ++ [.snapshot .asScanned, .remove goneHeader])).snapshot .asScanned).2
        = ((ran oneOfTwo).snapshot .asScanned).2
    ∧ ((ran (oneOfTwo ++ [.snapshot .asScanned, .scanText goneHeader []])).snapshot .asScanned).2
        ≠ ((ran oneOfTwo).snapshot .asScanned).2 := by
  have hcalls : ∀ c ∈ oneOfTwo, ∀ u ∈ c.uri?, u.Proper := by
    intro c hc u hu
    simp only [oneOfTwo, List.mem_cons, List.not_mem_nil, or_false] at hc
    rcases hc with rfl | rfl | rfl <;> exact .inr ⟨_, (Option.some.inj hu).symm⟩
  have hne : goneHeader ≠ keptHeader := by decide
  have hkept : lastTree? oneOfTwo keptHeader = some (parse "void f(int n);".toList) := by
    simp only [lastTree?, oneOfTwo, List.reverse_cons, List.reverse_nil, List.nil_append,
      List.cons_append, List.findSome?_cons, Call.left?, if_neg hne, if_true, Option.join_some]
  have hgone : lastTree? oneOfTwo goneHeader = none := by
    simp only [lastTree?, oneOfTwo, List.reverse_cons, List.reverse_nil, List.nil_append,
      List.cons_append, List.findSome?_cons, Call.left?, if_true, Option.join_some]
  obtain ⟨⟨s, hs, -, hfind, -⟩, hsame, -⟩ := snapshot_serves oneOfTwo hcalls .asScanned
  refine ⟨hcalls, ⟨s, hs [], (hfind keptHeader).trans ?_, (hfind goneHeader).trans ?_⟩, ?_, ?_⟩
  · rw [hkept]
    rfl
  · rw [hgone]
    rfl
  · refine (hsame [.remove goneHeader] .asScanned).mpr fun x c y h => ?_
    obtain ⟨rfl, rfl, rfl⟩ : x = [] ∧ c = .remove goneHeader ∧ y = [] := by
      cases x with
      | nil => simpa [eq_comm] using h
      | cons d x => simp at h
    rw [counts, lastTree?_concat, hgone]
    rfl
  · intro h
    have := (hsame [.scanText goneHeader []] .asScanned).mp h [] _ [] rfl
    cases this

end Provider

end CppMend
