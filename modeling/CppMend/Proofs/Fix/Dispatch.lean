import CppMend.Proofs.Session.Proposals
import CppMend.Proofs.Tree.Paths
import Mathlib.Data.List.Induction

/-!
# Dispatch

Sources register one after the other, and one whose id is taken is refused. A request then asks all
that were accepted in the order in which they came, for one and the same context. One that fails or
breaks down is passed over, and nobody is asked if the request is not wanted, if there is no parse
of the current version, or if the cursor is not within the text.

* `FixSource.firsts`           the sources that are accepted;
* `Registry.registerAll_sources`   they make up the registry;
* `FixSource.offers`           what a source adds to a proposal;
* `Registry.collect_fixes`     what a registry collects in a context;
* `Assistant.propose_fixes_of_served`   the fixes for a request that is served;
* `Assistant.proposal_dispatch`         all of this, for any sources.
-/

namespace CppMend

/-! ## registering -/

namespace FixSource

/-- the sources whose id no source before them has -/
def firsts : List FixSource → List FixSource
  | [] => []
  | s :: rest => s :: (firsts rest).filter (·.id ≠ s.id)

theorem firsts_concat_of_not_mem {sources : List FixSource} {s : FixSource}
    (h : s.id ∉ sources.map (·.id)) : firsts (sources ++ [s]) = firsts sources ++ [s] := by
  induction sources with
  | nil => rfl
  | cons t sources ih =>
    rw [List.map_cons, List.mem_cons, not_or] at h
    obtain ⟨hid, hmem⟩ := h
    rw [List.cons_append, firsts, firsts, ih hmem, List.filter_append]
    simp [hid]

theorem firsts_concat_of_mem {sources : List FixSource} {s : FixSource}
    (h : s.id ∈ sources.map (·.id)) : firsts (sources ++ [s]) = firsts sources := by
  induction sources with
  | nil => cases h
  | cons t sources ih =>
    rw [List.cons_append, firsts, firsts]
    by_cases hmem : s.id ∈ sources.map (·.id)
    · rw [ih hmem]
    · -- then it is the first source that has the id, and `s` is filtered out
      have hid : s.id = t.id := (List.mem_cons.mp h).resolve_right hmem
      rw [firsts_concat_of_not_mem hmem, List.filter_append]
      simp [hid]

theorem mem_ids_firsts (sources : List FixSource) (id : Text) :
    id ∈ (firsts sources).map (·.id) ↔ id ∈ sources.map (·.id) := by
  induction sources using List.reverseRecOn with
  | nil => rfl
  | append_singleton sources s ih =>
    by_cases hmem : s.id ∈ sources.map (·.id)
    · rw [firsts_concat_of_mem hmem, ih, List.map_append, List.mem_append]
      refine ⟨Or.inl, fun h => h.elim (fun h => h) fun h => ?_⟩
      rw [List.mem_singleton.mp h]
      exact hmem
    · rw [firsts_concat_of_not_mem hmem, List.map_append, List.map_append, List.mem_append,
        List.mem_append, ih]

/-- the fixes of a source that neither fails nor breaks down -/
def offers (s : FixSource) (c : FixContext) : List Fix :=
  match s.evaluate c with
  | .ok fixes => fixes
  | .error _ | .brokenDown _ => []

end FixSource

namespace Registry

/-- A source whose id is taken is refused. -/
theorem register_of_mem {r : Registry} {s : FixSource} (h : s.id ∈ r.ids) :
    r.register s = .error ⟨s.id⟩ := dif_pos h

/-- Any other source becomes the last one. -/
theorem register_of_not_mem {r : Registry} {s : FixSource} (h : s.id ∉ r.ids) :
    ∃ r', r.register s = .ok r' ∧ r'.sources = r.sources ++ [s] := ⟨_, dif_neg h, rfl⟩

theorem registerAll_concat (sources : List FixSource) (s : FixSource) :
    (registerAll (sources ++ [s])).1 = ((registerAll sources).1.register s).toOption.getD
      (registerAll sources).1 := by
  rw [registerAll, registerAll, List.foldl_concat]
  generalize sources.foldl _ (empty, []) = x
  obtain ⟨r, refused⟩ := x
  dsimp only
  cases r.register s <;> rfl

/-- The sources of a registry are the first ones of their ids. -/
theorem registerAll_sources (sources : List FixSource) :
    (registerAll sources).1.sources = FixSource.firsts sources := by
  induction sources using List.reverseRecOn with
  | nil => rfl
  | append_singleton sources s ih =>
    have hids : s.id ∈ (registerAll sources).1.ids ↔ s.id ∈ sources.map (·.id) := by
      rw [ids, ih, FixSource.mem_ids_firsts]
    rw [registerAll_concat]
    by_cases hmem : s.id ∈ sources.map (·.id)
    · rw [register_of_mem (hids.mpr hmem), FixSource.firsts_concat_of_mem hmem]
      exact ih
    · obtain ⟨r', hr, hsources⟩ := register_of_not_mem (mt hids.mp hmem)
      rw [hr, FixSource.firsts_concat_of_not_mem hmem, ← ih]
      exact hsources

/-! ## collecting -/

/-- Every enabled source adds what it offers, whatever the others do. -/
theorem collect_fixes (r : Registry) (c : FixContext) (enabled : Text → Bool) :
    (r.collect c enabled).1 = if c.path.isEmpty then []
      else (r.sources.filter fun s => enabled s.id).flatMap (·.offers c) := by
  unfold collect
  split
  · rfl
  · dsimp only
    rw [List.flatMap_map]
    congr 1
    funext s
    unfold ask FixSource.offers
    cases s.evaluate c <;> rfl

end Registry

/-- The path to an offset is empty just where there is no significant token on one of its sides. -/
theorem Path.isEmpty_around_iff (t : Parsed) (offset : Nat) :
    (Path.around t offset).isEmpty = true ↔ ¬t.Reaches offset := by
  rw [Path.isEmpty, List.isEmpty_iff]
  constructor
  · intro hnil h
    rw [Path.nodes_around h, Node.tree, Node.chain] at hnil
    cases hnil
  · exact Path.nodes_around_eq_nil

/-! ## requests -/

namespace Editor

/-- an editor with the parse of a text for some version, or without any -/
def reading (uri : Uri) (version : Int) (cursor : Nat) (selection : Option Span)
    (text : Option (Int × Text)) : Editor :=
  ⟨uri, version, cursor, selection, text.map fun (version, source) => ⟨version, parse source⟩⟩

/-- The request is wanted, the text is parsed for the current version, and the cursor lies between
its first and its last significant token. -/
structure Served (e : Editor) (reason : Reason) (options : FixOptions) (source : Text) : Prop where
  wanted : reason = .explicit ∨ options.automatic = true
  current : e.parsed = some ⟨e.version, parse source⟩
  within : (parse source).Reaches e.cursor

/-- the one context that all sources see -/
def contextOf (e : Editor) (symbols : Snapshot) (reason : Reason) (source : Text) : FixContext :=
  ⟨e.uri, e.version, parse source, symbols, e.cursor, e.selection, reason⟩

theorem context?_eq {e : Editor} {source : Text} (h : e.parsed = some ⟨e.version, parse source⟩)
    (symbols : Snapshot) (reason : Reason) :
    e.context? symbols reason = some (e.contextOf symbols reason source) := by
  simp [context?, current?, h, contextOf]

end Editor

namespace Assistant

variable {a : Assistant} {e : Editor} {reason : Reason} {options : FixOptions}

/-- The fixes for a request are those that its enabled sources offer. -/
theorem propose_fixes_of_served {source : Text} (h : e.Served reason options source) :
    (a.propose e reason options).fixes
      = (a.registry.sources.filter fun s => s.id ∉ options.disabled).flatMap
        (·.offers (e.contextOf a.symbols reason source)) := by
  have hwanted : ¬(reason = .automatic ∧ (!options.automatic) = true) := by
    rcases h.wanted with hr | ho
    · simp [hr]
    · simp [ho]
  have hpath : (e.contextOf a.symbols reason source).path.isEmpty ≠ true := fun hempty =>
    (Path.isEmpty_around_iff _ _).mp hempty h.within
  rw [propose, if_neg hwanted, Editor.context?_eq h.current]
  dsimp only
  rw [Registry.collect_fixes, if_neg hpath]
  congr 2
  funext s
  simp

/-- Any other request has no fixes, if what is parsed is a text. -/
theorem propose_fixes_of_not_served (h : ∀ source, ¬e.Served reason options source)
    (hparsed : ∀ v, e.parsed = some v → ∃ source, v.parsed = parse source) :
    (a.propose e reason options).fixes = [] := by
  unfold propose
  split
  · rfl
  · next hrefused =>
    split
    · rfl
    · next c hc =>
      have hwanted : reason = .explicit ∨ options.automatic = true := by
        cases reason <;> simp_all
      obtain ⟨-, -, hcurrent⟩ := Editor.context?_some hc
      obtain ⟨source, hsource⟩ := hparsed _ hcurrent
      have hcurrent : e.parsed = some ⟨e.version, parse source⟩ := by rw [hcurrent, ← hsource]
      -- a context that has no fixes is one whose cursor is not within the text
      have hwithin : ¬(parse source).Reaches e.cursor := fun hr => h source ⟨hwanted, hcurrent, hr⟩
      rw [Editor.context?_eq hcurrent, Option.some.injEq] at hc
      have hpath : c.path.isEmpty = true := by
        rw [← hc]
        exact (Path.isEmpty_around_iff _ _).mpr hwithin
      dsimp only
      rw [Registry.collect_fixes, if_pos hpath]

end Assistant

/-- What becomes of sources that register one after the other and of a request after that. The
registry holds the first source of each id, in order; one more source is refused, and the registry
stays as it is, just if its id is taken. A proposal is for the document and version of its editor.
If the request is served, its fixes are what the accepted sources offer that are not disabled, one
after the other in the one context of the editor, and a source that fails or breaks down adds
nothing. If not, there are no fixes, whatever the sources do. -/
theorem Assistant.proposal_dispatch (sources : List FixSource) (symbols : Snapshot) (uri : Uri)
    (version : Int) (cursor : Nat) (selection : Option Span) (text : Option (Int × Text))
    (reason : Reason) (options : FixOptions) :
    let r := (Registry.registerAll sources).1
    let e := Editor.reading uri version cursor selection text
    let p := (⟨r, symbols⟩ : Assistant).propose e reason options
    r.sources = FixSource.firsts sources ∧ r.ids.Nodup
      ∧ (∀ s, s.id ∈ sources.map (·.id) →
        r.register s = .error ⟨s.id⟩ ∧ (Registry.registerAll (sources ++ [s])).1 = r)
      ∧ (∀ s, s.id ∉ sources.map (·.id) → ∃ r', r.register s = .ok r'
        ∧ r'.sources = r.sources ++ [s] ∧ (Registry.registerAll (sources ++ [s])).1 = r')
      ∧ ((⟨⟨r, symbols⟩, .idle⟩ : Processor).perform e reason options).1 = some p
      ∧ p.uri = uri ∧ p.version = version
      ∧ (∀ source, e.Served reason options source →
        p.fixes = ((FixSource.firsts sources).filter fun s => s.id ∉ options.disabled).flatMap
          (·.offers (e.contextOf symbols reason source)))
      ∧ ((∀ source, ¬e.Served reason options source) → p.fixes = []) := by
  intro r e p
  have hsources : r.sources = FixSource.firsts sources := Registry.registerAll_sources sources
  have hids : ∀ s : FixSource, s.id ∈ r.ids ↔ s.id ∈ sources.map (·.id) := by
    intro s
    rw [Registry.ids, hsources, FixSource.mem_ids_firsts]
  refine ⟨hsources, r.distinct, ?_, ?_, rfl, propose_uri .., propose_version .., ?_, ?_⟩
  · intro s hs
    have hrefused := Registry.register_of_mem ((hids s).mpr hs)
    refine ⟨hrefused, ?_⟩
    rw [Registry.registerAll_concat, hrefused]
    rfl
  · intro s hs
    obtain ⟨r', hr, hs'⟩ := Registry.register_of_not_mem (mt (hids s).mp hs)
    refine ⟨r', hr, hs', ?_⟩
    rw [Registry.registerAll_concat, hr]
    rfl
  · intro source h
    rw [← hsources]
    exact propose_fixes_of_served h
  · intro h
    refine propose_fixes_of_not_served h fun v hv => ?_
    obtain ⟨⟨_, source⟩, -, rfl⟩ := Option.map_eq_some_iff.mp hv
    exact ⟨source, rfl⟩

end CppMend
