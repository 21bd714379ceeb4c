import CppMend.Proofs.Grammar.Declared
import CppMend.Proofs.Grammar.Gives
import CppMend.Proofs.Parsed.Precedence

/-!
# Declarations in trees

Where a declaration is seen ahead, the rule of types takes just the tokens that were stepped over, and
what is declared comes next. So in the tree of any text a declaration starts with a type that has a
token at least, and with the first token of a declarator right after it.

* `Node.Declares`         what a declaration starts with;
* `declarations_agree`    lookahead agrees with what is taken, and declarations start so.
-/

namespace CppMend

open Rule Lookahead

/-- A node that starts with a type of one token at least, and then the first token of a declarator. -/
structure Node.Declares (n type : Node) (name : Leaf) (rest : List Tree) : Prop where
  parts : n.parts = type.tree :: .leaf name :: rest
  kind : type.kind = .typeRef
  nonempty : type.significantKinds ≠ []
  declarator : name.kind ∈ [.ident, .kwOperator, .tilde]

/-! ## ahead and taken -/

section
variable {budget : Nat} {s : List Cue}

theorem lasts_of_plain {r : Rule} (hr : r.Steady budget (reach grammar budget))
    (ha : r.asks (fun _ => false) = true) (h : s.length < budget) :
    r.Lasts budget (reach grammar budget) (Lasting budget) s :=
  lasts_of_steady (reach_sound budget) hr ha (fun _ _ hf => absurd hf Bool.false_ne_true) h
    (Nat.le_refl _)

theorem typeRef_gives (hb : s.length < budget) (h : startsDeclaration s = true) :
    ∃ taken t, StartsWithType budget (reach grammar budget) s taken t :=
  typeRef_of_startsDeclaration (reach_sound budget)
    (lasts_of_plain (typeRef_steady (reach_sound budget)) rfl hb) h

theorem gives_of_stays {r : Rule} (h : r.stays = true) (s : List Cue) : Gives budget r s
    (r.perform budget (reach grammar budget) s).built
    (r.perform budget (reach grammar budget) s).ahead := by
  rw [Gives, ← leaving_of_stays h s]

/-- What a declaration builds, where a type was seen ahead. -/
theorem declaration_gives {taken t : List Cue} (hb : s.length < budget)
    (h : StartsWithType budget (reach grammar budget) s taken t) (place : Rule.Place) :
    ∃ kind rest u, Gives budget (declaration place) s
      [.node kind (.node .typeRef (taken.map fun _ => .token) :: .token :: rest)] u := by
  have ht : t.length < budget := by
    have := h.split ▸ hb
    rw [List.length_append] at this
    omega
  have hc := reach_sound budget
  obtain ⟨rest, hname⟩ := declaratorName_starts
    (lasts_of_plain (declaratorName_steady hc) rfl ht) (nextIs_of_startsDeclarator h.declarator)
  have hgives := Gives.seq h.took (gives_of_stays (r := declaratorName) rfl t)
  rw [hname] at hgives
  exact ⟨_, _, _, hgives.headed (gives_of_stays rfl _)⟩

end

/-! ## the shapes of declarations -/

theorem shapes_of_startsDeclared {parts : List Outline} {ks : List TokenKind}
    (h : StartsDeclared parts ks) : ∃ type k rest, (Outline.shapesAll parts ks).1
      = .node .typeRef type :: .leaf k :: rest ∧ Tree.Shape.leavesOf type ≠ []
      ∧ k ∈ [.ident, .kwOperator, .tilde] := by
  obtain ⟨n, rest, k, hn, rfl, hk, hd⟩ := h
  have hnext : (ks.drop n).take 1 = [k] := by
    rw [List.take_one, List.head?_drop, hk]
    rfl
  refine ⟨(Outline.shapesAll (List.replicate n .token) ks).1, k,
    (Outline.shapesAll rest ((ks.drop n).drop 1)).1, ?_, ?_, by simpa [isDeclaratorStart] using hd⟩
  · rw [Outline.shapesAll, Outline.shapesAll, Outline.shapes_rest, Outline.size_node, Outline.sizes_replicate,
      Outline.shapes, Outline.shapes, hnext]
    rfl
  · rw [Outline.leavesOf_shapesAll, Outline.sizes_replicate]
    have := List.getElem?_eq_some_iff.mp hk
    rw [Ne, List.take_eq_nil_iff]
    rintro (rfl | rfl)
    · exact absurd hn (Nat.lt_irrefl 0)
    · cases hk

theorem exists_part_of_shape {kind : NodeKind} {ss : List Tree.Shape} {os : List Outline}
    {ks : List TokenKind} (h : .node kind ss ∈ (Outline.shapesAll os ks).1) :
    ∃ ps, .node kind ps ∈ os := by
  induction os generalizing ks with
  | nil => cases h
  | cons o os ih =>
    rw [Outline.shapesAll, List.mem_append] at h
    rcases h with h | h
    · cases o with
      | token =>
        obtain ⟨k, -, hk⟩ := List.mem_map.mp h
        cases hk
      | blank => cases h
      | node k ps =>
        obtain ⟨rfl, -⟩ : kind = k ∧ _ := by simpa [Outline.shapes] using h
        exact ⟨ps, List.mem_cons_self⟩
    · obtain ⟨ps, hp⟩ := ih h
      exact ⟨ps, List.mem_cons_of_mem o hp⟩

/-! ## trees of texts -/

/-- declarations, and functions with a type among their parts -/
def Node.IsTyped (n : Node) : Prop :=
  n.kind ∈ [.variableDef, .fieldDef, .declStmt]
    ∨ n.kind = .functionDef ∧ (n.node? .typeRef).isSome = true

variable {source : Text} {n : Node}

theorem exists_typeRef_shape (h : (n.node? .typeRef).isSome = true) :
    ∃ ss, .node .typeRef ss ∈ Tree.shapesOf n.children := by
  obtain ⟨m, hm⟩ := Option.isSome_iff_exists.mp h
  have hkind : m.kind = .typeRef := by simpa using List.find?_some hm
  have hmem : m ∈ n.nodes := List.mem_of_find?_eq_some hm
  rw [← n.nodes_parts] at hmem
  obtain ⟨t, ht, hnode⟩ := List.mem_filterMap.mp hmem
  rw [← n.shape_parts]
  cases t with
  | leaf l => cases hnode
  | node kind span children =>
    cases hnode
    exact ⟨_, List.mem_map.mpr ⟨_, ht, congrArg (Tree.Shape.node · _) hkind⟩⟩

theorem declares_of_mem (hn : n ∈ (parse source).root.descendants) (h : n.IsTyped) :
    ∃ type name rest, n.Declares type name rest := by
  rcases List.mem_cons.mp hn with rfl | hn
  · rcases h with h | ⟨h, -⟩
    · exact absurd (show NodeKind.root ∈ [.variableDef, .fieldDef, .declStmt] from h) (by decide)
    · cases h
  · obtain ⟨past, g, parts, -, -, hlaw, hch⟩ := rootOf_law (declarationLaw_outline _) hn
    have hshapes : Tree.shapesOf n.children = (Outline.shapesAll parts (Token.kinds g.tokens)).1 := by
      rw [hch, (Outline.placeAll_shapes parts g).1]
    obtain ⟨type, k, rest, hparts, htype, hk⟩ := shapes_of_startsDeclared (hlaw (h.imp_right fun h =>
      ⟨h.1, by
        obtain ⟨ss, hss⟩ := exists_typeRef_shape h.2
        rw [hshapes] at hss
        exact exists_part_of_shape hss⟩))
    rw [← hshapes, ← n.shape_parts] at hparts
    obtain ⟨t, ts, hn, ht, hts⟩ := List.map_eq_cons_iff.mp hparts
    obtain ⟨l, us, rfl, hl, rfl⟩ := List.map_eq_cons_iff.mp hts
    obtain ⟨m, rfl, hm⟩ := Node.exists_node_of_shape (t := t) (by rw [ht]; rfl)
    cases l with
    | node => cases hl
    | leaf name =>
      cases hl
      obtain ⟨hkind, hchildren⟩ := Tree.Shape.node.inj (hm.symm.trans ht)
      refine ⟨m, name, us, hn, hkind, ?_, hk⟩
      rw [Node.significantKinds, ← m.leaves_shape, Node.shape, Tree.Shape.leaves, hchildren]
      exact htype

/-- Lookahead agrees with what is taken. Where it sees a declaration, the rule of types takes just the
tokens before the declarator, one at least, and then the declarator comes next. A declaration there
starts with that type and the first token of the declarator, and so do all declarations in trees. -/
theorem declarations_agree :
    (∀ (budget : Nat) (s : List Cue), s.length < budget → startsDeclaration s = true →
      ∃ taken t, s = taken ++ t ∧ taken ≠ [] ∧ typeEnd? s = some t
        ∧ startsDeclarator t = true ∧ nextIn [.ident, .kwOperator, .tilde] t = true
        ∧ Gives budget typeRef s [.node .typeRef (taken.map fun _ => .token)] t
        ∧ ∀ place, ∃ kind rest u, Gives budget (declaration place) s
          [.node kind (.node .typeRef (taken.map fun _ => .token) :: .token :: rest)] u)
      ∧ ∀ source, ∀ n ∈ (parse source).root.descendants, n.IsTyped →
        ∃ type name rest, n.Declares type name rest := by
  refine ⟨fun budget s hb hs => ?_, fun source n hn h => declares_of_mem hn h⟩
  obtain ⟨taken, t, h⟩ := typeRef_gives hb hs
  have hnext : nextIn [.ident, .kwOperator, .tilde] t = true := by
    have hd := nextIs_of_startsDeclarator h.declarator
    cases t with
    | nil => cases hd
    | cons c t => exact hd
  exact ⟨taken, t, h.split, h.nonempty, h.seen, h.declarator, hnext, h.took,
    declaration_gives hb h⟩

/-- `const a::b<c> &x = y;`, as cues and as a text -/
theorem declarations_agree_of_qualified :
    (∃ taken t, ([.kwConst, .ident, .doubleColon, .ident, .less, .ident, .greater, .amp, .ident,
        .equal, .ident, .semicolon] : List TokenKind).map (Cue.mk · false .plain) = taken ++ t
      ∧ typeEnd? (taken ++ t) = some t
      ∧ Gives 13 typeRef (taken ++ t) [.node .typeRef (taken.map fun _ => .token)] t)
    ∧ ∃ n ∈ (parse "const a::b<c> &x = y;".toList).root.descendants,
      n.IsTyped ∧ ∃ type name rest, n.Declares type name rest := by
  have hstarts : startsDeclaration (([.kwConst, .ident, .doubleColon, .ident, .less, .ident, .greater,
      .amp, .ident, .equal, .ident, .semicolon] : List TokenKind).map (Cue.mk · false .plain)) = true := by
    decide +kernel
  have hn : ∃ n ∈ (parse "const a::b<c> &x = y;".toList).root.descendants,
      n.kind = .variableDef := by
    decide +kernel
  obtain ⟨taken, t, hs, -, hseen, -, -, hgives, -⟩ := declarations_agree.1 13 _ (by decide) hstarts
  obtain ⟨n, hn, hk⟩ := hn
  have htyped : n.IsTyped := .inl (by rw [hk]; decide)
  rw [hs] at hseen hgives
  exact ⟨⟨taken, t, hs, hseen, hgives⟩, n, hn, htyped, declarations_agree.2 _ n hn htyped⟩

end CppMend
