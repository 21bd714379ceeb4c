import CppMend.Proofs.Grammar.Extent

/-!
# Laws of nodes

A law is asked of the nodes in the outlines of a text. It sees the kind of a node, its parts, and of the
tokens from its start on their cues, or the kinds alone. A rule makes some of these nodes itself, and its
chains wrap others around what is there; the rest is made by the goals that it comes to.

* `Outline.spotsAll`    the nodes of some outlines, with the number of tokens before each;
* `Outline.Obey`        a law holds of all of them;
* `Rule.Throughout`     something is so wherever a rule makes a node itself, or has a chain;
* `Rule.avoids`         a rule makes no node of some kinds, by its form alone.
-/

namespace CppMend

namespace Outline

/-- A node of an outline, and the number of tokens before it. -/
structure Spot where
  kind : NodeKind
  parts : List Outline
  before : Nat
  deriving Repr

/-- the spot with `n` more tokens before it -/
def Spot.after (n : Nat) (p : Spot) : Spot := { p with before := n + p.before }

mutual

/-- the nodes, each before those in it -/
def spots : Outline → List Spot
  | .token => []
  | .blank => []
  | .node kind parts => ⟨kind, parts, 0⟩ :: spotsAll parts

def spotsAll : List Outline → List Spot
  | [] => []
  | o :: os => o.spots ++ (spotsAll os).map (Spot.after o.size)

end

theorem Spot.after_after (n m : Nat) (p : Spot) : (p.after m).after n = p.after (n + m) := by
  rw [after, after, after, Nat.add_assoc]

theorem spotsAll_append (os ps : List Outline) :
    spotsAll (os ++ ps) = spotsAll os ++ (spotsAll ps).map (Spot.after (sizes os)) := by
  induction os with
  | nil =>
    have hz : Spot.after (sizes []) = id := by
      funext p
      rw [sizes, Spot.after, Nat.zero_add]
      rfl
    rw [hz, List.map_id]
    rfl
  | cons o os ih =>
    have hf : Spot.after o.size ∘ Spot.after (sizes os) = Spot.after (sizes (o :: os)) := by
      funext p
      rw [Function.comp, Spot.after_after, sizes_cons]
    rw [List.cons_append, spotsAll, spotsAll, ih, List.map_append, List.map_map, hf,
      List.append_assoc]

theorem spotsAll_tokens (s : List Cue) : spotsAll (s.map fun _ => .token) = [] := by
  induction s with
  | nil => rfl
  | cons c s ih =>
    rw [List.map_cons, spotsAll, spots, ih]
    rfl

end Outline

/-! ## laws -/

/-- What is asked of a node, by its kind, its parts and something about each token from it on. -/
abbrev Law (α : Type) := NodeKind → List Outline → List α → Prop

/-- What is asked of a node, by its kind, its parts and the kinds of the tokens from it on. -/
abbrev NodeLaw := Law TokenKind

def kindsOf (s : List Cue) : List TokenKind := s.map (·.kind)

theorem kindsOf_drop (n : Nat) (s : List Cue) : kindsOf (s.drop n) = (kindsOf s).drop n :=
  List.map_drop

/-- The law holds of all nodes of some outlines, where it sees `ks` of the tokens. -/
def Outline.Obey {α : Type} (P : Law α) (os : List Outline) (ks : List α) : Prop :=
  ∀ p ∈ spotsAll os, P p.kind p.parts (ks.drop p.before)

namespace Outline

variable {α : Type} {P : Law α} {ks : List α}

theorem obey_nil : Obey P [] ks := fun _ hp => nomatch hp

theorem obey_tokens (s : List Cue) : Obey P (s.map fun _ => .token) ks := by
  intro p hp
  rw [spotsAll_tokens] at hp
  cases hp

theorem Obey.append {os ps : List Outline} (h : Obey P os ks)
    (h' : Obey P ps (ks.drop (sizes os))) :
    Obey P (os ++ ps) ks := by
  intro p hp
  rw [spotsAll_append, List.mem_append] at hp
  rcases hp with hp | hp
  · exact h p hp
  · obtain ⟨q, hq, rfl⟩ := List.mem_map.mp hp
    have hl := h' q hq
    rw [List.drop_drop] at hl
    exact hl

theorem Obey.node {kind : NodeKind} {parts : List Outline} (h : P kind parts ks)
    (h' : Obey P parts ks) : Obey P [.node kind parts] ks := by
  intro p hp
  rw [spotsAll, spotsAll, List.map_nil, List.append_nil, spots, List.mem_cons] at hp
  rcases hp with rfl | hp
  · exact h
  · exact h' p hp

end Outline

/-! ## what rules make -/

namespace Rule

/-- Wherever the rule makes a node itself, the rule of this node is as `N` says there; and so with its
chains, by what they start with and their links. -/
def Throughout (N : Rule → List Cue → Prop)
    (C : Rule → (List Cue → Option (NodeKind × Goal)) → List Cue → Prop) : Rule → List Cue → Prop
  | .node kind body, s => N (.node kind body) s ∧ body.Throughout N C s
  | .seq p q, s => p.Throughout N C s ∧ ∀ t, q.Throughout N C t
  | .branch test yes no, s =>
    (test s = true → yes.Throughout N C s) ∧ (test s = false → no.Throughout N C s)
  | .loop body, _ => ∀ t, body.Throughout N C t
  | .atLeastOne body, s => body.Throughout N C s
  | .headed head kind tail, s =>
    N (.headed head kind tail) s ∧ head.Throughout N C s ∧ ∀ t, tail.Throughout N C t
  | .chain head link, s => C head link s ∧ head.Throughout N C s
  | _, _ => True

/-- the rule makes no node of the special kinds itself, and it has no chain -/
def avoids (special : NodeKind → Bool) : Rule → Bool
  | .node kind body => !special kind && body.avoids special
  | .seq p q | .branch _ p q => p.avoids special && q.avoids special
  | .loop body | .atLeastOne body => body.avoids special
  | .headed _ _ _ | .chain _ _ => false
  | _ => true

variable {N : Rule → List Cue → Prop}
  {C : Rule → (List Cue → Option (NodeKind × Goal)) → List Cue → Prop} {special : NodeKind → Bool}

theorem throughout_of_avoids (hN : ∀ kind body s, special kind = false → N (.node kind body) s)
    {r : Rule} (h : r.avoids special = true) (s : List Cue) : r.Throughout N C s := by
  induction r generalizing s with
  | node kind body ih =>
    rw [avoids, Bool.and_eq_true, Bool.not_eq_true'] at h
    exact ⟨hN kind body s h.1, ih h.2 s⟩
  | seq p q ihp ihq =>
    rw [avoids, Bool.and_eq_true] at h
    exact ⟨ihp h.1 s, ihq h.2⟩
  | branch test yes no ihy ihn =>
    rw [avoids, Bool.and_eq_true] at h
    exact ⟨fun _ => ihy h.1 s, fun _ => ihn h.2 s⟩
  | loop body ih => exact ih h
  | atLeastOne body ih => exact ih h s
  | headed head kind tail => cases h
  | chain head link => cases h
  | _ => trivial

end Rule

/-! ## what rules build -/

namespace Action

variable {α : Type} {P : Law α}

theorem token_obeys (s : List Cue) {ks : List α} : Outline.Obey P (token s).built ks := by
  cases s with
  | nil => exact fun _ hp => nomatch hp
  | cons c s => exact fun _ hp => nomatch hp

theorem obey_append {seen : Cue → α} {o p : Outcome} {s : List Cue} (hf : o.Fits s)
    (h : Outline.Obey P o.built (s.map seen)) (h' : Outline.Obey P p.built (o.ahead.map seen)) :
    Outline.Obey P (o.built ++ p.built) (s.map seen) := by
  refine h.append ?_
  rw [← List.map_drop, ← hf.rest]
  exact h'

end Action

end CppMend
