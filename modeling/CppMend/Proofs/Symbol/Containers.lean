import CppMend.Proofs.Symbol.Functions

/-!
# The containers of symbols

On the way down the tree, the walk puts the scopes that it comes through before the names that it
finds, written with `::` between each two. On the way up from a name, the same scopes are read off the
nodes that it is in, one after the other.

* `Scope.nest`            what is written for a scope in another one;
* `Scope.spelling?_append`  stretches of scopes are written one after the other;
* `Node.container?`       the container of what a node declares, read off on the way up;
* `symbols_containers`    it is that of the symbols of the node.
-/

namespace CppMend

namespace Scope

/-- what is written for scopes in others, of which either may be none -/
def nest : Option Text → Option Text → Option Text
  | some outer, some inner => some (outer ++ [':', ':'] ++ inner)
  | some outer, none => some outer
  | none, inner => inner

theorem joined_cons (separator p : Text) {ps : List Text} (h : ps ≠ []) :
    Text.joined separator (p :: ps) = p ++ separator ++ Text.joined separator ps := by
  cases ps with
  | nil => exact absurd rfl h
  | cons q ps => rfl

theorem joined_append {separator : Text} {ss us : List Text} (hs : ss ≠ []) (hu : us ≠ []) :
    Text.joined separator (ss ++ us)
      = Text.joined separator ss ++ separator ++ Text.joined separator us := by
  induction ss with
  | nil => exact absurd rfl hs
  | cons s ss ih =>
    by_cases h : ss = []
    · rw [h]
      exact joined_cons separator s hu
    · rw [List.cons_append, joined_cons separator s (List.append_ne_nil_of_left_ne_nil h us), ih h,
        joined_cons separator s h]
      simp only [List.append_assoc]

/-- Stretches of scopes are written one after the other. -/
theorem spelling?_append (s t : Scope) : (s ++ t).spelling? = nest s.spelling? t.spelling? := by
  cases s with
  | nil => rfl
  | cons a s =>
    cases t with
    | nil => simp [spelling?, nest]
    | cons b t =>
      have hjoined : Text.joined [':', ':'] (a :: s ++ b :: t)
          = Text.joined [':', ':'] (a :: s) ++ [':', ':'] ++ Text.joined [':', ':'] (b :: t) :=
        joined_append (List.cons_ne_nil a s) (List.cons_ne_nil b t)
      simpa [spelling?, nest] using hjoined

/-- what the walk has put together where it has come through some nodes, of which the last is first -/
def walked (up : List Node) : Option Text :=
  up.foldr (fun n outer => nest outer (n.scopeName?.map (·.text))) none

theorem spelling?_around (up : List Node) : (around up).spelling? = walked up := by
  induction up with
  | nil => rfl
  | cons n up ih =>
    rw [around_cons, spelling?_append, ih]
    show _ = nest (walked up) (n.scopeName?.map (·.text))
    cases n.scopeName? <;> rfl

end Scope

/-- The container of what a node declares: the names of the namespaces and records among the nodes
around it, then the name of its enumeration or what qualifies it, with `::` between each two. There is
none if there are no such names, and macros have none. -/
def Node.container? (n : Node) (up : List Node) : Option Text :=
  if n.kind = .preprocDefine then none
  else
    match Scope.around up ++ n.addedScope up with
    | [] => none
    | names => some (Text.joined [':', ':'] names)

theorem Node.spelling?_scopeAt (n : Node) (up : List Node) : (n.scopeAt up).spelling? = n.container? up := by
  rw [scopeAt, container?]
  split
  · rfl
  · cases Scope.around up ++ n.addedScope up <;> rfl

/-- The container of each symbol of a text is that of the node which its name is directly in, read off
on the way up: just what is put together on the way down to it. -/
theorem symbols_containers (source : Text) : ∀ s ∈ (parse source).root.symbols, ∃ up n l,
    (up, n) ∈ (parse source).root.tree.nodesUnder [] ∧ n.kind.declares s.kind = true ∧ s.span = n.span
      ∧ l ∈ n.tokens ∧ s.name = l.text ∧ s.nameSpan = l.span
      ∧ s.scope.spelling? = n.container? up
      ∧ (n.kind ≠ .preprocDefine →
        n.container? up = Scope.nest (Scope.walked up) (n.addedScope up).spelling?) := by
  intro s hs
  obtain ⟨o, hd, hnode, -⟩ := exists_name_of_symbol source hs
  refine ⟨o.up, o.node, o.name, hnode, hd.kind, hd.span, hd.direct, hd.name, hd.nameSpan, ?_, fun hk => ?_⟩
  · rw [hd.scope, o.node.spelling?_scopeAt]
  · rw [← o.node.spelling?_scopeAt, Node.scopeAt, if_neg hk, Scope.spelling?_append,
      Scope.spelling?_around]

/-- a qualified function in a namespace -/
def qualifiedSource : Text := "namespace a \x7b int S::f(); \x7d".toList

/-- the entry of that function -/
def qualifiedFunction : Symbol :=
  ⟨"f".toList, .function, ⟨21, 1⟩, ⟨14, 11⟩, ["a".toList, "S".toList], true⟩

theorem symbols_containers_of_qualified : qualifiedFunction ∈ (parse qualifiedSource).root.symbols
    ∧ ∃ up n, (up, n) ∈ (parse qualifiedSource).root.tree.nodesUnder []
      ∧ n.kind = .functionDef ∧ n.span = ⟨14, 11⟩ ∧ n.container? up = some "a::S".toList := by
  have hs : qualifiedFunction ∈ (parse qualifiedSource).root.symbols := by decide +kernel
  obtain ⟨up, n, -, hn, hdeclares, hspan, -, -, -, hcontainer, -⟩ :=
    symbols_containers qualifiedSource _ hs
  refine ⟨hs, up, n, hn, ?_, hspan.symm, hcontainer.symm⟩
  rw [qualifiedFunction] at hdeclares
  revert hdeclares
  cases n.kind <;> simp [NodeKind.declares]

end CppMend
