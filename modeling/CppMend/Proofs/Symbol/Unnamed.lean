import CppMend.Proofs.Parsed.Tags
import CppMend.Proofs.Symbol.Listing

/-!
# Records and enumerations without a name

The name of a record or an enumeration is looked for among all tokens directly in it, also among those
after its body. So one without a name of its own is called by the first thing that is declared with it,
and has it as the container of what is in it. Nothing else is taken for its name.

* `Node.strayName?`       what the first name after the body is, where it is found;
* `Node.scopeLeaves`      the names that a container is made of;
* `unnamed_tags`          the entry of a record or an enumeration without a name, and the containers that
                          it gives;
* `not_all_unnamed_hidden`  there may be such an entry.
-/

namespace CppMend

/-- the kinds of symbols that records and enumerations declare -/
def SymbolKind.isTag : SymbolKind → Bool
  | .structType | .classType | .unionType | .enumType => true
  | _ => false

namespace Node

/-! ## the name that is found -/

/-- The first token after the body that is no keyword, if it is a name. Behind a `:`, no name is found. -/
def strayName? (n : Node) : Option Leaf :=
  if n.beforeBody.any (·.kind = .colon) then none
  else (n.afterBody.find? (!·.kind.isKeyword)).filter (·.kind = .ident)

theorem tagName?_eq (n : Node) :
    n.tagName? = (n.significant.find? (!·.kind.isKeyword)).filter (·.kind = .ident) := by
  rw [tagName?]
  cases n.significant.find? (!·.kind.isKeyword) with
  | none => rfl
  | some l => by_cases h : l.kind = .ident <;> simp [h, Option.filter]

theorem unnamedWords_cases {kind : NodeKind} {ws : List TokenKind} (h : ws ∈ kind.unnamedWords) :
    ws.any (· = .colon) = false ∧ ws.find? (!·.isKeyword) = none
      ∨ ws.any (· = .colon) = true ∧ ws.find? (!·.isKeyword) = some .colon := by
  have hall : ∀ kind ∈ NodeKind.all, ∀ ws ∈ kind.unnamedWords,
      ws.any (· = .colon) = false ∧ ws.find? (!·.isKeyword) = none
        ∨ ws.any (· = .colon) = true ∧ ws.find? (!·.isKeyword) = some .colon := by
    decide
  exact hall kind (NodeKind.mem_all kind) ws h

/-- Without a name before the body, the first one after it is found. -/
theorem tagName?_of_unnamed {n : Node} (h : n.beforeBody.map (·.kind) ∈ n.kind.unnamedWords) :
    n.tagName? = n.strayName? := by
  have hany : (n.beforeBody.map (·.kind)).any (· = .colon) = n.beforeBody.any (·.kind = .colon) :=
    List.any_map
  have hfind : (n.beforeBody.map (·.kind)).find? (!·.isKeyword)
      = (n.beforeBody.find? (!·.kind.isKeyword)).map (·.kind) := List.find?_map
  rw [tagName?_eq, significant_body, List.find?_append, strayName?, ← hany]
  rcases unnamedWords_cases h with ⟨hnone, hwords⟩ | ⟨hcolon, hwords⟩
  · rw [hfind, Option.map_eq_none_iff] at hwords
    rw [hnone, hwords, if_neg Bool.false_ne_true]
    rfl
  · rw [hfind] at hwords
    obtain ⟨c, hc, hk⟩ := Option.map_eq_some_iff.mp hwords
    rw [hcolon, hc, if_pos rfl]
    simp [hk, Option.filter]

/-! ## the entry -/

/-- the kind of symbol that a record or an enumeration declares -/
def tagKind (n : Node) : SymbolKind := if n.kind = .enumDef then .enumType else n.recordKind

theorem isTag_tagKind (n : Node) : n.tagKind.isTag = true := by
  rw [tagKind, recordKind]
  split_ifs <;> rfl

theorem ownSymbols_tag {n : Node} (scope : Scope) (h : n.kind.isTag = true) :
    (n.ownSymbols scope).filter (·.kind.isTag)
      = (n.tagName?.map fun name => n.symbol name n.tagKind scope (!n.hasPart n.kind.tagBody)).toList := by
  have named (name : Leaf) (declared : Bool) :
      (n.symbol name n.tagKind scope declared).kind.isTag = true := n.isTag_tagKind
  cases hk : n.kind <;> rw [hk] at h <;> cases h
  case structDef | classDef =>
    have hkind : n.tagKind = n.recordKind := if_neg (by rw [hk]; decide)
    rw [ownSymbols, hk, ← hkind]
    cases n.tagName? with
    | none => rfl
    | some name => exact List.filter_cons_of_pos (named name _)
  case enumDef =>
    have hkind : n.tagKind = .enumType := if_pos hk
    have hinner : (n.enumerators.filterMap fun e => e.firstName?.map fun name =>
        e.symbol name .enumerator (n.innerScope scope) false).filter (·.kind.isTag) = [] := by
      refine List.filter_eq_nil_iff.mpr fun s hs => ?_
      obtain ⟨e, -, he⟩ := List.mem_filterMap.mp hs
      obtain ⟨name, -, rfl⟩ := Option.map_eq_some_iff.mp he
      exact Bool.false_ne_true
    rw [ownSymbols, hk, hkind]
    show (n.enumSymbols scope).filter _ = _
    rw [enumSymbols_eq, List.filter_append, hinner, List.append_nil]
    cases n.tagName? <;> rfl

theorem isTag_of_mem_ownSymbols {n : Node} {scope : Scope} {s : Symbol} (h : s ∈ n.ownSymbols scope)
    (hs : s.kind.isTag = true) : n.kind.isTag = true := by
  unfold ownSymbols at h
  split at h
  case h_2 hk | h_3 hk | h_4 hk => rw [hk]; rfl
  case h_8 =>
    obtain ⟨name, -, rfl⟩ := List.mem_map.mp h
    cases hs
  case h_9 => cases h
  all_goals
    split at h
    · obtain rfl := List.mem_singleton.mp h
      cases hs
    · cases h

/-- What a node declares as a record or an enumeration is itself, by the name that is found. -/
theorem mem_listed_tag {n : Node} {scope : Scope} {s : Symbol} : s ∈ n.listed scope ∧ s.kind.isTag = true
    ↔ n.kind.isTag = true ∧ ∃ name, n.tagName? = some name
      ∧ s = n.symbol name n.tagKind scope (!n.hasPart n.kind.tagBody) := by
  have hown (h : n.kind.isTag = true) : s ∈ n.listed scope ↔ s ∈ n.ownSymbols scope := by
    have hfield : n.kind ≠ .fieldDef := fun hk => by rw [hk] at h; cases h
    have hclosing : n.closingSymbols scope = [] :=
      n.closingSymbols_of_ne (fun hk => by rw [hk] at h; cases h) scope
    rw [listed, if_neg hfield, hclosing, List.append_nil]
  have htag (h : n.kind.isTag = true) : s ∈ n.ownSymbols scope ∧ s.kind.isTag = true
      ↔ ∃ name, n.tagName? = some name
        ∧ s = n.symbol name n.tagKind scope (!n.hasPart n.kind.tagBody) := by
    have hfilter : s ∈ (n.ownSymbols scope).filter (·.kind.isTag)
        ↔ s ∈ n.ownSymbols scope ∧ s.kind.isTag = true := List.mem_filter
    rw [← hfilter, ownSymbols_tag scope h, Option.mem_toList, Option.map_eq_some_iff]
    exact exists_congr fun name => and_congr_right fun _ => eq_comm
  constructor
  · rintro ⟨hs, hk⟩
    have hn : n.kind.isTag = true := by
      rw [listed, List.mem_append] at hs
      rcases hs with hs | hs
      · split at hs
        · obtain ⟨name, -, rfl⟩ := List.mem_map.mp hs
          cases hk
        · exact isTag_of_mem_ownSymbols hs hk
      · unfold closingSymbols at hs
        split at hs
        · obtain rfl := List.mem_singleton.mp hs
          cases hk
        · cases hs
    exact ⟨hn, (htag hn).mp ⟨(hown hn).mp hs, hk⟩⟩
  · rintro ⟨hn, hname⟩
    obtain ⟨hs, hk⟩ := (htag hn).mpr hname
    exact ⟨(hown hn).mpr hs, hk⟩

/-! ## containers -/

/-- the names that what a node declares itself has in its scope, besides those of the nodes around it -/
def addedLeaves (n : Node) (up : List Node) : List Leaf :=
  match n.kind with
  | .functionDef => n.declaratorNames.dropLast
  | .enumerator =>
    match up.find? (·.kind = .enumDef) with
    | some e => if e.isScoped then e.tagName?.toList else []
    | none => []
  | _ => []

/-- the names that the container of what a node declares is made of -/
def scopeLeaves (n : Node) (up : List Node) : List Leaf :=
  if n.kind = .preprocDefine then [] else up.reverse.filterMap scopeName? ++ n.addedLeaves up

theorem mem_tokens_of_tagName {n : Node} {l : Leaf} (h : n.tagName? = some l) : l ∈ n.tokens :=
  List.mem_of_mem_filter (tagName?_mem h)

/-- A name in a container is one of a node around, or of the function that is declared. -/
theorem mem_scopeLeaves {n : Node} {up : List Node} {l : Leaf} (h : l ∈ n.scopeLeaves up) :
    (∃ m ∈ up, l ∈ m.tokens ∧ (m.kind.isTag = true → m.tagName? = some l))
      ∨ n.kind = .functionDef ∧ l ∈ n.tokens := by
  rw [scopeLeaves] at h
  split at h
  · cases h
  · rcases List.mem_append.mp h with h | h
    · obtain ⟨m, hm, hname⟩ := List.mem_filterMap.mp h
      refine .inl ⟨m, List.mem_reverse.mp hm, ?_⟩
      unfold scopeName? at hname
      split at hname
      · next hk => exact ⟨List.mem_of_mem_filter (firstName?_mem hname), fun ht => by rw [hk] at ht; cases ht⟩
      · exact ⟨mem_tokens_of_tagName hname, fun _ => hname⟩
      · exact ⟨mem_tokens_of_tagName hname, fun _ => hname⟩
      · cases hname
    · unfold addedLeaves at h
      split at h
      · next hk =>
        refine .inr ⟨hk, ?_⟩
        have hl : l ∈ n.declaratorNames := List.mem_of_mem_dropLast h
        exact ((List.takeWhile_prefix _).sublist.filterMap _).subset (List.mem_of_mem_filter hl)
      · split at h
        · next e he =>
          split at h
          · have hname := Option.mem_toList.mp h
            exact .inl ⟨e, List.mem_of_find?_eq_some he, mem_tokens_of_tagName hname, fun _ => hname⟩
          · cases h
        · cases h
      · cases h

end Node

/-! ## the entries of a text -/

/-- An entry has a name from a node in its container. -/
def Parsed.ScopedBy (t : Parsed) (l : Leaf) : Prop :=
  ∃ s ∈ t.root.symbols, ∃ o : Origin, o.Declares s
    ∧ (o.up, o.node) ∈ t.root.tree.nodesUnder [] ∧ l ∈ o.node.scopeLeaves o.up

/-- An entry stands for a record or an enumeration that is called by a name. -/
def Parsed.TaggedBy (t : Parsed) (l : Leaf) : Prop :=
  ∃ s ∈ t.root.symbols, s.kind.isTag = true ∧ s.nameSpan = l.span

section
variable {source : Text} {up : List Node} {n : Node}

/-- A name of a record or an enumeration that is in a container is the one that is found for it, and
nothing hides the record. -/
theorem tagName?_of_scopedBy (hn : (up, n) ∈ (parse source).root.tree.nodesUnder [])
    (htag : n.kind.isTag = true) {l : Leaf} (hl : l ∈ n.tokens) (h : (parse source).ScopedBy l) :
    (∀ m ∈ up, m.hides = false) ∧ n.tagName? = some l := by
  obtain ⟨s, hs, o, hd, hnode, hleaf⟩ := h
  obtain ⟨o', hd', hnode', hopen⟩ := exists_open_origin hs
  obtain ⟨hup, -, -⟩ := eq_of_nameSpan hnode' hnode hd'.direct hd.direct
    (hd'.nameSpan.symm.trans hd.nameSpan)
  rw [hup] at hopen
  rcases Node.mem_scopeLeaves hleaf with ⟨m, hm, hlm, hname⟩ | ⟨hk, hlm⟩
  · obtain ⟨above, hsuffix, hmem⟩ := Tree.exists_mem_nodesUnder_of_around hnode hm
    obtain ⟨rfl, rfl, -⟩ := eq_of_nameSpan hmem hn hlm hl rfl
    exact ⟨fun m hm => hopen m (hsuffix.mem hm), hname htag⟩
  · obtain ⟨-, rfl, -⟩ := eq_of_nameSpan hnode hn hlm hl rfl
    rw [hk] at htag
    cases htag

/-- The entries that stand for a record or an enumeration are one at most, by the name that is found. -/
theorem entry_iff_tagName? (hn : (up, n) ∈ (parse source).root.tree.nodesUnder []) (s : Symbol) :
    (s ∈ (parse source).root.symbols ∧ s.kind.isTag = true ∧ ∃ l ∈ n.tokens, s.nameSpan = l.span)
      ↔ (∀ m ∈ up, m.hides = false) ∧ n.kind.isTag = true ∧ ∃ name, n.tagName? = some name
        ∧ s = n.symbol name n.tagKind (Scope.around up) (!n.hasPart n.kind.tagBody) := by
  constructor
  · rintro ⟨hs, hk, l, hl, hspan⟩
    obtain ⟨above, m, hm, hopen, hlisted⟩ := mem_symbols_iff.mp hs
    obtain ⟨htag, name, hname, rfl⟩ := Node.mem_listed_tag.mp ⟨hlisted, hk⟩
    obtain ⟨rfl, rfl, -⟩ := eq_of_nameSpan hm hn (Node.mem_tokens_of_tagName hname) hl hspan
    exact ⟨hopen, htag, name, hname, rfl⟩
  · rintro ⟨hopen, htag, name, hname, rfl⟩
    obtain ⟨hlisted, hk⟩ := Node.mem_listed_tag.mpr ⟨htag, name, hname, rfl⟩
    exact ⟨mem_symbols_iff.mpr ⟨up, n, hn, hopen, hlisted⟩, hk, name,
      Node.mem_tokens_of_tagName hname, rfl⟩

end

/-- A record or an enumeration with a body and no name before it is called by the first name after the
body, if that is its first token there but keywords. By this name it has one entry, unless something
around hides it, and no other name in it is in a container. So it has neither an entry nor gives
containers just where no such name is found or something hides it. In a `typedef` none is found. -/
theorem unnamed_tags (source : Text) {up : List Node} {n : Node}
    (hn : (up, n) ∈ (parse source).root.tree.nodesUnder []) (h : n.IsUnnamed) :
    (∀ s, (s ∈ (parse source).root.symbols ∧ s.kind.isTag = true ∧ ∃ l ∈ n.tokens, s.nameSpan = l.span)
        ↔ (∀ m ∈ up, m.hides = false) ∧ ∃ v, n.strayName? = some v
          ∧ s = n.symbol v n.tagKind (Scope.around up) false)
      ∧ (∀ l ∈ n.tokens, (parse source).ScopedBy l →
        (∀ m ∈ up, m.hides = false) ∧ n.strayName? = some l)
      ∧ ((∀ l ∈ n.tokens, ¬(parse source).TaggedBy l ∧ ¬(parse source).ScopedBy l)
        ↔ n.strayName? = none ∨ ∃ m ∈ up, m.hides = true)
      ∧ ∀ q ∈ up.head?, q.kind = .typedefDef → n.strayName? = none := by
  have hname : n.tagName? = n.strayName? :=
    Node.tagName?_of_unnamed (unnamed_words (mem_descendants_of_nodesUnder hn) h)
  have hbody : n.hasPart n.kind.tagBody = true := by
    obtain ⟨m, hm, hk⟩ := h.body
    rw [Node.hasPart, Node.node?, List.find?_isSome]
    exact ⟨m, hm, decide_eq_true hk⟩
  have hentry (s : Symbol) : (s ∈ (parse source).root.symbols ∧ s.kind.isTag = true
      ∧ ∃ l ∈ n.tokens, s.nameSpan = l.span) ↔ (∀ m ∈ up, m.hides = false)
        ∧ ∃ v, n.strayName? = some v ∧ s = n.symbol v n.tagKind (Scope.around up) false := by
    rw [entry_iff_tagName? hn s, hname, hbody]
    simp only [h.tag, true_and, Bool.not_true]
  have hscope : ∀ l ∈ n.tokens, (parse source).ScopedBy l →
      (∀ m ∈ up, m.hides = false) ∧ n.strayName? = some l := fun l hl hl' =>
    hname ▸ tagName?_of_scopedBy hn h.tag hl hl'
  refine ⟨hentry, hscope, ⟨fun hnone => ?_, fun hnone l hl => ⟨fun htagged => ?_, fun hscoped => ?_⟩⟩,
    fun q hq hk => ?_⟩
  · by_contra hfound
    push Not at hfound
    obtain ⟨v, hv⟩ := Option.ne_none_iff_exists'.mp hfound.1
    have hopen : ∀ m ∈ up, m.hides = false := fun m hm => Bool.eq_false_iff.mpr (hfound.2 m hm)
    obtain ⟨hs, hk, l, hl, hspan⟩ := (hentry _).mpr ⟨hopen, v, hv, rfl⟩
    exact (hnone l hl).1 ⟨_, hs, hk, hspan⟩
  · obtain ⟨s, hs, hk, hspan⟩ := htagged
    obtain ⟨hopen, v, hv, -⟩ := (hentry s).mp ⟨hs, hk, l, hl, hspan⟩
    rcases hnone with hnone | ⟨m, hm, hhides⟩
    · cases hnone.symm.trans hv
    · cases (hopen m hm).symm.trans hhides
  · obtain ⟨hopen, hv⟩ := hscope l hl hscoped
    rcases hnone with hnone | ⟨m, hm, hhides⟩
    · cases hnone.symm.trans hv
    · cases (hopen m hm).symm.trans hhides
  · rcases Tree.mem_nodesUnder_of_nodesUnder hn with ⟨rfl, -⟩ | ⟨p, rest, rfl, hchild, hp⟩
    · cases hq
    · cases hq
      rw [Node.strayName?, afterBody_of_typedef (mem_descendants_of_nodesUnder hp) hk hchild h.tag h.body,
        List.find?_nil, Option.filter_none, ite_self]

/-- a variable that names its record, and an enumeration behind whose type no name is found -/
theorem unnamed_tags_of_variable :
    (∃ p ∈ (parse "struct \x7b\x7d v; enum : int \x7b\x7d c;".toList).root.tree.nodesUnder [],
      p.2.kind = .structDef ∧ p.2.IsUnnamed
        ∧ ∃ s ∈ (parse "struct \x7b\x7d v; enum : int \x7b\x7d c;".toList).root.symbols,
          s.kind.isTag = true ∧ s.name = ['v'] ∧ ∃ l ∈ p.2.tokens, s.nameSpan = l.span)
      ∧ ∃ p ∈ (parse "struct \x7b\x7d v; enum : int \x7b\x7d c;".toList).root.tree.nodesUnder [],
        p.2.kind = .enumDef ∧ p.2.IsUnnamed ∧ ∀ l ∈ p.2.tokens,
          ¬(parse "struct \x7b\x7d v; enum : int \x7b\x7d c;".toList).TaggedBy l
            ∧ ¬(parse "struct \x7b\x7d v; enum : int \x7b\x7d c;".toList).ScopedBy l := by
  have h : (∃ p ∈ (parse "struct \x7b\x7d v; enum : int \x7b\x7d c;".toList).root.tree.nodesUnder [],
        p.2.kind = .structDef ∧ p.2.IsUnnamed ∧ p.1.all (!·.hides) = true
          ∧ p.2.strayName?.map (·.text) = some ['v'])
      ∧ ∃ p ∈ (parse "struct \x7b\x7d v; enum : int \x7b\x7d c;".toList).root.tree.nodesUnder [],
        p.2.kind = .enumDef ∧ p.2.IsUnnamed ∧ p.2.strayName? = none := by
    decide +kernel
  obtain ⟨⟨⟨up, n⟩, hn, hk, hu, hopen, hv⟩, ⟨up', m⟩, hm, hmk, hmu, hnone⟩ := h
  obtain ⟨v, hstray, htext⟩ := Option.map_eq_some_iff.mp hv
  obtain ⟨hs, hkind, hl⟩ := ((unnamed_tags _ hn hu).1 _).mpr ⟨by simpa using hopen, v, hstray, rfl⟩
  exact ⟨⟨_, hn, hk, hu, _, hs, hkind, htext, hl⟩, _, hm, hmk, hmu,
    (unnamed_tags _ hm hmu).2.2.1.mpr (.inl hnone)⟩

/-- A record without a name may have an entry. -/
theorem not_all_unnamed_hidden : ¬∀ source, ∀ p ∈ (parse source).root.tree.nodesUnder [], p.2.IsUnnamed →
    ∀ l ∈ p.2.tokens, ¬(parse source).TaggedBy l ∧ ¬(parse source).ScopedBy l := by
  intro h
  have hs : ∃ p ∈ (parse "struct \x7b int a; \x7d v;".toList).root.tree.nodesUnder [], p.2.IsUnnamed
      ∧ ∃ l ∈ p.2.tokens, ∃ s ∈ (parse "struct \x7b int a; \x7d v;".toList).root.symbols,
        s.kind.isTag = true ∧ s.nameSpan = l.span := by
    decide +kernel
  obtain ⟨p, hp, hu, l, hl, htagged⟩ := hs
  exact (h _ p hp hu l hl).1 htagged

end CppMend
