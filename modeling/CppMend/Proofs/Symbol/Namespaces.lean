import CppMend.Proofs.Parsed.Namespaces
import CppMend.Proofs.Symbol.Containers
import CppMend.Proofs.Symbol.Moved

/-!
# The symbols in namespaces

`namespace a::b { … }` is read, but only the first of its names is a scope. So the symbols of the same
items are in other scopes there than in `namespace a { namespace b { … } }`, where each name is one.

* `namespaceText`, `nestedText`    the texts of these namespaces;
* `Namespaces.Body.Reads`          the tokens that a text has in braces are those of a body;
* `Namespaces.entries_of_place`    what a namespace declares: its name, and what its body does in there;
* `Symbol.entryIn`                 what is known of a symbol in further scopes, without its place;
* `namespaces_entries`             the symbols of both texts.
-/

namespace CppMend

open Token

/-! ## texts -/

/-- what opens a namespace with some names, or one without a name -/
def opening : List Text → Text
  | [] => "namespace \x7b".toList
  | n :: ns => "namespace ".toList ++ Text.joined [':', ':'] (n :: ns) ++ " \x7b".toList

/-- `namespace a::b { … }` -/
def namespaceText (names : List Text) (x : Text) : Text := opening names ++ braced x

/-- `namespace a { namespace b { … } }` -/
def nestedText : List Text → Text → Text
  | [], x => x
  | n :: ns, x => namespaceText [n] (nestedText ns x)

/-! ## the tokens of names -/

namespace Token

theorem of_mem_qualified {w : Text} {ws : List Text} {t : Token} (ht : t ∈ qualified w ws) :
    t = colons ∨ ∃ v, t = ofName v := by
  rcases List.mem_cons.mp ht with rfl | ht
  · exact .inr ⟨w, rfl⟩
  · obtain ⟨v, -, hv⟩ := List.mem_flatMap.mp ht
    rcases List.mem_pair.mp hv with rfl | rfl
    · exact .inl rfl
    · exact .inr ⟨v, rfl⟩

end Token

namespace Namespaces

/-- the tokens between `namespace` and the brace, where there are some names -/
def headerTokens : List Text → List Token
  | [] => []
  | n :: ns => blank :: qualified n ns

theorem of_mem_headerTokens {names : List Text} {t : Token} (ht : t ∈ headerTokens names) :
    t = blank ∨ t = colons ∨ ∃ v, t = ofName v := by
  cases names with
  | nil => cases ht
  | cons n ns => exact (List.mem_cons.mp ht).imp_right of_mem_qualified

theorem getLast?_headerTokens {names : List Text} {t : Token} (ht : t ∈ (headerTokens names).getLast?) :
    t.isTrivia = false := by
  cases names with
  | nil => cases ht
  | cons n ns =>
    have hmem : t ∈ qualified n ns := List.mem_of_getLast? ht
    rcases of_mem_qualified hmem with rfl | ⟨v, rfl⟩ <;> rfl

/-- the header with some names -/
def Header.ofNames (names : List Text) : Header where
  tokens := headerTokens names
  words := by
    intro t ht htrivia
    rcases of_mem_headerTokens ht with rfl | rfl | ⟨v, rfl⟩
    · cases htrivia
    · rfl
    · rfl
  last := fun _ ht => getLast?_headerTokens ht

theorem opening_cons (n : Text) (ns : List Text) : opening (n :: ns)
    = "namespace ".toList ++ Text.joined [':', ':'] (n :: ns) ++ " \x7b".toList := rfl

theorem opening_append (n : Text) (ns : List Text) (rest : Text) : opening (n :: ns) ++ ' ' :: rest
    = namespaceWord.text ++ ' ' :: (Text.joined [':', ':'] (n :: ns) ++ ' ' :: '{' :: ' ' :: rest) := by
  have hword : "namespace ".toList = namespaceWord.text ++ [' '] := by rfl
  have hbrace : " \x7b".toList = [' ', '{'] := by rfl
  rw [opening_cons]
  simp only [hword, hbrace, List.append_assoc, List.cons_append, List.nil_append]

/-- the first character of a qualified name is that of a name -/
theorem exists_joined {n : Text} {ns : List Text} (h : IsName n) :
    ∃ c u, Text.joined [':', ':'] (n :: ns) = c :: u ∧ c ∉ TokenClass.blanks := by
  obtain ⟨c, r, rfl, hc⟩ := h.parts.1
  have hhead : ∀ c ∈ TokenClass.nameHead, c ∉ TokenClass.blanks :=
    List.all_iff_forall_prop.mp (by decide)
  cases ns <;> exact ⟨c, _, rfl, hhead c hc⟩

theorem scan_opening {names : List Text} (h : ∀ n ∈ names, IsName n) (rest : Text) :
    scan (opening names ++ ' ' :: rest)
      = namespaceWord :: (Header.ofNames names).tokens ++ blank :: openBrace :: scan (' ' :: rest) := by
  have hword : namespaceWord.EndsAt ' ' := endsAt_of_afterText (by decide) (by decide)
  have hopen : openBrace.EndsAt ' ' := endsAt_of_afterText (by decide) (by decide)
  have hbrace : scan ('{' :: ' ' :: rest) = openBrace :: scan (' ' :: rest) := scan_endsAt hopen rest
  have hblank : scan (' ' :: '{' :: ' ' :: rest) = blank :: scan ('{' :: ' ' :: rest) :=
    scan_endsAt (blank_endsAt (by decide)) (' ' :: rest)
  cases names with
  | nil =>
    have hfirst : scan (opening [] ++ ' ' :: rest) = namespaceWord :: scan (' ' :: '{' :: ' ' :: rest) :=
      scan_endsAt hword ('{' :: ' ' :: rest)
    rw [hfirst, hblank, hbrace]
    rfl
  | cons n ns =>
    -- the blank before the names is a token of its own
    have hnames : scan (' ' :: (Text.joined [':', ':'] (n :: ns) ++ ' ' :: '{' :: ' ' :: rest))
        = blank :: scan (Text.joined [':', ':'] (n :: ns) ++ ' ' :: '{' :: ' ' :: rest) := by
      obtain ⟨c, u, hu, hc⟩ := exists_joined (h n List.mem_cons_self)
      rw [hu]
      exact scan_endsAt (blank_endsAt hc) _
    rw [opening_append, scan_endsAt hword, hnames, scan_qualified h, hblank, hbrace]
    rfl

/-! ## bodies -/

/-- The text in braces has the tokens of the body. -/
def Body.Reads (b : Body) (x : Text) : Prop := scan (braced x) = b.tokens ++ [closeBrace]

theorem reads_bodyOf {x : Text} (hx : IsComplete x) : (bodyOf hx).Reads x := hx.tokens_eq.symm

/-- The tokens of a namespace, where blanks and closing braces follow. -/
theorem Body.Reads.scan_namespace {names : List Text} {b : Body} {x us : Text} (hx : b.Reads x)
    (h : ∀ n ∈ names, IsName n) (hus : ∀ c ∈ us, c ∈ closing) :
    scan (namespaceText names x ++ us)
      = block (Header.ofNames names) b ++ scan us := by
  have hbraced : scan (braced x ++ us) = b.tokens ++ [closeBrace] ++ scan us := by
    rw [scan_append hx hus, hx]
  have htext : namespaceText names x ++ us = opening names ++ (braced x ++ us) := by
    rw [namespaceText, List.append_assoc]
  rw [htext]
  have hopening := scan_opening h (x ++ [' ', '}'] ++ us)
  rw [braced, List.cons_append, List.cons_append] at hbraced ⊢
  rw [hopening, hbraced]
  simp only [block, List.append_assoc, List.cons_append, List.nil_append]

theorem scan_closing : scan [' ', '}'] = [blank, closeBrace] := by
  decide +kernel

theorem exists_opening (names : List Text) : ∃ u, opening names = 'n' :: u := by
  cases names <;> exact ⟨_, rfl⟩

theorem Body.Reads.scan_whole {names : List Text} {b : Body} {x : Text} (hx : b.Reads x)
    (h : ∀ n ∈ names, IsName n) : scan (namespaceText names x) = block (Header.ofNames names) b := by
  have hend : scan (namespaceText names x ++ []) = block (Header.ofNames names) b ++ scan [] :=
    hx.scan_namespace h (List.forall_mem_nil (· ∈ closing))
  rwa [scan_nil, List.append_nil, List.append_nil] at hend

/-- A namespace is what another one may have in its braces. -/
theorem Body.Reads.around {names : List Text} {b : Body} {x : Text} (hx : b.Reads x)
    (h : ∀ n ∈ names, IsName n) :
    ((Header.ofNames names).around b).Reads (namespaceText names x) := by
  have hinner : scan (namespaceText names x ++ [' ', '}'])
      = block (Header.ofNames names) b ++ [blank, closeBrace] := by
    have hclosers : ∀ c ∈ [' ', '}'], c ∈ closing := fun _ hc => hc
    rw [hx.scan_namespace h hclosers, scan_closing]
  obtain ⟨u, hu⟩ := exists_opening names
  have hblank : scan (' ' :: (namespaceText names x ++ [' ', '}']))
      = blank :: scan (namespaceText names x ++ [' ', '}']) := by
    rw [namespaceText, hu]
    exact scan_endsAt (blank_endsAt (by decide)) _
  show scan (' ' :: (namespaceText names x ++ [' ', '}'])) = blank :: block _ b ++ [blank] ++ _
  rw [hblank, hinner, List.cons_append, List.cons_append, List.append_assoc]
  rfl

/-- the body of the innermost of some namespaces, in the others -/
def nestedBody : List Text → Body → Body
  | [], b => b
  | n :: ns, b => (Header.ofNames [n]).around (nestedBody ns b)

theorem reads_nestedBody {ns : List Text} {b : Body} {x : Text} (hx : b.Reads x)
    (h : ∀ n ∈ ns, IsName n) : (nestedBody ns b).Reads (nestedText ns x) := by
  induction ns with
  | nil => exact hx
  | cons n ns ih =>
    obtain ⟨hn, hns⟩ := List.forall_mem_cons.mp h
    exact (ih hns).around (List.forall_mem_singleton.mpr hn)

end Namespaces

/-! ## what trees declare -/

section

variable (standing : Standing) (scope : Scope)

theorem declaredIn_append (ts us : List Tree) :
    declaredIn standing scope (ts ++ us) = declaredIn standing scope ts ++ declaredIn standing scope us := by
  induction ts with
  | nil => rfl
  | cons t ts ih => rw [List.cons_append, declaredIn, ih, declaredIn, List.append_assoc]

theorem declaredIn_singleton (t : Tree) : declaredIn standing scope [t] = declared standing scope t :=
  List.append_nil _

/-- Tokens that are not grouped declare nothing. -/
theorem declaredIn_leaves (offset : Nat) (ts : List Token) :
    declaredIn standing scope (Feed.leaves offset ts) = [] := by
  induction ts generalizing offset with
  | nil => rfl
  | cons t ts ih =>
    rw [Feed.leaves, declaredIn, ih]
    rfl

theorem declaredIn_blank (f : Feed) : declaredIn standing scope (Outline.place .blank f).1 = [] :=
  declaredIn_leaves standing scope _ _

theorem declaredIn_token (f : Feed) : declaredIn standing scope (Outline.place .token f).1 = [] := by
  rw [Outline.place_token, declaredIn_append]
  exact congrArg₂ (· ++ ·) (declaredIn_leaves standing scope _ _) (declaredIn_leaves standing scope _ _)

theorem declared_itemList (span : Span) (children : List Tree) :
    declared .inNamespace scope (.node .itemList span children) = declaredIn .item scope children := by
  have hnode := declared_node .inNamespace scope ⟨.itemList, span, children⟩
  have haround : around .inNamespace ⟨.itemList, span, children⟩ scope = ([], []) := rfl
  have hinside : inside .inNamespace ⟨.itemList, span, children⟩ scope = some (.item, scope) := rfl
  rw [haround, hinside, List.nil_append, List.append_nil] at hnode
  exact hnode

/-- A namespace declares its name, if there is one, and what is in it in the scope of this name. -/
theorem declared_namespace {n : Node} (hk : n.kind = .namespaceDef) : declared .item scope n.tree
    = (n.firstName?.toList.map fun name => n.symbol name .space scope false)
      ++ declaredIn .inNamespace (scope ++ (n.firstName?.map (·.text)).toList) n.children := by
  have hclosing : n.closingSymbols scope = [] := n.closingSymbols_of_ne (by rw [hk]; decide) scope
  have haround : around .item n scope
      = (n.firstName?.toList.map (fun name => n.symbol name .space scope false), []) := by
    simp only [around, Node.ownSymbols, hk, hclosing]
    cases n.firstName? <;> rfl
  have hinside : inside .item n scope
      = some (.inNamespace, scope ++ (n.firstName?.map (·.text)).toList) := by
    simp only [inside, hk]
    cases n.firstName? with
    | none => exact congrArg (fun s => some (Standing.inNamespace, s)) (List.append_nil scope).symm
    | some name => rfl
  rw [declared_node, haround, hinside, List.append_nil]
  rfl

end

/-- The first name in a node that starts with some tokens and has no others. -/
theorem firstName?_text {n : Node} {offset : Nat} {ts : List Token} {nodes : List Tree}
    (hn : n.children = Feed.leaves offset ts ++ nodes) (hnodes : nodes.filterMap Tree.leaf? = []) :
    n.firstName?.map (·.text) = (ts.find? (·.kind = .ident)).map (·.text) := by
  have hrow (offset : Nat) (ts : List Token) :
      (Feed.leaves offset ts).filterMap Tree.leaf? = Leaf.row offset ts := by
    induction ts generalizing offset with
    | nil => rfl
    | cons t ts ih =>
      rw [Feed.leaves, List.filterMap_cons, ih]
      rfl
  have htokens : n.tokens = Leaf.row offset ts := by
    rw [Node.tokens, hn, List.filterMap_append, hrow, hnodes, List.append_nil]
  rw [Node.firstName?, Node.token?, htokens, ← Leaf.map_token_row offset ts, List.find?_map, Option.map_map,
    Leaf.map_token_row]
  rfl

/-! ## symbols without their places -/

/-- What is known of a symbol apart from where it is. -/
structure Entry where
  name : Text
  kind : SymbolKind
  container : Option Text
  deriving DecidableEq, Repr

/-- the symbol in further scopes; a macro is in none -/
def Symbol.entryIn (p : Scope) (s : Symbol) : Entry :=
  ⟨s.name, s.kind, if s.kind = .definition then s.scope.spelling? else Scope.spelling? (p ++ s.scope)⟩

theorem Symbol.entryIn_enclosed (p q : Scope) (k : Nat) (s : Symbol) :
    (s.enclosed q k).entryIn p = s.entryIn (p ++ q) := by
  rw [entryIn, entryIn, enclosed, List.append_assoc]
  split_ifs <;> rfl

namespace Namespaces

/-- the name of a namespace with some header, as a scope -/
def Header.scope (h : Header) : Scope := ((h.tokens.find? (·.kind = .ident)).map (·.text)).toList

/-- the symbols of its name -/
def Header.entries (h : Header) (p : Scope) : List Entry :=
  h.scope.map fun n => ⟨n, .space, p.spelling?⟩

/-- the trees of a body, at the start of a text -/
def Body.trees (b : Body) : List Tree := (Outline.placeAll b.outlines ⟨b.tokens, 0⟩).1

/-- what is declared in a body -/
def Body.symbols (b : Body) : List Symbol := declaredIn .item [] b.trees

variable (h : Header) (b : Body)

/-- the list of items that a body makes in braces -/
theorem place_itemList (us : List Token) (offset : Nat) : ∃ span f,
    (Outline.place (listOf b) ⟨blank :: openBrace :: (b.tokens ++ closeBrace :: us), offset⟩).1
      = Feed.leaves offset [blank] ++ [.node .itemList span (Feed.leaves (offset + 1) [openBrace]
        ++ (Tree.movedAll (offset + 2) b.trees ++ (Outline.place .token f).1))] := by
  have hblank : blank.text.byteSize = 1 := by decide
  have hstart : Feed.Starts (closeBrace :: us) := ⟨closeBrace, us, rfl, rfl⟩
  have hbody := Outline.placeAll_moved (offset + 2) hstart b.outlines ⟨b.tokens, 0⟩
    (Nat.le_of_eq b.sized)
  have hfeed : (⟨b.tokens, 0⟩ : Feed).further (offset + 2) (closeBrace :: us)
      = ⟨b.tokens ++ closeBrace :: us, offset + 2⟩ := by
    rw [Feed.further, Nat.zero_add]
  rw [hfeed] at hbody
  have hbrace : Outline.place .token ⟨openBrace :: (b.tokens ++ closeBrace :: us), offset + 1⟩
      = (Feed.leaves (offset + 1) [openBrace], ⟨b.tokens ++ closeBrace :: us, offset + 2⟩) :=
    Outline.place_significant rfl _ _
  have hfresh : Feed.Fresh ⟨openBrace :: (b.tokens ++ closeBrace :: us), offset + 1⟩ :=
    Feed.takeBlanks_significant rfl _ _
  have hparts : (Outline.placeAll (.token :: b.outlines ++ [.token])
        ⟨openBrace :: (b.tokens ++ closeBrace :: us), offset + 1⟩).1
      = Feed.leaves (offset + 1) [openBrace] ++ (Tree.movedAll (offset + 2) b.trees
        ++ (Outline.place .token ((Outline.placeAll b.outlines ⟨b.tokens, 0⟩).2.further (offset + 2)
          (closeBrace :: us))).1) := by
    rw [List.cons_append, Outline.placeAll_cons, hbrace, Outline.placeAll_append, hbody,
      Outline.placeAll_singleton]
    rfl
  rw [listOf, Outline.place_trivia _ rfl, hblank, Outline.place_node_of_fresh _ _ hfresh, hparts]
  exact ⟨_, _, rfl⟩

/-- the node of a namespace, where more tokens may follow -/
theorem place_outlineOf (us : List Token) (offset : Nat) : ∃ n : Node, ∃ span k f,
    n.kind = .namespaceDef
    ∧ n.children = Feed.leaves offset (namespaceWord :: h.tokens ++ [blank])
      ++ [.node .itemList span (Feed.leaves (k + 1) [openBrace]
        ++ (Tree.movedAll (k + 2) b.trees ++ (Outline.place .token f).1))]
    ∧ (Outline.place (outlineOf h b) ⟨block h b ++ us, offset⟩).1 = [n.tree] := by
  let start := offset + namespaceWord.text.byteSize
  have htokens : block h b ++ us = namespaceWord
      :: (h.tokens ++ blank :: openBrace :: (b.tokens ++ closeBrace :: us)) := by
    simp only [block, List.append_assoc, List.cons_append, List.nil_append]
  have hword : Outline.place .token ⟨block h b ++ us, offset⟩ = (Feed.leaves offset [namespaceWord],
      ⟨h.tokens ++ blank :: openBrace :: (b.tokens ++ closeBrace :: us), start⟩) := by
    rw [htokens]
    exact Outline.place_significant rfl _ _
  have hwords := Outline.placeAll_tokens h.last (blank :: openBrace :: (b.tokens ++ closeBrace :: us)) start
  obtain ⟨span, f, hlist⟩ := place_itemList b us (start + Feed.width h.tokens)
  have hleaves : Feed.leaves offset (namespaceWord :: h.tokens ++ [blank])
      = Feed.leaves offset [namespaceWord] ++ (Feed.leaves start h.tokens
        ++ Feed.leaves (start + Feed.width h.tokens) [blank]) := by
    rw [List.cons_append, Feed.leaves, Feed.leaves_append]
    rfl
  have hparts : (Outline.placeAll (partsOf h b) ⟨block h b ++ us, offset⟩).1
      = Feed.leaves offset (namespaceWord :: h.tokens ++ [blank])
        ++ [.node .itemList span (Feed.leaves (start + Feed.width h.tokens + 1) [openBrace]
          ++ (Tree.movedAll (start + Feed.width h.tokens + 2) b.trees ++ (Outline.place .token f).1))] := by
    rw [partsOf, List.cons_append, Outline.placeAll_cons, hword, Outline.placeAll_append, hwords,
      Outline.placeAll_singleton, hlist, hleaves]
    simp only [List.append_assoc]
  have hfresh : Feed.Fresh ⟨block h b ++ us, offset⟩ := by
    rw [htokens]
    exact Feed.takeBlanks_significant rfl _ _
  have hplace := Outline.place_node_of_fresh .namespaceDef (partsOf h b) hfresh
  exact ⟨⟨.namespaceDef, _, (Outline.placeAll (partsOf h b) ⟨block h b ++ us, offset⟩).1⟩, span,
    start + Feed.width h.tokens, f, rfl, hparts, congrArg Prod.fst hplace⟩

theorem find?_header : (namespaceWord :: h.tokens ++ [blank]).find? (·.kind = .ident)
    = h.tokens.find? (·.kind = .ident) := by
  rw [List.cons_append, List.find?_cons_of_neg (by decide), List.find?_append]
  exact Option.or_none

/-- What a namespace declares: its name, and what its body does in the scope of this name. -/
theorem entries_of_place (us : List Token) (offset : Nat) (p : Scope) :
    (declaredIn .item [] (Outline.place (outlineOf h b) ⟨block h b ++ us, offset⟩).1).map
        (Symbol.entryIn p)
      = h.entries p ++ b.symbols.map (Symbol.entryIn (p ++ h.scope)) := by
  obtain ⟨n, span, k, f, hk, hchildren, hplace⟩ := place_outlineOf h b us offset
  have hname := firstName?_text hchildren rfl
  rw [find?_header] at hname
  have hscope : (n.firstName?.map (·.text)).toList = h.scope := congrArg Option.toList hname
  have hown : (n.firstName?.toList.map fun name => n.symbol name .space [] false).map (Symbol.entryIn p)
      = h.entries p := by
    rw [Header.entries, ← hscope]
    cases n.firstName? with
    | none => rfl
    | some name => 
      exact congrArg (fun s => [(⟨name.text, .space, Scope.spelling? s⟩ : Entry)]) (List.append_nil p)
  have hbody := declaredIn_enclosed h.scope (k + 2) .item [] b.trees
  rw [List.append_nil] at hbody
  have hentries : (b.symbols.map (Symbol.enclosed h.scope (k + 2))).map (Symbol.entryIn p)
      = b.symbols.map (Symbol.entryIn (p ++ h.scope)) := by
    rw [List.map_map]
    exact congrArg (List.map · b.symbols) (funext (Symbol.entryIn_enclosed p h.scope (k + 2)))
  rw [hplace, declaredIn_singleton, declared_namespace [] hk, hscope, hchildren, declaredIn_append,
    declaredIn_leaves, declaredIn_singleton, declared_itemList, declaredIn_append, declaredIn_leaves,
    declaredIn_append, declaredIn_token, List.nil_append, List.nil_append, List.nil_append, hbody,
    List.append_nil, List.map_append, hown]
  exact congrArg (h.entries p ++ ·) hentries

/-- a namespace as the body of another one -/
theorem entries_around (p : Scope) : (h.around b).symbols.map (Symbol.entryIn p)
    = h.entries p ++ b.symbols.map (Symbol.entryIn (p ++ h.scope)) := by
  have htrees : (h.around b).trees = Feed.leaves 0 [blank]
      ++ (Outline.place (outlineOf h b) ⟨block h b ++ [blank], 1⟩).1 := by
    show (Outline.placeAll [outlineOf h b] ⟨blank :: (block h b ++ [blank]), 0⟩).1 = _
    rw [Outline.placeAll_singleton, Outline.place_trivia _ rfl]
    rfl
  rw [Body.symbols, htrees, declaredIn_append, declaredIn_leaves, List.nil_append, entries_of_place]

/-- the symbols of a text that is a namespace -/
theorem entries_root {source : Text} (hs : scan source = block h b) (p : Scope) :
    (parse source).root.symbols.map (Symbol.entryIn p)
      = h.entries p ++ b.symbols.map (Symbol.entryIn (p ++ h.scope)) := by
  show (declaredIn .item [] (Outline.placeAll (outline (cues (scan source))) ⟨scan source, 0⟩).1).map _ = _
  have hplace := entries_of_place h b [] 0 p
  rw [List.append_nil] at hplace
  rw [hs, outline_block, Outline.placeAll_cons, Outline.placeAll_singleton, declaredIn_append,
    declaredIn_blank, List.append_nil, hplace]

end Namespaces

/-! ## both texts -/

/-- the entries of namespaces with some names, each in those before it -/
def Entry.spaces (p : Scope) : List Text → List Entry
  | [] => []
  | n :: ns => ⟨n, .space, Scope.spelling? p⟩ :: spaces (p ++ [n]) ns

namespace Namespaces

theorem scope_ofNames (n : Text) (ns : List Text) : (Header.ofNames (n :: ns)).scope = [n] := rfl

theorem entries_nestedBody (ns : List Text) (b : Body) (p : Scope) :
    (nestedBody ns b).symbols.map (Symbol.entryIn p)
      = Entry.spaces p ns ++ b.symbols.map (Symbol.entryIn (p ++ ns)) := by
  induction ns generalizing p with
  | nil => rw [List.append_nil]; rfl
  | cons n ns ih =>
    rw [nestedBody, entries_around, scope_ofNames, ih, List.append_assoc]
    rfl

end Namespaces

/-- what is known of the symbols of a text, in order -/
def entries (source : Text) : List Entry := (parse source).root.symbols.map (Symbol.entryIn [])

/-- the symbols that items declare in a namespace without a name -/
def itemSymbols (x : Text) : List Symbol := (parse (namespaceText [] x)).root.symbols

theorem joined_eq_flatMap (separator w : Text) (ws : List Text) :
    Text.joined separator (w :: ws) = w ++ ws.flatMap (separator ++ ·) := by
  induction ws generalizing w with
  | nil => exact (List.append_nil w).symm
  | cons v ws ih =>
    rw [Scope.joined_cons separator w (List.cons_ne_nil v ws), ih, List.flatMap_cons]
    simp only [List.append_assoc]

/-- A name with more scopes before it is spelled in another way. -/
theorem Scope.spelling?_ne (n : Text) {ns : List Text} (hns : ns ≠ []) (us : Scope) :
    Scope.spelling? ([n] ++ us) ≠ Scope.spelling? (n :: ns ++ us) := by
  obtain ⟨m, ms, rfl⟩ := List.exists_cons_of_ne_nil hns
  intro h
  have hjoined : Text.joined [':', ':'] (n :: us) = Text.joined [':', ':'] (n :: m :: (ms ++ us)) :=
    Option.some.inj h
  rw [joined_eq_flatMap, joined_eq_flatMap, List.flatMap_cons, List.flatMap_append] at hjoined
  have hlength := congrArg List.length (List.append_cancel_left hjoined)
  have hcolons : [':', ':'].length = 2 := rfl
  simp only [List.length_append, hcolons] at hlength
  omega

theorem Symbol.entryIn_eq_iff (n : Text) (ns : List Text) (s : Symbol) :
    s.entryIn [n] = s.entryIn (n :: ns) ↔ ns = [] ∨ s.kind = .definition := by
  constructor
  · intro h
    by_contra hne
    obtain ⟨hns, hk⟩ := not_or.mp hne
    have hcontainer := congrArg Entry.container h
    simp only [entryIn, if_neg hk] at hcontainer
    exact Scope.spelling?_ne n hns s.scope hcontainer
  · rintro (rfl | hk)
    · rfl
    · rw [entryIn, entryIn, if_pos hk, if_pos hk]

/-- what the symbols of items are in further scopes -/
theorem entries_itemSymbols {x : Text} (hx : IsComplete x) (p : Scope) :
    (itemSymbols x).map (Symbol.entryIn p)
      = (Namespaces.bodyOf hx).symbols.map (Symbol.entryIn p) := by
  have hscan := (Namespaces.reads_bodyOf hx).scan_whole (List.forall_mem_nil IsName)
  have hentries := Namespaces.entries_root _ _ hscan p
  rw [itemSymbols, hentries]
  exact congrArg (fun q => List.map (Symbol.entryIn q) _) (List.append_nil p)

/-- The symbols of items are in the scope of the first name where a namespace has several, and in those
of all names where there are as many namespaces. Only macros are in none of them. -/
theorem namespaces_entries {n : Text} {ns : List Text} {x : Text} (hn : ∀ w ∈ n :: ns, IsName w)
    (hx : IsComplete x) :
    entries (namespaceText (n :: ns) x)
        = ⟨n, .space, none⟩ :: (itemSymbols x).map (Symbol.entryIn [n])
      ∧ entries (nestedText (n :: ns) x)
        = Entry.spaces [] (n :: ns) ++ (itemSymbols x).map (Symbol.entryIn (n :: ns))
      ∧ ((itemSymbols x).map (Symbol.entryIn [n]) = (itemSymbols x).map (Symbol.entryIn (n :: ns))
        ↔ ns = [] ∨ ∀ s ∈ itemSymbols x, s.kind = .definition) := by
  have hreads := Namespaces.reads_bodyOf hx
  obtain ⟨hfirst, hrest⟩ := List.forall_mem_cons.mp hn
  refine ⟨?_, ?_, ?_⟩
  · have hscan := hreads.scan_whole hn
    rw [entries, Namespaces.entries_root _ _ hscan, Namespaces.scope_ofNames, entries_itemSymbols hx]
    rfl
  · have hscan := (Namespaces.reads_nestedBody hreads hrest).scan_whole (List.forall_mem_singleton.mpr hfirst)
    rw [entries, nestedText, Namespaces.entries_root _ _ hscan, Namespaces.scope_ofNames,
      Namespaces.entries_nestedBody, entries_itemSymbols hx]
    rfl
  · simp only [List.map_inj_left, Symbol.entryIn_eq_iff]
    by_cases hns : ns = []
    · exact iff_of_true (fun _ _ => .inl hns) (.inl hns)
    · simp only [hns, false_or]

theorem isComplete_variable : IsComplete "int x;".toList := by decide +kernel

theorem namespaces_entries_variable : (∀ w ∈ [['a'], ['b']], IsName w) ∧ IsComplete "int x;".toList
    ∧ entries (namespaceText [['a'], ['b']] "int x;".toList)
      = [⟨['a'], .space, none⟩, ⟨['x'], .object, some ['a']⟩]
    ∧ entries (nestedText [['a'], ['b']] "int x;".toList)
      = [⟨['a'], .space, none⟩, ⟨['b'], .space, some ['a']⟩, ⟨['x'], .object, some "a::b".toList⟩] := by
  have hn : ∀ w ∈ [['a'], ['b']], IsName w := by decide
  have hitems : itemSymbols "int x;".toList = [⟨['x'], .object, ⟨16, 1⟩, ⟨12, 6⟩, [], false⟩] := by
    decide +kernel
  obtain ⟨hjoined, hnested, -⟩ := namespaces_entries hn isComplete_variable
  rw [hitems] at hjoined hnested
  exact ⟨hn, isComplete_variable, hjoined, hnested⟩

/-- Several names are not as many namespaces. -/
theorem not_namespaces_joined : ¬∀ (n : Text) (ns : List Text) (x : Text),
    (∀ w ∈ n :: ns, IsName w) → IsComplete x →
    (entries (namespaceText (n :: ns) x)).drop 1 = (entries (nestedText (n :: ns) x)).drop (ns.length + 1) := by
  intro h
  have hsame := h ['a'] [['b']] "int x;".toList (by decide) isComplete_variable
  exact absurd hsame (by decide +kernel)

end CppMend
