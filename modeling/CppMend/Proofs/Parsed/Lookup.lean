import CppMend.Fix.Context
import CppMend.Proofs.Parsed.Lossless
import CppMend.Proofs.Tree.Paths

/-!
# The token at an offset

The table of a text lists its significant tokens from left to right, and none of them reaches into the
next. So at most one of them contains an offset, and the search by halves finds it. The path to the
offset is found in another way, by going down the tree, and it ends with the node that the token is
directly in.

* `Parsed.HasAt`                 the token of a number contains an offset;
* `Leaf.row_pairwise`            the leaves of a row end before the next ones start;
* `Parsed.tokenIndexAt?_iff`     the search finds the token that contains the offset;
* `Tree.chain_ends_at_leaf`      the way down to an offset in a leaf ends with the parent of the leaf;
* `FixContext.cursor_token_exact`   all of this, for every text and every offset.
-/

namespace CppMend

/-- The token of some number contains the offset. -/
def Parsed.HasAt (t : Parsed) (offset i : Nat) : Prop :=
  ∃ l, t.tokens[i]? = some l ∧ l.span.contains offset = true

/-- One leaf ends before the other starts. -/
def Leaf.Precedes (a b : Leaf) : Prop := a.span.stop ≤ b.span.start

/-! ## leaves in a row -/

namespace Leaf

variable {a b l : Leaf} {ls : List Leaf} {offset : Nat}

theorem row_pairwise (offset : Nat) (ts : List Token) : (row offset ts).Pairwise Precedes := by
  induction ts generalizing offset with
  | nil => exact .nil
  | cons t ts ih => exact .cons (fun l hl => start_of_mem_row hl) (ih _)

/-- each offset of a row is in one of its leaves -/
theorem exists_mem_row {first : Nat} {ts : List Token} (hf : first ≤ offset)
    (ho : offset < first + Feed.width ts) : ∃ l ∈ row first ts, l.span.contains offset = true := by
  induction ts generalizing first with
  | nil => exact absurd ho (Nat.not_lt.mpr hf)
  | cons t ts ih =>
    rw [Feed.width_cons, ← Nat.add_assoc] at ho
    by_cases h : offset < first + t.text.byteSize
    · exact ⟨_, List.mem_cons_self, (Span.contains_iff _ _).mpr ⟨hf, h⟩⟩
    · obtain ⟨l, hl, hc⟩ := ih (Nat.le_of_not_lt h) ho
      exact ⟨l, List.mem_cons_of_mem _ hl, hc⟩

/-- of two leaves one of which ends first, only one contains an offset -/
theorem Precedes.not_both (h : a.Precedes b) (ha : a.span.contains offset = true)
    (hb : b.span.contains offset = true) : False := by
  rw [Span.contains_iff] at ha hb
  have : a.span.stop ≤ b.span.start := h
  omega

/-- Of leaves in a row, only one contains an offset. -/
theorem eq_of_contains (h : ls.Pairwise Precedes) (hma : a ∈ ls) (hmb : b ∈ ls)
    (ha : a.span.contains offset = true) (hb : b.span.contains offset = true) : a = b := by
  induction h with
  | nil => cases hma
  | cons hfirst _ ih =>
    rcases List.mem_cons.mp hma with ea | hma <;> rcases List.mem_cons.mp hmb with eb | hmb
    · rw [ea, eb]
    · exact ((hfirst b hmb).not_both (ea ▸ ha) hb).elim
    · exact ((hfirst a hma).not_both (eb ▸ hb) ha).elim
    · exact ih hma hmb

/-- Leaves in a row start after the first one. -/
theorem start_le_of_head? (h : ls.Pairwise Precedes) (hf : ls.head? = some a) (hl : l ∈ ls) :
    a.span.start ≤ l.span.start := by
  cases h with
  | nil => cases hl
  | cons hfirst _ =>
    cases hf
    rcases List.mem_cons.mp hl with rfl | hl
    · exact Nat.le_refl _
    · exact Nat.le_trans (Nat.le_add_right _ _) (hfirst l hl)

/-- Leaves in a row end before the last one does. -/
theorem stop_le_of_getLast? (h : ls.Pairwise Precedes) (hf : ls.getLast? = some a) (hl : l ∈ ls) :
    l.span.stop ≤ a.span.stop := by
  obtain ⟨init, rfl⟩ := List.getLast?_eq_some_iff.mp hf
  rw [List.mem_append, List.mem_singleton] at hl
  rcases hl with hl | rfl
  · have hp : l.Precedes a := (List.pairwise_append.mp h).2.2 l hl a List.mem_cons_self
    exact Nat.le_trans hp (Nat.le_add_right _ _)
  · exact Nat.le_refl _

end Leaf

/-! ## the table -/

namespace Parsed

variable {t : Parsed} {offset i j : Nat}

theorem hasAt_of_mem {l : Leaf} (h : l ∈ t.tokens) (hc : l.span.contains offset = true) :
    ∃ i, t.HasAt offset i := by
  obtain ⟨i, hi⟩ := List.mem_iff_getElem?.mp h
  exact ⟨i, l, hi, hc⟩

theorem HasAt.unique (ht : t.tokens.Pairwise Leaf.Precedes) (hi : t.HasAt offset i)
    (hj : t.HasAt offset j) : i = j := by
  obtain ⟨a, ha, hca⟩ := hi
  obtain ⟨b, hb, hcb⟩ := hj
  obtain ⟨hli, rfl⟩ := List.getElem?_eq_some_iff.mp ha
  obtain ⟨hlj, rfl⟩ := List.getElem?_eq_some_iff.mp hb
  have happart := List.pairwise_iff_getElem.mp ht
  rcases Nat.lt_trichotomy i j with hlt | rfl | hlt
  · exact ((happart i j hli hlj hlt).not_both hca hcb).elim
  · rfl
  · exact ((happart j i hlj hli hlt).not_both hcb hca).elim

/-- The search by halves finds the token that contains the offset, as looking at all of them would. -/
theorem tokenIndexAt?_iff (ht : t.tokens.Pairwise Leaf.Precedes) :
    t.tokenIndexAt? offset = some i ↔ t.HasAt offset i := by
  rw [tokenIndexAt?]
  constructor
  · intro h
    split at h
    · next l hl =>
      split at h
      · next hc =>
        cases h
        exact ⟨l, hl, hc⟩
      · cases h
    · cases h
  · rintro ⟨l, hl, hc⟩
    obtain ⟨hlt, rfl⟩ := List.getElem?_eq_some_iff.mp hl
    obtain ⟨hstart, hstop⟩ := (Span.contains_iff _ _).mp hc
    have happart := List.pairwise_iff_getElem.mp ht
    -- the tokens before it end at the offset or sooner, those from it on do not
    have hpoint : Halving.point (fun k => t.tokens[k]?.any (·.span.stop ≤ offset)) 0 t.tokens.length
        = i := by
      refine Halving.point_eq (Nat.zero_le i) (by omega) (fun k _ hk => ?_) fun k hk hlen => ?_
      · have hp : t.tokens[k].span.stop ≤ t.tokens[i].span.start := happart k i (by omega) hlt hk
        rw [List.getElem?_eq_getElem (by omega), Option.any_some, decide_eq_true_eq]
        omega
      · have hle : t.tokens[i].span.stop ≤ t.tokens[k].span.stop := by
          rcases Nat.eq_or_lt_of_le hk with rfl | hk
          · exact Nat.le_refl _
          · exact Nat.le_trans (happart i k hlt (by omega) hk) (Nat.le_add_right _ _)
        rw [List.getElem?_eq_getElem (by omega), Option.any_some, decide_eq_false_iff_not]
        omega
    rw [hpoint, hl]
    exact if_pos hc

theorem tokenIndexAt?_eq_none_iff (ht : t.tokens.Pairwise Leaf.Precedes) :
    t.tokenIndexAt? offset = none ↔ ∀ l ∈ t.tokens, ¬l.span.contains offset = true := by
  rw [Option.eq_none_iff_forall_ne_some]
  constructor
  · intro h l hl hc
    obtain ⟨i, hi⟩ := hasAt_of_mem hl hc
    exact h i ((tokenIndexAt?_iff ht).mpr hi)
  · intro h i hi
    obtain ⟨l, hl, hc⟩ := (tokenIndexAt?_iff ht).mp hi
    exact h l (List.mem_of_getElem? hl) hc

/-- a token that contains an offset is between the first and the last one -/
theorem reaches_of_hasAt (ht : t.tokens.Pairwise Leaf.Precedes) (h : t.HasAt offset i) :
    t.Reaches offset := by
  obtain ⟨l, hl, hc⟩ := h
  have hl := List.mem_of_getElem? hl
  obtain ⟨hstart, hstop⟩ := (Span.contains_iff _ _).mp hc
  have hne := List.ne_nil_of_mem hl
  obtain ⟨first, hfirst⟩ := Option.ne_none_iff_exists'.mp fun h => hne (List.head?_eq_none_iff.mp h)
  obtain ⟨last, hlast⟩ := Option.ne_none_iff_exists'.mp fun h => hne (List.getLast?_eq_none_iff.mp h)
  exact ⟨first, last, hfirst, hlast, Nat.le_trans (Leaf.start_le_of_head? ht hfirst hl) hstart,
    Nat.lt_of_lt_of_le hstop (Leaf.stop_le_of_getLast? ht hlast hl)⟩

end Parsed

/-! ## down the tree -/

namespace Tree

variable {offset : Nat} {l : Leaf}

mutual

theorem leaf_or_parent : ∀ {t : Tree}, l ∈ t.leaves →
    t.leaf? = some l ∨ ∃ n ∈ t.nodes, l ∈ n.tokens
  | .leaf k, h => by
    rw [leaves, List.mem_singleton] at h
    exact .inl (congrArg some h.symm)
  | .node kind span children, h => by
    rw [leaves] at h
    rw [nodes]
    rcases leaf_or_parent_among h with h | ⟨n, hn, hl⟩
    · exact .inr ⟨_, List.mem_cons_self, h⟩
    · exact .inr ⟨n, List.mem_cons_of_mem _ hn, hl⟩

/-- A leaf of some trees is one of them, or directly in one of their nodes. -/
theorem leaf_or_parent_among : ∀ {ts : List Tree}, l ∈ leavesOf ts →
    l ∈ ts.filterMap leaf? ∨ ∃ n ∈ nodesOf ts, l ∈ n.tokens
  | [], h => by
    rw [leavesOf] at h
    cases h
  | t :: ts, h => by
    rw [leavesOf, List.mem_append] at h
    rw [nodesOf]
    rcases h with h | h
    · rcases leaf_or_parent h with h | ⟨n, hn, hl⟩
      · exact .inl (List.mem_filterMap.mpr ⟨t, List.mem_cons_self, h⟩)
      · exact .inr ⟨n, List.mem_append_left _ hn, hl⟩
    · rcases leaf_or_parent_among h with h | ⟨n, hn, hl⟩
      · obtain ⟨u, hu, hul⟩ := List.mem_filterMap.mp h
        exact .inl (List.mem_filterMap.mpr ⟨u, List.mem_cons_of_mem t hu, hul⟩)
      · exact .inr ⟨n, List.mem_append_right _ hn, hl⟩

end

theorem mem_leavesOf_of_leaf {ts : List Tree} (h : l ∈ ts.filterMap leaf?) : l ∈ leavesOf ts := by
  induction ts with
  | nil => cases h
  | cons t ts ih =>
    rw [leavesOf, List.mem_append]
    cases t with
    | leaf k =>
      rcases List.mem_cons.mp h with rfl | h
      · exact .inl (by rw [leaves]; exact List.mem_cons_self)
      · exact .inr (ih h)
    | node kind span children => exact .inr (ih h)

/-- a leaf directly in a node lies in its span -/
theorem Lies.span_of_token {n : Node} {a b : Nat} (hn : Lies n a b) (hl : l ∈ n.tokens) :
    a ≤ l.span.start ∧ l.span.stop ≤ b := by
  have hs := span_of_mem_leavesOf hn.tile (mem_leavesOf_of_leaf hl)
  exact ⟨Nat.le_trans hn.start hs.1, Nat.le_trans hs.2 hn.stop⟩

variable (hc : l.span.contains offset = true)
include hc

/-- Beside a leaf that contains the offset, no tree does. -/
theorem chainIn_beside_leaf {ts : List Tree} {a b : Nat} (ht : Tile ts a b)
    (hl : l ∈ ts.filterMap leaf?) : Node.chainIn offset ts = [] := by
  rw [Span.contains_iff] at hc
  induction ts generalizing a with
  | nil => cases hl
  | cons t ts ih =>
    rw [Tile] at ht
    obtain ⟨m, ht, hts⟩ := ht
    cases t with
    | leaf k =>
      rw [Node.chainIn]
      rcases List.mem_cons.mp hl with rfl | hl
      · have : l.span.stop = m := ht.ends.2
        rw [chainIn_eq hts]
        exact filter_nodesOf_eq_nil hts (.inl (by omega))
      · exact ih hts hl
    | node kind span children =>
      have hafter := (span_of_mem_leavesOf hts (mem_leavesOf_of_leaf hl)).1
      have hspan : ¬span.contains offset = true := by
        rw [Span.contains_iff]
        have : span.stop = m := ht.ends.2
        omega
      rw [Node.chainIn, if_neg hspan]
      exact ih hts hl

mutual

/-- The way down to an offset in a leaf ends with the node that the leaf is directly in. -/
theorem chain_ends_at_leaf : ∀ {t : Tree} {a b : Nat}, t.Spans a b → ∀ {n : Node}, n ∈ t.nodes →
    l ∈ n.tokens → (Node.chain offset t).getLast? = some n
  | .leaf _, _, _, _, n, hn, _ => by
    rw [nodes] at hn
    cases hn
  | .node kind span children, a, b, h, n, hn, hl => by
    rw [Spans] at h
    rw [nodes, List.mem_cons] at hn
    rw [Node.chain]
    rcases hn with rfl | hn
    · rw [chainIn_beside_leaf hc h.2 hl]
      rfl
    · rw [List.getLast?_cons, chainIn_ends_at_leaf h.2 hn hl]
      rfl

theorem chainIn_ends_at_leaf : ∀ {ts : List Tree} {a b : Nat}, Tile ts a b → ∀ {n : Node},
    n ∈ nodesOf ts → l ∈ n.tokens → (Node.chainIn offset ts).getLast? = some n
  | [], _, _, _, n, hn, _ => by
    rw [nodesOf] at hn
    cases hn
  | .leaf k :: ts, a, b, h, n, hn, hl => by
    rw [Tile] at h
    obtain ⟨m, -, hts⟩ := h
    rw [nodesOf, nodes, List.nil_append] at hn
    rw [Node.chainIn]
    exact chainIn_ends_at_leaf hts hn hl
  | .node kind span children :: ts, a, b, h, n, hn, hl => by
    rw [Tile] at h
    obtain ⟨m, ht, hts⟩ := h
    obtain ⟨hs, he⟩ : span.start = a ∧ span.stop = m := ht.ends
    obtain ⟨hstart, hstop⟩ := (Span.contains_iff _ _).mp hc
    rw [nodesOf, List.mem_append] at hn
    rw [Node.chainIn]
    rcases hn with hn | hn
    · have hin := (lies_of_mem_nodes ht hn).span_of_token hl
      rw [if_pos (by rw [Span.contains_iff]; omega)]
      exact chain_ends_at_leaf ht hn hl
    · have hafter := (lies_of_mem_nodesOf hts hn).span_of_token hl
      rw [if_neg (by rw [Span.contains_iff]; omega)]
      exact chainIn_ends_at_leaf hts hn hl

end

end Tree

/-! ## whole texts -/

section

variable (source : Text)

theorem tokens_pairwise : (parse source).tokens.Pairwise Leaf.Precedes := by
  show ((parse source).root.leaves.filter _).Pairwise Leaf.Precedes
  rw [parse_leaves]
  exact (Leaf.row_pairwise 0 _).filter _

theorem width_scan : Feed.width (scan source) = Text.byteSize source := by
  rw [Feed.width, scan_text]

variable {source} {offset : Nat}

/-- an offset of the text is in a token, or in a blank or comment -/
theorem exists_leaf_at (h : offset < Text.byteSize source) :
    ∃ l ∈ (parse source).root.leaves, l.span.contains offset = true := by
  rw [parse_leaves]
  exact Leaf.exists_mem_row (Nat.zero_le offset) (by rw [width_scan, Nat.zero_add]; exact h)

theorem no_token_at_iff : (∀ l ∈ (parse source).tokens, ¬l.span.contains offset = true)
    ↔ (parse source).tokens = [] ∨ Text.byteSize source ≤ offset
      ∨ ∃ l ∈ (parse source).root.leaves, l.isTrivia = true ∧ l.span.contains offset = true := by
  constructor
  · intro h
    rcases Nat.lt_or_ge offset (Text.byteSize source) with hlt | hge
    · obtain ⟨l, hl, hc⟩ := exists_leaf_at hlt
      refine .inr (.inr ⟨l, hl, ?_, hc⟩)
      by_contra ht
      exact h l (List.mem_filter.mpr ⟨hl, by simpa using ht⟩) hc
    · exact .inr (.inl hge)
  · intro h l hl hc
    have hrow : l ∈ Leaf.row 0 (scan source) := by
      rw [← parse_leaves]
      exact List.mem_of_mem_filter hl
    rcases h with h | h | ⟨k, hk, ht, hkc⟩
    · rw [h] at hl
      cases hl
    · have hstop := Leaf.stop_of_mem_row hrow
      rw [width_scan, Nat.zero_add] at hstop
      rw [Span.contains_iff] at hc
      omega
    · rw [parse_leaves] at hk
      rw [Leaf.eq_of_contains (Leaf.row_pairwise 0 _) hk hrow hkc hc] at ht
      have hs := (List.mem_filter.mp hl).2
      rw [ht] at hs
      cases hs

/-- The path to an offset in a token ends with the only node that the token is directly in. -/
theorem Path.innermost?_of_hasAt {i : Nat} (h : (parse source).HasAt offset i) :
    ∃ l n, (parse source).tokens[i]? = some l ∧ (Path.around (parse source) offset).innermost? = some n
      ∧ n ∈ (parse source).root.descendants ∧ l ∈ n.tokens
      ∧ ∀ m ∈ (parse source).root.descendants, l ∈ m.tokens → m = n := by
  have hreach := Parsed.reaches_of_hasAt (tokens_pairwise source) h
  obtain ⟨l, hl, hc⟩ := h
  obtain ⟨size, hspans⟩ := rootOf_spans (scan source)
  have hspans : (parse source).root.tree.Spans 0 size := hspans
  have hleaf : l ∈ (parse source).root.tree.leaves :=
    List.mem_of_mem_filter (List.mem_of_getElem? hl)
  have hends : ∀ m ∈ (parse source).root.descendants, l ∈ m.tokens →
      (Path.around (parse source) offset).innermost? = some m := by
    intro m hm hlm
    rw [Path.innermost?, Path.nodes_around hreach]
    exact Tree.chain_ends_at_leaf hc hspans hm hlm
  obtain ⟨n, hn, hln⟩ := (Tree.leaf_or_parent hleaf).resolve_left fun h => by cases h
  refine ⟨l, n, hl, hends n hn hln, hn, hln, fun m hm hlm => ?_⟩
  have hsame := hends m hm hlm
  rw [hends n hn hln] at hsame
  exact (Option.some.inj hsame).symm

end

/-- The token at an offset, for every text and every offset. It is found, by its number, just if it
contains the offset, and no other token does. None is found just if the text has no tokens, or the offset
is past the end, or in a blank or comment. So the cursor is on the token of a number just if this number
is found for the cursor, and then the innermost node on the path to the cursor is the only node of the
tree that the token is directly in. -/
theorem FixContext.cursor_token_exact (source : Text) (offset : Nat) :
    (∀ i, (parse source).tokenIndexAt? offset = some i ↔ (parse source).HasAt offset i)
      ∧ (∀ i j, (parse source).HasAt offset i → (parse source).HasAt offset j → i = j)
      ∧ ((parse source).tokenIndexAt? offset = none ↔ (parse source).tokens = []
          ∨ Text.byteSize source ≤ offset
          ∨ ∃ l ∈ (parse source).root.leaves, l.isTrivia = true ∧ l.span.contains offset = true)
      ∧ ∀ c : FixContext, c.parsed = parse source → c.cursor = offset →
          (∀ i, c.isOnToken i = true ↔ c.tokenIndex? = some i)
          ∧ ∀ i, c.tokenIndex? = some i → ∃ l n, (parse source).tokens[i]? = some l
              ∧ c.path.innermost? = some n ∧ n ∈ (parse source).root.descendants ∧ l ∈ n.tokens
              ∧ ∀ m ∈ (parse source).root.descendants, l ∈ m.tokens → m = n := by
  have htokens := tokens_pairwise source
  refine ⟨fun i => Parsed.tokenIndexAt?_iff htokens, fun i j => Parsed.HasAt.unique htokens,
    (Parsed.tokenIndexAt?_eq_none_iff htokens).trans no_token_at_iff, ?_⟩
  rintro c hp rfl
  refine ⟨fun i => ?_, fun i hi => ?_⟩
  · rw [tokenIndex?, isOnToken, hp, Parsed.tokenIndexAt?_iff htokens]
    cases hl : (parse source).tokens[i]? with
    | none => simp [Parsed.HasAt, hl]
    | some l => simp [Parsed.HasAt, hl]
  · rw [tokenIndex?, hp, Parsed.tokenIndexAt?_iff htokens] at hi
    rw [path, hp]
    exact Path.innermost?_of_hasAt hi

/-- the cursor right before the name of a variable -/
theorem FixContext.cursor_token_exact_name : ∃ c : FixContext, c.parsed = parse "int x;".toList
    ∧ c.cursor = 4 ∧ c.tokenIndex? = some 1 ∧ c.isOnToken 1 = true
    ∧ ∃ l n, (parse "int x;".toList).tokens[1]? = some l ∧ c.path.innermost? = some n ∧ l ∈ n.tokens
      ∧ ∀ m ∈ (parse "int x;".toList).root.descendants, l ∈ m.tokens → m = n := by
  let c : FixContext := { (default : FixContext) with parsed := parse "int x;".toList, cursor := 4 }
  have hi : c.tokenIndex? = some 1 := by decide +kernel
  obtain ⟨-, -, -, hcursor⟩ := cursor_token_exact "int x;".toList 4
  obtain ⟨hon, hpath⟩ := hcursor c rfl rfl
  obtain ⟨l, n, hl, hn, -, hln, honly⟩ := hpath 1 hi
  exact ⟨c, rfl, rfl, hi, (hon 1).mpr hi, l, n, hl, hn, hln, honly⟩

end CppMend
