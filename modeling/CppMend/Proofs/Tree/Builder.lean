import CppMend.Parsed
import CppMend.Proofs.Tree.Leaves

/-!
# Building a tree step by step

A `Builder` goes through the tokens of a text one by one, blanks and comments included, and keeps
the nodes that are begun on a stack. Whatever a step needs is checked: a stretch of tokens has to
exist, a count must not go below zero, a node can only start behind the start of the one around it,
and only a node that was begun can be finished. Where a check fails, the step ends in a `Fault`.

* `Builder.skip`, `bump`              blanks and comments, and one significant token after them;
* `Builder.startAt`, `finish`         the start and the end of a node;
* `Builder.look`                      the cues ahead, read off the tokens by their numbers;
* `Builder.look_eq`                   looking ahead never faults and sees the cues of the text.
-/

namespace CppMend

/-- what ends the building of a tree before its time -/
inductive Fault where
  /-- the budget is spent -/
  | budget
  /-- a stretch of tokens that does not exist -/
  | slice
  /-- a count below zero -/
  | depth
  /-- a node cannot start there -/
  | start
  /-- there is no node to finish -/
  | finish
  /-- something else than one node is left at the end -/
  | remains
  deriving DecidableEq, Repr

structure Builder where
  /-- all tokens of the text -/
  tokens : List Token
  /-- how many of them are taken -/
  place : Nat
  /-- the nodes that are begun, inner ones first, each with the number of parts before it -/
  begun : List (NodeKind × Nat)
  parts : List Tree
  deriving Repr

/-! ## checked look-ahead -/

namespace Lookahead

/-- The count of open argument lists goes below zero before it is decided where the first one
ends. -/
def underflows : Nat → List Cue → Bool
  | _, [] => false
  | depth, c :: rest =>
    if c.kind = .less then underflows (depth + 1) rest
    else if c.kind = .greater then
      if depth = 0 then true else if depth = 1 then false else underflows (depth - 1) rest
    else if c.kind = .rightShift then
      if depth ≤ 2 then false else underflows (depth - 2) rest
    else if breaksArguments c.kind then false
    else underflows depth rest

/-- no count that starts at a `<` goes below zero -/
def countsHold : List Cue → Bool
  | [] => true
  | c :: rest => !(c.kind = .less && underflows 0 (c :: rest)) && countsHold rest

/-- A count goes down to zero only where it ends. -/
theorem underflows_succ (depth : Nat) (s : List Cue) : underflows (depth + 1) s = false := by
  induction s generalizing depth with
  | nil => rfl
  | cons c s ih =>
    rw [underflows]
    split
    · exact ih (depth + 1)
    · split
      · rw [if_neg (Nat.succ_ne_zero depth)]
        split
        · rfl
        · next h =>
          obtain ⟨d, rfl⟩ : ∃ d, depth = d + 1 := ⟨depth - 1, by omega⟩
          exact ih d
      · split
        · split
          · rfl
          · next h =>
            obtain ⟨d, rfl⟩ : ∃ d, depth = d + 2 := ⟨depth - 2, by omega⟩
            exact ih d
        · split
          · rfl
          · exact ih depth

theorem countsHold_eq_true (s : List Cue) : countsHold s = true := by
  induction s with
  | nil => rfl
  | cons c s ih =>
    rw [countsHold, ih, Bool.and_true]
    cases h : decide (c.kind = .less) with
    | false => rfl
    | true =>
      rw [underflows, if_pos (of_decide_eq_true h), underflows_succ]
      rfl

end Lookahead

namespace Token

/-- whether a line feed stands between two places of a list of tokens -/
def breaksBetween (ts : List Token) (start stop : Nat) : Except Fault Bool :=
  if start ≤ stop ∧ stop ≤ ts.length then .ok (((ts.take stop).drop start).any (·.breaksLine))
  else .error .slice

/-- the last significant token before a place -/
def previous? (ts : List Token) : Nat → Option Nat
  | 0 => none
  | i + 1 => if (ts[i]?.map (·.isTrivia)) = some false then some i else previous? ts i

/-- whether the token at a place starts a line -/
def startsLine (ts : List Token) (i : Nat) : Except Fault Bool :=
  match previous? ts i with
  | none => .ok true
  | some p => breaksBetween ts (p + 1) i

/-- the cues of some tokens, which follow `i` others in the list of all -/
def cuesAt (all : List Token) : Nat → List Token → Except Fault (List Cue)
  | _, [] => .ok []
  | i, t :: ts =>
    if t.isTrivia then cuesAt all (i + 1) ts
    else do
      let fresh ← startsLine all i
      let cs ← cuesAt all (i + 1) ts
      .ok (⟨t.kind, fresh, t.mark⟩ :: cs)

/-! ## what is seen -/

/-- whether a new line has begun after some tokens, where `fresh` says it of the place before -/
def freshAfter (fresh : Bool) : List Token → Bool
  | [] => fresh
  | t :: ts => freshAfter (if t.isTrivia then fresh || t.breaksLine else false) ts

theorem freshAfter_append (fresh : Bool) (ts us : List Token) :
    freshAfter fresh (ts ++ us) = freshAfter (freshAfter fresh ts) us := by
  induction ts generalizing fresh with
  | nil => rfl
  | cons t ts ih => exact ih _

theorem cuesFrom_append (fresh : Bool) (ts us : List Token) :
    cuesFrom fresh (ts ++ us) = cuesFrom fresh ts ++ cuesFrom (freshAfter fresh ts) us := by
  induction ts generalizing fresh with
  | nil => rfl
  | cons t ts ih =>
    rw [List.cons_append, cuesFrom, cuesFrom, freshAfter]
    cases t.isTrivia with
    | true => exact ih _
    | false => exact congrArg (List.cons _) (ih _)

theorem previous?_lt {ts : List Token} {i p : Nat} (h : previous? ts i = some p) : p < i := by
  induction i with
  | zero => cases h
  | succ i ih =>
    rw [previous?] at h
    split at h
    · rw [Option.some.injEq] at h
      omega
    · exact Nat.lt_succ_of_lt (ih h)

/-- A token's number tells whether it starts a line, and no slice is out of bounds. -/
theorem startsLine_eq {ts : List Token} {i : Nat} (hi : i ≤ ts.length) :
    startsLine ts i = .ok (freshAfter true (ts.take i)) := by
  induction i with
  | zero => rfl
  | succ i ih =>
    have hlt : i < ts.length := hi
    have ht : ts.take (i + 1) = ts.take i ++ [ts[i]] := (List.take_append_getElem hlt).symm
    rw [ht, freshAfter_append, startsLine, previous?, List.getElem?_eq_getElem hlt]
    have ih := ih (Nat.le_of_lt hlt)
    show (match (if (some ts[i].isTrivia) = some false then some i else previous? ts i) with
      | none => Except.ok true
      | some p => breaksBetween ts (p + 1) (i + 1)) = _
    cases hb : ts[i].isTrivia with
    | false =>
      rw [if_pos rfl]
      show breaksBetween ts (i + 1) (i + 1) = _
      rw [breaksBetween, if_pos ⟨Nat.le_refl _, hi⟩, List.drop_eq_nil_of_le (List.length_take_le ..),
        freshAfter, freshAfter, hb]
      rfl
    | true =>
      rw [if_neg (by decide), freshAfter, freshAfter, hb, if_pos rfl]
      rw [startsLine] at ih
      cases hp : previous? ts i with
      | none =>
        rw [hp] at ih
        rw [← Except.ok.inj ih]
        rfl
      | some p =>
        have hpi := previous?_lt hp
        rw [hp] at ih
        have ih : breaksBetween ts (p + 1) i = _ := ih
        rw [breaksBetween, if_pos ⟨hpi, Nat.le_of_lt hlt⟩] at ih
        show breaksBetween ts (p + 1) (i + 1) = _
        rw [breaksBetween, if_pos ⟨Nat.le_succ_of_le hpi, hi⟩, ht,
          List.drop_append_of_le_length (by rw [List.length_take]; omega), List.any_append,
          Except.ok.inj ih, List.any_cons, List.any_nil, Bool.or_false]

theorem cuesAt_eq (all past ts : List Token) (h : all = past ++ ts) :
    cuesAt all past.length ts = .ok (cuesFrom (freshAfter true past) ts) := by
  induction ts generalizing past with
  | nil => rfl
  | cons t ts ih =>
    have ih := ih (past ++ [t]) (by rw [h, List.append_assoc]; rfl)
    rw [List.length_append, freshAfter_append] at ih
    have ih : cuesAt all (past.length + 1) ts
      = .ok (cuesFrom (if t.isTrivia then freshAfter true past || t.breaksLine else false) ts) := ih
    rw [cuesAt, cuesFrom]
    cases hb : t.isTrivia with
    | true =>
      rw [hb] at ih
      exact ih
    | false =>
      rw [hb] at ih
      have hl : past.length ≤ all.length := by
        rw [h, List.length_append]
        omega
      rw [if_neg Bool.false_ne_true, if_neg Bool.false_ne_true, startsLine_eq hl, ih, h,
        List.take_left]
      rfl

end Token

/-! ## steps -/

/-- the number of bytes of some trees, which their leaves add up to -/
def Tree.widthOf (ts : List Tree) : Nat := Text.byteSize ((Tree.leavesOf ts).flatMap (·.text))

namespace Builder

/-- the tokens that are still to be taken -/
def feed (b : Builder) : Feed := ⟨b.tokens.drop b.place, Feed.width (b.tokens.take b.place)⟩

/-- takes `n` tokens as they are -/
def advance (n : Nat) (b : Builder) : Builder :=
  let taken := b.feed.tokens.take n
  { b with place := b.place + taken.length, parts := b.parts ++ Feed.leaves b.feed.offset taken }

/-- takes the blanks and comments that come first -/
def skip (b : Builder) : Builder := b.advance (b.feed.tokens.takeWhile (·.isTrivia)).length

/-- takes one significant token, and the blanks and comments before it -/
def bump (b : Builder) : Builder := b.skip.advance 1

def bumps : Nat → Builder → Builder
  | 0, b => b
  | n + 1, b => bumps n b.bump

/-- starts a node that takes in the parts from number `mark` on -/
def startAt (mark : Nat) (kind : NodeKind) (b : Builder) : Except Fault Builder :=
  if mark ≤ b.parts.length ∧ ∀ e ∈ b.begun.head?, e.2 ≤ mark then
    .ok { b with begun := (kind, mark) :: b.begun }
  else .error .start

/-- finishes the node that was begun last; it spans what its leaves span -/
def finish (b : Builder) : Except Fault Builder :=
  match b.begun with
  | [] => .error .finish
  | (kind, mark) :: begun =>
    if mark ≤ b.parts.length then
      let children := b.parts.drop mark
      let stop := b.feed.offset
      .ok { b with
        begun
        parts := b.parts.take mark
          ++ [.node kind (Span.between (stop - Tree.widthOf children) stop) children] }
    else .error .finish

/-- the cues ahead, if every count in them holds -/
def look (b : Builder) : Except Fault (List Cue) := do
  let cs ← Token.cuesAt b.tokens b.place b.feed.tokens
  if Lookahead.countsHold cs then .ok cs else .error .depth

/-- the one node that is left when everything is finished -/
def done (b : Builder) : Except Fault Tree :=
  match b.begun, b.parts with
  | [], [.node kind span children] => .ok (.node kind span children)
  | _, _ => .error .remains

/-! ## sound builders -/

/-- The place is one of the text, and the node begun last takes in none but parts that are there. -/
structure Sound (b : Builder) : Prop where
  place : b.place ≤ b.tokens.length
  begun : ∀ e ∈ b.begun.head?, e.2 ≤ b.parts.length

/-- the cues ahead -/
def cues (b : Builder) : List Cue :=
  cuesFrom (Token.freshAfter true (b.tokens.take b.place)) b.feed.tokens

/-- Looking ahead never faults, and sees what is ahead in the text. -/
theorem look_eq {b : Builder} (h : b.Sound) : b.look = .ok b.cues := by
  have hl : (b.tokens.take b.place).length = b.place := by
    rw [List.length_take, Nat.min_eq_left h.place]
  have hc := Token.cuesAt_eq b.tokens _ _ (List.take_append_drop b.place b.tokens).symm
  rw [hl] at hc
  have hc : Token.cuesAt b.tokens b.place b.feed.tokens = .ok b.cues := hc
  rw [look, hc]
  show (if Lookahead.countsHold b.cues = true then Except.ok b.cues else .error Fault.depth) = _
  rw [if_pos (Lookahead.countsHold_eq_true _)]

/-! ## growing by outlines -/

/-- A later state of a builder, which has grown by the trees of some outlines and has begun and
finished its nodes in turn. -/
structure Grown (b : Builder) (os : List Outline) (b' : Builder) : Prop where
  tokens : b'.tokens = b.tokens
  begun : b'.begun = b.begun
  parts : b'.parts = b.parts ++ (Outline.placeAll os b.feed).1
  feed : b'.feed = (Outline.placeAll os b.feed).2
  place : b'.place ≤ b'.tokens.length

namespace Grown

variable {b b' b'' : Builder} {os ps : List Outline}

theorem append (h : b.Grown os b') (h' : b'.Grown ps b'') : b.Grown (os ++ ps) b'' := by
  refine ⟨h'.tokens.trans h.tokens, h'.begun.trans h.begun, ?_, ?_, h'.place⟩
  · rw [h'.parts, h.parts, h.feed, Outline.placeAll_append, List.append_assoc]
  · rw [h'.feed, h.feed, Outline.placeAll_append]

theorem refl (h : b.Sound) : b.Grown [] b := by
  refine ⟨rfl, rfl, ?_, rfl, h.place⟩
  rw [Outline.placeAll, List.append_nil]

theorem sound (hb : b.Sound) (h : b.Grown os b') : b'.Sound := by
  refine ⟨h.place, ?_⟩
  intro e he
  rw [h.begun] at he
  rw [h.parts, List.length_append]
  exact Nat.le_trans (hb.begun e he) (Nat.le_add_right _ _)

/-- The cues after some outlines are the ones ahead without those that the outlines group. -/
theorem cues_eq (h : b.Grown os b') (hle : Outline.sizes os ≤ b.cues.length) :
    b'.cues = b.cues.drop (Outline.sizes os) := by
  obtain ⟨taken, ht, _, _, hn⟩ := Outline.placeAll_gives os b.feed
  rw [← h.feed] at ht
  have htake : b'.tokens.take b'.place = b.tokens.take b.place ++ taken := by
    have he : b'.tokens.take b'.place ++ b'.feed.tokens
        = (b.tokens.take b.place ++ taken) ++ b'.feed.tokens := by
      rw [List.append_assoc, ← ht]
      show _ ++ b'.tokens.drop b'.place = _ ++ b.tokens.drop b.place
      rw [List.take_append_drop, List.take_append_drop, h.tokens]
    exact List.append_cancel_right he
  have hc : b.cues = cuesFrom (Token.freshAfter true (b.tokens.take b.place)) taken ++ b'.cues := by
    rw [cues, cues, htake, Token.freshAfter_append, ← Token.cuesFrom_append, ← ht]
  have hlen : (cuesFrom (Token.freshAfter true (b.tokens.take b.place)) taken).length
      = Outline.sizes os := by
    rw [cues, cuesFrom_length] at hle
    rw [cuesFrom_length, hn, Nat.min_eq_left hle]
  rw [hc, ← hlen, List.drop_left]

end Grown

/-! ## what steps do -/

theorem feed_advance (n : Nat) (b : Builder) : (b.advance n).feed
    = ⟨b.feed.tokens.drop n, b.feed.offset + Feed.width (b.feed.tokens.take n)⟩ := by
  have hd : b.tokens.drop (b.place + (b.feed.tokens.take n).length) = b.feed.tokens.drop n := by
    rw [← List.drop_drop]
    show b.feed.tokens.drop (b.feed.tokens.take n).length = b.feed.tokens.drop n
    rw [List.length_take]
    rcases Nat.le_total n b.feed.tokens.length with h | h
    · rw [Nat.min_eq_left h]
    · rw [Nat.min_eq_right h, List.drop_length, List.drop_eq_nil_of_le h]
  have ht : b.tokens.take (b.place + (b.feed.tokens.take n).length)
      = b.tokens.take b.place ++ b.feed.tokens.take n := by
    rw [List.take_add]
    show _ ++ b.feed.tokens.take (b.feed.tokens.take n).length = _
    rw [List.length_take]
    rcases Nat.le_total n b.feed.tokens.length with h | h
    · rw [Nat.min_eq_left h]
    · rw [Nat.min_eq_right h, List.take_length, List.take_of_length_le h]
  show Feed.mk (b.tokens.drop (b.place + (b.feed.tokens.take n).length))
    (Feed.width (b.tokens.take (b.place + (b.feed.tokens.take n).length))) = _
  rw [hd, ht, Feed.width_append]
  rfl

theorem place_advance_le {n : Nat} {b : Builder} (h : b.place ≤ b.tokens.length) :
    (b.advance n).place ≤ (b.advance n).tokens.length := by
  show b.place + ((b.tokens.drop b.place).take n).length ≤ b.tokens.length
  rw [List.length_take, List.length_drop]
  omega

theorem take_blanks (ts : List Token) :
    ts.take (ts.takeWhile (·.isTrivia)).length = ts.takeWhile (·.isTrivia) :=
  (List.prefix_iff_eq_take.mp (List.takeWhile_prefix _)).symm

theorem drop_blanks (ts : List Token) :
    ts.drop (ts.takeWhile (·.isTrivia)).length = ts.dropWhile (·.isTrivia) := by
  have h : (ts.takeWhile (·.isTrivia) ++ ts.dropWhile (·.isTrivia)).drop
      (ts.takeWhile (·.isTrivia)).length = ts.dropWhile (·.isTrivia) := List.drop_left
  rw [List.takeWhile_append_dropWhile] at h
  exact h

theorem feed_skip (b : Builder) : b.skip.feed = b.feed.takeBlanks.2 := by
  rw [skip, feed_advance, take_blanks, drop_blanks]
  rfl

theorem parts_skip (b : Builder) : b.skip.parts = b.parts ++ b.feed.takeBlanks.1 := by
  show b.parts ++ Feed.leaves b.feed.offset (b.feed.tokens.take _) = _
  rw [take_blanks]
  rfl

theorem skip_grown {b : Builder} (hb : b.Sound) : b.Grown [.blank] b.skip := by
  refine ⟨rfl, rfl, ?_, ?_, place_advance_le hb.place⟩
  · rw [parts_skip, Outline.placeAll_singleton, Outline.place_blank]
  · rw [feed_skip, Outline.placeAll_singleton, Outline.place_blank]

theorem bump_grown {b : Builder} (hb : b.Sound) : b.Grown [.token] b.bump := by
  refine ⟨rfl, rfl, ?_, ?_, place_advance_le (place_advance_le hb.place)⟩
  · show b.skip.parts ++ (b.skip.feed.takeOne).1 = _
    rw [parts_skip, feed_skip, List.append_assoc, Outline.placeAll_singleton, Outline.place_token]
  · show (b.skip.advance 1).feed = _
    rw [feed_advance, feed_skip, Outline.placeAll_singleton, Outline.place_token]
    rfl

theorem bumps_grown {b : Builder} (hb : b.Sound) (n : Nat) :
    b.Grown (List.replicate n .token) (bumps n b) := by
  induction n generalizing b with
  | zero => exact Grown.refl hb
  | succ n ih =>
    have h := bump_grown hb
    exact h.append (ih (h.sound hb))

/-- At the end of the text, a step for one token takes the blanks there. -/
theorem bump_grown_blank {b : Builder} (hb : b.Sound) (h : b.cues = []) :
    b.Grown [.blank] b.bump := by
  have hz : Token.significant b.feed.tokens = 0 := by
    rw [← cuesFrom_length, ← cues, h]
    rfl
  have hs : b.skip.feed.tokens = [] := by
    rw [feed_skip]
    exact Token.dropWhile_eq_nil hz
  have hg := skip_grown hb
  have ha : b.bump = b.skip := by
    show b.skip.advance 1 = b.skip
    rw [advance, hs]
    show Builder.mk _ _ _ (b.skip.parts ++ []) = _
    rw [List.append_nil]
    rfl
  rw [ha]
  exact hg

end Builder

/-! ## blanks before a node -/

namespace Feed

/-- a feed whose next token is significant, or that is at its end -/
def Fresh (f : Feed) : Prop := f.takeBlanks = ([], f)

theorem fresh_takeBlanks (f : Feed) : f.takeBlanks.2.Fresh := by
  have h : (f.tokens.dropWhile (·.isTrivia)).takeWhile (·.isTrivia) = [] := by
    cases hd : f.tokens.dropWhile (·.isTrivia) with
    | nil => rfl
    | cons t ts =>
      rw [List.takeWhile_cons, Token.isTrivia_of_dropWhile hd]
      rfl
  have h' : (f.tokens.dropWhile (·.isTrivia)).dropWhile (·.isTrivia)
      = f.tokens.dropWhile (·.isTrivia) := by
    have := Builder.drop_blanks (f.tokens.dropWhile (·.isTrivia))
    rw [h] at this
    exact this.symm
  show ((leaves _ ((f.tokens.dropWhile (·.isTrivia)).takeWhile (·.isTrivia)),
    Feed.mk ((f.tokens.dropWhile (·.isTrivia)).dropWhile (·.isTrivia))
      (_ + width ((f.tokens.dropWhile (·.isTrivia)).takeWhile (·.isTrivia))))
    : List Tree × Feed) = _
  rw [h, h']
  rfl

end Feed

namespace Outline

/-- Blanks go before an outline in any case, so they may be taken first. -/
theorem place_takeBlanks (o : Outline) (f : Feed) : o.place f
    = (f.takeBlanks.1 ++ (o.place f.takeBlanks.2).1, (o.place f.takeBlanks.2).2) := by
  have h := Feed.fresh_takeBlanks f
  rw [Feed.Fresh] at h
  cases o with
  | token =>
    rw [place_token, place_token, h]
    rfl
  | blank =>
    rw [place_blank, place_blank, h, List.append_nil]
  | node kind parts =>
    rw [place_node, place_node, h]
    rfl

theorem placeAll_takeBlanks {os : List Outline} (hos : os ≠ []) (f : Feed) : placeAll os f
    = (f.takeBlanks.1 ++ (placeAll os f.takeBlanks.2).1, (placeAll os f.takeBlanks.2).2) := by
  cases os with
  | nil => exact absurd rfl hos
  | cons o os =>
    rw [placeAll_cons, placeAll_cons, place_takeBlanks, List.append_assoc]

/-- a node behind which there are no blanks to be taken first -/
theorem place_node_of_fresh (kind : NodeKind) (os : List Outline) {f : Feed} (h : f.Fresh) :
    (Outline.node kind os).place f
      = ([.node kind (Span.between f.offset (placeAll os f).2.offset) (placeAll os f).1],
        (placeAll os f).2) := by
  rw [Feed.Fresh] at h
  rw [place_node, h]
  rfl

/-- the bytes of what is placed -/
theorem offset_placeAll (os : List Outline) (f : Feed) :
    (placeAll os f).2.offset = f.offset + Tree.widthOf (placeAll os f).1 := by
  obtain ⟨taken, _, ho, hl, _⟩ := placeAll_gives os f
  rw [ho, Tree.widthOf, hl, Leaf.flatMap_text_row]
  rfl

end Outline

namespace Builder

/-- What has grown behind blanks has grown behind the place before the blanks. -/
theorem Grown.of_skip {b b' : Builder} {os : List Outline} (hos : os ≠ [])
    (h : b.skip.Grown os b') : b.Grown os b' := by
  have hp := Outline.placeAll_takeBlanks hos b.feed
  refine ⟨h.tokens, h.begun, ?_, ?_, h.place⟩
  · rw [h.parts, parts_skip, feed_skip, hp, List.append_assoc]
  · rw [h.feed, feed_skip, hp]

/-- begins a node that takes in the parts from number `mark` on, whatever the parts are -/
def push (mark : Nat) (kind : NodeKind) (b : Builder) : Builder :=
  { b with begun := (kind, mark) :: b.begun }

theorem Grown.push {b b' : Builder} {os : List Outline} (h : b.Grown os b') (mark : Nat)
    (kind : NodeKind) : (b.push mark kind).Grown os (b'.push mark kind) :=
  ⟨h.tokens, congrArg (List.cons (kind, mark)) h.begun, h.parts, h.feed, h.place⟩

theorem sound_push {b : Builder} (hb : b.Sound) {mark : Nat} (hm : mark ≤ b.parts.length)
    (kind : NodeKind) : (b.push mark kind).Sound := by
  refine ⟨hb.place, ?_⟩
  intro e he
  have he : (kind, mark) = e := Option.some.inj he
  rw [← he]
  exact hm

/-- A node may start where a sound builder was before it grew. -/
theorem startAt_eq {b b' : Builder} {os : List Outline} (hb : b.Sound) (h : b.Grown os b')
    (kind : NodeKind) :
    b'.startAt b.parts.length kind = .ok (b'.push b.parts.length kind) := by
  refine if_pos ⟨?_, ?_⟩
  · rw [h.parts, List.length_append]
    exact Nat.le_add_right _ _
  · intro e he
    rw [h.begun] at he
    exact hb.begun e he

/-- A node that is finished takes in all that has grown since it was begun. -/
theorem finish_eq {b b' : Builder} {kind : NodeKind} {os : List Outline}
    (h : (b.push b.parts.length kind).Grown os b') :
    b'.finish = .ok ⟨b.tokens, b'.place, b.begun, b.parts ++ [.node kind
      (Span.between b.feed.offset (Outline.placeAll os b.feed).2.offset)
      (Outline.placeAll os b.feed).1]⟩ := by
  have hp : b'.parts = b.parts ++ (Outline.placeAll os b.feed).1 := h.parts
  have hf : b'.feed = (Outline.placeAll os b.feed).2 := h.feed
  have hl : b.parts.length ≤ b'.parts.length := by
    rw [hp, List.length_append]
    exact Nat.le_add_right _ _
  have hw : (Outline.placeAll os b.feed).2.offset
      - Tree.widthOf (Outline.placeAll os b.feed).1 = b.feed.offset := by
    rw [Outline.offset_placeAll]
    exact Nat.add_sub_cancel _ _
  rw [finish, h.begun]
  show (if b.parts.length ≤ b'.parts.length then Except.ok (Builder.mk b'.tokens b'.place b.begun
    (b'.parts.take b.parts.length ++ [.node kind (Span.between
      (b'.feed.offset - Tree.widthOf (b'.parts.drop b.parts.length)) b'.feed.offset)
      (b'.parts.drop b.parts.length)])) else .error Fault.finish) = _
  rw [if_pos hl, hp, List.drop_left, List.take_left, hf, hw, h.tokens]
  rfl

/-- A node that is begun at a fresh place and finished has grown by its outline. -/
theorem finish_grown {b b' : Builder} {kind : NodeKind} {os : List Outline} (hf : b.feed.Fresh)
    (h : (b.push b.parts.length kind).Grown os b') :
    ∃ b'', b'.finish = .ok b'' ∧ b.Grown [.node kind os] b'' := by
  have hn := Outline.place_node_of_fresh kind os hf
  refine ⟨_, finish_eq h, rfl, rfl, ?_, ?_, ?_⟩
  · rw [Outline.placeAll_singleton, hn]
  · rw [Outline.placeAll_singleton, hn]
    have hfeed : b'.feed = (Outline.placeAll os b.feed).2 := h.feed
    rw [← hfeed]
    show Feed.mk (b.tokens.drop b'.place) (Feed.width (b.tokens.take b'.place)) = b'.feed
    rw [feed, h.tokens]
    rfl
  · have := h.place
    rw [h.tokens] at this
    exact this

/-! ## the cues along the way -/

theorem cues_push (mark : Nat) (kind : NodeKind) (b : Builder) : (b.push mark kind).cues = b.cues :=
  rfl

theorem cues_skip {b : Builder} (hb : b.Sound) : b.skip.cues = b.cues :=
  (skip_grown hb).cues_eq (Nat.zero_le _)

/-- A token is taken in the same way by its cue. -/
theorem bump_grown_cues {b : Builder} (hb : b.Sound) :
    b.Grown (Action.token b.cues).built b.bump := by
  cases hs : b.cues with
  | nil => exact bump_grown_blank hb hs
  | cons c s => exact bump_grown hb

theorem place_eq {b : Builder} (h : b.place ≤ b.tokens.length) :
    b.place = b.tokens.length - b.feed.tokens.length := by
  show b.place = b.tokens.length - (b.tokens.drop b.place).length
  rw [List.length_drop]
  omega

/-- The place goes on where a token is taken. -/
theorem Grown.place_ne {b b' : Builder} {os : List Outline} (h : b.Grown os b')
    (hs : 0 < Outline.sizes os) (hle : Outline.sizes os ≤ b.cues.length) :
    b'.place ≠ b.place := by
  intro he
  have hc := h.cues_eq hle
  have hsame : b'.cues = b.cues := by
    show cuesFrom (Token.freshAfter true (b'.tokens.take b'.place)) (b'.tokens.drop b'.place) = _
    rw [he, h.tokens]
    rfl
  rw [hsame] at hc
  have := congrArg List.length hc
  rw [List.length_drop] at this
  omega

theorem Grown.place_of_nil {b b' : Builder} (hb : b.Sound) (h : b.Grown [] b') :
    b'.place = b.place := by
  have hf : b'.feed = b.feed := h.feed
  rw [place_eq h.place, place_eq hb.place, hf, h.tokens]

/-- Where no token is ahead, any outline takes the blanks there, and a second one takes nothing. -/
theorem Grown.blank_of_spent {b b' : Builder} {os : List Outline} (h : b.Grown os b')
    (hos : os ≠ []) (hs : b.cues = []) : b'.Grown [.blank] b' := by
  have hz : Token.significant b.feed.tokens = 0 := by
    rw [← cuesFrom_length, ← cues, hs]
    rfl
  have he : b.feed.takeBlanks.2.tokens = [] := Token.dropWhile_eq_nil hz
  have hr : b'.feed.tokens = [] := by
    obtain ⟨taken, ht, _, _, _⟩ := Outline.placeAll_gives os b.feed.takeBlanks.2
    rw [he] at ht
    rw [h.feed, Outline.placeAll_takeBlanks hos]
    exact (List.append_eq_nil_iff.mp ht.symm).2
  have hb : b'.feed.takeBlanks = ([], b'.feed) := by
    rw [Feed.takeBlanks, hr]
    show (([], ⟨[], b'.feed.offset⟩) : List Tree × Feed) = _
    rw [← hr]
  refine ⟨rfl, rfl, ?_, ?_, h.place⟩
  · rw [Outline.placeAll_singleton, Outline.place_blank, hb, List.append_nil]
  · rw [Outline.placeAll_singleton, Outline.place_blank, hb]

end Builder

end CppMend
