import CppMend.Proofs.Grammar.ArgumentLists
import CppMend.Proofs.Grammar.ArgumentSearch
import CppMend.Proofs.Grammar.Stretches
import CppMend.Proofs.Tree.Moved
import CppMend.Proofs.Tree.Progress
import CppMend.Proofs.Tree.Shapes

/-!
# Taking tokens as they are

Groups and stretches are taken without a look inside, one token after the other. What follows says up to
where, wherever a builder is among the tokens of a text, and whatever these are.

* `Builder.Takes`                a builder goes on by some significant tokens, and by nothing after them;
* `Builder.takes_bumps`          steps for single tokens do so, and so does what follows an outcome of
                                 single tokens (`takes_of_follows`);
* `Builder.argument_lists_end`   lookahead and the group that is taken end an argument list with one token;
* `Builder.stretch_exact`        skipping to a `;` takes just a stretch, so it stays inside of the braces
                                 around it.
-/

namespace CppMend

namespace Builder

open Lookahead

variable {b b₁ b₂ : Builder} {n m : Nat}

/-- The builder goes on by just `n` significant tokens, with the blanks and comments before each of them
and none after the last. All of these become leaves side by side, and no node is begun or finished. -/
def Takes (b : Builder) (n : Nat) (b' : Builder) : Prop :=
  ∃ taken, taken <+: b.feed.tokens ∧ Token.significant taken = n
    ∧ (∀ t ∈ taken.getLast?, t.isTrivia = false) ∧ b' = b.advance taken.length

/-! ## steps for single tokens -/

theorem advance_advance (n m : Nat) (b : Builder) : (b.advance n).advance m = b.advance (n + m) := by
  rw [advance, feed_advance]
  show Builder.mk b.tokens (b.place + (b.feed.tokens.take n).length + ((b.feed.tokens.drop n).take m).length)
    b.begun (b.parts ++ Feed.leaves b.feed.offset (b.feed.tokens.take n) ++ _) = _
  rw [advance, List.take_add, Feed.leaves_append, List.length_append, Nat.add_assoc, List.append_assoc]

theorem takes_zero (b : Builder) : b.Takes 0 b := by
  refine ⟨[], List.nil_prefix, rfl, nofun, ?_⟩
  show b = Builder.mk b.tokens b.place b.begun (b.parts ++ [])
  rw [List.append_nil]

/-- what is left after some tokens are taken -/
theorem feed_split {taken : List Token} (h : taken <+: b.feed.tokens) :
    b.feed.tokens = taken ++ (b.advance taken.length).feed.tokens := by
  rw [feed_advance]
  exact (List.prefix_iff_eq_append.mp h).symm

theorem Takes.append (h : b.Takes n b₁) (h' : b₁.Takes m b₂) : b.Takes (n + m) b₂ := by
  obtain ⟨ts, hts, rfl, hlast, rfl⟩ := h
  obtain ⟨us, hus, rfl, hlast', rfl⟩ := h'
  have hfeed := feed_split hts
  refine ⟨ts ++ us, ?_, Token.significant_append ts us, fun t ht => ?_, ?_⟩
  · rw [hfeed]
    exact (List.prefix_append_right_inj ts).mpr hus
  · rw [List.getLast?_append] at ht
    cases hu : us.getLast? with
    | none =>
      rw [hu] at ht
      exact hlast t ht
    | some u =>
      rw [hu] at ht
      exact hlast' t (hu ▸ ht)
  · rw [advance_advance, List.length_append]

theorem Takes.significant (h : b.Takes n b₁) :
    Token.significant b.feed.tokens = n + Token.significant b₁.feed.tokens := by
  obtain ⟨ts, hts, rfl, -, rfl⟩ := h
  conv_lhs => rw [feed_split hts, Token.significant_append]

theorem takes_bump (h : 0 < Token.significant b.feed.tokens) : b.Takes 1 b.bump := by
  cases hd : b.feed.tokens.dropWhile (·.isTrivia) with
  | nil =>
    have hall := List.dropWhile_eq_nil_iff.mp hd
    exact absurd (Token.significant_eq_zero hall) (Nat.ne_of_gt h)
  | cons t ts =>
    have ht : t.isTrivia = false := Token.isTrivia_of_dropWhile hd
    have hfeed : b.feed.tokens = (b.feed.tokens.takeWhile (·.isTrivia) ++ [t]) ++ ts := by
      rw [List.append_assoc, List.singleton_append, ← hd, List.takeWhile_append_dropWhile]
    refine ⟨_, ⟨ts, hfeed.symm⟩, ?_, fun u hu => ?_, ?_⟩
    · rw [Token.significant_append, Token.significant_eq_zero fun _ => Token.isTrivia_of_mem_takeWhile]
      simp [Token.significant, ht]
    · rw [List.getLast?_concat] at hu
      cases hu
      exact ht
    · rw [bump, skip, advance_advance, List.length_append]
      rfl

theorem takes_bumps (h : n ≤ Token.significant b.feed.tokens) : b.Takes n (bumps n b) := by
  induction n generalizing b with
  | zero => exact takes_zero b
  | succ n ih =>
    have hone : b.Takes 1 b.bump := takes_bump (by omega)
    have hleft := hone.significant
    have hrest : b.bump.Takes n (bumps n b.bump) := ih (by omega)
    have hall := hone.append hrest
    rwa [Nat.add_comm 1 n] at hall

/-- A step that follows an outcome of single tokens takes just these tokens. -/
theorem takes_of_follows {c : Construct} {taken left : List Cue} (hb : b.Sound) (hs : b.cues = taken ++ left)
    (h : c.Follows b ⟨taken.map fun _ => .token, left, false⟩) :
    ∃ b', c b = .ok (b', false) ∧ b.Takes taken.length b' := by
  obtain ⟨b', hc, hg⟩ := h
  have hle : taken.length ≤ Token.significant b.feed.tokens := by
    rw [← length_cues, hs, List.length_append]
    exact Nat.le_add_right _ _
  rw [List.map_const'] at hg
  obtain rfl := hg.unique (bumps_grown hb taken.length)
  exact ⟨_, hc, takes_bumps hle⟩

/-! ## groups -/

/-- A group is taken up to where its length says. -/
theorem group_build (hb : b.Sound) (g : Bracket) (hn : g.span b.cues = n) (hle : n ≤ b.cues.length)
    (budget : Nat) (call : Goal → Construct) :
    ∃ b', (Rule.group g).build budget call b = .ok (b', false) ∧ b.Takes n b' := by
  refine ⟨bumps n b, ?_, takes_bumps (by rwa [← length_cues])⟩
  rw [Rule.group, Rule.build, look_eq hb, Construct.ok_bind, hn, List.length_take, Nat.min_eq_left hle]

/-- Take a builder at any place in any row of tokens, and count the significant tokens from there. From any
`<` on, the search for the end of an argument list comes to its end, its count of open lists never goes below
zero, and lookahead finds what it finds. Where the next token is a `<` and lookahead finds `n` tokens, the
group that is taken there is just these. -/
theorem argument_lists_end (hb : b.Sound) :
    (∀ start, kindAt? start b.cues = some .less →
      (∃ last?, ArgumentSearch.Ends b.cues ⟨start, 0⟩ last?
        ∧ argumentList? (b.cues.drop start) = last?.map (· + 1 - start)
        ∧ ∀ last ∈ last?, start < last ∧ last < b.cues.length)
      ∧ ∀ x, ArgumentSearch.Reaches b.cues ⟨start, 0⟩ x → 0 ≤ x.depth)
    ∧ ∀ n, kindAt? 0 b.cues = some .less → argumentList? b.cues = some n → ∀ budget call,
        ∃ b', (Rule.group .angle).build budget call b = .ok (b', false) ∧ b.Takes n b' := by
  refine ⟨fun start hk => ⟨ArgumentSearch.exists_ends hk, fun x hx => ?_⟩, fun n hk hn budget call => ?_⟩
  · exact ArgumentSearch.depth_nonneg_of_reaches hk hx
  · obtain ⟨last?, -, hfound, hbounds⟩ := ArgumentSearch.exists_ends hk
    rw [List.drop_zero, hn] at hfound
    obtain ⟨last, hlast, rfl⟩ := Option.map_eq_some_iff.mp hfound.symm
    have hspan := span_of_argumentList? (next_of_kindAt? hk) hn
    exact group_build hb .angle hspan (hbounds last hlast).2 budget call

/-- From a `<` with another one in its list on, and from the inner one on, for which there is one `>` too
many. -/
theorem argument_lists_end_of_nested :
    let b : Builder := ⟨scan "p<a, v<b>> x;".toList, 1, [], []⟩
    (∀ budget call, ∃ b', (Rule.group .angle).build budget call b = .ok (b', false) ∧ b.Takes 7 b')
      ∧ argumentList? (b.cues.drop 4) = none
      ∧ (∃ last?, ArgumentSearch.Ends b.cues ⟨4, 0⟩ last?)
      ∧ ∀ x, ArgumentSearch.Reaches b.cues ⟨4, 0⟩ x → 0 ≤ x.depth := by
  intro b
  have hseen : b.place ≤ b.tokens.length ∧ kindAt? 0 b.cues = some .less ∧ kindAt? 4 b.cues = some .less
      ∧ argumentList? b.cues = some 7 ∧ argumentList? (b.cues.drop 4) = none := by decide +kernel
  obtain ⟨hplace, houter, hinner, hfound, hnone⟩ := hseen
  have hb : b.Sound := ⟨hplace, nofun⟩
  obtain ⟨hends, htakes⟩ := argument_lists_end hb
  obtain ⟨⟨last?, hlast, -⟩, hdepth⟩ := hends 4 hinner
  exact ⟨htakes 7 houter hfound, hnone, ⟨last?, hlast⟩, hdepth⟩

/-! ## stretches -/

theorem toSemicolon_follows (hb : b.Sound) {budget : Nat} (h : b.cues.length < budget)
    (call : Goal → Construct) :
    ∃ taken left, b.cues = taken ++ left ∧ IsStretch (kindsOf taken) (kindsOf left)
      ∧ (Rule.toSemicolon.build budget call).Follows b ⟨taken.map fun _ => .token, left, false⟩ := by
  have hc := reach_sound 0
  have hasks : Rule.toSemicolon.asks (fun _ => false) = true := rfl
  have hlasts : Rule.toSemicolon.Lasts budget (reach grammar 0) (fun _ _ => False) b.cues :=
    Rule.lasts_of_steady hc Rule.toSemicolon_steady hasks nofun h (Nat.le_refl _)
  have hfollows : (Rule.toSemicolon.build budget call).Follows b
      (Rule.toSemicolon.perform budget (reach grammar 0) b.cues) := Rule.build_follows hc.fits nofun hb hlasts
  obtain ⟨taken, left, hs, hrun, hstretch⟩ := Rule.toSemicolon_perform (reach grammar 0) h
  exact ⟨taken, left, hs, hstretch, hrun ▸ hfollows⟩

/-- Take a builder at any place in any row of tokens, with a turn for each significant token that is left
and one more. Skipping to a `;` takes just the one stretch that these tokens start with. Each `}` in it
closes a `{` in it, so none of them closes a brace from before. -/
theorem stretch_exact (hb : b.Sound) {budget : Nat} (h : Token.significant b.feed.tokens < budget)
    (call : Goal → Construct) : ∃ taken left b', Token.kinds b.feed.tokens = taken ++ left
      ∧ IsStretch taken left
      ∧ (∀ taken' left', Token.kinds b.feed.tokens = taken' ++ left' → IsStretch taken' left' →
          taken' = taken)
      ∧ Rule.toSemicolon.build budget call b = .ok (b', false) ∧ b.Takes taken.length b'
      ∧ ∃ depth, braceDepth? 0 taken = some depth := by
  rw [← length_cues] at h
  obtain ⟨taken, left, hs, hstretch, hfollows⟩ := toSemicolon_follows hb h call
  obtain ⟨b', hbuild, htakes⟩ := takes_of_follows hb hs hfollows
  have hkinds : Token.kinds b.feed.tokens = kindsOf taken ++ kindsOf left := by
    rw [← Token.map_kind_cuesFrom, ← cues, hs]
    exact List.map_append
  refine ⟨kindsOf taken, kindsOf left, b', hkinds, hstretch, fun taken' left' hs' hstretch' => ?_, hbuild, ?_,
    hstretch.exists_depth⟩
  · exact hstretch'.unique hstretch (hs'.symm.trans hkinds)
  · rwa [kindsOf, List.length_map]

/-- a group in braces inside of a group in parentheses that is not closed, and a brace from before -/
theorem stretch_exact_of_unclosed :
    let b : Builder := ⟨scan "\x7b f(x \x7b y; \x7d ; \x7d".toList, 1, [], []⟩
    ∀ call, ∃ b', Rule.toSemicolon.build 10 call b = .ok (b', false) ∧ b.Takes 8 b' := by
  intro b call
  have hseen : b.place ≤ b.tokens.length ∧ Token.significant b.feed.tokens < 10
      ∧ Token.kinds b.feed.tokens = [.ident, .lParen, .ident, .lBrace, .ident, .semicolon, .rBrace,
        .semicolon, .rBrace] := by decide +kernel
  obtain ⟨hplace, hcount, hkinds⟩ := hseen
  have hb : b.Sound := ⟨hplace, nofun⟩
  obtain ⟨taken, left, b', -, -, hunique, hbuild, htakes, -⟩ := stretch_exact hb hcount call
  -- the words, the group in braces, and the semicolon
  have hwords : Covered [.ident, .lParen, .ident] ∧ Nested [.ident, .lParen, .ident] :=
    covered_of_plain (by decide)
  have hgroup : Nested [.ident, .semicolon] := rfl
  have hstretch : IsStretch ([.ident, .lParen, .ident, .lBrace, .ident, .semicolon, .rBrace] ++ [.semicolon])
      [.rBrace] :=
    .semicolon (hwords.1.append hwords.2 (covered_closed hgroup)) (hwords.2.append hgroup.enclose)
  obtain rfl := hunique _ _ hkinds hstretch
  exact ⟨b', hbuild, htakes⟩

end Builder

end CppMend
