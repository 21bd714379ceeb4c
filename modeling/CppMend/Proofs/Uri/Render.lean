import CppMend.Uri.Basic
import Mathlib.Data.Bool.AllAny
import Mathlib.Data.List.TakeWhile

/-!
# The text of a URI says what it is

Each part of a URI ends where a mark stands that it does not hold itself. So a text is that of one URI
only, as long as its parts are regular.

* `Host.Regular`, `Authority.Regular`, `UriPath.Regular`, `Uri.Regular`  no part holds a mark that
                              would end it;
* `append_eq_of_ends`         two parts of a text that end at the same marks;
* `Uri.Regular.eq_of_render`  regular URIs of one text are the same.
-/

namespace CppMend

/-! ## regular parts -/

/-- what ends the authority or a segment of the path -/
def endsPart (c : Char) : Bool := c ∈ ['/', '?', '#']

def endsPath (c : Char) : Bool := c ∈ ['?', '#']

/-- A host holds a colon only between brackets. -/
structure Host.Regular (host : Text) : Prop where
  unsigned : '@' ∉ host
  colons : (':' ∉ host ∧ '[' ∉ host) ∨ ∃ inside, host = '[' :: inside ++ [']'] ∧ ']' ∉ inside
  unbroken : ∀ c ∈ host, endsPart c = false

structure Authority.Regular (a : Authority) : Prop where
  account : a.account = [] ∨ ∃ front, a.account = front ++ ['@'] ∧ '@' ∉ front
  unbroken : ∀ c ∈ a.account, endsPart c = false
  host : Host.Regular a.host

/-- A path without an authority before it is not read as something else. -/
def UriPath.Regular (authority? : Option Authority) : UriPath → Prop
  | .rooted segments => (∀ s ∈ segments, ∀ c ∈ s, endsPart c = false)
      ∧ (authority? = none → segments ≠ [] ∧ segments.head? ≠ some ['.'])
  | .rootless text => authority? = none ∧ (∀ c ∈ text, endsPath c = false) ∧ text.head? ≠ some '/'

structure Uri.Regular (u : Uri) : Prop where
  scheme : ':' ∉ u.scheme
  authority : ∀ a ∈ u.authority, a.Regular
  path : u.path.Regular u.authority
  query : ∀ q ∈ u.query, '#' ∉ q

/-! ## parts of a text -/

/-- Two parts of a text are the same if both end at the first of the same marks. -/
theorem append_eq_of_ends {ends : Char → Bool} {a b s t : Text} (ha : ∀ c ∈ a, ends c = false)
    (hb : ∀ c ∈ b, ends c = false) (hs : ∀ c ∈ s.head?, ends c = true)
    (ht : ∀ c ∈ t.head?, ends c = true) (h : a ++ s = b ++ t) : a = b ∧ s = t := by
  have front : ∀ {a s : Text}, (∀ c ∈ a, ends c = false) → (∀ c ∈ s.head?, ends c = true) →
      (a ++ s).takeWhile (!ends ·) = a := by
    intro a s ha hs
    rw [List.takeWhile_append_of_pos fun c hc => by rw [ha c hc]; rfl]
    cases s with
    | nil => exact List.append_nil a
    | cons c s => rw [List.takeWhile_cons_of_neg (by rw [hs c rfl]; decide), List.append_nil]
  have hab : a = b := by rw [← front ha hs, h, front hb ht]
  subst hab
  exact ⟨rfl, List.append_cancel_left h⟩

theorem forall_ne {x : Char} {cs : Text} (h : x ∉ cs) : ∀ c ∈ cs, decide (c = x) = false :=
  fun _ hc => decide_eq_false fun he => h (he ▸ hc)

theorem head_eq (x : Char) (cs : Text) : ∀ c ∈ ([x] ++ cs).head?, decide (c = x) = true :=
  fun _ hc => decide_eq_true (Option.some.inj hc).symm

namespace Uri

theorem slashed_head (segments : List Text) : ∀ c ∈ (slashed segments).head?, endsPart c = true := by
  intro c hc
  cases segments with
  | nil => cases hc
  | cons s ss =>
    rw [← Option.some.inj hc]
    decide

/-- segments that hold no slash can be told apart -/
theorem slashed_inj {ss ts : List Text} (hs : ∀ s ∈ ss, ∀ c ∈ s, endsPart c = false)
    (ht : ∀ t ∈ ts, ∀ c ∈ t, endsPart c = false) (h : slashed ss = slashed ts) : ss = ts := by
  induction ss generalizing ts with
  | nil =>
    cases ts with
    | nil => rfl
    | cons t ts => cases h
  | cons s ss ih =>
    cases ts with
    | nil => cases h
    | cons t ts =>
      have h : s ++ slashed ss = t ++ slashed ts := (List.cons.inj h).2
      obtain ⟨rfl, hrest⟩ := append_eq_of_ends (hs s List.mem_cons_self) (ht t List.mem_cons_self)
        (slashed_head ss) (slashed_head ts) h
      rw [ih (fun u hu => hs u (List.mem_cons_of_mem _ hu))
        (fun u hu => ht u (List.mem_cons_of_mem _ hu)) hrest]

end Uri

namespace Authority

def portText (a : Authority) : Text :=
  match a.port with
  | some n => ':' :: (toString n).toList
  | none => []

theorem digits_port (a : Authority) : ∀ c ∈ a.portText, c = ':' ∨ c.isDigit = true := by
  intro c hc
  rw [portText] at hc
  split at hc
  · rcases List.mem_cons.mp hc with rfl | hc
    · exact .inl rfl
    · rw [Nat.toString_eq_repr, Nat.toList_repr] at hc
      exact .inr (Nat.isDigit_of_mem_toDigits (by decide) (by decide) hc)
  · cases hc

theorem portText_inj {a b : Authority} (h : a.portText = b.portText) : a.port = b.port := by
  rw [portText, portText] at h
  cases ha : a.port with
  | none =>
    cases hb : b.port with
    | none => rfl
    | some m =>
      rw [ha, hb] at h
      cases h
  | some n =>
    cases hb : b.port with
    | none =>
      rw [ha, hb] at h
      cases h
    | some m =>
      rw [ha, hb] at h
      have hd := congrArg (Nat.ofDigitChars 10 · 0) (List.cons.inj h).2
      simp only [Nat.toString_eq_repr, Nat.toList_repr, Nat.ofDigitChars_ten_toDigits] at hd
      rw [hd]

theorem render_eq (a : Authority) : a.render = a.account ++ (a.host ++ a.portText) := by
  rw [← List.append_assoc]
  rfl

theorem not_mem_portText {c : Char} (hc : c ≠ ':') (hd : c.isDigit = false) (a : Authority) :
    c ∉ a.portText := by
  intro h
  rcases a.digits_port c h with h | h
  · exact hc h
  · rw [hd] at h
    cases h

/-- An authority ends where the path starts. -/
theorem Regular.not_ends {a : Authority} (ha : a.Regular) : ∀ c ∈ a.render, endsPart c = false := by
  intro c hc
  rw [render_eq, List.mem_append, List.mem_append] at hc
  rcases hc with hc | hc | hc
  · exact ha.unbroken c hc
  · exact ha.host.unbroken c hc
  · have hport : ∀ d, endsPart d = true → d ∉ a.portText := by
      intro d hd
      simp only [endsPart, List.mem_cons, List.not_mem_nil, or_false, decide_eq_true_eq] at hd
      rcases hd with rfl | rfl | rfl <;> exact a.not_mem_portText (by decide) (by decide)
    cases he : endsPart c with
    | false => rfl
    | true => exact absurd hc (hport c he)

/-- The host and the port of a text, once the account is known. -/
theorem Regular.eq_of_server {a b : Authority} (ha : a.Regular) (hb : b.Regular)
    (h : a.host ++ a.portText = b.host ++ b.portText) : a.host = b.host ∧ a.port = b.port := by
  have starts : ∀ x : Authority, ∀ c ∈ x.portText.head?, c = ':' := by
    intro x c hc
    rw [portText] at hc
    split at hc
    · exact (Option.some.inj hc).symm
    · cases hc
  -- a host between brackets is no other host
  have mixed : ∀ {x y : Authority}, '[' ∉ x.host → ∀ inside, y.host = '[' :: inside ++ [']'] →
      x.host ++ x.portText ≠ y.host ++ y.portText := by
    intro x y hx inside hy he
    rw [hy] at he
    cases hh : x.host with
    | nil =>
      rw [hh, List.nil_append] at he
      have hc := starts x '[' (by rw [he]; rfl)
      revert hc
      decide
    | cons c r =>
      rw [hh, List.cons_append, List.cons_append, List.cons_append, List.cons.injEq] at he
      rw [hh, he.1] at hx
      exact hx List.mem_cons_self
  rcases ha.host.colons with ⟨hac, hao⟩ | ⟨ai, hai, hac⟩ <;>
    rcases hb.host.colons with ⟨hbc, hbo⟩ | ⟨bi, hbi, hbc⟩
  · obtain ⟨hhost, hport⟩ := append_eq_of_ends (forall_ne hac) (forall_ne hbc)
      (fun c hc => decide_eq_true (starts a c hc)) (fun c hc => decide_eq_true (starts b c hc)) h
    exact ⟨hhost, portText_inj hport⟩
  · exact absurd h (mixed hao bi hbi)
  · exact absurd h.symm (mixed hbo ai hai)
  · rw [hai, hbi, List.append_assoc, List.append_assoc, List.cons_append, List.cons_append] at h
    obtain ⟨hinside, hport⟩ := append_eq_of_ends (forall_ne hac) (forall_ne hbc)
      (head_eq _ _) (head_eq _ _) (List.cons.inj h).2
    exact ⟨by rw [hai, hbi, hinside], portText_inj (List.append_cancel_left hport)⟩

theorem Regular.eq_of_render {a b : Authority} (ha : a.Regular) (hb : b.Regular)
    (h : a.render = b.render) : a = b := by
  rw [render_eq, render_eq] at h
  have unsigned : ∀ {x : Authority}, x.Regular → '@' ∉ x.host ++ x.portText := by
    intro x hx hm
    rcases List.mem_append.mp hm with hm | hm
    · exact hx.host.unsigned hm
    · exact x.not_mem_portText (by decide) (by decide) hm
  have hparts : a.account = b.account ∧ a.host ++ a.portText = b.host ++ b.portText := by
    rcases ha.account with hae | ⟨af, haf, hau⟩ <;> rcases hb.account with hbe | ⟨bf, hbf, hbu⟩
    · rw [hae, hbe] at h
      exact ⟨hae.trans hbe.symm, h⟩
    · -- the `@` of one account would have to be in the other server
      rw [hae, hbf, List.nil_append] at h
      exact absurd (h ▸ List.mem_append_left _ (List.mem_append_right _ (List.mem_singleton_self _)))
        (unsigned ha)
    · rw [haf, hbe, List.nil_append] at h
      exact absurd (h ▸ List.mem_append_left _ (List.mem_append_right _ (List.mem_singleton_self _)))
        (unsigned hb)
    · rw [haf, hbf, List.append_assoc, List.append_assoc] at h
      obtain ⟨hfront, hserver⟩ := append_eq_of_ends (forall_ne hau) (forall_ne hbu)
        (head_eq _ _) (head_eq _ _) h
      exact ⟨by rw [haf, hbf, hfront], List.append_cancel_left hserver⟩
  obtain ⟨hhost, hport⟩ := ha.eq_of_server hb hparts.2
  obtain ⟨account, host, port⟩ := a
  obtain ⟨account', host', port'⟩ := b
  cases hparts.1
  cases hhost
  cases hport
  rfl

end Authority

namespace Uri

/-! ## what stands before a query -/

/-- the authority and the path, as they are written -/
def front (u : Uri) : Text :=
  (match u.authority with
    | some a => '/' :: '/' :: a.render
    | none => [])
  ++ (u.guardText ++ u.pathText)

theorem not_endsPath {c : Char} (h : endsPart c = false) : endsPath c = false := by
  simp only [endsPart, endsPath, decide_eq_false_iff_not, List.mem_cons, not_or] at h ⊢
  exact h.2

theorem slashed_not_ends {segments : List Text} (h : ∀ s ∈ segments, ∀ c ∈ s, endsPart c = false) :
    ∀ c ∈ slashed segments, endsPath c = false := by
  intro c hc
  obtain ⟨s, hs, hc⟩ := List.mem_flatMap.mp hc
  rcases List.mem_cons.mp hc with rfl | hc
  · decide
  · exact not_endsPath (h s hs c hc)

theorem guardText_not_ends (u : Uri) : ∀ c ∈ u.guardText, endsPath c = false := by
  intro c hc
  rw [guardText] at hc
  split at hc
  · have hguard : ∀ c ∈ ['/', '.'], endsPath c = false := List.all_iff_forall_prop.mp (by decide)
    exact hguard c hc
  · cases hc

/-- The path ends where the query or the fragment starts. -/
theorem Regular.front_not_ends {u : Uri} (hu : u.Regular) : ∀ c ∈ u.front, endsPath c = false := by
  intro c hc
  rcases List.mem_append.mp hc with hc | hc
  · cases ha : u.authority with
    | none =>
      rw [ha] at hc
      cases hc
    | some a =>
      rw [ha] at hc
      rcases List.mem_cons.mp hc with rfl | hc
      · decide
      · rcases List.mem_cons.mp hc with rfl | hc
        · decide
        · exact not_endsPath ((hu.authority a ha).not_ends c hc)
  · rcases List.mem_append.mp hc with hc | hc
    · exact u.guardText_not_ends c hc
    · have hp := hu.path
      rw [pathText] at hc
      cases hpath : u.path with
      | rooted segments =>
        rw [hpath] at hc hp
        exact slashed_not_ends hp.1 c hc
      | rootless text =>
        rw [hpath] at hc hp
        exact hp.2.1 c hc

theorem front_of_some {u : Uri} {a : Authority} (h : u.authority = some a) :
    u.front = '/' :: '/' :: (a.render ++ u.pathText) := by
  rw [front, guardText, h]
  rfl

/-! ### paths without an authority -/

/-- a path that would start with two slashes -/
def isDoubled : List Text → Bool
  | [] :: _ :: _ => true
  | _ => false

/-- the path of a URI without an authority, as it is written -/
def bare : UriPath → Text
  | .rooted segments => (if isDoubled segments then ['/', '.'] else []) ++ slashed segments
  | .rootless text => text

theorem front_of_none {u : Uri} (h : u.authority = none) : u.front = bare u.path := by
  obtain ⟨scheme, authority, path, query, fragment⟩ := u
  cases h
  cases path with
  | rooted segments =>
    match segments with
    | [] => rfl
    | [[]] => rfl
    | [] :: _ :: _ => rfl
    | [_ :: _] => rfl
    | (_ :: _) :: _ :: _ => rfl
  | rootless text => rfl

/-- It does not look like an authority. -/
theorem bare_ne_slashes {path : UriPath} (hp : path.Regular none) (r : Text) :
    bare path ≠ '/' :: '/' :: r := by
  intro h
  cases path with
  | rooted segments =>
    have hchar : ∀ c r, '/' :: c :: r = slashed segments → segments.head? ≠ some [] →
        endsPart c = false := by
      intro c r h hne
      cases segments with
      | nil => cases h
      | cons s ss =>
        cases s with
        | nil => exact absurd rfl hne
        | cons d s =>
          rw [(List.cons.inj (List.cons.inj h).2).1]
          exact hp.1 _ List.mem_cons_self d List.mem_cons_self
    match segments with
    | [] => exact (hp.2 rfl).1 rfl
    | [[]] => cases h
    | [] :: _ :: _ => cases h
    | [_ :: _] =>
      have := hchar '/' r h.symm nofun
      revert this
      decide
    | (_ :: _) :: _ :: _ =>
      have := hchar '/' r h.symm nofun
      revert this
      decide
  | rootless text =>
    rw [bare] at h
    rw [h] at hp
    exact hp.2.2 rfl

/-- The mark before a path with two slashes is no segment of another path. -/
theorem bare_doubled_ne {ss ts : List Text} (hs : isDoubled ss = true) (ht : isDoubled ts = false)
    (hp : (UriPath.rooted ts).Regular none) : bare (.rooted ss) ≠ bare (.rooted ts) := by
  intro h
  rw [bare, bare, hs, ht] at h
  cases ts with
  | nil => exact (hp.2 rfl).1 rfl
  | cons t ts =>
    have h : ['.'] ++ slashed ss = t ++ slashed ts := (List.cons.inj h).2
    have hdot : ∀ c ∈ ['.'], endsPart c = false := List.all_iff_forall_prop.mp (by decide)
    obtain ⟨rfl, -⟩ := append_eq_of_ends hdot (hp.1 t List.mem_cons_self) (slashed_head ss)
      (slashed_head ts) h
    exact (hp.2 rfl).2 rfl

theorem bare_inj {p q : UriPath} (hp : p.Regular none) (hq : q.Regular none)
    (h : bare p = bare q) : p = q := by
  have slash : ∀ {ss : List Text}, (UriPath.rooted ss).Regular none →
      (bare (.rooted ss)).head? = some '/' := by
    intro ss hs
    rw [bare]
    split
    · rfl
    · cases ss with
      | nil => exact absurd rfl (hs.2 rfl).1
      | cons s ss => rfl
  cases p with
  | rooted ss =>
    cases q with
    | rooted ts =>
      cases hs : isDoubled ss <;> cases ht : isDoubled ts
      · rw [bare, bare, hs, ht] at h
        rw [slashed_inj hp.1 hq.1 h]
      · exact absurd h.symm (bare_doubled_ne ht hs hp)
      · exact absurd h (bare_doubled_ne hs ht hq)
      · rw [bare, bare, hs, ht] at h
        rw [slashed_inj hp.1 hq.1 (List.append_cancel_left h)]
    | rootless text => exact absurd ((congrArg List.head? h).symm.trans (slash hp)) hq.2.2
  | rootless text =>
    cases q with
    | rooted ts => exact absurd ((congrArg List.head? h).trans (slash hq)) hp.2.2
    | rootless other => exact congrArg UriPath.rootless h

/-- What stands before a query says what the authority and the path are. -/
theorem Regular.eq_of_front {u v : Uri} (hu : u.Regular) (hv : v.Regular) (h : u.front = v.front) :
    u.authority = v.authority ∧ u.path = v.path := by
  have hup := hu.path
  have hvp := hv.path
  cases hua : u.authority with
  | none =>
    rw [hua] at hup
    cases hva : v.authority with
    | none =>
      rw [hva] at hvp
      rw [front_of_none hua, front_of_none hva] at h
      exact ⟨rfl, bare_inj hup hvp h⟩
    | some b =>
      rw [front_of_none hua, front_of_some hva] at h
      exact absurd h (bare_ne_slashes hup _)
  | some a =>
    rw [hua] at hup
    cases hva : v.authority with
    | none =>
      rw [hva] at hvp
      rw [front_of_some hua, front_of_none hva] at h
      exact absurd h.symm (bare_ne_slashes hvp _)
    | some b =>
      rw [hva] at hvp
      have ha := hu.authority a hua
      have hb := hv.authority b hva
      rw [front_of_some hua, front_of_some hva, pathText, pathText] at h
      -- after an authority, a path has segments
      cases hupath : u.path with
      | rootless text =>
        rw [hupath] at hup
        cases hup.1
      | rooted ss =>
        cases hvpath : v.path with
        | rootless text =>
          rw [hvpath] at hvp
          cases hvp.1
        | rooted ts =>
          rw [hupath] at h hup
          rw [hvpath] at h hvp
          obtain ⟨hrender, hpath⟩ := append_eq_of_ends ha.not_ends hb.not_ends (slashed_head ss)
            (slashed_head ts) (List.cons.inj (List.cons.inj h).2).2
          rw [ha.eq_of_render hb hrender, slashed_inj hup.1 hvp.1 hpath]
          exact ⟨rfl, rfl⟩

/-! ## the query and the fragment -/

def queryText (u : Uri) : Text :=
  match u.query with
  | some q => '?' :: q
  | none => []

def fragmentText (u : Uri) : Text :=
  match u.fragment with
  | some f => '#' :: f
  | none => []

theorem render_eq (u : Uri) :
    u.render = u.scheme ++ ([':'] ++ (u.front ++ (u.queryText ++ u.fragmentText))) := by
  rw [render, front]
  simp only [List.append_assoc]
  rfl

theorem fragmentText_head (u : Uri) : ∀ c ∈ u.fragmentText.head?, c = '#' := by
  intro c hc
  rw [fragmentText] at hc
  split at hc
  · exact (Option.some.inj hc).symm
  · cases hc

theorem tail_head (u : Uri) : ∀ c ∈ (u.queryText ++ u.fragmentText).head?, endsPath c = true := by
  intro c hc
  rw [queryText] at hc
  split at hc
  · rw [← Option.some.inj hc]
    decide
  · rw [List.nil_append] at hc
    rw [u.fragmentText_head c hc]
    decide

theorem fragment_eq {u v : Uri} (h : u.fragmentText = v.fragmentText) : u.fragment = v.fragment := by
  rw [fragmentText, fragmentText] at h
  cases hu : u.fragment with
  | none =>
    cases hv : v.fragment with
    | none => rfl
    | some g =>
      rw [hu, hv] at h
      cases h
  | some f =>
    cases hv : v.fragment with
    | none =>
      rw [hu, hv] at h
      cases h
    | some g =>
      rw [hu, hv] at h
      rw [(List.cons.inj h).2]

theorem Regular.eq_of_tail {u v : Uri} (hu : u.Regular) (hv : v.Regular)
    (h : u.queryText ++ u.fragmentText = v.queryText ++ v.fragmentText) :
    u.query = v.query ∧ u.fragment = v.fragment := by
  -- a query starts as no fragment does
  have mixed : ∀ {x y : Uri} {q : Text}, '?' :: q ++ y.fragmentText ≠ x.fragmentText := by
    intro x y q he
    have := x.fragmentText_head '?' (by rw [← he]; rfl)
    revert this
    decide
  cases huq : u.query with
  | none =>
    cases hvq : v.query with
    | none =>
      rw [queryText, queryText, huq, hvq] at h
      exact ⟨rfl, fragment_eq h⟩
    | some r =>
      rw [queryText, queryText, huq, hvq] at h
      exact absurd h.symm mixed
  | some q =>
    cases hvq : v.query with
    | none =>
      rw [queryText, queryText, huq, hvq] at h
      exact absurd h mixed
    | some r =>
      rw [queryText, queryText, huq, hvq] at h
      obtain ⟨rfl, hfragment⟩ := append_eq_of_ends (forall_ne (hu.query q huq))
        (forall_ne (hv.query r hvq)) (fun c hc => decide_eq_true (u.fragmentText_head c hc))
        (fun c hc => decide_eq_true (v.fragmentText_head c hc)) (List.cons.inj h).2
      exact ⟨rfl, fragment_eq hfragment⟩

/-! ## the whole text -/

/-- Regular URIs that are spelled alike are the same. -/
theorem Regular.eq_of_render {u v : Uri} (hu : u.Regular) (hv : v.Regular)
    (h : u.render = v.render) : u = v := by
  rw [render_eq, render_eq] at h
  obtain ⟨hscheme, hrest⟩ := append_eq_of_ends (forall_ne hu.scheme) (forall_ne hv.scheme)
    (head_eq _ _) (head_eq _ _) h
  obtain ⟨hfront, htail⟩ := append_eq_of_ends hu.front_not_ends hv.front_not_ends u.tail_head
    v.tail_head (List.append_cancel_left hrest)
  obtain ⟨hauthority, hpath⟩ := hu.eq_of_front hv hfront
  obtain ⟨hquery, hfragment⟩ := hu.eq_of_tail hv htail
  obtain ⟨scheme, authority, path, query, fragment⟩ := u
  obtain ⟨scheme', authority', path', query', fragment'⟩ := v
  cases hscheme
  cases hauthority
  cases hpath
  cases hquery
  cases hfragment
  rfl

end Uri

end CppMend
