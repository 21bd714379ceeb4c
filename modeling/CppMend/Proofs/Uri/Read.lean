import CppMend.Proofs.Uri.Files
import CppMend.Proofs.Uri.Hosts

/-!
# What is read is regular

Whatever text a URI is read from, no part of it holds a mark that would end it: such characters are
escaped, or the text ends the part there. So URIs can be told apart by their texts.

* `Uri.clear_resolve`      the segments of a path;
* `Uri.regular_authority`  the authority;
* `Uri.regular_of_parse`   the whole URI;
* `Uri.Proper`             the URIs that are read from a text or made for a file;
* `Uri.eq_of_render`       two of them that are spelled alike are the same.
-/

namespace CppMend

theorem Percent.head_escape (set : Char → Bool) (c : Char) (cs : Text) :
    (escape set (c :: cs)).head? = some (if set c then '%' else c) := by
  rw [escape_cons]
  split
  · have hne : Bytes.ofText [c] ≠ [] := by
      simp [Bytes.ofText]
    obtain ⟨b, bs, hb⟩ := List.exists_cons_of_ne_nil hne
    rw [hb]
    rfl
  · rfl

namespace Uri

/-! ## paths -/

/-- segments that end nowhere and do not stand for the directory they are in -/
def Clear (segments : List Text) : Prop :=
  ∀ s ∈ segments, (∀ c ∈ s, endsPart c = false) ∧ s ≠ ['.']

theorem clear_nil : Clear [[]] := by
  intro s hs
  rw [List.mem_singleton.mp hs]
  exact ⟨fun _ h => absurd h List.not_mem_nil, nofun⟩

theorem Clear.append {ss ts : List Text} (hs : Clear ss) (ht : Clear ts) : Clear (ss ++ ts) :=
  List.forall_mem_append.mpr ⟨hs, ht⟩

theorem Clear.sublist {ss ts : List Text} (ht : Clear ts) (h : ss.Sublist ts) : Clear ss :=
  fun s hs => ht s (h.subset hs)

theorem clear_shorten {segments : List Text} (h : Clear segments) : Clear (shorten segments) := by
  rw [shorten]
  split
  · exact h
  · exact h.sublist (List.dropLast_sublist _)

/-- An escaped text is a dot only if the text is. -/
theorem escape_ne_dot {set : Char → Bool} {s : Text} (h : s ≠ ['.']) : Percent.escape set s ≠ ['.'] := by
  intro he
  cases s with
  | nil => cases he
  | cons c s =>
    have hhead := Percent.head_escape set c s
    rw [he, List.head?_cons, Option.some.injEq] at hhead
    split at hhead
    · cases hhead
    · next hc =>
      rw [Percent.escape_cons, if_neg hc, List.singleton_append, List.cons.injEq] at he
      obtain ⟨rfl, hs⟩ := he
      cases s with
      | nil => exact h rfl
      | cons d s =>
        have hhead := Percent.head_escape set d s
        rw [hs] at hhead
        cases hhead

theorem clear_addSegment {f : Family} {segments : List Text} (h : Clear segments) {s : Text}
    (hs : ∀ c ∈ s, endsPart c = false) (last : Bool) : Clear (addSegment f segments s last) := by
  have hending : Clear (if last then [[]] else []) := by
    cases last
    · exact fun _ h => absurd h List.not_mem_nil
    · exact clear_nil
  rw [addSegment]
  split
  · exact (clear_shorten h).append hending
  · split
    · exact h.append hending
    · next hdot =>
      split
      · next hdrive =>
        refine h.append fun t ht => ?_
        rw [List.mem_singleton.mp ht]
        have hcolon : ∀ c ∈ [':'], endsPart c = false := List.all_iff_forall_prop.mp (by decide)
        refine ⟨List.forall_mem_append.mpr ⟨fun c hc => hs c (List.mem_of_mem_take hc), hcolon⟩,
          fun he => ?_⟩
        have hlast := congrArg List.getLast? he
        rw [List.getLast?_concat] at hlast
        revert hlast
        decide
      · refine h.append fun t ht => ?_
        rw [List.mem_singleton.mp ht]
        refine ⟨fun c hc => ?_, escape_ne_dot fun he => hdot (by rw [he]; rfl)⟩
        rcases Percent.mem_escape hc with ⟨hc, -⟩ | hc
        · exact hs c hc
        · have hescape : ∀ c ∈ Percent.escapeChars, endsPart c = false :=
            List.all_iff_forall_prop.mp (by decide)
          exact hescape c hc

theorem clear_addSegments {f : Family} {segments : List Text} (h : Clear segments) {ps : List Text}
    (hp : ∀ p ∈ ps, ∀ c ∈ p, endsPart c = false) : Clear (addSegments f segments ps) := by
  induction ps generalizing segments with
  | nil => exact h
  | cons p ps ih =>
    have hfirst := hp p List.mem_cons_self
    cases ps with
    | nil => exact clear_addSegment h hfirst true
    | cons q qs =>
      exact ih (clear_addSegment h hfirst false) fun r hr => hp r (List.mem_cons_of_mem _ hr)

theorem addSegment_ne_nil (f : Family) (segments : List Text) (s : Text) :
    addSegment f segments s true ≠ [] := by
  rw [addSegment]
  split
  · exact List.append_ne_nil_of_right_ne_nil _ (List.cons_ne_nil _ _)
  · split
    · exact List.append_ne_nil_of_right_ne_nil _ (List.cons_ne_nil _ _)
    · split <;> exact List.append_ne_nil_of_right_ne_nil _ (List.cons_ne_nil _ _)

theorem addSegments_ne_nil (f : Family) (segments : List Text) {ps : List Text} (hp : ps ≠ []) :
    addSegments f segments ps ≠ [] := by
  induction ps generalizing segments with
  | nil => exact absurd rfl hp
  | cons p ps ih =>
    cases ps with
    | nil => exact addSegment_ne_nil f segments p
    | cons q qs => exact ih _ (List.cons_ne_nil _ _)

theorem resolve_ne_nil (f : Family) (cs : Text) : resolve f cs ≠ [] :=
  addSegments_ne_nil f [] (Text.pieces_ne_nil _ cs)

theorem clear_resolve (f : Family) {cs : Text} (h : ∀ c ∈ cs, isPathChar c = true) :
    Clear (resolve f cs) := by
  refine clear_addSegments (fun _ h => absurd h List.not_mem_nil) fun p hp c hc => ?_
  obtain ⟨hmem, hcut⟩ := Text.mem_of_mem_pieces hp c hc
  have hpath := h c hmem
  simp only [isPathChar, Bool.and_eq_true, decide_eq_true_eq] at hpath
  have hslash : c ≠ '/' := by
    rintro rfl
    rw [Family.isSlash] at hcut
    cases hcut
  simp [endsPart, hslash, hpath]

theorem clear_ofRoot {segments : List Text} (h : Clear segments) : Clear (ofRoot segments) := by
  rw [ofRoot]
  split
  · exact clear_nil
  · exact h.sublist (List.dropWhile_sublist _)

theorem mem_of_mem_dropSlash {f : Family} {cs : Text} {c : Char} (h : c ∈ dropSlash f cs) : c ∈ cs := by
  cases cs with
  | nil => cases h
  | cons d cs =>
    rw [dropSlash] at h
    split at h
    · exact List.mem_cons_of_mem _ h
    · exact h

/-- After an authority, any segments that end nowhere are a path. -/
theorem Clear.regular {segments : List Text} (h : Clear segments) (a : Authority) :
    (UriPath.rooted segments).Regular (some a) :=
  ⟨fun s hs => (h s hs).1, nofun⟩

/-! ## authorities -/

theorem regular_nowhere : Authority.nowhere.Regular :=
  ⟨.inl rfl, nofun, Host.regular_nil⟩

/-- what no account holds but for the `@` at its end -/
def accountMarks : List Char := ['@', '/', '?', '#']

theorem account_spec (cs : Text) : (account cs).1 = []
    ∨ ∃ front, (account cs).1 = front ++ ['@'] ∧ ∀ c ∈ front, c ∉ accountMarks := by
  have hescaped : ∀ text, ∀ c ∈ Percent.escape Percent.inAccount text, c ∉ accountMarks := by
    have hmarks : ∀ c ∈ accountMarks, Percent.inAccount c = true ∧ c ∉ Percent.escapeChars :=
      List.all_iff_forall_prop.mp (by decide)
    intro text c hc hm
    exact Percent.not_mem_escape (.inr (hmarks c hm).1) (hmarks c hm).2 hc
  have htext : ∀ user secret : Text, ∀ c ∈ Percent.escape Percent.inAccount user
      ++ (if secret.isEmpty then [] else ':' :: Percent.escape Percent.inAccount secret),
      c ∉ accountMarks := by
    intro user secret c hc
    rcases List.mem_append.mp hc with hc | hc
    · exact hescaped user c hc
    · split at hc
      · cases hc
      · rcases List.mem_cons.mp hc with rfl | hc
        · decide
        · exact hescaped secret c hc
  have hsigned : ∀ text : Text, (∀ c ∈ text, c ∉ accountMarks) →
      (if text.isEmpty then [] else text ++ ['@']) = []
        ∨ ∃ front, (if text.isEmpty then [] else text ++ ['@']) = front ++ ['@']
          ∧ ∀ c ∈ front, c ∉ accountMarks := by
    intro text h
    split
    · exact .inl rfl
    · exact .inr ⟨text, rfl, h⟩
  rw [account]
  dsimp only
  split
  · exact .inl rfl
  · exact hsigned _ (htext _ _)

theorem regular_authority {f : Family} {cs rest : Text} {a : Authority}
    (h : authority? f cs = some (a, rest)) : a.Regular := by
  have hparts : a.account = (account cs).1 ∧ Host.Regular a.host := by
    rw [authority?] at h
    dsimp only at h
    split at h
    · obtain ⟨host, hhost, h⟩ := Option.bind_eq_some_iff.mp h
      obtain ⟨⟨port, after⟩, -, h⟩ := Option.bind_eq_some_iff.mp h
      split at h
      · cases h
      · cases h
        exact ⟨rfl, Host.regular_ofText hhost⟩
    · obtain ⟨host, hhost, h⟩ := Option.bind_eq_some_iff.mp h
      obtain ⟨⟨port, after⟩, -, h⟩ := Option.bind_eq_some_iff.mp h
      split at h
      · cases h
      · cases h
        exact ⟨rfl, Host.regular_ofName hhost⟩
  obtain ⟨haccount, hhost⟩ := hparts
  rcases account_spec cs with hnone | ⟨front, hsome, hfront⟩
  · rw [hnone] at haccount
    exact ⟨.inl haccount, by rw [haccount]; exact nofun, hhost⟩
  · rw [hsome] at haccount
    refine ⟨.inr ⟨front, haccount, fun hm => hfront _ hm (by decide)⟩, fun c hc => ?_, hhost⟩
    rw [haccount] at hc
    rcases List.mem_append.mp hc with hc | hc
    · have hmarks : ∀ c ∈ ['/', '?', '#'], c ∈ accountMarks :=
        List.all_iff_forall_prop.mp (by decide)
      exact decide_eq_false fun hm => hfront c hc (hmarks c hm)
    · rw [List.mem_singleton.mp hc]
      decide

/-! ## whole URIs -/

/-- What is assembled from regular parts is regular. -/
theorem regular_assemble {f : Family} {scheme cs : Text} {authority : Option Authority}
    {path : Text → UriPath} (hscheme : ':' ∉ scheme) (hauthority : ∀ a ∈ authority, a.Regular)
    (hpath : ∀ front, front <+: cs → (∀ c ∈ front, isPathChar c = true) →
      (path front).Regular authority) : (assemble f scheme authority path cs).Regular := by
  rw [assemble, List.span_eq_takeWhile_dropWhile]
  refine ⟨hscheme, hauthority,
    hpath _ (List.takeWhile_prefix _) fun c hc => List.mem_takeWhile_imp hc, fun q hq => ?_⟩
  dsimp only [ending] at hq
  split at hq
  · cases hq
  · rw [← Option.some.inj hq]
    exact Percent.not_mem_escape (.inr rfl) (by decide)

/-- the paths that are read after an authority -/
theorem regular_afterSlashes {f : Family} {scheme cs : Text} {u : Uri} (hscheme : ':' ∉ scheme)
    (h : afterSlashes? f scheme cs = some u) : u.Regular := by
  rw [afterSlashes?] at h
  dsimp only at h
  split at h
  · cases h
  · obtain ⟨⟨a, front⟩, ha, rfl⟩ := Option.map_eq_some_iff.mp h
    have ha := regular_authority ha
    refine regular_assemble hscheme (fun b hb => Option.some.inj hb ▸ ha) fun front _ hfront => ?_
    dsimp only
    split
    · exact ⟨nofun, nofun⟩
    · exact (clear_resolve f fun c hc => hfront c (mem_of_mem_dropSlash hc)).regular a

/-- the URIs of files, whatever the host -/
theorem regular_ofHost {scheme host cs : Text} {segments : Text → List Text} (hscheme : ':' ∉ scheme)
    (hhost : Host.Regular host)
    (hsegments : ∀ front, (∀ c ∈ front, isPathChar c = true) → Clear (segments front)) :
    (ofHost scheme host segments cs).Regular := by
  refine regular_assemble hscheme (fun a ha => ?_) fun front _ hfront => ?_
  · rw [← Option.some.inj ha]
    exact ⟨.inl rfl, nofun, hhost⟩
  · exact (clear_ofRoot (hsegments front hfront)).regular _

theorem regular_file {scheme cs : Text} {u : Uri} (hscheme : ':' ∉ scheme)
    (h : file? scheme cs = some u) : u.Regular := by
  have hplain : ∀ front : Text, (∀ c ∈ front, isPathChar c = true) → Clear (resolve .file front) :=
    fun _ hfront => clear_resolve .file hfront
  have hslash : ∀ front : Text, (∀ c ∈ front, isPathChar c = true) →
      Clear (resolve .file (dropSlash .file front)) :=
    fun _ hfront => clear_resolve .file fun c hc => hfront c (mem_of_mem_dropSlash hc)
  rw [file?.eq_def] at h
  dsimp only at h
  split at h
  · split at h
    · split at h
      · cases h
        exact regular_ofHost hscheme Host.regular_nil hplain
      · split at h
        · cases h
          exact regular_ofHost hscheme Host.regular_nil hslash
        · obtain ⟨host, hhost, rfl⟩ := Option.map_eq_some_iff.mp h
          split
          · exact regular_ofHost hscheme Host.regular_nil hplain
          · split
            · exact regular_ofHost hscheme Host.regular_nil hslash
            · exact regular_ofHost hscheme (Host.regular_ofName hhost) hslash
    · cases h
      exact regular_ofHost hscheme Host.regular_nil hslash
  · cases h
    exact regular_ofHost hscheme Host.regular_nil hslash

theorem toLower_ne {c d : Char} (h : c ≠ d) (hd : d.toNat < 'a'.toNat) : c.toLower ≠ d := by
  by_cases hupper : c.val ≥ 'A'.val ∧ c.val ≤ 'Z'.val
  · -- a small letter does not stand before the small letters
    intro he
    have hlower : c.toLower.val = c.val + ('a'.val - 'A'.val) := congrArg Char.val (dif_pos hupper)
    have hlow : 65 ≤ c.val.toNat := UInt32.le_iff_toNat_le.mp hupper.1
    have hhigh : c.val.toNat ≤ 90 := UInt32.le_iff_toNat_le.mp hupper.2
    have hsmall : d.toNat < 97 := hd
    have hnat : d.toNat = (c.val.toNat + 32) % 2 ^ 32 := by
      rw [← he, Char.toNat, hlower]
      exact UInt32.toNat_add c.val _
    omega
  · rwa [show c.toLower = c from dif_neg hupper]

theorem not_mem_scheme {cs scheme rest : Text} (h : scheme? cs = some (scheme, rest)) :
    ':' ∉ scheme := by
  rw [scheme?, List.span_eq_takeWhile_dropWhile] at h
  dsimp only at h
  split at h
  · next first name rest hname hrest =>
    split at h
    · cases h
      intro hm
      obtain ⟨c, hc, hlower⟩ := List.mem_map.mp hm
      refine toLower_ne (d := ':') ?_ (by decide) hlower
      rintro rfl
      have := List.mem_takeWhile_imp hc
      revert this
      decide
    · cases h
  · cases h

/-- What is read is regular. -/
theorem regular_of_parse {text : Text} {u : Uri} (h : parse? text = some u) : u.Regular := by
  rw [parse?] at h
  obtain ⟨⟨scheme, rest⟩, hread, h⟩ := Option.bind_eq_some_iff.mp h
  have hscheme : ':' ∉ scheme := not_mem_scheme hread
  clear hread
  dsimp only at h
  split at h
  · exact regular_file hscheme h
  · exact regular_afterSlashes hscheme h
  · split at h
    · exact regular_afterSlashes hscheme h
    · cases h
      refine regular_assemble hscheme nofun fun front _ hfront => ?_
      have hclear := clear_resolve .other hfront
      refine ⟨fun s hs => (hclear s hs).1, fun _ => ⟨resolve_ne_nil _ _, fun hhead => ?_⟩⟩
      exact (hclear _ (List.mem_of_mem_head? hhead)).2 rfl
    · next hslashes hslash =>
      cases h
      refine regular_assemble hscheme nofun fun front hfirst hfront => ⟨rfl, fun c hc => ?_, ?_⟩
      · rcases Percent.mem_escape hc with ⟨hc, -⟩ | hc
        · have := hfront c hc
          simpa [isPathChar, endsPath] using this
        · have hescape : ∀ c ∈ Percent.escapeChars, endsPath c = false :=
            List.all_iff_forall_prop.mp (by decide)
          exact hescape c hc
      · intro hhead
        cases front with
        | nil => cases hhead
        | cons c front =>
          rw [Percent.head_escape, Option.some.injEq] at hhead
          split at hhead
          · cases hhead
          · obtain ⟨back, rfl⟩ := hfirst
            exact hslash _ (by rw [hhead]; rfl)

/-- The URI of a file is regular. -/
theorem regular_ofFile (names : List Bytes) : (ofFile names).Regular := by
  refine ⟨?_, fun a ha => ?_, ?_, nofun⟩
  · have hcolon : ':' ∉ "file".toList := by decide
    exact hcolon
  · rw [← Option.some.inj ha]
    exact regular_nowhere
  · refine ⟨fun s hs c hc => ?_, nofun⟩
    split at hs
    · rw [List.mem_singleton.mp hs] at hc
      cases hc
    · obtain ⟨name, -, rfl⟩ := List.mem_map.mp hs
      have hmarks : ∀ c ∈ ['/', '?', '#'], Percent.isWritten c = false :=
        List.all_iff_forall_prop.mp (by decide)
      refine decide_eq_false fun hm => ?_
      have hwritten := Percent.ofBytes_written name c hc
      rw [hmarks c hm] at hwritten
      cases hwritten

/-- a URI as there is one: read from a text, or that of a file -/
def Proper (u : Uri) : Prop := (∃ text, parse? text = some u) ∨ ∃ names, u = ofFile names

theorem Proper.regular {u : Uri} (hu : u.Proper) : u.Regular := by
  rcases hu with ⟨text, h⟩ | ⟨names, rfl⟩
  · exact regular_of_parse h
  · exact regular_ofFile names

/-- URIs of one text are the same. -/
theorem eq_of_render {u v : Uri} (hu : u.Proper) (hv : v.Proper) (h : u.render = v.render) : u = v :=
  hu.regular.eq_of_render hv.regular h

end Uri

end CppMend
