import CppMend.Files.Name
import CppMend.Uri.Parse
import Mathlib.Data.List.TakeDrop
import Mathlib.Data.List.TakeWhile

/-!
# URIs of files

The URI of a file is read back from its text, whatever the names of the file and its directories
are: what they may not hold is escaped, and no escape stands for a dot.

* `Percent.escape_eq_self`   a text that a place admits is not escaped again;
* `Percent.ofBytes_written`  what the escaped name of a file consists of;
* `Uri.undotted_ofBytes`     none of its escapes stands for a dot;
* `Uri.resolve_slashed`      escaped names are the segments of their path;
* `Uri.parse?_ofFile`        the round trip.
-/

namespace CppMend

namespace Percent

theorem escape_eq_self {set : Char → Bool} {cs : Text} (h : ∀ c ∈ cs, set c = false) :
    escape set cs = cs := by
  induction cs with
  | nil => rfl
  | cons c cs ih =>
    have hc : set c = false := h c List.mem_cons_self
    have ih := ih fun x hx => h x (List.mem_cons_of_mem _ hx)
    unfold escape at ih ⊢
    simp [List.flatMap_cons, hc, ih]

theorem escape_cons (set : Char → Bool) (c : Char) (cs : Text) :
    escape set (c :: cs)
      = (if set c then (Bytes.ofText [c]).flatMap escapeByte else [c]) ++ escape set cs := by
  simp [escape]

theorem ofBytes_cons (set : Char → Bool) (b : UInt8) (bs : Bytes) : ofBytes set (b :: bs)
    = (if set (Char.ofNat b.toNat) then escapeByte b else [Char.ofNat b.toNat]) ++ ofBytes set bs := by
  simp [ofBytes]

/-- a character that stands in the path of a written URI as it is, and does not end a segment -/
def isWritten (c : Char) : Bool := 0x20 < c.toNat && !inPath c && c ≠ '/' && c ≠ '\\'

theorem isWritten_of_not_inSegment {c : Char} (h : inSegment c = false) : isWritten c = true := by
  simp only [inSegment, Bool.or_eq_false_iff, decide_eq_false_iff_not, List.mem_cons,
    List.not_mem_nil, or_false, not_or] at h
  obtain ⟨hpath, hslash, -, hback⟩ := h
  have hcontrol : 0x20 < c.toNat := by
    have hblank : c ≠ ' ' := by
      intro he
      rw [he] at hpath
      revert hpath
      decide
    have hne : c.toNat ≠ 0x20 := fun he => hblank (Char.toNat_inj.mp he)
    simp only [inPath, inFragment, isControl, Bool.or_eq_false_iff, decide_eq_false_iff_not] at hpath
    omega
  simp [isWritten, hcontrol, hpath, hslash, hback]

theorem isWritten_digit : ∀ n < 16, isWritten (digit n) = true := by decide

theorem isWritten_of_mem_escapeByte {b : UInt8} {c : Char} (h : c ∈ escapeByte b) :
    isWritten c = true := by
  have hb : b.toNat < 256 := b.toNat_lt
  simp only [escapeByte, List.mem_cons, List.not_mem_nil, or_false] at h
  rcases h with rfl | rfl | rfl
  · decide
  · exact isWritten_digit _ (by omega)
  · exact isWritten_digit _ (by omega)

/-- The escaped name of a file consists of characters that are written as they are. -/
theorem ofBytes_written (name : Bytes) : ∀ c ∈ ofBytes inSegment name, isWritten c = true := by
  intro c hc
  obtain ⟨b, -, hc⟩ := List.mem_flatMap.mp hc
  split at hc
  · exact isWritten_of_mem_escapeByte hc
  · next hb =>
    rw [List.mem_singleton.mp hc]
    exact isWritten_of_not_inSegment (Bool.eq_false_iff.mpr hb)

/-- An escaped name consists of dots only if the name does. -/
theorem eq_dots_of_ofBytes {name : Bytes} {n : Nat}
    (h : ofBytes inSegment name = List.replicate n '.') : name = List.replicate n PathName.dot := by
  induction name generalizing n with
  | nil =>
    cases n with
    | zero => rfl
    | succ n => cases h
  | cons b bs ih =>
    rw [ofBytes_cons] at h
    cases n with
    | zero =>
      -- a byte is written somehow
      split at h <;> cases h
    | succ n =>
      rw [List.replicate_succ] at h ⊢
      split at h
      · -- an escape starts with a character that is no dot
        cases (List.cons.inj h).1
      · obtain ⟨hb, hbs⟩ := List.cons.inj h
        have hdot : ∀ n < 256, Char.ofNat n = '.' → n = 0x2e := by decide +kernel
        have hb : b = PathName.dot := UInt8.toNat_inj.mp (hdot b.toNat b.toNat_lt hb)
        rw [ih hbs, hb]

end Percent

namespace Uri

theorem undotted_cons {c : Char} (hc : c ≠ '%') (cs : Text) :
    undotted (c :: cs) = c :: undotted cs := by
  rw [undotted]
  · intro rest he
    exact absurd he hc
  · intro rest he
    exact absurd he hc

theorem undotted_escapeByte {b : UInt8} (hb : b.toNat ≠ 0x2e) (cs : Text) :
    undotted (Percent.escapeByte b ++ cs) = Percent.escapeByte b ++ undotted cs := by
  have hdigits : ∀ n < 256, n ≠ 0x2e → Percent.digit (n / 16) ≠ '%' ∧ Percent.digit (n % 16) ≠ '%'
      ∧ Percent.digit (n % 16) ≠ 'e'
      ∧ ¬(Percent.digit (n / 16) = '2' ∧ Percent.digit (n % 16) = 'E') := by
    decide +kernel
  obtain ⟨hfirst, hsecond, hsmall, hdot⟩ := hdigits b.toNat b.toNat_lt hb
  have hpercent : ∀ x y : Char, y ≠ 'e' → ¬(x = '2' ∧ y = 'E') →
      undotted ('%' :: x :: y :: cs) = '%' :: undotted (x :: y :: cs) := by
    intro x y hy hxy
    rw [undotted]
    · intro rest he
      simp_all
    · intro rest he
      simp_all
  show undotted ('%' :: Percent.digit (b.toNat / 16) :: Percent.digit (b.toNat % 16) :: cs) = _
  rw [hpercent _ _ hsmall hdot, undotted_cons hfirst, undotted_cons hsecond]
  rfl

/-- No escape in an escaped name stands for a dot. -/
theorem undotted_ofBytes (name : Bytes) :
    undotted (Percent.ofBytes Percent.inSegment name) = Percent.ofBytes Percent.inSegment name := by
  induction name with
  | nil => rfl
  | cons b bs ih =>
    rw [Percent.ofBytes_cons]
    split
    · next hb =>
      have hdot : b.toNat ≠ 0x2e := by
        intro he
        rw [he] at hb
        cases hb
      rw [undotted_escapeByte hdot, ih]
    · next hb =>
      have hpercent : Char.ofNat b.toNat ≠ '%' := by
        intro he
        rw [he] at hb
        exact hb rfl
      rw [List.singleton_append, undotted_cons hpercent, ih]

/-! ## paths -/

/-- the segment is kept as it is, unless it is the first one and a drive -/
def IsKept (s : Text) : Prop :=
  undotted s ≠ ['.', '.'] ∧ undotted s ≠ ['.'] ∧ Percent.escape Percent.inPath s = s

theorem addSegment_kept {f : Family} {front : List Text} {s : Text} (hfront : front ≠ [])
    (hs : IsKept s) (last : Bool) : addSegment f front s last = front ++ [s] := by
  obtain ⟨htwo, hone, hself⟩ := hs
  simp [addSegment, htwo, hone, hfront, hself]

theorem addSegments_kept {f : Family} {front segments : List Text} (hfront : front ≠ [])
    (h : ∀ s ∈ segments, IsKept s) : addSegments f front segments = front ++ segments := by
  induction segments generalizing front with
  | nil => simp [addSegments]
  | cons s segments ih =>
    have hs : IsKept s := h s List.mem_cons_self
    cases segments with
    | nil => exact addSegment_kept hfront hs true
    | cons t segments =>
      have hfront' : front ++ [s] ≠ [] := by simp
      have ih := ih hfront' fun x hx => h x (List.mem_cons_of_mem _ hx)
      rw [addSegments, addSegment_kept hfront hs, ih, List.append_assoc]
      · rfl
      · simp

/-- The segments of a path that starts with a slash, after an empty one for the slash. -/
theorem resolve_slashed {segments : List Text} (hne : segments ≠ [])
    (hslash : ∀ s ∈ segments, ∀ c ∈ s, Family.file.isSlash c = false)
    (h : ∀ s ∈ segments, IsKept s) :
    resolve .file (slashed segments) = [] :: segments := by
  obtain ⟨t, ts, rfl⟩ := List.exists_cons_of_ne_nil hne
  have hfirst : addSegment .file [] [] false = [[]] := rfl
  rw [resolve, slashed, Text.pieces_flatMap rfl hslash, addSegments, hfirst, addSegments_kept (by simp) h]
  · rfl
  · simp

/-! ## whole URIs -/

theorem trimmed_eq_self {cs : Text} (h : ∀ c ∈ cs, 0x20 < c.toNat) : trimmed cs = cs := by
  have hdrop : ∀ xs : Text, (∀ c ∈ xs, c ∈ cs) → xs.dropWhile isBlank = xs := by
    intro xs hxs
    cases xs with
    | nil => rfl
    | cons x xs =>
      have hx := h x (hxs x List.mem_cons_self)
      have hblank : isBlank x = false := by simp [isBlank]; omega
      simp [hblank]
  unfold trimmed
  rw [hdrop cs fun c hc => hc, hdrop cs.reverse fun c hc => List.mem_reverse.mp hc,
    List.reverse_reverse]
  apply List.filter_eq_self.mpr
  intro c hc
  have hc := h c hc
  simp only [List.mem_cons, List.not_mem_nil, or_false, not_or, decide_eq_true_eq]
  refine ⟨?_, ?_, ?_⟩ <;> rintro rfl <;> revert hc <;> decide

theorem mem_slashed {segments : List Text} {c : Char} (hc : c ∈ slashed segments) :
    c = '/' ∨ ∃ s ∈ segments, c ∈ s := by
  obtain ⟨s, hs, hc⟩ := List.mem_flatMap.mp hc
  rcases List.mem_cons.mp hc with rfl | hc
  · exact .inl rfl
  · exact .inr ⟨s, hs, hc⟩

/-- A URI of a file with written segments and no host is read back. -/
theorem parse?_file {s : Text} {segments : List Text} (hs : s ≠ [])
    (hwritten : ∀ t ∈ s :: segments, ∀ c ∈ t, Percent.isWritten c = true)
    (h : ∀ t ∈ s :: segments, IsKept t) :
    parse? ("file://".toList ++ slashed (s :: segments))
      = some ⟨"file".toList, some .nowhere, .rooted (s :: segments), none, none⟩ := by
  have hchars : ∀ c ∈ slashed (s :: segments), 0x20 < c.toNat ∧ isPathChar c = true := by
    intro c hc
    rcases mem_slashed hc with rfl | ⟨t, ht, hc⟩
    · decide
    · have hc := hwritten t ht c hc
      simp only [Percent.isWritten, Bool.and_eq_true, decide_eq_true_eq, Bool.not_eq_true'] at hc
      obtain ⟨⟨⟨hblank, hpath⟩, -⟩, -⟩ := hc
      refine ⟨hblank, ?_⟩
      simp only [isPathChar, Bool.and_eq_true, decide_eq_true_eq]
      constructor <;> rintro rfl <;> revert hpath <;> decide
  have htrimmed : trimmed ("file://".toList ++ slashed (s :: segments))
      = "file://".toList ++ slashed (s :: segments) := by
    have hfront : "file://".toList.all (0x20 < ·.toNat) = true := by decide
    apply trimmed_eq_self
    intro c hc
    rcases List.mem_append.mp hc with hc | hc
    · simpa using List.all_eq_true.mp hfront c hc
    · exact (hchars c hc).1
  have hscheme : scheme? ("file://".toList ++ slashed (s :: segments))
      = some ("file".toList, '/' :: '/' :: slashed (s :: segments)) := rfl
  have hfile : file? "file".toList ('/' :: '/' :: slashed (s :: segments))
      = some (ofHost "file".toList [] (resolve .file) (slashed (s :: segments))) := rfl
  have hspan : (slashed (s :: segments)).span isPathChar = (slashed (s :: segments), []) := by
    rw [List.span_eq_takeWhile_dropWhile]
    have hall : ∀ c ∈ slashed (s :: segments), isPathChar c = true := fun c hc => (hchars c hc).2
    rw [List.takeWhile_eq_self_iff.mpr hall, List.dropWhile_eq_nil_iff.mpr hall]
  have hresolve : resolve .file (slashed (s :: segments)) = [] :: s :: segments := by
    apply resolve_slashed (by simp) _ h
    intro t ht c hc
    have hc := hwritten t ht c hc
    simp only [Percent.isWritten, Bool.and_eq_true, decide_eq_true_eq, ne_eq] at hc
    simp [Family.isSlash, hc.1.2, hc.2]
  have hroot : ofRoot ([] :: s :: segments) = s :: segments := by
    cases s with
    | nil => exact absurd rfl hs
    | cons c s => rfl
  unfold parse?
  rw [htrimmed, hscheme]
  show file? "file".toList ('/' :: '/' :: slashed (s :: segments)) = _
  rw [hfile, ofHost, assemble, hspan]
  simp only [hresolve, hroot, ending]
  rfl

theorem isKept_ofBytes {name : Bytes} (hhere : name ≠ PathName.here)
    (hupwards : name ≠ PathName.upwards) : IsKept (Percent.ofBytes Percent.inSegment name) := by
  refine ⟨fun he => hupwards ?_, fun he => hhere ?_, ?_⟩
  · rw [undotted_ofBytes] at he
    exact Percent.eq_dots_of_ofBytes (n := 2) he
  · rw [undotted_ofBytes] at he
    exact Percent.eq_dots_of_ofBytes (n := 1) he
  · apply Percent.escape_eq_self
    intro c hc
    have hc := Percent.ofBytes_written name c hc
    simp only [Percent.isWritten, Bool.and_eq_true, Bool.not_eq_true'] at hc
    exact hc.1.1.2

/-- The URI of a file or directory is read back from its text. -/
theorem parse?_ofFile {names : List Bytes}
    (h : ∀ name ∈ names, name ≠ [] ∧ name ≠ PathName.here ∧ name ≠ PathName.upwards) :
    parse? (ofFile names).render = some (ofFile names) := by
  cases names with
  | nil => decide
  | cons name names =>
    have hrender : (ofFile (name :: names)).render
        = "file://".toList
          ++ slashed ((name :: names).map (Percent.ofBytes Percent.inSegment)) := by
      simp [render, ofFile, guardText, pathText, Authority.nowhere, Authority.render]
    have hescaped : ∀ t ∈ (name :: names).map (Percent.ofBytes Percent.inSegment),
        (∀ c ∈ t, Percent.isWritten c = true) ∧ IsKept t := by
      intro t ht
      obtain ⟨n, hn, rfl⟩ := List.mem_map.mp ht
      obtain ⟨-, hhere, hupwards⟩ := h n hn
      exact ⟨Percent.ofBytes_written n, isKept_ofBytes hhere hupwards⟩
    have hne : Percent.ofBytes Percent.inSegment name ≠ [] := fun he =>
      (h name List.mem_cons_self).1 (Percent.eq_dots_of_ofBytes (n := 0) he)
    rw [hrender]
    exact parse?_file hne (fun t ht => (hescaped t ht).1) fun t ht => (hescaped t ht).2

end Uri

end CppMend
