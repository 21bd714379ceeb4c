import CppMend.HostName.Basic
import Mathlib.Data.Bool.AllAny
import Mathlib.Data.List.InsertIdx

/-!
# What names of hosts hold

Reading a label that is written in ASCII gives no characters of ASCII but those it is written with, and
writing one gives letters, digits and hyphens. So the name of a host holds nothing that a name may not
hold.

* `Punycode.mem_decode`, `Punycode.mem_encode`   the characters of a label that is read or written;
* `HostName.not_forbidden`                       those of a whole name.
-/

namespace CppMend

namespace Text

theorem mem_of_mem_pieces {cut : Char → Bool} {cs p : Text} (hp : p ∈ pieces cut cs) :
    ∀ c ∈ p, c ∈ cs ∧ cut c = false := by
  induction cs generalizing p with
  | nil =>
    rw [pieces, List.mem_singleton] at hp
    rw [hp]
    exact fun _ h => absurd h List.not_mem_nil
  | cons d cs ih =>
    rw [pieces] at hp
    have later : ∀ q ∈ pieces cut cs, ∀ c ∈ q, c ∈ d :: cs ∧ cut c = false := fun q hq c hc =>
      ⟨List.mem_cons_of_mem d (ih hq c hc).1, (ih hq c hc).2⟩
    split at hp
    · rcases List.mem_cons.mp hp with rfl | hp
      · exact fun _ h => absurd h List.not_mem_nil
      · exact later p hp
    · next hd =>
      have hd : cut d = false := Bool.eq_false_iff.mpr hd
      split at hp
      · rw [List.mem_singleton] at hp
        rw [hp]
        intro c hc
        rw [List.mem_singleton.mp hc]
        exact ⟨List.mem_cons_self, hd⟩
      · next q qs hq =>
        rcases List.mem_cons.mp hp with rfl | hp
        · intro c hc
          rcases List.mem_cons.mp hc with rfl | hc
          · exact ⟨List.mem_cons_self, hd⟩
          · exact later q (by rw [hq]; exact List.mem_cons_self) c hc
        · exact later p (by rw [hq]; exact List.mem_cons_of_mem _ hp)

theorem mem_of_mem_joined {separator : Text} {ps : List Text} {c : Char}
    (h : c ∈ joined separator ps) : c ∈ separator ∨ ∃ p ∈ ps, c ∈ p := by
  induction ps with
  | nil => cases h
  | cons p ps ih =>
    cases ps with
    | nil => exact .inr ⟨p, List.mem_cons_self, h⟩
    | cons q qs =>
      rw [joined, List.mem_append, List.mem_append] at h
      · rcases h with (h | h) | h
        · exact .inr ⟨p, List.mem_cons_self, h⟩
        · exact .inl h
        · rcases ih h with h | ⟨r, hr, h⟩
          · exact .inl h
          · exact .inr ⟨r, List.mem_cons_of_mem _ hr, h⟩
      · exact List.cons_ne_nil q qs

end Text

theorem exists_of_mem_mapM {α β : Type} {f : α → Option β} {xs : List α} {ys : List β}
    (h : xs.mapM f = some ys) : ∀ y ∈ ys, ∃ x ∈ xs, f x = some y := by
  induction xs generalizing ys with
  | nil =>
    cases h
    exact fun _ h => absurd h List.not_mem_nil
  | cons x xs ih =>
    rw [List.mapM_cons] at h
    obtain ⟨z, hz, h⟩ := Option.bind_eq_some_iff.mp h
    obtain ⟨zs, hzs, h⟩ := Option.bind_eq_some_iff.mp h
    cases h
    intro y hy
    rcases List.mem_cons.mp hy with rfl | hy
    · exact ⟨x, List.mem_cons_self, hz⟩
    · obtain ⟨w, hw, hf⟩ := ih hzs y hy
      exact ⟨w, List.mem_cons_of_mem _ hw, hf⟩

namespace Punycode

/-! ## writing -/

def IsDigit (c : Char) : Prop := ∃ d < base, c = digit d

theorem isDigit_digits (bias count n : Nat) : ∀ c ∈ digits bias count n, IsDigit c := by
  induction count, n using digits.induct bias with
  | case1 count n t hlt =>
    have ht := threshold_lt bias count
    rw [digits, if_pos hlt]
    intro c hc
    exact ⟨n, Nat.lt_trans hlt ht, List.mem_singleton.mp hc⟩
  | case2 count n t hlt ih =>
    have ht := threshold_lt bias count
    rw [digits, if_neg hlt]
    intro c hc
    rcases List.mem_cons.mp hc with rfl | hc
    · have hmod := Nat.mod_lt (n - threshold bias count) (show 0 < base - threshold bias count by omega)
      exact ⟨_, by omega, rfl⟩
    · exact ih c hc

theorem isDigit_character {w : Writer} (hw : ∀ c ∈ w.written, IsDigit c) (plain code : Nat) (d : Char) :
    ∀ c ∈ (w.character plain code d).written, IsDigit c := by
  rw [Writer.character]
  split
  · exact hw
  · split
    · exact List.forall_mem_append.mpr ⟨hw, isDigit_digits _ _ _⟩
    · exact hw

theorem isDigit_label {w : Writer} (hw : ∀ c ∈ w.written, IsDigit c) (plain code : Nat)
    (label : Text) : ∀ c ∈ (label.foldl (Writer.character plain code) w).written, IsDigit c := by
  induction label generalizing w with
  | nil => exact hw
  | cons d label ih => exact ih (isDigit_character hw plain code d)

theorem isDigit_encodeCodes (label : Text) (plain code : Nat) {w : Writer}
    (hw : ∀ c ∈ w.written, IsDigit c) (codes : List Nat) :
    ∀ c ∈ encodeCodes label plain code w codes, IsDigit c := by
  induction codes generalizing code w with
  | nil => exact hw
  | cons next codes ih =>
    refine ih (next + 1) (isDigit_label ?_ plain next label)
    exact hw

/-- A label is written with its own characters of ASCII, hyphens and digits. -/
theorem mem_encode {label : Text} {c : Char} (h : c ∈ encode label) :
    (c ∈ label ∧ isPlain c = true) ∨ c = '-' ∨ IsDigit c := by
  rw [encode, List.mem_append, List.mem_append] at h
  rcases h with (h | h) | h
  · exact .inl (List.mem_filter.mp h)
  · split at h
    · cases h
    · exact .inr (.inl (List.mem_singleton.mp h))
  · exact .inr (.inr (isDigit_encodeCodes label _ _ (fun _ h => absurd h List.not_mem_nil) _ c h))

/-! ## reading -/

/-- The characters of ASCII in a label that is read are among some others. -/
structure Reader.From (cs : Text) (r : Reader) : Prop where
  label : ∀ c ∈ r.label, c ∈ cs ∨ isPlain c = false
  code : firstCode ≤ r.code

namespace Reader

theorem From.insert {cs : Text} {r r' : Reader} (hr : r.From cs) (h : r.insert? = some r') :
    r'.From cs := by
  rw [insert?] at h
  split at h
  · next hvalid =>
    cases h
    have hcode : firstCode ≤ r.code + r.number / (r.label.length + 1) :=
      Nat.le_trans hr.code (Nat.le_add_right _ _)
    refine ⟨fun c hc => ?_, hcode⟩
    rcases List.eq_or_mem_of_mem_insertIdx hc with rfl | hc
    · refine .inr (decide_eq_false ?_)
      have hchar : (Char.ofNat (r.code + r.number / (r.label.length + 1))).toNat
          = r.code + r.number / (r.label.length + 1) := by
        rw [Char.ofNat, dif_pos hvalid]
        rfl
      rw [hchar]
      exact Nat.not_lt.mpr hcode
    · exact hr.label c hc
  · cases h

theorem From.digit {cs : Text} {r r' : Reader} (hr : r.From cs) {c : Char}
    (h : r.digit? c = some r') : r'.From cs := by
  rw [digit?] at h
  obtain ⟨d, -, h⟩ := Option.bind_eq_some_iff.mp h
  dsimp only at h
  split at h
  · cases h
  · split at h
    · have hnumber : From cs { r with number := r.number + d * r.weight } := ⟨hr.label, hr.code⟩
      exact hnumber.insert h
    · split at h
      · cases h
      · cases h
        exact ⟨hr.label, hr.code⟩

theorem From.digits {cs digits : Text} {r r' : Reader} (hr : r.From cs)
    (h : digits.foldlM digit? r = some r') : r'.From cs := by
  induction digits generalizing r with
  | nil =>
    cases h
    exact hr
  | cons c digits ih =>
    rw [List.foldlM_cons] at h
    obtain ⟨r₁, h₁, h⟩ := Option.bind_eq_some_iff.mp h
    exact ih (hr.digit h₁) h

end Reader

theorem split_front (cs : Text) : ∀ c ∈ (split cs).1, c ∈ cs := by
  intro c hc
  rw [split] at hc
  split at hc
  · cases hc
  · exact List.mem_of_mem_take hc

/-- A label that is read has no characters of ASCII but those it is written with. -/
theorem mem_decode {cs label : Text} (h : decode? cs = some label) :
    ∀ c ∈ label, c ∈ cs ∨ isPlain c = false := by
  rw [decode?] at h
  obtain ⟨r, hr, h⟩ := Option.bind_eq_some_iff.mp h
  split at h
  · cases h
    have hplain : (Reader.ofPlain (split cs).1).From cs :=
      ⟨fun c hc => .inl (split_front cs c hc), Nat.le_refl _⟩
    exact (hplain.digits hr).label
  · cases h

end Punycode

namespace HostName

open Punycode (isPlain)

/-! ## names -/

theorem mem_opened {piece label : Text} (h : opened? piece = some label) :
    ∀ c ∈ label, c ∈ piece ∨ isPlain c = false := by
  rw [opened?] at h
  split at h
  · dsimp only at h
    split at h
    · cases h
    · obtain ⟨decoded, hd, h⟩ := Option.bind_eq_some_iff.mp h
      split at h
      · cases h
      · cases h
        intro c hc
        exact (Punycode.mem_decode hd c hc).imp_left List.mem_of_mem_drop
  · cases h
    exact fun c hc => .inl hc

/-- A label in ASCII holds characters of the one it is for, or what labels are written with. -/
theorem mem_closed {label : Text} {c : Char} (h : c ∈ closed label) :
    (c ∈ label ∧ isPlain c = true) ∨ isForbidden c = false := by
  rw [closed] at h
  split at h
  · next hall => exact .inl ⟨h, List.all_eq_true.mp hall c h⟩
  · rcases List.mem_append.mp h with h | h
    · have hmark : ∀ c ∈ mark, isForbidden c = false :=
        List.all_iff_forall_prop.mp (by decide)
      exact .inr (hmark c h)
    · rcases Punycode.mem_encode h with h | rfl | ⟨d, hd, rfl⟩
      · exact .inl h
      · exact .inr (by decide)
      · have hdigit : ∀ d < Punycode.base, isForbidden (Punycode.digit d) = false := by decide
        exact .inr (hdigit d hd)

/-- The name of a host holds nothing that no name may hold. -/
theorem not_forbidden {cs name : Text} (h : ofText? cs = some name) :
    ∀ c ∈ name, isForbidden c = false := by
  rw [ofText?] at h
  obtain ⟨mapped, -, h⟩ := Option.bind_eq_some_iff.mp h
  split at h
  · cases h
  · next hallowed =>
    obtain ⟨labels, hlabels, h⟩ := Option.bind_eq_some_iff.mp h
    split at h
    · cases h
      intro c hc
      rcases Text.mem_of_mem_joined hc with hc | ⟨p, hp, hc⟩
      · rw [List.mem_singleton.mp hc]
        decide
      · obtain ⟨label, hlabel, rfl⟩ := List.mem_map.mp hp
        rcases mem_closed hc with ⟨hc, hplain⟩ | hc
        · -- a character of ASCII is one of the name before it was cut into labels
          obtain ⟨piece, hpiece, hopened⟩ := exists_of_mem_mapM hlabels label hlabel
          rcases mem_opened hopened c hc with hc | hc
          · have hmapped : c ∈ mapped := (Text.mem_of_mem_pieces hpiece c hc).1
            exact Bool.eq_false_iff.mpr fun hf => hallowed (List.any_eq_true.mpr ⟨c, hmapped, hf⟩)
          · rw [hplain] at hc
            cases hc
        · exact hc
    · cases h

end HostName

end CppMend
