import CppMend.Proofs.HostName.Allowed
import CppMend.Proofs.Uri.Render
import CppMend.Uri.Host

/-!
# Hosts are regular

Number addresses are written with digits, dots and colons, and names with what names may hold. So no
host ends before it is over, and none holds a colon but between brackets.

* `Percent.mem_escape`      the characters of an escaped text;
* `Address.mem_short`, `Address.mem_long`   those of number addresses;
* `Host.regular_ofName`, `Host.regular_ofText`   the hosts of all URIs.
-/

namespace CppMend

namespace Percent

/-- what escapes are written with -/
def escapeChars : List Char := "%0123456789ABCDEF".toList

theorem mem_escapeByte {b : UInt8} {c : Char} (h : c ∈ escapeByte b) : c ∈ escapeChars := by
  have hdigit : ∀ n < 16, digit n ∈ escapeChars := by decide
  have hb : b.toNat < 256 := b.toNat_lt
  simp only [escapeByte, List.mem_cons, List.not_mem_nil, or_false] at h
  rcases h with rfl | rfl | rfl
  · decide
  · exact hdigit _ (by omega)
  · exact hdigit _ (by omega)

theorem mem_escape {set : Char → Bool} {cs : Text} {c : Char} (h : c ∈ escape set cs) :
    (c ∈ cs ∧ set c = false) ∨ c ∈ escapeChars := by
  obtain ⟨x, hx, hc⟩ := List.mem_flatMap.mp h
  split at hc
  · obtain ⟨b, -, hb⟩ := List.mem_flatMap.mp hc
    exact .inr (mem_escapeByte hb)
  · next hset =>
    rw [List.mem_singleton.mp hc]
    exact .inl ⟨hx, Bool.eq_false_iff.mpr hset⟩

/-- An escaped text holds no character that is escaped or was not there, but for what escapes are
written with. -/
theorem not_mem_escape {set : Char → Bool} {cs : Text} {c : Char} (h : c ∉ cs ∨ set c = true)
    (hc : c ∉ escapeChars) : c ∉ escape set cs := by
  intro hm
  rcases mem_escape hm with ⟨hcs, hset⟩ | he
  · rcases h with h | h
    · exact h hcs
    · rw [h] at hset
      cases hset
  · exact hc he

end Percent

namespace Address

theorem mem_toDigits {b n : Nat} (hb : 1 < b) {c : Char} (h : c ∈ Nat.toDigits b n) :
    ∃ d < b, c = Nat.digitChar d := by
  induction n using Nat.strongRecOn with
  | _ n ih =>
    rw [Nat.toDigits_eq_if hb] at h
    split at h
    · next hn => exact ⟨n, hn, List.mem_singleton.mp h⟩
    · next hn =>
      rcases List.mem_append.mp h with h | h
      · exact ih (n / b) (Nat.div_lt_self (by omega) hb) h
      · exact ⟨n % b, Nat.mod_lt n (by omega), List.mem_singleton.mp h⟩

/-- what long addresses are written with -/
def longChars : List Char := ":0123456789abcdef".toList

theorem mem_groupsText {groups : List Nat} {c : Char} (h : c ∈ groupsText groups) : c ∈ longChars := by
  have hdigit : ∀ d < 16, Nat.digitChar d ∈ longChars := by decide
  rcases Text.mem_of_mem_joined h with h | ⟨g, hg, h⟩
  · rw [List.mem_singleton.mp h]
    decide
  · obtain ⟨n, -, rfl⟩ := List.mem_map.mp hg
    obtain ⟨d, hd, rfl⟩ := mem_toDigits (by decide) h
    exact hdigit d hd

theorem mem_long {cs text : Text} (h : long? cs = some text) : ∀ c ∈ text, c ∈ longChars := by
  obtain ⟨groups, -, rfl⟩ := Option.map_eq_some_iff.mp h
  intro c hc
  rw [longText] at hc
  split at hc
  · split at hc
    · exact mem_groupsText hc
    · rw [List.mem_append, List.mem_append] at hc
      rcases hc with (hc | hc) | hc
      · exact mem_groupsText hc
      · have hgap : ∀ c ∈ [':', ':'], c ∈ longChars := List.all_iff_forall_prop.mp (by decide)
        exact hgap c hc
      · exact mem_groupsText hc
  · exact mem_groupsText hc

theorem intercalate_eq (separator : Text) (ps : List Text) :
    separator.intercalate ps = Text.joined separator ps := by
  induction ps with
  | nil => rfl
  | cons p ps ih =>
    cases ps with
    | nil => exact List.intercalate_singleton
    | cons q qs =>
      rw [List.intercalate_cons_cons, ih]
      rfl

theorem mem_short {name text : Text} (h : short? name = some text) :
    ∀ c ∈ text, c = '.' ∨ c.isDigit = true := by
  rw [short?] at h
  obtain ⟨values, -, h⟩ := Option.bind_eq_some_iff.mp h
  obtain ⟨last, -, h⟩ := Option.bind_eq_some_iff.mp h
  dsimp only at h
  split at h
  · cases h
  · cases h
    intro c hc
    rw [String.toList_intercalate, intercalate_eq] at hc
    rcases Text.mem_of_mem_joined hc with hc | ⟨p, hp, hc⟩
    · exact .inl (List.mem_singleton.mp hc)
    · obtain ⟨s, hs, rfl⟩ := List.mem_map.mp hp
      obtain ⟨n, -, rfl⟩ := List.mem_map.mp hs
      rw [Nat.toString_eq_repr, Nat.toList_repr] at hc
      exact .inr (Nat.isDigit_of_mem_toDigits (by decide) (by decide) hc)

end Address

namespace Host

/-- what no host holds outside of brackets -/
def marks : List Char := ['/', '?', '#', '@', ':', '[']

theorem regular_of_marks {host : Text} (h : ∀ c ∈ host, c ∉ marks) : Regular host := by
  have hno : ∀ m ∈ marks, m ∉ host := fun m hm hc => h m hc hm
  refine ⟨hno '@' (by decide), .inl ⟨hno ':' (by decide), hno '[' (by decide)⟩, fun c hc => ?_⟩
  have hmarks : ∀ m ∈ ['/', '?', '#'], m ∈ marks := List.all_iff_forall_prop.mp (by decide)
  exact decide_eq_false fun hm => h c hc (hmarks c hm)

theorem regular_nil : Regular [] := regular_of_marks nofun

theorem regular_inBrackets {cs host : Text} (h : inBrackets? cs = some host) : Regular host := by
  rw [inBrackets?] at h
  split at h
  · obtain ⟨address, haddress, rfl⟩ := Option.map_eq_some_iff.mp h
    have hchars := Address.mem_long haddress
    have hno : ∀ m, m ∉ '[' :: ']' :: Address.longChars → m ∉ '[' :: address ++ [']'] := by
      intro m hm hc
      rcases List.mem_append.mp hc with hc | hc
      · rcases List.mem_cons.mp hc with rfl | hc
        · exact hm List.mem_cons_self
        · exact hm (List.mem_cons_of_mem _ (List.mem_cons_of_mem _ (hchars m hc)))
      · exact hm (List.mem_cons_of_mem _ (by rw [List.mem_singleton.mp hc]; exact List.mem_cons_self))
    refine ⟨hno '@' (by decide), .inr ⟨address, rfl, ?_⟩, fun c hc => ?_⟩
    · intro hm
      have hout : ']' ∉ Address.longChars := by decide
      exact hout (hchars _ hm)
    · have hends : ∀ c ∈ ['/', '?', '#'], c ∉ '[' :: ']' :: Address.longChars :=
        List.all_iff_forall_prop.mp (by decide)
      exact decide_eq_false fun hm => hno c (hends c hm) hc
  · cases h

/-- the hosts of files and of the web -/
theorem regular_ofName {cs host : Text} (h : ofName? cs = some host) : Regular host := by
  rw [ofName?.eq_def] at h
  split at h
  · exact regular_inBrackets h
  · obtain ⟨name, hname, h⟩ := Option.bind_eq_some_iff.mp h
    split at h
    · cases h
    · split at h
      · have hout : ∀ c ∈ marks, c ≠ '.' ∧ c.isDigit = false :=
          List.all_iff_forall_prop.mp (by decide)
        refine regular_of_marks fun c hc hm => ?_
        rcases Address.mem_short h c hc with hdot | hdigit
        · exact (hout c hm).1 hdot
        · rw [(hout c hm).2] at hdigit
          cases hdigit
      · cases h
        have hout : ∀ c ∈ marks, HostName.isForbidden c = true :=
          List.all_iff_forall_prop.mp (by decide)
        refine regular_of_marks fun c hc hm => ?_
        have hallowed := HostName.not_forbidden hname c hc
        rw [hout c hm] at hallowed
        cases hallowed

/-- the hosts of other URIs -/
theorem regular_ofText {cs host : Text} (h : ofText? cs = some host) : Regular host := by
  rw [ofText?.eq_def] at h
  split at h
  · exact regular_inBrackets h
  · split at h
    · cases h
    · next hany =>
      cases h
      have hout : ∀ c ∈ marks, c ∈ forbidden ∧ c ∉ Percent.escapeChars :=
        List.all_iff_forall_prop.mp (by decide)
      refine regular_of_marks fun c hc hm => ?_
      refine Percent.not_mem_escape (.inl fun hcs => hany ?_) (hout c hm).2 hc
      exact List.any_eq_true.mpr ⟨c, hcs, decide_eq_true (hout c hm).1⟩

end Host

end CppMend
