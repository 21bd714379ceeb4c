import CppMend.Text.Utf8

/-!
# Texts and their bytes

The bytes of a text are read back, and no other bytes are read as the text.

* `Bytes.characters_encode`   the bytes of a character are read as the character;
* `Bytes.encode_of_lead`      what is read as a character are its bytes;
* `Bytes.text?_eq_some_iff`   bytes have a text just if they are those of the text.
-/

namespace CppMend

namespace Bytes

/-! ## first bytes -/

theorem lead?_one {b : Nat} (h : b < 0x80) : lead? b = some ⟨b, 0, 0x80, 0xbf⟩ := by
  rw [lead?, if_pos h]

theorem lead?_two {b : Nat} (hlow : 0xc2 ≤ b) (hhigh : b < 0xe0) :
    lead? b = some ⟨b - 0xc0, 1, 0x80, 0xbf⟩ := by
  rw [lead?, if_neg (by omega), if_neg (by omega), if_pos hhigh]

/-- After the first one of three bytes, the next one is not such that two bytes would do, or that
the character would be half of another one. -/
theorem lead?_three {b : Nat} (hlow : 0xe0 ≤ b) (hhigh : b < 0xf0) : lead? b
    = some ⟨b - 0xe0, 2, if b = 0xe0 then 0xa0 else 0x80, if b = 0xed then 0x9f else 0xbf⟩ := by
  rw [lead?, if_neg (by omega), if_neg (by omega), if_neg (by omega)]
  by_cases hfirst : b = 0xe0
  · simp [hfirst]
  by_cases hhalf : b = 0xed
  · simp [hhalf]
  · simp [hfirst, hhalf, hhigh]

/-- After the first one of four bytes, the next one is not such that three bytes would do, or that
there is no such character. -/
theorem lead?_four {b : Nat} (hlow : 0xf0 ≤ b) (hhigh : b < 0xf5) : lead? b
    = some ⟨b - 0xf0, 3, if b = 0xf0 then 0x90 else 0x80, if b = 0xf4 then 0x8f else 0xbf⟩ := by
  rw [lead?, if_neg (by omega), if_neg (by omega), if_neg (by omega), if_neg (by omega),
    if_neg (by omega), if_neg (by omega)]
  by_cases hfirst : b = 0xf0
  · simp [hfirst]
  by_cases hlast : b = 0xf4
  · simp [hlast]
  · have h : b < 0xf4 := by omega
    simp [hfirst, hlast, h]

/-- No character starts with any other byte. -/
theorem lead?_cases {b : Nat} {l : Lead} (h : lead? b = some l) : b < 0x80 ∨ 0xc2 ≤ b ∧ b < 0xe0
    ∨ 0xe0 ≤ b ∧ b < 0xf0 ∨ 0xf0 ≤ b ∧ b < 0xf5 := by
  unfold lead? at h
  repeat' first | omega | split at h
  all_goals cases h

/-! ## characters -/

theorem characters_cons (b : UInt8) (bs : Bytes) : characters (b :: bs)
    = match lead? b.toNat with
      | none => none :: characters bs
      | some l => (follow l.following l.low l.high l.bits bs).1
        :: characters (follow l.following l.low l.high l.bits bs).2 := by
  cases h : lead? b.toNat <;> simp only [characters, h]

/-- One more byte of a character adds its six bits. -/
theorem follow_succ {n low high bits : Nat} {b : Nat} (hlow : low ≤ b) (hhigh : b ≤ high) (hb : b < 256)
    (bs : Bytes) : follow (n + 1) low high bits (UInt8.ofNat b :: bs)
      = follow n 0x80 0xbf (bits * 64 + (b - 0x80)) bs := by
  have hnat : (UInt8.ofNat b).toNat = b := by
    rw [UInt8.toNat_ofNat', Nat.mod_eq_of_lt hb]
  rw [follow, hnat, if_pos ⟨hlow, hhigh⟩]

/-- The bytes of a character are read as the character. -/
theorem characters_encode (c : Char) (bs : Bytes) :
    characters (String.utf8EncodeChar c ++ bs) = some c :: characters bs := by
  have hvalid : c.toNat < 0xd800 ∨ 0xdfff < c.toNat ∧ c.toNat < 0x110000 := c.valid
  have hread : Char.ofNat c.toNat = c := Char.ofNat_toNat c
  have hval : c.val.toNat = c.toNat := rfl
  have hnat (b : Nat) (hb : b < 256) : (UInt8.ofNat b).toNat = b := by
    rw [UInt8.toNat_ofNat', Nat.mod_eq_of_lt hb]
  unfold String.utf8EncodeChar
  simp only [hval]
  generalize c.toNat = v at hvalid hread
  split
  · rw [List.singleton_append, characters_cons, hnat _ (by omega), lead?_one (by omega)]
    simp only [follow, hread]
  split
  · rw [List.cons_append, List.singleton_append, characters_cons, hnat _ (by omega),
      lead?_two (by omega) (by omega)]
    dsimp only
    rw [follow_succ (by omega) (by omega) (by omega)]
    have hbits : (v / 64 % 32 + 192 - 0xc0) * 64 + (v % 64 + 128 - 0x80) = v := by omega
    rw [hbits, follow, hread]
  split
  · rw [List.cons_append, List.cons_append, List.singleton_append, characters_cons, hnat _ (by omega),
      lead?_three (by omega) (by omega)]
    dsimp only
    rw [follow_succ (by split <;> omega) (by split <;> omega) (by omega),
      follow_succ (by omega) (by omega) (by omega)]
    have hbits : ((v / 4096 % 16 + 224 - 0xe0) * 64 + (v / 64 % 64 + 128 - 0x80)) * 64
        + (v % 64 + 128 - 0x80) = v := by omega
    rw [hbits, follow, hread]
  · rw [List.cons_append, List.cons_append, List.cons_append, List.singleton_append, characters_cons,
      hnat _ (by omega), lead?_four (by omega) (by omega)]
    dsimp only
    rw [follow_succ (by split <;> omega) (by split <;> omega) (by omega),
      follow_succ (by omega) (by omega) (by omega), follow_succ (by omega) (by omega) (by omega)]
    have hbits : (((v / 262144 % 8 + 240 - 0xf0) * 64 + (v / 4096 % 64 + 128 - 0x80)) * 64
        + (v / 64 % 64 + 128 - 0x80)) * 64 + (v % 64 + 128 - 0x80) = v := by omega
    rw [hbits, follow, hread]

/-- Another byte of a character has the bits that it adds. -/
theorem follow_succ_inv {n low high bits : Nat} {bs after : Bytes} {c : Char}
    (h : follow (n + 1) low high bits bs = (some c, after)) : ∃ b rest, bs = b :: rest
      ∧ (low ≤ b.toNat ∧ b.toNat ≤ high)
      ∧ follow n 0x80 0xbf (bits * 64 + (b.toNat - 0x80)) rest = (some c, after) := by
  cases bs with
  | nil => cases h
  | cons b rest =>
    rw [follow] at h
    split at h
    · next hb => exact ⟨b, rest, rfl, hb, h⟩
    · cases h

theorem follow_zero_inv {low high bits : Nat} {bs after : Bytes} {c : Char}
    (h : follow 0 low high bits bs = (some c, after)) : c = Char.ofNat bits ∧ after = bs := by
  rw [follow] at h
  obtain ⟨hc, hafter⟩ := Prod.mk.inj h
  exact ⟨(Option.some.inj hc).symm, hafter.symm⟩

theorem toNat_ofNat {v : Nat} (h : v.isValidChar) : (Char.ofNat v).val.toNat = v := by
  rw [Char.ofNat, dif_pos h]
  rfl

/-! ### the bytes of a character, by its bits -/

section
variable {b b₁ b₂ b₃ : UInt8}

theorem ofNat_eq {n : Nat} (h : n = b.toNat) : UInt8.ofNat n = b := by
  rw [h, UInt8.ofNat_toNat]

theorem encode_one (hb : b.toNat < 0x80) : String.utf8EncodeChar (Char.ofNat b.toNat) = [b] := by
  rw [String.utf8EncodeChar, toNat_ofNat (.inl (by omega)), if_pos (by omega), ofNat_eq rfl]

theorem encode_two (hb : 0xc2 ≤ b.toNat ∧ b.toNat < 0xe0) (h₁ : 0x80 ≤ b₁.toNat ∧ b₁.toNat ≤ 0xbf) :
    String.utf8EncodeChar (Char.ofNat ((b.toNat - 0xc0) * 64 + (b₁.toNat - 0x80))) = [b, b₁] := by
  rw [String.utf8EncodeChar, toNat_ofNat (.inl (by omega)), if_neg (by omega), if_pos (by omega),
    @ofNat_eq b _ (by omega), @ofNat_eq b₁ _ (by omega)]

theorem encode_three (hb : 0xe0 ≤ b.toNat ∧ b.toNat < 0xf0)
    (h₁ : (if b.toNat = 0xe0 then 0xa0 else 0x80) ≤ b₁.toNat
      ∧ b₁.toNat ≤ if b.toNat = 0xed then 0x9f else 0xbf)
    (h₂ : 0x80 ≤ b₂.toNat ∧ b₂.toNat ≤ 0xbf) :
    String.utf8EncodeChar (Char.ofNat
      (((b.toNat - 0xe0) * 64 + (b₁.toNat - 0x80)) * 64 + (b₂.toNat - 0x80))) = [b, b₁, b₂] := by
  -- fewer bits would do with two bytes, and halves of characters are no characters
  have hfirst : 0x80 ≤ b₁.toNat ∧ b₁.toNat ≤ 0xbf ∧ (b.toNat = 0xe0 → 0xa0 ≤ b₁.toNat)
      ∧ (b.toNat = 0xed → b₁.toNat ≤ 0x9f) := by
    obtain ⟨hlow, hhigh⟩ := h₁
    split at hlow <;> split at hhigh <;> omega
  have hvalid : (((b.toNat - 0xe0) * 64 + (b₁.toNat - 0x80)) * 64
      + (b₂.toNat - 0x80)).isValidChar := by
    simp only [Nat.isValidChar]
    omega
  rw [String.utf8EncodeChar, toNat_ofNat hvalid, if_neg (by omega), if_neg (by omega),
    if_pos (by omega), @ofNat_eq b _ (by omega), @ofNat_eq b₁ _ (by omega), @ofNat_eq b₂ _ (by omega)]

theorem encode_four (hb : 0xf0 ≤ b.toNat ∧ b.toNat < 0xf5)
    (h₁ : (if b.toNat = 0xf0 then 0x90 else 0x80) ≤ b₁.toNat
      ∧ b₁.toNat ≤ if b.toNat = 0xf4 then 0x8f else 0xbf)
    (h₂ : 0x80 ≤ b₂.toNat ∧ b₂.toNat ≤ 0xbf) (h₃ : 0x80 ≤ b₃.toNat ∧ b₃.toNat ≤ 0xbf) :
    String.utf8EncodeChar (Char.ofNat
      ((((b.toNat - 0xf0) * 64 + (b₁.toNat - 0x80)) * 64 + (b₂.toNat - 0x80)) * 64
        + (b₃.toNat - 0x80))) = [b, b₁, b₂, b₃] := by
  -- fewer bits would do with three bytes, and with more there is no character
  have hfirst : 0x80 ≤ b₁.toNat ∧ b₁.toNat ≤ 0xbf ∧ (b.toNat = 0xf0 → 0x90 ≤ b₁.toNat)
      ∧ (b.toNat = 0xf4 → b₁.toNat ≤ 0x8f) := by
    obtain ⟨hlow, hhigh⟩ := h₁
    split at hlow <;> split at hhigh <;> omega
  have hvalid : ((((b.toNat - 0xf0) * 64 + (b₁.toNat - 0x80)) * 64 + (b₂.toNat - 0x80)) * 64
      + (b₃.toNat - 0x80)).isValidChar := by
    simp only [Nat.isValidChar]
    omega
  rw [String.utf8EncodeChar, toNat_ofNat hvalid, if_neg (by omega), if_neg (by omega),
    if_neg (by omega), @ofNat_eq b _ (by omega), @ofNat_eq b₁ _ (by omega), @ofNat_eq b₂ _ (by omega),
    @ofNat_eq b₃ _ (by omega)]

end

/-- What is read as a character are the bytes of the character. -/
theorem encode_of_lead {b : UInt8} {bs after : Bytes} {c : Char} {l : Lead}
    (hl : lead? b.toNat = some l)
    (h : follow l.following l.low l.high l.bits bs = (some c, after)) :
    b :: bs = String.utf8EncodeChar c ++ after := by
  rcases lead?_cases hl with hb | hb | hb | hb
  · rw [lead?_one hb, Option.some.injEq] at hl
    subst hl
    obtain ⟨hc, hafter⟩ := follow_zero_inv h
    rw [hc, hafter, encode_one hb]
    rfl
  · rw [lead?_two hb.1 hb.2, Option.some.injEq] at hl
    subst hl
    obtain ⟨b₁, rest, hbs, hb₁, h⟩ := follow_succ_inv h
    obtain ⟨hc, hafter⟩ := follow_zero_inv h
    rw [hbs, hc, hafter, encode_two hb hb₁]
    rfl
  · rw [lead?_three hb.1 hb.2, Option.some.injEq] at hl
    subst hl
    obtain ⟨b₁, rest₁, hbs, hb₁, h⟩ := follow_succ_inv h
    obtain ⟨b₂, rest₂, hrest₁, hb₂, h⟩ := follow_succ_inv h
    obtain ⟨hc, hafter⟩ := follow_zero_inv h
    rw [hbs, hrest₁, hc, hafter, encode_three hb hb₁ hb₂]
    rfl
  · rw [lead?_four hb.1 hb.2, Option.some.injEq] at hl
    subst hl
    obtain ⟨b₁, rest₁, hbs, hb₁, h⟩ := follow_succ_inv h
    obtain ⟨b₂, rest₂, hrest₁, hb₂, h⟩ := follow_succ_inv h
    obtain ⟨b₃, rest₃, hrest₂, hb₃, h⟩ := follow_succ_inv h
    obtain ⟨hc, hafter⟩ := follow_zero_inv h
    rw [hbs, hrest₁, hrest₂, hc, hafter, encode_four hb hb₁ hb₂ hb₃]
    rfl

/-! ## texts -/

theorem characters_ofText (cs : Text) : characters (ofText cs) = cs.map some := by
  induction cs with
  | nil => rw [ofText, List.flatMap_nil, characters]; rfl
  | cons c cs ih =>
    show characters (String.utf8EncodeChar c ++ ofText cs) = some c :: cs.map some
    rw [characters_encode, ih]

/-- What is read as a text are the bytes of the text. -/
theorem ofText_of_characters {bs : Bytes} {cs : Text} (h : characters bs = cs.map some) :
    bs = ofText cs := by
  induction cs generalizing bs with
  | nil =>
    cases bs with
    | nil => rfl
    | cons b bs =>
      rw [characters_cons] at h
      split at h <;> cases h
  | cons c cs ih =>
    cases bs with
    | nil =>
      rw [characters] at h
      cases h
    | cons b bs =>
      rw [characters_cons] at h
      split at h
      · cases (List.cons.inj h).1
      · next l hl =>
        obtain ⟨hc, hcs⟩ := List.cons.inj h
        rw [encode_of_lead hl (Prod.ext hc rfl)]
        exact congrArg (String.utf8EncodeChar c ++ ·) (ih hcs)

/-- Bytes have a text just if they are those of the text. -/
theorem text?_eq_some_iff {bs : Bytes} {cs : Text} : bs.text? = some cs ↔ bs = ofText cs := by
  have hmap (os : List (Option Char)) : os.mapM id = some cs ↔ os = cs.map some := by
    induction os generalizing cs with
    | nil => cases cs <;> simp
    | cons o os ih =>
      cases o with
      | none => cases cs <;> simp [List.mapM_cons]
      | some c =>
        rw [List.mapM_cons]
        show (os.mapM id).bind (fun cs => some (c :: cs)) = some cs ↔ _
        rw [Option.bind_eq_some_iff]
        cases cs with
        | nil => simp
        | cons d cs =>
          simp only [ih, Option.some.injEq, List.cons.injEq, List.map_cons]
          constructor
          · rintro ⟨_, hos, rfl, rfl⟩
            exact ⟨rfl, hos⟩
          · rintro ⟨rfl, hos⟩
            exact ⟨cs, hos, rfl, rfl⟩
  rw [text?, hmap]
  exact ⟨ofText_of_characters, fun h => h ▸ characters_ofText cs⟩

theorem ofText_inj {a b : Text} : ofText a = ofText b ↔ a = b := by
  rw [← text?_eq_some_iff, text?_eq_some_iff.mpr rfl, Option.some.injEq]

end Bytes

end CppMend
