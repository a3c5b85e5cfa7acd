import Treewalk.Proofs.Text.Quoted

/-!
# Texts that are UTF-8

A byte text is UTF-8 if it is the text of a string of characters (`Bytes.IsUtf8`). Decoding agrees with this: the
runes of a text are its characters, one by one (`decode_text`), and a text is UTF-8 exactly if none of its runes
is a byte that is no UTF-8 (`isUtf8_iff`).
-/

namespace Treewalk

namespace Rune

/-! ## Code points -/

theorem toUInt8_add_comm (m n : Nat) : (m + n).toUInt8 = UInt8.ofNat (n + m) := by
  rw [Nat.add_comm]

/-- A character is encoded as in a string. -/
theorem encode_toNat (c : Char) : encode c.toNat = String.utf8EncodeChar c := by
  have hvalid : c.val.toNat.isValidChar := c.valid
  show encode c.val.toNat = _
  unfold encode String.utf8EncodeChar
  dsimp only
  generalize c.val.toNat = n at hvalid ⊢
  simp only [Nat.isValidChar] at hvalid
  by_cases h₁ : n < 0x80
  · rw [if_pos h₁, if_pos (by omega)]
  by_cases h₂ : n < 0x800
  · rw [if_neg h₁, if_pos h₂, if_neg (by omega), if_pos (by omega), toUInt8_add_comm, toUInt8_add_comm,
      Nat.mod_eq_of_lt (show n / 64 < 32 by omega)]
  by_cases h₃ : n < 0x10000
  · rw [if_neg h₁, if_neg h₂, if_pos h₃, if_neg (by omega), if_neg (by omega), if_pos (by omega),
      toUInt8_add_comm, toUInt8_add_comm, toUInt8_add_comm, Nat.mod_eq_of_lt (show n / 4096 < 16 by omega)]
  · rw [if_neg h₁, if_neg h₂, if_neg h₃, if_neg (by omega), if_neg (by omega), if_neg (by omega),
      toUInt8_add_comm, toUInt8_add_comm, toUInt8_add_comm, toUInt8_add_comm,
      Nat.mod_eq_of_lt (show n / 262144 < 8 by omega)]

theorem toNat_toUInt8 {n : Nat} (h : n < 0x100) : n.toUInt8.toNat = n := Nat.mod_eq_of_lt h

theorem within_of_bounds {lo hi b : UInt8} (hlo : lo.toNat ≤ b.toNat) (hhi : b.toNat ≤ hi.toNat) :
    within lo hi b = true := by
  simp [within, UInt8.le_iff_toNat_le, hlo, hhi]

theorem opensThree_of_bounds {a b : UInt8} (ha : 0xE0 ≤ a.toNat ∧ a.toNat ≤ 0xEF)
    (hb : 0x80 ≤ b.toNat ∧ b.toNat ≤ 0xBF) (hlow : a.toNat = 0xE0 → 0xA0 ≤ b.toNat)
    (hhigh : a.toNat = 0xED → b.toNat ≤ 0x9F) : opensThree a b = true := by
  unfold opensThree
  split_ifs with h₁ h₂
  · exact within_of_bounds (hlow (congrArg UInt8.toNat h₁)) hb.2
  · exact within_of_bounds hb.1 (hhigh (congrArg UInt8.toNat h₂))
  · have hne : a.toNat ≠ 0xE0 := fun heq => h₁ (UInt8.toNat_inj.1 heq)
    have hmiddle : within 0xE1 0xEF a = true := within_of_bounds (show 0xE1 ≤ a.toNat by omega) ha.2
    have htail : tail b = true := within_of_bounds hb.1 hb.2
    rw [hmiddle, htail, Bool.and_true]

theorem opensFour_of_bounds {a b : UInt8} (ha : 0xF0 ≤ a.toNat ∧ a.toNat ≤ 0xF4)
    (hb : 0x80 ≤ b.toNat ∧ b.toNat ≤ 0xBF) (hlow : a.toNat = 0xF0 → 0x90 ≤ b.toNat)
    (hhigh : a.toNat = 0xF4 → b.toNat ≤ 0x8F) : opensFour a b = true := by
  unfold opensFour
  split_ifs with h₁ h₂
  · exact within_of_bounds (hlow (congrArg UInt8.toNat h₁)) hb.2
  · exact within_of_bounds hb.1 (hhigh (congrArg UInt8.toNat h₂))
  · have hne : a.toNat ≠ 0xF0 := fun heq => h₁ (UInt8.toNat_inj.1 heq)
    have hne' : a.toNat ≠ 0xF4 := fun heq => h₂ (UInt8.toNat_inj.1 heq)
    have hmiddle : within 0xF1 0xF3 a = true :=
      within_of_bounds (show 0xF1 ≤ a.toNat by omega) (show a.toNat ≤ 0xF3 by omega)
    have htail : tail b = true := within_of_bounds hb.1 hb.2
    rw [hmiddle, htail, Bool.and_true]

/-- A continuation byte with the six lowest bits of a number. -/
theorem toNat_low (n : Nat) : (0x80 + n % 64).toUInt8.toNat = 0x80 + n % 64 := toNat_toUInt8 (by omega)

theorem tail_low (n : Nat) : tail (0x80 + n % 64).toUInt8 = true := by
  refine within_of_bounds ?_ ?_ <;> rw [toNat_low]
  · exact Nat.le_add_right _ _
  · show _ ≤ 0xBF
    omega

theorem bits_low (n : Nat) : bits (0x80 + n % 64).toUInt8 = n % 64 := by
  rw [bits, toNat_low]
  omega

/-- A code point that a character has is encoded by a well-formed sequence. -/
theorem encodes_encode {n : Nat} (h : n.isValidChar) : Encodes (encode n) n := by
  simp only [Nat.isValidChar] at h
  have hcode : ∀ {raw m}, Encodes raw m → m = n → Encodes raw n := fun henc hm => hm ▸ henc
  have hlow := toNat_low (n / 64)
  have hlow' := toNat_low (n / 4096)
  unfold encode
  dsimp only
  split_ifs with h₁ h₂ h₃
  · have ha : n.toUInt8.toNat = n := toNat_toUInt8 (by omega)
    refine hcode (.one ?_) ha
    rw [UInt8.lt_iff_toNat_lt, ha]
    exact h₁
  · have ha : (0xC0 + n / 64).toUInt8.toNat = 0xC0 + n / 64 := toNat_toUInt8 (by omega)
    refine hcode (.two (within_of_bounds ?_ ?_) (tail_low n)) ?_
    · rw [ha]
      show 0xC2 ≤ _
      omega
    · rw [ha]
      show _ ≤ 0xDF
      omega
    · rw [bits_low, ha]
      omega
  · have ha : (0xE0 + n / 4096).toUInt8.toNat = 0xE0 + n / 4096 := toNat_toUInt8 (by omega)
    refine hcode (.three (opensThree_of_bounds ?_ ?_ ?_ ?_) (tail_low n)) ?_
    · omega
    · omega
    · omega
    · omega
    · rw [bits_low, bits_low, ha]
      omega
  · have ha : (0xF0 + n / 262144).toUInt8.toNat = 0xF0 + n / 262144 := toNat_toUInt8 (by omega)
    refine hcode (.four (opensFour_of_bounds ?_ ?_ ?_ ?_) (tail_low (n / 64)) (tail_low n)) ?_
    · omega
    · omega
    · omega
    · omega
    · rw [bits_low, bits_low, bits_low, ha]
      omega

/-- A well-formed sequence stands for a code point that a character has. -/
theorem Encodes.isValidChar {raw : Bytes} {code : Nat} (h : Encodes raw code) : code.isValidChar := by
  simp only [Nat.isValidChar]
  cases h with
  | @one a _ =>
    have := a.toNat_lt
    omega
  | @two a b ha hb =>
    have ha := within_bounds ha
    have hbits := bits_eq (tail_bounds hb)
    have hb := tail_bounds hb
    simp at ha
    omega
  | @three a b c h hc =>
    obtain ⟨ha, hb, hlow, hhigh⟩ := opensThree_bounds h
    have hbits := bits_eq hb
    have hbits' := bits_eq (tail_bounds hc)
    have hc := tail_bounds hc
    omega
  | @four a b c d h hc hd =>
    obtain ⟨ha, hb, hlow, hhigh⟩ := opensFour_bounds h
    have hbits := bits_eq hb
    have hbits' := bits_eq (tail_bounds hc)
    have hbits'' := bits_eq (tail_bounds hd)
    have hc := tail_bounds hc
    have hd := tail_bounds hd
    omega

theorem encodes_char (c : Char) : Encodes (encode c.toNat) c.toNat := encodes_encode c.valid

/-- A rune that is no stray byte is a well-formed sequence. -/
theorem Genuine.encodes {r : Rune} (h : r.Genuine) (hvalid : r.isInvalid = false) : Encodes r.raw r.code := by
  obtain ⟨a, rest, rfl⟩ := h
  rcases first_cases a rest with ⟨-, heq⟩ | hencodes
  · rw [heq] at hvalid
    cases hvalid
  · exact hencodes

/-- Text that starts with a well-formed sequence. -/
theorem Encodes.decode_append {raw : Bytes} {code : Nat} (h : Encodes raw code) (t : Bytes) :
    decode (raw ++ t) = ⟨code, raw⟩ :: decode t := by
  obtain ⟨a, more, rfl⟩ := List.exists_cons_of_ne_nil h.ne_nil
  rw [List.cons_append, decode_cons, extra, h.first, List.length_cons, Nat.add_sub_cancel, List.drop_left]

end Rune

/-! ## Texts -/

open Rune

theorem text_eq (s : String) : text s = s.toList.flatMap fun c => encode c.toNat := by
  show s.toByteArray.data.toList = _
  rw [← String.utf8Encode_toList, List.utf8Encode, List.toList_data_toByteArray]
  exact congrArg (List.flatMap · s.toList) (funext fun c => (encode_toNat c).symm)

/-- A text is decoded as its characters. -/
theorem decode_text (s : String) : decode (text s) = s.toList.map fun c => ofCode c.toNat := by
  rw [text_eq]
  induction s.toList with
  | nil => rfl
  | cons c cs ih =>
    rw [List.flatMap_cons, (encodes_char c).decode_append, ih]
    rfl

namespace Bytes

/-- The text of a string of characters. -/
def IsUtf8 (s : Bytes) : Prop := ∃ t : String, s = text t

theorem isUtf8_nil : IsUtf8 [] := ⟨"", by decide⟩

theorem IsUtf8.append {s t : Bytes} (hs : s.IsUtf8) (ht : t.IsUtf8) : IsUtf8 (s ++ t) := by
  obtain ⟨a, rfl⟩ := hs
  obtain ⟨b, rfl⟩ := ht
  exact ⟨a ++ b, by rw [text_eq, text_eq, text_eq, String.toList_append, List.flatMap_append]⟩

theorem isUtf8_encode {n : Nat} (h : n.isValidChar) : IsUtf8 (encode n) := by
  refine ⟨String.ofList [Char.ofNatAux n h], ?_⟩
  rw [text_eq, String.toList_ofList, List.flatMap_singleton]
  rfl

/-- A text is UTF-8 if no byte of it is found not to be. -/
theorem isUtf8_iff (s : Bytes) : s.IsUtf8 ↔ ∀ r ∈ decode s, r.isInvalid = false := by
  constructor
  · rintro ⟨t, rfl⟩ r hr
    rw [decode_text] at hr
    obtain ⟨c, -, rfl⟩ := List.mem_map.1 hr
    exact (encodes_char c).isInvalid (r := ofCode c.toNat)
  · have hrunes : ∀ rs : List Rune, (∀ r ∈ rs, r.Genuine ∧ r.isInvalid = false) → IsUtf8 (bytes rs) := by
      intro rs hrs
      induction rs with
      | nil => exact isUtf8_nil
      | cons r rs ih =>
        obtain ⟨⟨hr, hvalid⟩, hrest⟩ := List.forall_mem_cons.1 hrs
        have hencodes := hr.encodes hvalid
        rw [bytes_cons, ← hencodes.eq]
        exact (isUtf8_encode hencodes.isValidChar).append (ih hrest)
    intro h
    rw [← bytes_decode s]
    exact hrunes _ fun r hr => ⟨genuine_of_mem_decode hr, h r hr⟩

end Bytes

end Treewalk
