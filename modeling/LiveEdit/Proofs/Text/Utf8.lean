import LiveEdit.Text.Utf8
import Mathlib.Data.List.Basic
import Mathlib.Tactic.SplitIfs

/-! Reading UTF-8 undoes writing it, and nothing else reads as a text. -/
namespace LiveEdit

namespace Utf8Step

variable {a b : UInt8} {rest : List UInt8} {c : Char} {width : Nat}

theorem isTail_iff : isTail b = true ↔ 0x80 ≤ b.toNat ∧ b.toNat ≤ 0xbf := by
  simp [isTail, UInt8.le_iff_toNat_le]

/-- The second byte of a long character is a tail, within bounds that keep the character valid. -/
theorem secondFits_iff : secondFits a b = true ↔
    0x80 ≤ b.toNat ∧ b.toNat ≤ 0xbf ∧ (a.toNat = 0xe0 → 0xa0 ≤ b.toNat) ∧
      (a.toNat = 0xed → b.toNat ≤ 0x9f) ∧ (a.toNat = 0xf0 → 0x90 ≤ b.toNat) ∧
      (a.toNat = 0xf4 → b.toNat ≤ 0x8f) := by
  simp only [secondFits, ← UInt8.toNat_inj, UInt8.toNat_ofNat]
  split_ifs <;> simp [UInt8.le_iff_toNat_le, isTail] <;> omega

theorem of_one (h : a.toNat < 0x80) : of a rest = .char (Char.ofNat a.toNat) 1 := by
  simp [of, UInt8.lt_iff_toNat_lt, h]

theorem of_two (h : 0xc2 ≤ a.toNat) (h' : a.toNat < 0xe0) : of a rest = ofTwo a rest := by
  simp [of, UInt8.lt_iff_toNat_lt, h', Nat.not_lt.mpr h, Nat.not_lt.mpr (Nat.le_trans _ h)]

theorem of_three (h : 0xe0 ≤ a.toNat) (h' : a.toNat < 0xf0) : of a rest = ofThree a rest := by
  have h80 : ¬ a.toNat < 0x80 := by omega
  have hc2 : ¬ a.toNat < 0xc2 := by omega
  simp [of, UInt8.lt_iff_toNat_lt, h', h80, hc2, Nat.not_lt.mpr h]

theorem of_four (h : 0xf0 ≤ a.toNat) (h' : a.toNat < 0xf5) : of a rest = ofFour a rest := by
  have h80 : ¬ a.toNat < 0x80 := by omega
  have hc2 : ¬ a.toNat < 0xc2 := by omega
  have he0 : ¬ a.toNat < 0xe0 := by omega
  simp [of, UInt8.lt_iff_toNat_lt, h', h80, hc2, he0, Nat.not_lt.mpr h]

/-- No character starts with a tail, nor with a byte that would make it too long or too large. -/
theorem of_bad (h : 0x80 ≤ a.toNat) (h' : a.toNat < 0xc2 ∨ 0xf5 ≤ a.toNat) :
    of a rest = .bad 1 := by
  obtain h' | h' := h'
  · simp [of, UInt8.lt_iff_toNat_lt, h', Nat.not_lt.mpr h]
  · have hle (n : Nat) (hn : n ≤ 0xf5) : ¬ a.toNat < n := by omega
    simp [of, UInt8.lt_iff_toNat_lt, hle]

theorem toNat_ofNat {n : Nat} (h : n.isValidChar) : (Char.ofNat n).toNat = n := by
  rw [Char.ofNat, dif_pos h]
  rfl

theorem toNat_byte {n : Nat} (h : n < 0x100) : (UInt8.ofNat n).toNat = n := by
  rw [UInt8.toNat_ofNat', Nat.mod_eq_of_lt h]

@[simp] theorem isTail_tail (n : Nat) : isTail (UInt8.ofNat (n % 64 + 128)) = true := by
  rw [isTail_iff, toNat_byte (by omega)]
  omega

@[simp] theorem tailBits_tail (n : Nat) : tailBits (UInt8.ofNat (n % 64 + 128)) = n % 64 := by
  rw [tailBits, toNat_byte (by omega)]
  omega

open String (utf8EncodeChar)

/-- The bytes of a character are read as that character. -/
theorem of_encode (h : utf8EncodeChar c = a :: rest) (more : List UInt8) :
    of a (rest ++ more) = .char c (rest.length + 1) := by
  have hvalid : c.toNat < 0xd800 ∨ 0xdfff < c.toNat ∧ c.toNat < 0x110000 := c.valid
  have hc := Char.ofNat_toNat c
  rw [utf8EncodeChar, ← Char.toNat] at h
  generalize c.toNat = v at *
  subst hc
  split_ifs at h with hone htwo hthree <;> obtain ⟨rfl, rfl⟩ := List.cons.inj h
  · have ha : (UInt8.ofNat v).toNat = v := toNat_byte (by omega)
    rw [of_one (by omega), ha]
    rfl
  · have ha : (UInt8.ofNat (v / 64 % 32 + 192)).toNat = v / 64 + 192 := by
      rw [toNat_byte (by omega)]
      omega
    have hv : (v / 64 + 192) % 32 * 64 + v % 64 = v := by omega
    rw [of_two (by omega) (by omega)]
    simp only [List.cons_append, ofTwo, ha, isTail_tail, tailBits_tail, hv, if_true]
    rfl
  · have ha : (UInt8.ofNat (v / 4096 % 16 + 224)).toNat = v / 4096 + 224 := by
      rw [toNat_byte (by omega)]
      omega
    have hb : (UInt8.ofNat (v / 64 % 64 + 128)).toNat = v / 64 % 64 + 128 := toNat_byte (by omega)
    have hv : (v / 4096 + 224) % 16 * 4096 + v / 64 % 64 * 64 + v % 64 = v := by omega
    have hfits : secondFits (UInt8.ofNat (v / 4096 % 16 + 224))
        (UInt8.ofNat (v / 64 % 64 + 128)) = true := by
      rw [secondFits_iff, ha, hb]
      omega
    rw [of_three (by omega) (by omega)]
    simp only [List.cons_append, ofThree, ha, hfits, isTail_tail, tailBits_tail, hv, if_true]
    rfl
  · have ha : (UInt8.ofNat (v / 262144 % 8 + 240)).toNat = v / 262144 + 240 := by
      rw [toNat_byte (by omega)]
      omega
    have hb : (UInt8.ofNat (v / 4096 % 64 + 128)).toNat = v / 4096 % 64 + 128 :=
      toNat_byte (by omega)
    have hv : (v / 262144 + 240) % 8 * 262144 + v / 4096 % 64 * 4096 + v / 64 % 64 * 64 + v % 64 =
        v := by omega
    have hfits : secondFits (UInt8.ofNat (v / 262144 % 8 + 240))
        (UInt8.ofNat (v / 4096 % 64 + 128)) = true := by
      rw [secondFits_iff, ha, hb]
      omega
    rw [of_four (by omega) (by omega)]
    simp only [List.cons_append, ofFour, ha, hfits, isTail_tail, tailBits_tail, hv, if_true]
    rfl

theorem encode_one {v : Nat} (h : v ≤ 0x7f) :
    utf8EncodeChar (Char.ofNat v) = [UInt8.ofNat v] := by
  have hv : (Char.ofNat v).val.toNat = v := toNat_ofNat (.inl (by omega))
  rw [utf8EncodeChar, hv, if_pos h]

theorem encode_two {v : Nat} (h : 0x7f < v) (h' : v ≤ 0x7ff) :
    utf8EncodeChar (Char.ofNat v) =
      [UInt8.ofNat (v / 64 % 32 + 192), UInt8.ofNat (v % 64 + 128)] := by
  have hv : (Char.ofNat v).val.toNat = v := toNat_ofNat (.inl (by omega))
  rw [utf8EncodeChar, hv, if_neg (by omega), if_pos h']

theorem encode_three {v : Nat} (hvalid : v.isValidChar) (h : 0x7ff < v) (h' : v ≤ 0xffff) :
    utf8EncodeChar (Char.ofNat v) =
      [UInt8.ofNat (v / 4096 % 16 + 224), UInt8.ofNat (v / 64 % 64 + 128),
        UInt8.ofNat (v % 64 + 128)] := by
  have hv : (Char.ofNat v).val.toNat = v := toNat_ofNat hvalid
  rw [utf8EncodeChar, hv, if_neg (by omega), if_neg (by omega), if_pos h']

theorem encode_four {v : Nat} (h : 0xffff < v) (h' : v < 0x110000) :
    utf8EncodeChar (Char.ofNat v) =
      [UInt8.ofNat (v / 262144 % 8 + 240), UInt8.ofNat (v / 4096 % 64 + 128),
        UInt8.ofNat (v / 64 % 64 + 128), UInt8.ofNat (v % 64 + 128)] := by
  have hv : (Char.ofNat v).val.toNat = v := toNat_ofNat (.inr ⟨by omega, h'⟩)
  rw [utf8EncodeChar, hv, if_neg (by omega), if_neg (by omega), if_neg (by omega)]

theorem byte_eq {n : Nat} (h : n = a.toNat) : UInt8.ofNat n = a := by
  rw [h, UInt8.ofNat_toNat]

theorem encode_ofTwo (h : 0xc2 ≤ a.toNat) (h' : a.toNat < 0xe0)
    (hc : ofTwo a rest = .char c width) :
    ∃ tail more, utf8EncodeChar c = a :: tail ∧ rest = tail ++ more ∧ width = tail.length + 1 := by
  cases rest with
  | nil => cases hc
  | cons b more =>
    rw [ofTwo] at hc
    split at hc
    next hb =>
      cases hc
      rw [isTail_iff] at hb
      refine ⟨[b], more, ?_, rfl, rfl⟩
      rw [tailBits, encode_two (by omega) (by omega), byte_eq (a := a) (by omega),
        byte_eq (a := b) (by omega)]
    next => cases hc

theorem encode_ofThree (h : 0xe0 ≤ a.toNat) (h' : a.toNat < 0xf0)
    (hc : ofThree a rest = .char c width) :
    ∃ tail more, utf8EncodeChar c = a :: tail ∧ rest = tail ++ more ∧ width = tail.length + 1 := by
  match rest, hc with
  | b :: d :: more, hc =>
    rw [ofThree] at hc
    split at hc
    next hb =>
      split at hc
      next hd =>
        cases hc
        rw [isTail_iff] at hd
        rw [secondFits_iff] at hb
        have hvalid : (a.toNat % 16 * 4096 + b.toNat % 64 * 64 + d.toNat % 64).isValidChar := by
          rw [Nat.isValidChar]
          omega
        refine ⟨[b, d], more, ?_, rfl, rfl⟩
        rw [tailBits, tailBits, encode_three hvalid (by omega) (by omega),
          byte_eq (a := a) (by omega), byte_eq (a := b) (by omega), byte_eq (a := d) (by omega)]
      next => cases hc
    next => cases hc
  | [b], hc =>
    simp only [ofThree] at hc
    split at hc <;> cases hc

theorem encode_ofFour (h : 0xf0 ≤ a.toNat) (h' : a.toNat < 0xf5)
    (hc : ofFour a rest = .char c width) :
    ∃ tail more, utf8EncodeChar c = a :: tail ∧ rest = tail ++ more ∧ width = tail.length + 1 := by
  match rest, hc with
  | b :: d :: e :: more, hc =>
    rw [ofFour] at hc
    split at hc
    next hb =>
      split at hc
      next hd =>
        split at hc
        next he =>
          cases hc
          rw [isTail_iff] at hd he
          rw [secondFits_iff] at hb
          refine ⟨[b, d, e], more, ?_, rfl, rfl⟩
          rw [tailBits, tailBits, tailBits, encode_four (by omega) (by omega),
            byte_eq (a := a) (by omega), byte_eq (a := b) (by omega), byte_eq (a := d) (by omega),
            byte_eq (a := e) (by omega)]
        next => cases hc
      next => cases hc
    next => cases hc
  | [b, d], hc =>
    simp only [ofFour] at hc
    split at hc
    next => split at hc <;> cases hc
    next => cases hc
  | [b], hc =>
    simp only [ofFour] at hc
    split at hc <;> cases hc

/-- Bytes are read as a character only if they are the bytes of that character. -/
theorem encode_of (h : of a rest = .char c width) :
    ∃ tail more, utf8EncodeChar c = a :: tail ∧ rest = tail ++ more ∧ width = tail.length + 1 := by
  by_cases hone : a.toNat < 0x80
  · rw [of_one hone] at h
    cases h
    refine ⟨[], rest, ?_, rfl, rfl⟩
    rw [encode_one (by omega), byte_eq rfl]
  by_cases hbad : a.toNat < 0xc2 ∨ 0xf5 ≤ a.toNat
  · rw [of_bad (by omega) hbad] at h
    cases h
  by_cases htwo : a.toNat < 0xe0
  · rw [of_two (by omega) htwo] at h
    exact encode_ofTwo (by omega) htwo h
  by_cases hthree : a.toNat < 0xf0
  · rw [of_three (by omega) hthree] at h
    exact encode_ofThree (by omega) hthree h
  · rw [of_four (by omega) (by omega)] at h
    exact encode_ofFour (by omega) (by omega) h

end Utf8Step

open String (utf8EncodeChar)

variable {bytes : List UInt8} {text : String}

/-- The bytes of a text are its UTF-8 bytes. -/
theorem encodeUtf8_eq (text : String) : encodeUtf8 text = text.toUTF8.data.toList := by
  rw [String.toUTF8_eq_toByteArray, ← String.utf8Encode_toList, List.utf8Encode,
    List.data_toByteArray]
  rfl

theorem utf8Parts_skip (passed rest : List UInt8) :
    utf8Parts passed.length (passed ++ rest) = utf8Parts 0 rest := by
  induction passed with
  | nil => rfl
  | cons b passed ih => exact ih

theorem utf8Parts_encodeChar (c : Char) (rest : List UInt8) :
    utf8Parts 0 (utf8EncodeChar c ++ rest) = some c :: utf8Parts 0 rest := by
  cases h : utf8EncodeChar c with
  | nil => exact absurd h String.utf8EncodeChar_ne_nil
  | cons a tail =>
    rw [List.cons_append, utf8Parts]
    simp only [Utf8Step.of_encode h, Nat.add_sub_cancel, utf8Parts_skip]

theorem utf8Parts_encode (cs : List Char) :
    utf8Parts 0 (cs.flatMap utf8EncodeChar) = cs.map some := by
  induction cs with
  | nil => rfl
  | cons c cs ih => rw [List.flatMap_cons, utf8Parts_encodeChar, ih, List.map_cons]

/-- Where no part is wrong, the characters' bytes are all that was read. -/
theorem encode_of_utf8Parts {cs : List Char} (h : utf8Parts 0 bytes = cs.map some) :
    cs.flatMap utf8EncodeChar = bytes := by
  induction cs generalizing bytes with
  | nil =>
    cases bytes with
    | nil => rfl
    | cons a rest =>
      rw [utf8Parts] at h
      split at h <;> cases h
  | cons c cs ih =>
    cases bytes with
    | nil => cases h
    | cons a rest =>
      rw [utf8Parts] at h
      split at h
      next hstep =>
        obtain ⟨hc, hrest⟩ := List.cons.inj h
        cases hc
        obtain ⟨tail, more, hencode, rfl, rfl⟩ := Utf8Step.encode_of hstep
        rw [Nat.add_sub_cancel, utf8Parts_skip] at hrest
        rw [List.flatMap_cons, ih hrest, hencode, List.cons_append]
      next => cases h

theorem mapM_id_eq_some_iff {α : Type} {xs : List (Option α)} {ys : List α} :
    xs.mapM id = some ys ↔ xs = ys.map some := by
  induction xs generalizing ys with
  | nil => cases ys <;> simp
  | cons x xs ih =>
    cases x with
    | none => cases ys <;> simp
    | some x => cases ys <;> simp [Option.bind_eq_some_iff, ih, and_comm]

/-- What is read as a text is the text's bytes, and nothing else. -/
theorem decodeUtf8?_eq_some_iff :
    decodeUtf8? bytes = some text ↔ text.toUTF8.data.toList = bytes := by
  rw [← encodeUtf8_eq, decodeUtf8?, Option.map_eq_some_iff, encodeUtf8]
  simp only [mapM_id_eq_some_iff]
  constructor
  · rintro ⟨cs, hparts, rfl⟩
    rw [String.toList_ofList, encode_of_utf8Parts hparts]
  · rintro rfl
    exact ⟨text.toList, utf8Parts_encode _, String.ofList_toList⟩

/-- What is a text is read as the same one without strictness. -/
theorem decodeUtf8Lossy_of_decodeUtf8? (h : decodeUtf8? bytes = some text) :
    decodeUtf8Lossy bytes = text := by
  obtain ⟨cs, hparts, rfl⟩ := Option.map_eq_some_iff.mp h
  rw [decodeUtf8Lossy, mapM_id_eq_some_iff.mp hparts, List.map_map]
  exact congrArg String.ofList (List.map_id cs)

end LiveEdit
