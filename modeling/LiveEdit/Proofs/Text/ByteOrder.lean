import LiveEdit.Proofs.Text.Utf8
import Mathlib.Data.String.Basic
import Mathlib.Order.Monotone.Defs

/-! Texts are in the order of their UTF-8 bytes. -/
namespace LiveEdit

/-- The values of the bytes of a text. -/
def byteValues (text : String) : List Nat := text.toUTF8.data.toList.map UInt8.toNat

/-- The bytes of one character. -/
def charByteValues (c : Char) : List Nat := (String.utf8EncodeChar c).map UInt8.toNat

/-- Neither list is the start of the other, and the first one is smaller where they part. -/
inductive PartsBelow : List Nat → List Nat → Prop
  | here {x y : Nat} {xs ys : List Nat} (h : x < y) : PartsBelow (x :: xs) (y :: ys)
  | there {x : Nat} {xs ys : List Nat} (h : PartsBelow xs ys) : PartsBelow (x :: xs) (x :: ys)

variable {x y : Nat} {xs ys : List Nat} {c d : Char} {cs ds : List Char}

theorem partsBelow_cons :
    PartsBelow (x :: xs) (y :: ys) ↔ x < y ∨ x = y ∧ PartsBelow xs ys := by
  constructor
  · rintro (h | h)
    · exact .inl h
    · exact .inr ⟨rfl, h⟩
  · rintro (h | ⟨rfl, h⟩)
    · exact .here h
    · exact .there h

theorem not_partsBelow_nil : ¬ PartsBelow [] ys := nofun

theorem PartsBelow.append_lt (h : PartsBelow xs ys) (us vs : List Nat) : xs ++ us < ys ++ vs := by
  induction h with
  | here h => exact List.Lex.rel h
  | there h ih => exact List.Lex.cons ih

theorem toNat_lt_limit (c : Char) : c.val.toNat < 0x110000 := by
  have h : c.val.toNat < 0xd800 ∨ 0xdfff < c.val.toNat ∧ c.val.toNat < 0x110000 := c.valid
  omega

/-- A smaller character is smaller in one of its bytes, and the same in those before. -/
theorem charByteValues_partsBelow (h : c < d) :
    PartsBelow (charByteValues c) (charByteValues d) := by
  have hlt : c.val.toNat < d.val.toNat := h
  have hc := toNat_lt_limit c
  have hd := toNat_lt_limit d
  rw [charByteValues, charByteValues, String.utf8EncodeChar, String.utf8EncodeChar]
  generalize c.val.toNat = v at *
  generalize d.val.toNat = w at *
  -- no character is so large that its first byte overflows
  have hv : v / 262144 % 8 = v / 262144 := by omega
  have hw : w / 262144 % 8 = w / 262144 := by omega
  split_ifs <;>
    simp (disch := omega) only [List.map_cons, List.map_nil, partsBelow_cons, not_partsBelow_nil,
      Utf8Step.toNat_byte, hv, hw] <;>
    omega

theorem charByteValues_ne_nil (c : Char) : charByteValues c ≠ [] := by
  rw [charByteValues, Ne, List.map_eq_nil_iff]
  exact String.utf8EncodeChar_ne_nil

theorem flatMap_lt (h : cs < ds) : cs.flatMap charByteValues < ds.flatMap charByteValues := by
  induction h with
  | nil =>
    obtain ⟨x, xs, hx⟩ := List.exists_cons_of_ne_nil (charByteValues_ne_nil _)
    rw [List.flatMap_cons, hx]
    exact List.nil_lt_cons ..
  | cons h ih => exact List.Lex.append_left _ ih _
  | rel h => exact (charByteValues_partsBelow h).append_lt _ _

theorem byteValues_eq (text : String) : byteValues text = text.toList.flatMap charByteValues := by
  rw [byteValues, ← encodeUtf8_eq, encodeUtf8, List.map_flatMap]
  rfl

theorem byteValues_strictMono : StrictMono byteValues := by
  intro s t h
  rw [byteValues_eq, byteValues_eq]
  exact flatMap_lt h

end LiveEdit
