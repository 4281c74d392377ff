import LiveEdit.Engine.Marker
import LiveEdit.Proofs.Text.Utf8
import Mathlib.Data.List.Infix

/-! The bytes of a text occur in another text's bytes only where the text itself occurs. -/
namespace LiveEdit

open String (utf8EncodeChar)

/-- The bytes of some characters. -/
def bytesOf (cs : List Char) : List UInt8 := cs.flatMap utf8EncodeChar

/-- A text has a marker at this byte, and at none before. -/
structure FirstAt (marker text : List UInt8) (offset : Nat) : Prop where
  within : offset ≤ text.length
  here : marker <+: text.drop offset
  earlier : ∀ o < offset, ¬ marker <+: text.drop o

variable {c d : Char} {cs ds pattern text before after : List Char} {a b : UInt8}
  {rest : List UInt8} {o : Nat}

theorem bytesOf_cons : bytesOf (c :: cs) = utf8EncodeChar c ++ bytesOf cs := List.flatMap_cons

theorem bytesOf_append : bytesOf (cs ++ ds) = bytesOf cs ++ bytesOf ds := List.flatMap_append

theorem bytesOf_toList (text : String) : bytesOf text.toList = text.toUTF8.data.toList :=
  encodeUtf8_eq text

theorem byteCount_eq (cs : List Char) : byteCount cs = (bytesOf cs).length := by
  induction cs with
  | nil => rfl
  | cons c cs ih =>
    rw [byteCount, ih, bytesOf_cons, List.length_append, String.length_utf8EncodeChar]

/-- No character starts with a byte that others go on with. -/
theorem not_isTail_of_encode (h : utf8EncodeChar c = a :: rest) : Utf8Step.isTail a = false := by
  refine Bool.eq_false_iff.mpr fun htail => ?_
  obtain ⟨hlow, hhigh⟩ := Utf8Step.isTail_iff.mp htail
  have hread := Utf8Step.of_encode h []
  rw [Utf8Step.of_bad hlow (by omega)] at hread
  cases hread

theorem isTail_of_encode (h : utf8EncodeChar c = a :: rest) (hb : b ∈ rest) :
    Utf8Step.isTail b = true := by
  rw [utf8EncodeChar] at h
  split_ifs at h <;> obtain ⟨rfl, rfl⟩ := List.cons.inj h
  · cases hb
  all_goals
    simp only [List.mem_cons, List.not_mem_nil, or_false] at hb
    rcases hb with rfl | rfl | rfl <;> exact Utf8Step.isTail_tail _

/-- A byte that is a whole character is in no other one. -/
theorem mem_encode_iff (h : utf8EncodeChar c = [a]) : a ∈ utf8EncodeChar d ↔ d = c := by
  constructor
  · intro ha
    cases hencode : utf8EncodeChar d with
    | nil => exact absurd hencode String.utf8EncodeChar_ne_nil
    | cons b tail =>
      have htail := not_isTail_of_encode h
      rw [hencode, List.mem_cons] at ha
      obtain rfl | ha := ha
      · have hc := Utf8Step.of_encode h tail
        have hd := Utf8Step.of_encode hencode []
        rw [List.append_nil] at hd
        exact (Utf8Step.char.inj (hd.symm.trans hc)).1
      · cases htail.symm.trans (isTail_of_encode hencode ha)
  · rintro rfl
    rw [h]
    exact List.mem_singleton_self a

theorem mem_bytesOf_iff (h : utf8EncodeChar c = [a]) : a ∈ bytesOf cs ↔ c ∈ cs := by
  simp only [bytesOf, List.mem_flatMap, mem_encode_iff h, exists_eq_right]

theorem count_bytesOf (h : utf8EncodeChar c = [a]) : (bytesOf cs).count a = cs.count c := by
  induction cs with
  | nil => rfl
  | cons d cs ih =>
    rw [bytesOf_cons, List.count_append, ih]
    by_cases hd : d = c
    · rw [hd, h, List.count_singleton_self, List.count_cons_self, Nat.add_comm]
    · rw [List.count_cons_of_ne hd, List.count_eq_zero.mpr (mt (mem_encode_iff h).mp hd),
        Nat.zero_add]

/-- A byte that starts a character is where a character starts. -/
theorem boundary_of_not_isTail (h : (bytesOf cs)[o]? = some b) (hb : Utf8Step.isTail b = false) :
    ∃ before after, cs = before ++ after ∧ (bytesOf before).length = o := by
  induction cs generalizing o with
  | nil => cases h
  | cons c cs ih =>
    cases hencode : utf8EncodeChar c with
    | nil => exact absurd hencode String.utf8EncodeChar_ne_nil
    | cons a tail =>
      rw [bytesOf_cons, hencode] at h
      cases o with
      | zero => exact ⟨[], c :: cs, rfl, rfl⟩
      | succ o =>
        rw [List.cons_append, List.getElem?_cons_succ] at h
        by_cases ho : o < tail.length
        · rw [List.getElem?_append_left ho] at h
          have htail := isTail_of_encode hencode (List.mem_of_getElem? h)
          cases hb.symm.trans htail
        · rw [List.getElem?_append_right (Nat.not_lt.mp ho)] at h
          obtain ⟨before, after, rfl, hlength⟩ := ih h
          refine ⟨c :: before, after, rfl, ?_⟩
          rw [bytesOf_cons, hencode, List.length_append, hlength, List.length_cons]
          omega

theorem utf8Parts_bytesOf (cs : List Char) (rest : List UInt8) :
    utf8Parts 0 (bytesOf cs ++ rest) = cs.map some ++ utf8Parts 0 rest := by
  induction cs with
  | nil => rfl
  | cons c cs ih =>
    rw [bytesOf_cons, List.append_assoc, utf8Parts_encodeChar, ih, List.map_cons, List.cons_append]

/-- Texts start alike if their bytes do. -/
theorem start_of_bytesOf (h : bytesOf cs <+: bytesOf ds) : cs <+: ds := by
  obtain ⟨rest, hrest⟩ := h
  have hread : cs.map some ++ utf8Parts 0 rest = ds.map some := by
    rw [← utf8Parts_bytesOf, hrest]
    exact utf8Parts_encode ds
  have hstart := List.IsPrefix.filterMap id ⟨_, hread⟩
  simpa [List.filterMap_map] using hstart

/-- The characters before the first occurrence of a pattern. -/
theorem of_textBefore? (h : textBefore? pattern text = some before) :
    ∃ after, text = before ++ after ∧ pattern <+: after ∧
      ∀ cs ds, text = cs ++ ds → pattern <+: ds → before.length ≤ cs.length := by
  induction text generalizing before with
  | nil =>
    rw [textBefore?] at h
    split at h
    next hpattern =>
      cases h
      rw [List.isEmpty_iff.mp hpattern]
      exact ⟨[], rfl, List.nil_prefix, fun _ _ _ _ => Nat.zero_le _⟩
    next => cases h
  | cons c text ih =>
    rw [textBefore?] at h
    split at h
    next hstart =>
      cases h
      exact ⟨c :: text, rfl, List.isPrefixOf_iff_prefix.mp hstart, fun _ _ _ _ => Nat.zero_le _⟩
    next hstart =>
      obtain ⟨before, hbefore, rfl⟩ := Option.map_eq_some_iff.mp h
      obtain ⟨after, rfl, hafter, hfirst⟩ := ih hbefore
      refine ⟨after, rfl, hafter, fun cs ds htext hds => ?_⟩
      cases cs with
      | nil =>
        obtain rfl : c :: (before ++ after) = ds := htext
        exact absurd (List.isPrefixOf_iff_prefix.mpr hds) hstart
      | cons d cs =>
        obtain ⟨-, htext⟩ := List.cons.inj htext
        exact Nat.succ_le_succ (hfirst cs ds htext hds)

/-- In bytes it is the first one as well. -/
theorem firstAt_of_textBefore? (hpattern : pattern ≠ [])
    (h : textBefore? pattern text = some before) :
    FirstAt (bytesOf pattern) (bytesOf text) (bytesOf before).length := by
  obtain ⟨after, rfl, ⟨later, rfl⟩, hfirst⟩ := of_textBefore? h
  constructor
  case within =>
    rw [bytesOf_append, List.length_append]
    exact Nat.le_add_right ..
  case here =>
    rw [bytesOf_append, List.drop_left, bytesOf_append]
    exact List.prefix_append ..
  case earlier =>
    intro o ho hstart
    obtain ⟨c, pattern, rfl⟩ := List.exists_cons_of_ne_nil hpattern
    cases hencode : utf8EncodeChar c with
    | nil => exact absurd hencode String.utf8EncodeChar_ne_nil
    | cons a tail =>
      have hbyte : (bytesOf (before ++ (c :: pattern ++ later)))[o]? = some a := by
        rw [bytesOf_cons, hencode] at hstart
        obtain ⟨rest, hrest⟩ := hstart
        rw [← List.head?_drop, ← hrest]
        rfl
      obtain ⟨cs, ds, hsplit, hlength⟩ :=
        boundary_of_not_isTail hbyte (not_isTail_of_encode hencode)
      rw [hsplit, bytesOf_append, ← hlength, List.drop_left] at hstart
      have hle := hfirst cs ds hsplit (start_of_bytesOf hstart)
      -- both are starts of one text, so the shorter one has no more bytes
      have hshorter : before <+: cs :=
        List.prefix_of_prefix_length_le (hsplit ▸ List.prefix_append ..) (List.prefix_append ..) hle
      obtain ⟨between, rfl⟩ := hshorter
      rw [bytesOf_append, List.length_append] at hlength
      omega

end LiveEdit
