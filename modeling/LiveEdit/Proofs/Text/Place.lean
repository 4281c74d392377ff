import LiveEdit.Proofs.Text.Occurrence

/-! A line and a column tell one place in a text, and a place has one line and one column. -/
namespace LiveEdit

def lineBreak : UInt8 := 0x0a

/--
What is left of a text that is cut into lines from a column of a line on. Both are counted from
one, and columns are bytes.
-/
def textFrom? : (line column : Nat) → (text : List UInt8) → Option (List UInt8)
  | line + 1, column + 1, text =>
    match (text.splitOn lineBreak).drop line with
    | [] => none
    | first :: later =>
      if column ≤ first.length then some ([lineBreak].intercalate (first.drop column :: later))
      else none
  | _, _, _ => none

/-- How many bytes follow the last line break. -/
def columnAfter : List UInt8 → Nat
  | [] => 0
  | b :: bs =>
    if lineBreak ∈ bs then columnAfter bs else if b = lineBreak then bs.length else bs.length + 1

/-- A line and a column say where in a text a byte is, and they say it of no other one. -/
structure Locates (line column : Nat) (text : List UInt8) (offset : Nat) : Prop where
  place : textFrom? line column text = some (text.drop offset)
  offset_eq {o : Nat} (ho : o ≤ text.length) (h : textFrom? line column text = some (text.drop o)) :
    o = offset
  place_eq {l c : Nat} (h : textFrom? l c text = some (text.drop offset)) : l = line ∧ c = column

variable {line column : Nat} {b : UInt8} {text rest before after : List UInt8}

theorem columnAfter_of_notMem (h : lineBreak ∉ text) : columnAfter text = text.length := by
  cases text with
  | nil => rfl
  | cons b text =>
    rw [List.mem_cons, not_or] at h
    rw [columnAfter, if_neg h.2, if_neg (Ne.symm h.1), List.length_cons]

theorem columnAfter_append (h : lineBreak ∈ after) :
    columnAfter (before ++ after) = columnAfter after := by
  induction before with
  | nil => rfl
  | cons b before ih =>
    rw [List.cons_append, columnAfter, if_pos (List.mem_append_right _ h), ih]

theorem columnAfter_lineBreak (before : List UInt8) :
    columnAfter (lineBreak :: before) = columnAfter before := by
  rw [columnAfter]
  split
  next => rfl
  next h => rw [if_pos rfl, columnAfter_of_notMem h]

theorem columnAfter_cons (hb : b ≠ lineBreak) : columnAfter (b :: before) =
    if lineBreak ∈ before then columnAfter before else columnAfter before + 1 := by
  rw [columnAfter, if_neg hb]
  split
  next => rfl
  next h => rw [columnAfter_of_notMem h]

theorem textFrom?_start (text : List UInt8) : textFrom? 1 1 text = some text := by
  have hjoin : [lineBreak].intercalate (text.splitOn lineBreak) = text :=
    List.intercalate_splitOn lineBreak
  rw [textFrom?, List.drop_zero]
  cases hlines : text.splitOn lineBreak with
  | nil => exact absurd hlines (List.splitOn_ne_nil _ _)
  | cons first later =>
    rw [hlines] at hjoin
    simp [hjoin]

theorem splitOn_lineBreak (text : List UInt8) :
    (lineBreak :: text).splitOn lineBreak = [] :: text.splitOn lineBreak := by
  simp [List.splitOn_eq_splitOnP, List.splitOnP_cons_eq_if_modifyHead]

theorem splitOn_cons (hb : b ≠ lineBreak) {first : List UInt8} {later : List (List UInt8)}
    (hlines : text.splitOn lineBreak = first :: later) :
    (b :: text).splitOn lineBreak = (b :: first) :: later := by
  rw [List.splitOn_eq_splitOnP] at hlines ⊢
  simp [List.splitOnP_cons_eq_if_modifyHead, hlines, hb]

theorem textFrom?_nil : textFrom? (line + 1) (column + 1) [] = some rest ↔
    line = 0 ∧ column = 0 ∧ rest = [] := by
  cases line with
  | zero => cases column <;> simp [textFrom?, eq_comm]
  | succ line => simp [textFrom?]

/-- A line break ends the first line, which has but one place. -/
theorem textFrom?_lineBreak : textFrom? (line + 1) (column + 1) (lineBreak :: text) = some rest ↔
    line = 0 ∧ column = 0 ∧ rest = lineBreak :: text ∨
      ∃ next, line = next + 1 ∧ textFrom? (next + 1) (column + 1) text = some rest := by
  cases line with
  | zero =>
    cases column with
    | zero => simp [textFrom?_start, eq_comm]
    | succ column => simp [textFrom?, splitOn_lineBreak]
  | succ line => simp [textFrom?, splitOn_lineBreak]

/-- Another byte is one column of the first line. -/
theorem textFrom?_cons (hb : b ≠ lineBreak) :
    textFrom? (line + 1) (column + 1) (b :: text) = some rest ↔
      line = 0 ∧ column = 0 ∧ rest = b :: text ∨
        (∃ next, line = 0 ∧ column = next + 1 ∧ textFrom? (0 + 1) (next + 1) text = some rest) ∨
          line ≠ 0 ∧ textFrom? (line + 1) (column + 1) text = some rest := by
  cases hlines : text.splitOn lineBreak with
  | nil => exact absurd hlines (List.splitOn_ne_nil _ _)
  | cons first later =>
    cases line with
    | zero =>
      cases column with
      | zero => simp [textFrom?_start, eq_comm]
      | succ column => simp [textFrom?, splitOn_cons hb hlines, hlines]
    | succ line => simp [textFrom?, splitOn_cons hb hlines, hlines]

/-- The text is left after as many line breaks as there are lines above, and so many bytes. -/
theorem textFrom?_eq_some_iff : textFrom? (line + 1) (column + 1) text = some rest ↔
    ∃ before, text = before ++ rest ∧ before.count lineBreak = line ∧
      columnAfter before = column := by
  induction text generalizing line column with
  | nil =>
    rw [textFrom?_nil]
    constructor
    · rintro ⟨rfl, rfl, rfl⟩
      exact ⟨[], rfl, rfl, rfl⟩
    · rintro ⟨before, hbefore, rfl, rfl⟩
      obtain ⟨rfl, rfl⟩ := List.append_eq_nil_iff.mp hbefore.symm
      exact ⟨rfl, rfl, rfl⟩
  | cons b text ih =>
    by_cases hb : b = lineBreak
    · subst hb
      simp only [textFrom?_lineBreak, ih]
      constructor
      · rintro (⟨rfl, rfl, rfl⟩ | ⟨_, rfl, before, rfl, rfl, rfl⟩)
        · exact ⟨[], rfl, rfl, rfl⟩
        · exact ⟨lineBreak :: before, rfl, List.count_cons_self, columnAfter_lineBreak before⟩
      · rintro ⟨before, hbefore, rfl, rfl⟩
        cases before with
        | nil => exact .inl ⟨rfl, rfl, hbefore.symm⟩
        | cons x before =>
          obtain ⟨rfl, rfl⟩ := List.cons.inj hbefore
          rw [List.count_cons_self, columnAfter_lineBreak]
          exact .inr ⟨_, rfl, before, rfl, rfl, rfl⟩
    · simp only [textFrom?_cons hb, ih]
      constructor
      · rintro (⟨rfl, rfl, rfl⟩ | ⟨_, rfl, rfl, before, rfl, hnone, rfl⟩ |
          ⟨hsome, before, rfl, rfl, rfl⟩)
        · exact ⟨[], rfl, rfl, rfl⟩
        · refine ⟨b :: before, rfl, (List.count_cons_of_ne hb).trans hnone, ?_⟩
          rw [columnAfter_cons hb, if_neg (List.count_eq_zero.mp hnone)]
        · refine ⟨b :: before, rfl, List.count_cons_of_ne hb, ?_⟩
          rw [columnAfter_cons hb, if_pos (List.count_pos_iff.mp (Nat.pos_of_ne_zero hsome))]
      · rintro ⟨before, hbefore, rfl, rfl⟩
        cases before with
        | nil => exact .inl ⟨rfl, rfl, hbefore.symm⟩
        | cons x before =>
          obtain ⟨rfl, rfl⟩ := List.cons.inj hbefore
          rw [List.count_cons_of_ne hb, columnAfter_cons hb]
          -- a byte of an earlier line counts for no column
          by_cases h : lineBreak ∈ before
          · rw [if_pos h]
            exact .inr (.inr ⟨(List.count_pos_iff.mpr h).ne', before, rfl, rfl, rfl⟩)
          · rw [if_neg h, List.count_eq_zero.mpr h]
            exact .inr (.inl ⟨_, rfl, rfl, before, rfl, List.count_eq_zero.mpr h, rfl⟩)

/-- The place of a byte is told by the line breaks before it, and how far back the last one is. -/
theorem locates (before after : List UInt8) :
    Locates (before.count lineBreak + 1) (columnAfter before + 1) (before ++ after)
      before.length := by
  have hplace : textFrom? (before.count lineBreak + 1) (columnAfter before + 1)
      (before ++ after) = some after := textFrom?_eq_some_iff.mpr ⟨before, rfl, rfl, rfl⟩
  constructor
  case place => rw [hplace, List.drop_left]
  case offset_eq =>
    intro o ho h
    have hdrop := Option.some.inj (hplace.symm.trans h)
    have hlength := congrArg List.length hdrop
    rw [List.length_append] at ho
    rw [List.length_drop, List.length_append] at hlength
    omega
  case place_eq =>
    intro l c h
    rw [List.drop_left] at h
    match l, c, h with
    | l + 1, c + 1, h =>
      obtain ⟨again, hagain, rfl, rfl⟩ := textFrom?_eq_some_iff.mp h
      rw [List.append_cancel_right hagain]
      exact ⟨rfl, rfl⟩

variable {cs : List Char}

theorem count_lineBreak : (bytesOf cs).count lineBreak = cs.count '\n' := count_bytesOf rfl

theorem columnAfter_bytesOf (cs : List Char) :
    columnAfter (bytesOf cs) = byteCount (lastLine cs) := by
  induction cs with
  | nil => rfl
  | cons c cs ih =>
    rw [bytesOf_cons, lastLine]
    split
    next h => rw [columnAfter_append ((mem_bytesOf_iff rfl).mpr h), ih]
    next h =>
      have hlast : lineBreak ∉ bytesOf cs := mt (mem_bytesOf_iff rfl).mp h
      split
      next hc =>
        have hbreak : String.utf8EncodeChar c ++ bytesOf cs = lineBreak :: bytesOf cs := by
          rw [hc]
          rfl
        rw [hbreak, columnAfter_lineBreak, columnAfter_of_notMem hlast, byteCount_eq]
      next hc =>
        have hfirst : lineBreak ∉ String.utf8EncodeChar c := mt (mem_encode_iff rfl).mp hc
        rw [byteCount_eq, bytesOf_cons, columnAfter_of_notMem]
        rw [List.mem_append, not_or]
        exact ⟨hfirst, hlast⟩

end LiveEdit
