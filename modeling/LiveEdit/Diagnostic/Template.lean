/-! Message templates with numbered placeholders. -/

namespace LiveEdit

/-- Puts `by` in place of each occurrence of `pattern`, from the left, after passing over `skip`. -/
def replaceEach (pattern replacement : List Char) (skip : Nat) : List Char → List Char
  | [] => []
  | c :: cs =>
    match skip with
    | skip + 1 => replaceEach pattern replacement skip cs
    | 0 =>
      if pattern.isPrefixOf (c :: cs) then
        replacement ++ replaceEach pattern replacement (pattern.length - 1) cs
      else c :: replaceEach pattern replacement 0 cs

/-- Text that holds no beginning of the pattern is passed over. -/
theorem replaceEach_append {c : Char} {pattern replacement text : List Char} (h : c ∉ text)
    (rest : List Char) :
    replaceEach (c :: pattern) replacement 0 (text ++ rest) =
      text ++ replaceEach (c :: pattern) replacement 0 rest := by
  induction text with
  | nil => rfl
  | cons x text ih =>
    rw [List.mem_cons, not_or] at h
    have hx : (c :: pattern).isPrefixOf (x :: (text ++ rest)) = false := by
      simp [List.isPrefixOf, h.1]
    rw [List.cons_append, replaceEach, if_neg (by simp [hx]), ih h.2, List.cons_append]

theorem replaceEach_of_notMem {c : Char} {pattern replacement text : List Char} (h : c ∉ text) :
    replaceEach (c :: pattern) replacement 0 text = text := by
  simpa [replaceEach] using replaceEach_append h []

theorem replaceEach_skip (pattern replacement passed rest : List Char) :
    replaceEach pattern replacement passed.length (passed ++ rest) =
      replaceEach pattern replacement 0 rest := by
  induction passed with
  | nil => rfl
  | cons _ _ ih => exact ih

theorem replaceEach_self (c : Char) (pattern replacement rest : List Char) :
    replaceEach (c :: pattern) replacement 0 (c :: pattern ++ rest) =
      replacement ++ replaceEach (c :: pattern) replacement 0 rest := by
  have hprefix : (c :: pattern).isPrefixOf (c :: (pattern ++ rest)) = true := by simp
  rw [List.cons_append, replaceEach, if_pos hprefix, List.length_cons, Nat.add_sub_cancel,
    replaceEach_skip]

/-- The placeholder of the argument at an index: its decimal number in braces. -/
def placeholder (index : Nat) : List Char := '{' :: (Nat.toDigits 10 index ++ ['}'])

/-- Fills in one argument after the other, the text of earlier arguments included. -/
def fillFrom (index : Nat) (message : List Char) : List String → List Char
  | [] => message
  | arg :: args =>
    fillFrom (index + 1) (replaceEach (placeholder index) arg.toList 0 message) args

def fill (template : String) (args : List String) : String :=
  String.ofList (fillFrom 0 template.toList args)

/-- A single placeholder gives way to the argument, whose own braces are left alone. -/
theorem fill_once {before after : String} (hb : '{' ∉ before.toList) (ha : '{' ∉ after.toList)
    (arg : String) : fill (before ++ "\x7b0\x7d" ++ after) [arg] = before ++ arg ++ after := by
  have hplaceholder : "\x7b0\x7d".toList = placeholder 0 := rfl
  have hrest : replaceEach (placeholder 0) arg.toList 0 after.toList = after.toList :=
    replaceEach_of_notMem ha
  have hfill : fillFrom 0 (before ++ "\x7b0\x7d" ++ after).toList [arg] =
      before.toList ++ (arg.toList ++ after.toList) := by
    rw [String.toList_append, String.toList_append, List.append_assoc, hplaceholder, fillFrom,
      fillFrom]
    exact (replaceEach_append hb _).trans
      (congrArg _ ((replaceEach_self ..).trans (congrArg _ hrest)))
  rw [fill, hfill, String.ofList_append, String.ofList_append, String.ofList_toList,
    String.ofList_toList, String.ofList_toList, String.append_assoc]

end LiveEdit
