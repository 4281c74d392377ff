import LiveEdit.Diagnostic.Descriptor
import Mathlib.Data.List.Infix

/-!
Filling in one argument after the other, against reading the template once. The two agree if no
argument but the last can be taken for a part of a placeholder.
-/
namespace LiveEdit

/--
What a template says with these arguments. It is read once from left to right: the placeholder of
an argument gives way to the argument, and all else is copied.
-/
inductive Substitutes (args : List String) : List Char → List Char → Prop
  | done : Substitutes args [] []
  | slot {index : Nat} {arg : String} {rest message : List Char}
      (harg : args[index]? = some arg) (h : Substitutes args rest message) :
      Substitutes args (placeholder index ++ rest) (arg.toList ++ message)
  | copy {c : Char} {rest message : List Char}
      (hslot : ∀ index < args.length, ¬ placeholder index <+: c :: rest)
      (h : Substitutes args rest message) : Substitutes args (c :: rest) (c :: message)

/-- No part of the text can be part of a placeholder, whatever stands before and after it. -/
structure IsInert (text : String) : Prop where
  closed : '{' ∉ text.toList
  first : ∃ c ∈ text.toList.head?, c ≠ '}' ∧ c.isDigit = false

/-- The end of a placeholder, after its brace. -/
def slotEnd (index : Nat) : List Char := Nat.toDigits 10 index ++ ['}']

/-- How a descriptor's messages compare to what its template says. -/
structure Descriptor.Fills (d : Descriptor) : Prop where
  /-- The argument of the last placeholder may be any text. -/
  inert (args : List String)
    (h : ∀ index arg, index + 1 < args.length → args[index]? = some arg →
      placeholder index <:+: d.template.toList → IsInert arg) (message : List Char) :
    Substitutes args d.template.toList message ↔ message = (d.message args).toList
  /-- All arguments are safe only where the template has no placeholder but for the last one. -/
  always (count : Nat) :
    (∀ args : List String, args.length = count →
      Substitutes args d.template.toList (d.message args).toList) ↔
    ∀ index, index + 1 < count → ¬ placeholder index <:+: d.template.toList

variable {args done : List String} {arg : String} {index other : Nat} {c : Char}
  {text rest template message message' : List Char}

theorem mem_slotEnd (h : c ∈ slotEnd index) : c = '}' ∨ c.isDigit = true := by
  rcases List.mem_append.mp h with h | h
  · exact .inr (Nat.isDigit_of_mem_toDigits (by decide) (by decide) h)
  · exact .inl (List.mem_singleton.mp h)

theorem notMem_slotEnd (h : c ≠ '}') (h' : c.isDigit = false) : c ∉ slotEnd index := by
  intro hc
  rcases mem_slotEnd hc with rfl | hdigit
  · exact h rfl
  · cases h'.symm.trans hdigit

theorem brace_notMem_slotEnd : '{' ∉ slotEnd index := notMem_slotEnd (by decide) (by decide)

/-- A text starts with one placeholder at most. -/
theorem placeholder_unique (h : placeholder index <+: placeholder other ++ rest) :
    index = other := by
  have hdigits (n : Nat) (text : List Char) :
      (Nat.toDigits 10 n ++ '}' :: text).takeWhile Char.isDigit = Nat.toDigits 10 n := by
    rw [List.takeWhile_append_of_pos fun c hc =>
      Nat.isDigit_of_mem_toDigits (by decide) (by decide) hc]
    simp
  obtain ⟨after, hafter⟩ := h
  have hends : Nat.toDigits 10 index ++ '}' :: after = Nat.toDigits 10 other ++ '}' :: rest := by
    simpa [placeholder] using hafter
  have hsame := congrArg (List.takeWhile Char.isDigit) hends
  rw [hdigits, hdigits] at hsame
  rw [← Nat.ofDigitChars_ten_toDigits (n := index), hsame, Nat.ofDigitChars_ten_toDigits]

/-- What starts with a character starts nowhere in a text without it. -/
theorem infix_of_infix_append (hc : c ∉ text) (h : c :: message <:+: text ++ rest) :
    c :: message <:+: rest := by
  induction text with
  | nil => exact h
  | cons x text ih =>
    rw [List.mem_cons, not_or] at hc
    rcases List.infix_cons_iff.mp h with h | h
    · exact absurd (List.cons_prefix_cons.mp h).1 hc.1
    · exact ih hc.2 h

theorem replaceEach_copied {replacement : List Char} (h : '{' ∉ text) :
    replaceEach (placeholder index) replacement 0 (text ++ rest) =
      text ++ replaceEach (placeholder index) replacement 0 rest :=
  replaceEach_append h rest

theorem replaceEach_slot {replacement : List Char} :
    replaceEach (placeholder index) replacement 0 (placeholder index ++ rest) =
      replacement ++ replaceEach (placeholder index) replacement 0 rest :=
  replaceEach_self ..

theorem replaceEach_of_not_start {pattern replacement : List Char} (h : ¬ pattern <+: c :: rest) :
    replaceEach pattern replacement 0 (c :: rest) =
      c :: replaceEach pattern replacement 0 rest := by
  rw [replaceEach, if_neg (mt List.isPrefixOf_iff_prefix.mp h)]

namespace Substitutes

theorem of_copy (hslot : ∀ index < args.length, ¬ placeholder index <+: c :: rest)
    (h : Substitutes args (c :: rest) message) :
    ∃ copied, message = c :: copied ∧ Substitutes args rest copied := by
  generalize hsource : c :: rest = source at h
  cases h with
  | done => cases hsource
  | copy _ h =>
    cases hsource
    exact ⟨_, rfl, h⟩
  | slot harg =>
    refine absurd ?_ (hslot _ (List.getElem?_eq_some_iff.mp harg).1)
    exact hsource ▸ List.prefix_append ..

theorem of_slot (harg : args[index]? = some arg)
    (h : Substitutes args (placeholder index ++ rest) message) :
    ∃ after, message = arg.toList ++ after ∧ Substitutes args rest after := by
  generalize hsource : placeholder index ++ rest = source at h
  cases h with
  | done => simp [placeholder] at hsource
  | copy hslot =>
    refine absurd ?_ (hslot index (List.getElem?_eq_some_iff.mp harg).1)
    exact hsource ▸ List.prefix_append ..
  | slot harg' h =>
    obtain rfl := placeholder_unique (hsource ▸ List.prefix_append ..)
    cases harg.symm.trans harg'
    cases List.append_cancel_left hsource
    exact ⟨_, rfl, h⟩

theorem of_nil (h : Substitutes args [] message) : message = [] := by
  generalize hsource : ([] : List Char) = source at h
  cases h with
  | done => rfl
  | copy => cases hsource
  | slot => simp [placeholder] at hsource

/-- There is only one way to read a template. -/
theorem unique (h : Substitutes args template message) (h' : Substitutes args template message') :
    message = message' := by
  induction h generalizing message' with
  | done => exact (of_nil h').symm
  | slot harg _ ih =>
    obtain ⟨after, rfl, hafter⟩ := of_slot harg h'
    rw [ih hafter]
  | copy hslot _ ih =>
    obtain ⟨copied, rfl, hcopied⟩ := of_copy hslot h'
    rw [ih hcopied]

/-- Text without an opening brace is copied. -/
theorem of_append (htext : '{' ∉ text) (h : Substitutes args (text ++ rest) message) :
    ∃ after, message = text ++ after ∧ Substitutes args rest after := by
  induction text generalizing message with
  | nil => exact ⟨message, rfl, h⟩
  | cons c text ih =>
    rw [List.mem_cons, not_or] at htext
    have hslot : ∀ index < args.length, ¬ placeholder index <+: c :: (text ++ rest) :=
      fun _ _ hstart => htext.1 (List.cons_prefix_cons.mp hstart).1
    obtain ⟨copied, rfl, hcopied⟩ := of_copy hslot h
    obtain ⟨after, rfl, hafter⟩ := ih htext.2 hcopied
    exact ⟨after, rfl, hafter⟩

/-- An argument that the template uses is in the message. -/
theorem holds_argument (h : Substitutes args template message) (harg : args[index]? = some arg)
    (hslot : placeholder index <:+: template) : arg.toList <:+: message := by
  induction h with
  | done => simp [placeholder] at hslot
  | @slot other text rest message hother _ ih =>
    rcases List.infix_cons_iff.mp hslot with hstart | hin
    · have hslots : placeholder index <+: placeholder other ++ rest := hstart
      obtain rfl := placeholder_unique hslots
      cases harg.symm.trans hother
      exact (List.prefix_append ..).isInfix
    · have hrest := infix_of_infix_append brace_notMem_slotEnd hin
      exact (ih hrest).trans (List.suffix_append ..).isInfix
  | copy hcopied _ ih =>
    rcases List.infix_cons_iff.mp hslot with hstart | hin
    · exact absurd hstart (hcopied index (List.getElem?_eq_some_iff.mp harg).1)
    · exact (ih hin).trans (List.suffix_cons ..).isInfix

/-- The arguments put in so far that the template uses are no parts of placeholders. -/
def InertIn (done : List String) (template : List Char) : Prop :=
  ∀ index arg, done[index]? = some arg → placeholder index <:+: template → IsInert arg

theorem InertIn.of_suffix (h : InertIn done template) (hrest : rest <:+ template) :
    InertIn done rest :=
  fun index arg harg hslot => h index arg harg (hslot.trans hrest.isInfix)

/-- Then the rest of a placeholder is in the message only where it is in the template. -/
theorem starts_template (h : Substitutes done template message) (hinert : InertIn done template)
    (htext : ∀ c ∈ text, c = '}' ∨ c.isDigit = true) (hstart : text <+: message) :
    text <+: template := by
  induction h generalizing text with
  | done => exact hstart
  | @slot index arg rest message harg _ ih =>
    obtain ⟨c, hc, hbrace, hdigit⟩ := (hinert index arg harg (List.prefix_append ..).isInfix).first
    obtain ⟨cs, hcs⟩ := List.head?_eq_some_iff.mp hc
    cases text with
    | nil => exact List.nil_prefix
    | cons x text =>
      rw [hcs] at hstart
      obtain rfl := (List.cons_prefix_cons.mp hstart).1
      simpa [hbrace, hdigit] using htext x List.mem_cons_self
  | @copy c rest message hslot _ ih =>
    cases text with
    | nil => exact List.nil_prefix
    | cons x text =>
      obtain ⟨rfl, hrest⟩ := List.cons_prefix_cons.mp hstart
      have hinner := ih (hinert.of_suffix (List.suffix_cons ..))
        (fun c hc => htext c (List.mem_cons_of_mem _ hc)) hrest
      exact List.cons_prefix_cons.mpr ⟨rfl, hinner⟩

/-- Putting in one argument more, by induction on what the template said before. -/
theorem next (h : Substitutes done template message) (hinert : InertIn done template)
    (arg : String) : Substitutes (done ++ [arg]) template
      (replaceEach (placeholder done.length) arg.toList 0 message) := by
  induction h with
  | done => exact .done
  | @slot index inner rest message hinner _ ih =>
    have hclosed := (hinert index inner hinner (List.prefix_append ..).isInfix).closed
    have hindex := (List.getElem?_eq_some_iff.mp hinner).1
    rw [replaceEach_copied hclosed]
    refine .slot ?_ (ih (hinert.of_suffix (List.suffix_append ..)))
    rwa [List.getElem?_append_left hindex]
  | @copy c rest message hslot hrest ih =>
    have ih := ih (hinert.of_suffix (List.suffix_cons ..))
    by_cases hnew : placeholder done.length <+: c :: rest
    · -- the new argument's placeholder was copied up to its end
      obtain ⟨after, hafter⟩ := hnew
      obtain ⟨rfl, rfl⟩ := List.cons.inj hafter
      obtain ⟨copied, rfl, -⟩ := of_append brace_notMem_slotEnd hrest
      rw [replaceEach_copied brace_notMem_slotEnd] at ih
      obtain ⟨message, hmessage, hread⟩ := of_append brace_notMem_slotEnd ih
      obtain rfl := List.append_cancel_left hmessage
      have hslot : (done ++ [arg])[done.length]? = some arg := List.getElem?_concat_length
      have hfilled := Substitutes.slot hslot hread
      rwa [← replaceEach_slot] at hfilled
    · have hcopied : ¬ placeholder done.length <+: c :: message := by
        intro hstart
        obtain ⟨rfl, hend⟩ := List.cons_prefix_cons.mp hstart
        have hrest := hrest.starts_template (hinert.of_suffix (List.suffix_cons ..))
          (fun c hc => mem_slotEnd hc) hend
        exact hnew (List.cons_prefix_cons.mpr ⟨rfl, hrest⟩)
      rw [replaceEach_of_not_start hcopied]
      refine .copy (fun index hindex => ?_) ih
      rw [List.length_append] at hindex
      rcases Nat.lt_succ_iff_lt_or_eq.mp hindex with hold | rfl
      · exact hslot index hold
      · exact hnew

/-- A template without arguments stands for itself. -/
theorem nil (template : List Char) : Substitutes [] template template := by
  induction template with
  | nil => exact .done
  | cons c rest ih => exact .copy nofun ih

/-- Filling in all arguments, from what the template says with those that are done. -/
theorem fillFrom (h : Substitutes done template message)
    (hinert : ∀ index arg, index + 1 < (done ++ args).length → (done ++ args)[index]? = some arg →
      placeholder index <:+: template → IsInert arg) :
    Substitutes (done ++ args) template (fillFrom done.length message args) := by
  induction args generalizing done message with
  | nil => rwa [List.append_nil]
  | cons arg args ih =>
    have hdone : InertIn done template := by
      intro index inner hinner
      have hindex := (List.getElem?_eq_some_iff.mp hinner).1
      refine hinert index inner ?_ (by rwa [List.getElem?_append_left hindex])
      rw [List.length_append, List.length_cons]
      omega
    have hall : done ++ arg :: args = (done ++ [arg]) ++ args := by simp
    rw [hall] at hinert ⊢
    have hnext := ih (h.next hdone arg) hinert
    rwa [List.length_append] at hnext

end Substitutes

/-- Where another character is put in, no text without it comes to be. -/
theorem start_of_replaceEach {pattern : List Char} (hc : c ∉ text)
    (h : text <+: replaceEach pattern [c] 0 template) : text <+: template := by
  induction template generalizing text with
  | nil => exact h
  | cons x template ih =>
    cases text with
    | nil => exact List.nil_prefix
    | cons y text =>
      rw [List.mem_cons, not_or] at hc
      rw [replaceEach] at h
      split at h
      next => exact absurd (List.cons_prefix_cons.mp h).1.symm hc.1
      next =>
        obtain ⟨rfl, hrest⟩ := List.cons_prefix_cons.mp h
        exact List.cons_prefix_cons.mpr ⟨rfl, ih hc.2 hrest⟩

theorem not_infix_replaceEach {pattern : List Char} (hpattern : pattern ≠ []) (hc : c ∉ pattern)
    (skip : Nat) : ¬ pattern <:+: replaceEach pattern [c] skip template := by
  induction template generalizing skip with
  | nil => simpa [replaceEach] using hpattern
  | cons x template ih =>
    obtain ⟨y, pattern, rfl⟩ := List.exists_cons_of_ne_nil hpattern
    cases skip with
    | succ skip => exact ih skip
    | zero =>
      intro h
      rw [replaceEach] at h
      split at h
      next =>
        rcases List.infix_cons_iff.mp h with hstart | hin
        · exact hc (List.mem_cons.mpr (.inl (List.cons_prefix_cons.mp hstart).1.symm))
        · exact ih _ hin
      next hx =>
        rcases List.infix_cons_iff.mp h with hstart | hin
        · obtain ⟨rfl, hrest⟩ := List.cons_prefix_cons.mp hstart
          have hrest := start_of_replaceEach (fun h => hc (List.mem_cons_of_mem _ h)) hrest
          exact hx (List.isPrefixOf_iff_prefix.mpr (List.cons_prefix_cons.mpr ⟨rfl, hrest⟩))
        · exact ih _ hin

theorem replaceEach_same (pattern : List Char) (skip : Nat) :
    replaceEach (c :: pattern) (c :: pattern) skip template = template.drop skip := by
  induction template generalizing skip with
  | nil => rw [replaceEach, List.drop_nil]
  | cons x template ih =>
    cases skip with
    | succ skip => exact ih skip
    | zero =>
      rw [replaceEach]
      split
      next h =>
        obtain ⟨rest, hrest⟩ := List.isPrefixOf_iff_prefix.mp h
        have hrest' : pattern ++ rest = template := (List.cons.inj hrest).2
        rw [ih, List.length_cons, Nat.add_sub_cancel, ← hrest', List.drop_left, hrest, hrest']
        rfl
      next => rw [ih, List.drop_zero, List.drop_zero]

theorem fillFrom_append (start : Nat) (args later : List String) :
    fillFrom start message (args ++ later) =
      fillFrom (start + args.length) (fillFrom start message args) later := by
  induction args generalizing start message with
  | nil => rfl
  | cons arg args ih =>
    rw [List.cons_append, fillFrom, fillFrom, ih, List.length_cons, Nat.add_right_comm,
      Nat.add_assoc]

/-- The argument that is its own placeholder. -/
def ownArgument (index : Nat) : String := String.ofList (placeholder index)

theorem toList_ownArgument : (ownArgument index).toList = placeholder index := String.toList_ofList

/-- Such arguments leave a message as it is. -/
theorem fillFrom_own (start count : Nat) :
    fillFrom start message ((List.range' start count).map ownArgument) = message := by
  induction count generalizing start with
  | zero => rfl
  | succ count ih =>
    have hsame : replaceEach (placeholder start) (placeholder start) 0 message = message :=
      replaceEach_same ..
    rw [List.range'_succ, List.map_cons, fillFrom, toList_ownArgument, hsame, ih]

/-- Arguments that are their own placeholders, but for one that is the next one's. -/
def clashing (index later : Nat) : List String :=
  (List.range' 0 index).map ownArgument ++ ownArgument (index + 1) :: "x" ::
    (List.range' (index + 2) later).map ownArgument

theorem fill_clashing (template : String) (index later : Nat) :
    (fill template (clashing index later)).toList =
      replaceEach (placeholder (index + 1)) ['x'] 0
        (replaceEach (placeholder index) (placeholder (index + 1)) 0 template.toList) := by
  rw [fill, String.toList_ofList, clashing, fillFrom_append, fillFrom_own, List.length_map,
    List.length_range', Nat.zero_add, fillFrom, fillFrom, fillFrom_own, toList_ownArgument]
  rfl

theorem length_clashing (index later : Nat) :
    (clashing index later).length = index + 1 + later + 1 := by
  simp [clashing]
  omega

namespace Descriptor

variable (d : Descriptor)

/-- The next placeholder is not in the message, but the template says that it is. -/
theorem not_substitutes_clashing (later : Nat) (hslot : placeholder index <:+: d.template.toList) :
    ¬ Substitutes (clashing index later) d.template.toList
      (d.message (clashing index later)).toList := by
  intro h
  have harg : (clashing index later)[index]? = some (ownArgument (index + 1)) := by
    rw [clashing, List.getElem?_append_right (by simp)]
    simp
  have hin := h.holds_argument harg hslot
  rw [message, fill_clashing, toList_ownArgument] at hin
  have hx : 'x' ∉ placeholder (index + 1) := by
    intro hmem
    rcases List.mem_cons.mp hmem with hbrace | hend
    · exact absurd hbrace (by decide)
    · exact notMem_slotEnd (by decide) (by decide) hend
  exact not_infix_replaceEach (List.cons_ne_nil _ _) hx 0 hin

theorem substitutes_message {args : List String}
    (hinert : ∀ index arg, index + 1 < args.length → args[index]? = some arg →
      placeholder index <:+: d.template.toList → IsInert arg) :
    Substitutes args d.template.toList (d.message args).toList := by
  rw [message, fill, String.toList_ofList]
  exact (Substitutes.nil d.template.toList).fillFrom hinert

/-- A message is what the template says, unless an argument is taken for a part of it. -/
theorem messages_are_substituted : d.Fills := by
  constructor
  case inert =>
    intro args hinert message
    have hread := d.substitutes_message hinert
    constructor
    · exact fun h => h.unique hread
    · rintro rfl
      exact hread
  case always =>
    intro count
    constructor
    · intro hall index hindex hslot
      obtain ⟨later, rfl⟩ := Nat.exists_eq_add_of_lt hindex
      exact d.not_substitutes_clashing later hslot (hall _ (length_clashing index later))
    · rintro hnone args rfl
      exact d.substitutes_message fun index arg hindex _ hslot =>
        absurd hslot (hnone index hindex)

/-- An argument, or what it makes together with the template, is taken for a placeholder. -/
theorem arguments_are_read_again :
    let inner : Descriptor := ⟨"T", "\x7b0\x7d"⟩
    let outer : Descriptor := ⟨"T", "\x7b\x7b0\x7d\x7d"⟩
    inner.message ["\x7b1\x7d", "x"] = "x" ∧ outer.message ["1", "x"] = "x" ∧
      Substitutes ["\x7b1\x7d", "x"] inner.template.toList "\x7b1\x7d".toList ∧
      Substitutes ["1", "x"] outer.template.toList "\x7b1\x7d".toList ∧
      ¬ Substitutes ["\x7b1\x7d", "x"] inner.template.toList "x".toList ∧
      ¬ Substitutes ["1", "x"] outer.template.toList "x".toList := by
  intro inner outer
  have hinner : Substitutes ["\x7b1\x7d", "x"] inner.template.toList "\x7b1\x7d".toList := by
    have htemplate : inner.template.toList = placeholder 0 ++ [] := by decide +kernel
    rw [htemplate, ← List.append_nil "\x7b1\x7d".toList]
    exact .slot rfl .done
  have houter : Substitutes ["1", "x"] outer.template.toList "\x7b1\x7d".toList := by
    have htemplate : outer.template.toList = '{' :: (placeholder 0 ++ ['}']) := by decide +kernel
    have hmessage : "\x7b1\x7d".toList = '{' :: ("1".toList ++ ['}']) := by decide +kernel
    rw [htemplate, hmessage]
    exact .copy (by decide) (.slot rfl (.copy (by decide) .done))
  refine ⟨by decide +kernel, by decide +kernel, hinner, houter, fun h => ?_, fun h => ?_⟩
  · exact absurd (hinner.unique h) (by decide +kernel)
  · exact absurd (houter.unique h) (by decide +kernel)

end Descriptor

end LiveEdit
