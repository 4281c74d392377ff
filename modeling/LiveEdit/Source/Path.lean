/-! Source paths in one spelling: forward slashes only, and no `./` in front. -/

namespace LiveEdit

/-- Writes every backslash as a slash. -/
def slashed (cs : List Char) : List Char := cs.map fun c => if c = '\\' then '/' else c

/-- Takes every `./` off the front. -/
def undotted : List Char → List Char
  | '.' :: '/' :: rest => undotted rest
  | cs => cs

/-- The one spelling that stands for all spellings of a path. -/
def normalizePath (spelling : String) : String :=
  String.ofList (undotted (slashed spelling.toList))

/-- No backslash occurs, and the text does not start with `./`. -/
def IsNormalPath (text : String) : Prop :=
  '\\' ∉ text.toList ∧ ¬ ['.', '/'] <+: text.toList

theorem slashed_of_notMem {cs : List Char} (h : '\\' ∉ cs) : slashed cs = cs := by
  induction cs with
  | nil => rfl
  | cons c cs ih =>
    simp only [List.mem_cons, not_or] at h
    simp [slashed, Ne.symm h.1] at *
    exact ih h.2

theorem notMem_slashed (cs : List Char) : '\\' ∉ slashed cs := by
  simp only [slashed, List.mem_map, not_exists, not_and]
  intro c _
  split <;> simp_all

theorem mem_of_mem_undotted {c : Char} {cs : List Char} (h : c ∈ undotted cs) : c ∈ cs := by
  fun_induction undotted cs with
  | case1 rest ih => simp [ih h]
  | case2 => exact h

theorem not_prefix_undotted (cs : List Char) : ¬ ['.', '/'] <+: undotted cs := by
  fun_induction undotted cs with
  | case1 rest ih => exact ih
  | case2 cs h =>
    rintro ⟨rest, rfl⟩
    exact h rest rfl

theorem undotted_of_not_prefix {cs : List Char} (h : ¬ ['.', '/'] <+: cs) : undotted cs = cs := by
  fun_induction undotted cs with
  | case1 rest ih => exact absurd ⟨rest, rfl⟩ h
  | case2 => rfl

theorem isNormalPath_normalizePath (spelling : String) : IsNormalPath (normalizePath spelling) := by
  simp only [IsNormalPath, normalizePath, String.toList_ofList]
  exact ⟨fun h => notMem_slashed _ (mem_of_mem_undotted h), not_prefix_undotted _⟩

theorem normalizePath_of_isNormalPath {text : String} (h : IsNormalPath text) :
    normalizePath text = text := by
  rw [normalizePath, slashed_of_notMem h.1, undotted_of_not_prefix h.2, String.ofList_toList]

/-- A path in its normal spelling. -/
structure SourcePath where
  text : String
  isNormal : IsNormalPath text

namespace SourcePath

def ofText (spelling : String) : SourcePath :=
  ⟨normalizePath spelling, isNormalPath_normalizePath spelling⟩

@[ext] theorem ext {p q : SourcePath} (h : p.text = q.text) : p = q := by
  cases p
  cases q
  cases h
  rfl

instance : DecidableEq SourcePath := fun p q =>
  if h : p.text = q.text then isTrue (ext h) else isFalse fun e => h (congrArg text e)

/-- Paths are ordered by the code points of their text. -/
instance : LT SourcePath := ⟨fun p q => p.text < q.text⟩

instance (p q : SourcePath) : Decidable (p < q) := inferInstanceAs (Decidable (p.text < q.text))

theorem lt_irrefl (p : SourcePath) : ¬ p < p := String.lt_irrefl _

theorem lt_trans {p q r : SourcePath} (h : p < q) (h' : q < r) : p < r := String.lt_trans h h'

theorem ne_of_lt {p q : SourcePath} (h : p < q) : p ≠ q := by
  rintro rfl
  exact lt_irrefl p h

theorem lt_of_not_lt_of_ne {p q : SourcePath} (h : ¬ p < q) (hne : p ≠ q) : q < p := by
  refine Decidable.byContradiction fun h' => hne (ext ?_)
  exact String.le_antisymm (String.not_lt.1 h') (String.not_lt.1 h)

theorem not_lt_trans {p q r : SourcePath} (h : ¬ q < p) (h' : ¬ r < q) : ¬ r < p :=
  String.not_lt.mpr (String.le_trans (String.not_lt.mp h) (String.not_lt.mp h'))

@[simp] theorem ofText_text (p : SourcePath) : ofText p.text = p :=
  ext (normalizePath_of_isNormalPath p.isNormal)

end SourcePath

end LiveEdit
