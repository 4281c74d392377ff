import LiveEdit.Source.Document

/-! Finite sets of documents, at most one for a path, kept in path order. -/

namespace LiveEdit

/-- Puts a document in its place, over one at the same path. -/
def insertByPath (d : Document) : List Document → List Document
  | [] => [d]
  | e :: rest =>
    if d.path < e.path then d :: e :: rest
    else if d.path = e.path then d :: rest
    else e :: insertByPath d rest

theorem mem_insertByPath {d e : Document} {ds : List Document} (h : e ∈ insertByPath d ds) :
    e = d ∨ e ∈ ds := by
  induction ds with
  | nil => simpa [insertByPath] using h
  | cons f rest ih =>
    rw [insertByPath] at h
    split at h
    · simpa using h
    · split at h
      · rcases List.mem_cons.1 h with rfl | h
        · exact .inl rfl
        · exact .inr (List.mem_cons_of_mem _ h)
      · rcases List.mem_cons.1 h with rfl | h
        · exact .inr List.mem_cons_self
        · exact (ih h).imp id (List.mem_cons_of_mem _)

theorem insertByPath_ordered {d : Document} {ds : List Document}
    (h : ds.Pairwise (·.path < ·.path)) : (insertByPath d ds).Pairwise (·.path < ·.path) := by
  induction ds with
  | nil => simp [insertByPath]
  | cons e rest ih =>
    obtain ⟨he, hr⟩ := List.pairwise_cons.1 h
    rw [insertByPath]
    split
    next hd =>
      exact List.pairwise_cons.2 ⟨fun f hf => (List.mem_cons.1 hf).elim (· ▸ hd)
        fun hf => SourcePath.lt_trans hd (he f hf), h⟩
    next hd =>
      split
      next heq => exact List.pairwise_cons.2 ⟨fun f hf => heq ▸ he f hf, hr⟩
      next hne =>
        refine List.pairwise_cons.2 ⟨fun f hf => ?_, ih hr⟩
        rcases mem_insertByPath hf with rfl | hf
        · exact SourcePath.lt_of_not_lt_of_ne hd hne
        · exact he f hf

/-- Documents in strictly ascending path order. -/
structure DocumentSet where
  toList : List Document
  ordered : toList.Pairwise (·.path < ·.path)

namespace DocumentSet

@[ext] theorem ext {s t : DocumentSet} (h : s.toList = t.toList) : s = t := by
  cases s
  cases t
  cases h
  rfl

instance : DecidableEq DocumentSet := fun s t =>
  if h : s.toList = t.toList then isTrue (ext h) else isFalse fun e => h (congrArg toList e)

def empty : DocumentSet := ⟨[], List.Pairwise.nil⟩

instance : Inhabited DocumentSet := ⟨empty⟩

def insert (s : DocumentSet) (d : Document) : DocumentSet :=
  ⟨insertByPath d s.toList, insertByPath_ordered s.ordered⟩

def erase (s : DocumentSet) (p : SourcePath) : DocumentSet :=
  ⟨s.toList.filter (·.path ≠ p), s.ordered.filter _⟩

/-- Of several documents with one path the last is kept. -/
def ofList (ds : List Document) : DocumentSet := ds.foldl insert empty

def find? (s : DocumentSet) (p : SourcePath) : Option Document := s.toList.find? (·.path = p)

def size (s : DocumentSet) : Nat := s.toList.length

/-- The same paths on both sides, with the same source at each. -/
def SameSources (s t : DocumentSet) : Prop :=
  s.size = t.size ∧ ∀ d ∈ s.toList, ∃ e ∈ t.find? d.path, e.SameSource d

instance (s t : DocumentSet) : Decidable (s.SameSources t) :=
  inferInstanceAs (Decidable (_ ∧ _))

end DocumentSet

end LiveEdit
