import LiveEdit.Proofs.Source.Contents
import Mathlib.Data.List.Sort

/-! The list of changes says of every path what became of it, and it says nothing else. -/
namespace LiveEdit

inductive ChangeKind where
  | addition
  | modification
  | deletion
  deriving DecidableEq

/-- The kind of the change that takes it back. -/
def ChangeKind.reversed : ChangeKind → ChangeKind
  | addition => deletion
  | modification => modification
  | deletion => addition

namespace Change

def kind : Change → ChangeKind
  | added _ => .addition
  | modified _ => .modification
  | deleted _ => .deletion

/-- Where a change is, and of what kind. -/
def outline (c : Change) : SourcePath × ChangeKind := (c.document.path, c.kind)

def reversedOutline (c : Change) : SourcePath × ChangeKind := (c.document.path, c.kind.reversed)

end Change

variable {older newer : DocumentSet} {d e : Document} {c c' : Change}

theorem ChangeKind.reversed_reversed (k : ChangeKind) : k.reversed.reversed = k := by
  cases k <;> rfl

theorem Change.outline_eq_of_reversed (h : c'.outline = c.reversedOutline) :
    c.outline = c'.reversedOutline := by
  obtain ⟨hpath, hkind⟩ := Prod.mk.inj h
  rw [outline, reversedOutline, hpath, hkind, ChangeKind.reversed_reversed]

theorem Document.not_sameSource_iff : ¬ e.SameSource d ↔
    e.checksum ≠ d.checksum ∨ e.project ≠ d.project ∨ e.generated ≠ d.generated := by
  rw [SameSource]
  by_cases hsum : e.checksum = d.checksum <;> by_cases hproject : e.project = d.project <;>
    simp [hsum, hproject]

namespace DocumentSet

/-- What changed one way changed the other way, in the other direction. -/
theorem exists_reversed (h : c ∈ older.changesTo newer) :
    ∃ c' ∈ newer.changesTo older, c'.outline = c.reversedOutline := by
  cases c with
  | added d =>
    have hfind := added_mem_changesTo.mp h
    exact ⟨.deleted d, deleted_mem_changesTo.mpr hfind.symm, rfl⟩
  | deleted d =>
    have hfind := deleted_mem_changesTo.mp h
    exact ⟨.added d, added_mem_changesTo.mpr hfind.symm, rfl⟩
  | modified d =>
    obtain ⟨e, hold, hnew, hn⟩ := modified_mem_changesTo.mp h
    obtain ⟨-, hpath⟩ := mem_of_find? hold
    have hback : .modified e ∈ newer.changesTo older := by
      apply modified_mem_changesTo.mpr
      rw [hpath]
      refine ⟨d, hnew, hold, ?_⟩
      intro hsame
      exact hn (Document.sameSource_iff.mpr (Document.sameSource_iff.mp hsame).symm)
    exact ⟨.modified e, hback, congrArg (·, _) hpath⟩

theorem outlines_reversed (older newer : DocumentSet) :
    (newer.changesTo older).map Change.outline =
      (older.changesTo newer).map Change.reversedOutline := by
  let before (x y : SourcePath × ChangeKind) : Prop := x.1 < y.1
  have : Std.Irrefl before := ⟨fun x => SourcePath.lt_irrefl x.1⟩
  have : Std.Antisymm before :=
    ⟨fun x y h h' => absurd (SourcePath.lt_trans h h') (SourcePath.lt_irrefl x.1)⟩
  have hnewer : ((newer.changesTo older).map Change.outline).Pairwise before :=
    List.pairwise_map.mpr (changesTo_ordered newer older)
  have holder : ((older.changesTo newer).map Change.reversedOutline).Pairwise before :=
    List.pairwise_map.mpr (changesTo_ordered older newer)
  apply hnewer.eq_of_mem_iff holder
  intro x
  rw [List.mem_map, List.mem_map]
  constructor
  · rintro ⟨c, hc, rfl⟩
    obtain ⟨c', hc', heq⟩ := exists_reversed hc
    exact ⟨c', hc', (Change.outline_eq_of_reversed heq).symm⟩
  · rintro ⟨c, hc, rfl⟩
    exact exists_reversed hc

end DocumentSet

namespace Snapshot

/-- Changes that say of every path what became of it from one snapshot to another. -/
structure ChangesExactly (older newer : Snapshot) (changes : List Change) : Prop where
  ordered : changes.Pairwise (·.document.path < ·.document.path)
  added {d : Document} {spelling : String} :
    .added d ∈ changes ∧ d.path = .ofText spelling ↔
      older.document? spelling = none ∧ newer.document? spelling = some d
  deleted {d : Document} {spelling : String} :
    .deleted d ∈ changes ∧ d.path = .ofText spelling ↔
      older.document? spelling = some d ∧ newer.document? spelling = none
  modified {d : Document} {spelling : String} :
    .modified d ∈ changes ∧ d.path = .ofText spelling ↔
      ∃ e, older.document? spelling = some e ∧ newer.document? spelling = some d ∧
        (e.checksum ≠ d.checksum ∨ e.project ≠ d.project ∨ e.generated ≠ d.generated)
  /-- Nothing is listed only if there is the same source, or none, at each path. -/
  empty : changes = [] ↔ older.documents.contents = newer.documents.contents
  /-- The other way round, additions are deletions at the same paths, and so on. -/
  reversed : (newer.documents.changesTo older.documents).map Change.outline =
    changes.map Change.reversedOutline

theorem changes_are_exact (older newer : Snapshot) :
    older.ChangesExactly newer (older.documents.changesTo newer.documents) := by
  constructor
  case ordered => exact DocumentSet.changesTo_ordered _ _
  case added =>
    intro d spelling
    constructor
    · rintro ⟨hc, hp⟩
      rw [document?, document?, ← hp]
      exact DocumentSet.added_mem_changesTo.mp hc
    · rintro ⟨hold, hnew⟩
      have hp := (DocumentSet.mem_of_find? hnew).2
      exact ⟨DocumentSet.added_mem_changesTo.mpr (hp ▸ ⟨hold, hnew⟩), hp⟩
  case deleted =>
    intro d spelling
    constructor
    · rintro ⟨hc, hp⟩
      rw [document?, document?, ← hp]
      exact DocumentSet.deleted_mem_changesTo.mp hc
    · rintro ⟨hold, hnew⟩
      have hp := (DocumentSet.mem_of_find? hold).2
      exact ⟨DocumentSet.deleted_mem_changesTo.mpr (hp ▸ ⟨hold, hnew⟩), hp⟩
  case modified =>
    intro d spelling
    simp only [← Document.not_sameSource_iff]
    constructor
    · rintro ⟨hc, hp⟩
      rw [document?, document?, ← hp]
      exact DocumentSet.modified_mem_changesTo.mp hc
    · rintro ⟨e, hold, hnew, hn⟩
      have hp := (DocumentSet.mem_of_find? hnew).2
      exact ⟨DocumentSet.modified_mem_changesTo.mpr ⟨e, hp ▸ hold, hp ▸ hnew, hn⟩, hp⟩
  case empty => exact DocumentSet.changesTo_eq_nil_iff
  case reversed => exact DocumentSet.outlines_reversed _ _

end Snapshot

end LiveEdit
