import LiveEdit.Proofs.Source.Changes
import LiveEdit.Session.Plan

/-! The check for changes and the list of changes look at the same differences. -/
namespace LiveEdit

namespace DocumentSet

variable {s older newer : DocumentSet} {d : Document} {change : Change}

/-- A check of everything asks for arrivals and departures. -/
theorem differsAnywhere_eq_any (includeGenerated : Bool) :
    older.differsAnywhere newer includeGenerated =
      ((newer.toList.any fun d => (includeGenerated || !d.generated) &&
          (older.arrival? d).isSome) ||
        older.toList.any fun d => (includeGenerated || !d.generated) &&
          (newer.departure? d).isSome) := by
  rw [differsAnywhere]
  congr 1
  · congr 1
    funext d
    rw [arrival?]
    cases older.find? d.path with
    | none => rfl
    | some e => by_cases hs : e.SameSource d <;> simp [hs]
  · congr 1
    funext d
    rw [departure?]
    cases newer.find? d.path <;> rfl

/-- It finds a difference if there is a change that it looks at. -/
theorem differsAnywhere_eq (includeGenerated : Bool) :
    older.differsAnywhere newer includeGenerated =
      (older.changesTo newer).any fun change => includeGenerated || !change.document.generated := by
  rw [differsAnywhere_eq_any, Bool.eq_iff_iff]
  simp only [Bool.or_eq_true (List.any _ _), List.any_eq_true, Bool.and_eq_true,
    Option.isSome_iff_exists, mem_changesTo]
  constructor
  · rintro (⟨d, hd, hrelevant, change, ha⟩ | ⟨d, hd, hrelevant, change, hdep⟩)
    · exact ⟨change, .inl ⟨d, hd, ha⟩, document_of_arrival ha ▸ hrelevant⟩
    · exact ⟨change, .inr ⟨d, hd, hdep⟩, document_of_departure hdep ▸ hrelevant⟩
  · rintro ⟨change, ⟨d, hd, ha⟩ | ⟨d, hd, hdep⟩, hrelevant⟩
    · exact .inl ⟨d, hd, document_of_arrival ha ▸ hrelevant, change, ha⟩
    · exact .inr ⟨d, hd, document_of_departure hdep ▸ hrelevant, change, hdep⟩

/-- Nothing differs from itself. -/
theorem changesTo_self (s : DocumentSet) : s.changesTo s = [] := by
  refine List.eq_nil_iff_forall_not_mem.mpr fun change hc => ?_
  rcases mem_changesTo.mp hc with ⟨d, hd, ha⟩ | ⟨d, hd, hdep⟩
  · simp [arrival?, find?_self hd, Document.SameSource] at ha
  · simp [departure?, find?_self hd] at hdep

end DocumentSet

variable {marker : Option String} {b : Bool} {changes : List Change}
  {committed latest : Snapshot}

/-- What the caller is told of the step from one snapshot to another. -/
def updatesBetween (marker : Option String) (b : Bool) (committed latest : Snapshot) : Updates :=
  let update := updateOf marker b (committed.documents.changesTo latest.documents)
  ⟨update.status, update.deltas, update.report latest⟩

theorem updateOf_nil : updateOf marker b [] = {} := by
  cases marker <;> rfl

/-- A ready update without deltas is one without changes: nothing is written, nothing removed. -/
theorem eq_nil_of_updateOf (hr : (updateOf marker b changes).status = .ready)
    (hd : (updateOf marker b changes).deltas = []) : changes = [] := by
  obtain ⟨hremoved, hdeltas⟩ := updateOf_ready hr
  rw [hdeltas, deltasOf, List.filterMap_eq_nil_iff] at hd
  rw [List.filterMap_eq_nil_iff] at hremoved
  refine List.eq_nil_iff_forall_not_mem.mpr fun change hc => ?_
  have hwritten := hd change hc
  have hgone := hremoved change hc
  cases change <;> simp [Change.written?, Change.removed?] at hwritten hgone

/-- The caller is told nothing only if there is no change. -/
theorem isEmpty_updatesBetween : (updatesBetween marker b committed latest).isEmpty = true ↔
    committed.documents.changesTo latest.documents = [] := by
  constructor
  · intro h
    simp only [Updates.isEmpty, updatesBetween, Bool.and_eq_true, beq_iff_eq,
      List.isEmpty_iff] at h
    exact eq_nil_of_updateOf h.1.1 h.1.2
  · intro h
    rw [updatesBetween, h, updateOf_nil]
    rfl

end LiveEdit
