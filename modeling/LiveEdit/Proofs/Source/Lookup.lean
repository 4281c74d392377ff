import LiveEdit.Proofs.Source.Contents
import LiveEdit.Proofs.Text.ByteOrder

/-! Every spelling of a path finds the document that was last given for its normal form. -/
namespace LiveEdit

variable {ds : List Document} {d : Document} {p : SourcePath} {spelling : String}

theorem normalizePath_idem (spelling : String) :
    normalizePath (normalizePath spelling) = normalizePath spelling :=
  normalizePath_of_isNormalPath (isNormalPath_normalizePath spelling)

theorem SourcePath.eq_ofText_iff : p = .ofText spelling ↔ p.text = normalizePath spelling := by
  constructor
  · rintro rfl
    rfl
  · intro h
    exact SourcePath.ext h

/-- The document is in the list, and none that comes after it has its path. -/
def Document.LastIn (d : Document) (ds : List Document) : Prop :=
  ∃ earlier later, ds = earlier ++ d :: later ∧ ∀ e ∈ later, e.path ≠ d.path

theorem Document.findRev?_eq_some_iff :
    ds.findRev? (·.path = p) = some d ↔ d.path = p ∧ d.LastIn ds := by
  rw [List.findRev?_eq_find?_reverse, List.find?_eq_some_iff_append]
  simp only [decide_eq_true_eq, Bool.not_eq_eq_eq_not, Bool.not_true, decide_eq_false_iff_not]
  constructor
  · rintro ⟨rfl, later, earlier, hds, hlater⟩
    refine ⟨rfl, earlier.reverse, later.reverse, ?_, ?_⟩
    · rw [← ds.reverse_reverse, hds]
      simp
    · simpa using hlater
  · rintro ⟨rfl, earlier, later, rfl, hlater⟩
    refine ⟨rfl, later.reverse, earlier.reverse, by simp, ?_⟩
    simpa using hlater

namespace Snapshot

/-- Look-ups in a snapshot agree with a list of documents and with its own documents. -/
structure FindsLastOf (s : Snapshot) (ds : List Document) : Prop where
  found {spelling : String} {d : Document} : s.document? spelling = some d ↔
    d.path.text = normalizePath spelling ∧ d.LastIn ds
  missing {spelling : String} : s.document? spelling = none ↔
    ∀ d ∈ ds, d.path.text ≠ normalizePath spelling
  listed {d : Document} : d ∈ s.documents.toList ↔ ∃ spelling, s.document? spelling = some d
  once : s.documents.toList.Nodup
  /-- Paths ascend by their bytes. -/
  ascending : (s.documents.toList.map fun d => byteValues d.path.text).Pairwise (· < ·)
  /-- A listed document is found under all spellings of its path, this one included. -/
  respelled {d : Document} (hd : d ∈ s.documents.toList) {spelling : String}
    (h : normalizePath spelling = normalizePath d.path.text) : s.document? spelling = some d

theorem findsLastOf_ofList (id : SnapshotId) (version : Nat) (ds : List Document) :
    FindsLastOf ⟨id, version, .ofList ds⟩ ds := by
  have hfind (p : SourcePath) : (DocumentSet.ofList ds).find? p = ds.findRev? (·.path = p) :=
    DocumentSet.find?_ofList ds
  constructor
  case found =>
    intro spelling d
    rw [document?, hfind, Document.findRev?_eq_some_iff, SourcePath.eq_ofText_iff]
  case missing =>
    intro spelling
    rw [document?, hfind, List.findRev?_eq_find?_reverse, List.find?_eq_none]
    simp [SourcePath.eq_ofText_iff]
  case listed =>
    intro d
    constructor
    · intro hd
      refine ⟨d.path.text, ?_⟩
      rw [document?, SourcePath.ofText_text]
      exact DocumentSet.find?_self hd
    · rintro ⟨spelling, hd⟩
      exact (DocumentSet.mem_of_find? hd).1
  case once => exact (DocumentSet.ofList ds).ordered.imp fun hlt heq =>
    SourcePath.ne_of_lt hlt (congrArg Document.path heq)
  case ascending =>
    exact List.pairwise_map.mpr
      ((DocumentSet.ofList ds).ordered.imp fun hlt => byteValues_strictMono hlt)
  case respelled =>
    intro d hd spelling h
    have hp : SourcePath.ofText spelling = d.path := by
      rw [← SourcePath.ofText_text d.path]
      exact SourcePath.ext h
    rw [document?, hp]
    exact DocumentSet.find?_self hd

/-- Normal forms are fixed, and a snapshot finds by them what it was last given. -/
theorem lookup_goes_by_normal_form (spelling : String) (id : SnapshotId) (version : Nat)
    (ds : List Document) :
    normalizePath (normalizePath spelling) = normalizePath spelling ∧
      '\\' ∉ (normalizePath spelling).toList ∧
      ¬ ['.', '/'] <+: (normalizePath spelling).toList ∧
      FindsLastOf ⟨id, version, .ofList ds⟩ ds := by
  obtain ⟨hslashed, hundotted⟩ := isNormalPath_normalizePath spelling
  exact ⟨normalizePath_idem spelling, hslashed, hundotted, findsLastOf_ofList id version ds⟩

end Snapshot

end LiveEdit
