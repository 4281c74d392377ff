import LiveEdit.Proofs.Engine.Sessions
import LiveEdit.Proofs.Source.Changes
import LiveEdit.Proofs.Text.Utf8

/-!
What an engine makes of a pair of snapshots: which status it gives, and what comes with the status.
-/
namespace LiveEdit

/-- The marker occurs somewhere in the document. -/
def Document.Contains (d : Document) (marker : String) : Prop :=
  marker.toList <:+: d.content.toList

instance (d : Document) (marker : String) : Decidable (d.Contains marker) :=
  inferInstanceAs (Decidable (_ <:+: _))

namespace Snapshot

/-- The document is in the target, and the baseline does not have the same source at its path. -/
def Writes (baseline target : Snapshot) (d : Document) : Prop :=
  d ∈ target.documents.toList ∧ ∀ e ∈ baseline.documents.find? d.path, ¬ e.SameSource d

/-- The document is in the baseline, and the target has nothing at its path. -/
def Loses (baseline target : Snapshot) (d : Document) : Prop :=
  d ∈ baseline.documents.toList ∧ target.documents.find? d.path = none

instance (baseline target : Snapshot) (d : Document) : Decidable (baseline.Writes target d) :=
  inferInstanceAs (Decidable (_ ∧ _))

instance (baseline target : Snapshot) (d : Document) : Decidable (baseline.Loses target d) :=
  inferInstanceAs (Decidable (_ ∧ _))

/-- The documents that are new in the target, or have another source there. -/
def written (baseline target : Snapshot) : List Document :=
  target.documents.toList.filter (baseline.Writes target)

/-- The marker is in a document that is new, or that has another source than before. -/
def Blocks (marker : String) (baseline target : Snapshot) : Prop :=
  marker ≠ "" ∧ ∃ d, baseline.Writes target d ∧ d.Contains marker

end Snapshot

def Document.deletion (d : Document) : RudeEdit :=
  { kind := .deleteUnit, location := ⟨d.path.text, .point 1 1⟩ }

/-- An update that has the right status for a pair of snapshots, and what belongs to the status. -/
structure Update.Classifies (u : Update) (marker : String) (baseline target : Snapshot) : Prop where
  blocked : u.status = .blocked ↔ Snapshot.Blocks marker baseline target
  restart : u.status = .restartRequired ↔
    ¬ Snapshot.Blocks marker baseline target ∧ ∃ d, baseline.Loses target d
  ready : u.status = .ready ↔
    ¬ Snapshot.Blocks marker baseline target ∧ ¬ ∃ d, baseline.Loses target d
  /-- One delta at most for each path. -/
  ordered : u.deltas.Pairwise (·.path < ·.path)
  delta (h : u.status = .ready) {δ : Delta} : δ ∈ u.deltas ↔
    ∃ d, baseline.Writes target d ∧ δ = ⟨d.path.text, d.project, d.content.toUTF8.data.toList⟩
  noDelta (h : u.status ≠ .ready) : u.deltas = []
  /-- One rude edit at most for each path. -/
  rudeOrdered : u.rudeEdits.Pairwise (·.location.path < ·.location.path)
  rudeEdit (h : u.status = .restartRequired) {edit : RudeEdit} : edit ∈ u.rudeEdits ↔
    ∃ d, baseline.Loses target d ∧ edit = d.deletion
  noRudeEdit (h : u.status ≠ .restartRequired) : u.rudeEdits = []
  syntaxError : u.syntaxError.isSome ↔ u.status = .blocked
  diagnostics : u.diagnostics = []

variable {d : Document} {changes : List Change} {marker : Option String} {reports : Bool}
  {error : Diagnostic}

theorem textBefore?_isSome {pattern text : List Char} :
    (textBefore? pattern text).isSome ↔ pattern <:+: text := by
  induction text with
  | nil => cases pattern <;> simp [textBefore?]
  | cons c cs ih =>
    rw [textBefore?, List.infix_cons_iff, ← List.isPrefixOf_iff_prefix]
    split
    next h => simp [h]
    next h => simp [h, ih]

theorem Document.markerError?_isSome {marker : String} :
    (d.markerError? marker).isSome ↔ d.Contains marker := by
  rw [markerError?, Option.isSome_map, textBefore?_isSome, Contains]

/-- A change has an error if it writes a document with the marker. -/
theorem firstMarkerError?_isSome {marker : String} :
    (firstMarkerError? (some marker) changes).isSome ↔
      ∃ d, (∃ change ∈ changes, change.written? = some d) ∧ d.Contains marker := by
  simp only [firstMarkerError?, Option.bind_some, List.findSome?_isSome_iff, Option.isSome_bind,
    Option.any_eq_true, Document.markerError?_isSome]
  constructor
  · rintro ⟨change, hc, d, hw, hm⟩
    exact ⟨d, ⟨change, hc, hw⟩, hm⟩
  · rintro ⟨d, ⟨change, hc, hw⟩, hm⟩
    exact ⟨change, hc, d, hw, hm⟩

theorem updateOf_of_error (h : firstMarkerError? marker changes = some error) :
    updateOf marker reports changes =
      { status := .blocked, syntaxError := if reports then some error else none } := by
  rw [updateOf, h]

theorem updateOf_of_removed (h : firstMarkerError? marker changes = none)
    (hr : changes.filterMap Change.removed? ≠ []) : updateOf marker reports changes =
      { status := .restartRequired
        rudeEdits := (changes.filterMap Change.removed?).map Document.deletion } := by
  rw [updateOf, h]
  cases hremoved : changes.filterMap Change.removed? with
  | nil => exact absurd hremoved hr
  | cons d removed => rfl

theorem updateOf_of_written (h : firstMarkerError? marker changes = none)
    (hr : changes.filterMap Change.removed? = []) :
    updateOf marker reports changes = { status := .ready, deltas := deltasOf changes } := by
  rw [updateOf, h]
  simp only [hr]
  rfl

/-- A session that wants no diagnostics is told the same without the syntax error. -/
theorem updateOf_eq (marker : Option String) (reports : Bool) (changes : List Change) :
    updateOf marker reports changes =
      if reports then updateOf marker true changes
      else { updateOf marker true changes with syntaxError := none } := by
  cases reports with
  | true => rfl
  | false =>
    cases h : firstMarkerError? marker changes with
    | some error => simp [updateOf_of_error h]
    | none =>
      by_cases hr : changes.filterMap Change.removed? = []
      · simp [updateOf_of_written h hr]
      · simp [updateOf_of_removed h hr]

namespace DocumentSet

theorem document_of_written {change : Change} (h : change.written? = some d) :
    change.document = d := by
  cases change with
  | added | modified => exact Option.some.inj h
  | deleted => cases h

theorem document_of_removed {change : Change} (h : change.removed? = some d) :
    change.document = d := by
  cases change with
  | added | modified => cases h
  | deleted => exact Option.some.inj h

theorem deltas_ordered (older newer : DocumentSet) :
    (deltasOf (older.changesTo newer)).Pairwise (·.path < ·.path) := by
  refine (changesTo_ordered older newer).filterMap _ ?_
  intro a b hlt δ hδ δ' hδ'
  obtain ⟨d, hd, rfl⟩ := Option.map_eq_some_iff.mp hδ
  obtain ⟨d', hd', rfl⟩ := Option.map_eq_some_iff.mp hδ'
  rw [document_of_written hd, document_of_written hd'] at hlt
  exact hlt

theorem deletions_ordered (older newer : DocumentSet) :
    (((older.changesTo newer).filterMap Change.removed?).map Document.deletion).Pairwise
      (·.location.path < ·.location.path) := by
  rw [List.pairwise_map]
  refine (changesTo_ordered older newer).filterMap _ ?_
  intro a b hlt d hd d' hd'
  rw [document_of_removed hd, document_of_removed hd'] at hlt
  exact hlt

end DocumentSet

namespace Snapshot

variable {baseline target : Snapshot}

theorem writes_iff : baseline.Writes target d ↔
    ∃ change ∈ baseline.documents.changesTo target.documents, change.written? = some d :=
  DocumentSet.written_changesTo.symm

theorem loses_iff : baseline.Loses target d ↔
    ∃ change ∈ baseline.documents.changesTo target.documents, change.removed? = some d :=
  DocumentSet.removed_changesTo.symm

/-- There is a delta for each document that is written. -/
theorem length_deltasOf :
    (deltasOf (baseline.documents.changesTo target.documents)).length =
      (baseline.written target).length := by
  have hdeltas : deltasOf (baseline.documents.changesTo target.documents) =
      ((baseline.documents.changesTo target.documents).filterMap Change.written?).map
        Document.delta := by
    rw [deltasOf, List.map_filterMap]
  have hnodup : ((baseline.documents.changesTo target.documents).filterMap
      Change.written?).Nodup := by
    refine (DocumentSet.changesTo_ordered _ _).filterMap _ ?_
    intro a b hlt d hd e he
    rw [DocumentSet.document_of_written hd, DocumentSet.document_of_written he] at hlt
    rintro rfl
    exact SourcePath.lt_irrefl _ hlt
  have hnodup' : (baseline.written target).Nodup := by
    refine (target.documents.ordered.imp ?_).filter _
    rintro d e hlt rfl
    exact SourcePath.lt_irrefl _ hlt
  rw [hdeltas, List.length_map]
  refine ((List.perm_ext_iff_of_nodup hnodup hnodup').mpr ?_).length_eq
  intro d
  rw [List.mem_filterMap, ← writes_iff, written, List.mem_filter]
  simp only [decide_eq_true_eq]
  exact ⟨fun h => ⟨h.1, h⟩, And.right⟩

theorem exists_loses_iff : (∃ d, baseline.Loses target d) ↔
    (baseline.documents.changesTo target.documents).filterMap Change.removed? ≠ [] := by
  rw [ne_eq, List.eq_nil_iff_forall_not_mem]
  simp only [loses_iff, List.mem_filterMap, not_forall, not_not]

end Snapshot

namespace ChecksumEngine

variable {engine next : ChecksumEngine} {r : EngineRequest} {reply : EngineReply}
  {baseline target : Snapshot}

theorem Serves.marker_eq (h : engine.Serves r reply next) : next.marker = engine.marker := by
  cases h <;> rfl

/-- An engine never changes its marker. -/
theorem marker_serveAll (marker : String) (rs : List EngineRequest) :
    ((new marker).serveAll rs).2.marker = (new marker).marker := by
  induction rs using List.reverseRecOn with
  | nil => rfl
  | append_singleton rs r ih =>
    rw [serveAll, List.foldl_concat]
    exact (serve_serves _ r).marker_eq.trans ih

theorem blocks_iff {marker : String} : Snapshot.Blocks marker baseline target ↔
    (firstMarkerError? (new marker).marker
      (baseline.documents.changesTo target.documents)).isSome := by
  by_cases h : marker = ""
  · simp [Snapshot.Blocks, new, h, firstMarkerError?]
  · have hmarker : (new marker).marker = some marker := by simp [new, h]
    rw [hmarker, firstMarkerError?_isSome]
    simp only [← Snapshot.writes_iff]
    exact and_iff_right h

theorem updateOf_classifies (marker : String) (baseline target : Snapshot) :
    (updateOf (new marker).marker true
      (baseline.documents.changesTo target.documents)).Classifies marker baseline target := by
  have hblocks := @blocks_iff baseline target marker
  have hloses := @Snapshot.exists_loses_iff baseline target
  cases hm : firstMarkerError? (new marker).marker
      (baseline.documents.changesTo target.documents) with
  | some error =>
    rw [updateOf_of_error hm]
    rw [hm] at hblocks
    constructor <;> simp [hblocks]
  | none =>
    rw [hm] at hblocks
    by_cases hr : (baseline.documents.changesTo target.documents).filterMap Change.removed? = []
    · rw [updateOf_of_written hm hr]
      constructor
      case ordered => exact DocumentSet.deltas_ordered _ _
      case delta =>
        intro _ δ
        simp only [mem_deltasOf, Snapshot.writes_iff, Document.delta, encodeUtf8_eq]
      all_goals simp [hblocks, hloses, hr]
    · rw [updateOf_of_removed hm hr]
      constructor
      case rudeOrdered => exact DocumentSet.deletions_ordered _ _
      case rudeEdit =>
        intro _ edit
        simp only [List.mem_map, List.mem_filterMap, Snapshot.loses_iff]
        constructor
        · rintro ⟨d, hd, rfl⟩
          exact ⟨d, hd, rfl⟩
        · rintro ⟨d, hd, rfl⟩
          exact ⟨d, hd, rfl⟩
      all_goals simp [hblocks, hloses, hr]

/--
All open sessions are told the same about a pair of snapshots, but for the syntax error, which only
those with diagnostics are told.
-/
theorem compute_classifies (marker : String) (baseline target : Snapshot) :
    ∃ full : Update, full.Classifies marker baseline target ∧
      ∀ (rs : List EngineRequest) (s : EngineSession),
        ((new marker).serveAll rs).2.session? s.id = some s →
        ((new marker).serveAll rs).2.compute s.id baseline target =
          (.ok (if s.reportDiagnostics then full else { full with syntaxError := none }),
            if full.status = .ready then
              ((new marker).serveAll rs).2.put { s with tentative := some target.version }
            else ((new marker).serveAll rs).2) := by
  refine ⟨_, updateOf_classifies marker baseline target, ?_⟩
  intro rs s hs
  have hmarker := marker_serveAll marker rs
  have hquiet := updateOf_eq (new marker).marker s.reportDiagnostics
    (baseline.documents.changesTo target.documents)
  have hstatus : (updateOf (new marker).marker s.reportDiagnostics
      (baseline.documents.changesTo target.documents)).status =
        (updateOf (new marker).marker true
          (baseline.documents.changesTo target.documents)).status := by
    rw [hquiet]
    split <;> rfl
  rw [compute, withSession, hs]
  simp only [hmarker, hstatus]
  rw [hquiet]

/-- The error in a new document comes before a deletion. One session of two is told of it. -/
theorem error_comes_before_deletion :
    let lost : Document := ⟨.ofText "a.src", "app", "one !", false⟩
    let added : Document := ⟨.ofText "b.src", "app", "two !", false⟩
    let baseline : Snapshot := ⟨⟨0, 0⟩, 0, .ofList [lost]⟩
    let target : Snapshot := ⟨⟨0, 1⟩, 1, .ofList [added]⟩
    let engine := ((new "!").serveAll [.start baseline true, .start baseline false]).2
    baseline.Loses target lost ∧ ∃ u, u.status = .blocked ∧ u.syntaxError.isSome ∧
      engine.compute ⟨1⟩ baseline target = (.ok u, engine) ∧
      engine.compute ⟨2⟩ baseline target = (.ok { u with syntaxError := none }, engine) := by
  intro lost added baseline target engine
  obtain ⟨full, hfull, htold⟩ := compute_classifies "!" baseline target
  have hblocked : full.status = .blocked :=
    hfull.blocked.mpr ⟨by decide, added, by decide, by decide⟩
  have hunready : full.status ≠ .ready := by simp [hblocked]
  have hfirst := htold [.start baseline true, .start baseline false]
    { id := ⟨1⟩, baseline := 0, reportDiagnostics := true } rfl
  have hsecond := htold [.start baseline true, .start baseline false]
    { id := ⟨2⟩, baseline := 0, reportDiagnostics := false } rfl
  refine ⟨by decide, full, hblocked, hfull.syntaxError.mpr hblocked, ?_, ?_⟩
  · exact hfirst.trans (congrArg (Prod.mk _) (if_neg hunready))
  · exact hsecond.trans (congrArg (Prod.mk _) (if_neg hunready))

end ChecksumEngine

end LiveEdit
