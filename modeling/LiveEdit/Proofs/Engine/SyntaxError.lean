import LiveEdit.Proofs.Engine.Classification
import LiveEdit.Proofs.Text.ByteOrder
import LiveEdit.Proofs.Text.Place

/-! The syntax error of a blocked update points to the first place where the marker is. -/
namespace LiveEdit

/-- Of the documents that are written, this one has the smallest path of all with the marker. -/
structure Snapshot.FirstMarked (marker : String) (baseline target : Snapshot) (d : Document) :
    Prop where
  written : baseline.Writes target d
  contains : d.Contains marker
  smallest {e : Document} (he : baseline.Writes target e) (hm : e.Contains marker) :
    byteValues d.path.text ≤ byteValues e.path.text

/-- A 32-bit number is the same as another one, unless that one needs more bits. -/
def Shows (shown n : Nat) : Prop := shown < 0x100000000 ∧ (n < 0x100000000 → shown = n)

/-- The error is about the document, and about the place where the marker is first in it. -/
structure Diagnostic.PointsTo (error : Diagnostic) (marker : String) (d : Document) : Prop where
  id : error.id = Descriptor.invalidSource.id
  severity : error.severity = .error
  message : error.message = "Syntax error in '" ++ d.path.text ++ "' blocks applying changes"
  place : ∃ line column offset,
    FirstAt marker.toUTF8.data.toList d.content.toUTF8.data.toList offset ∧
      Locates line column d.content.toUTF8.data.toList offset ∧
        ∃ l c, error.location = some ⟨d.path.text, .point l c⟩ ∧ Shows l line ∧ Shows c column

variable {marker : String} {d : Document} {error : Diagnostic} {baseline target : Snapshot}

theorem shows_clampedCoordinate (n : Nat) : Shows (clampedCoordinate n) n := by
  rw [Shows, clampedCoordinate]
  omega

theorem message_invalidSource (path : String) : Descriptor.invalidSource.message [path] =
    "Syntax error in '" ++ path ++ "' blocks applying changes" := by
  have htemplate : Descriptor.invalidSource.template =
      "Syntax error in '" ++ "\x7b0\x7d" ++ "' blocks applying changes" := rfl
  rw [Descriptor.message, htemplate, fill_once (by decide +kernel) (by decide +kernel)]

/-- A document's error is about the first occurrence of the marker in it. -/
theorem Document.pointsTo_of_markerError? (hmarker : marker ≠ "")
    (h : d.markerError? marker = some error) : error.PointsTo marker d := by
  obtain ⟨before, hbefore, rfl⟩ := Option.map_eq_some_iff.mp h
  have hnonempty : marker.toList ≠ [] := mt String.toList_eq_nil_iff.mp hmarker
  have hfirst := firstAt_of_textBefore? hnonempty hbefore
  obtain ⟨after, hcontent, -, -⟩ := of_textBefore? hbefore
  have hlocates := locates (bytesOf before) (bytesOf after)
  rw [← bytesOf_append, ← hcontent, bytesOf_toList, count_lineBreak,
    columnAfter_bytesOf] at hlocates
  rw [bytesOf_toList, bytesOf_toList] at hfirst
  constructor
  case id | severity => rfl
  case message => exact message_invalidSource d.path.text
  case place =>
    exact ⟨_, _, _, hfirst, hlocates, _, _, rfl, shows_clampedCoordinate _,
      shows_clampedCoordinate _⟩

/-- Changes come in path order, so that the first error is that of the smallest path. -/
theorem firstMarked_of_firstMarkerError?
    (h : firstMarkerError? (some marker) (baseline.documents.changesTo target.documents) =
      some error) :
    ∃ d, Snapshot.FirstMarked marker baseline target d ∧ d.markerError? marker = some error := by
  obtain ⟨earlier, change, later, hchanges, herror, hnone⟩ := List.findSome?_eq_some_iff.mp h
  obtain ⟨d, hd, hmark⟩ := Option.bind_eq_some_iff.mp herror
  have hordered := DocumentSet.changesTo_ordered baseline.documents target.documents
  rw [hchanges, List.pairwise_append, List.pairwise_cons] at hordered
  refine ⟨d, ?_, hmark⟩
  constructor
  case written =>
    refine Snapshot.writes_iff.mpr ⟨change, ?_, hd⟩
    rw [hchanges]
    exact List.mem_append_right _ List.mem_cons_self
  case contains => exact Document.markerError?_isSome.mp (Option.isSome_of_eq_some hmark)
  case smallest =>
    intro e he hm
    obtain ⟨other, hother, hwritten⟩ := Snapshot.writes_iff.mp he
    rw [hchanges, List.mem_append, List.mem_cons] at hother
    rcases hother with hother | rfl | hother
    · have hquiet := hnone other hother
      rw [hwritten, Option.bind_some] at hquiet
      exact absurd (Document.markerError?_isSome.mpr hm) (by simp [hquiet])
    · cases hd.symm.trans hwritten
      exact le_refl _
    · have hlt := hordered.2.1.1 other hother
      rw [DocumentSet.document_of_written hd, DocumentSet.document_of_written hwritten] at hlt
      exact (byteValues_strictMono hlt).le

namespace ChecksumEngine

/-- A session with diagnostics is told the first place of the marker in the first such document. -/
theorem error_points_to_marker {rs : List EngineRequest} {s : EngineSession} {u : Update}
    {next : ChecksumEngine} (hopen : ((new marker).serveAll rs).2.session? s.id = some s)
    (hreports : s.reportDiagnostics = true)
    (hcompute : ((new marker).serveAll rs).2.compute s.id baseline target = (.ok u, next))
    (hblocked : u.status = .blocked) :
    ∃ error d, u.syntaxError = some error ∧ Snapshot.FirstMarked marker baseline target d ∧
      error.PointsTo marker d := by
  simp only [compute, withSession, hopen, hreports, marker_serveAll, Prod.mk.injEq,
    Except.ok.injEq] at hcompute
  obtain ⟨rfl, -⟩ := hcompute
  have hblocks := (updateOf_classifies marker baseline target).blocked.mp hblocked
  obtain ⟨error, herror⟩ := Option.isSome_iff_exists.mp (blocks_iff.mp hblocks)
  have hmarker : (new marker).marker = some marker := by simp [new, hblocks.1]
  rw [updateOf_of_error herror]
  rw [hmarker] at herror
  obtain ⟨d, hd, hmark⟩ := firstMarked_of_firstMarkerError? herror
  exact ⟨error, d, rfl, hd, Document.pointsTo_of_markerError? hblocks.1 hmark⟩

/-- Lines without text count, and a long character is as many columns as it has bytes. -/
theorem error_points_past_long_characters :
    let d : Document := ⟨.ofText "a.src", "app", "é\n\nüb!\n!", false⟩
    let e : Document := ⟨.ofText "b.src", "app", "!", false⟩
    let baseline : Snapshot := ⟨⟨0, 0⟩, 0, .ofList []⟩
    let target : Snapshot := ⟨⟨0, 1⟩, 1, .ofList [e, d]⟩
    let engine := ((new "!").serveAll [.start baseline true]).2
    ∃ u error, engine.compute ⟨1⟩ baseline target = (.ok u, engine) ∧ u.syntaxError = some error ∧
      Snapshot.FirstMarked "!" baseline target d ∧ error.PointsTo "!" d ∧
        error.location = some ⟨"a.src", .point 3 4⟩ := by
  intro d e baseline target engine
  let u : Update :=
    { status := .blocked
      syntaxError := some
        { id := "HR0002"
          severity := .error
          message := "Syntax error in 'a.src' blocks applying changes"
          location := some ⟨"a.src", .point 3 4⟩ } }
  have hupdate : updateOf (some "!") true (baseline.documents.changesTo target.documents) = u := by
    decide +kernel
  let s : EngineSession := { id := ⟨1⟩, baseline := 0, reportDiagnostics := true }
  have hsession : engine.session? s.id = some s := rfl
  have hmarker : engine.marker = some "!" := rfl
  have hcompute : engine.compute s.id baseline target = (.ok u, engine) := by
    rw [compute, withSession, hsession]
    simp only [hmarker, s, hupdate]
    rfl
  obtain ⟨error, first, herror, hfirst, hpoints⟩ := @error_points_to_marker "!" baseline target
    [.start baseline true] s u engine hsession rfl hcompute rfl
  have hdocuments : target.documents.toList = [d, e] := by decide +kernel
  have hmem := hfirst.written.1
  rw [hdocuments] at hmem
  have hle := hfirst.smallest (e := d) (by decide +kernel) (by decide +kernel)
  obtain rfl : first = d := by
    rcases List.mem_pair.mp hmem with rfl | rfl
    · rfl
    · exact absurd hle (by decide +kernel)
  cases herror
  exact ⟨u, _, hcompute, rfl, hfirst, hpoints, rfl⟩

end ChecksumEngine

end LiveEdit
