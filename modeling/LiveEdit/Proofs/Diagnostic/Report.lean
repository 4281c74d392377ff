import LiveEdit.Diagnostic.Merge
import LiveEdit.Proofs.Order.Stability
import LiveEdit.Proofs.Source.Changes
import LiveEdit.Proofs.Text.ByteOrder
import Mathlib.Data.List.Lex
import Mathlib.Data.Prod.Lex

/-! A report tells all that an update holds, once, in an order that only the update decides. -/
namespace LiveEdit

def SourceSpan.key (s : SourceSpan) : Nat ×ₗ Nat ×ₗ Nat ×ₗ Nat :=
  toLex (s.startLine, toLex (s.startColumn, toLex (s.endLine, s.endColumn)))

/-- Rude edits are told by the bytes of their paths, then by span, then by kind. -/
def RudeEdit.key (e : RudeEdit) : List Nat ×ₗ (Nat ×ₗ Nat ×ₗ Nat ×ₗ Nat) ×ₗ Nat :=
  toLex (byteValues e.location.path, toLex (e.location.span.key, e.kind.rank))

/-- `d'` is `d`; if `d` names no project, that of the document it points into is filled in. -/
structure Diagnostic.PlacedIn (snapshot : Snapshot) (d d' : Diagnostic) : Prop where
  same : { d' with project := d.project } = d
  kept (h : d.project ≠ none) : d' = d
  filled (h : d.project = none) (project : String) : d'.project = some project ↔
    ∃ location ∈ d.location, ∃ document ∈ snapshot.documents.toList,
      document.path.text = normalizePath location.path ∧ document.project = project

/-- Puts `arg` at the only placeholder of a template. -/
def Substituted (template arg message : String) : Prop :=
  ∃ before after : String, '{' ∉ before.toList ∧ '{' ∉ after.toList ∧
    template = before ++ "\x7b0\x7d" ++ after ∧ message = before ++ arg ++ after

/-- What a rude edit of an update is told as. -/
structure RudeEdit.ToldAs (u : Update) (snapshot : Snapshot) (e : RudeEdit) (d : Diagnostic) :
    Prop where
  id : d.id = (Descriptor.rudeEdit e.kind).id
  restart (h : u.status = .restartRequired) : d.severity = .restartRequired
  noRestart (h : u.status ≠ .restartRequired) : d.severity = .error
  message : Substituted (Descriptor.rudeEdit e.kind).template (e.argument.getD e.location.path)
    d.message
  location : d.location = some e.location
  project (project : String) : d.project = some project ↔
    ∃ document ∈ snapshot.documents.toList,
      document.path.text = normalizePath e.location.path ∧ document.project = project

/-- A diagnostic of the update is looked up at this path. -/
inductive Update.Asks (u : Update) : SourcePath → Prop
  | engine {d : Diagnostic} {l : Location} (hd : d ∈ u.diagnostics ++ u.syntaxError.toList)
      (hp : d.project = none) (hl : d.location = some l) : u.Asks (.ofText l.path)
  | rude {e : RudeEdit} (he : e ∈ u.rudeEdits) : u.Asks (.ofText e.location.path)

/-- A merged report, told part by part. -/
structure Update.Merges (u : Update) (snapshot : Snapshot) : Prop where
  parts : ∃ engine syntactic rude : List Diagnostic, ∃ edits : List RudeEdit,
    u.report snapshot = engine ++ syntactic ++ rude ∧
      List.Forall₂ (Diagnostic.PlacedIn snapshot) u.diagnostics engine ∧
      List.Forall₂ (Diagnostic.PlacedIn snapshot) u.syntaxError.toList syntactic ∧
      SortedBy RudeEdit.key u.rudeEdits edits ∧
      List.Forall₂ (RudeEdit.ToldAs u snapshot) edits rude
  length : (u.report snapshot).length =
    u.diagnostics.length + u.syntaxError.toList.length + u.rudeEdits.length
  permuted (edits : List RudeEdit) (h : edits.Perm u.rudeEdits)
    (hdistinct : u.rudeEdits.Pairwise fun e f => ¬ (e.location = f.location ∧ e.kind = f.kind)) :
    { u with rudeEdits := edits }.report snapshot = u.report snapshot
  /-- A snapshot tells it all in the same way if it has the same documents where they are asked. -/
  unaffected (other : Snapshot)
    (h : ∀ p, u.Asks p → other.documents.find? p = snapshot.documents.find? p) :
    u.report other = u.report snapshot

variable {snapshot other : Snapshot} {u : Update} {d : Diagnostic} {e f : RudeEdit}

theorem isLE_then {α : Type} [LinearOrder α] (a b : α) (o : Ordering) :
    ((Ord.compare a b).then o).isLE = true ↔ a < b ∨ a = b ∧ o.isLE = true := by
  cases h : Ord.compare a b with
  | lt => simp [compare_lt_iff_lt.mp h]
  | eq => simp [compare_eq_iff_eq.mp h]
  | gt => simp [(compare_gt_iff_gt.mp h).not_gt, (compare_gt_iff_gt.mp h).ne']

theorem SourceSpan.compare_eq (s t : SourceSpan) : s.compare t = Ord.compare s.key t.key := rfl

namespace RudeEdit

theorem isLE_compare (e f : RudeEdit) : (e.compare f).isLE = true ↔ e.key ≤ f.key := by
  have hpath (o : Ordering) :
      ((Ord.compare e.location.path f.location.path).then o).isLE = true ↔
        byteValues e.location.path < byteValues f.location.path ∨
          byteValues e.location.path = byteValues f.location.path ∧ o.isLE = true := by
    rw [byteValues_strictMono.lt_iff_lt, byteValues_strictMono.injective.eq_iff]
    exact isLE_then e.location.path f.location.path o
  rw [key, key, Prod.Lex.toLex_le_toLex, Prod.Lex.toLex_le_toLex, RudeEdit.compare,
    Location.compare, Ordering.then_assoc, hpath, SourceSpan.compare_eq, isLE_then,
    Nat.isLE_compare]

theorem key_eq_iff : e.key = f.key ↔ e.location = f.location ∧ e.kind = f.kind := by
  obtain ⟨ke, ⟨pe, ⟨⟩⟩, _⟩ := e
  obtain ⟨kf, ⟨pf, ⟨⟩⟩, _⟩ := f
  have hrank : ke.rank = kf.rank ↔ ke = kf := by cases ke <;> cases kf <;> decide
  simp [key, SourceSpan.key, byteValues_strictMono.injective.eq_iff, hrank, and_assoc]

/-- Each kind's template has one placeholder, for what the edit is about. -/
theorem substituted_message (kind : RudeEditKind) (arg : String) :
    Substituted (Descriptor.rudeEdit kind).template arg
      ((Descriptor.rudeEdit kind).message [arg]) := by
  have hone (before after : String) (hb : '{' ∉ before.toList) (ha : '{' ∉ after.toList)
      (ht : (Descriptor.rudeEdit kind).template = before ++ "\x7b0\x7d" ++ after) :
      Substituted (Descriptor.rudeEdit kind).template arg
        ((Descriptor.rudeEdit kind).message [arg]) :=
    ⟨before, after, hb, ha, ht, by rw [Descriptor.message, ht, fill_once hb ha]⟩
  cases kind with
  | deleteUnit =>
    exact hone "Deleting source unit '" "' requires restarting the application"
      (by decide +kernel) (by decide +kernel) rfl
  | signatureChange =>
    exact hone "Changing the signature of '" "' requires restarting the application"
      (by decide +kernel) (by decide +kernel) rfl
  | activeStatementUpdate =>
    exact hone "Updating an active statement in '" "' requires restarting the application"
      (by decide +kernel) (by decide +kernel) rfl
  | unsupported =>
    exact hone "The change in '" "' is not supported by the runtime"
      (by decide +kernel) (by decide +kernel) rfl

end RudeEdit

theorem Snapshot.project?_eq_some_iff {spelling project : String} :
    snapshot.project? spelling = some project ↔
      ∃ document ∈ snapshot.documents.toList,
        document.path.text = normalizePath spelling ∧ document.project = project := by
  rw [Snapshot.project?, Option.map_eq_some_iff]
  refine exists_congr fun document => ?_
  rw [Snapshot.document?, DocumentSet.find?_eq_some_iff, SourcePath.ext_iff, and_assoc]
  rfl

namespace Diagnostic

theorem within_placedIn (snapshot : Snapshot) (d : Diagnostic) :
    d.PlacedIn snapshot (d.within snapshot) := by
  obtain ⟨id, severity, message, location, project⟩ := d
  cases project with
  | some project => exact ⟨rfl, fun _ => rfl, nofun⟩
  | none =>
    refine ⟨rfl, fun h => absurd rfl h, fun _ project => ?_⟩
    simp only [within, Option.bind_eq_some_iff, Snapshot.project?_eq_some_iff]
    rfl

theorem within_congr (h : d.project = none → ∀ l ∈ d.location,
    other.documents.find? (.ofText l.path) = snapshot.documents.find? (.ofText l.path)) :
    d.within other = d.within snapshot := by
  unfold within
  cases hp : d.project with
  | some _ => rfl
  | none =>
    cases hl : d.location with
    | none => rfl
    | some l => simp only [Option.bind_some, Snapshot.project?, Snapshot.document?, h hp l hl]

end Diagnostic

theorem RudeEdit.toldAs (u : Update) (snapshot : Snapshot) (e : RudeEdit) :
    e.ToldAs u snapshot ((e.diagnostic u.rudeSeverity).within snapshot) where
  id := rfl
  restart h := if_pos h
  noRestart h := if_neg h
  message := substituted_message e.kind _
  location := rfl
  project _ := Snapshot.project?_eq_some_iff

namespace Update

theorem report_parts (u : Update) (snapshot : Snapshot) : u.report snapshot =
    u.diagnostics.map (·.within snapshot) ++ u.syntaxError.toList.map (·.within snapshot) ++
      (inOrder (fun e f => (e.compare f).isLE) u.rudeEdits).map
        fun e => (e.diagnostic u.rudeSeverity).within snapshot := by
  rw [report, List.map_append, List.map_append, rudeDiagnostics, List.map_map]
  rfl

theorem report_congr
    (h : ∀ p, u.Asks p → other.documents.find? p = snapshot.documents.find? p) :
    u.report other = u.report snapshot := by
  refine List.map_congr_left fun d hd => Diagnostic.within_congr fun hp l hl => h _ ?_
  rcases List.mem_append.mp hd with hd | hd
  · exact .engine hd hp hl
  · obtain ⟨e, he, rfl⟩ := List.mem_map.mp hd
    cases hl
    exact .rude (mem_inOrder.mp he)

theorem report_merges (u : Update) (snapshot : Snapshot) : u.Merges snapshot where
  parts := by
    have hplaced (ds : List Diagnostic) :
        List.Forall₂ (Diagnostic.PlacedIn snapshot) ds (ds.map (·.within snapshot)) :=
      List.forall₂_map_right_iff.mpr (List.forall₂_same.mpr fun d _ => d.within_placedIn snapshot)
    refine ⟨_, _, _, _, u.report_parts snapshot, hplaced _, hplaced _,
      inOrder_sortedBy RudeEdit.isLE_compare _, ?_⟩
    exact List.forall₂_map_right_iff.mpr (List.forall₂_same.mpr fun e _ => e.toldAs u snapshot)
  length := by
    rw [report_parts, List.length_append, List.length_append, List.length_map, List.length_map,
      List.length_map, (inOrder_perm _).length_eq]
  permuted edits h hdistinct := by
    have hkeys : u.rudeEdits.Pairwise fun e f => e.key ≠ f.key :=
      hdistinct.imp fun hne => mt RudeEdit.key_eq_iff.mp hne
    rw [report_parts, report_parts, inOrder_eq_of_perm RudeEdit.isLE_compare h.symm hkeys]
    rfl
  unaffected other h := report_congr h

end Update

end LiveEdit
