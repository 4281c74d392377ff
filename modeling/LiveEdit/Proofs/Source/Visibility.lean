import LiveEdit.Proofs.Source.Contents
import LiveEdit.Proofs.Source.Detection

/-! What a check for changes sees: the listed changes, less those that generated documents hide. -/
namespace LiveEdit

namespace DocumentSet

variable {s older newer : DocumentSet} {d e : Document} {p : SourcePath} {change : Change}

/-- What became of a path, told by the documents that it has before and after. -/
def changeAt? (older newer : DocumentSet) (p : SourcePath) : Option Change :=
  match older.find? p, newer.find? p with
  | none, none => none
  | none, some d => some (.added d)
  | some e, none => some (.deleted e)
  | some e, some d => if e.SameSource d then none else some (.modified d)

theorem path_of_changeAt? (h : older.changeAt? newer p = some change) :
    change.document.path = p := by
  unfold changeAt? at h
  split at h
  next => cases h
  next hnew =>
    cases h
    exact (mem_of_find? hnew).2
  next hold _ =>
    cases h
    exact (mem_of_find? hold).2
  next hnew =>
    split at h
    · cases h
    · cases h
      exact (mem_of_find? hnew).2

/-- The listed changes are what became of each path. -/
theorem mem_changesTo_iff : change ∈ older.changesTo newer ↔
    older.changeAt? newer change.document.path = some change := by
  cases change with
  | added d =>
    rw [added_mem_changesTo, changeAt?, Change.document]
    cases older.find? d.path <;> cases newer.find? d.path <;> simp
  | modified d =>
    rw [modified_mem_changesTo, changeAt?, Change.document]
    cases older.find? d.path <;> cases newer.find? d.path <;> simp [and_comm]
    rintro rfl
    rfl
  | deleted d =>
    rw [deleted_mem_changesTo, changeAt?, Change.document]
    cases older.find? d.path <;> cases newer.find? d.path <;> simp

theorem exists_change_at_iff : (∃ change ∈ older.changesTo newer, change.document.path = p) ↔
    (older.changeAt? newer p).isSome := by
  rw [Option.isSome_iff_exists]
  constructor
  · rintro ⟨change, hc, rfl⟩
    exact ⟨change, mem_changesTo_iff.mp hc⟩
  · rintro ⟨change, hc⟩
    have hp := path_of_changeAt? hc
    exact ⟨change, mem_changesTo_iff.mpr (hp ▸ hc), hp⟩

/-- A generated document is at the path. -/
def GeneratedAt (s : DocumentSet) (p : SourcePath) : Prop := ∃ d ∈ s.find? p, d.generated = true

/-- A check of one path sees the change there, unless a generated document hides it. -/
theorem differsAt_iff : older.differsAt newer p = true ↔
    (older.changeAt? newer p).isSome ∧ ¬ older.GeneratedAt p ∧ ¬ newer.GeneratedAt p := by
  rw [differsAt, changeAt?, GeneratedAt, GeneratedAt]
  cases older.find? p with
  | none => cases newer.find? p <;> simp
  | some e =>
    cases newer.find? p with
    | none => simp
    | some d => by_cases hs : e.SameSource d <;> simp [hs]

/-- The project and the checksum at each path whose document is not a generated one. -/
def handWritten (s : DocumentSet) : SourcePath → Option (String × Digest) := fun p =>
  (s.find? p).bind fun d => if d.generated then none else some (d.project, d.checksum)

/-- Where the newer document is not generated, its change is one of the hand-written sources. -/
theorem handWritten_ne_iff (h : ¬ newer.GeneratedAt p) :
    older.handWritten p ≠ newer.handWritten p ↔
      ∃ change, older.changeAt? newer p = some change ∧ change.document.generated = false := by
  rw [handWritten, handWritten, changeAt?]
  cases hnew : newer.find? p with
  | none =>
    cases older.find? p with
    | none => simp
    | some e => by_cases he : e.generated <;> simp [he, Change.document]
  | some d =>
    have hd : d.generated = false := by simpa [GeneratedAt, hnew] using h
    cases older.find? p with
    | none => simp [hd, Change.document]
    | some e =>
      cases he : e.generated with
      | true => simp [Document.SameSource, hd, he, Change.document]
      | false =>
        have hsame : e.SameSource d ↔ e.project = d.project ∧ e.checksum = d.checksum := by
          rw [Document.SameSource, hd, he]
          simp [and_comm]
        by_cases hs : e.SameSource d
        · simp [hd, he, hs, hsame.mp hs]
        · simp [hs, hd, Change.document, ← hsame]

theorem handWritten_of_generatedAt (h : s.GeneratedAt p) : s.handWritten p = none := by
  obtain ⟨d, hd, hg⟩ := h
  rw [Option.mem_def] at hd
  simp [handWritten, hd, hg]

/-- A hand-written document is at the path in the older set, a generated one in the newer. -/
def TakenOverAt (older newer : DocumentSet) (p : SourcePath) : Prop :=
  older.handWritten p ≠ none ∧ newer.GeneratedAt p

/-- Hand-written sources differ at the path, which has no generated document in either set. -/
def RewrittenAt (older newer : DocumentSet) (p : SourcePath) : Prop :=
  older.handWritten p ≠ newer.handWritten p ∧ ¬ older.GeneratedAt p ∧ ¬ newer.GeneratedAt p

theorem rewrittenAt_comm : older.RewrittenAt newer p ↔ newer.RewrittenAt older p := by
  rw [RewrittenAt, RewrittenAt, ne_comm, and_comm (a := ¬ older.GeneratedAt p)]

theorem handWritten_ne_of_takenOverAt (h : older.TakenOverAt newer p) :
    older.handWritten p ≠ newer.handWritten p := by
  rw [handWritten_of_generatedAt h.2]
  exact h.1

/-- Where hand-written sources differ, a generated document came, or one went, or none was there. -/
theorem handWritten_ne_cases (h : older.handWritten p ≠ newer.handWritten p) :
    older.RewrittenAt newer p ∨ older.TakenOverAt newer p ∨ newer.TakenOverAt older p := by
  by_cases hold : older.GeneratedAt p
  · rw [handWritten_of_generatedAt hold] at h
    exact .inr (.inr ⟨h.symm, hold⟩)
  · by_cases hnew : newer.GeneratedAt p
    · rw [handWritten_of_generatedAt hnew] at h
      exact .inr (.inl ⟨h, hnew⟩)
    · exact .inl ⟨h, hold, hnew⟩

/-- What a newer set without a generated document at the path shows of the difference. -/
theorem differs_by_hand_iff :
    older.handWritten p ≠ newer.handWritten p ∧ ¬ newer.GeneratedAt p ↔
      older.RewrittenAt newer p ∨ newer.TakenOverAt older p := by
  constructor
  · rintro ⟨hne, hnew⟩
    obtain h | h | h := handWritten_ne_cases hne
    · exact .inl h
    · exact absurd h.2 hnew
    · exact .inr h
  · rintro (h | h)
    · exact ⟨h.1, h.2.2⟩
    · exact ⟨(handWritten_ne_of_takenOverAt h).symm, fun hnew => h.1 (handWritten_of_generatedAt hnew)⟩

/-- The document of a change is the newer one, if there is one. -/
theorem document_of_changeAt? (h : older.changeAt? newer p = some change)
    (hd : newer.find? p = some d) : change.document = d := by
  obtain rfl := path_of_changeAt? h
  rw [← mem_changesTo_iff] at h
  cases change with
  | added e => exact Option.some.inj ((added_mem_changesTo.mp h).2.symm.trans hd)
  | modified e =>
    obtain ⟨-, -, hnew, -⟩ := modified_mem_changesTo.mp h
    exact Option.some.inj (hnew.symm.trans hd)
  | deleted e => cases (deleted_mem_changesTo.mp h).2.symm.trans hd

/-- A listed change of a hand-written document is a difference of the hand-written sources. -/
theorem exists_change_by_hand_iff :
    (∃ change ∈ older.changesTo newer, change.document.generated = false) ↔
      ∃ p, older.handWritten p ≠ newer.handWritten p ∧ ¬ newer.GeneratedAt p := by
  constructor
  · rintro ⟨change, hc, hg⟩
    rw [mem_changesTo_iff] at hc
    have hnew : ¬ newer.GeneratedAt change.document.path := by
      rintro ⟨d, hd, hgen⟩
      rw [document_of_changeAt? hc hd, hgen] at hg
      cases hg
    exact ⟨_, (handWritten_ne_iff hnew).mpr ⟨change, hc, hg⟩, hnew⟩
  · rintro ⟨p, hne, hnew⟩
    obtain ⟨change, hc, hg⟩ := (handWritten_ne_iff hnew).mp hne
    obtain rfl := path_of_changeAt? hc
    exact ⟨change, mem_changesTo_iff.mpr hc, hg⟩

end DocumentSet

namespace Snapshot

variable {committed latest : Snapshot} {settings : DetectionSettings} {scope : Option String}

/-- A check says without a look at the documents that nothing changed. -/
def PassesUnread (committed latest : Snapshot) (settings : DetectionSettings) : Prop :=
  committed.id = latest.id ∨
    settings.trustVersions = true ∧ committed.version = latest.version

instance : Decidable (committed.PassesUnread latest settings) :=
  inferInstanceAs (Decidable (_ ∨ _ ∧ _))

theorem differsFrom_of_passesUnread (h : committed.PassesUnread latest settings) :
    committed.differsFrom latest scope settings = false := by
  unfold differsFrom
  rcases h with hid | ⟨htrust, hversion⟩
  · rw [if_pos hid]
  · simp [htrust, hversion]

theorem differsFrom_of_read (h : ¬ committed.PassesUnread latest settings) :
    committed.differsFrom latest scope settings =
      match scope with
      | some spelling => committed.documents.differsAt latest.documents (.ofText spelling)
      | none => committed.documents.differsAnywhere latest.documents settings.includeGenerated := by
  rw [PassesUnread, not_or] at h
  have hversion : ¬ (settings.trustVersions && committed.version == latest.version) = true := by
    simpa using h.2
  cases scope <;> simp only [differsFrom, if_neg h.1, if_neg hversion]

theorem differsFrom_everything (h : ¬ committed.PassesUnread latest settings) :
    committed.differsFrom latest none settings = true ↔
      ∃ change ∈ committed.documents.changesTo latest.documents,
        change.document.generated = false ∨ settings.includeGenerated = true := by
  rw [differsFrom_of_read h, DocumentSet.differsAnywhere_eq, List.any_eq_true]
  simp only [Bool.or_eq_true, Bool.not_eq_true', or_comm]

theorem differsFrom_path (h : ¬ committed.PassesUnread latest settings) {spelling : String} :
    committed.differsFrom latest (some spelling) settings = true ↔
      (∃ change ∈ committed.documents.changesTo latest.documents,
        change.document.path = .ofText spelling) ∧
      (∀ d ∈ committed.document? spelling, d.generated = false) ∧
      ∀ d ∈ latest.document? spelling, d.generated = false := by
  rw [differsFrom_of_read h, DocumentSet.differsAt_iff, ← DocumentSet.exists_change_at_iff]
  simp only [DocumentSet.GeneratedAt, not_exists, not_and, Bool.not_eq_true, document?]

/-- What checks say of two snapshots is a view of the list of changes. -/
structure ViewsChanges (committed latest : Snapshot) (settings : DetectionSettings) : Prop where
  unread (h : committed.PassesUnread latest settings) (scope : Option String) :
    committed.differsFrom latest scope settings = false
  everything (h : ¬ committed.PassesUnread latest settings) :
    committed.differsFrom latest none settings = true ↔
      ∃ change ∈ committed.documents.changesTo latest.documents,
        change.document.generated = false ∨ settings.includeGenerated = true
  path (h : ¬ committed.PassesUnread latest settings) (spelling : String) :
    committed.differsFrom latest (some spelling) settings = true ↔
      (∃ change ∈ committed.documents.changesTo latest.documents,
        change.document.path = .ofText spelling) ∧
      (∀ d ∈ committed.document? spelling, d.generated = false) ∧
      ∀ d ∈ latest.document? spelling, d.generated = false
  /-- What a check of one path finds, a check of everything finds too. -/
  found (spelling : String) (h : committed.differsFrom latest (some spelling) settings = true) :
    committed.differsFrom latest none settings = true

theorem checks_view_changes (committed latest : Snapshot) (settings : DetectionSettings) :
    committed.ViewsChanges latest settings := by
  constructor
  case unread => exact fun h _ => differsFrom_of_passesUnread h
  case everything => exact differsFrom_everything
  case path => exact fun h _ => differsFrom_path h
  case found =>
    intro spelling h
    by_cases hread : committed.PassesUnread latest settings
    · rw [differsFrom_of_passesUnread hread] at h
      cases h
    · obtain ⟨⟨change, hc, hp⟩, hold, hnew⟩ := (differsFrom_path hread).mp h
      refine (differsFrom_everything hread).mpr ⟨change, hc, .inl ?_⟩
      -- a deleted document is an older one, any other a newer one
      rw [document?, ← hp] at hold hnew
      cases change with
      | added d => exact hnew d (DocumentSet.added_mem_changesTo.mp hc).2
      | modified d =>
        obtain ⟨-, -, hd, -⟩ := DocumentSet.modified_mem_changesTo.mp hc
        exact hnew d hd
      | deleted d => exact hold d (DocumentSet.deleted_mem_changesTo.mp hc).1

/-- What a check of everything sees of the hand-written sources. -/
structure SeesHandWritten (committed latest : Snapshot) (settings : DetectionSettings) : Prop where
  /-- It overlooks a document that became a generated one. -/
  changed : committed.differsFrom latest none settings = true ↔
    ∃ p, committed.documents.handWritten p ≠ latest.documents.handWritten p ∧
      ¬ latest.documents.GeneratedAt p
  untaken (h : ∀ p, ¬ committed.documents.TakenOverAt latest.documents p) :
    committed.differsFrom latest none settings = true ↔
      committed.documents.handWritten ≠ latest.documents.handWritten
  /-- Only documents that became generated ones, or ceased to be, tell the two directions apart. -/
  exchanged : committed.differsFrom latest none settings =
      latest.differsFrom committed none settings ↔
    (∃ p, committed.documents.RewrittenAt latest.documents p) ∨
      ((∃ p, committed.documents.TakenOverAt latest.documents p) ↔
        ∃ p, latest.documents.TakenOverAt committed.documents p)

theorem PassesUnread.symm (h : latest.PassesUnread committed settings) :
    committed.PassesUnread latest settings :=
  h.imp Eq.symm (And.imp_right Eq.symm)

theorem differsFrom_byHand (h : ¬ committed.PassesUnread latest settings)
    (hg : settings.includeGenerated = false) :
    committed.differsFrom latest none settings = true ↔
      ∃ p, committed.documents.handWritten p ≠ latest.documents.handWritten p ∧
        ¬ latest.documents.GeneratedAt p := by
  rw [differsFrom_everything h, ← DocumentSet.exists_change_by_hand_iff, hg]
  simp

/-- Without generated documents, a check of everything looks at hand-written sources alone. -/
theorem check_sees_hand_written (hread : ¬ committed.PassesUnread latest settings)
    (hg : settings.includeGenerated = false) : committed.SeesHandWritten latest settings := by
  have hforth := differsFrom_byHand hread hg
  have hback := differsFrom_byHand (mt PassesUnread.symm hread) hg
  constructor
  case changed => exact hforth
  case untaken =>
    intro huntaken
    rw [hforth, Function.ne_iff]
    refine exists_congr fun p => and_iff_left_of_imp fun hne hnew => huntaken p ?_
    exact ⟨fun hnone => hne (hnone.trans (DocumentSet.handWritten_of_generatedAt hnew).symm), hnew⟩
  case exchanged =>
    have hrewritten_comm : (∃ p, latest.documents.RewrittenAt committed.documents p) ↔
        ∃ p, committed.documents.RewrittenAt latest.documents p :=
      exists_congr fun _ => DocumentSet.rewrittenAt_comm
    simp only [DocumentSet.differs_by_hand_iff, exists_or] at hforth hback
    rw [Bool.eq_iff_iff, hforth, hback, hrewritten_comm]
    by_cases hrewritten : ∃ p, committed.documents.RewrittenAt latest.documents p
    · simp [hrewritten]
    · simp only [hrewritten, false_or]
      exact Iff.comm

/-- A hand-written change is seen in both directions, whatever else became generated. -/
theorem check_sees_change_beside_takeover :
    let one : Document := ⟨.ofText "one.src", "app", "1", false⟩
    let two : Document := ⟨.ofText "two.src", "app", "2", false⟩
    let committed : Snapshot := ⟨⟨0, 1⟩, 1, .ofList [one, two]⟩
    let latest : Snapshot := ⟨⟨0, 2⟩, 2, .ofList [{ one with generated := true }]⟩
    ¬ committed.PassesUnread latest {} ∧ committed.SeesHandWritten latest {} ∧
      committed.differsFrom latest none {} = true ∧ latest.differsFrom committed none {} = true := by
  intro one two committed latest
  have hread : ¬ committed.PassesUnread latest {} := by decide
  have hsees := check_sees_hand_written hread rfl
  have hold : committed.documents.find? (.ofText "two.src") = some two := by decide
  have hnew : latest.documents.find? (.ofText "two.src") = none := by decide
  have htwo : committed.documents.RewrittenAt latest.documents (.ofText "two.src") := by
    simp [DocumentSet.RewrittenAt, DocumentSet.handWritten, DocumentSet.GeneratedAt, hold, hnew, two]
  have hchanged := hsees.changed.mpr ⟨_, htwo.1, htwo.2.2⟩
  exact ⟨hread, hsees, hchanged, (hsees.exchanged.mpr (.inl ⟨_, htwo⟩)).symm.trans hchanged⟩

/--
A document that became a generated one is lost to the hand-written sources, and the check overlooks
it. In the other direction it does not.
-/
theorem check_overlooks_takeover :
    let written : Snapshot := ⟨⟨0, 1⟩, 1, .ofList [⟨.ofText "a.src", "app", "one", false⟩]⟩
    let made : Snapshot := ⟨⟨0, 2⟩, 2, .ofList [⟨.ofText "a.src", "app", "one", true⟩]⟩
    ¬ written.PassesUnread made {} ∧ ¬ made.PassesUnread written {} ∧
      written.documents.handWritten ≠ made.documents.handWritten ∧
      written.differsFrom made none {} = false ∧ made.differsFrom written none {} = true := by
  intro written made
  refine ⟨by decide, by decide, fun h => ?_, by decide, by decide +kernel⟩
  cases congrFun h (.ofText "a.src")

end Snapshot

end LiveEdit
