import LiveEdit.Proofs.Kernel.Publication
import LiveEdit.Proofs.Kernel.Service

/-! The check for changes foretells the update that the engine would compute. -/
namespace LiveEdit

/-- Against a store's current snapshot a check looks at the changes, whatever its shortcuts. -/
theorem Store.Issued.differsFrom_current {store : Store} {p : Snapshot} (h : store.Issued p)
    (hc : store.Counts) (settings : DetectionSettings) :
    p.differsFrom store.current none settings =
      (p.documents.changesTo store.current.documents).any
        fun change => settings.includeGenerated || !change.document.generated := by
  have same (heq : p = store.current) :
      false = (p.documents.changesTo store.current.documents).any
        fun change => settings.includeGenerated || !change.document.generated := by
    rw [heq, DocumentSet.changesTo_self]
    rfl
  rw [Snapshot.differsFrom]
  split
  next hid => exact same (h.eq_current_of_id hc hid)
  next =>
    split
    next hv =>
      simp only [Bool.and_eq_true, beq_iff_eq] at hv
      exact same (h.current hv.2)
    next => exact DocumentSet.differsAnywhere_eq _

namespace Kernel

/-- What an answer to the check for changes tells of the updates that would be computed. -/
structure Foretells (settings : DetectionSettings) (committed current : Snapshot) (changed : Bool)
    (u : Updates) : Prop where
  /-- A check that looks at generated documents misses nothing. -/
  full (hg : settings.includeGenerated = true) : changed = false ↔ u.isEmpty = true
  /-- One that does not look at them is not wrong about the others. -/
  found (hg : settings.includeGenerated = false) (hc : changed = true) : u.isEmpty = false
  missed (hg : settings.includeGenerated = false) (hc : changed = false)
    (hu : u.isEmpty = false) :
    ∀ change ∈ committed.documents.changesTo current.documents, change.document.generated = true
  /-- Equal versions are those of one published snapshot. -/
  version (hv : committed.version = current.version) : committed = current
  /-- Whether versions are trusted makes no difference. -/
  shortcut (trustVersions : Bool) :
    committed.differsFrom current none { settings with trustVersions } = changed

variable {origin w : World} {es : List StoreEdit} {hs : List Happening} {session : ActiveSession}
  {publisher limit : Nat}

/-- In every session over one store a check for changes foretells the updates. -/
theorem check_foretells_updates (h : origin.Run es hs w) (ho : origin.IsFresh)
    (hscript : origin.script = []) (hstore : origin.store = .new publisher limit)
    (hs' : w.system.state = .active session) :
    ∃ changed u, (w.served (.hasChanges none)).1 = some (.changed changed) ∧
      (w.served .getUpdates).1 = some (.updates u) ∧
      Foretells w.system.settings.detection session.committed w.store.current changed u := by
  have hsound := h.sound ho hscript
  have hcounts : origin.store.Counts := hstore ▸ Store.counts_new publisher limit
  have hissued := (h.has_issued ho hcounts session hs').1
  have hstore' := (h.publishes ho hcounts).counts
  have hdiffers := hissued.differsFrom_current hstore'
  have hchecked := (hsound.served (.hasChanges none)).1
  rw [World.outcome_hasChanges, hs'] at hchecked
  have hupdates := (hsound.served .getUpdates).1
  rw [(hsound.outcome_getUpdates hs').1] at hupdates
  refine ⟨_, _, hchecked, hupdates, ?_⟩
  have hanswer : (SessionState.active session).session?.any (fun session =>
      session.committed.differsFrom w.store.current none w.system.settings.detection) =
        (session.committed.documents.changesTo w.store.current.documents).any fun change =>
          w.system.settings.detection.includeGenerated || !change.document.generated :=
    hdiffers w.system.settings.detection
  rw [hanswer]
  constructor
  case full =>
    intro hg
    rw [isEmpty_updatesBetween, hg]
    simp [List.eq_nil_iff_forall_not_mem]
  case found =>
    intro hg hc
    rw [← Bool.not_eq_true, isEmpty_updatesBetween]
    rintro heq
    simp [heq] at hc
  case missed =>
    intro hg hc hu change hchange
    rw [hg, List.any_eq_false] at hc
    simpa using hc change hchange
  case version => exact hissued.current
  case shortcut => exact fun trustVersions => hdiffers _

theorem check_misses_generated_document : ∃ es hs w session u,
    World.blank.Run es hs w ∧ w.system.state = .active session ∧
      session.committed.version < w.store.current.version ∧
      (w.served (.hasChanges none)).1 = some (.changed false) ∧
      (w.served .getUpdates).1 = some (.updates u) ∧
      Foretells {} session.committed w.store.current false u := by
  obtain ⟨hs, started⟩ := World.blank_isFresh.starts rfl
  have edited := started.snoc (.edit (.upsert ⟨.ofText "main.gen", "app", "one", true⟩))
  obtain ⟨changed, u, hchecked, hupdates, hforetells⟩ :=
    check_foretells_updates edited World.blank_isFresh rfl rfl rfl
  obtain rfl : changed = false := (hforetells.shortcut true).symm.trans (by decide)
  exact ⟨_, _, _, _, u, edited, rfl, by decide, hchecked, hupdates, hforetells⟩

end Kernel

end LiveEdit
