import LiveEdit.Proofs.Kernel.Run
import LiveEdit.Proofs.Session.Provenance
import LiveEdit.Proofs.Source.Store

/-! A store gives a version to one snapshot only, and a session has no other snapshots than its. -/
namespace LiveEdit

namespace Kernel

/-- An edit leaves a store as it is, makes it forget, or has it publish something. -/
theorem StoreEdit.apply_cases (e : StoreEdit) (store : Store) : e.apply store = store ∨
    e.apply store = store.clear ∨ ∃ documents, e.apply store = store.publish documents := by
  cases e with
  | upsert d =>
    simp only [apply, Store.upsert, Store.upserting]
    split
    · split
      · exact .inl rfl
      · exact .inr (.inr ⟨_, rfl⟩)
    · exact .inr (.inr ⟨_, rfl⟩)
  | remove path =>
    simp only [apply, Store.remove, Store.removing]
    split
    · exact .inr (.inr ⟨_, rfl⟩)
    · exact .inl rfl
  | replaceAll documents =>
    simp only [apply, Store.replaceAll, Store.replacing]
    split
    · exact .inl rfl
    · exact .inr (.inr ⟨_, rfl⟩)
  | clear => exact .inr (.inl rfl)

/-- The store counts its publications, and the provider only ever answered with one of them. -/
structure Publishes (store : Store) (hs : List Happening) : Prop where
  counts : store.Counts
  issued {p : Snapshot} (h : Provided hs p) : store.Issued p

variable {origin w w' : World} {es : List StoreEdit} {hs hs' : List Happening} {store : Store}

theorem Publishes.clear (h : Publishes store hs) : Publishes store.clear hs where
  counts := ⟨h.counts.id, h.counts.version⟩
  issued hp := ⟨(h.issued hp).id, (h.issued hp).version, (h.issued hp).current⟩

theorem Publishes.apply (h : Publishes store hs) (e : StoreEdit) :
    Publishes (e.apply store) hs := by
  rcases e.apply_cases store with heq | heq | ⟨documents, heq⟩ <;> rw [heq]
  · exact h
  · exact h.clear
  · exact ⟨h.counts.publish documents, fun hp => (h.issued hp).publish documents⟩

theorem Publishes.heard (h : Publishes w.store hs) (f : System → System) :
    Publishes (w.step f).store hs := by
  rcases World.step_collaborators (w := w) f with hc | hc <;> rw [hc]
  · exact h
  · exact h.clear

/-- No collaborator's work publishes anything. -/
theorem perform_store (call : Call) : (w.perform call).2.store = w.store := by
  cases call <;> cases hp : w.provided <;> simp [World.perform, Collaborators.perform, hp] <;> rfl

theorem publishes_step (hp : w.provided = none) (h : Publishes w.store hs)
    (hw : w.Step es hs' w') : Publishes w'.store (hs ++ hs') := by
  cases hw with
  | @move m sys hm ha =>
    refine Publishes.heard ⟨h.counts, ?_⟩ _
    rintro p ⟨i, hi⟩
    rcases List.mem_append.mp hi with hi | hi
    · exact h.issued ⟨i, hi⟩
    · exact absurd (System.answered_of_mem hi) (ha _ _)
  | @answer i call sys hm =>
    refine Publishes.heard ?_ _
    rw [perform_store]
    refine ⟨h.counts, ?_⟩
    rintro p ⟨j, hj⟩
    rcases List.mem_append.mp hj with hj | hj
    · exact h.issued ⟨j, hj⟩
    · have heq := System.answered_of_mem hj
      simp only [Move.answer.injEq, Answered.mk.injEq] at heq
      obtain ⟨rfl, rfl, hresult⟩ := heq
      rw [World.perform_eq hp] at hresult
      cases hresult
      exact h.counts.issued
  | edit e => exact (List.append_nil hs).symm ▸ h.apply e
  | note => exact (List.append_nil hs).symm ▸ h

theorem World.Run.publishes (h : origin.Run es hs w) (ho : origin.IsFresh)
    (hc : origin.store.Counts) : Publishes w.store hs := by
  induction h with
  | nil => exact ⟨hc, fun ⟨i, hi⟩ => by simp at hi⟩
  | snoc h hw ih => exact publishes_step (h.provided ho.provided) ih hw

/-- All snapshots of a session were published by the store. -/
theorem World.Run.has_issued (h : origin.Run es hs w) (ho : origin.IsFresh)
    (hc : origin.store.Counts) : w.system.state.Has w.store.Issued :=
  (h.system.has ho.system ho.state).mono fun _ hp => (h.publishes ho hc).issued hp

end Kernel

end LiveEdit
