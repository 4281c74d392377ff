import LiveEdit.Kernel.World
import LiveEdit.Proofs.Session.Run

/-! Runs of a coordinator whose collaborators do their work, while others edit the store. -/
namespace LiveEdit.Kernel

inductive StoreEdit where
  | upsert (d : Document)
  | remove (p : SourcePath)
  | replaceAll (documents : DocumentSet)
  | clear

def StoreEdit.apply (store : Store) : StoreEdit → Store
  | .upsert d => store.upsert d
  | .remove p => store.remove p
  | .replaceAll documents => store.replaceAll documents
  | .clear => store.clear

namespace World

/-- Before the first request, with an engine that has no sessions. -/
structure IsFresh (w : World) : Prop where
  system : w.system.IsFresh
  state : w.system.state = .noSession
  sessions : w.engine.sessions = []
  provided : w.provided = none

/-- A world with an empty store and an empty source tree. -/
def blank : World where
  store := .new 0
  engine := .new
  system := { settings := {} }
  files := {}
  base := []
  root := ([], "")

theorem blank_isFresh : blank.IsFresh := ⟨⟨rfl, rfl, rfl⟩, rfl, rfl, rfl⟩

inductive Step (w : World) : List StoreEdit → List Happening → World → Prop
  | move {m : Move} {sys : System} (hm : w.system.Step m sys) (ha : ∀ i a, m ≠ .answer i a) :
    Step w [] (m.happenings w.system sys) (w.step fun _ => sys)
  /-- The collaborator does its work, and the task goes on with the answer. -/
  | answer {i : Nat} {call : Call} {sys : System}
      (hm : w.system.Step (.answer i ⟨call, (w.perform call).1⟩) sys) :
    Step w [] ((Move.answer i ⟨call, (w.perform call).1⟩).happenings w.system sys)
      ((w.perform call).2.step fun _ => sys)
  | edit (e : StoreEdit) : Step w [e] [] { w with store := e.apply w.store }
  /-- The world writes something down. -/
  | note (record : Record) : Step w [] [] { w with record }

/-- A run from an origin, with the edits of the store and the log of the requests. -/
inductive Run (origin : World) : List StoreEdit → List Happening → World → Prop
  | nil : Run origin [] [] origin
  | snoc {es es' : List StoreEdit} {hs hs' : List Happening} {w w' : World}
      (h : Run origin es hs w) (hw : w.Step es' hs' w') :
    Run origin (es ++ es') (hs ++ hs') w'

variable {origin w w' : World} {es : List StoreEdit} {hs : List Happening}

/-- A step of which the world hears nothing. -/
theorem step_quiet {sys : System} (hh : sys.history.length = w.heard) :
    w.step (fun _ => sys) = { w with system := sys } := by
  simp [step, hear, ← hh]

theorem Run.quiet {sys : System} (h : origin.Run es hs (w.step fun _ => sys))
    (hh : sys.history.length = w.heard) : origin.Run es hs { w with system := sys } :=
  step_quiet hh ▸ h

theorem Run.takesTurn (h : origin.Run es hs w) (r : Request) (hg : r.takesGate = true)
    (hgate : w.system.gate = {}) (hquiet : (w.system.turn r).history = w.system.history)
    (hh : w.system.history.length = w.heard) :
    ∃ hs', origin.Run es (hs ++ hs') { w with system := w.system.turn r } := by
  refine System.turn_of_moves
    (P := fun sys => ∃ hs', origin.Run es (hs ++ hs') { w with system := sys })
    ⟨[], (List.append_nil hs).symm ▸ h⟩ hg hgate hquiet ?_
  rintro u v m ⟨hs', hu⟩ hm hgo hv
  have hrun := (hu.snoc (.move hm (by rintro i a rfl; cases hgo))).quiet (hv ▸ hh)
  rw [List.append_nil, List.append_assoc] at hrun
  exact ⟨_, hrun⟩

/-- A world in which one request was made, which started a session over the current snapshot. -/
def started (w : World) : World :=
  let opened := w.engine.start w.store.current w.system.settings.reportDiagnostics
  let version := w.store.current.version
  { w with
    engine := opened.2
    system := w.system.started { engine := opened.1, committed := w.store.current }
    counters := w.counters.increment .sessionsStarted
    events := w.events.publish (.started version)
    heard := 4
    record := { w.record with audit := w.record.audit ++ [.sessionStarted version] } }

/-- The first request can start a session. -/
theorem IsFresh.starts (h : w.IsFresh) (hh : w.heard = 0) : ∃ hs, w.Run [] hs w.started := by
  have fresh : w.Run [] [] w := .nil
  obtain ⟨c, ⟨settings, state, gate, tasks, history⟩, provided⟩ := w
  obtain ⟨⟨ht, hg, hhistory⟩, hstate, -, hprovided⟩ := h
  simp only at ht hg hhistory hstate hprovided hh
  subst ht hg hhistory hstate hprovided hh
  obtain ⟨hs, begun⟩ := fresh.takesTurn .start rfl rfl rfl rfl
  have provided := (begun.snoc (.answer (.arrive (i := 0) rfl (.answer rfl _)))).quiet rfl
  have opened := provided.snoc (.answer (.arrive (i := 0) rfl (.answer rfl _)))
  exact ⟨_, opened⟩

@[simp] theorem take_system (e : Effect) : (w.take e).system = w.system := by
  cases e <;> simp only [take]
  split <;> rfl

@[simp] theorem take_provided (e : Effect) : (w.take e).provided = w.provided := by
  cases e <;> simp only [take]
  split <;> rfl

/-- The collaborators hear of a release only. -/
theorem take_collaborators (e : Effect) : (w.take e).toCollaborators = w.toCollaborators ∨
    (w.take e).toCollaborators = { w.toCollaborators with store := w.store.clear } := by
  cases e with
  | release =>
    simp only [take]
    split
    · exact .inl rfl
    · exact .inr rfl
  | _ => exact .inl rfl

/-- What no single effect changes, no list of them changes. -/
theorem foldl_take {β : Type} {f : World → β} (h : ∀ w e, f (w.take e) = f w)
    (effects : List Effect) : f (effects.foldl take w) = f w := by
  induction effects generalizing w with
  | nil => rfl
  | cons e effects ih => rw [List.foldl_cons, ih, h]

theorem foldl_take_collaborators (effects : List Effect) :
    (effects.foldl take w).toCollaborators = w.toCollaborators ∨
      (effects.foldl take w).toCollaborators =
        { w.toCollaborators with store := w.store.clear } := by
  induction effects generalizing w with
  | nil => exact .inl rfl
  | cons e effects ih =>
    rw [List.foldl_cons]
    rcases take_collaborators (w := w) e with he | he <;> rcases ih (w := w.take e) with hi | hi
    · exact .inl (hi.trans he)
    · exact .inr (hi.trans (by rw [he]))
    · exact .inr (hi.trans he)
    · exact .inr (hi.trans (by rw [he]; rfl))

@[simp] theorem step_system (f : System → System) : (w.step f).system = f w.system :=
  foldl_take (fun _ => take_system) _

@[simp] theorem step_provided (f : System → System) : (w.step f).provided = w.provided :=
  foldl_take (fun _ => take_provided) _

theorem step_collaborators (f : System → System) :
    (w.step f).toCollaborators = w.toCollaborators ∨
      (w.step f).toCollaborators = { w.toCollaborators with store := w.store.clear } :=
  foldl_take_collaborators _

theorem step_engine (f : System → System) : (w.step f).engine = w.engine := by
  rcases step_collaborators (w := w) f with hc | hc <;> rw [hc]

/-- A provider of its own aside, the collaborators do all work. -/
theorem perform_eq (hp : w.provided = none) (call : Call) :
    w.perform call = ((w.toCollaborators.perform call).1,
      { w with toCollaborators := (w.toCollaborators.perform call).2 }) := by
  cases call <;> simp [perform, hp]

theorem perform_currentSnapshot (w : World) : (w.perform .currentSnapshot).2 = w := by
  obtain ⟨collaborators, system, provided⟩ := w
  cases provided <;> rfl

theorem perform_provided (call : Call) : (w.perform call).2.provided = w.provided := by
  cases call <;> cases hp : w.provided <;> simp [perform, hp]

theorem Run.provided (h : origin.Run es hs w) (hp : origin.provided = none) :
    w.provided = none := by
  induction h with
  | nil => exact hp
  | snoc h hw ih =>
    cases hw with
    | move => rw [step_provided, ih]
    | answer => rw [step_provided, perform_provided, ih]
    | edit => exact ih
    | note => exact ih

/-- The coordinator of a world makes a run of its own. -/
theorem Run.system (h : origin.Run es hs w) : origin.system.Run hs w.system := by
  induction h with
  | nil => exact .nil
  | snoc h hw ih =>
    cases hw with
    | move hm => exact step_system _ ▸ ih.snoc hm
    | answer hm => exact step_system _ ▸ ih.snoc hm
    | edit => exact (List.append_nil _).symm ▸ ih
    | note => exact (List.append_nil _).symm ▸ ih

end World

end LiveEdit.Kernel
