import LiveEdit.Proofs.Kernel.Serving
import LiveEdit.Proofs.Session.Disabled

/-! A coordinator with its checksum engine, under a provider that answers what it likes. -/
namespace LiveEdit.Kernel

/-- A coordinator and its engine. Snapshots come from anywhere. -/
structure OpenWorld where
  system : System
  engine : ChecksumEngine

namespace OpenWorld

/-- Before the first request, with an engine that has no sessions. -/
structure IsFresh (w : OpenWorld) : Prop where
  system : w.system.IsFresh
  state : w.system.state = .noSession
  sessions : w.engine.sessions = []

inductive Step (w : OpenWorld) : List Happening → OpenWorld → Prop
  | move {m : Move} {sys : System} (hm : w.system.Step m sys) (ha : ∀ i a, m ≠ .answer i a) :
    Step w (m.happenings w.system sys) { w with system := sys }
  | provide {i : Nat} {result : Except Fault Snapshot} {sys : System}
      (hm : w.system.Step (.answer i ⟨.currentSnapshot, result⟩) sys) :
    Step w ((Move.answer i ⟨.currentSnapshot, result⟩).happenings w.system sys)
      { w with system := sys }
  /-- The engine does its work, next to any store, and the task goes on with the answer. -/
  | work {i : Nat} {call : Call} {sys : System} (c : Collaborators) (hc : c.engine = w.engine)
      (hm : w.system.Step (.answer i ⟨call, (c.perform call).1⟩) sys) :
    Step w ((Move.answer i ⟨call, (c.perform call).1⟩).happenings w.system sys)
      ⟨sys, (c.perform call).2.engine⟩

/-- A run from an origin, with the log of the requests. -/
inductive Run (origin : OpenWorld) : List Happening → OpenWorld → Prop
  | nil : Run origin [] origin
  | snoc {hs hs' : List Happening} {w w' : OpenWorld} (h : Run origin hs w)
      (hw : w.Step hs' w') : Run origin (hs ++ hs') w'

variable {origin w w' v : OpenWorld} {hs hs' : List Happening} {session : ActiveSession}

theorem Run.trans (h : origin.Run hs w) (h' : w.Run hs' w') : origin.Run (hs ++ hs') w' := by
  induction h' with
  | nil => simpa using h
  | snoc _ hw ih => simpa only [← List.append_assoc] using ih.snoc hw

/-- The coordinator makes a step of its own. -/
theorem Step.system (hw : w.Step hs w') :
    ∃ m, w.system.Step m w'.system ∧ hs = m.happenings w.system w'.system := by
  cases hw with
  | move hm => exact ⟨_, hm, rfl⟩
  | provide hm => exact ⟨_, hm, rfl⟩
  | work c hc hm => exact ⟨_, hm, rfl⟩

theorem Run.system (h : origin.Run hs w) : origin.system.Run hs w.system := by
  induction h with
  | nil => exact .nil
  | snoc h hw ih =>
    obtain ⟨m, hm, rfl⟩ := hw.system
    exact ih.snoc hm

end OpenWorld

/-- The coordinator agrees with its engine; nothing else is noted. -/
def accord (b : Bool) : Ledger Unit where
  note _ _ := ()
  Holds _ s c := Agrees b c.engine s

theorem accord_kept (b : Bool) : (accord b).KeptByServing b where
  agrees h := h
  served _ _ hc := hc.agrees

theorem accord_sound (settings : SessionSettings) :
    (accord settings.reportDiagnostics).Sound settings fun _ => True where
  serves hg h := Ledger.keeps_plan (accord_kept _) hg h
  edits _ h := h
  clears h := h
  cancelled _ _ _ := rfl
  checked _ _ _ _ _ := rfl

theorem accord_congr {b : Bool} {sys : System} {c c' : Collaborators}
    (h : (accord b).Sustains () sys c) (hc : c'.engine = c.engine) :
    (accord b).Sustains () sys c' where
  now := by
    have hnow : Agrees b c'.engine sys.state := by
      rw [hc]
      exact h.now
    exact hnow
  inCall := h.inCall

/-- When the provider fails, whoever waited for it goes on in agreement, or hot reload is off. -/
theorem accord_of_failure {sys : System} {c : Collaborators} {i : Nat} {t : Task} {d : Discipline}
    {resume : Except Fault Snapshot → Plan} {fault : Fault} (ho : sys.Orderly) (hp : sys.Planned)
    (h : (accord sys.settings.reportDiagnostics).Sustains () sys c) (ht : sys.task? i = some t)
    (hin : t.position = .inCall d .currentSnapshot resume) :
    (accord sys.settings.reportDiagnostics).Sustains () (sys.arrive i (resume (.error fault))) c := by
  have hc : sys.Comes i t (.answer i ⟨.currentSnapshot, .error fault⟩) (resume (.error fault)) :=
    .answer hin _
  refine Ledger.sustains_arrive (accord_sound _) ho hp ht hc h (fun hg => ?_) fun _ => h.now
  have hcall := (hp ht hin).awaiting hg
  obtain ⟨f, hf⟩ := conclude_of_afterFault t.request fault .currentSnapshot
  have hend : resume (.error fault) = .conclude f := (hcall.fault fault).trans hf
  rw [hend]
  have hagrees : Agrees sys.settings.reportDiagnostics c.engine (f sys.state).state := by
    rw [hcall.disables hend]
    exact length_of_agrees h.now
  exact hagrees

namespace OpenWorld

variable {origin w w' v : OpenWorld} {hs hs' : List Happening} {session : ActiveSession}

/-- The coordinator agrees with its engine, and whoever is in a call will keep it so. -/
def Accords (w : OpenWorld) : Prop :=
  ∀ c : Collaborators, c.engine = w.engine →
    (accord w.system.settings.reportDiagnostics).Sustains () w.system c

theorem accords_of_isFresh (h : w.IsFresh) : w.Accords := by
  refine fun c hc => ⟨?_, fun ht => ?_⟩
  · have hagrees : Agrees w.system.settings.reportDiagnostics c.engine w.system.state := by
      rw [h.state]
      exact (congrArg ChecksumEngine.sessions hc).trans h.sessions
    exact hagrees
  · simp [System.task?, h.system.tasks] at ht

theorem accords_step (hw : w.Step hs w') (ho : w.system.Orderly) (hp : w.system.Planned)
    (h : w.Accords) : w'.Accords := by
  have hL := accord_sound w.system.settings
  have hsettings : w'.system.settings = w.system.settings := by
    obtain ⟨m, hm, -⟩ := hw.system
    exact System.settings_step hm
  intro c hc
  rw [hsettings]
  cases hw with
  | move hm ha => exact Ledger.sustains_move hL ho hp (h c hc) hm ha
  | @provide i result sys hm =>
    cases result with
    | ok latest =>
      -- what the provider answers might as well be the current snapshot of a store
      let store : Store :=
        { c.store with current := latest, documents := latest.documents, in_step := rfl }
      exact accord_congr (Ledger.sustains_answer hL ho hp (h ⟨store, c.engine⟩ hc) hm) rfl
    | error fault =>
      cases hm with
      | arrive ht hcomes =>
        cases hcomes with
        | answer hin => exact accord_of_failure ho hp (h c hc) ht hin
  | work c₀ hc₀ hm => exact accord_congr (Ledger.sustains_answer hL ho hp (h c₀ hc₀) hm) hc

theorem Run.accords (h : origin.Run hs w) (ho : origin.IsFresh) : w.Accords := by
  induction h with
  | nil => exact accords_of_isFresh ho
  | snoc h hw ih => exact accords_step hw (h.system.orderly ho.system) (h.system.planned ho.system) ih

/-- In a session the engine knows of the process what the coordinator knows. -/
theorem Run.breakState? (h : origin.Run hs w) (ho : origin.IsFresh)
    (hs : w.system.state = .active session) :
    w.engine.breakState? session.engine = reported? session.breakState := by
  have hagrees : Agrees w.system.settings.reportDiagnostics w.engine w.system.state :=
    (h.accords ho ⟨.new 0, w.engine⟩ rfl).now
  rw [hs] at hagrees
  have hsession : w.engine.sessions = [engineSide session w.system.settings.reportDiagnostics] :=
    hagrees
  simp [ChecksumEngine.breakState?, ChecksumEngine.session?, hsession, engineSide]

/-- Once hot reload is off the engine has no work to do. -/
theorem engine_step (hw : w.Step hs w') (hp : w.system.Planned)
    (hd : w.system.state.isDisabled = true) : w'.engine = w.engine := by
  cases hw with
  | move => rfl
  | provide => rfl
  | work c hc hm =>
    cases hm with
    | arrive ht hcomes =>
      cases hcomes with
      | answer hin =>
        have hg := System.no_gate_of_disabled hp hd ht hin
        cases System.call_of_no_gate (hp ht hin) hg
        exact hc

theorem Run.engine_stays (h : origin.Run hs w) (ho : origin.IsFresh)
    (hd : w.system.state.isDisabled = true) (h' : w.Run hs' v) : v.engine = w.engine := by
  induction h' with
  | nil => rfl
  | snoc h' hw ih =>
    have hoff := h.system.stays_disabled ho.system hd h'.system
    exact (engine_step hw ((h.trans h').system.planned ho.system) (hoff ▸ hd)).trans ih

end OpenWorld

/-- A world, seen as its coordinator with the engine. -/
def World.opened (w : World) : OpenWorld := ⟨w.system, w.engine⟩

/-- What happens in a world can happen under any provider. -/
theorem World.Run.opened {origin w : World} {es : List StoreEdit} {hs : List Happening}
    (h : origin.Run es hs w) (hp : origin.provided = none) : origin.opened.Run hs w.opened := by
  induction h with
  | nil => exact .nil
  | @snoc es es' hs hs' w w' h hw ih =>
    cases hw with
    | @move m sys hm ha =>
      have hw' : World.opened (w.step fun _ => sys) = ⟨sys, w.engine⟩ := by
        rw [World.opened, step_system, step_engine]
      exact hw' ▸ ih.snoc (.move hm ha)
    | @answer i call sys hm =>
      have hprov := h.provided hp
      have hw' : World.opened ((w.perform call).2.step fun _ => sys) =
          ⟨sys, (w.toCollaborators.perform call).2.engine⟩ := by
        rw [World.opened, step_system, step_engine, perform_eq hprov]
      rw [perform_eq hprov] at hm
      rw [hw', perform_eq hprov]
      exact ih.snoc (.work w.toCollaborators rfl hm)
    | edit => exact (List.append_nil _).symm ▸ ih
    | note => exact (List.append_nil _).symm ▸ ih

end LiveEdit.Kernel
