import LiveEdit.Proofs.Kernel.Ledger

/-! The engine's one session is an image of the coordinator's, and so no call fails. -/
namespace LiveEdit.Kernel

/-- The break state as the engine was told of it. -/
def reported? : BreakState → Option Bool
  | .unknown => none
  | .running => some false
  | .broken => some true

/-- The engine's side of a session. -/
def engineSide (session : ActiveSession) (reportDiagnostics : Bool) : EngineSession where
  id := session.engine
  baseline := session.committed.version
  tentative := session.pending.map (·.version)
  inBreak := reported? session.breakState
  reportDiagnostics := reportDiagnostics

def Agrees (reportDiagnostics : Bool) (engine : ChecksumEngine) : SessionState → Prop
  | .noSession => engine.sessions = []
  | .active session => engine.sessions = [engineSide session reportDiagnostics]
  | .disabled _ => engine.sessions.length ≤ 1

/-- After their work the collaborators agree with a session, and the store is as it was. -/
structure Follows (reportDiagnostics : Bool) (c c' : Collaborators) (s : SessionState) : Prop where
  store : c'.store = c.store
  marker : c'.engine.marker = c.engine.marker
  agrees : Agrees reportDiagnostics c'.engine s

variable {c c' : Collaborators} {session : ActiveSession} {pending : Snapshot} {b : Bool}
  {s : SessionState} {e e' : EngineSession} {engine : ChecksumEngine}

theorem length_of_agrees (h : Agrees b engine s) : engine.sessions.length ≤ 1 := by
  cases s with
  | noSession => simp [show engine.sessions = [] from h]
  | active session => simp [show engine.sessions = [engineSide session b] from h]
  | disabled => exact h

theorem reported?_apply (breakState : BreakState) (inBreak : Option Bool) :
    reported? (breakState.apply inBreak) = (inBreak <|> reported? breakState) := by
  cases breakState <;> rcases inBreak with _ | _ | _ <;> rfl

theorem withSession_of_single {α : Type} (h : engine.sessions = [e])
    (act : EngineSession → Except EngineError α × ChecksumEngine) :
    engine.withSession e.id act = act e := by
  have hs : engine.session? e.id = some e := by simp [ChecksumEngine.session?, h]
  simp [ChecksumEngine.withSession, hs]

theorem sessions_put (h : engine.sessions = [e]) (hid : e'.id = e.id) :
    (engine.put e').sessions = [e'] := by
  simp [ChecksumEngine.put, h, hid]

theorem perform_start (h : c.engine.sessions = []) (baseline : Snapshot) :
    ∃ id c', c.perform (.startSession baseline b) = (.ok id, c') ∧
      Follows b c c' (.active { engine := id, committed := baseline }) :=
  ⟨_, _, rfl, rfl, rfl, by simp [Agrees, h, engineSide, reported?]⟩

theorem perform_break (h : c.engine.sessions = [engineSide session b]) (inBreak : Option Bool) :
    ∃ c', c.perform (.reportBreak session.engine inBreak) = (.ok (), c') ∧
      Follows b c c'
        (.active { session with breakState := session.breakState.apply inBreak }) := by
  let told := { engineSide session b with inBreak := inBreak <|> reported? session.breakState }
  refine ⟨{ c with engine := c.engine.put told }, ?_, rfl, rfl, ?_⟩
  · exact congrArg c.answered (withSession_of_single h _)
  · rw [Agrees, engineSide, reported?_apply]
    exact sessions_put h rfl

theorem perform_compute (h : c.engine.sessions = [engineSide session b]) (latest : Snapshot) :
    let update := updateOf c.engine.marker b
      (session.committed.documents.changesTo latest.documents)
    ∃ c', c.perform (.compute session.engine session.committed latest) = (.ok update, c') ∧
      Follows b c c' (if update.status = .ready then .active { session with pending := some latest }
        else .active session) := by
  intro update
  have hw := withSession_of_single h fun s =>
    let update := updateOf c.engine.marker s.reportDiagnostics
      (session.committed.documents.changesTo latest.documents)
    (.ok update, if update.status = .ready then
      c.engine.put { s with tentative := some latest.version } else c.engine)
  by_cases hr : update.status = .ready
  · let computed := { engineSide session b with tentative := some latest.version }
    refine ⟨{ c with engine := c.engine.put computed }, ?_, rfl, rfl, ?_⟩
    · exact congrArg c.answered (hw.trans (congrArg _ (if_pos hr)))
    · rw [if_pos hr]
      exact sessions_put h rfl
  · refine ⟨c, ?_, rfl, rfl, ?_⟩
    · exact congrArg c.answered (hw.trans (congrArg _ (if_neg hr)))
    · rw [if_neg hr]
      exact h

theorem perform_commit (h : c.engine.sessions = [engineSide session b])
    (hp : session.pending = some pending) :
    ∃ c', c.perform (.commit session.engine) = (.ok (), c') ∧
      Follows b c c' (.active { session with committed := pending, pending := none }) := by
  let committed := { engineSide session b with baseline := pending.version, tentative := none }
  have ht : (engineSide session b).tentative = some pending.version := by simp [engineSide, hp]
  have hw : c.engine.commit session.engine = (.ok (), c.engine.put committed) :=
    (withSession_of_single h _).trans (by rw [ht])
  exact ⟨{ c with engine := c.engine.put committed }, congrArg c.answered hw, rfl, rfl,
    sessions_put h rfl⟩

theorem perform_discard (h : c.engine.sessions = [engineSide session b])
    (hp : session.pending = some pending) :
    ∃ c', c.perform (.discard session.engine) = (.ok (), c') ∧
      Follows b c c' (.active { session with pending := none }) := by
  let discarded := { engineSide session b with tentative := none }
  have ht : (engineSide session b).tentative = some pending.version := by simp [engineSide, hp]
  have hw : c.engine.discard session.engine = (.ok (), c.engine.put discarded) :=
    (withSession_of_single h _).trans (by rw [ht])
  exact ⟨{ c with engine := c.engine.put discarded }, congrArg c.answered hw, rfl, rfl,
    sessions_put h rfl⟩

theorem perform_close (h : c.engine.sessions = [engineSide session b]) :
    ∃ c', c.perform (.closeSession session.engine) = (.ok (), c') ∧
      Follows b c c' .noSession := by
  refine ⟨_, congrArg c.answered (withSession_of_single h _), rfl, rfl, ?_⟩
  simp [Agrees, h, engineSide]

/-- What a request with the gate comes to when its calls do their work. -/
inductive Served (b : Bool) (fetched : Snapshot → Prop) (marker : Option String)
    (s : SessionState) : Request → Conclusion → Prop
  | idle {r : Request} {reply : Reply} (h : r.idleReply? s = some reply) :
    Served b fetched marker s r { reply, state := s }
  | violates {r : Request} {v : Violation} {k : Conclusion} (hv : r.violation? = some v)
      (hs : s.isDisabled = false) (hr : k.reply = .violation v) (hc : k.state.isDisabled = true) :
    Served b fetched marker s r k
  | starts {k : Conclusion} (baseline : Snapshot) (id : EngineSessionId) (hs : s = .noSession)
      (hf : fetched baseline) (hr : k.reply = .done)
      (hc : k.state = .active { engine := id, committed := baseline }) :
    Served b fetched marker s .start k
  | breaks {r : Request} {inBreak : Option Bool} {session : ActiveSession} {k : Conclusion}
      (hb : r.break? = some inBreak) (hs : s = .active session) (hr : k.reply = .done)
      (hc : k.state = .active { session with breakState := session.breakState.apply inBreak }) :
    Served b fetched marker s r k
  | computes {session : ActiveSession} {k : Conclusion} (latest : Snapshot) (update : Update)
      (hs : s = .active session) (hf : fetched latest)
      (hu : update = updateOf marker b (session.committed.documents.changesTo latest.documents))
      (hr : k.reply = .updates ⟨update.status, update.deltas, update.report latest⟩)
      (hc : k.state = if update.status = .ready then
        .active { session with pending := some latest } else .active session) :
    Served b fetched marker s .getUpdates k
  | commits {session : ActiveSession} {pending : Snapshot} {k : Conclusion}
      (hs : s = .active session) (hp : session.pending = some pending) (hr : k.reply = .done)
      (hc : k.state = .active { session with committed := pending, pending := none }) :
    Served b fetched marker s .commit k
  | discards {session : ActiveSession} {k : Conclusion} (hs : s = .active session)
      (hr : k.reply = .done) (hc : k.state = .active { session with pending := none }) :
    Served b fetched marker s .discard k
  | finishes {session : ActiveSession} {k : Conclusion} (hs : s = .active session)
      (hr : k.reply = .done) (hc : k.state = .noSession) : Served b fetched marker s .finish k

namespace Ledger

variable {γ : Type} {L : Ledger γ} {g : γ} {r : Request}

/-- The snapshot was the store's at a time when the ledger was as it is. -/
def Fetched (L : Ledger γ) (g : γ) (s : SessionState) (snapshot : Snapshot) : Prop :=
  ∃ c, L.Holds g s c ∧ c.store.current = snapshot

/-- The engine's session goes with the coordinator's, and what is served keeps the ledger. -/
structure KeptByServing (L : Ledger γ) (b : Bool) : Prop where
  agrees {g : γ} {s : SessionState} {c : Collaborators} (h : L.Holds g s c) : Agrees b c.engine s
  served {g : γ} {s : SessionState} {r : Request} {k : Conclusion} {c c' : Collaborators}
    (h : L.Holds g s c) (hk : Served b (L.Fetched g s) c.engine.marker s r k)
    (hc : Follows b c c' k.state) :
    L.Holds (L.note g ⟨r, k.reply, s, k.state, k.effects⟩) k.state c'

theorem keeps_next {call : Call} {next : call.Answer → Plan} {a : call.Answer}
    (h : c.perform call = (.ok a, c')) (hk : L.Keeps r g s (next a) c') :
    ∃ a, (c.perform call).1 = .ok a ∧ L.Keeps r g s (next a) (c.perform call).2 :=
  ⟨a, by rw [h], by rw [h]; exact hk⟩

theorem keeps_idle (hL : L.KeptByServing b) (h : L.Holds g s c) {reply : Reply}
    (hr : r.idleReply? s = some reply) : L.Keeps r g s (.reply reply) c :=
  hL.served h (.idle hr) ⟨rfl, rfl, hL.agrees h⟩

theorem keeps_violation (hL : L.KeptByServing b) (h : L.Holds g s c) {v : Violation}
    (hv : r.violation? = some v) (hs : s.isDisabled = false) :
    L.Keeps r g s (.disable r.operation (.protocol v) (.violation v)) c :=
  hL.served h (.violates hv hs rfl rfl) ⟨rfl, rfl, length_of_agrees (hL.agrees h)⟩

theorem keeps_start {settings : SessionSettings} (hL : L.KeptByServing settings.reportDiagnostics)
    (h : L.Holds g s c) : L.Keeps .start g s (s.startPlan settings) c := by
  cases s with
  | noSession =>
    refine ⟨h, fun c₁ h₁ => ⟨_, rfl, h₁, fun c₂ h₂ => ?_⟩⟩
    obtain ⟨id, c₃, hperf, hc⟩ := perform_start (hL.agrees h₂) c₁.store.current
    refine keeps_next hperf ?_
    exact hL.served h₂ (.starts _ id rfl ⟨c₁, h₁, rfl⟩ rfl rfl) hc
  | _ => exact keeps_idle hL h rfl

theorem keeps_break (hL : L.KeptByServing b) (h : L.Holds g s c) {inBreak : Option Bool}
    (hb : r.break? = some inBreak) : L.Keeps r g s (s.breakPlan r.operation inBreak) c := by
  cases s with
  | active session =>
    refine ⟨h, fun c₁ h₁ => ?_⟩
    obtain ⟨c₂, hperf, hc⟩ := perform_break (hL.agrees h₁) inBreak
    refine keeps_next hperf ?_
    exact hL.served h₁ (.breaks hb rfl rfl rfl) hc
  | _ =>
    refine keeps_idle hL h ?_
    cases r <;> simp_all [Request.break?, Request.idleReply?, SessionState.session?]

theorem keeps_getUpdates (hL : L.KeptByServing b) (h : L.Holds g s c) :
    L.Keeps .getUpdates g s s.getUpdatesPlan c := by
  cases s with
  | active session =>
    refine ⟨h, fun c₁ h₁ => ⟨_, rfl, h₁, fun c₂ h₂ => ?_⟩⟩
    obtain ⟨c₃, hperf, hc⟩ := perform_compute (hL.agrees h₂) c₁.store.current
    refine keeps_next hperf ?_
    exact hL.served h₂ (.computes _ _ rfl ⟨c₁, h₁, rfl⟩ rfl rfl rfl) hc
  | _ => exact keeps_idle hL h rfl

theorem keeps_commit (hL : L.KeptByServing b) (h : L.Holds g s c) :
    L.Keeps .commit g s s.commitPlan c := by
  cases s with
  | noSession => exact keeps_violation hL h rfl rfl
  | active session =>
    rw [SessionState.commitPlan]
    cases hp : session.pending with
    | none => exact keeps_violation hL h rfl rfl
    | some pending =>
      refine ⟨h, fun c₁ h₁ => ?_⟩
      obtain ⟨c₂, hperf, hc⟩ := perform_commit (hL.agrees h₁) hp
      have hnext : SessionState.active { session with
          committed := session.pending.getD session.committed, pending := none } =
          .active { session with committed := pending, pending := none } := by
        simp [hp]
      rw [← hnext] at hc
      refine keeps_next hperf ?_
      exact hL.served h₁ (.commits rfl hp rfl hnext) hc
  | disabled reason => exact keeps_idle hL h rfl

theorem keeps_discard (hL : L.KeptByServing b) (h : L.Holds g s c) :
    L.Keeps .discard g s s.discardPlan c := by
  cases s with
  | noSession => exact keeps_violation hL h rfl rfl
  | active session =>
    rw [SessionState.discardPlan]
    cases hp : session.pending with
    | none => exact keeps_violation hL h rfl rfl
    | some pending =>
      refine ⟨h, fun c₁ h₁ => ?_⟩
      obtain ⟨c₂, hperf, hc⟩ := perform_discard (hL.agrees h₁) hp
      refine keeps_next hperf ?_
      exact hL.served h₁ (.discards rfl rfl rfl) hc
  | disabled reason => exact keeps_idle hL h rfl

theorem keeps_finish (hL : L.KeptByServing b) (h : L.Holds g s c) :
    L.Keeps .finish g s s.finishPlan c := by
  cases s with
  | active session =>
    refine ⟨h, fun c₁ h₁ => ?_⟩
    obtain ⟨c₂, hperf, hc⟩ := perform_close (hL.agrees h₁)
    refine keeps_next hperf ?_
    exact hL.served h₁ (.finishes rfl rfl rfl) hc
  | _ => exact keeps_idle hL h rfl

theorem keeps_plan {settings : SessionSettings} (hL : L.KeptByServing settings.reportDiagnostics)
    (hg : r.takesGate = true) (h : L.Holds g s c) : L.Keeps r g s (r.plan settings s) c := by
  cases r with
  | start => exact keeps_start hL h
  | enterBreak => exact keeps_break hL h rfl
  | exitBreak => exact keeps_break hL h rfl
  | capabilitiesChanged => exact keeps_break hL h rfl
  | hasChanges scope => cases hg
  | getUpdates => exact keeps_getUpdates hL h
  | commit => exact keeps_commit hL h
  | discard => exact keeps_discard hL h
  | finish => exact keeps_finish hL h

end Ledger

end LiveEdit.Kernel
