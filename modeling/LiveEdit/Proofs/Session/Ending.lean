import LiveEdit.Session.Plan

/-! What each request can come to, whatever its calls answer. -/
namespace LiveEdit

def Effect.event? : Effect → Option SessionEvent
  | .publish event => some event
  | _ => none

def Effect.audit? : Effect → Option AuditRecord
  | .audit record => some record
  | _ => none

/-- The audit record that goes with an event. -/
def SessionEvent.audit? : SessionEvent → Option AuditRecord
  | .started version => some (.sessionStarted version)
  | .committed version => some (.updatesCommitted version)
  | .ended => some .sessionEnded
  | .disabled operation message => some (.sessionDisabled operation.text message)
  | .breakStateChanged _ | .updatesComputed .. | .discarded _ => none

def eventsOf (effects : List Effect) : List SessionEvent := effects.filterMap Effect.event?

def auditsOf (effects : List Effect) : List AuditRecord := effects.filterMap Effect.audit?

/-- A check for changes reports a fault. -/
def Effect.isCheckReport : Effect → Bool
  | .report .hasChanges _ => true
  | _ => false

/-- What requests with the gate leave behind. -/
def ownEffects (effects : List Effect) : List Effect := effects.filter (!·.isCheckReport)

def OnlyReports (effects : List Effect) : Prop := ∀ e ∈ effects, e.isCheckReport = true

/-- The world learns of one event, and the audit trail gets what goes with it. -/
structure Conclusion.Tells (c : Conclusion) (event : SessionEvent) : Prop where
  events : eventsOf c.effects = [event]
  audits : auditsOf c.effects = event.audit?.toList
  own : ownEffects c.effects = c.effects

/-- What a request reports about a stop of the process, if it reports any. -/
def Request.break? : Request → Option (Option Bool)
  | .enterBreak => some (some true)
  | .exitBreak => some (some false)
  | .capabilitiesChanged => some none
  | _ => none

/-- The violation that a request is without a pending update. -/
def Request.violation? : Request → Option Violation
  | .commit => some .commitWithoutPending
  | .discard => some .discardWithoutPending
  | _ => none

/-- The reply to a request for which there is nothing to do. -/
def Request.idleReply? (s : SessionState) : Request → Option Reply
  | .start => if s = .noSession then none else some .done
  | .enterBreak | .exitBreak | .capabilitiesChanged | .finish =>
    if s.session?.isNone then some .done else none
  | .getUpdates => if s.session?.isNone then some (.updates {}) else none
  | .commit | .discard => if s.isDisabled then some .done else none
  | .hasChanges _ => none

/-- The answer of a coordinator that has nothing to say, as when hot reload is off. -/
def Request.offReply : Request → Reply
  | .hasChanges _ => .changed false
  | .getUpdates => .updates {}
  | _ => .done

theorem Request.offReply_of_idle {r : Request} {s : SessionState} {reply : Reply}
    (h : r.idleReply? s = some reply) : reply = r.offReply := by
  cases r <;> simp_all [Request.idleReply?, Request.offReply]

theorem Request.plan_of_disabled {s : SessionState} (settings : SessionSettings) (r : Request)
    (h : s.isDisabled = true) : r.plan settings s = .reply r.offReply := by
  cases s with
  | disabled reason => cases r <;> rfl
  | _ => cases h

/-- The conclusions of the requests that take the gate, in a given state. -/
inductive Ending (s : SessionState) : Request → Conclusion → Prop
  | idle {r : Request} {reply : Reply} (h : r.idleReply? s = some reply) :
    Ending s r { reply, state := s }
  | violates {r : Request} {v : Violation} {c : Conclusion} (hv : r.violation? = some v)
      (hs : s.isDisabled = false) (hp : s.session?.bind (·.pending) = none)
      (hr : c.reply = .violation v)
      (hc : c.state = .disabled ⟨r.operation, (Fault.protocol v).message⟩)
      (ht : c.Tells (.disabled r.operation (Fault.protocol v).message)) : Ending s r c
  | faults {r : Request} {c : Conclusion} (fault : Fault) (hg : r.takesGate = true)
      (hs : s.isDisabled = false) (hc : c.state = .disabled ⟨r.operation, fault.message⟩)
      (ht : c.Tells (.disabled r.operation fault.message)) : Ending s r c
  | starts {c : Conclusion} (baseline : Snapshot) (engine : EngineSessionId)
      (hs : s = .noSession) (hr : c.reply = .done)
      (hc : c.state = .active { engine, committed := baseline })
      (ht : c.Tells (.started baseline.version)) : Ending s .start c
  | breaks {r : Request} {inBreak : Option Bool} {session : ActiveSession} {c : Conclusion}
      (hb : r.break? = some inBreak) (hs : s = .active session) (hr : c.reply = .done)
      (hc : c.state = .active { session with breakState := session.breakState.apply inBreak })
      (ht : c.Tells (.breakStateChanged (session.breakState.apply inBreak))) : Ending s r c
  | computes {session : ActiveSession} {c : Conclusion} (latest : Snapshot) (update : Update)
      (hs : s = .active session)
      (hr : c.reply = .updates ⟨update.status, update.deltas, update.report latest⟩)
      (hc : c.state =
        if update.status = .ready then .active { session with pending := some latest } else s)
      (ht : c.Tells (.updatesComputed update.status latest.version update.deltas.length
        (update.report latest).length)) : Ending s .getUpdates c
  | commits {session : ActiveSession} {pending : Snapshot} {c : Conclusion}
      (hs : s = .active session) (hp : session.pending = some pending) (hr : c.reply = .done)
      (hc : c.state = .active { session with committed := pending, pending := none })
      (ht : c.Tells (.committed pending.version)) : Ending s .commit c
  | discards {session : ActiveSession} {pending : Snapshot} {c : Conclusion}
      (hs : s = .active session) (hp : session.pending = some pending) (hr : c.reply = .done)
      (hc : c.state = .active { session with pending := none })
      (ht : c.Tells (.discarded pending.version)) : Ending s .discard c
  | finishes {session : ActiveSession} {c : Conclusion} (hs : s = .active session)
      (hr : c.reply = .done) (hc : c.state = .noSession) (ht : c.Tells .ended) :
    Ending s .finish c

namespace Plan

/-- One plan can come to another by the answers to its calls. -/
inductive Leads : Plan → Plan → Prop
  | here (p : Plan) : Leads p p
  | answered {d : Discipline} {call : Call} {resume : Except Fault call.Answer → Plan} {q : Plan}
      (result : Except Fault call.Answer) (h : Leads (resume result) q) :
    Leads (.await d call resume) q

variable {p q : Plan} {d : Discipline} {call : Call} {resume : Except Fault call.Answer → Plan}
  {f g : SessionState → Conclusion}

theorem Leads.answer (h : p.Leads (.await d call resume)) (result : Except Fault call.Answer) :
    p.Leads (resume result) := by
  generalize hq : Plan.await d call resume = q at h
  induction h with
  | here p =>
    subst hq
    exact .answered result (.here _)
  | answered result' _ ih => exact .answered result' (ih hq)

@[simp] theorem leads_conclude : Leads (.conclude f) (.conclude g) ↔ g = f := by
  constructor
  · intro h
    cases h
    rfl
  · rintro rfl
    exact .here _

@[simp] theorem leads_await :
    Leads (.await d call resume) (.conclude g) ↔ ∃ result, Leads (resume result) (.conclude g) := by
  constructor
  · intro h
    cases h with
    | answered result h => exact ⟨result, h⟩
  · rintro ⟨result, h⟩
    exact .answered result h

@[simp] theorem leads_reply {r : Reply} :
    Leads (.reply r) (.conclude g) ↔ g = fun s => { reply := r, state := s } :=
  leads_conclude

/-- Whoever disables hot reload says so once. -/
theorem tells_of_disable {r : Request} {fault : Fault} {reply : Reply} {extra : List Effect}
    (hg : r.takesGate = true) (h : disable r.operation fault reply extra = .conclude g)
    (s : SessionState) (he : eventsOf extra = []) (ha : auditsOf extra = [])
    (ho : ownEffects extra = extra) :
    (g s).reply = reply ∧ (g s).state = .disabled ⟨r.operation, fault.message⟩ ∧
      (g s).Tells (.disabled r.operation fault.message) := by
  cases h
  refine ⟨rfl, rfl, congrArg (_ :: ·) he, congrArg (_ :: ·) ha, ?_⟩
  cases r with
  | hasChanges scope => cases hg
  | _ => exact congrArg (_ :: _ :: _ :: _ :: _ :: _ :: ·) ho

end Plan

variable {settings : SessionSettings} {s : SessionState} {f : SessionState → Conclusion}

theorem Ending.own {r : Request} {c : Conclusion} (h : Ending s r c) :
    ownEffects c.effects = c.effects := by
  cases h with
  | idle => rfl
  | violates _ _ _ _ _ ht => exact ht.own
  | faults _ _ _ _ ht => exact ht.own
  | starts _ _ _ _ _ ht => exact ht.own
  | breaks _ _ _ _ ht => exact ht.own
  | computes _ _ _ _ _ ht => exact ht.own
  | commits _ _ _ _ ht => exact ht.own
  | discards _ _ _ _ ht => exact ht.own
  | finishes _ _ _ ht => exact ht.own

/-- A check for changes asks for the current snapshot only. -/
theorem call_of_leads_hasChanges {scope : Option String} {d : Discipline} {call : Call}
    {resume : Except Fault call.Answer → Plan}
    (h : (s.hasChangesPlan settings scope).Leads (.await d call resume)) :
    call = .currentSnapshot := by
  cases s with
  | active session =>
    cases h with
    | here => rfl
    | answered result h => rcases result with fault | latest <;> cases h
  | _ => cases h

/-- A check for changes waits for one call only. -/
theorem conclude_of_leads_hasChanges {scope : Option String} {d : Discipline} {call : Call}
    {resume : Except Fault call.Answer → Plan}
    (h : (s.hasChangesPlan settings scope).Leads (.await d call resume))
    (result : Except Fault call.Answer) : ∃ f, resume result = .conclude f := by
  cases s with
  | active session =>
    cases h with
    | here => cases result <;> exact ⟨_, rfl⟩
    | answered result h => rcases result with fault | latest <;> cases h
  | _ => cases h

/-- A check for changes leaves the session alone, and only reports. -/
theorem end_of_leads_hasChanges {scope : Option String}
    (h : (s.hasChangesPlan settings scope).Leads (.conclude f)) (s' : SessionState) :
    (f s').state = s' ∧ OnlyReports (f s').effects := by
  cases s with
  | active session =>
    obtain ⟨fault | latest, h⟩ := Plan.leads_await.mp h
    · cases Plan.leads_conclude.mp h
      simp [OnlyReports, Effect.isCheckReport]
    · cases Plan.leads_conclude.mp h
      simp [OnlyReports]
  | _ =>
    cases Plan.leads_reply.mp h
    simp [OnlyReports]

end LiveEdit
