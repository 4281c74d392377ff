import LiveEdit.Proofs.Session.Ending
import LiveEdit.Proofs.Session.Run

/-! The calls that requests wait for, and what each of their answers comes to. -/
namespace LiveEdit

open Plan

/-- Whether a request's call, once started, runs to its end. -/
def Request.settles : Request → Bool
  | .commit | .discard | .finish => true
  | _ => false

/-- What is left to do once a call has failed. Only the caller who asks for updates is told. -/
def Request.afterFault (r : Request) (fault : Fault) (call : Call) : Plan :=
  match r, call with
  | .getUpdates, .currentSnapshot => disable r.operation fault (.updates {})
  | .getUpdates, _ =>
    disable r.operation fault
      (.updates
        { status := .restartRequired, diagnostics := [internalErrorDiagnostic fault.message] })
      [.count (.updates .restartRequired)]
  | _, _ => disable r.operation fault .done

/-- The snapshot that a call tells the engine to start at or to go to. -/
def Call.target? : Call → Option Snapshot
  | .startSession baseline _ => some baseline
  | .compute _ _ latest => some latest
  | _ => none

/-- What a request comes to when its last call succeeds. -/
inductive Success (s : SessionState) : Request → Answered → Conclusion → Prop
  | starts {c : Conclusion} (baseline : Snapshot) (reports : Bool) (engine : EngineSessionId)
      (hs : s = .noSession) (hr : c.reply = .done)
      (hc : c.state = .active { engine, committed := baseline })
      (ht : c.Tells (.started baseline.version)) :
    Success s .start ⟨.startSession baseline reports, .ok engine⟩ c
  | breaks {r : Request} {inBreak : Option Bool} {session : ActiveSession} {c : Conclusion}
      (hb : r.break? = some inBreak) (hs : s = .active session) (hr : c.reply = .done)
      (hc : c.state = .active { session with breakState := session.breakState.apply inBreak })
      (ht : c.Tells (.breakStateChanged (session.breakState.apply inBreak))) :
    Success s r ⟨.reportBreak session.engine inBreak, .ok ()⟩ c
  | computes {session : ActiveSession} {c : Conclusion} (latest : Snapshot) (update : Update)
      (hs : s = .active session)
      (hr : c.reply = .updates ⟨update.status, update.deltas, update.report latest⟩)
      (hc : c.state =
        if update.status = .ready then .active { session with pending := some latest } else s)
      (ht : c.Tells (.updatesComputed update.status latest.version update.deltas.length
        (update.report latest).length)) :
    Success s .getUpdates ⟨.compute session.engine session.committed latest, .ok update⟩ c
  | commits {session : ActiveSession} {pending : Snapshot} {c : Conclusion}
      (hs : s = .active session) (hp : session.pending = some pending) (hr : c.reply = .done)
      (hc : c.state = .active { session with committed := pending, pending := none })
      (ht : c.Tells (.committed pending.version)) :
    Success s .commit ⟨.commit session.engine, .ok ()⟩ c
  | discards {session : ActiveSession} {pending : Snapshot} {c : Conclusion}
      (hs : s = .active session) (hp : session.pending = some pending) (hr : c.reply = .done)
      (hc : c.state = .active { session with pending := none })
      (ht : c.Tells (.discarded pending.version)) :
    Success s .discard ⟨.discard session.engine, .ok ()⟩ c
  | finishes {session : ActiveSession} {c : Conclusion} (hs : s = .active session)
      (hr : c.reply = .done) (hc : c.state = .noSession) (ht : c.Tells .ended) :
    Success s .finish ⟨.closeSession session.engine, .ok ()⟩ c

/-- A call that a request waits for: how it is waited for, and what its answers come to. -/
structure Awaiting (s : SessionState) (r : Request) (d : Discipline) (call : Call)
    (resume : Except Fault call.Answer → Plan) : Prop where
  discipline : d = if r.settles then .settled else .interruptible
  isOn : s.isDisabled = false
  fault (fault : Fault) : resume (.error fault) = r.afterFault fault call
  success {a : call.Answer} {f : SessionState → Conclusion} (h : resume (.ok a) = .conclude f) :
    Success s r ⟨call, .ok a⟩ (f s)
  goesOn {a : call.Answer} {d' : Discipline} {call' : Call}
    {resume' : Except Fault call'.Answer → Plan} (h : resume (.ok a) = .await d' call' resume') :
    r.settles = false ∧ ∃ latest, (⟨call, .ok a⟩ : Answered) = ⟨.currentSnapshot, .ok latest⟩ ∧
      call'.target? = some latest

namespace Plan

variable {p : Plan} {d d' : Discipline} {call call' : Call}
  {resume' : Except Fault call'.Answer → Plan} {f : SessionState → Conclusion}

theorem await_of_leads {operation : Operation} {r : Reply} {next : call.Answer → Plan}
    (h : Leads (awaitOrDisable operation d call r next) (.await d' call' resume')) :
    awaitOrDisable operation d call r next = .await d' call' resume' ∨
      ∃ answer, Leads (next answer) (.await d' call' resume') := by
  cases h with
  | here => exact .inl rfl
  | answered result h =>
    cases result with
    | ok answer => exact .inr ⟨answer, h⟩
    | error fault => cases h

/-- A plan is at its end from the start, or a call's answer brings it there. -/
theorem last_of_leads (h : p.Leads (.conclude f)) : p = .conclude f ∨
    ∃ d call resume result, p.Leads (.await d call resume) ∧ resume result = .conclude f := by
  generalize hq : Plan.conclude f = q at h
  induction h with
  | here p => exact .inl rfl
  | @answered d call resume q result h ih =>
    right
    rcases ih hq with hend | ⟨d', call', resume', result', hleads, hend⟩
    · exact ⟨d, call, resume, result, .here _, hend⟩
    · exact ⟨d', call', resume', result', .answered result hleads, hend⟩

end Plan

variable {settings : SessionSettings} {s : SessionState} {f : SessionState → Conclusion}
  {d : Discipline} {call : Call} {resume : Except Fault call.Answer → Plan} {r : Request}

theorem awaiting_start (h : (s.startPlan settings).Leads (.await d call resume)) :
    Awaiting s .start d call resume := by
  cases s with
  | noSession =>
    rcases await_of_leads h with heq | ⟨baseline, h⟩
    · cases heq
      refine ⟨rfl, rfl, fun _ => rfl, nofun, fun h => ⟨rfl, ?_⟩⟩
      cases h
      exact ⟨_, rfl, rfl⟩
    · rcases await_of_leads h with heq | ⟨engine, h⟩
      · cases heq
        refine ⟨rfl, rfl, fun _ => rfl, fun h => ?_, nofun⟩
        cases h
        exact .starts _ _ _ rfl rfl rfl ⟨rfl, rfl, rfl⟩
      · cases h
  | _ => cases h

theorem awaiting_break {inBreak : Option Bool} (hb : r.break? = some inBreak)
    (h : (s.breakPlan r.operation inBreak).Leads (.await d call resume)) :
    Awaiting s r d call resume := by
  have hsettles : r.settles = false := by cases r <;> simp_all [Request.break?, Request.settles]
  cases s with
  | active session =>
    rcases await_of_leads h with heq | ⟨answer, h⟩
    · cases heq
      refine ⟨by simp [hsettles], rfl, fun _ => ?_, fun h => ?_, nofun⟩
      · cases r <;> first | rfl | cases hb
      · cases h
        exact .breaks hb rfl rfl rfl ⟨rfl, rfl, rfl⟩
    · cases h
  | _ => cases h

theorem awaiting_getUpdates (h : s.getUpdatesPlan.Leads (.await d call resume)) :
    Awaiting s .getUpdates d call resume := by
  cases s with
  | active session =>
    rcases await_of_leads h with heq | ⟨latest, h⟩
    · cases heq
      refine ⟨rfl, rfl, fun _ => rfl, nofun, fun h => ⟨rfl, ?_⟩⟩
      cases h
      exact ⟨_, rfl, rfl⟩
    · cases h with
      | here =>
        refine ⟨rfl, rfl, fun _ => rfl, fun h => ?_, nofun⟩
        cases h
        exact .computes _ _ rfl rfl rfl ⟨rfl, rfl, rfl⟩
      | answered result h => rcases result with fault | update <;> cases h
  | _ => cases h

theorem awaiting_commit (h : s.commitPlan.Leads (.await d call resume)) :
    Awaiting s .commit d call resume := by
  cases s with
  | active session =>
    rw [SessionState.commitPlan] at h
    cases hp : session.pending with
    | none =>
      rw [hp] at h
      cases h
    | some pending =>
      rw [hp] at h
      rcases await_of_leads h with heq | ⟨answer, h⟩
      · cases heq
        refine ⟨rfl, rfl, fun _ => rfl, fun h => ?_, nofun⟩
        cases h
        exact .commits rfl hp rfl (by simp [SessionState.modifySession, hp]) ⟨rfl, rfl, rfl⟩
      · cases h
  | _ => cases h

theorem awaiting_discard (h : s.discardPlan.Leads (.await d call resume)) :
    Awaiting s .discard d call resume := by
  cases s with
  | active session =>
    rw [SessionState.discardPlan] at h
    cases hp : session.pending with
    | none =>
      rw [hp] at h
      cases h
    | some pending =>
      rw [hp] at h
      rcases await_of_leads h with heq | ⟨answer, h⟩
      · cases heq
        refine ⟨rfl, rfl, fun _ => rfl, fun h => ?_, nofun⟩
        cases h
        exact .discards rfl hp rfl rfl ⟨rfl, rfl, rfl⟩
      · cases h
  | _ => cases h

theorem awaiting_finish (h : s.finishPlan.Leads (.await d call resume)) :
    Awaiting s .finish d call resume := by
  cases s with
  | active session =>
    rcases await_of_leads h with heq | ⟨answer, h⟩
    · cases heq
      refine ⟨rfl, rfl, fun _ => rfl, fun h => ?_, nofun⟩
      cases h
      exact .finishes rfl rfl rfl ⟨rfl, rfl, rfl⟩
    · cases h
  | _ => cases h

/-- Whatever call a request with the gate waits for is one of those it makes. -/
theorem awaiting_of_leads (hg : r.takesGate = true)
    (h : (r.plan settings s).Leads (.await d call resume)) : Awaiting s r d call resume := by
  cases r with
  | start => exact awaiting_start h
  | enterBreak => exact awaiting_break rfl h
  | exitBreak => exact awaiting_break rfl h
  | capabilitiesChanged => exact awaiting_break rfl h
  | hasChanges scope => cases hg
  | getUpdates => exact awaiting_getUpdates h
  | commit => exact awaiting_commit h
  | discard => exact awaiting_discard h
  | finish => exact awaiting_finish h

/-- A request that waits for no call has nothing to do, or is refused. -/
theorem conclude_of_turn (hg : r.takesGate = true) (h : r.plan settings s = .conclude f) :
    (∃ reply, r.idleReply? s = some reply ∧ f = fun s => { reply, state := s }) ∨
    ∃ v, r.violation? = some v ∧ s.isDisabled = false ∧ s.session?.bind (·.pending) = none ∧
      disable r.operation (.protocol v) (.violation v) = .conclude f := by
  cases r with
  | hasChanges scope => cases hg
  | commit =>
    cases s with
    | noSession => exact .inr ⟨_, rfl, rfl, rfl, h⟩
    | active session =>
      cases hp : session.pending with
      | none =>
        simp only [Request.plan, SessionState.commitPlan, hp] at h
        exact .inr ⟨_, rfl, rfl, hp, h⟩
      | some pending =>
        simp only [Request.plan, SessionState.commitPlan, hp] at h
        cases h
    | disabled reason =>
      cases h
      exact .inl ⟨_, rfl, rfl⟩
  | discard =>
    cases s with
    | noSession => exact .inr ⟨_, rfl, rfl, rfl, h⟩
    | active session =>
      cases hp : session.pending with
      | none =>
        simp only [Request.plan, SessionState.discardPlan, hp] at h
        exact .inr ⟨_, rfl, rfl, hp, h⟩
      | some pending =>
        simp only [Request.plan, SessionState.discardPlan, hp] at h
        cases h
    | disabled reason =>
      cases h
      exact .inl ⟨_, rfl, rfl⟩
  | _ =>
    cases s <;> cases h <;> exact .inl ⟨_, rfl, rfl⟩

/-- Without a pending update there is nothing to commit or to discard. -/
theorem plan_of_violation {v : Violation} (settings : SessionSettings)
    (hv : r.violation? = some v) (hs : s.isDisabled = false)
    (hp : s.session?.bind (·.pending) = none) :
    r.plan settings s = disable r.operation (.protocol v) (.violation v) := by
  cases s with
  | noSession => cases r <;> cases hv <;> rfl
  | active session =>
    replace hp : session.pending = none := hp
    cases r <;> cases hv
    · simp only [Request.plan, SessionState.commitPlan, hp, Request.operation]
    · simp only [Request.plan, SessionState.discardPlan, hp, Request.operation]
  | disabled reason => cases hs

theorem Success.ending {a : Answered} {c : Conclusion} (h : Success s r a c) : Ending s r c := by
  cases h with
  | starts baseline _ engine hs hr hc ht => exact .starts baseline engine hs hr hc ht
  | breaks hb hs hr hc ht => exact .breaks hb hs hr hc ht
  | computes latest update hs hr hc ht => exact .computes latest update hs hr hc ht
  | commits hs hp hr hc ht => exact .commits hs hp hr hc ht
  | discards hs hp hr hc ht => exact .discards hs hp hr hc ht
  | finishes hs hr hc ht => exact .finishes hs hr hc ht

theorem afterFault_eq (r : Request) (fault : Fault) (call : Call) : ∃ reply extra,
    r.afterFault fault call = disable r.operation fault reply extra ∧ eventsOf extra = [] ∧
      auditsOf extra = [] ∧ ownEffects extra = extra := by
  cases r with
  | getUpdates => cases call <;> exact ⟨_, _, rfl, rfl, rfl, rfl⟩
  | _ => exact ⟨_, _, rfl, rfl, rfl, rfl⟩

theorem conclude_of_afterFault (r : Request) (fault : Fault) (call : Call) :
    ∃ f, r.afterFault fault call = .conclude f := by
  obtain ⟨reply, extra, heq, -⟩ := afterFault_eq r fault call
  exact ⟨_, heq⟩

/-- Only the current snapshot brings a request to another call, and the call is about it. -/
theorem Awaiting.await (h : Awaiting s r d call resume) {result : Except Fault call.Answer}
    {d' : Discipline} {call' : Call} {resume' : Except Fault call'.Answer → Plan}
    (hq : resume result = .await d' call' resume') :
    r.settles = false ∧ ∃ latest, (⟨call, result⟩ : Answered) = ⟨.currentSnapshot, .ok latest⟩ ∧
      call'.target? = some latest := by
  cases result with
  | ok a => exact h.goesOn hq
  | error fault =>
    obtain ⟨f, hf⟩ := conclude_of_afterFault r fault call
    rw [h.fault, hf] at hq
    cases hq

/-- Once a call that settles its request is answered, the request is at its end. -/
theorem Awaiting.concludes (h : Awaiting s r d call resume) (hr : r.settles = true)
    (result : Except Fault call.Answer) : ∃ f, resume result = .conclude f := by
  cases hq : resume result with
  | conclude f => exact ⟨f, rfl⟩
  | await d' call' resume' => cases (h.await hq).1.symm.trans hr

theorem reply_of_afterFault {fault : Fault} (h : r.afterFault fault call = .conclude f) :
    (f s).reply = .done ∨ ∃ u, (f s).reply = .updates u := by
  cases r with
  | getUpdates => cases call <;> cases h <;> exact .inr ⟨_, rfl⟩
  | _ =>
    cases h
    exact .inl rfl

theorem Success.reply {a : Answered} {c : Conclusion} (h : Success s r a c) :
    c.reply = .done ∨ ∃ u, c.reply = .updates u := by
  cases h with
  | computes latest update hs hr => exact .inr ⟨_, hr⟩
  | starts _ _ _ _ hr => exact .inl hr
  | breaks _ _ hr => exact .inl hr
  | commits _ _ hr => exact .inl hr
  | discards _ _ hr => exact .inl hr
  | finishes _ hr => exact .inl hr

/-- Whoever waited for a call is neither refused nor called off by its answer. -/
theorem Awaiting.reply (h : Awaiting s r d call resume) {result : Except Fault call.Answer}
    (hend : resume result = .conclude f) :
    (f s).reply = .done ∨ ∃ u, (f s).reply = .updates u := by
  cases result with
  | ok a => exact (h.success hend).reply
  | error fault =>
    rw [h.fault] at hend
    exact reply_of_afterFault hend

theorem Awaiting.disables (h : Awaiting s r d call resume) {fault : Fault}
    (hend : resume (.error fault) = .conclude f) :
    (f s).state = .disabled ⟨r.operation, fault.message⟩ := by
  obtain ⟨reply, extra, heq, -⟩ := afterFault_eq r fault call
  rw [h.fault, heq] at hend
  cases hend
  rfl

/-- A request with the gate that comes to its end was not called off. -/
theorem reply_of_leads (hg : r.takesGate = true) (h : (r.plan settings s).Leads (.conclude f)) :
    (f s).reply ≠ .cancelled := by
  rcases last_of_leads h with hend | ⟨d, call, resume, result, hleads, hend⟩
  · rcases conclude_of_turn hg hend with ⟨reply, hidle, rfl⟩ | ⟨v, -, -, -, hd⟩
    · rw [Request.offReply_of_idle hidle]
      cases r <;> nofun
    · cases hd
      nofun
  · rcases (awaiting_of_leads hg hleads).reply hend with hr | ⟨u, hr⟩ <;> simp [hr]

/-- Whatever the answers, a request with the gate comes to one of its endings. -/
theorem ending_of_leads (hg : r.takesGate = true)
    (h : (r.plan settings s).Leads (.conclude f)) : Ending s r (f s) := by
  rcases last_of_leads h with hend | ⟨d, call, resume, result, hleads, hend⟩
  · rcases conclude_of_turn hg hend with ⟨reply, hidle, rfl⟩ | ⟨v, hv, hs, hp, hd⟩
    · exact .idle hidle
    · obtain ⟨hr, hc, ht⟩ := tells_of_disable hg hd s rfl rfl rfl
      exact .violates hv hs hp hr hc ht
  · have hcall := awaiting_of_leads hg hleads
    cases result with
    | ok a => exact (hcall.success hend).ending
    | error fault =>
      obtain ⟨reply, extra, heq, he, ha, ho⟩ := afterFault_eq r fault call
      rw [hcall.fault, heq] at hend
      obtain ⟨-, hc, ht⟩ := tells_of_disable hg hend s he ha ho
      exact .faults fault hg hcall.isOn hc ht

end LiveEdit
