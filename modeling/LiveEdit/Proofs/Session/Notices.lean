import LiveEdit.Proofs.Session.Ends
import LiveEdit.Proofs.Session.EventLog

/-! What reports of stops and resumptions make of a session that goes on. -/
namespace LiveEdit

/-- What a request told the session of the process, going by its reply. -/
def Request.notice? (r : Request) (reply : Reply) : Option (Option Bool) :=
  if reply = .done then r.break? else none

def Happening.notice? : Happening → Option (Option Bool)
  | .replied _ c => c.request.notice? c.reply
  | _ => none

def noticesOf (hs : List Happening) : List (Option Bool) := hs.filterMap Happening.notice?

def SessionEvent.breakState? : SessionEvent → Option BreakState
  | .breakStateChanged breakState => some breakState
  | _ => none

/-- The break states that the world was told of. -/
def breakStatesOf (effects : List Effect) : List BreakState :=
  (eventsOf effects).filterMap SessionEvent.breakState?

/-- Whenever a request came to its end, a session was active. -/
def StaysActive (hs : List Happening) : Prop :=
  ∀ i c, .replied i c ∈ hs → ∃ session', c.after = .active session'

/-- A session took note of a notice, and said so. -/
def Completion.IsApplied (c : Completion) : Prop :=
  ∃ inBreak session, c.request.break? = some inBreak ∧ c.before = .active session ∧
    c.after = .active { session with breakState := session.breakState.apply inBreak } ∧
    eventsOf c.effects = [.breakStateChanged (session.breakState.apply inBreak)]

/-- The session that takes note of all that it is told, and says so each time. -/
structure TakesNote (session : ActiveSession) (notices : List (Option Bool))
    (told : List BreakState) (session' : ActiveSession) : Prop where
  engine : session'.engine = session.engine
  breakState : session'.breakState = notices.foldl BreakState.apply session.breakState
  told : told = (notices.scanl BreakState.apply session.breakState).tail

variable {session session' session'' : ActiveSession} {notices notices' : List (Option Bool)}
  {told told' : List BreakState} {c : Completion} {r : Request} {hs : List Happening}

theorem breakStatesOf_append (a b : List Effect) :
    breakStatesOf (a ++ b) = breakStatesOf a ++ breakStatesOf b := by
  rw [breakStatesOf, eventsOf_append, List.filterMap_append]
  rfl

theorem noticesOf_append (a b : List Happening) : noticesOf (a ++ b) = noticesOf a ++ noticesOf b :=
  List.filterMap_append

theorem takesNote_nil (he : session'.engine = session.engine)
    (hb : session'.breakState = session.breakState) : TakesNote session [] [] session' :=
  ⟨he, hb, by simp⟩

theorem TakesNote.trans (h : TakesNote session notices told session')
    (h' : TakesNote session' notices' told' session'') :
    TakesNote session (notices ++ notices') (told ++ told') session'' where
  engine := h'.engine.trans h.engine
  breakState := by rw [List.foldl_append, ← h.breakState, h'.breakState]
  told := by
    have hne : notices.scanl BreakState.apply session.breakState ≠ [] := by
      cases notices <;> simp
    rw [List.scanl_append, List.tail_append_of_ne_nil hne, ← h.breakState, ← h.told, ← h'.told]

theorem Conclusion.Tells.breakStatesOf_eq {k : Conclusion} {event : SessionEvent}
    (h : k.Tells event) : breakStatesOf k.effects = event.breakState?.toList := by
  rw [breakStatesOf, h.events]
  cases event <;> rfl

theorem takesNote_quiet {reply : Reply} {effects : List Effect} (hr : r.break? = none)
    (he : session'.engine = session.engine) (hb : session'.breakState = session.breakState)
    (ht : breakStatesOf effects = []) :
    TakesNote session (r.notice? reply).toList (breakStatesOf effects) session' := by
  rw [ht, Request.notice?, hr, ite_self]
  exact takesNote_nil he hb

/-- An ending that leaves a session active changes its break state by a notice only. -/
theorem Ending.takesNote {k : Conclusion} (h : Ending (.active session) r k)
    (hk : k.state = .active session') :
    TakesNote session (r.notice? k.reply).toList (breakStatesOf k.effects) session' := by
  cases h with
  | idle hidle =>
    cases hk
    refine takesNote_quiet ?_ rfl rfl rfl
    cases r <;> simp_all [Request.idleReply?, Request.break?, SessionState.session?]
  | violates _ _ _ _ hc => cases hc.symm.trans hk
  | faults _ _ _ hc => cases hc.symm.trans hk
  | starts _ _ hs => cases hs
  | breaks hbreak hs hr hc ht =>
    cases hs
    cases hc.symm.trans hk
    rw [ht.breakStatesOf_eq, Request.notice?, if_pos hr, hbreak]
    exact ⟨rfl, rfl, rfl⟩
  | computes latest update hs hr hc ht =>
    cases hs
    have hsession := hc.symm.trans hk
    split at hsession
    · cases hsession
      exact takesNote_quiet rfl rfl rfl ht.breakStatesOf_eq
    · cases hsession
      exact takesNote_quiet rfl rfl rfl ht.breakStatesOf_eq
  | commits hs _ _ hc ht =>
    cases hs
    cases hc.symm.trans hk
    exact takesNote_quiet rfl rfl rfl ht.breakStatesOf_eq
  | discards hs _ _ hc ht =>
    cases hs
    cases hc.symm.trans hk
    exact takesNote_quiet rfl rfl rfl ht.breakStatesOf_eq
  | finishes _ _ hc => cases hc.symm.trans hk

namespace System

variable {origin sys sys' : System} {hs₀ : List Happening} {m : Move}

theorem Regular.takesNote (h : Regular c) (hb : c.before = .active session)
    (ha : c.after = .active session') :
    TakesNote session (c.request.notice? c.reply).toList (breakStatesOf c.effects) session' := by
  cases h with
  | calledOff hr hs he =>
    cases ha.symm.trans (hs.trans hb)
    rw [hr, he]
    exact takesNote_nil rfl rfl
  | checked hg hs he =>
    cases ha.symm.trans (hs.trans hb)
    refine takesNote_quiet ?_ rfl rfl (by rw [breakStatesOf, he.eventsOf_eq, List.filterMap_nil])
    cases hr : c.request <;> simp_all [Request.takesGate, Request.break?]
  | ended hg he => exact (hb ▸ he).takesNote ha

theorem noticesOf_silent (h : ∀ i c, .replied i c ∉ hs) : noticesOf hs = [] := by
  refine List.filterMap_eq_nil_iff.mpr fun e he => ?_
  cases e with
  | replied i c => exact absurd he (h i c)
  | _ => rfl

/-- A session that goes on takes note of all notices, and of nothing else. -/
theorem Run.takesNote (h : origin.Run hs₀ sys) (ho : origin.IsFresh) (h' : sys.Run hs sys')
    (hactive : sys.state = .active session) (hon : StaysActive hs) :
    ∃ session', sys'.state = .active session' ∧
      TakesNote session (noticesOf hs) (breakStatesOf (toldBy hs)) session' := by
  induction h' with
  | nil => exact ⟨session, hactive, takesNote_nil rfl rfl⟩
  | @snoc hs u v m h' hm ih =>
    obtain ⟨middle, hu, hnote⟩ := ih fun i c hc => hon i c (List.mem_append_left _ hc)
    rw [noticesOf_append, toldBy_append, breakStatesOf_append]
    rcases ending_of_step hm with ⟨hstate, hsilent⟩ | ⟨i, t, c, ht, hreplies, hafter, hlog⟩
    · refine ⟨middle, hstate.trans hu, ?_⟩
      rw [noticesOf_silent hsilent, toldBy_silent hsilent]
      exact hnote.trans (takesNote_nil rfl rfl)
    · obtain ⟨last, hlast⟩ := hon i c (List.mem_append_right _ (by simp [hlog]))
      have hregular := regular_of_replies ((h.trans h').planned ho) ht hreplies
      refine ⟨last, hafter.symm.trans hlast, hnote.trans ?_⟩
      rw [hlog, noticesOf_append, toldBy_append,
        noticesOf_silent fun _ _ => replied_not_mem_opening,
        toldBy_silent fun _ _ => replied_not_mem_opening]
      have htold : toldBy [.replied i c] = c.effects := List.append_nil _
      have hnotices : noticesOf [.replied i c] = (c.request.notice? c.reply).toList := by
        cases hn : c.request.notice? c.reply <;> simp [noticesOf, Happening.notice?, hn]
      rw [List.nil_append, List.nil_append, htold, hnotices]
      exact hregular.takesNote (hreplies.before_eq.trans hu) hlast

/-- A session that goes on was there before each ending. -/
theorem Run.found_active (h : origin.Run hs₀ sys) (ho : origin.IsFresh) (h' : sys.Run hs sys')
    (hactive : sys.state = .active session) (hon : StaysActive hs) {i : Nat}
    (hc : .replied i c ∈ hs) : ∃ session', c.before = .active session' := by
  induction h' with
  | nil => cases hc
  | snoc h' hm ih =>
    have hon' := fun i c hc => hon i c (List.mem_append_left _ hc)
    rcases List.mem_append.mp hc with hc | hc
    · exact ih hon' hc
    · obtain ⟨session', hu, -⟩ := h.takesNote ho h' hactive hon'
      obtain ⟨t, ht, hreplies⟩ := replies_of_mem hm hc
      exact ⟨session', hreplies.before_eq.trans hu⟩

theorem Regular.isApplied {inBreak : Option Bool} (h : Regular c)
    (hb : c.request.break? = some inBreak) (hr : c.reply = .done)
    (hbefore : c.before = .active session) (hafter : c.after = .active session') :
    c.IsApplied := by
  cases h with
  | calledOff hcancelled => cases hr.symm.trans hcancelled
  | checked hg => cases hreq : c.request <;> simp_all [Request.takesGate, Request.break?]
  | ended hg he =>
    obtain ⟨r, reply, before, after, effects⟩ := c
    simp only at hb hr hbefore hafter he
    subst hbefore hafter hr
    generalize hk : (⟨.done, .active session', effects⟩ : Conclusion) = k at he
    cases he with
    | idle hidle => cases r <;> simp_all [Request.idleReply?, Request.break?, SessionState.session?]
    | violates _ _ _ _ hc => cases hc.symm.trans (congrArg Conclusion.state hk.symm)
    | faults _ _ _ hc => cases hc.symm.trans (congrArg Conclusion.state hk.symm)
    | breaks hb' hs hr hc ht =>
      subst hk
      cases hs
      exact ⟨_, session, hb', rfl, hc, ht.events⟩
    | _ => cases hb

theorem plan_of_break {settings : SessionSettings} {s : SessionState} {inBreak : Option Bool}
    (hb : r.break? = some inBreak) : r.plan settings s = s.breakPlan r.operation inBreak := by
  cases r <;> cases hb <;> rfl

theorem reply_of_leads_break {s : SessionState} {operation : Operation} {inBreak : Option Bool}
    {f : SessionState → Conclusion} (h : (s.breakPlan operation inBreak).Leads (.conclude f))
    (s' : SessionState) : (f s').reply = .done := by
  cases s with
  | active session =>
    obtain ⟨fault | answer, h⟩ := Plan.leads_await.mp h
    · cases Plan.leads_conclude.mp h
      rfl
    · cases Plan.leads_conclude.mp h
      rfl
  | _ =>
    cases Plan.leads_reply.mp h
    rfl

/-- A notice is taken note of, or called off. -/
theorem Run.reply_of_break {inBreak : Option Bool} {i : Nat} (h : origin.Run hs sys)
    (ho : origin.IsFresh) (hc : .replied i c ∈ hs) (hb : c.request.break? = some inBreak) :
    c.reply = .done ∨ c.reply = .cancelled := by
  induction h with
  | nil => cases hc
  | snoc h hm ih =>
    rcases List.mem_append.mp hc with hc | hc
    · exact ih hc
    · obtain ⟨t, ht, hreplies⟩ := replies_of_mem hm hc
      cases hreplies with
      | cancels => exact .inr rfl
      | concludes hcomes =>
        obtain ⟨s, hleads, -⟩ := onCourse_of_comes (h.planned ho) ht hcomes
        rw [plan_of_break hb] at hleads
        exact .inl (reply_of_leads_break hleads _)

theorem conclude_of_break {settings : SessionSettings} {s : SessionState} {inBreak : Option Bool}
    {d : Discipline} {call : Call} {resume : Except Fault call.Answer → Plan}
    (hb : r.break? = some inBreak) (h : (r.plan settings s).Leads (.await d call resume))
    (result : Except Fault call.Answer) : ∃ f, resume result = .conclude f := by
  rw [plan_of_break hb] at h
  cases s with
  | active session =>
    rcases Plan.await_of_leads h with heq | ⟨answer, h⟩
    · cases heq
      cases result <;> exact ⟨_, rfl⟩
    · cases h
  | _ => cases h

/-- A notice that was called off was never answered. -/
theorem Run.unanswered {inBreak : Option Bool} {i : Nat} (h : origin.Run hs sys)
    (ho : origin.IsFresh) (hc : .replied i c ∈ hs) (hb : c.request.break? = some inBreak)
    (hr : c.reply = .cancelled) (a : Answered) : .answered i a ∉ hs := by
  intro ha
  obtain ⟨earlier, later, rfl⟩ := List.append_of_mem ha
  obtain ⟨u, t, d, resume, rest, hrun, ht, hp, rfl, hrest⟩ := h.cut_answer
  have hcomes : u.Comes i t (.answer i a) (resume a.result) := .answer hp _
  obtain ⟨v, hv, hreq, -⟩ := h.shows _ hc
  obtain ⟨v', hv', hgo⟩ := (Run.nil.snoc (.arrive ht hcomes)).trans hrest |>.goesOn ht
  cases hv.symm.trans hv'
  have hcourse := hrun.planned ho ht hp
  obtain ⟨f, hf⟩ : ∃ f, resume a.result = .conclude f := by
    obtain ⟨s, hleads, -⟩ := hcourse
    have hbreak : t.request.break? = some inBreak := by rw [← hgo.request, hreq, hb]
    exact conclude_of_break hbreak hleads a.result
  rw [hf] at hcomes hrest hc
  have harrival : u.arrival (u.arrive i (.conclude f)) i = _ := arrival_conclude ht
  rw [harrival] at hc
  simp only [List.mem_append, List.mem_cons, List.not_mem_nil, or_false, reduceCtorEq, false_or] at hc
  -- the task cannot end before its answer or after its end
  rcases hc with hc | hc | hc
  · obtain ⟨x, hx, -, hend⟩ := hrun.shows _ hc
    cases ht.symm.trans hx
    cases hp.symm.trans hend
  · cases hc
    exact reply_of_onCourse (onCourse_of_comes (hrun.planned ho) ht hcomes) hr
  · have hend := task?_setPosition_self (p := .ended (f u.state).reply) ht
    exact absurd rfl (hrest.silent hend trivial _ hc)

end System

end LiveEdit
