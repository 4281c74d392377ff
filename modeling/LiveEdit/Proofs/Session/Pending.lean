import LiveEdit.Proofs.Session.Disabled
import LiveEdit.Proofs.Session.Serializability
import LiveEdit.Proofs.Session.Traced

/-!
The pending snapshot is that of the last ready update which was not settled since. So the log of
a run tells which requests to commit or to discard are refused, and what the others do.
-/
namespace LiveEdit

/-- The snapshot of an update that the engine calls ready. -/
def Answered.ready? : Answered → Option Snapshot
  | ⟨.compute _ _ latest, .ok update⟩ => if update.status = .ready then some latest else none
  | _ => none

/-- A session starts or ends, or an update is committed or discarded. -/
def Answered.settles : Answered → Bool
  | ⟨.startSession _ _, .ok _⟩ => true
  | ⟨.commit _, .ok _⟩ => true
  | ⟨.discard _, .ok _⟩ => true
  | ⟨.closeSession _, .ok _⟩ => true
  | _ => false

/-- The log has no ready update and nothing that settles one. -/
def Quiet (hs : List Happening) : Prop :=
  ∀ i a, .answered i a ∈ hs → a.settles = false ∧ a.ready? = none

/-- The log's last ready update is for the snapshot, and nothing has settled it. -/
def Outstanding (hs : List Happening) (p : Snapshot) : Prop :=
  ∃ earlier i a later, hs = earlier ++ .answered i a :: later ∧ a.ready? = some p ∧ Quiet later

section outstanding

variable {hs es : List Happening} {p : Snapshot} {i : Nat} {a : Answered}

theorem outstanding_quiet (hq : Quiet es) : Outstanding (hs ++ es) p ↔ Outstanding hs p := by
  constructor
  · rintro ⟨earlier, i, a, later, heq, ha, hlater⟩
    rcases cut_append heq with ⟨l, -, rfl⟩ | ⟨l, rfl, rfl⟩
    · obtain ⟨-, hnone⟩ := hq i a (List.mem_append_right l List.mem_cons_self)
      cases hnone.symm.trans ha
    · exact ⟨earlier, i, a, l, rfl, ha, fun j b hb => hlater j b (List.mem_append_left es hb)⟩
  · rintro ⟨earlier, i, a, later, rfl, ha, hlater⟩
    refine ⟨earlier, i, a, later ++ es, by simp, ha, fun j b hb => ?_⟩
    rcases List.mem_append.mp hb with hb | hb
    · exact hlater j b hb
    · exact hq j b hb

/-- An answer that is neither ready nor settles anything leaves what is outstanding. -/
theorem outstanding_answered : Outstanding (hs ++ [.answered i a]) p ↔
    a.ready? = some p ∨ a.settles = false ∧ a.ready? = none ∧ Outstanding hs p := by
  constructor
  · rintro ⟨earlier, j, b, later, heq, hb, hlater⟩
    rcases cut_append heq with ⟨l, rfl, hlast⟩ | ⟨l, rfl, rfl⟩
    · cases l with
      | nil =>
        cases hlast
        exact .inl hb
      | cons e l => simp at hlast
    · obtain ⟨hsettles, hready⟩ := hlater i a (by simp)
      exact .inr ⟨hsettles, hready, earlier, j, b, l, rfl, hb, fun k c hc =>
        hlater k c (List.mem_append_left _ hc)⟩
  · rintro (ha | ⟨hsettles, hready, h⟩)
    · exact ⟨hs, i, a, [], rfl, ha, by simp [Quiet]⟩
    · refine (outstanding_quiet fun j b hb => ?_).mpr h
      cases List.mem_singleton.mp hb
      exact ⟨hsettles, hready⟩

end outstanding

/-- What the success of a call makes of the pending snapshot. -/
theorem Success.pending {s : SessionState} {r : Request} {a : Answered} {c : Conclusion}
    {p : Snapshot} (h : Success s r a c) : c.state.session?.bind (·.pending) = some p ↔
      a.ready? = some p ∨
        a.settles = false ∧ a.ready? = none ∧ s.session?.bind (·.pending) = some p := by
  cases h with
  | computes latest update hs hr hc =>
    rw [hc]
    by_cases hready : update.status = .ready <;>
      simp [hready, hs, Answered.ready?, Answered.settles, SessionState.session?]
  | starts _ _ _ hs _ hc => simp [hc, Answered.ready?, Answered.settles, SessionState.session?]
  | breaks _ hs _ hc => simp [hc, hs, Answered.ready?, Answered.settles, SessionState.session?]
  | commits hs _ _ hc => simp [hc, Answered.ready?, Answered.settles, SessionState.session?]
  | discards hs _ _ hc => simp [hc, Answered.ready?, Answered.settles, SessionState.session?]
  | finishes hs _ hc => simp [hc, Answered.ready?, Answered.settles, SessionState.session?]

namespace System

variable {origin sys sys' : System} {i : Nat} {t : Task} {m : Move} {c : Completion}
  {hs earlier later : List Happening} {p : Snapshot}

/-- A task without the gate is at most told the current snapshot. -/
theorem quiet_of_no_gate {q : Plan} (hp : sys.Planned) (ht : sys.task? i = some t)
    (hc : sys.Comes i t m q) (hg : t.request.takesGate = false) : Quiet (m.opening sys) := by
  intro j b hb
  obtain ⟨rfl, -, -⟩ | ⟨d, call, resume, result, rfl, hin, -⟩ := hc.inv
  · simp [Move.opening, ht] at hb
  · cases List.mem_singleton.mp hb
    obtain rfl := call_of_no_gate (hp ht hin) hg
    exact ⟨rfl, rfl⟩

/-- A task that goes on to a call was at most told the current snapshot. -/
theorem quiet_of_await {d : Discipline} {call : Call} {resume : Except Fault call.Answer → Plan}
    (hp : sys.Planned) (ht : sys.task? i = some t) (hc : sys.Comes i t m (.await d call resume)) :
    Quiet (m.opening sys) := by
  cases hg : t.request.takesGate with
  | false => exact quiet_of_no_gate hp ht hc hg
  | true =>
    intro j b hb
    obtain ⟨rfl, -, -⟩ | ⟨d', call', resume', result, rfl, hin, hend⟩ := hc.inv
    · simp [Move.opening, ht] at hb
    · obtain ⟨-, latest, heq, -⟩ := ((hp ht hin).awaiting hg).await hend
      cases heq
      cases List.mem_singleton.mp hb
      exact ⟨rfl, rfl⟩

/-- Unless hot reload is off, what is pending is what is outstanding. -/
def Kept (hs : List Happening) (sys : System) : Prop :=
  sys.state.isDisabled = false →
    ∀ p, sys.state.session?.bind (·.pending) = some p ↔ Outstanding hs p

theorem Kept.silent {es : List Happening} (h : Kept hs sys) (hs' : sys'.state = sys.state)
    (hq : Quiet es) : Kept (hs ++ es) sys' := by
  intro hon p
  rw [outstanding_quiet hq, hs']
  exact h (hs' ▸ hon) p

theorem Kept.active {session : ActiveSession} (h : Kept hs sys) (hs' : sys.state = .active session)
    (p : Snapshot) : session.pending = some p ↔ Outstanding hs p := by
  have hiff := h (by rw [hs']; rfl) p
  rwa [hs'] at hiff

theorem kept_conclude {f : SessionState → Conclusion} (hp : sys.Planned)
    (ht : sys.task? i = some t) (hc : sys.Comes i t m (.conclude f)) (h : Kept hs sys) :
    Kept (hs ++ m.opening sys) (sys.conclude i (f sys.state)) := by
  cases hg : t.request.takesGate with
  | false =>
    obtain ⟨hs', -⟩ := state_of_no_gate (onCourse_of_comes hp ht hc) hg sys.state
    exact h.silent hs' (quiet_of_no_gate hp ht hc hg)
  | true =>
    obtain ⟨rfl, -, hplan⟩ | ⟨d, call, resume, result, rfl, hin, hend⟩ := hc.inv
    · rcases conclude_of_turn hg hplan with ⟨reply, -, rfl⟩ | ⟨v, -, -, -, hd⟩
      · exact h.silent rfl (by simp [Quiet, Move.opening, ht])
      · cases hd
        intro hon
        cases hon
    · have hcall := (hp ht hin).awaiting hg
      cases result with
      | ok x =>
        intro _ p
        have hiff := (hcall.success hend).pending (p := p)
        rw [h hcall.isOn p] at hiff
        exact hiff.trans outstanding_answered.symm
      | error fault =>
        intro hon
        cases (congrArg SessionState.isDisabled (hcall.disables hend)).symm.trans hon

theorem kept_step (hm : sys.Step m sys') (hp : sys.Planned) (h : Kept hs sys) :
    Kept (hs ++ m.happenings sys sys') sys' := by
  cases step_entry hm with
  | silent hl hs' => exact h.silent hs' (by simp [Quiet, hl])
  | cancels ht _ hq =>
    have hopening : Quiet (m.opening sys) := by
      cases hq with
      | beforeCall hc => exact quiet_of_await hp ht hc
      | _ => simp [Quiet, Move.opening]
    rw [hq.happenings ht, ← List.append_assoc]
    exact (h.silent rfl hopening).silent rfl (by simp [Quiet])
  | calls ht hc =>
    rw [hc.happenings_call ht, ← List.append_assoc]
    exact (h.silent rfl (quiet_of_await hp ht hc)).silent rfl (by simp [Quiet])
  | concludes ht hc =>
    rw [hc.happenings_conclude ht, ← List.append_assoc]
    exact (kept_conclude hp ht hc h).silent rfl (by simp [Quiet])

theorem Run.kept (h : origin.Run hs sys) (ho : origin.IsFresh) (hn : origin.state = .noSession) :
    Kept hs sys := by
  induction h with
  | nil => simp [Kept, Outstanding, hn, SessionState.session?]
  | snoc h hm ih => exact kept_step hm (h.planned ho) ih

/-- What the log of a run tells about the requests to commit and to discard. -/
structure FollowsProtocol (hs : List Happening) (sys : System) : Prop where
  /-- At most one snapshot is pending: that of the last ready update, unless it is settled. -/
  pending {session : ActiveSession} (h : sys.state = .active session) (p : Snapshot) :
    session.pending = some p ↔ Outstanding hs p
  /-- Nothing but a ready update makes a snapshot pending. -/
  created {i : Nat} {c : Completion} {p : Snapshot} (hc : .replied i c ∈ hs)
    (hb : c.before.session?.bind (·.pending) ≠ some p)
    (ha : c.after.session?.bind (·.pending) = some p) :
    c.request = .getUpdates ∧ ∃ a, .answered i a ∈ hs ∧ a.ready? = some p
  /-- A ready update is for the snapshot fetched for it, and its request ends with it. -/
  ready {earlier later : List Happening} {i : Nat} {a : Answered} {p : Snapshot}
    (h : hs = earlier ++ .answered i a :: later) (ha : a.ready? = some p) :
    .answered i ⟨.currentSnapshot, .ok p⟩ ∈ earlier ∧ ∃ c rest u, later = .replied i c :: rest ∧
      c.request = .getUpdates ∧ c.reply = .updates u ∧ u.status = .ready
  /-- A request is answered once. -/
  once {i : Nat} {c c' : Completion} (h : .replied i c ∈ hs) (h' : .replied i c' ∈ hs) :
    c.reply = c'.reply
  /-- Who was not called off had a turn. -/
  turn {i : Nat} {c : Completion} {v : Violation} (hc : .replied i c ∈ hs)
    (hv : c.request.violation? = some v) (hr : c.reply ≠ .cancelled) :
    ∃ found, .began i c.request found ∈ hs
  rejected {earlier later : List Happening} {i : Nat} {r : Request} {found : SessionState}
    {v : Violation} (h : hs = earlier ++ .began i r found :: later)
    (hv : r.violation? = some v) : (∃ c, .replied i c ∈ hs ∧ c.reply = .violation v) ↔
      found.isDisabled = false ∧ ∀ p, ¬ Outstanding earlier p
  disables {i : Nat} {c : Completion} {v : Violation} (hc : .replied i c ∈ hs)
    (hv : c.request.violation? = some v) (hr : c.reply = .violation v) :
    c.after = .disabled ⟨c.request.operation, (Fault.protocol v).message⟩
  disabled {earlier later : List Happening} {i : Nat} {r : Request} {found : SessionState}
    {v : Violation} (h : hs = earlier ++ .began i r found :: later)
    (hv : r.violation? = some v) (hd : found.isDisabled = true) :
    ∃ rest, later = .replied i ⟨r, .done, found, found, []⟩ :: rest ∧ ∀ e ∈ rest, e.task ≠ i
  /-- A commit goes on to the outstanding snapshot. -/
  commits {earlier later : List Happening} {i : Nat} {engine : EngineSessionId}
    (h : hs = earlier ++ .answered i ⟨.commit engine, .ok ()⟩ :: later) :
    ∃ c rest session p, later = .replied i c :: rest ∧ c.request = .commit ∧ c.reply = .done ∧
      c.before = .active session ∧ Outstanding earlier p ∧
      c.after = .active { session with committed := p, pending := none }
  /-- A discard drops it. -/
  discards {earlier later : List Happening} {i : Nat} {engine : EngineSessionId}
    (h : hs = earlier ++ .answered i ⟨.discard engine, .ok ()⟩ :: later) :
    ∃ c rest session p, later = .replied i c :: rest ∧ c.request = .discard ∧ c.reply = .done ∧
      c.before = .active session ∧ Outstanding earlier p ∧
      c.after = .active { session with pending := none }

theorem ready?_eq_some {a : Answered} (h : a.ready? = some p) : ∃ engine committed update,
    a = ⟨.compute engine committed p, .ok update⟩ ∧ update.status = .ready := by
  unfold Answered.ready? at h
  split at h
  · obtain ⟨hready, heq⟩ := Option.ite_none_right_eq_some.mp h
    cases heq
    exact ⟨_, _, _, rfl, hready⟩
  · cases h

theorem takesGate_of_violation {r : Request} {v : Violation} (h : r.violation? = some v) :
    r.takesGate = true := by
  cases r <;> cases h <;> rfl

theorem Run.created (h : origin.Run hs sys) (ho : origin.IsFresh) (hc : .replied i c ∈ hs)
    (hb : c.before.session?.bind (·.pending) ≠ some p)
    (ha : c.after.session?.bind (·.pending) = some p) :
    c.request = .getUpdates ∧ ∃ a, .answered i a ∈ hs ∧ a.ready? = some p := by
  cases h.regular ho hc with
  | calledOff _ hs => exact absurd (hs ▸ ha) hb
  | checked _ hs => exact absurd (hs ▸ ha) hb
  | ended hg =>
    cases h.traced ho hc hg with
    | calledOff _ hs => exact absurd (hs ▸ ha) hb
    | idle _ hs => exact absurd (hs ▸ ha) hb
    | refused _ _ _ _ hs => simp [hs, SessionState.session?] at ha
    | failed _ _ hs => simp [hs, SessionState.session?] at ha
    | @served a hmem hsuccess =>
      rcases hsuccess.pending.mp ha with hready | ⟨-, -, hbefore⟩
      · refine ⟨?_, a, hmem, hready⟩
        obtain ⟨engine, committed, update, rfl, -⟩ := ready?_eq_some hready
        generalize c.request = r at hsuccess ⊢
        cases hsuccess
        rfl
      · exact absurd hbefore hb

theorem Run.turn (h : origin.Run hs sys) (ho : origin.IsFresh) (hc : .replied i c ∈ hs)
    (hg : c.request.takesGate = true) (hr : c.reply ≠ .cancelled) :
    ∃ found, .began i c.request found ∈ hs := by
  obtain ⟨t, ht, hreq, hend⟩ := h.shows _ hc
  by_cases hturn : i ∈ turnsOf hs
  · obtain ⟨r, found, hmem, -⟩ := mem_turnsOf.mp hturn
    obtain ⟨t', ht', hreq', -⟩ := h.shows _ hmem
    cases ht.symm.trans ht'
    cases hreq.symm.trans hreq'
    exact ⟨found, hmem⟩
  · rcases h.without_turn ho ht (hreq ▸ hg) hturn with hp | hp | hp
    · cases hend.symm.trans hp
    · cases hend.symm.trans hp
    · exact absurd (Position.ended.inj (hend.symm.trans hp)) hr

/-- Only a request that may be a violation is refused, and it is so by its turn. -/
theorem Run.refused {v : Violation} (h : origin.Run hs sys) (ho : origin.IsFresh)
    (hc : .replied i c ∈ hs) (hg : c.request.takesGate = true) (hr : c.reply = .violation v) :
    c.before.isDisabled = false ∧ c.before.session?.bind (·.pending) = none ∧
      c.after = .disabled ⟨c.request.operation, (Fault.protocol v).message⟩ := by
  cases h.traced ho hc hg with
  | calledOff hr' => cases hr'.symm.trans hr
  | idle hr' =>
    rw [hr'] at hr
    cases hreq : c.request <;> simp [hreq, Request.offReply] at hr
  | refused _ hr' hs hp ha =>
    cases hr'.symm.trans hr
    exact ⟨hs, hp, ha⟩
  | failed _ hr' => rcases hr' with hr' | ⟨u, hr'⟩ <;> cases hr'.symm.trans hr
  | served _ hsuccess =>
    rcases hsuccess.reply with hr' | ⟨u, hr'⟩ <;> cases hr'.symm.trans hr

theorem Run.rejected {r : Request} {found : SessionState} {v : Violation} (ho : origin.IsFresh)
    (hn : origin.state = .noSession)
    (h : origin.Run (earlier ++ .began i r found :: later) sys) (hv : r.violation? = some v) :
    (∃ c, .replied i c ∈ earlier ++ .began i r found :: later ∧ c.reply = .violation v) ↔
      found.isDisabled = false ∧ ∀ p, ¬ Outstanding earlier p := by
  have hg := takesGate_of_violation hv
  obtain ⟨u, t, rest, hrun, ht, rfl, -, rfl, rfl, -⟩ := h.cut_turn
  have hkept := hrun.kept ho hn
  constructor
  · rintro ⟨c, hc, hr⟩
    have hmem : .began i t.request u.state ∈ earlier ++ .began i t.request u.state ::
        (u.arrival (u.arrive i (u.planOf t.request)) i ++ rest) := by simp
    obtain ⟨t', ht', hreq, -⟩ := h.shows _ hmem
    obtain ⟨t'', ht'', hreq', -⟩ := h.shows _ hc
    cases ht'.symm.trans ht''
    obtain ⟨hs, hp, -⟩ := h.refused ho hc (hreq'.symm.trans hreq ▸ hg) hr
    rw [(h.steady ho).replied hmem hg hc] at hs hp
    refine ⟨hs, fun p hout => ?_⟩
    cases hp.symm.trans ((hkept hs p).mpr hout)
  · rintro ⟨hs, hout⟩
    have hp : u.state.session?.bind (·.pending) = none := by
      cases hp : u.state.session?.bind (·.pending) with
      | none => rfl
      | some p => exact absurd ((hkept hs p).mp hp) (hout p)
    obtain ⟨f, hplan, hr⟩ : ∃ f, u.planOf t.request = .conclude f ∧
        (f u.state).reply = .violation v := ⟨_, plan_of_violation u.settings hv hs hp, rfl⟩
    have harrival : u.arrival (u.arrive i (.conclude f)) i = _ := arrival_conclude ht
    rw [hplan, harrival]
    exact ⟨_, List.mem_append_right _ (.tail _ (.head _)), hr⟩

/-- The log tells which requests to commit or to discard are refused, and what the others do. -/
theorem coordinator_follows_protocol (h : origin.Run hs sys) (ho : origin.IsFresh)
    (hn : origin.state = .noSession) : FollowsProtocol hs sys where
  pending hs' p := (h.kept ho hn).active hs' p
  created hc hb ha := h.created ho hc hb ha
  ready := by
    rintro earlier later i a p rfl ha
    obtain ⟨engine, committed, update, rfl, hready⟩ := ready?_eq_some ha
    obtain ⟨u, ⟨r, reply, s, s', es⟩, rest, -, -, -, rfl, hsuccess, hfetched⟩ := h.served ho nofun
    cases hsuccess with
    | computes _ _ _ hr => exact ⟨hfetched p rfl, _, rest, _, rfl, rfl, hr, hready⟩
  once hc hc' := by
    obtain ⟨t, ht, -, hend⟩ := h.shows _ hc
    obtain ⟨t', ht', -, hend'⟩ := h.shows _ hc'
    cases ht.symm.trans ht'
    exact Position.ended.inj (hend.symm.trans hend')
  turn hc hv hr := h.turn ho hc (takesGate_of_violation hv) hr
  rejected := by
    rintro earlier later i r found v rfl hv
    exact h.rejected ho hn hv
  disables hc hv hr := (h.refused ho hc (takesGate_of_violation hv) hr).2.2
  disabled := by
    rintro earlier later i r found v rfl hv hd
    obtain ⟨rest, rfl, hrest⟩ := h.begun_disabled hd
    refine ⟨rest, ?_, hrest⟩
    cases r <;> cases hv <;> rfl
  commits := by
    rintro earlier later i engine rfl
    obtain ⟨u, ⟨r, reply, s, s', es⟩, rest, hrun, rfl, -, rfl, hsuccess, -⟩ := h.served ho nofun
    cases hsuccess with
    | commits hs hp hr hc =>
      have hout := ((hrun.kept ho hn).active hs _).mp hp
      exact ⟨_, rest, _, _, rfl, rfl, hr, hs, hout, hc⟩
  discards := by
    rintro earlier later i engine rfl
    obtain ⟨u, ⟨r, reply, s, s', es⟩, rest, hrun, rfl, -, rfl, hsuccess, -⟩ := h.served ho nofun
    cases hsuccess with
    | discards hs hp hr hc =>
      have hout := ((hrun.kept ho hn).active hs _).mp hp
      exact ⟨_, rest, _, _, rfl, rfl, hr, hs, hout, hc⟩

theorem commit_takes_last_ready : ∃ hs sys, System.Run { settings := {} } hs sys ∧
    .answered 2 ⟨.commit ⟨1⟩, .ok ()⟩ ∈ hs ∧
      sys.state = .active { engine := ⟨1⟩, committed := ⟨⟨0, 2⟩, 2, .empty⟩ } ∧
      FollowsProtocol hs sys := by
  let origin : System := { settings := {} }
  let snapshot (n : Nat) : Snapshot := ⟨⟨0, n⟩, n, .empty⟩
  let ready (reply : Reply) (es : List Effect) : System :=
    { settings := {}
      state := .active { engine := ⟨1⟩, committed := snapshot 1, pending := some (snapshot 2) }
      tasks := [⟨.start, false, .ended .done⟩, ⟨.getUpdates, false, .ended reply⟩]
      history := es }
  have fresh : origin.IsFresh := ⟨rfl, rfl, rfl⟩
  obtain ⟨hs, hstarted⟩ := fresh.starts rfl (snapshot 1) ⟨1⟩
  have hready : ∃ hs reply es, origin.Run hs (ready reply es) := by
    obtain ⟨_, begun⟩ := hstarted.takesTurn .getUpdates rfl rfl rfl
    have provided := begun.snoc (.arrive (i := 1) rfl (.answer rfl (.ok (snapshot 2))))
    let update : (Call.compute ⟨1⟩ (snapshot 1) (snapshot 2)).Answer := ({} : Update)
    have done := provided.snoc (.arrive (i := 1) rfl (.answer rfl (.ok update)))
    exact ⟨_, _, _, done⟩
  obtain ⟨hs, reply, es, hready⟩ := hready
  obtain ⟨_, begun⟩ := hready.takesTurn .commit rfl rfl rfl
  have done := begun.snoc (.arrive (i := 2) rfl (.answer rfl (.ok ())))
  refine ⟨_, _, done, List.mem_append_right _ (.head _), rfl, ?_⟩
  exact coordinator_follows_protocol done fresh rfl

end System

end LiveEdit
