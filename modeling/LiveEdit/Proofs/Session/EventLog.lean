import LiveEdit.Proofs.Session.Course

/-! Who follows the events from the start knows the status of the session. -/
namespace LiveEdit

/-- The part of a status that events tell. -/
structure StatusView where
  phase : Phase
  breakState : Option BreakState := none
  hasPending : Bool := false
  committedVersion : Option Nat := none
  pendingVersion : Option Nat := none
  disableReason : Option DisableReason := none
  deriving DecidableEq

def SessionStatus.view (status : SessionStatus) : StatusView where
  phase := status.phase
  breakState := status.breakState
  hasPending := status.pendingVersion.isSome
  committedVersion := status.committed.map (·.2)
  pendingVersion := status.pendingVersion
  disableReason := status.disableReason

/-- The version of the pending update that an event settles. -/
def SessionEvent.settled? : SessionEvent → Option Nat
  | .committed version | .discarded version => some version
  | _ => none

namespace StatusView

def after (v : StatusView) : SessionEvent → StatusView
  | .started version =>
    { phase := .active, breakState := some .unknown, committedVersion := some version }
  | .breakStateChanged breakState => { v with breakState := some breakState }
  | .updatesComputed .ready version _ _ =>
    { v with hasPending := true, pendingVersion := some version }
  | .updatesComputed .. => v
  | .committed version =>
    { v with hasPending := false, committedVersion := some version, pendingVersion := none }
  | .discarded _ => { v with hasPending := false, pendingVersion := none }
  | .ended => { phase := .noSession }
  | .disabled operation message =>
    { phase := .disabled, disableReason := some ⟨operation, message⟩ }

def initial : StatusView := { phase := .noSession }

/-- The status that events lead to from no session. -/
def replay (events : List SessionEvent) : StatusView := events.foldl after initial

/-- The event can come next: hot reload is not off, and only what is pending is settled. -/
def Admits (v : StatusView) (event : SessionEvent) : Prop :=
  v.phase ≠ .disabled ∧
    ∀ version, event.settled? = some version → v.pendingVersion = some version

/-- Each event can come after those before it. -/
def Lawful (events : List SessionEvent) : Prop :=
  ∀ earlier event later, events = earlier ++ event :: later → (replay earlier).Admits event

theorem lawful_append {events : List SessionEvent} {event : SessionEvent} (h : Lawful events)
    (he : (replay events).Admits event) : Lawful (events ++ [event]) := by
  intro earlier e later heq
  rcases List.eq_nil_or_concat later with rfl | ⟨later', last, rfl⟩
  · obtain ⟨rfl, hlast⟩ := List.append_inj' heq rfl
    cases hlast
    exact he
  · rw [List.concat_eq_append, ← List.cons_append, ← List.append_assoc] at heq
    obtain ⟨hevents, -⟩ := List.append_inj' heq rfl
    exact h earlier e later' hevents

theorem phase_after_disabled (v : StatusView) (operation : Operation) (message : String) :
    (v.after (.disabled operation message)).phase = .disabled := rfl

/-- Nothing follows the event that hot reload is off. -/
theorem lawful_disabled {earlier later : List SessionEvent} {operation : Operation}
    {message : String} (h : Lawful (earlier ++ .disabled operation message :: later)) :
    later = [] := by
  cases later with
  | nil => rfl
  | cons e later =>
    have := (h (earlier ++ [.disabled operation message]) e later (by simp)).1
    simp [replay, phase_after_disabled] at this

end StatusView

open StatusView

variable {s : SessionState} {r : Request} {c : Conclusion} {origin sys sys' : System} {m : Move}
  {hs : List Happening}

theorem phase_view_ne_disabled (h : s.isDisabled = false) : s.status.view.phase ≠ .disabled := by
  cases s <;> simp_all [SessionState.isDisabled, SessionState.status, SessionStatus.view]

theorem pendingVersion_view {session : ActiveSession} {pending : Snapshot}
    (h : session.pending = some pending) :
    (SessionState.active session).status.view.pendingVersion = some pending.version := by
  simp [SessionState.status, SessionStatus.view, h]

/-- An ending changes nothing and says nothing, or tells the one event that says it all. -/
theorem ending_tells (h : Ending s r c) :
    (c.state = s ∧ eventsOf c.effects = [] ∧ auditsOf c.effects = []) ∨
    ∃ event, c.Tells event ∧ s.status.view.Admits event ∧
      c.state.status.view = s.status.view.after event := by
  cases h with
  | idle => exact .inl ⟨rfl, rfl, rfl⟩
  | violates _ hs _ _ hc ht =>
    exact .inr ⟨_, ht, ⟨phase_view_ne_disabled hs, nofun⟩, by rw [hc]; rfl⟩
  | faults fault _ hs hc ht =>
    exact .inr ⟨_, ht, ⟨phase_view_ne_disabled hs, nofun⟩, by rw [hc]; rfl⟩
  | starts baseline engine hs _ hc ht =>
    subst hs
    exact .inr ⟨_, ht, ⟨nofun, nofun⟩, by rw [hc]; rfl⟩
  | breaks _ hs _ hc ht =>
    subst hs
    exact .inr ⟨_, ht, ⟨nofun, nofun⟩, by rw [hc]; rfl⟩
  | computes latest update hs _ hc ht =>
    subst hs
    refine .inr ⟨_, ht, ⟨nofun, nofun⟩, ?_⟩
    rw [hc]
    cases update.status <;> rfl
  | commits hs hp _ hc ht =>
    subst hs
    refine .inr ⟨_, ht, ⟨nofun, ?_⟩, by rw [hc]; rfl⟩
    rintro version ⟨⟩
    exact pendingVersion_view hp
  | discards hs hp _ hc ht =>
    subst hs
    refine .inr ⟨_, ht, ⟨nofun, ?_⟩, by rw [hc]; rfl⟩
    rintro version ⟨⟩
    exact pendingVersion_view hp
  | finishes hs _ hc ht =>
    subst hs
    exact .inr ⟨_, ht, ⟨nofun, nofun⟩, by rw [hc]; rfl⟩

/-- The events so far tell the state and are lawful, and the audit trail goes with them. -/
structure System.Logged (sys : System) : Prop where
  told : replay (eventsOf sys.history) = sys.state.status.view
  lawful : Lawful (eventsOf sys.history)
  audited : auditsOf sys.history = (eventsOf sys.history).filterMap SessionEvent.audit?

theorem eventsOf_append (a b : List Effect) : eventsOf (a ++ b) = eventsOf a ++ eventsOf b :=
  List.filterMap_append

theorem auditsOf_append (a b : List Effect) : auditsOf (a ++ b) = auditsOf a ++ auditsOf b :=
  List.filterMap_append

theorem OnlyReports.eventsOf_eq {es : List Effect} (h : OnlyReports es) : eventsOf es = [] := by
  refine List.filterMap_eq_nil_iff.mpr fun e he => ?_
  have := h e he
  cases e <;> simp_all [Effect.isCheckReport, Effect.event?]

theorem OnlyReports.auditsOf_eq {es : List Effect} (h : OnlyReports es) : auditsOf es = [] := by
  refine List.filterMap_eq_nil_iff.mpr fun e he => ?_
  have := h e he
  cases e <;> simp_all [Effect.isCheckReport, Effect.audit?]

/-- What neither writes the session nor tells an event keeps the log. -/
theorem System.Logged.of_silent (h : sys.Logged) (hs : sys'.state = sys.state) {es : List Effect}
    (hh : sys'.history = sys.history ++ es) (he : eventsOf es = []) (ha : auditsOf es = []) :
    sys'.Logged := by
  have hev : eventsOf sys'.history = eventsOf sys.history := by simp [hh, eventsOf_append, he]
  have hau : auditsOf sys'.history = auditsOf sys.history := by simp [hh, auditsOf_append, ha]
  exact ⟨by rw [hev, hs, h.told], by rw [hev]; exact h.lawful, by rw [hau, hev, h.audited]⟩

theorem System.logged_conclude {i : Nat} (h : sys.Logged) (he : Ending sys.state r c) :
    (sys.conclude i c).Logged := by
  rcases ending_tells he with ⟨hs, hev, hau⟩ | ⟨event, ht, ha, hv⟩
  · exact h.of_silent hs rfl hev hau
  · have hev : eventsOf (sys.conclude i c).history = eventsOf sys.history ++ [event] := by
      simp [System.conclude, eventsOf_append, ht.events]
    have hau : auditsOf (sys.conclude i c).history =
        auditsOf sys.history ++ event.audit?.toList := by
      simp [System.conclude, auditsOf_append, ht.audits]
    refine ⟨?_, ?_, ?_⟩
    · calc replay (eventsOf (sys.conclude i c).history)
          = (replay (eventsOf sys.history)).after event := by simp [hev, replay]
        _ = sys.state.status.view.after event := by rw [h.told]
        _ = (sys.conclude i c).state.status.view := hv.symm
    · rw [hev]
      exact lawful_append h.lawful (h.told ▸ ha)
    · rw [hau, hev, h.audited, List.filterMap_append]
      cases h : event.audit? <;> simp [h]

theorem System.logged_step (hm : sys.Step m sys') (ho : sys.Orderly) (hp : sys.Planned)
    (h : sys.Logged) : sys'.Logged := by
  rcases System.session_step hm ho hp with ⟨hs, es, hh, he⟩ | ⟨i, t, c, -, -, -, he, rfl⟩
  · exact h.of_silent hs hh he.eventsOf_eq he.auditsOf_eq
  · exact System.logged_conclude h he

theorem System.Run.logged (h : origin.Run hs sys) (ho : origin.IsFresh)
    (hs : origin.state = .noSession) : sys.Logged := by
  induction h with
  | nil =>
    refine ⟨?_, ?_, ?_⟩
    · rw [ho.history, hs]
      rfl
    · intro earlier event later heq
      simp [ho.history, eventsOf] at heq
    · rw [ho.history]
      rfl
  | snoc h hm ih => exact System.logged_step hm (h.orderly ho) (h.planned ho) ih

/-- The events tell the status at every moment, and the audit trail is what goes with them. -/
theorem events_tell_status (h : origin.Run hs sys) (ho : origin.IsFresh)
    (hstate : origin.state = .noSession) :
    replay (eventsOf sys.history) = sys.state.status.view ∧
      (∀ earlier event later version, eventsOf sys.history = earlier ++ event :: later →
        event = .committed version ∨ event = .discarded version →
        (replay earlier).pendingVersion = some version) ∧
      (∀ earlier operation message later,
        eventsOf sys.history = earlier ++ .disabled operation message :: later → later = []) ∧
      auditsOf sys.history = (eventsOf sys.history).filterMap SessionEvent.audit? := by
  obtain ⟨htold, hlawful, haudited⟩ := h.logged ho hstate
  refine ⟨htold, ?_, ?_, haudited⟩
  · rintro earlier event later version heq (rfl | rfl)
    · exact (hlawful _ _ _ heq).2 version rfl
    · exact (hlawful _ _ _ heq).2 version rfl
  · intro earlier operation message later heq
    exact lawful_disabled (heq ▸ hlawful)

theorem events_tell_start : ∃ hs sys, System.Run { settings := {} } hs sys ∧
    eventsOf sys.history = [.started 1] ∧
      replay (eventsOf sys.history) = sys.state.status.view := by
  have fresh : System.IsFresh { settings := {} } := ⟨rfl, rfl, rfl⟩
  obtain ⟨hs, started⟩ := fresh.starts rfl ⟨⟨0, 1⟩, 1, .empty⟩ ⟨1⟩
  exact ⟨hs, _, started, rfl, (events_tell_status started fresh rfl).1⟩

end LiveEdit
