import LiveEdit.Proofs.Session.Course
import LiveEdit.Proofs.Session.Log

/-!
What a check for changes says that outlives its session: no, unless the fetch of the latest
snapshot went wrong.
-/
namespace LiveEdit

/-- The answer of a check, for the session at its end and what came of the fetch. -/
def checkAnswer (settings : SessionSettings) (scope : Option String) (s : SessionState) :
    Except Fault Snapshot → Bool
  | .ok latest => s.session?.any fun session =>
      session.committed.differsFrom latest scope settings.detection
  | .error _ => true

def checkReports : Except Fault Snapshot → List Effect
  | .ok _ => []
  | .error fault => [.report .hasChanges fault]

/-- The end of a check, and what the log has right before it. -/
inductive CheckEnds (settings : SessionSettings) (earlier : List Happening) (i : Nat)
    (scope : Option String) (c : Completion) : Prop
  | calledOff (hr : c.reply = .cancelled)
  | idle (hl : earlier.getLast? = some (.began i (.hasChanges scope) c.before))
      (hs : c.before.session? = none) (hr : c.reply = .changed false)
  | fetched (result : Except Fault Snapshot)
      (hl : earlier.getLast? = some (.answered i ⟨.currentSnapshot, result⟩))
      (hr : c.reply = .changed (checkAnswer settings scope c.before result))

variable {settings : SessionSettings} {scope : Option String} {s : SessionState}

theorem conclude_of_hasChanges {f : SessionState → Conclusion}
    (h : s.hasChangesPlan settings scope = .conclude f) :
    s.session? = none ∧ f = fun s => { reply := .changed false, state := s } := by
  cases s with
  | active session => cases h
  | _ =>
    cases h
    exact ⟨rfl, rfl⟩

/-- A check that has its snapshot, or has none, looks at the session as it is by then. -/
theorem resume_of_leads_hasChanges {d : Discipline} {resume : Except Fault Snapshot → Plan}
    (h : (s.hasChangesPlan settings scope).Leads (.await d .currentSnapshot resume))
    (result : Except Fault Snapshot) : resume result = .conclude fun s =>
      { reply := .changed (checkAnswer settings scope s result)
        state := s
        effects := checkReports result } := by
  cases s with
  | active session =>
    cases h with
    | here => cases result <;> rfl
    | answered result' h => rcases result' with fault | latest <;> cases h
  | _ => cases h

namespace System

variable {origin sys : System} {t : Task} {i : Nat} {a : Answered} {c : Completion}
  {found : SessionState} {hs earlier later : List Happening}

/-- A check that is in a call waits for the current snapshot, and then it ends. -/
theorem Planned.resume_of_check {d : Discipline} {call : Call}
    {resume : Except Fault call.Answer → Plan} (h : sys.Planned) (ht : sys.task? i = some t)
    (hp : t.position = .inCall d call resume) (hr : t.request = .hasChanges scope)
    (result : Except Fault call.Answer) : ∃ fetched : Except Fault Snapshot,
      (⟨call, result⟩ : Answered) = ⟨.currentSnapshot, fetched⟩ ∧
      resume result = .conclude fun s =>
        { reply := .changed (checkAnswer sys.settings scope s fetched)
          state := s
          effects := checkReports fetched } := by
  have hcourse := h ht hp
  have hcall : call = .currentSnapshot := call_of_no_gate hcourse (by rw [hr]; rfl)
  subst hcall
  obtain ⟨s, hl, -⟩ := hcourse
  rw [hr] at hl
  exact ⟨result, rfl, resume_of_leads_hasChanges hl result⟩

/-- A check ends as soon as its call is answered. -/
theorem Run.ends_check (h : origin.Run (earlier ++ .answered i a :: later) sys)
    (ho : origin.IsFresh) (hb : .began i (.hasChanges scope) found ∈ earlier) :
    ∃ fetched rest, a = ⟨.currentSnapshot, fetched⟩ ∧
      later = .replied i
        ⟨.hasChanges scope,
          .changed (checkAnswer origin.settings scope (stateAfter origin.state earlier) fetched),
          stateAfter origin.state earlier, stateAfter origin.state earlier,
          checkReports fetched⟩ :: rest := by
  obtain ⟨u, t, d, resume, rest, hrun, ht, hp, rfl, -⟩ := h.cut_answer
  obtain ⟨t', ht', hr, -⟩ := hrun.shows _ hb
  cases ht.symm.trans ht'
  obtain ⟨fetched, ha, hresume⟩ := (hrun.planned ho).resume_of_check ht hp hr a.result
  rw [hresume, ← hrun.accounted.state, ← hrun.settings, ← hr]
  exact ⟨fetched, rest, ha, congrArg (· ++ rest) (arrival_conclude ht)⟩

/-- Where a log has the reply to a check, it has before it what the reply comes from. -/
theorem Run.check_ends (h : origin.Run (earlier ++ .replied i c :: later) sys)
    (ho : origin.IsFresh) (hr : c.request = .hasChanges scope) :
    CheckEnds origin.settings earlier i scope c := by
  obtain ⟨before, u, m, t, rfl, hrun, ht, hreplies⟩ := h.cut_reply
  cases hreplies with
  | cancels => exact .calledOff rfl
  | @concludes f hc =>
    simp only at hr
    rw [← hrun.settings]
    rcases hc.inv with ⟨rfl, -, hplan⟩ | ⟨d, call, resume, result, rfl, hp, hplan⟩
    · rw [hr] at hplan
      obtain ⟨hs, rfl⟩ := conclude_of_hasChanges hplan
      exact .idle (by simp [Move.opening, ht, hr]) hs rfl
    · obtain ⟨fetched, ha, hresume⟩ := (hrun.planned ho).resume_of_check ht hp hr result
      cases hresume.symm.trans hplan
      exact .fetched fetched (by simp [Move.opening, ha]) rfl

/-- What checks say in a run when no session is active any more. -/
structure AnswersDeparted (origin : System) (hs : List Happening) : Prop where
  /-- The snapshot is of no use any more. -/
  fetched {earlier later : List Happening} {i : Nat} {scope : Option String}
    {found : SessionState} {latest : Snapshot}
    (h : hs = earlier ++ .answered i ⟨.currentSnapshot, .ok latest⟩ :: later)
    (hb : .began i (.hasChanges scope) found ∈ earlier)
    (hgone : (stateAfter origin.state earlier).session? = none) :
    ∃ rest, later = .replied i
      ⟨.hasChanges scope, .changed false, stateAfter origin.state earlier,
        stateAfter origin.state earlier, []⟩ :: rest
  /-- A fault counts as a change, whether there is a session or not. -/
  faulted {earlier later : List Happening} {i : Nat} {scope : Option String}
    {found : SessionState} {fault : Fault}
    (h : hs = earlier ++ .answered i ⟨.currentSnapshot, .error fault⟩ :: later)
    (hb : .began i (.hasChanges scope) found ∈ earlier) :
    ∃ rest, later = .replied i
      ⟨.hasChanges scope, .changed true, stateAfter origin.state earlier,
        stateAfter origin.state earlier, [.report .hasChanges fault]⟩ :: rest
  /-- Nothing else makes a check say yes. -/
  changed {earlier later : List Happening} {i : Nat} {scope : Option String} {c : Completion}
    (h : hs = earlier ++ .replied i c :: later) (hr : c.request = .hasChanges scope)
    (hgone : c.before.session? = none) (hc : c.reply ≠ .cancelled) :
    c.reply = .changed false ∨ c.reply = .changed true ∧
      ∃ fault, earlier.getLast? = some (.answered i ⟨.currentSnapshot, .error fault⟩)

theorem checkAnswer_of_none {latest : Snapshot} (h : s.session? = none) :
    checkAnswer settings scope s (.ok latest) = false := by
  rw [checkAnswer, h]
  rfl

/-- A check that outlives its session finds no change, unless its fetch meets a fault. -/
theorem departed_session_changes_by_fault_only (h : origin.Run hs sys) (ho : origin.IsFresh) :
    AnswersDeparted origin hs := by
  constructor
  case fetched =>
    rintro earlier later i scope found latest rfl hb hgone
    obtain ⟨fetched, rest, ha, hlater⟩ := h.ends_check ho hb
    cases ha
    rw [checkAnswer_of_none hgone] at hlater
    exact ⟨rest, hlater⟩
  case faulted =>
    rintro earlier later i scope found fault rfl hb
    obtain ⟨fetched, rest, ha, hlater⟩ := h.ends_check ho hb
    cases ha
    exact ⟨rest, hlater⟩
  case changed =>
    rintro earlier later i scope c rfl hr hgone hc
    cases h.check_ends ho hr with
    | calledOff hcancelled => exact absurd hcancelled hc
    | idle _ _ hreply => exact .inl hreply
    | fetched fetched hl hreply =>
      cases fetched with
      | ok latest =>
        rw [checkAnswer_of_none hgone] at hreply
        exact .inl hreply
      | error fault => exact .inr ⟨hreply, fault, hl⟩

/-- The session ends while a check waits for its snapshot. -/
theorem check_outlives_session : ∃ hs sys resume,
    System.Run { settings := {} } hs sys ∧ sys.state = .noSession ∧
      (∃ session, .began 1 (.hasChanges none) (.active session) ∈ hs) ∧
      sys.task? 1 = some
        ⟨.hasChanges none, false, .inCall .interruptible .currentSnapshot resume⟩ := by
  have fresh : System.IsFresh { settings := {} } := ⟨rfl, rfl, rfl⟩
  let session : ActiveSession := { engine := ⟨1⟩, committed := ⟨⟨0, 0⟩, 0, .empty⟩ }
  obtain ⟨hs, started⟩ := fresh.starts rfl session.committed session.engine
  have issued := started.snoc (.issue (.hasChanges none) false)
  have checking := issued.snoc (.arrive (i := 1) rfl (.turn rfl nofun))
  obtain ⟨hs', closing⟩ := checking.takesTurn .finish rfl rfl rfl
  have ended := closing.snoc (.arrive (i := 2) rfl (.answer rfl (.ok ())))
  refine ⟨_, _, _, ended, rfl, ⟨session, ?_⟩, rfl⟩
  apply List.mem_append_left
  apply List.mem_append_left
  exact List.mem_append_right _ List.mem_cons_self

/-- What was edited is no change any more. -/
theorem edit_is_no_change_after_departure :
    let edited : Snapshot := ⟨⟨0, 1⟩, 1, .ofList [⟨.ofText "main.src", "app", "one", false⟩]⟩
    ∃ earlier later sys rest,
      System.Run { settings := {} }
        (earlier ++ .answered 1 ⟨.currentSnapshot, .ok edited⟩ :: later) sys ∧
      (∃ session, .began 1 (.hasChanges none) (.active session) ∈ earlier) ∧
      stateAfter .noSession earlier = .noSession ∧
      later = .replied 1
        ⟨.hasChanges none, .changed false, .noSession, .noSession, []⟩ :: rest := by
  intro edited
  obtain ⟨hs, sys, resume, hrun, hstate, hb, ht⟩ := check_outlives_session
  have hgone : stateAfter .noSession hs = .noSession := hrun.accounted.state.symm.trans hstate
  have fetched := hrun.snoc (.arrive ht (.answer rfl (.ok edited)))
  have hlog := departed_session_changes_by_fault_only fetched ⟨rfl, rfl, rfl⟩
  obtain ⟨rest, hlater⟩ := hlog.fetched rfl hb.choose_spec (by rw [hgone]; rfl)
  rw [hgone] at hlater
  exact ⟨hs, _, _, rest, fetched, hb, hgone, hlater⟩

/-- A fault is a change even of a session that is gone. -/
theorem fault_is_change_after_departure :
    let fault : Fault := .provider (.unavailable "offline")
    ∃ earlier later sys rest,
      System.Run { settings := {} }
        (earlier ++ .answered 1 ⟨.currentSnapshot, .error fault⟩ :: later) sys ∧
      (∃ session, .began 1 (.hasChanges none) (.active session) ∈ earlier) ∧
      stateAfter .noSession earlier = .noSession ∧
      later = .replied 1
        ⟨.hasChanges none, .changed true, .noSession, .noSession,
          [.report .hasChanges fault]⟩ :: rest := by
  intro fault
  obtain ⟨hs, sys, resume, hrun, hstate, hb, ht⟩ := check_outlives_session
  have hgone : stateAfter .noSession hs = .noSession := hrun.accounted.state.symm.trans hstate
  have faulted := hrun.snoc (.arrive ht (.answer rfl (.error fault)))
  obtain ⟨fetched, rest, ha, hlater⟩ :=
    Run.ends_check faulted ⟨rfl, rfl, rfl⟩ hb.choose_spec
  cases ha
  rw [hgone] at hlater
  exact ⟨hs, _, _, rest, faulted, hb, hgone, hlater⟩

end System

end LiveEdit
