import LiveEdit.Proofs.Session.Awaiting
import LiveEdit.Proofs.Session.Turns

/-! A task with the gate is on a plan for the session as it still is: no other task writes it. -/
namespace LiveEdit.System

variable {origin sys sys' : System} {i j : Nat} {t : Task} {m : Move} {hs : List Happening}
  {p : Plan}

/-- The plan is one that the request can be on; with the gate it is one for the present state. -/
def OnCourse (sys : System) (r : Request) (p : Plan) : Prop :=
  ∃ s, (r.plan sys.settings s).Leads p ∧ (r.takesGate = true → s = sys.state)

def Planned (sys : System) : Prop :=
  ∀ ⦃i t d call resume⦄, sys.task? i = some t → t.position = .inCall d call resume →
    sys.OnCourse t.request (.await d call resume)

theorem planned_of_isFresh (h : sys.IsFresh) : sys.Planned := by
  intro i t d call resume ht
  simp [task?, h.tasks] at ht

theorem onCourse_of_comes (h : sys.Planned) (ht : sys.task? i = some t)
    (hc : sys.Comes i t m p) : sys.OnCourse t.request p := by
  cases hc with
  | turn => exact ⟨sys.state, .here _, fun _ => rfl⟩
  | answer hp result =>
    obtain ⟨s, hl, hs⟩ := h ht hp
    exact ⟨s, hl.answer result, hs⟩

/-- A conclusion without the gate leaves the session alone and only reports. -/
theorem state_of_no_gate {f : SessionState → Conclusion}
    (hp : sys.OnCourse t.request (.conclude f)) (hg : t.request.takesGate = false)
    (s : SessionState) : (f s).state = s ∧ OnlyReports (f s).effects := by
  obtain ⟨s', hl, -⟩ := hp
  cases hr : t.request with
  | hasChanges scope =>
    rw [hr] at hl
    exact end_of_leads_hasChanges hl s
  | _ => simp [hr, Request.takesGate] at hg

/-- Without the gate a request calls for the current snapshot only. -/
theorem call_of_no_gate {d : Discipline} {call : Call}
    {resume : Except Fault call.Answer → Plan} (hp : sys.OnCourse t.request (.await d call resume))
    (hg : t.request.takesGate = false) : call = .currentSnapshot := by
  obtain ⟨s', hl, -⟩ := hp
  cases hr : t.request with
  | hasChanges scope =>
    rw [hr] at hl
    exact call_of_leads_hasChanges hl
  | _ => simp [hr, Request.takesGate] at hg

/-- A conclusion with the gate is an ending for the present state. -/
theorem ending_of_onCourse {f : SessionState → Conclusion}
    (hp : sys.OnCourse t.request (.conclude f)) (hg : t.request.takesGate = true) :
    Ending sys.state t.request (f sys.state) := by
  obtain ⟨s, hl, hs⟩ := hp
  cases hs hg
  exact ending_of_leads hg hl

/-- A call of a task with the gate is one that its request makes in the present state. -/
theorem OnCourse.awaiting {r : Request} {d : Discipline} {call : Call}
    {resume : Except Fault call.Answer → Plan} (h : sys.OnCourse r (.await d call resume))
    (hg : r.takesGate = true) : Awaiting sys.state r d call resume := by
  obtain ⟨s, hl, hs⟩ := h
  cases hs hg
  exact awaiting_of_leads hg hl

/-- Only the ending of a task with the gate writes the session or says anything about it. -/
theorem session_step (hm : sys.Step m sys') (ho : sys.Orderly) (h : sys.Planned) :
    (sys'.state = sys.state ∧
      ∃ es, sys'.history = sys.history ++ es ∧ OnlyReports es) ∨
    ∃ i t c, sys.task? i = some t ∧ t.request.takesGate = true ∧ sys.gate.holder = some i ∧
      Ending sys.state t.request c ∧ sys' = sys.conclude i c := by
  have quiet {sys' : System} (hs : sys'.state = sys.state) (hh : sys'.history = sys.history) :
      sys'.state = sys.state ∧ ∃ es, sys'.history = sys.history ++ es ∧ OnlyReports es :=
    ⟨hs, [], by simp [hh], by simp [OnlyReports]⟩
  cases step_change hm with
  | @concludes i t m f ht hc =>
    have hp := onCourse_of_comes h ht hc
    cases hg : t.request.takesGate with
    | false =>
      obtain ⟨hs, he⟩ := state_of_no_gate hp hg sys.state
      exact .inl ⟨hs, _, rfl, he⟩
    | true =>
      exact .inr ⟨i, t, _, ht, hg, ho.holder_of_comes ht hc hg, ending_of_onCourse hp hg, rfl⟩
  | _ => exact .inl (quiet rfl rfl)

/-- The session stays as it is until whoever is in a call with the gate comes to its end. -/
theorem state_of_inCall {d : Discipline} {call : Call} {resume : Except Fault call.Answer → Plan}
    (hm : sys.Step m sys') (ho : sys.Orderly) (h : sys.Planned) (ht : sys'.task? i = some t)
    (hg : t.request.takesGate = true) (hp : t.position = .inCall d call resume) :
    sys'.state = sys.state := by
  rcases session_step hm ho h with ⟨hs, -⟩ | ⟨j, u, c, hu, -, hj, -, rfl⟩
  · exact hs
  · have hji : j ≠ i := by
      rintro rfl
      rw [task?_conclude, task?_setPosition_self hu] at ht
      cases ht
      cases hp
    rw [task?_conclude, task?_setPosition_of_ne hji] at ht
    cases hj.symm.trans (ho.inCall ht hg hp)
    exact absurd rfl hji

theorem settings_step (hm : sys.Step m sys') : sys'.settings = sys.settings := by
  cases step_change hm <;> rfl

theorem Run.settings (h : origin.Run hs sys) : sys.settings = origin.settings := by
  induction h with
  | nil => rfl
  | snoc _ hm ih => exact (settings_step hm).trans ih

theorem planned_step (hm : sys.Step m sys') (ho : sys.Orderly) (h : sys.Planned) :
    sys'.Planned := by
  intro i t d call resume ht hp
  obtain ⟨u, hu, hr, hcase⟩ := inCall_step hm ht hp
  have hcourse : sys.OnCourse u.request (.await d call resume) := by
    rcases hcase with hpu | hc
    · exact h hu (hpu.trans hp)
    · exact onCourse_of_comes h hu hc
  obtain ⟨s, hl, hs⟩ := hcourse
  refine ⟨s, hr ▸ settings_step hm ▸ hl, fun hg => ?_⟩
  rw [hs (hr ▸ hg), state_of_inCall hm ho h ht hg hp]

theorem Run.planned (h : origin.Run hs sys) (ho : origin.IsFresh) : sys.Planned := by
  induction h with
  | nil => exact planned_of_isFresh ho
  | snoc h hm ih => exact planned_step hm (h.orderly ho) ih

/-- A request is called off, only reports, or comes to one of its endings. -/
inductive Regular (c : Completion) : Prop
  | calledOff (hr : c.reply = .cancelled) (hs : c.after = c.before) (he : c.effects = [])
  | checked (hg : c.request.takesGate = false) (hs : c.after = c.before)
      (he : OnlyReports c.effects)
  | ended (hg : c.request.takesGate = true)
      (he : Ending c.before c.request ⟨c.reply, c.after, c.effects⟩)

theorem regular_of_replies {c : Completion} (h : sys.Planned) (ht : sys.task? i = some t)
    (hr : sys.Replies i t m c) : Regular c := by
  cases hr with
  | cancels => exact .calledOff rfl rfl rfl
  | @concludes f hc =>
    have hp := onCourse_of_comes h ht hc
    cases hg : t.request.takesGate with
    | false =>
      obtain ⟨hs, he⟩ := state_of_no_gate hp hg sys.state
      exact .checked hg hs he
    | true => exact .ended hg (ending_of_onCourse hp hg)

theorem Run.regular {c : Completion} (h : origin.Run hs sys) (ho : origin.IsFresh)
    (hc : .replied i c ∈ hs) : Regular c := by
  induction h with
  | nil => simp at hc
  | snoc h hm ih =>
    rcases List.mem_append.mp hc with hc | hc
    · exact ih hc
    · obtain ⟨t, ht, hr⟩ := replies_of_mem hm hc
      exact regular_of_replies (h.planned ho) ht hr

end LiveEdit.System
