import LiveEdit.Proofs.Session.Course
import LiveEdit.Proofs.Session.Log

/-! Once hot reload is off it stays off, and requests come to their ends without a call. -/
namespace LiveEdit

/-- Once hot reload is off there is nothing to write and nothing to say. -/
theorem Ending.of_disabled {s : SessionState} {r : Request} {c : Conclusion}
    (h : Ending s r c) (hd : s.isDisabled = true) : c.state = s ∧ c.effects = [] := by
  cases h with
  | idle => exact ⟨rfl, rfl⟩
  | violates _ hs => cases hs.symm.trans hd
  | faults _ _ hs => cases hs.symm.trans hd
  | starts _ _ hs => simp [hs, SessionState.isDisabled] at hd
  | breaks _ hs => simp [hs, SessionState.isDisabled] at hd
  | computes _ _ hs => simp [hs, SessionState.isDisabled] at hd
  | commits hs => simp [hs, SessionState.isDisabled] at hd
  | discards hs => simp [hs, SessionState.isDisabled] at hd
  | finishes hs => simp [hs, SessionState.isDisabled] at hd

namespace System

variable {origin sys sys' : System} {i : Nat} {t : Task} {m : Move} {c : Completion} {call : Call}
  {hs hs' earlier later : List Happening}

/-- The request is not issued yet, or waits for its turn. -/
def Unbegun (sys : System) (i : Nat) : Prop := ∀ t, sys.task? i = some t → t.position = .waiting

section step

variable {d : Discipline} {resume : Except Fault call.Answer → Plan}

/-- Only a check for changes can still be in a call once hot reload is off. -/
theorem no_gate_of_disabled (hp : sys.Planned) (hd : sys.state.isDisabled = true)
    (ht : sys.task? i = some t) (hin : t.position = .inCall d call resume) :
    t.request.takesGate = false := by
  cases hg : t.request.takesGate with
  | false => rfl
  | true => cases ((hp ht hin).awaiting hg).isOn.symm.trans hd

/-- Nothing brings a task to a call once hot reload is off. -/
theorem not_await_of_disabled (hp : sys.Planned) (hd : sys.state.isDisabled = true)
    (ht : sys.task? i = some t) : ¬ sys.Comes i t m (.await d call resume) := by
  intro hc
  obtain ⟨rfl, -, hplan⟩ | ⟨d', call', resume', result, rfl, hin, hend⟩ := hc.inv
  · cases (Request.plan_of_disabled sys.settings t.request hd).symm.trans hplan
  · have hg := no_gate_of_disabled hp hd ht hin
    obtain ⟨s, hleads, -⟩ := hp ht hin
    cases hr : t.request with
    | hasChanges scope =>
      rw [hr] at hleads
      obtain ⟨f, hf⟩ := conclude_of_leads_hasChanges hleads result
      cases hf.symm.trans hend
    | _ => simp [hr, Request.takesGate] at hg

/-- The session stays as it is, and at most a check that was under way reports a fault. -/
theorem disabled_step (hm : sys.Step m sys') (ho : sys.Orderly) (hp : sys.Planned)
    (hd : sys.state.isDisabled = true) : sys'.state = sys.state ∧
      ∃ es, sys'.history = sys.history ++ es ∧ OnlyReports es := by
  rcases session_step hm ho hp with hsame | ⟨i, t, c, -, -, -, hending, rfl⟩
  · exact hsame
  · obtain ⟨hs, he⟩ := hending.of_disabled hd
    exact ⟨hs, c.effects, rfl, by simp [he, OnlyReports]⟩

end step

theorem hasFired_iff : sys.hasFired i = true ↔ ∃ t, sys.task? i = some t ∧ t.fired = true := by
  cases ht : sys.task? i <;> simp [hasFired, ht]

/-- A token that has fired stays so. -/
theorem fired_step (hm : sys.Step m sys') (h : sys.hasFired i = true) :
    sys'.hasFired i = true := by
  obtain ⟨t, ht, hf⟩ := hasFired_iff.mp h
  have moved {j : Nat} {p : Position} : (sys.setPosition j p).hasFired i = true := by
    refine hasFired_iff.mpr ?_
    by_cases hji : j = i
    · exact ⟨{ t with position := p }, by simp [task?_setPosition, hji, ht], hf⟩
    · exact ⟨t, (task?_setPosition_of_ne hji).trans ht, hf⟩
  cases step_change hm with
  | issues r fired =>
    refine hasFired_iff.mpr ⟨t, ?_, hf⟩
    rw [task?_issue, if_neg (Nat.ne_of_lt (task?_lt ht)), ht]
  | fires j =>
    refine hasFired_iff.mpr ?_
    by_cases hji : j = i
    · exact ⟨{ t with fired := true }, by simp [task?_fire, hji, ht], rfl⟩
    · exact ⟨t, by simp [task?_fire, hji, ht], hf⟩
  | stays => exact h
  | joins => exact h
  | drops => exact moved (p := .dropped)
  | cancels => exact moved (p := .ended _)
  | calls => exact moved
  | concludes => exact moved (p := .ended _)

section run

variable (h : origin.Run hs sys) (ho : origin.IsFresh) (hd : sys.state.isDisabled = true)
include h ho hd

theorem Run.stays_disabled (h' : sys.Run hs' sys') : sys'.state = sys.state := by
  induction h' with
  | nil => rfl
  | @snoc hs' u v m h' hm ih =>
    have hrun := h.trans h'
    exact (disabled_step hm (hrun.orderly ho) (hrun.planned ho) (ih ▸ hd)).1.trans ih

theorem Run.calls_nothing (h' : sys.Run hs' sys') : ∀ i call, .called i call ∉ hs' := by
  induction h' with
  | nil => simp
  | @snoc hs' u v m h' hm ih =>
    intro i call hc
    rcases List.mem_append.mp hc with hc | hc
    · exact ih i call hc
    · obtain ⟨t, d, resume, ht, hcomes, -⟩ := called_of_mem hc hm
      have hoff := h.stays_disabled ho hd h'
      exact not_await_of_disabled ((h.trans h').planned ho) (hoff ▸ hd) ht hcomes

/-- Whoever had not begun when hot reload went off is never in a call. -/
theorem Run.never_inCall {d : Discipline} {resume : Except Fault call.Answer → Plan}
    (h' : sys.Run hs' sys') (hu : sys.Unbegun i) (ht : sys'.task? i = some t) :
    t.position ≠ .inCall d call resume := by
  intro hin
  induction h' generalizing t with
  | nil => cases (hu t ht).symm.trans hin
  | @snoc hs' u v m h' hm ih =>
    obtain ⟨t', ht', -, hsame | hcomes⟩ := inCall_step hm ht hin
    · exact ih ht' (hsame.trans hin)
    · have hoff := h.stays_disabled ho hd h'
      exact not_await_of_disabled ((h.trans h').planned ho) (hoff ▸ hd) ht' hcomes

/-- Whoever begins when hot reload is off gets the neutral answer, or is called off. -/
theorem Run.answers_off (h' : sys.Run hs' sys') (hu : sys.Unbegun i) (hc : .replied i c ∈ hs') :
    c.before = sys.state ∧ c.after = sys.state ∧ c.effects = [] ∧
      (c.reply = c.request.offReply ∨
        c.reply = .cancelled ∧ c.request.takesGate = true ∧ sys'.hasFired i = true) := by
  induction h' with
  | nil => simp at hc
  | @snoc hs' u v m h' hm ih =>
    rcases List.mem_append.mp hc with hc | hc
    · obtain ⟨hb, ha, he, hr⟩ := ih hc
      exact ⟨hb, ha, he, hr.imp_right fun ⟨hr, hg, hf⟩ => ⟨hr, hg, fired_step hm hf⟩⟩
    · have hoff := h.stays_disabled ho hd h'
      have hplanned := (h.trans h').planned ho
      obtain ⟨t, ht, hreplies⟩ := replies_of_mem hm hc
      cases hreplies with
      | cancels hf hq =>
        refine ⟨hoff, hoff, rfl, .inr ⟨rfl, ?_, fired_step hm (hasFired_eq ht ▸ hf)⟩⟩
        cases hq with
        | atGate _ hg => exact hg
        | beforeCall hcomes => exact absurd hcomes (not_await_of_disabled hplanned (hoff ▸ hd) ht)
        | inCall hin => exact absurd hin (h.never_inCall ho hd h' hu ht)
      | concludes hcomes =>
        obtain ⟨rfl, -, hplan⟩ | ⟨d, call, resume, result, rfl, hin, -⟩ := hcomes.inv
        · cases (Request.plan_of_disabled u.settings t.request (hoff ▸ hd)).symm.trans hplan
          exact ⟨hoff, hoff, rfl, .inl rfl⟩
        · exact absurd hin (h.never_inCall ho hd h' hu ht)

/-- Whoever takes the gate and ends when hot reload is off gets the neutral answer so, too. -/
theorem Run.gate_answers_off (h' : sys.Run hs' sys') (hc : .replied i c ∈ hs')
    (hg : c.request.takesGate = true) :
    c.before = sys.state ∧ c.after = sys.state ∧ c.effects = [] ∧
      (c.reply = c.request.offReply ∨
        c.reply = .cancelled ∧ c.request.takesGate = true ∧ sys'.hasFired i = true) := by
  refine h.answers_off ho hd h' (fun t ht => ?_) hc
  obtain ⟨u, hu, hr, -⟩ := h'.shows _ hc
  obtain ⟨v, hv, hgo⟩ := h'.goesOn ht
  cases hu.symm.trans hv
  cases hp : t.position with
  | waiting => rfl
  | inCall d call resume =>
    rw [← hr, hgo.request] at hg
    cases (no_gate_of_disabled (h.planned ho) hd ht hp).symm.trans hg
  | _ => exact absurd rfl (h'.silent ht (hp ▸ trivial) _ hc)

end run

/-- Whoever has its turn when hot reload is off comes to its end by it. -/
theorem turn_of_disabled (hd : sys.state.isDisabled = true) (ht : sys.task? i = some t)
    (hw : t.position = .waiting) (hg : t.request.takesGate = true → sys.gate.holder = some i) :
    sys.Step (.takeTurn i) (sys.conclude i ⟨t.request.offReply, sys.state, []⟩) := by
  have hturn := Step.arrive ht (.turn hw hg)
  have hplan : sys.planOf t.request = _ := Request.plan_of_disabled sys.settings t.request hd
  rw [hplan] at hturn
  exact hturn

theorem ends_of_turn (hd : sys.state.isDisabled = true) (ht : sys.task? i = some t)
    (hw : t.position = .waiting) (hg : t.request.takesGate = true → sys.gate.holder = some i) :
    ∃ hs' sys', sys.Run hs' sys' ∧ sys'.reply? i = some t.request.offReply :=
  ⟨_, _, Run.nil.snoc (turn_of_disabled hd ht hw hg), reply?_leave ht⟩

/-- Once hot reload is off, a request ends at its turn, with nothing done. -/
theorem Run.begun_disabled {r : Request} {found : SessionState}
    (h : origin.Run (earlier ++ .began i r found :: later) sys) (hd : found.isDisabled = true) :
    ∃ rest, later = .replied i ⟨r, r.offReply, found, found, []⟩ :: rest ∧
      ∀ e ∈ rest, e.task ≠ i := by
  obtain ⟨u, t, rest, hrun, ht, rfl, -, rfl, rfl, hrest⟩ := h.cut_turn
  have hplan : u.planOf t.request = _ := Request.plan_of_disabled u.settings t.request hd
  rw [hplan] at hrest ⊢
  refine ⟨rest, congrArg (· ++ rest) (arrival_conclude ht), ?_⟩
  exact hrest.silent (task?_setPosition_self ht) trivial

/-- Those before it in the queue can take their turns, and then it can. -/
theorem Run.ends_of_queue (h : origin.Run hs sys) (ho : origin.IsFresh)
    (hd : sys.state.isDisabled = true) (ht : sys.task? i = some t) (hw : t.position = .waiting)
    (hin : sys.gate.holder = some i ∨ i ∈ sys.gate.queue) :
    ∃ hs' sys', sys.Run hs' sys' ∧ sys'.reply? i = some t.request.offReply := by
  induction hq : sys.gate.queue generalizing hs sys with
  | nil =>
    rcases hin with hh | hin
    · exact ends_of_turn hd ht hw fun _ => hh
    · simp [hq] at hin
  | cons k ks ih =>
    rcases hin with hh | hin
    · exact ends_of_turn hd ht hw fun _ => hh
    · have hord := h.orderly ho
      obtain ⟨j, hj⟩ : ∃ j, sys.gate.holder = some j := by
        cases hh : sys.gate.holder with
        | none => simp [h.unqueued ho hh] at hq
        | some j => exact ⟨j, rfl⟩
      obtain ⟨u, hu, hg, hover⟩ := hord.holder hj
      have huw : u.position = .waiting := by
        cases hp : u.position with
        | waiting => rfl
        | inCall d call resume =>
          cases (no_gate_of_disabled (h.planned ho) hd hu hp).symm.trans hg
        | _ => exact (hover (hp ▸ trivial)).elim
      have hji : j ≠ i := by
        rintro rfl
        exact hord.apart hj hin
      -- the holder's turn hands the gate on to the first in the queue
      have hstep := turn_of_disabled hd hu huw fun _ => hj
      have hgate : (sys.conclude j ⟨u.request.offReply, sys.state, []⟩).gate = ⟨some k, ks⟩ := by
        simp [conclude, leave, setPosition, Gate.leave, hj, hq]
      have ht' : (sys.conclude j ⟨u.request.offReply, sys.state, []⟩).task? i = some t :=
        (task?_setPosition_of_ne hji).trans ht
      have hin' : some k = some i ∨ i ∈ ks := by
        rcases List.mem_cons.mp (hq ▸ hin) with rfl | hin
        · exact .inl rfl
        · exact .inr hin
      obtain ⟨hs', sys', hrun, hr⟩ :=
        ih (h.snoc hstep) hd ht' (by rw [hgate]; exact hin') (by rw [hgate])
      exact ⟨_, sys', (Run.nil.snoc hstep).trans hrun, hr⟩

/-- Once hot reload is off, whoever waits can be answered. -/
theorem Run.ends_of_waiting (h : origin.Run hs sys) (ho : origin.IsFresh)
    (hd : sys.state.isDisabled = true) (ht : sys.task? i = some t) (hw : t.position = .waiting) :
    ∃ hs' sys', sys.Run hs' sys' ∧ sys'.reply? i =
      some (if t.request.takesGate && t.fired then .cancelled else t.request.offReply) := by
  cases hg : t.request.takesGate with
  | false => exact ends_of_turn hd ht hw (by simp [hg])
  | true =>
    have hstep := Step.approach ht hw hg
    cases hf : t.fired with
    | true =>
      refine ⟨_, _, Run.nil.snoc hstep, ?_⟩
      rw [approach, hasFired_eq ht, hf]
      exact reply?_leave ht
    | false =>
      have happroach : sys.approach i = { sys with gate := sys.gate.join i } := by
        rw [approach, hasFired_eq ht, hf]
        rfl
      rw [happroach] at hstep
      have hin : (sys.gate.join i).holder = some i ∨ i ∈ (sys.gate.join i).queue := by
        rw [Gate.join]
        split
        next hin => exact hin
        next => split <;> simp
      obtain ⟨hs', sys', hrun, hr⟩ := (h.snoc hstep).ends_of_queue ho hd ht hw hin
      exact ⟨_, sys', (Run.nil.snoc hstep).trans hrun, hr⟩

end System

end LiveEdit
